import Mathlib.Algebra.Order.Ring.Unbundled.Rat
import UniDocs.Lemmas.CanonicalRequest
import UniDocs.Lib.Digest

/-!
# Authentication of platform requests

The canonical bytes determine the signed fields; a request that was signed and is delivered in time is accepted; and over any
run of verifications a signed request is accepted at most once, and nothing else is accepted.
-/

namespace UniDocs.Auth

open Lib UniDocs.Codec UniDocs.Cas

variable {Key : Type} {platform : Platform Key}

theorem authorize_ok {condition : Bool} {u : Unit} : authorize condition = .ok u ↔ condition = true := by
  cases condition <;> simp [authorize]

/-! ## A signed request is accepted -/

/-- Digits are read back. -/
theorem parseDecimal_toString (n : Nat) : parseDecimal (toString n) = some n := by
  have hlist : (toString n).toList = Nat.toDigits 10 n := by rw [Nat.toString_eq_repr, Nat.toList_repr]
  have hvalue : Nat.ofDigitChars 10 (Nat.toDigits 10 n) 0 = n := Nat.ofDigitChars_toDigits (by decide) (by decide)
  rw [parseDecimal, hlist]
  cases hdigits : Nat.toDigits 10 n with
  | nil => exact absurd hdigits (by simp)
  | cons c cs =>
    have hall : (c :: cs).all Char.isDigit = true := by
      rw [List.all_eq_true]
      intro d hd
      exact mem_toDigits_isDigit (hdigits ▸ hd)
    have hzero : c ≠ '0' ∨ cs = [] := by
      by_cases hn : n = 0
      · subst hn
        rw [Nat.toDigits_zero] at hdigits
        exact .inr (List.cons.inj hdigits).2.symm
      · left
        rintro rfl
        exact toDigits_head_ne_zero n (by omega) (by rw [hdigits]; rfl)
    dsimp only
    rw [if_pos ⟨hall, hzero⟩, ← hdigits, hvalue]

/-- What a valid authentication is, apart from the time. -/
structure WellFormed (authentication : Authentication) : Prop where
  tokens : [authentication.keyId, authentication.platformId, authentication.environment, authentication.serviceId,
    authentication.nonce].all tokenPattern = true
  issued : 0 ≤ authentication.issuedAt ∧ authentication.issuedAt ≤ maxSafeInteger
  expires : -maxSafeInteger ≤ authentication.expiresAt ∧ authentication.expiresAt ≤ maxSafeInteger
  lifetime : authentication.issuedAt < authentication.expiresAt
    ∧ authentication.expiresAt - authentication.issuedAt ≤ maximumLifetime

/-- The times at which an authentication is accepted. -/
def InWindow (authentication : Authentication) (now : Rat) : Prop :=
  (authentication.issuedAt : Rat) ≤ now + clockSkew ∧ now < (retainUntil authentication : Rat)

theorem validateAuthentication_iff {authentication : Authentication} {now : Rat} {u : Unit} :
    validateAuthentication authentication now = .ok u ↔ WellFormed authentication ∧ InWindow authentication now := by
  rw [validateAuthentication, authorize_ok]
  simp only [Bool.and_eq_true, decide_eq_true_eq]
  constructor
  · rintro ⟨⟨⟨⟨⟨⟨⟨⟨htokens, h0⟩, h1⟩, h2⟩, h3⟩, h4⟩, h5⟩, h6⟩, h7⟩
    exact ⟨⟨htokens, ⟨h0, h1⟩, ⟨h2, h3⟩, h4, h5⟩, h6, h7⟩
  · rintro ⟨⟨htokens, ⟨h0, h1⟩, ⟨h2, h3⟩, h4, h5⟩, h6, h7⟩
    exact ⟨⟨⟨⟨⟨⟨⟨⟨htokens, h0⟩, h1⟩, h2⟩, h3⟩, h4⟩, h5⟩, h6⟩, h7⟩

theorem checkedUrl_admits {input : String} {target target' : PlatformHmacTarget} {url : Url}
    (h : checkedUrl platform input target = .ok url) (horigin : target'.origin = target.origin)
    (hpath : url.pathname ∈ target'.paths) : checkedUrl platform input target' = .ok url := by
  rw [checkedUrl] at h ⊢
  split at h
  · cases h
  · split at h
    · cases h
    · rename_i hcheck
      cases h
      rw [if_neg]
      rw [horigin]
      simp only [not_or, not_not] at hcheck ⊢
      obtain ⟨h1, h2, h3, h4, h5, -, h7⟩ := hcheck
      exact ⟨h1, h2, h3, h4, h5, List.contains_iff_mem.mpr hpath, h7⟩

theorem checkedUrl_parsed {input : String} {target : PlatformHmacTarget} {url : Url}
    (h : checkedUrl platform input target = .ok url) : platform.parseUrl input = some url := by
  rw [checkedUrl] at h
  split at h
  · cases h
  · split at h
    · cases h
    · rename_i hparsed _
      cases h
      exact hparsed

theorem checkedCredential_ok {value value' : Option String} (h : checkedCredential value = .ok value') :
    value' = value := by
  cases value with
  | none =>
    cases h
    rfl
  | some text =>
    rw [checkedCredential] at h
    split at h
    · cases h
    · cases h
      rfl

theorem signedFields_cases {options : SignOptions Key} {now : Rat} {nonce : String} {f : SignedFields}
    (h : signedFields platform options now nonce = .ok f) :
    ∃ url, checkedUrl platform options.url options.target = .ok url
      ∧ f = url.fields ⟨options.authentication now nonce, options.body, options.casAuthorization,
        options.platformAuthorization⟩
      ∧ WellFormed f.authentication ∧ checkedCredential f.casAuthorization = .ok f.casAuthorization
      ∧ checkedCredential f.platformAuthorization = .ok f.platformAuthorization
      ∧ delegationAllowed f.authentication.role f.platformAuthorization = true := by
  obtain ⟨url, hurl, h⟩ := bind_ok_iff.mp h
  obtain ⟨_, hvalid, h⟩ := bind_ok_iff.mp h
  obtain ⟨cas, hcas, h⟩ := bind_ok_iff.mp h
  obtain ⟨delegation, hdelegation, h⟩ := bind_ok_iff.mp h
  obtain ⟨_, hallowed, h⟩ := bind_ok_iff.mp h
  have hcas' := checkedCredential_ok hcas
  have hdelegation' := checkedCredential_ok hdelegation
  subst hcas' hdelegation'
  cases pure_ok_iff.mp h
  exact ⟨url, hurl, rfl, (validateAuthentication_iff.mp hvalid).1, hcas, hdelegation, authorize_ok.mp hallowed⟩

/-! ### The headers of a signed request -/

section Headers

variable {url : String} {key : Key} {f : SignedFields} {chunks : List Bytes}

/-- A signed request as it is delivered, in some chunks. -/
def delivered (platform : Platform Key) (url : String) (key : Key) (f : SignedFields) (chunks : List Bytes) : Request :=
  { signedRequest platform url key f with chunks := chunks }

theorem checkHeaders_delivered : checkHeaders (delivered platform url key f chunks) = .ok () := by
  rw [checkHeaders, authorize_ok]
  cases hcas : f.casAuthorization <;> cases hdelegation : f.platformAuthorization <;>
    simp [delivered, signedRequest, authenticationHeaders, Request.header, optionalHeader, hcas, hdelegation,
      List.lookup_cons, List.lookup_nil, allowedHeaders, casAuthorizationHeader, platformDelegationHeader] <;> decide

theorem header_cas : (delivered platform url key f chunks).header casAuthorizationHeader = f.casAuthorization := by
  cases hcas : f.casAuthorization <;> cases hdelegation : f.platformAuthorization <;>
    simp [delivered, signedRequest, authenticationHeaders, Request.header, optionalHeader, hcas, hdelegation,
      List.lookup_cons, List.lookup_nil, casAuthorizationHeader, platformDelegationHeader]

theorem header_delegation :
    (delivered platform url key f chunks).header platformDelegationHeader = f.platformAuthorization := by
  cases hcas : f.casAuthorization <;> cases hdelegation : f.platformAuthorization <;>
    simp [delivered, signedRequest, authenticationHeaders, Request.header, optionalHeader, hcas, hdelegation,
      List.lookup_cons, List.lookup_nil, casAuthorizationHeader, platformDelegationHeader]

theorem header_contentLength : (delivered platform url key f chunks).header "content-length" = none := by
  cases hcas : f.casAuthorization <;> cases hdelegation : f.platformAuthorization <;>
    simp [delivered, signedRequest, authenticationHeaders, Request.header, optionalHeader, hcas, hdelegation,
      List.lookup_cons, List.lookup_nil, casAuthorizationHeader, platformDelegationHeader]

theorem requiredHeader_of {request : Request} {name value : String} (h : request.header name = some value) :
    requiredHeader request name = .ok value := by
  rw [requiredHeader, h]

theorem timeHeader_of {request : Request} {name : String} {time : Int} (h : request.header name = some (decimal time))
    (htime : 0 ≤ time) : timeHeader request name = .ok time := by
  obtain ⟨n, rfl⟩ := Int.eq_ofNat_of_zero_le htime
  have hparse : parseDecimal (decimal n) = some n := parseDecimal_toString n
  refine bind_ok_iff.mpr ⟨_, requiredHeader_of h, ?_⟩
  rw [hparse]
  rfl

theorem parseRole_text (role : ServiceRole) : parseRole role.text = .ok role := by
  cases role <;> decide

theorem signatureOf_pattern (hlength : ∀ key message, (platform.hmac key message).length = 32) :
    signaturePattern (signatureOf platform key f) = true
      ∧ hexBytes (signatureOf platform key f).toList = platform.hmac key (canonicalRequest platform f) := by
  rw [signatureOf, signaturePattern, String.toList_ofList, length_flatMap_byteHex, hlength, hexBytes_flatMap_byteHex]
  refine ⟨?_, rfl⟩
  simp only [Nat.reduceMul, decide_true, Bool.true_and, List.all_eq_true, List.mem_flatMap]
  rintro c ⟨b, _, hc⟩
  have hlower := byteHex_lower b c hc
  simpa [IsLowerHex] using hlower

theorem readAuthentication_delivered (hlength : ∀ key message, (platform.hmac key message).length = 32)
    (hwf : WellFormed f.authentication) :
    readAuthentication (delivered platform url key f chunks) = .ok (f.authentication, signatureOf platform key f) := by
  have hissued : 0 ≤ f.authentication.issuedAt := hwf.issued.1
  have hexpires : 0 ≤ f.authentication.expiresAt := Int.le_trans hissued (Int.le_of_lt hwf.lifetime.1)
  refine bind_ok_iff.mpr ⟨_, timeHeader_of rfl hissued, ?_⟩
  refine bind_ok_iff.mpr ⟨_, timeHeader_of rfl hexpires, ?_⟩
  refine bind_ok_iff.mpr ⟨doctypeProtocol, requiredHeader_of rfl, ?_⟩
  refine bind_ok_iff.mpr ⟨hmacAlgorithm, requiredHeader_of rfl, ?_⟩
  refine bind_ok_iff.mpr ⟨f.authentication.keyId, requiredHeader_of rfl, ?_⟩
  refine bind_ok_iff.mpr ⟨f.authentication.platformId, requiredHeader_of rfl, ?_⟩
  refine bind_ok_iff.mpr ⟨f.authentication.environment, requiredHeader_of rfl, ?_⟩
  refine bind_ok_iff.mpr ⟨f.authentication.serviceId, requiredHeader_of rfl, ?_⟩
  refine bind_ok_iff.mpr ⟨f.authentication.role.text, requiredHeader_of rfl, ?_⟩
  refine bind_ok_iff.mpr ⟨f.authentication.nonce, requiredHeader_of rfl, ?_⟩
  refine bind_ok_iff.mpr ⟨signatureOf platform key f, requiredHeader_of rfl, ?_⟩
  refine bind_ok_iff.mpr ⟨(), authorize_ok.mpr (by decide), ?_⟩
  refine bind_ok_iff.mpr ⟨f.authentication.role, parseRole_text _, ?_⟩
  exact bind_ok_iff.mpr ⟨(), authorize_ok.mpr (signatureOf_pattern hlength).1, rfl⟩

/-- The chunks of a body that is short enough are put together. -/
theorem readChunks_ok {maximum : Int} : ∀ (length : Nat) (chunks : List Bytes),
    (length + chunks.flatten.length : Nat) ≤ maximum → readChunks maximum length chunks = .ok chunks.flatten
  | _, [], _ => rfl
  | length, chunk :: chunks, h => by
    rw [List.flatten_cons, List.length_append, ← Nat.add_assoc] at h
    have hrest := readChunks_ok (length + chunk.length) chunks h
    rw [readChunks, if_neg (by omega), hrest]
    rfl

theorem readBoundedBody_delivered {maximum : Int} (hmaximum : 0 < maximum ∧ maximum ≤ maxSafeInteger)
    (hchunks : chunks.flatten = f.body) (hsize : (f.body.length : Int) ≤ maximum) :
    readBoundedBody (delivered platform url key f chunks) maximum = .ok f.body := by
  rw [readBoundedBody, if_neg (not_not.mpr hmaximum)]
  refine bind_ok_iff.mpr ⟨(), ?_, ?_⟩
  · rw [declaredLength, header_contentLength]
  · show readChunks maximum 0 chunks = .ok f.body
    rw [readChunks_ok 0 chunks (by rw [hchunks]; omega), hchunks]

end Headers

theorem verifySignature_signed (hlength : ∀ key message, (platform.hmac key message).length = 32)
    {options : SignOptions Key} {now : Rat} {nonce : String} {f : SignedFields}
    (hsigned : signedFields platform options now nonce = .ok f) {verifier : VerifyOptions Key}
    (horigin : verifier.target.origin = options.target.origin) (hpath : f.pathname ∈ verifier.target.paths)
    (hkey : candidates verifier.keys f.authentication = [options.key]) {maximum : Int}
    (hmaximum : verifier.maxBodyBytes.getD 1048576 = maximum) (hlimit : 0 < maximum ∧ maximum ≤ maxSafeInteger)
    (hsize : (f.body.length : Int) ≤ maximum) {chunks : List Bytes} (hchunks : chunks.flatten = f.body) {first second : Rat}
    (hfirst : InWindow f.authentication first) (hsecond : InWindow f.authentication second) :
    verifySignature platform verifier (delivered platform options.url options.key.key f chunks) first second = .ok f := by
  obtain ⟨url, hurl, heq, hwf, hcas, hdelegation, hallowed⟩ := signedFields_cases hsigned
  have hpathname : url.pathname = f.pathname := by rw [heq]; rfl
  have hfields : url.fields ⟨f.authentication, f.body, f.casAuthorization, f.platformAuthorization⟩ = f := by rw [heq]; rfl
  refine bind_ok_iff.mpr ⟨url, checkedUrl_admits hurl horigin (hpathname ▸ hpath), ?_⟩
  refine bind_ok_iff.mpr ⟨(), checkHeaders_delivered, ?_⟩
  refine bind_ok_iff.mpr ⟨_, readAuthentication_delivered hlength hwf, ?_⟩
  refine bind_ok_iff.mpr ⟨(), validateAuthentication_iff.mpr ⟨hwf, hfirst⟩, ?_⟩
  refine bind_ok_iff.mpr ⟨options.key, by rw [onlyCandidate, hkey], ?_⟩
  refine bind_ok_iff.mpr ⟨f.casAuthorization, by rw [header_cas]; exact hcas, ?_⟩
  refine bind_ok_iff.mpr ⟨f.platformAuthorization, by rw [header_delegation]; exact hdelegation, ?_⟩
  refine bind_ok_iff.mpr ⟨(), authorize_ok.mpr hallowed, ?_⟩
  refine bind_ok_iff.mpr ⟨f.body, by rw [hmaximum]; exact readBoundedBody_delivered hlimit hchunks hsize, ?_⟩
  dsimp only
  rw [hfields]
  refine bind_ok_iff.mpr ⟨(), authorize_ok.mpr (decide_eq_true (signatureOf_pattern hlength).2), ?_⟩
  exact bind_ok_iff.mpr ⟨(), validateAuthentication_iff.mpr ⟨hwf, hsecond⟩, rfl⟩

theorem verifyPlatformRequest_signed (hlength : ∀ key message, (platform.hmac key message).length = 32)
    {options : SignOptions Key} {now : Rat} {nonce : String} {f : SignedFields}
    (hsigned : signedFields platform options now nonce = .ok f) {verifier : VerifyOptions Key}
    (horigin : verifier.target.origin = options.target.origin) (hpath : f.pathname ∈ verifier.target.paths)
    (hkey : candidates verifier.keys f.authentication = [options.key]) {maximum : Int}
    (hmaximum : verifier.maxBodyBytes.getD 1048576 = maximum) (hlimit : 0 < maximum ∧ maximum ≤ maxSafeInteger)
    (hsize : (f.body.length : Int) ≤ maximum) {chunks : List Bytes} (hchunks : chunks.flatten = f.body)
    {first second third : Rat} (hissued : (f.authentication.issuedAt : Rat) ≤ first + clockSkew)
    (hsecond : first ≤ second) (hthird : second ≤ third) (hexpires : third < (retainUntil f.authentication : Rat)) :
    verifyPlatformRequest platform verifier (delivered platform options.url options.key.key f chunks) first second third
      (.ok true) = .ok f.toVerifiedPlatformRequest := by
  have hwf : WellFormed f.authentication := by
    obtain ⟨_, _, _, hwf, _⟩ := signedFields_cases hsigned
    exact hwf
  have hfirst : InWindow f.authentication first := ⟨hissued, by grind⟩
  have hsecond' : InWindow f.authentication second := ⟨by grind, by grind⟩
  have hthird' : InWindow f.authentication third := ⟨by grind, hexpires⟩
  have hsignature := verifySignature_signed hlength hsigned horigin hpath hkey hmaximum hlimit hsize hchunks hfirst hsecond'
  refine bind_ok_iff.mpr ⟨f, hsignature, ?_⟩
  exact bind_ok_iff.mpr ⟨(), validateAuthentication_iff.mpr ⟨hwf, hthird'⟩, rfl⟩

/-! ## What is accepted was signed -/

/-- The signature a request carries. -/
def Request.signature (request : Request) : Bytes :=
  hexBytes ((request.header "x-unidocs-signature").getD "").toList

theorem readAuthentication_signature {request : Request} {authentication : Authentication} {signature : String}
    (h : readAuthentication request = .ok (authentication, signature)) : hexBytes signature.toList = request.signature := by
  obtain ⟨_, _, h⟩ := bind_ok_iff.mp h
  obtain ⟨_, _, h⟩ := bind_ok_iff.mp h
  obtain ⟨_, _, h⟩ := bind_ok_iff.mp h
  obtain ⟨_, _, h⟩ := bind_ok_iff.mp h
  obtain ⟨_, _, h⟩ := bind_ok_iff.mp h
  obtain ⟨_, _, h⟩ := bind_ok_iff.mp h
  obtain ⟨_, _, h⟩ := bind_ok_iff.mp h
  obtain ⟨_, _, h⟩ := bind_ok_iff.mp h
  obtain ⟨_, _, h⟩ := bind_ok_iff.mp h
  obtain ⟨_, _, h⟩ := bind_ok_iff.mp h
  obtain ⟨signature', hsignature, h⟩ := bind_ok_iff.mp h
  obtain ⟨_, _, h⟩ := bind_ok_iff.mp h
  obtain ⟨_, _, h⟩ := bind_ok_iff.mp h
  obtain ⟨_, _, h⟩ := bind_ok_iff.mp h
  cases pure_ok_iff.mp h
  rw [requiredHeader] at hsignature
  split at hsignature
  · cases hsignature
  · rename_i hheader
    cases hsignature
    rw [Request.signature, hheader]
    rfl

/-- What a verification has checked when it comes to the nonce: the signature is the code of the fields under a configured
key. -/
theorem verifySignature_cases {verifier : VerifyOptions Key} {request : Request} {first second : Rat} {f : SignedFields}
    (h : verifySignature platform verifier request first second = .ok f) :
    ∃ key ∈ verifier.keys, request.signature = platform.hmac key.key (canonicalRequest platform f) := by
  obtain ⟨url, _, h⟩ := bind_ok_iff.mp h
  obtain ⟨_, _, h⟩ := bind_ok_iff.mp h
  obtain ⟨⟨authentication, signature⟩, hread, h⟩ := bind_ok_iff.mp h
  obtain ⟨_, _, h⟩ := bind_ok_iff.mp h
  obtain ⟨key, hkey, h⟩ := bind_ok_iff.mp h
  obtain ⟨cas, _, h⟩ := bind_ok_iff.mp h
  obtain ⟨delegation, _, h⟩ := bind_ok_iff.mp h
  obtain ⟨_, _, h⟩ := bind_ok_iff.mp h
  obtain ⟨body, _, h⟩ := bind_ok_iff.mp h
  obtain ⟨_, hverified, h⟩ := bind_ok_iff.mp h
  obtain ⟨_, _, h⟩ := bind_ok_iff.mp h
  cases pure_ok_iff.mp h
  refine ⟨key, ?_, ?_⟩
  · rw [onlyCandidate] at hkey
    split at hkey
    · rename_i hcandidates
      cases hkey
      have hmem : key ∈ candidates verifier.keys authentication := by
        rw [hcandidates]
        exact List.mem_singleton_self key
      exact (List.mem_filter.mp hmem).1
    · cases hkey
  · rw [← readAuthentication_signature hread]
    exact of_decide_eq_true (authorize_ok.mp hverified)

/-! ## Runs of verifications -/

/-- A call of `signPlatformRequest` that has returned. -/
structure Signing (platform : Platform Key) where
  options : SignOptions Key
  now : Rat
  nonce : String
  fields : SignedFields
  signed : signedFields platform options now nonce = .ok fields

/-- A call of `verifyPlatformRequest`: its request, the times it reads, the time of its claim and the answer to it. The clock
does not go back during the call. -/
structure Delivery (Key : Type) where
  verifier : VerifyOptions Key
  request : Request
  first : Rat
  second : Rat
  claimed : Rat
  third : Rat
  answer : Except Unit Bool
  first_le : first ≤ second
  second_le : second ≤ claimed
  claimed_le : claimed ≤ third

/-- What a call reads and checks before it claims the nonce. -/
def Delivery.fields (platform : Platform Key) (d : Delivery Key) : Except HmacError SignedFields :=
  verifySignature platform d.verifier d.request d.first d.second

/-- What a call returns. -/
def Delivery.result (platform : Platform Key) (d : Delivery Key) : Except HmacError VerifiedPlatformRequest :=
  verifyPlatformRequest platform d.verifier d.request d.first d.second d.third d.answer

/-- A call that returns has claimed the nonce of its fields, and its last time is in their window. -/
theorem Delivery.result_ok {d : Delivery Key} {v : VerifiedPlatformRequest} (h : d.result platform = .ok v) :
    ∃ f, d.fields platform = .ok f ∧ v = f.toVerifiedPlatformRequest ∧ d.answer = .ok true
      ∧ InWindow f.authentication d.third := by
  obtain ⟨f, hf, h⟩ := bind_ok_iff.mp h
  refine ⟨f, hf, ?_⟩
  cases hanswer : d.answer with
  | error e =>
    rw [hanswer] at h
    cases h
  | ok granted =>
    rw [hanswer] at h
    cases granted with
    | false => cases h
    | true =>
      obtain ⟨_, hvalid, h⟩ := bind_ok_iff.mp h
      exact ⟨pure_ok_iff.mp h, rfl, (validateAuthentication_iff.mp hvalid).2⟩

/-- The answers of the nonce store to calls that claim in this order: a nonce that was granted is not granted again in its
scope before the time until which it is retained. -/
def NonceStore (platform : Platform Key) (deliveries : List (Delivery Key)) : Prop :=
  deliveries.Pairwise fun d d' => ∀ f f', d.fields platform = .ok f → d'.fields platform = .ok f' →
    d.answer = .ok true → d'.answer = .ok true → nonceScope f.authentication = nonceScope f'.authentication →
    f.authentication.nonce = f'.authentication.nonce → (retainUntil f.authentication : Rat) ≤ d'.claimed

/-- Nobody computes the code of bytes under a configured key but by signing them: where a delivered request carries it, the
bytes were signed under that key. -/
def Unforgeable (platform : Platform Key) (signings : List (Signing platform)) (deliveries : List (Delivery Key)) : Prop :=
  ∀ d ∈ deliveries, ∀ key ∈ d.verifier.keys, ∀ f, d.fields platform = .ok f →
    d.request.signature = platform.hmac key.key (canonicalRequest platform f) →
    ∃ s ∈ signings, s.options.key.key = key.key ∧ canonicalRequest platform s.fields = canonicalRequest platform f

/-- The digest does not collide on what is signed and what is delivered. -/
def DigestsDiffer (platform : Platform Key) (signings : List (Signing platform)) (deliveries : List (Delivery Key)) : Prop :=
  ∀ s ∈ signings, ∀ d ∈ deliveries, ∀ f, d.fields platform = .ok f → NoCollision platform s.fields f

/-- Of two calls with the same fields at most one returns. -/
theorem NonceStore.once {deliveries : List (Delivery Key)} (hstore : NonceStore platform deliveries) :
    deliveries.Pairwise fun d d' => ∀ f v v', d.fields platform = .ok f → d'.fields platform = .ok f →
      d.result platform = .ok v → d'.result platform ≠ .ok v' := by
  refine hstore.imp ?_
  intro d d' hclaims f v v' hf hf' hresult hresult'
  obtain ⟨g, hg, _, hanswer, _⟩ := Delivery.result_ok hresult
  obtain ⟨g', hg', _, hanswer', hwindow⟩ := Delivery.result_ok hresult'
  cases hf.symm.trans hg
  cases hf'.symm.trans hg'
  have hretained := hclaims f f hf hf' hanswer hanswer' rfl rfl
  have hlate : (retainUntil f.authentication : Rat) ≤ d'.third := Rat.le_trans hretained d'.claimed_le
  exact absurd hwindow.2 (Rat.not_lt.mpr hlate)

theorem signed_of_result {signings : List (Signing platform)} {deliveries : List (Delivery Key)}
    (hunforgeable : Unforgeable platform signings deliveries) (hdigests : DigestsDiffer platform signings deliveries)
    {d : Delivery Key} (hd : d ∈ deliveries) {v : VerifiedPlatformRequest} (h : d.result platform = .ok v) :
    ∃ s ∈ signings, d.fields platform = .ok s.fields ∧ v = s.fields.toVerifiedPlatformRequest := by
  obtain ⟨f, hf, hv, _, _⟩ := Delivery.result_ok h
  obtain ⟨key, hkey, hsignature⟩ := verifySignature_cases hf
  obtain ⟨s, hs, _, hbytes⟩ := hunforgeable d hd key hkey f hf hsignature
  have hfields : s.fields = f := canonicalRequest_inj (hdigests s hs d hd f hf) hbytes
  exact ⟨s, hs, by rw [hf, hfields], by rw [hv, hfields]⟩

/-! ## Authentication -/

/-- Platform request authentication. The signed bytes determine every signed field. A signed request that is delivered
unchanged before its window ends, to a verifier that has exactly its key as a candidate and admits its path and size, is
accepted with what was signed. And over any run of verifications that share a nonce store, a signed request is accepted at
most once and every request that is accepted has the fields of a signed one. -/
theorem platform_authentication (platform : Platform Key) :
    (∀ f f' : SignedFields, NoCollision platform f f' → canonicalRequest platform f = canonicalRequest platform f' → f = f')
    ∧ (∀ (options : SignOptions Key) (now : Rat) (nonce : String) (request : Request),
        (∀ key message, (platform.hmac key message).length = 32) →
        signPlatformRequest platform options now nonce = .ok request →
        ∀ (verifier : VerifyOptions Key) (url : Url) (chunks : List Bytes) (first second third : Rat) (maximum : Int),
          verifier.target.origin = options.target.origin → platform.parseUrl options.url = some url →
          url.pathname ∈ verifier.target.paths →
          candidates verifier.keys (options.authentication now nonce) = [options.key] →
          verifier.maxBodyBytes.getD 1048576 = maximum → 0 < maximum ∧ maximum ≤ maxSafeInteger →
          (options.body.length : Int) ≤ maximum → chunks.flatten = options.body →
          ((options.authentication now nonce).issuedAt : Rat) ≤ first + clockSkew → first ≤ second → second ≤ third →
          third < (((options.authentication now nonce).expiresAt + clockSkew : Int) : Rat) →
          verifyPlatformRequest platform verifier { request with chunks := chunks } first second third (.ok true)
            = .ok ⟨options.authentication now nonce, options.body, options.casAuthorization, options.platformAuthorization⟩)
    ∧ (∀ (signings : List (Signing platform)) (deliveries : List (Delivery Key)), NonceStore platform deliveries →
        Unforgeable platform signings deliveries → DigestsDiffer platform signings deliveries →
        (deliveries.Pairwise fun d d' => ∀ f v v', d.fields platform = .ok f → d'.fields platform = .ok f →
          d.result platform = .ok v → d'.result platform ≠ .ok v')
        ∧ ∀ d ∈ deliveries, ∀ v, d.result platform = .ok v →
          ∃ s ∈ signings, d.fields platform = .ok s.fields ∧ v = s.fields.toVerifiedPlatformRequest) := by
  refine ⟨fun f f' hsha h => canonicalRequest_inj hsha h, ?_, ?_⟩
  · intro options now nonce request hlength hsign verifier url chunks first second third maximum horigin hurl hpath hkey
      hmaximum hlimit hsize hchunks hissued hsecond hthird hexpires
    obtain ⟨f, hsigned, hrequest⟩ := bind_ok_iff.mp hsign
    cases pure_ok_iff.mp hrequest
    obtain ⟨url', hchecked, hfields, _⟩ := signedFields_cases hsigned
    have hparsed := checkedUrl_parsed hchecked
    cases hurl.symm.trans hparsed
    subst hfields
    exact verifyPlatformRequest_signed hlength hsigned horigin hpath hkey hmaximum hlimit hsize hchunks hissued hsecond hthird
      hexpires
  · intro signings deliveries hstore hunforgeable hdigests
    exact ⟨hstore.once, fun d hd v hv => signed_of_result hunforgeable hdigests hd hv⟩

section Sample

/-- The canonical request of the body and the credential below. -/
def sampleMessage : Bytes := textEncode (
  "14:unidocs-hmac/123:unidocs-doctype/2-draft12:HMAC-SHA-2561:k1:p4:prod1:s8:operator4:POST9:https://h4:/run0:45" ++
  ":application/vnd.unidocs.svalue+cbor;version=164:b0b2988b6bbe724bacda5e9e524736de0bc7dae41c46b4213c50e1d35d4e5" ++
  "f134:10004:10601:n64:122c4e371d393490e5789c418af3d3854ed07f2b8b087f8ac4b418dba01cf1976:absent")

/-- The code of the message under the key of 32 zero bytes. -/
def sampleCode : Bytes :=
  [0x60, 0x70, 0x9d, 0x61, 0xd8, 0xa3, 0x0c, 0xb1, 0x34, 0x12, 0xaf, 0xb5, 0x3d, 0x5d, 0x9e, 0xef,
    0xfd, 0x00, 0x1c, 0x2e, 0x91, 0xfc, 0x9b, 0x43, 0x68, 0x1d, 0x4a, 0xbd, 0x99, 0x3b, 0xcb, 0xce]

/-- A platform with one URL, one key, and the digests of the body and of the credential. -/
def samplePlatform : Platform Unit where
  sha256 := assign
    [([0xf6],
      [0xb0, 0xb2, 0x98, 0x8b, 0x6b, 0xbe, 0x72, 0x4b, 0xac, 0xda, 0x5e, 0x9e, 0x52, 0x47, 0x36, 0xde,
      0x0b, 0xc7, 0xda, 0xe4, 0x1c, 0x46, 0xb4, 0x21, 0x3c, 0x50, 0xe1, 0xd3, 0x5d, 0x4e, 0x5f, 0x13]),
    (textEncode "Bearer a",
      [0x12, 0x2c, 0x4e, 0x37, 0x1d, 0x39, 0x34, 0x90, 0xe5, 0x78, 0x9c, 0x41, 0x8a, 0xf3, 0xd3, 0x85,
      0x4e, 0xd0, 0x7f, 0x2b, 0x8b, 0x08, 0x7f, 0x8a, 0xc4, 0xb4, 0x18, 0xdb, 0xa0, 0x1c, 0xf1, 0x97])]
  hmac := fun _ message => if message = sampleMessage then sampleCode else List.replicate 32 0
  parseUrl := fun input =>
    if input = "https://h/run" then some ⟨"https:", "", "", "", "https://h", "/run", "https://h/run"⟩ else none

def sampleOptions : SignOptions Unit where
  url := "https://h/run"
  target := ⟨"https://h", ["/run"]⟩
  key := ⟨"k", "p", "prod", "s", .operator, ()⟩
  body := [0xf6]
  casAuthorization := some "Bearer a"
  platformAuthorization := none
  lifetimeSeconds := none

def sampleVerifier : VerifyOptions Unit where
  target := ⟨"https://h", ["/other", "/run"]⟩
  keys := [⟨"k", "p", "prod", "s", .operator, ()⟩]
  maxBodyBytes := none

def sampleFields : SignedFields where
  authentication := sampleOptions.authentication 1000 "n"
  body := [0xf6]
  casAuthorization := some "Bearer a"
  platformAuthorization := none
  origin := "https://h"
  pathname := "/run"

def sampleSigning : Signing samplePlatform where
  options := sampleOptions
  now := 1000
  nonce := "n"
  fields := sampleFields
  signed := by with_unfolding_all decide

/-- The signed request, delivered in two chunks at a time. -/
def sampleDelivery (time : Rat) (answer : Except Unit Bool) : Delivery Unit where
  verifier := sampleVerifier
  request := delivered samplePlatform "https://h/run" () sampleFields [[], [0xf6]]
  first := time
  second := time
  claimed := time
  third := time
  answer := answer
  first_le := Rat.le_refl
  second_le := Rat.le_refl
  claimed_le := Rat.le_refl

/-- The request is delivered and accepted, and then delivered again. -/
def sampleDeliveries : List (Delivery Unit) := [sampleDelivery 1001 (.ok true), sampleDelivery 1002 (.ok false)]

theorem samplePlatform_hmac_length (key : Unit) (message : Bytes) : (samplePlatform.hmac key message).length = 32 := by
  simp only [samplePlatform]
  split
  · rfl
  · exact List.length_replicate

theorem sampleDelivery_fields {d : Delivery Unit} (hd : d ∈ sampleDeliveries) :
    d.fields samplePlatform = .ok sampleFields := by
  have hfields : ∀ time answer, InWindow sampleFields.authentication time →
      (sampleDelivery time answer).fields samplePlatform = .ok sampleFields := by
    intro time answer hwindow
    have hpath : sampleFields.pathname ∈ sampleVerifier.target.paths := by decide
    have hlimit : 0 < (1048576 : Int) ∧ (1048576 : Int) ≤ maxSafeInteger := by decide
    exact verifySignature_signed samplePlatform_hmac_length sampleSigning.signed rfl hpath rfl rfl hlimit (by decide) rfl
      hwindow hwindow
  rcases List.mem_pair.mp hd with rfl | rfl
  · exact hfields 1001 _ ⟨by with_unfolding_all decide, by with_unfolding_all decide⟩
  · exact hfields 1002 _ ⟨by with_unfolding_all decide, by with_unfolding_all decide⟩

theorem sampleDelivery_result :
    (sampleDelivery 1001 (.ok true)).result samplePlatform = .ok sampleFields.toVerifiedPlatformRequest :=
  verifyPlatformRequest_signed samplePlatform_hmac_length sampleSigning.signed rfl (by decide) rfl rfl (by decide) (by decide)
    rfl (by with_unfolding_all decide) (Rat.le_refl) (Rat.le_refl) (by with_unfolding_all decide)

theorem sampleDeliveries_nonceStore : NonceStore samplePlatform sampleDeliveries := by
  rw [NonceStore, sampleDeliveries, List.pairwise_pair]
  intro f f' _ _ _ hanswer
  have hfalse : (Except.ok false : Except Unit Bool) = .ok true := hanswer
  cases hfalse

theorem sampleDeliveries_unforgeable : Unforgeable samplePlatform [sampleSigning] sampleDeliveries := by
  intro d hd key _ f hf _
  have hfields : sampleFields = f := Except.ok.inj ((sampleDelivery_fields hd).symm.trans hf)
  refine ⟨sampleSigning, List.mem_singleton_self _, rfl, ?_⟩
  rw [← hfields]
  rfl

theorem sampleDeliveries_digests : DigestsDiffer samplePlatform [sampleSigning] sampleDeliveries := by
  intro s _ d _ f _ x _ y _ hxy
  exact (assign _).injective hxy

/-- A request that is accepted, and one that is not accepted again. -/
theorem platform_authentication_replayed :
    verifyPlatformRequest samplePlatform sampleVerifier
        { signedRequest samplePlatform "https://h/run" () sampleFields with chunks := [[], [0xf6]] } 1001 1002 1003 (.ok true)
      = .ok ⟨sampleOptions.authentication 1000 "n", sampleOptions.body, sampleOptions.casAuthorization,
        sampleOptions.platformAuthorization⟩
    ∧ ∀ v, (sampleDelivery 1002 (.ok false)).result samplePlatform ≠ .ok v := by
  obtain ⟨_, haccepts, hrun⟩ := platform_authentication samplePlatform
  constructor
  · exact haccepts sampleOptions 1000 "n" (signedRequest samplePlatform "https://h/run" () sampleFields)
      samplePlatform_hmac_length (bind_ok_iff.mpr ⟨_, sampleSigning.signed, rfl⟩) sampleVerifier
      ⟨"https:", "", "", "", "https://h", "/run", "https://h/run"⟩ [[], [0xf6]] 1001 1002 1003 1048576 rfl
      (by with_unfolding_all decide) (by with_unfolding_all decide) rfl rfl (by decide) (by decide) rfl
      (by with_unfolding_all decide) (by decide) (by decide) (by decide)
  · intro v
    have honce := (hrun [sampleSigning] sampleDeliveries sampleDeliveries_nonceStore sampleDeliveries_unforgeable
      sampleDeliveries_digests).1
    have hpair := List.rel_of_pairwise_cons honce (List.mem_singleton_self _)
    have hfirst := sampleDelivery_fields List.mem_cons_self
    have hsecond := sampleDelivery_fields (List.mem_cons_of_mem _ (List.mem_singleton_self _))
    exact hpair sampleFields _ v hfirst hsecond sampleDelivery_result

end Sample

end UniDocs.Auth
