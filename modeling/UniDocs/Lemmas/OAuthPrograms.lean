import UniDocs.Lemmas.OAuthTokens

/-!
# The flows of the gateway, call by call

One triple for each flow: what a call has written when it ends, while any others run between its statements. The calls that
return tokens or a code end with the entries of their story; a refresh that is turned away leaves the family of a consumed
token dead.
-/

namespace UniDocs.OAuth

open Lib Lib.Journal

variable {ports : Ports} {base : String × String → Prop} {i : Nat} {q : OAuthRequest} {α β : Type}

/-- What the call of a request may write. -/
def May (ports : Ports) : OAuthRequest → Entry → Prop
  | .start request, .provisioned principalId email _ =>
    request.authenticatedPrincipalId = some principalId ∧ request.authenticatedEmail = email
  | .start request, .started transaction =>
    transaction.clientId = request.clientId ∧ transaction.redirectUri = request.redirectUri
      ∧ transaction.principalId = request.authenticatedPrincipalId ∧ transaction.codeChallenge = request.codeChallenge
  | .complete transactionId _, .taken transaction => transaction.transactionId = transactionId
  | .complete _ decision, .approved _ principalId _ _ => decision.approved = true ∧ decision.principalId = principalId
  | .exchange request, .exchanged code => code.codeHash = ports.sha256Base64Url request.code
  | .exchange request, .granted code token => codeAccepts ports code request token.createdAt = true
  | .exchange _, .issued _ _ => True
  | .refresh request, .rotated current _ => current.tokenHash = ports.sha256Base64Url request.refreshToken
  | .refresh request, .refused found => ∀ row, found = some row → row.tokenHash = ports.sha256Base64Url request.refreshToken
  | .refresh _, .issued _ _ => True
  | _, _ => False

/-- What is shown of the stores. -/
def frame (ports : Ports) (base : String × String → Prop) : Frame (StoreCall State OAuthError) State Nat Entry OAuthRequest where
  log := State.journal
  may := May ports
  allowed := Machine.anyCall
  inv := Inv ports base
  keeps := Fences
  refl := Fences.refl
  trans := Fences.trans

/-- A program of the call `i` for the request `q`. -/
abbrev Does (ports : Ports) (base : String × String → Prop) (i : Nat) (q : OAuthRequest) (P : State → Prop) (p : OAuthProg α) (Q : α → State → Prop)
    (T : OAuthError → State → Prop) : Prop :=
  Triple ((frame ports base).spec (execStore .storage) i q) P p Q T

/-- An assertion that the others keep. -/
abbrev Kept (ports : Ports) (base : String × String → Prop) (i : Nat) (q : OAuthRequest) (P : State → Prop) : Prop :=
  Stable ((frame ports base).spec (execStore .storage) i q) P

/-- What the call has written so far. -/
def Wrote (i : Nat) (es : List Entry) (s : State) : Prop := own i s.journal = es

theorem kept_wrote {es : List Entry} : Kept ports base i q (Wrote i es) := stable_own (F := frame ports base) es

theorem kept_member {k : String × String} : Kept ports base i q fun s => k ∈ s.memberships :=
  stable_kept (F := frame ports base) fun _ _ h hk => h.members k hk

theorem wrote_append {s s' : State} {es : List Entry} {e : Entry} (h : Wrote i es s)
    (hjournal : s'.journal = s.journal ++ [(i, e)]) : Wrote i (es ++ [e]) s' := by
  rw [Wrote, hjournal, own_append_singleton, if_pos rfl, h]

theorem check_ok {condition : Bool} {e : OAuthError} {u : Unit} (h : check condition e = .ok u) : condition = true := by
  cases condition with
  | false => cases h
  | true => rfl

/-! ## Rules -/

section Rules

variable {P : State → Prop} {T : OAuthError → State → Prop}

/-- A statement in a program that may end in a failure of the store. -/
theorem does_statement {f : State → State × β} {Q : β → State → Prop} (hQ : ∀ b, Kept ports base i q (Q b))
    (hT : ∀ s, T .storage s) (h : ∀ s, Inv ports base s → P s → Inv ports base (f s).1
      ∧ Writes State.journal (May ports q) i s (f s).1 ∧ Fences s (f s).1 ∧ Q (f s).2 (f s).1) :
    Does ports base i q P (statement f) Q T := by
  refine statement_rule hQ (fun _ _ _ _ _ _ => hT _) (fun s _ _ => hT s) ?_
  intro _ s hi hp _
  obtain ⟨h1, h2, h3, h4⟩ := h s hi hp
  exact ⟨h1, h2, h3, h4, hT _⟩

theorem does_query {f : State → β} {Q : β → State → Prop} (hQ : ∀ b, Kept ports base i q (Q b)) (hT : ∀ s, T .storage s)
    (h : ∀ s, Inv ports base s → P s → Q (f s) s) : Does ports base i q P (query f) Q T :=
  query_rule hQ (fun _ _ _ _ _ _ => hT _) fun s hi hp => ⟨h s hi hp, hT s⟩

theorem does_record (hP : Kept ports base i q P) (hT : ∀ s, T .storage s) : Does ports base i q P record (fun _ => P) T :=
  does_statement (fun _ => hP) hT fun s hi hp => ⟨hi, Writes.refl, Fences.refl s, hp⟩

theorem does_now (hP : Kept ports base i q P) : Does ports base i q P now (fun _ => P) T :=
  look_rule (fun _ => hP) fun _ _ hp => hp

/-- A computation that may throw. -/
theorem does_evaluate {r : Except OAuthError β} (hT : ∀ e s, r = .error e → Inv ports base s → P s → T e s) :
    Does ports base i q P (evaluate r) (fun b s => r = .ok b ∧ P s) T := by
  intro s _ hp hi
  cases r with
  | ok b => exact ⟨rfl, hp⟩
  | error e => exact hT e s rfl hi hp

/-- A computation that may throw and whose value is not used. -/
theorem does_check {r : Except OAuthError β} (hT : ∀ e s, Inv ports base s → P s → T e s) :
    Does ports base i q P (evaluate r) (fun _ => P) T :=
  (does_evaluate fun e s _ => hT e s).post fun _ _ _ h => h.2

theorem does_throw {e : OAuthError} {Q : β → State → Prop} (hT : ∀ s, Inv ports base s → P s → T e s) :
    Does ports base i q P (throw e : OAuthProg β) Q T :=
  Triple.throw hT

end Rules

/-! ## Starting -/

/-- Nothing is asked of a call that throws. -/
def anyEnd : OAuthError → State → Prop := fun _ _ => True

/-- A call that may have provisioned a tenant. -/
def Begun (i : Nat) (s : State) : Prop := ∃ es, Wrote i es s ∧ (es = [] ∨ ∃ p e, es = [.provisioned p e (defaultTenantId p e)])

theorem kept_begun : Kept ports base i q (Begun i) := by
  rintro s s' hi hi' hr ⟨es, hes, hcases⟩
  exact ⟨es, kept_wrote s s' hi hi' hr hes, hcases⟩

theorem does_provisionDefault {request : AuthorizationRequest} {principalId : String}
    (hprincipal : request.authenticatedPrincipalId = some principalId) :
    Does ports base i (.start request) (Wrote i []) (provisionDefault i principalId request.authenticatedEmail)
      (fun _ => Begun i) anyEnd := by
  refine Triple.bind (Q := fun _ => Begun i) ?_ fun _ => does_query (fun _ => kept_begun) (fun _ => trivial) fun _ _ hp => hp
  refine does_statement (fun _ => kept_begun) (fun _ => trivial) ?_
  intro s hi hp
  obtain ⟨h1, h2, h3⟩ := insertMembership_spec hi hp principalId request.authenticatedEmail
  exact ⟨h1, Writes.one rfl ⟨hprincipal, rfl⟩, h2, _, h3, .inr ⟨_, _, rfl⟩⟩

theorem does_resolveTenant (request : AuthorizationRequest) :
    Does ports base i (.start request) (Wrote i []) (resolveTenant i request) (fun _ => Begun i) anyEnd := by
  have hbegun : ∀ s, Wrote i [] s → Begun i s := fun s hs => ⟨[], hs, .inl rfl⟩
  rw [resolveTenant]
  split
  · exact Triple.pure fun s _ hs => hbegun s hs
  · refine Triple.bind (does_evaluate fun _ _ _ _ _ => trivial) fun _ => Triple.of_pure fun hcheck => ?_
    have hprincipal : request.authenticatedPrincipalId = some (request.authenticatedPrincipalId.getD "") := by
      cases hp : request.authenticatedPrincipalId with
      | none =>
        rw [hp] at hcheck
        cases hcheck
      | some principalId => rfl
    refine Triple.bind (Q := fun _ => Begun i) ?_ fun membership => ?_
    · refine Triple.bind (does_query (Q := fun _ => Wrote i []) (fun _ => kept_wrote) (fun _ => trivial) fun _ _ hp => hp)
        fun found => ?_
      cases found with
      | some membership => exact Triple.pure fun s _ hs => hbegun s hs
      | none => exact does_provisionDefault hprincipal
    · cases membership with
      | none => exact does_throw fun _ _ _ => trivial
      | some membership => exact Triple.pure fun s _ hs => hs

theorem does_storeTransaction (hideal : ports.Ideal) (request : AuthorizationRequest) (transaction : Transaction)
    (hmay : ∀ id, May ports (.start request) (.started { transaction with transactionId := id })) (attempts : Nat) :
    Does ports base i (.start request) (Begun i) (storeTransaction ports i transaction attempts 0) (fun _ _ => True) anyEnd := by
  cases attempts with
  | zero => exact does_throw fun _ _ _ => trivial
  | succ attempts =>
    -- the first attempt succeeds: its identifier is fresh
    refine Triple.bind (Q := fun stored _ => stored = true) ?_ fun stored => ?_
    · refine does_statement (fun _ => Stable.const _) (fun _ => trivial) ?_
      rintro s hi ⟨es, hes, hcases⟩
      have hid : { transaction with transactionId := ports.opaqueValue i 0 }.transactionId = ports.opaqueValue i 0 := rfl
      obtain ⟨h1, h2, h3, h4⟩ := putTransaction_spec hideal hi hes hcases hid
      exact ⟨h2, Writes.one h4 (hmay _), h3, h1⟩
    · cases stored with
      | false => exact fun s _ hs => nomatch hs
      | true =>
        refine Triple.bind (does_record (Stable.const _) fun _ => trivial) fun _ => ?_
        exact Triple.pure fun _ _ _ => trivial

theorem does_start (hideal : ports.Ideal) (request : AuthorizationRequest) :
    Does ports base i (.start request) (Wrote i []) (startGatewayOAuthAuthorization ports i request) (fun _ _ => True) anyEnd := by
  have hcheck : ∀ {γ : Type} {r : Except OAuthError γ} {P : State → Prop},
      Does ports base i (.start request) P (evaluate r) (fun _ => P) anyEnd := fun {_ _ _} => does_check fun _ _ _ _ => trivial
  refine Triple.bind hcheck fun _ => ?_
  refine Triple.bind hcheck fun _ => ?_
  refine Triple.bind hcheck fun _ => ?_
  refine Triple.bind (does_query (Q := fun _ => Wrote i []) (fun _ => kept_wrote) (fun _ => trivial) fun _ _ hp => hp)
    fun client => ?_
  cases client with
  | none => exact does_throw fun _ _ _ => trivial
  | some client =>
    refine Triple.bind hcheck fun _ => ?_
    refine Triple.bind hcheck fun _ => ?_
    refine Triple.bind hcheck fun _ => ?_
    refine Triple.bind (does_resolveTenant request) fun tenantId => ?_
    refine Triple.bind hcheck fun scopes => ?_
    refine Triple.bind (does_now kept_begun) fun time => ?_
    refine Triple.bind hcheck fun _ => ?_
    refine Triple.bind hcheck fun lifetime => ?_
    exact does_storeTransaction hideal request _ (fun id => ⟨rfl, rfl, rfl, rfl⟩) 3

/-! ## Completing -/

/-- What a call that completes a transaction ends with, when it returns a code. -/
def Completed (i : Nat) (transactionId : String) (result : AuthorizationResult) (s : State) : Prop :=
  result.code ≠ none → ∃ transaction p m code, Wrote i [.taken transaction, .approved transaction p m code] s
    ∧ transaction.transactionId = transactionId

theorem does_storeCode (hideal : ports.Ideal) {transactionId : String} {decision : Decision} {transaction : Transaction}
    {principalId : String} {membership : Membership} {permissions : List Permission} {time lifetime : Int}
    (hid : transaction.transactionId = transactionId) (hdecision : decision.approved = true ∧ decision.principalId = principalId)
    (htenant : membership.tenantId = transaction.tenantId)
    (howner : transaction.principalId = none ∨ transaction.principalId = some principalId)
    (hpermissions : gatewayOAuthScopesToCapabilityPermissions transaction.tenantId transaction.requestedScopes = .ok permissions)
    (attempts : Nat) :
    Does ports base i (.complete transactionId decision)
      (fun s => Wrote i [.taken transaction] s ∧ (principalId, transaction.tenantId) ∈ s.memberships)
      (storeCode ports i transaction principalId membership permissions time lifetime attempts 0)
      (Completed i transactionId) anyEnd := by
  cases attempts with
  | zero => exact does_throw fun _ _ _ => trivial
  | succ attempts =>
    have happroves : Approves ports i transaction principalId membership
        (codeOf transaction principalId membership permissions (ports.sha256Base64Url (ports.opaqueValue i 0)) time lifetime) :=
      ⟨htenant, howner, permissions, time, lifetime, hpermissions, rfl⟩
    refine Triple.bind (Q := fun stored s => stored = true ∧ Wrote i [.taken transaction, .approved transaction principalId
      membership (codeOf transaction principalId membership permissions (ports.sha256Base64Url (ports.opaqueValue i 0)) time
        lifetime)] s) ?_ fun stored => Triple.of_pure fun hstored => ?_
    · refine does_statement (fun _ => Stable.and (Stable.const _) kept_wrote) (fun _ => trivial) ?_
      rintro s hi ⟨hs, hmember⟩
      obtain ⟨h1, h2, h3, h4⟩ := putCode_spec hideal hi hs hmember happroves
      exact ⟨h2, Writes.one h4 hdecision, h3, h1, wrote_append hs h4⟩
    · subst hstored
      refine Triple.bind (does_record kept_wrote fun _ => trivial) fun _ => ?_
      exact Triple.pure fun s _ hs _ => ⟨transaction, principalId, membership, _, hs, hid⟩

theorem does_approve (hideal : ports.Ideal) {transactionId : String} {decision : Decision} {transaction : Transaction}
    {time : Int} (hid : transaction.transactionId = transactionId) (happroved : decision.approved = true) :
    Does ports base i (.complete transactionId decision) (Wrote i [.taken transaction])
      (approve ports i transaction decision.principalId time) (Completed i transactionId) anyEnd := by
  have hcheck : ∀ {γ : Type} {r : Except OAuthError γ} {P : State → Prop},
      Does ports base i (.complete transactionId decision) P (evaluate r) (fun b s => r = .ok b ∧ P s) anyEnd :=
    fun {_ _ _} => does_evaluate fun _ _ _ _ _ => trivial
  refine Triple.bind hcheck fun _ => Triple.of_pure fun _ => ?_
  refine Triple.bind hcheck fun _ => Triple.of_pure fun howner => ?_
  refine Triple.bind (Q := fun found s => Wrote i [.taken transaction] s
    ∧ (found ≠ none → (decision.principalId, transaction.tenantId) ∈ s.memberships)) ?_ fun found => ?_
  · refine does_query (fun _ => Stable.and kept_wrote (Stable.imp fun _ => kept_member)) (fun _ => trivial) ?_
    intro s _ hs
    refine ⟨hs, fun hne => ?_⟩
    obtain ⟨membership, hfound⟩ := Option.ne_none_iff_exists'.mp hne
    exact AList.mem_of_lookup hfound
  cases found with
  | none => exact does_throw fun _ _ _ => trivial
  | some membership =>
    refine Triple.pre (P := fun s => Wrote i [.taken transaction] s
      ∧ (decision.principalId, transaction.tenantId) ∈ s.memberships) ?_ fun s _ h => ⟨h.1, h.2 (by simp)⟩
    refine Triple.bind hcheck fun _ => Triple.of_pure fun htenant => ?_
    refine Triple.bind hcheck fun _ => Triple.of_pure fun _ => ?_
    refine Triple.bind hcheck fun lifetime => Triple.of_pure fun _ => ?_
    refine Triple.bind hcheck fun permissions => Triple.of_pure fun hpermissions => ?_
    refine does_storeCode hideal hid ⟨happroved, rfl⟩ ?_ ?_ hpermissions 3
    · exact of_decide_eq_true (check_ok htenant)
    · have hboth := check_ok howner
      simpa using hboth

theorem does_complete (hideal : ports.Ideal) (transactionId : String) (decision : Decision) :
    Does ports base i (.complete transactionId decision) (Wrote i []) (completeGatewayOAuthAuthorization ports i transactionId decision)
      (Completed i transactionId) anyEnd := by
  refine Triple.bind (Q := fun found s => ∀ transaction, found = some transaction →
    transaction.transactionId = transactionId ∧ Wrote i [.taken transaction] s) ?_ fun found => ?_
  · refine does_statement ?_ (fun _ => trivial) ?_
    · intro found s s' hi hi' hr h transaction heq
      exact ⟨(h transaction heq).1, kept_wrote s s' hi hi' hr (h transaction heq).2⟩
    · intro s hi hs
      obtain ⟨h1, h2, ⟨hnone, hsame⟩ | ⟨transaction, hsome, hid, hjournal⟩⟩ := takeTransaction_spec hi hs transactionId
      · refine ⟨h1, Writes.of_eq (by rw [hsame]), h2, ?_⟩
        rw [hnone]
        intro transaction heq
        cases heq
      · refine ⟨h1, Writes.one hjournal hid, h2, ?_⟩
        rw [hsome]
        rintro transaction' ⟨⟩
        exact ⟨hid, wrote_append hs hjournal⟩
  · cases found with
    | none => exact does_throw fun _ _ _ => trivial
    | some transaction =>
      refine Triple.pre (P := fun s => transaction.transactionId = transactionId ∧ Wrote i [.taken transaction] s) ?_
        fun s _ h => h transaction rfl
      refine Triple.of_pure fun hid => ?_
      refine Triple.bind (does_now kept_wrote) fun time => ?_
      refine Triple.bind (does_check fun _ _ _ _ => trivial) fun _ => ?_
      refine Triple.bind (does_check fun _ _ _ _ => trivial) fun _ => ?_
      split
      · rename_i happroved
        exact does_approve hideal hid happroved
      · refine Triple.bind (does_record kept_wrote fun _ => trivial) fun _ => ?_
        exact Triple.pure fun s _ _ hcode => absurd rfl hcode

/-! ## Issuing -/

/-- The issuer's token is written down, and a failure revokes the family. -/
theorem does_issue {familyId principalId tenantId : String} {permissions : List Permission} {refDomain : Option String}
    {lifetime : Int} {draw : Nat} {tokenHash clientId : String} {es : List Entry} {T : OAuthError → State → Prop}
    (hT : ∀ s, T .storage s) (hmay : ∀ access, May ports q (.issued familyId access))
    (hstory : ∀ access : AccessToken, access.subject = principalId → access.tenantId = tenantId →
      access.permissions = permissions → access.refDomain = refDomain → Story ports i (es ++ [.issued familyId access])) :
    Does ports base i q (Wrote i es)
      (orRevoke (issueAccessToken ports i familyId principalId tenantId permissions refDomain lifetime draw) tokenHash clientId)
      (fun access => Wrote i (es ++ [.issued familyId access])) T := by
  refine Triple.tryCatch (F := fun e _ => e = .storage) ?_ fun e => ?_
  · refine statement_rule (fun _ => kept_wrote) (fun _ _ _ _ _ _ => rfl) (fun _ _ _ => rfl) ?_
    intro _ s hi hs _
    have hinv := Inv.write hi hs (hstory ⟨principalId, ports.audience, tenantId, permissions, lifetime,
      ports.opaqueValue i draw, refDomain⟩ rfl rfl rfl rfl) (.inr ⟨_, _, rfl⟩)
    exact ⟨hinv, Writes.one rfl (hmay _), Fences.write rfl (by simp) rfl fun _ hk => hk, wrote_append hs rfl, rfl⟩
  · refine Triple.bind (Q := fun _ _ => e = .storage) ?_ fun _ => ?_
    · refine does_statement (fun _ => Stable.const _) hT ?_
      intro s hi he
      obtain ⟨h1, h2, h3⟩ := revoke_spec hi tokenHash clientId
      exact ⟨h1, Writes.of_eq h3, h2, he⟩
    · refine Triple.throw ?_
      rintro s _ rfl
      exact hT s

/-! ## Exchanging a code -/

/-- What a call that exchanges a code ends with. -/
def Exchanged (ports : Ports) (i : Nat) (request : CodeRequest) (response : TokenResponse) (s : State) : Prop :=
  ∃ code token, Wrote i [.exchanged code, .granted code token, .issued token.familyId response.accessToken] s
    ∧ code.codeHash = ports.sha256Base64Url request.code

theorem does_createInitialRefreshToken (hideal : ports.Ideal) {request : CodeRequest} {code : StoredCode}
    {time lifetime : Int} (haccepts : codeAccepts ports code request time = true) (attempts : Nat) :
    Does ports base i (.exchange request) (Wrote i [.exchanged code])
      (createInitialRefreshToken ports i code time lifetime attempts 1)
      (fun r s => Grants ports i code r.2 ∧ Wrote i [.exchanged code, .granted code r.2] s) anyEnd := by
  cases attempts with
  | zero => exact does_throw fun _ _ _ => trivial
  | succ attempts =>
    have htime : time < code.expiresAt := by
      simp only [codeAccepts, Bool.and_eq_true, decide_eq_true_eq] at haccepts
      exact haccepts.1.1.1
    have hgrants : Grants ports i code (initialToken code (ports.sha256Base64Url (ports.opaqueValue i 1))
        (ports.opaqueValue i 0) time lifetime) := ⟨time, lifetime, htime, rfl⟩
    refine Triple.bind (Q := fun stored s => stored = true ∧ Wrote i [.exchanged code, .granted code
      (initialToken code (ports.sha256Base64Url (ports.opaqueValue i 1)) (ports.opaqueValue i 0) time lifetime)] s) ?_
      fun stored => Triple.of_pure fun hstored => ?_
    · refine does_statement (fun _ => Stable.and (Stable.const _) kept_wrote) (fun _ => trivial) ?_
      intro s hi hs
      obtain ⟨h1, h2, h3, h4⟩ := putInitial_spec hideal hi hs hgrants
      exact ⟨h2, Writes.one h4 haccepts, h3, h1, wrote_append hs h4⟩
    · subst hstored
      exact Triple.pure fun s _ hs => ⟨hgrants, hs⟩

theorem does_grantTokens (hideal : ports.Ideal) {request : CodeRequest} {code : StoredCode}
    (hcode : code.codeHash = ports.sha256Base64Url request.code) :
    Does ports base i (.exchange request) (Wrote i [.exchanged code]) (grantTokens ports i request code)
      (Exchanged ports i request) anyEnd := by
  refine Triple.bind (does_now kept_wrote) fun time => ?_
  refine Triple.bind (does_check fun _ _ _ _ => trivial) fun _ => ?_
  split
  · rename_i haccepts
    refine Triple.bind (does_check fun _ _ _ _ => trivial) fun _ => ?_
    refine Triple.bind (does_check fun _ _ _ _ => trivial) fun lifetime => ?_
    refine Triple.bind (does_check fun _ _ _ _ => trivial) fun refreshLifetime => ?_
    refine Triple.bind (does_createInitialRefreshToken hideal haccepts 3) fun r => Triple.of_pure fun hgrants => ?_
    refine Triple.bind (Q := fun access => Wrote i [.exchanged code, .granted code r.2, .issued r.2.familyId access]) ?_
      fun access => ?_
    · refine does_issue (fun _ => trivial) (fun _ => trivial) ?_
      intro access hsubject htenant hpermissions hrefDomain
      refine .grantIssued code r.2 access hgrants ?_
      obtain ⟨time', lifetime', _, htoken⟩ := hgrants
      rw [htoken]
      exact ⟨hsubject, htenant, hpermissions, hrefDomain⟩
    · refine Triple.bind (does_record kept_wrote fun _ => trivial) fun _ => ?_
      exact Triple.pure fun s _ hs => ⟨code, r.2, hs, hcode⟩
  · refine Triple.bind (does_record kept_wrote fun _ => trivial) fun _ => ?_
    exact does_throw fun _ _ _ => trivial

theorem does_exchange (hideal : ports.Ideal) (request : CodeRequest) :
    Does ports base i (.exchange request) (Wrote i []) (exchangeGatewayOAuthAuthorizationCode ports i request)
      (Exchanged ports i request) anyEnd := by
  have hcheck : ∀ {γ : Type} {r : Except OAuthError γ} {P : State → Prop},
      Does ports base i (.exchange request) P (evaluate r) (fun _ => P) anyEnd := fun {_ _ _} => does_check fun _ _ _ _ => trivial
  refine Triple.bind hcheck fun _ => ?_
  refine Triple.bind hcheck fun _ => ?_
  refine Triple.bind hcheck fun _ => ?_
  refine Triple.bind hcheck fun _ => ?_
  refine Triple.bind (Q := fun found s => ∀ code, found = some code →
    code.codeHash = ports.sha256Base64Url request.code ∧ Wrote i [.exchanged code] s) ?_ fun found => ?_
  · refine does_statement ?_ (fun _ => trivial) ?_
    · intro found s s' hi hi' hr h code heq
      exact ⟨(h code heq).1, kept_wrote s s' hi hi' hr (h code heq).2⟩
    · intro s hi hs
      obtain ⟨h1, h2, ⟨hnone, hsame⟩ | ⟨code, hsome, hhash, hjournal⟩⟩ :=
        takeCode_spec hi hs (ports.sha256Base64Url request.code)
      · refine ⟨h1, Writes.of_eq (by rw [hsame]), h2, ?_⟩
        rw [hnone]
        intro code heq
        cases heq
      · refine ⟨h1, Writes.one hjournal hhash, h2, ?_⟩
        rw [hsome]
        rintro code' ⟨⟩
        exact ⟨hhash, wrote_append hs hjournal⟩
  · cases found with
    | none =>
      refine Triple.bind (Q := fun _ _ => True) ?_ fun _ => does_throw fun _ _ _ => trivial
      exact (does_record (P := fun _ => True) (Stable.const _) fun _ => trivial).pre fun _ _ _ => trivial
    | some code =>
      refine Triple.pre (P := fun s => code.codeHash = ports.sha256Base64Url request.code ∧ Wrote i [.exchanged code] s) ?_
        fun s _ h => h code rfl
      exact Triple.of_pure fun hcode => does_grantTokens hideal hcode

/-! ## Refreshing -/

/-- What a refresh leaves behind when it throws, unless the store has failed: the family of a consumed token is dead. -/
def Fenced (i : Nat) (s : State) : Prop :=
  ∀ row, (i, .refused (some row)) ∈ s.journal → row.consumedAt ≠ none → Dead row.familyId s

/-- The end of a refresh that throws. -/
def refreshEnd (i : Nat) (e : OAuthError) (s : State) : Prop := e ≠ .storage → Fenced i s

/-- What a call that refreshes a token ends with. -/
def Refreshed (ports : Ports) (i : Nat) (request : RefreshRequest) (response : TokenResponse) (s : State) : Prop :=
  ∃ current next, Wrote i [.rotated current next, .issued next.familyId response.accessToken] s
    ∧ current.tokenHash = ports.sha256Base64Url request.refreshToken ∧ next.clientId = request.clientId

theorem Wrote.fenced {es : List Entry} {s : State} (h : Wrote i es s) (hes : ∀ found, Entry.refused found ∉ es) :
    Fenced i s := by
  intro row hm
  have hmem := mem_own.mpr hm
  rw [Wrote] at h
  rw [h] at hmem
  exact absurd hmem (hes _)

/-- What is known after a rotation. -/
def Rotated (ports : Ports) (i : Nat) (request : RefreshRequest) (rotation : Option StoredToken) (s : State) : Prop :=
  match rotation with
  | none => Fenced i s
  | some stored => ∃ current, Wrote i [.rotated current stored] s ∧ Rotates ports i current stored
    ∧ current.tokenHash = ports.sha256Base64Url request.refreshToken

theorem kept_fenced {request : RefreshRequest} : Kept ports base i (.refresh request) (Fenced i) := by
  intro s s' _ _ hr h row hm hc
  have hmem : (i, Entry.refused (some row)) ∈ s.journal := by
    have hown := mem_own.mpr hm
    rw [show own i s'.journal = own i s.journal from Others.own hr.1] at hown
    exact mem_own.mp hown
  exact hr.2.dead _ (h row hmem hc)

theorem mem_of_wrote {es : List Entry} {e : Entry} {s : State} (h : Wrote i es s) : (i, e) ∈ s.journal ↔ e ∈ es := by
  rw [Wrote] at h
  rw [← mem_own, h]

/-- After the statement of the rotation: what the call has written, by the answer of the statement. -/
def RotateAnswered (ports : Ports) (i : Nat) (request : RefreshRequest) (time : Int) (inserted : Option Bool) (s : State) : Prop :=
  (inserted = some true → ∃ current, Wrote i [.rotated current (State.successor current
      (ports.sha256Base64Url (ports.opaqueValue i 0)) time)] s ∧ current.tokenHash = ports.sha256Base64Url request.refreshToken)
    ∧ (inserted = some false → ∃ found, Wrote i [.refused found] s
      ∧ ∀ row, found = some row → row.tokenHash = ports.sha256Base64Url request.refreshToken)

/-- After the lookup that follows a refused rotation. -/
def RefusedLookedUp (i : Nat) (current : Option (RefreshRow × Bool)) (s : State) : Prop :=
  ∃ found, Wrote i [.refused found] s ∧ (current = none → Fenced i s)
    ∧ ∀ row revoked, current = some (row, revoked) → (row.consumedAt = none ∨ revoked = true → Fenced i s)
      ∧ ∀ r, found = some r → r.consumedAt ≠ none → row.familyId = r.familyId

/-- After a refused rotation: the token is gone with its family, its family is revoked, or it is found consumed. -/
theorem found_after_refused {s : State} (hi : Inv ports base s) {found : Option RefreshRow} (hs : Wrote i [.refused found] s)
    {currentHash : String} (hhash : ∀ row, found = some row → row.tokenHash = currentHash) :
    RefusedLookedUp i (s.findToken currentHash) s := by
  have hrow : ∀ row, (i, Entry.refused (some row)) ∈ s.journal → found = some row := by
    intro row hm
    simpa [eq_comm] using (mem_of_wrote hs).mp hm
  refine ⟨found, hs, fun hnone row hm hc => ?_, fun current revoked hsome => ?_⟩
  · refine hi.dead_of_gone hm hc ?_
    rw [hhash row (hrow row hm)]
    exact hnone
  · have hfound : ∀ row, found = some row → row.consumedAt ≠ none → current.familyId = row.familyId
        ∧ current.consumedAt ≠ none ∧ ∃ family, s.families.lookup row.familyId = some family ∧ family.revoked = revoked := by
      intro row heq hc
      have hm : (i, Entry.refused (some row)) ∈ s.journal := (mem_of_wrote hs).mpr (by simp [heq])
      exact hi.found_of_refused hm hc (by rw [hhash row heq]; exact hsome)
    refine ⟨?_, fun row heq hc => (hfound row heq hc).1⟩
    intro hend row hm hc
    obtain ⟨_, hconsumed, family, hfamily, hrevoked⟩ := hfound row (hrow row hm) hc
    rcases hend with hend | hend
    · exact absurd hend hconsumed
    · exact hi.dead_of_revoked hfamily (hrevoked.trans hend)

theorem does_rotate (hideal : ports.Ideal) (request : RefreshRequest) (time : Int) :
    Does ports base i (.refresh request) (Wrote i [])
      (rotate i (ports.sha256Base64Url request.refreshToken) (ports.sha256Base64Url (ports.opaqueValue i 0)) time)
      (Rotated ports i request) (refreshEnd i) := by
  have hstorage : ∀ s, refreshEnd i .storage s := fun _ h => absurd rfl h
  refine Triple.bind (Q := RotateAnswered ports i request time) ?_ fun inserted => ?_
  · refine does_statement ?_ hstorage ?_
    · rintro inserted s s' hi hi' hr ⟨htrue, hfalse⟩
      refine ⟨fun heq => ?_, fun heq => ?_⟩
      · obtain ⟨current, hs, hhash⟩ := htrue heq
        exact ⟨current, kept_wrote s s' hi hi' hr hs, hhash⟩
      · obtain ⟨found, hs, hhash⟩ := hfalse heq
        exact ⟨found, kept_wrote s s' hi hi' hr hs, hhash⟩
    · intro s hi hs
      obtain ⟨h1, h2, ⟨hr, hsame⟩ | ⟨hr, hkey, hjournal⟩ | ⟨current, hr, hkey, hjournal⟩⟩ :=
        rotate_spec hideal hi hs (ports.sha256Base64Url request.refreshToken) time rfl
      · refine ⟨h1, Writes.of_eq (by rw [hsame]), h2, ?_⟩
        rw [hr]
        exact ⟨nofun, nofun⟩
      · refine ⟨h1, Writes.one hjournal hkey, h2, ?_⟩
        rw [hr]
        exact ⟨nofun, fun _ => ⟨_, wrote_append hs hjournal, hkey⟩⟩
      · refine ⟨h1, Writes.one hjournal hkey, h2, ?_⟩
        rw [hr]
        exact ⟨fun _ => ⟨current, wrote_append hs hjournal, hkey⟩, nofun⟩
  · rcases inserted with _ | _ | _
    case none => exact does_throw fun s _ _ => hstorage s
    case some.true =>
      refine Triple.bind (Q := fun row s => Fenced i s ∧ ∀ r, row = some r → Rotated ports i request (some r.1.toStoredToken) s)
        ?_ fun row => ?_
      · refine does_query ?_ hstorage ?_
        · refine fun row => Stable.and kept_fenced ?_
          rintro s s' hi hi' hr h r heq
          obtain ⟨current, hs, hrotates, hhash⟩ := h r heq
          exact ⟨current, kept_wrote s s' hi hi' hr hs, hrotates, hhash⟩
        · rintro s hi ⟨htrue, -⟩
          obtain ⟨current, hs, hhash⟩ := htrue rfl
          refine ⟨hs.fenced (by simp), ?_⟩
          rintro ⟨row, revoked⟩ heq
          -- the row under the new hash is the one this call has stored
          have hrow : s.tokens.lookup (ports.sha256Base64Url (ports.opaqueValue i 0)) = some row := by
            rw [State.findToken] at heq
            split at heq
            · cases heq
            · rename_i row' hrow'
              obtain ⟨_, _, heq'⟩ := Option.map_eq_some_iff.mp heq
              cases heq'
              exact hrow'
          obtain ⟨hkey, hborn⟩ := hi.tokens.row _ row hrow
          have hown : own i s.journal = [.rotated current (State.successor current
            (ports.sha256Base64Url (ports.opaqueValue i 0)) time)] := hs
          rcases hi.stored_of_hash hideal hborn hkey with ⟨code, hmem⟩ | ⟨current', hmem⟩
          · rw [hown] at hmem
            simp at hmem
          · rw [hown, List.mem_singleton, Entry.rotated.injEq] at hmem
            rw [hmem.2]
            exact ⟨current, hs, ⟨time, rfl⟩, hhash⟩
      · cases row with
        | none => exact does_throw fun s _ h _ => h.1
        | some row => exact Triple.pure fun s _ h => h.2 row rfl
    case some.false =>
      refine Triple.bind (Q := RefusedLookedUp i) ?_ fun current => ?_
      · refine does_query ?_ hstorage ?_
        · rintro current s s' hi hi' hr ⟨found, hs, hnone, hsome⟩
          refine ⟨found, kept_wrote s s' hi hi' hr hs, fun heq => kept_fenced s s' hi hi' hr (hnone heq), ?_⟩
          intro row revoked heq
          exact ⟨fun hend => kept_fenced s s' hi hi' hr ((hsome row revoked heq).1 hend), (hsome row revoked heq).2⟩
        · rintro s hi ⟨-, hfalse⟩
          obtain ⟨found, hs, hhash⟩ := hfalse rfl
          exact found_after_refused hi hs hhash
      · rcases current with _ | ⟨row, revoked⟩
        · exact Triple.pure fun s _ h => h.choose_spec.2.1 rfl
        · dsimp only
          split
          · rename_i hend
            exact Triple.pure fun s _ h => (h.choose_spec.2.2 row revoked rfl).1 hend
          · refine Triple.bind (Q := fun _ => Fenced i) ?_ fun _ => Triple.pure fun _ _ h => h
            refine does_statement (fun _ => kept_fenced) hstorage ?_
            rintro s hi ⟨found, hs, -, hsome⟩
            obtain ⟨h1, h2, h3⟩ := replay_spec hi time row.familyId
            refine ⟨h1, Writes.of_eq rfl, h2, ?_⟩
            intro r hm hc
            have hm' : (i, Entry.refused (some r)) ∈ s.journal := hm
            have heq : found = some r := by simpa [eq_comm] using (mem_of_wrote hs).mp hm'
            have hfamily := (hsome row revoked rfl).2 r heq hc
            rw [← hfamily]
            refine h3 ?_
            rw [hfamily]
            exact (hi.tokens.refused i r hm' hc).1.2

theorem does_refreshTokens {request : RefreshRequest} {current stored : StoredToken} {nextRefreshToken : String} {time : Int}
    (hrotates : Rotates ports i current stored) (hhash : current.tokenHash = ports.sha256Base64Url request.refreshToken) :
    Does ports base i (.refresh request) (Wrote i [.rotated current stored])
      (refreshTokens ports i request nextRefreshToken stored time) (Refreshed ports i request) (refreshEnd i) := by
  have hstorage : ∀ s, refreshEnd i .storage s := fun _ h => absurd rfl h
  have hfenced : ∀ e s, Wrote i [.rotated current stored] s → refreshEnd i e s := fun e s hs _ => hs.fenced (by simp)
  rw [refreshTokens]
  split
  · refine Triple.bind (Q := fun _ => Wrote i [.rotated current stored]) ?_ fun _ => ?_
    · refine does_statement (fun _ => kept_wrote) hstorage ?_
      intro s hi hs
      obtain ⟨h1, h2, h3⟩ := revoke_spec hi (ports.sha256Base64Url nextRefreshToken) stored.clientId
      exact ⟨h1, Writes.of_eq h3, h2, by rw [Wrote, h3]; exact hs⟩
    · refine Triple.bind (does_record kept_wrote hstorage) fun _ => ?_
      exact does_throw fun s _ hs => hfenced _ s hs
  · rename_i hcheck
    refine Triple.bind (does_check fun e s _ hs => hfenced e s hs) fun lifetime => ?_
    refine Triple.bind (Q := fun access => Wrote i [.rotated current stored, .issued stored.familyId access]) ?_ fun access => ?_
    · refine does_issue hstorage (fun _ => trivial) ?_
      intro access hsubject htenant hpermissions hrefDomain
      exact .rotateIssued current stored access hrotates ⟨hsubject, htenant, hpermissions, hrefDomain⟩
    · refine Triple.bind (does_record kept_wrote hstorage) fun _ => ?_
      refine Triple.pure fun s _ hs => ⟨current, stored, hs, hhash, ?_⟩
      rw [not_or, not_not] at hcheck
      exact hcheck.1

theorem does_refresh (hideal : ports.Ideal) (request : RefreshRequest) :
    Does ports base i (.refresh request) (Wrote i []) (refreshGatewayOAuthAccessToken ports i request)
      (Refreshed ports i request) (refreshEnd i) := by
  have hstorage : ∀ s, refreshEnd i .storage s := fun _ h => absurd rfl h
  have hcheck : ∀ {γ : Type} {r : Except OAuthError γ},
      Does ports base i (.refresh request) (Wrote i []) (evaluate r) (fun _ => Wrote i []) (refreshEnd i) :=
    fun {_ _} => does_check fun _ s _ hs _ => hs.fenced (by simp)
  refine Triple.bind hcheck fun _ => ?_
  refine Triple.bind hcheck fun _ => ?_
  refine Triple.bind hcheck fun _ => ?_
  refine Triple.bind (does_now kept_wrote) fun time => ?_
  refine Triple.bind hcheck fun _ => ?_
  refine Triple.bind (does_rotate hideal request time) fun rotation => ?_
  cases rotation with
  | none =>
    refine Triple.bind (does_record kept_fenced hstorage) fun _ => ?_
    exact does_throw fun s _ h _ => h
  | some stored =>
    rintro s hi ⟨current, hs, hrotates, hhash⟩
    exact does_refreshTokens hrotates hhash s hi hs

/-! ## Revoking and cleaning up -/

theorem does_revoke (refreshToken clientId : String) :
    Does ports base i (.revoke refreshToken clientId) (Wrote i []) (revokeGatewayOAuthRefreshToken ports refreshToken clientId)
      (fun _ _ => True) anyEnd := by
  refine Triple.bind (does_check fun _ _ _ _ => trivial) fun _ => ?_
  refine Triple.bind (does_check fun _ _ _ _ => trivial) fun _ => ?_
  refine Triple.bind (Q := fun _ _ => True) ?_ fun _ => does_record (Stable.const _) fun _ => trivial
  refine does_statement (fun _ => Stable.const _) (fun _ => trivial) ?_
  intro s hi _
  obtain ⟨h1, h2, h3⟩ := revoke_spec hi (ports.sha256Base64Url refreshToken) clientId
  exact ⟨h1, Writes.of_eq h3, h2, trivial⟩

theorem does_cleanup (hideal : ports.Ideal) :
    Does ports base i .cleanup (Wrote i []) cleanupGatewayOAuthD1 (fun _ _ => True) anyEnd := by
  refine Triple.bind (does_now kept_wrote) fun time => ?_
  refine Triple.bind (does_check fun _ _ _ _ => trivial) fun _ => ?_
  refine does_statement (fun _ => Stable.const _) (fun _ => trivial) ?_
  intro s hi _
  obtain ⟨h1, h2⟩ := cleanup_spec hideal hi time
  exact ⟨h1, Writes.of_eq rfl, h2, trivial⟩

end UniDocs.OAuth
