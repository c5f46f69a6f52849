import UniDocs.Lemmas.OAuthPrograms
import UniDocs.Lib.Digest

/-!
# One-time grants and fenced families

Over any interleaving of the calls of the gateway: a transaction yields one code and a code one token response, for what it
was issued for; a refresh token has one successor; a family that is revoked, or of which a consumed token was presented again,
is not rotated any more; and an access token carries what was approved in the transaction that its family goes back to.
-/

namespace UniDocs.OAuth

open Lib Lib.Journal

variable {ports : Ports} {base : String × String → Prop} {seeding : Bool}

/-- What a call ends with. -/
def Ended (ports : Ports) (i : Nat) (q : OAuthRequest) (r : Except OAuthError OAuthResult) (s : State) : Prop :=
  match q, r with
  | .complete transactionId _, .ok (.decided result) => Completed i transactionId result s
  | .exchange request, .ok (.tokens response) => Exchanged ports i request response s
  | .refresh request, .ok (.tokens response) => Refreshed ports i request response s
  | .refresh _, .error e => refreshEnd i e s
  | _, .ok (.tokens _) => False
  | _, _ => True

theorem environment_keeps (hbase : seeding = true → ∀ k, base k) {e : OAuthEvent} {s s' : State} (hi : Inv ports base s)
    (he : environment seeding e s = some s') : Inv ports base s' ∧ s'.journal = s.journal ∧ Fences s s' := by
  cases e with
  | clock time =>
    cases he
    exact ⟨⟨hi.story, hi.transactions, hi.codes, hi.tokens, hi.members⟩, rfl,
      Fences.of_same rfl (fun _ _ _ h => .inr h) fun _ h => h⟩
  | register client =>
    cases he
    exact ⟨⟨hi.story, hi.transactions, hi.codes, hi.tokens, hi.members⟩, rfl,
      Fences.of_same rfl (fun _ _ _ h => .inr h) fun _ h => h⟩
  | seed principalId membership =>
    simp only [environment] at he
    split at he
    · rename_i hseeding
      cases he
      have hgrows : ∀ k, k ∈ s.memberships → k ∈ s.memberships.insert (principalId, membership.tenantId) membership :=
        fun k hk => (AList.mem_insert _).mpr (.inr hk)
      refine ⟨⟨hi.story, hi.transactions, hi.codes, hi.tokens, ?_⟩, rfl,
        Fences.of_same rfl (fun _ _ _ h => .inr h) hgrows⟩
      exact ⟨fun k _ => .inl (hbase hseeding k), fun j t u m c hm => hgrows _ (hi.members.approved j t u m c hm)⟩
    · cases he

theorem serve_does (hideal : ports.Ideal) (i : Nat) (q : OAuthRequest) :
    Does ports base i q (Wrote i []) (serve ports i q) (fun a => Ended ports i q (.ok a)) (fun e => Ended ports i q (.error e)) := by
  cases q with
  | start request =>
    refine Triple.bind ((does_start hideal request).conseq (fun _ _ h => h) (fun _ _ _ h => h) fun _ _ _ _ => trivial) fun _ => ?_
    exact Triple.pure fun _ _ _ => trivial
  | complete transactionId decision =>
    refine Triple.bind ((does_complete hideal transactionId decision).conseq (fun _ _ h => h) (fun _ _ _ h => h)
      fun _ _ _ _ => trivial) fun _ => ?_
    exact Triple.pure fun _ _ h => h
  | exchange request =>
    refine Triple.bind ((does_exchange hideal request).conseq (fun _ _ h => h) (fun _ _ _ h => h) fun _ _ _ _ => trivial)
      fun _ => ?_
    exact Triple.pure fun _ _ h => h
  | refresh request =>
    refine Triple.bind ((does_refresh hideal request).conseq (fun _ _ h => h) (fun _ _ _ h => h) fun _ _ _ h => h) fun _ => ?_
    exact Triple.pure fun _ _ h => h
  | revoke refreshToken clientId =>
    refine Triple.bind ((does_revoke refreshToken clientId).conseq (fun _ _ h => h) (fun _ _ _ h => h) fun _ _ _ _ => trivial)
      fun _ => ?_
    exact Triple.pure fun _ _ _ => trivial
  | cleanup =>
    refine Triple.bind ((does_cleanup hideal).conseq (fun _ _ h => h) (fun _ _ _ h => h) fun _ _ _ _ => trivial) fun _ => ?_
    exact Triple.pure fun _ _ _ => trivial

/-- The proof of the gateway, with the keys of memberships that are not provisioned. -/
def gatewayProof (hideal : ports.Ideal) (hbase : seeding = true → ∀ k, base k) : Proof (gateway ports seeding) :=
  proof (gateway ports seeding) (frame ports base) (Ended ports) (fun _ _ _ hi he => environment_keeps hbase hi he)
    (fun _ _ => rfl) fun i q => serve_does hideal i q

theorem initial_inv (time : Int) (clients : Table String Client) {memberships : Table (String × String) Membership}
    (hmembers : ∀ k, k ∈ memberships → base k) :
    Inv ports base (GatewayPool.initial time clients memberships).state where
  members := ⟨fun k hk => .inl (hmembers k hk), by simp [GatewayPool.initial]⟩
  story _ := .nothing
  transactions := .empty (by simp [GatewayPool.initial])
  codes := .empty (by simp [GatewayPool.initial])
  tokens := by
    constructor <;> simp [GatewayPool.initial]

theorem gateway_initial (hideal : ports.Ideal) (hbase : seeding = true → ∀ k, base k) (time : Int)
    (clients : Table String Client) {memberships : Table (String × String) Membership}
    (hmembers : ∀ k, k ∈ memberships → base k) :
    (gatewayProof hideal hbase).Initial (GatewayPool.initial time clients memberships) where
  inv := initial_inv time clients hmembers
  empty _ := rfl
  idle _ := rfl

/-! ## The laws -/

/-- What the journal and the results of the calls are like at any point. -/
structure OneTimeGrants (ports : Ports) (p : GatewayPool) : Prop where
  /-- A transaction yields at most one code. -/
  code : ∀ i j t t' u u' m m' c c', (i, .approved t u m c) ∈ p.state.journal → (j, .approved t' u' m' c') ∈ p.state.journal →
    t.transactionId = t'.transactionId → i = j ∧ c = c'
  /-- At most one call that completes a transaction returns a code. -/
  codeReturned : ∀ i j id d d' r r', p.Returned i (.complete id d) (.ok (.decided r)) →
    p.Returned j (.complete id d') (.ok (.decided r')) → r.code ≠ none → r'.code ≠ none → i = j
  /-- At most one call that exchanges a code returns tokens. -/
  response : ∀ i j request request' r r', p.Returned i (.exchange request) (.ok (.tokens r)) →
    p.Returned j (.exchange request') (.ok (.tokens r')) → request.code = request'.code → i = j
  /-- It does for the client, the redirect URI and the verifier of the code, before the code expires. -/
  responseFor : ∀ i request r, p.Returned i (.exchange request) (.ok (.tokens r)) → ∃ j t u m code token,
    (j, .approved t u m code) ∈ p.state.journal ∧ (i, .granted code token) ∈ p.state.journal
      ∧ code.codeHash = ports.sha256Base64Url request.code ∧ t.clientId = request.clientId
      ∧ t.redirectUri = request.redirectUri ∧ t.codeChallenge = ports.sha256Base64Url request.codeVerifier
      ∧ token.createdAt < code.expiresAt
  /-- A refresh token has at most one successor. -/
  successor : ∀ i j current next current' next', (i, .rotated current next) ∈ p.state.journal →
    (j, .rotated current' next') ∈ p.state.journal → current.tokenHash = current'.tokenHash → i = j ∧ next = next'
  /-- At most one call that presents a refresh token returns tokens. -/
  refreshed : ∀ i j request request' r r', p.Returned i (.refresh request) (.ok (.tokens r)) →
    p.Returned j (.refresh request') (.ok (.tokens r')) → request.refreshToken = request'.refreshToken → i = j
  /-- It does for the client of the family. -/
  refreshedFor : ∀ i request r, p.Returned i (.refresh request) (.ok (.tokens r)) → ∃ current next,
    (i, .rotated current next) ∈ p.state.journal ∧ current.tokenHash = ports.sha256Base64Url request.refreshToken
      ∧ next.clientId = request.clientId
  /-- Of a family at most one token is not consumed. -/
  unconsumed : ∀ h h' row row', p.state.tokens.lookup h = some row → p.state.tokens.lookup h' = some row' →
    row.familyId = row'.familyId → row.consumedAt = none → row'.consumedAt = none → h = h'
  /-- An access token carries what a member has approved in the transaction that its family goes back to. -/
  carries : ∀ i familyId access, (i, .issued familyId access) ∈ p.state.journal → ∃ j t d m code k first permissions,
    (j, .approved t d.principalId m code) ∈ p.state.journal ∧ (k, .granted code first) ∈ p.state.journal
      ∧ first.familyId = familyId ∧ (∃ thread, p.thread j = some thread ∧ thread.req = .complete t.transactionId d)
      ∧ d.approved = true
      ∧ gatewayOAuthScopesToCapabilityPermissions t.tenantId t.requestedScopes = .ok permissions
      ∧ access.tenantId = t.tenantId ∧ access.subject = d.principalId ∧ access.permissions = permissions
      ∧ access.refDomain = m.refDomain
  /-- The access token that a call returns is one that it was issued. -/
  returned : ∀ i q r, p.Returned i q (.ok (.tokens r)) → ∃ familyId, (i, .issued familyId r.accessToken) ∈ p.state.journal

/-- From one point of a run to a later one, no token of a family has been rotated. -/
def NotRotated (familyId : String) (p p' : GatewayPool) : Prop :=
  ∃ es, p'.state.journal = p.state.journal ++ es ∧ ∀ i current next, (i, .rotated current next) ∈ es →
    current.familyId ≠ familyId

section Laws

variable {p : GatewayPool} {i : Nat}

/-- What the invariant and the authors of the entries give. -/
structure Reached (ports : Ports) (base : String × String → Prop) (p : GatewayPool) : Prop where
  inv : Inv ports base p.state
  author : ∀ i e, (i, e) ∈ p.state.journal → ∃ t, p.thread i = some t ∧ May ports t.req e
  ended : ∀ i q r, p.Returned i q r → Ended ports i q r p.state

theorem reached (hideal : ports.Ideal) (hbase : seeding = true → ∀ k, base k) {time : Int} {clients : Table String Client}
    {memberships : Table (String × String) Membership} (hmembers : ∀ k, k ∈ memberships → base k)
    (h : (gateway ports seeding).Reach Machine.anyCall (GatewayPool.initial time clients memberships) p) : Reached ports base p := by
  have h₀ := gateway_initial hideal hbase time clients hmembers
  refine ⟨((gatewayProof hideal hbase).sound h₀ h).1, ?_, ?_⟩
  · exact fun i e hm => author h₀ rfl h (i, e) hm
  · rintro i q r ⟨steps, ht⟩
    exact (gatewayProof hideal hbase).post_of_done h₀ h ht

theorem Reached.approved_taken (h : Reached ports base p) {t : Transaction} {u : String} {m : Membership} {c : StoredCode}
    (hm : (i, .approved t u m c) ∈ p.state.journal) : (i, .taken t) ∈ p.state.journal := by
  obtain ⟨hstory, hmem⟩ := h.inv.story_of hm
  refine mem_own.mp ?_
  rw [(hstory.of_approved hmem).1]
  exact List.mem_cons_self

theorem Reached.code (h : Reached ports base p) {j : Nat} {t t' : Transaction} {u u' : String} {m m' : Membership}
    {c c' : StoredCode} (hm : (i, .approved t u m c) ∈ p.state.journal) (hm' : (j, .approved t' u' m' c') ∈ p.state.journal)
    (hid : t.transactionId = t'.transactionId) : i = j ∧ c = c' := by
  have hij := h.inv.transactions.once i j t t' (h.approved_taken hm) (h.approved_taken hm') hid
  subst hij
  obtain ⟨hstory, hmem⟩ := h.inv.story_of hm
  have hmem' := mem_own.mpr hm'
  rw [(hstory.of_approved hmem).1] at hmem'
  simp only [List.mem_cons, reduceCtorEq, Entry.approved.injEq, List.not_mem_nil, or_false, false_or] at hmem'
  exact ⟨rfl, hmem'.2.2.2.symm⟩

theorem Reached.successor (h : Reached ports base p) {j : Nat} {current next current' next' : StoredToken}
    (hm : (i, .rotated current next) ∈ p.state.journal) (hm' : (j, .rotated current' next') ∈ p.state.journal)
    (hhash : current.tokenHash = current'.tokenHash) : i = j ∧ next = next' := by
  have hij := h.inv.tokens.once i j current next current' next' hm hm' hhash
  subst hij
  have heq : ∀ es, Story ports i es → Entry.rotated current next ∈ es → Entry.rotated current' next' ∈ es → next = next' := by
    intro es hes h1 h2
    cases hes <;> simp at h1 h2 <;> rw [h1.2, h2.2]
  exact ⟨rfl, heq _ (h.inv.story i) (mem_own.mpr hm) (mem_own.mpr hm')⟩

theorem Reached.responseFor (h : Reached ports base p) {request : CodeRequest} {r : TokenResponse}
    (hr : p.Returned i (.exchange request) (.ok (.tokens r))) : ∃ j t u m code token,
    (j, .approved t u m code) ∈ p.state.journal ∧ (i, .granted code token) ∈ p.state.journal
      ∧ code.codeHash = ports.sha256Base64Url request.code ∧ t.clientId = request.clientId
      ∧ t.redirectUri = request.redirectUri ∧ t.codeChallenge = ports.sha256Base64Url request.codeVerifier
      ∧ token.createdAt < code.expiresAt := by
  obtain ⟨code, token, hwrote, hhash⟩ := h.ended _ _ _ hr
  have hexchanged : (i, Entry.exchanged code) ∈ p.state.journal := (mem_of_wrote hwrote).mpr (by simp)
  have hgranted : (i, Entry.granted code token) ∈ p.state.journal := (mem_of_wrote hwrote).mpr (by simp)
  obtain ⟨j, t, u, m, happroved⟩ := h.inv.codes.known i code hexchanged
  obtain ⟨thread, hthread, haccepts⟩ := h.author _ _ hgranted
  obtain ⟨steps, hsteps⟩ := hr
  rw [hsteps] at hthread
  cases hthread
  obtain ⟨hstory, hmem⟩ := h.inv.story_of happroved
  obtain ⟨permissions, time, lifetime, _, hcode⟩ := (hstory.of_approved hmem).2.code
  have hchecks : token.createdAt < code.expiresAt ∧ code.clientId = request.clientId ∧ code.redirectUri = request.redirectUri
      ∧ ports.sha256Base64Url request.codeVerifier = code.codeChallenge := by
    simp only [May, codeAccepts, verifyGatewayOAuthPkceS256, Bool.and_eq_true, decide_eq_true_eq] at haccepts
    exact ⟨haccepts.1.1.1, haccepts.1.1.2, haccepts.1.2, haccepts.2.2⟩
  have hclient : t.clientId = code.clientId := by rw [hcode]; rfl
  have hredirect : t.redirectUri = code.redirectUri := by rw [hcode]; rfl
  have hchallenge : t.codeChallenge = code.codeChallenge := by rw [hcode]; rfl
  exact ⟨j, t, u, m, code, token, happroved, hgranted, hhash, hclient.trans hchecks.2.1, hredirect.trans hchecks.2.2.1,
    hchallenge.trans hchecks.2.2.2.symm, hchecks.1⟩

theorem Reached.issued_first (h : Reached ports base p) {familyId : String} {access : AccessToken}
    (hm : (i, .issued familyId access) ∈ p.state.journal) : ∃ k code first, (k, .granted code first) ∈ p.state.journal
      ∧ first.familyId = familyId ∧ Carries access first := by
  obtain ⟨hstory, hmem⟩ := h.inv.story_of hm
  rcases hstory.of_issued hmem with ⟨code, token, hgranted, hfamily, hcarries⟩ | ⟨current, next, hrotated, hfamily, hcarries⟩
  · exact ⟨i, code, token, mem_own.mp hgranted, hfamily.symm, hcarries⟩
  · obtain ⟨k, code, first, hfirst, hsame⟩ := h.inv.founded (.inr ⟨i, current, mem_own.mp hrotated⟩)
    refine ⟨k, code, first, hfirst, hsame.familyId.symm.trans hfamily.symm, ?_⟩
    exact ⟨hcarries.subject.trans hsame.principalId, hcarries.tenant.trans hsame.tenantId,
      hcarries.permissions.trans hsame.permissions, hcarries.refDomain.trans hsame.refDomain⟩

theorem Reached.carries (h : Reached ports base p) {familyId : String} {access : AccessToken}
    (hm : (i, .issued familyId access) ∈ p.state.journal) : ∃ j t d m code k first permissions,
    (j, .approved t d.principalId m code) ∈ p.state.journal ∧ (k, .granted code first) ∈ p.state.journal
      ∧ first.familyId = familyId ∧ (∃ thread, p.thread j = some thread ∧ thread.req = .complete t.transactionId d)
      ∧ d.approved = true
      ∧ gatewayOAuthScopesToCapabilityPermissions t.tenantId t.requestedScopes = .ok permissions
      ∧ access.tenantId = t.tenantId ∧ access.subject = d.principalId ∧ access.permissions = permissions
      ∧ access.refDomain = m.refDomain := by
  obtain ⟨k, code, first, hfirst, hfamily, hcarries⟩ := h.issued_first hm
  obtain ⟨hstory, hmem⟩ := h.inv.story_of hfirst
  obtain ⟨hexchanged, time, lifetime, _, htoken⟩ := hstory.of_granted hmem
  obtain ⟨j, t, u, m, happroved⟩ := h.inv.codes.known k code (mem_own.mp hexchanged)
  obtain ⟨hstory', hmem'⟩ := h.inv.story_of happroved
  obtain ⟨permissions, time', lifetime', hpermissions, hcode⟩ := (hstory'.of_approved hmem').2.code
  obtain ⟨thread, hthread, hmay⟩ := h.author _ _ happroved
  obtain ⟨thread', hthread', htaken⟩ := h.author _ _ (h.approved_taken happroved)
  cases hthread.symm.trans hthread'
  obtain ⟨req, prog, steps⟩ := thread
  cases req with
  | complete transactionId d =>
    obtain ⟨happrovedBy, rfl⟩ := hmay
    have hid : t.transactionId = transactionId := htaken
    subst hid
    refine ⟨j, t, d, m, code, k, first, permissions, happroved, hfirst, hfamily, ⟨_, hthread, rfl⟩, happrovedBy, hpermissions,
      ?_, ?_, ?_, ?_⟩
    · rw [hcarries.tenant, htoken, hcode]
      rfl
    · rw [hcarries.subject, htoken, hcode]
      rfl
    · rw [hcarries.permissions, htoken, hcode]
      rfl
    · rw [hcarries.refDomain, htoken, hcode]
      rfl
  | _ => exact absurd hmay id

theorem Reached.laws (h : Reached ports base p) : OneTimeGrants ports p where
  code _ _ _ _ _ _ _ _ _ _ hm hm' hid := h.code hm hm' hid
  codeReturned i j id d d' r r' hr hr' hcode hcode' := by
    obtain ⟨t, u, m, c, hwrote, hid⟩ := h.ended _ _ _ hr hcode
    obtain ⟨t', u', m', c', hwrote', hid'⟩ := h.ended _ _ _ hr' hcode'
    have hm : (i, Entry.approved t u m c) ∈ p.state.journal := (mem_of_wrote hwrote).mpr (by simp)
    have hm' : (j, Entry.approved t' u' m' c') ∈ p.state.journal := (mem_of_wrote hwrote').mpr (by simp)
    exact (h.code hm hm' (hid.trans hid'.symm)).1
  response i j request request' r r' hr hr' hcode := by
    obtain ⟨code, token, hwrote, hhash⟩ := h.ended _ _ _ hr
    obtain ⟨code', token', hwrote', hhash'⟩ := h.ended _ _ _ hr'
    have hm : (i, Entry.exchanged code) ∈ p.state.journal := (mem_of_wrote hwrote).mpr (by simp)
    have hm' : (j, Entry.exchanged code') ∈ p.state.journal := (mem_of_wrote hwrote').mpr (by simp)
    exact h.inv.codes.once i j code code' hm hm' (by rw [hhash, hhash', hcode])
  responseFor _ _ _ hr := h.responseFor hr
  successor _ _ _ _ _ _ hm hm' hhash := h.successor hm hm' hhash
  refreshed i j request request' r r' hr hr' htoken := by
    obtain ⟨current, next, hwrote, hhash, _⟩ := h.ended _ _ _ hr
    obtain ⟨current', next', hwrote', hhash', _⟩ := h.ended _ _ _ hr'
    have hm : (i, Entry.rotated current next) ∈ p.state.journal := (mem_of_wrote hwrote).mpr (by simp)
    have hm' : (j, Entry.rotated current' next') ∈ p.state.journal := (mem_of_wrote hwrote').mpr (by simp)
    exact (h.successor hm hm' (by rw [hhash, hhash', htoken])).1
  refreshedFor i request r hr := by
    obtain ⟨current, next, hwrote, hhash, hclient⟩ := h.ended _ _ _ hr
    exact ⟨current, next, (mem_of_wrote hwrote).mpr (by simp), hhash, hclient⟩
  unconsumed := h.inv.tokens.single
  carries _ _ _ hm := h.carries hm
  returned i q r hr := by
    have hended := h.ended _ _ _ hr
    cases q with
    | exchange request =>
      obtain ⟨code, token, hwrote, _⟩ := hended
      exact ⟨token.familyId, (mem_of_wrote hwrote).mpr (by simp)⟩
    | refresh request =>
      obtain ⟨current, next, hwrote, _⟩ := hended
      exact ⟨next.familyId, (mem_of_wrote hwrote).mpr (by simp)⟩
    | start request => exact hended.elim
    | complete transactionId decision => exact hended.elim
    | revoke refreshToken clientId => exact hended.elim
    | cleanup => exact hended.elim

theorem notRotated_of_dead (hideal : ports.Ideal) {time : Int} {clients : Table String Client}
    {memberships : Table (String × String) Membership} {p' : GatewayPool}
    (h : (gateway ports seeding).Reach Machine.anyCall (GatewayPool.initial time clients memberships) p)
    (h' : (gateway ports seeding).Reach Machine.anyCall p p') {familyId : String} (hdead : Dead familyId p.state) :
    NotRotated familyId p p' := by
  have hbase : seeding = true → ∀ _ : String × String, True := fun _ _ => trivial
  have h₀ : (gatewayProof hideal hbase).Initial (GatewayPool.initial time clients memberships) :=
    gateway_initial hideal hbase time clients fun _ _ => trivial
  obtain ⟨es, hes, hrotated⟩ := (kept h₀ h h').grows
  exact ⟨es, hes, fun i current next hm => hrotated familyId hdead i current next hm⟩

end Laws

/-- OAuth grants are one-time and refresh families are fenced: at every point of every interleaving of the calls the grants
are one-time, and no rotation succeeds any more in a family that is revoked, or of which a call has presented a consumed token
and has been turned away. -/
theorem oauth_grants_one_time (ports : Ports) (hideal : ports.Ideal) (seeding : Bool) (time : Int)
    (clients : Table String Client) (memberships : Table (String × String) Membership) (p : GatewayPool)
    (h : (gateway ports seeding).Reach Machine.anyCall (GatewayPool.initial time clients memberships) p) :
    OneTimeGrants ports p
    ∧ ∀ p', (gateway ports seeding).Reach Machine.anyCall p p' →
      (∀ familyId family, p.state.families.lookup familyId = some family → family.revoked = true → NotRotated familyId p p')
      ∧ ∀ i request e row, p.Returned i (.refresh request) (.error e) → e ≠ .storage →
        (i, .refused (some row)) ∈ p.state.journal → row.consumedAt ≠ none → NotRotated row.familyId p p' := by
  have hreached : Reached ports (fun _ => True) p := reached hideal (fun _ _ => trivial) (fun _ _ => trivial) h
  refine ⟨hreached.laws, fun p' h' => ⟨?_, ?_⟩⟩
  · intro familyId family hfamily hrevoked
    exact notRotated_of_dead hideal h h' (hreached.inv.dead_of_revoked hfamily hrevoked)
  · intro i request e row hr he hm hc
    exact notRotated_of_dead hideal h h' (hreached.ended _ _ _ hr he row hm hc)

section Sample

def sampleVerifier : String := String.ofList (List.replicate 43 'v')

/-- The digest of the verifier. -/
def sampleChallenge : String := "7w_YNF9DSfIdPf_pRjSq646_kPr-2-o9NAl16JGghdM"

/-- Ports whose random values are told apart by their lengths, with the digests of the verifier and of what is drawn for a code
or a refresh token. -/
def samplePorts : Ports where
  sha256Base64Url := assign [(sampleVerifier, sampleChallenge), ("ab", "-44g_C5MPySMYMOb1lLzwTRymLuXe4tNWQO4UFViBgM"),
    ("aabc", "IjGJNYsVqsVgnsbTXM-n35O48lBzRMA0RTUVhrBFkig"), ("aaab", "hekPfw5xB5gGRpgxiVrNYgEzu-CTfMVANWKWi7x9jR4"),
    ("aaaab", "XvGxAWomDwwinFskr-h_4kpotMgPb4lTW4fgynKghiM"), ("aaaaabc", "uzIA5qP1TCCKvn4n9WkL0o2bhmBYGEMNHEwxwIvGtj8")]
  opaqueValue i k := String.ofList (List.replicate i 'a' ++ 'b' :: List.replicate k 'c')
  parseUrl uri := if uri = "https://c/cb" then some ⟨"https:", "", "", "", "c", "https://c/cb"⟩ else none
  audience := "cas"
  transactionLifetimeSeconds := none
  codeLifetimeSeconds := none
  accessTokenLifetimeSeconds := none
  refreshTokenLifetimeSeconds := none

theorem samplePorts_ideal : samplePorts.Ideal where
  random {i k j l} h := by
    have hlist : List.replicate i 'a' ++ 'b' :: List.replicate k 'c' = List.replicate j 'a' ++ 'b' :: List.replicate l 'c' :=
      String.ofList_injective h
    have hfirst := congrArg (List.count 'a') hlist
    have hlast := congrArg (List.count 'c') hlist
    simp [List.count_replicate] at hfirst hlast
    exact ⟨hfirst, hlast⟩
  digest := (assign _).injective

def sampleClients : Table String Client := AList.singleton "app" ⟨"app", ["https://c/cb"]⟩

/-- A user's login at a client. -/
def sampleStart (principalId : String) (email : Option String) : OAuthRequest :=
  .start ⟨"code", "app", "https://c/cb", none, "cas:read", none, sampleChallenge, "S256", some principalId, email⟩

/-- A call of a request that runs to its end, with the number of its statements. -/
def runCall (i : Nat) (q : OAuthRequest) (statements : Nat) : List (Label Nat OAuthRequest OAuthEvent) :=
  .start i q :: List.replicate statements (.run i .none)

/-- A login, the exchange of its code, a refresh and the replay of the refresh token. -/
def sampleRun : List (Label Nat OAuthRequest OAuthEvent) :=
  runCall 0 (sampleStart "p1" (some "ann@x")) 7 ++ runCall 1 (.complete "b" ⟨true, "p1"⟩) 5
    ++ runCall 2 (.exchange ⟨"authorization_code", "ab", "app", "https://c/cb", sampleVerifier⟩) 5
    ++ runCall 3 (.refresh ⟨"refresh_token", "aabc", "app"⟩) 5 ++ runCall 4 (.refresh ⟨"refresh_token", "aabc", "app"⟩) 5

/-- The refresh token is presented again: the call is turned away, and no token of the family is rotated any more. -/
theorem oauth_grants_one_time_replayed : ∃ p, (gateway samplePorts false).exec? sampleRun
    (GatewayPool.initial 1000 sampleClients ∅) = some p
    ∧ p.result 4 = some (.error (invalidGrant "refresh token is invalid, expired, revoked, or already used"))
    ∧ OneTimeGrants samplePorts p
    ∧ ∀ p', (gateway samplePorts false).Reach Machine.anyCall p p' → NotRotated "aab" p p' := by
  have hrun : ((gateway samplePorts false).exec? sampleRun (GatewayPool.initial 1000 sampleClients ∅)).any (fun p =>
      decide (p.result 4 = some (.error (invalidGrant "refresh token is invalid, expired, revoked, or already used")))
      && decide (p.state.families.lookup "aab" = some ⟨"app", "p1", "ann", true⟩)) = true := by
    with_unfolding_all decide
  obtain ⟨p, hp, hchecks⟩ := Option.any_eq_true .. |>.mp hrun
  simp only [Bool.and_eq_true, decide_eq_true_eq] at hchecks
  obtain ⟨hlaws, hfences⟩ := oauth_grants_one_time samplePorts samplePorts_ideal false 1000 sampleClients ∅ p
    (Machine.reach_of_exec? _ .init hp)
  refine ⟨p, hp, hchecks.1, hlaws, fun p' h' => ?_⟩
  exact (hfences p' h').1 "aab" _ hchecks.2 rfl

end Sample

end UniDocs.OAuth
