import UniDocs.Lib.Table
import UniDocs.OAuth.Flows

/-!
# What the calls of the gateway have done

The journal of a call tells one of a few stories, and the tables agree with the journal: a transaction or a code that is not
consumed has not been taken, a refresh token goes back to the grant of its family, and of a family at most one token is not
consumed. A family that is revoked or gone is dead: it stays so, and none of its tokens is rotated any more.
-/

namespace UniDocs.OAuth

open Lib Lib.Journal

/-- Random values never repeat, and the digest does not collide. -/
structure Ports.Ideal (ports : Ports) : Prop where
  random : ∀ {i k j l : Nat}, ports.opaqueValue i k = ports.opaqueValue j l → i = j ∧ k = l
  digest : Function.Injective ports.sha256Base64Url

/-! ## The stories of calls -/

/-- A code as it is made for a transaction that a member has approved. -/
structure Approves (ports : Ports) (i : Nat) (transaction : Transaction) (principalId : String) (membership : Membership)
    (code : StoredCode) : Prop where
  tenant : membership.tenantId = transaction.tenantId
  owner : transaction.principalId = none ∨ transaction.principalId = some principalId
  code : ∃ permissions time lifetime,
    gatewayOAuthScopesToCapabilityPermissions transaction.tenantId transaction.requestedScopes = .ok permissions
      ∧ code = codeOf transaction principalId membership permissions (ports.sha256Base64Url (ports.opaqueValue i 0)) time lifetime

/-- The first token of a family as it is made for a code. -/
def Grants (ports : Ports) (i : Nat) (code : StoredCode) (token : StoredToken) : Prop :=
  ∃ time lifetime, time < code.expiresAt ∧
    token = initialToken code (ports.sha256Base64Url (ports.opaqueValue i 1)) (ports.opaqueValue i 0) time lifetime

/-- A successor as it is made for a token. -/
def Rotates (ports : Ports) (i : Nat) (current next : StoredToken) : Prop :=
  ∃ time, next = State.successor current (ports.sha256Base64Url (ports.opaqueValue i 0)) time

/-- An access token carries what a refresh token stands for. -/
structure Carries (access : AccessToken) (token : StoredToken) : Prop where
  subject : access.subject = token.principalId
  tenant : access.tenantId = token.tenantId
  permissions : access.permissions = token.permissions
  refDomain : access.refDomain = token.refDomain

/-- What a call may have written so far. -/
inductive Story (ports : Ports) (i : Nat) : List Entry → Prop
  | nothing : Story ports i []
  | provisioned (principalId : String) (email : Option String) :
      Story ports i [.provisioned principalId email (defaultTenantId principalId email)]
  | started (transaction : Transaction) (hid : transaction.transactionId = ports.opaqueValue i 0) :
      Story ports i [.started transaction]
  | provisionedStarted (principalId : String) (email : Option String) (transaction : Transaction)
      (hid : transaction.transactionId = ports.opaqueValue i 0) :
      Story ports i [.provisioned principalId email (defaultTenantId principalId email), .started transaction]
  | taken (transaction : Transaction) : Story ports i [.taken transaction]
  | approved (transaction : Transaction) (principalId : String) (membership : Membership) (code : StoredCode)
      (h : Approves ports i transaction principalId membership code) :
      Story ports i [.taken transaction, .approved transaction principalId membership code]
  | exchanged (code : StoredCode) : Story ports i [.exchanged code]
  | granted (code : StoredCode) (token : StoredToken) (h : Grants ports i code token) :
      Story ports i [.exchanged code, .granted code token]
  | grantIssued (code : StoredCode) (token : StoredToken) (access : AccessToken) (h : Grants ports i code token)
      (ha : Carries access token) : Story ports i [.exchanged code, .granted code token, .issued token.familyId access]
  | rotated (current next : StoredToken) (h : Rotates ports i current next) : Story ports i [.rotated current next]
  | rotateIssued (current next : StoredToken) (access : AccessToken) (h : Rotates ports i current next)
      (ha : Carries access next) : Story ports i [.rotated current next, .issued next.familyId access]
  | refused (found : Option RefreshRow) : Story ports i [.refused found]

namespace Story

variable {ports : Ports} {i : Nat} {es : List Entry}

theorem of_started (h : Story ports i es) {transaction : Transaction} (hm : .started transaction ∈ es) :
    transaction.transactionId = ports.opaqueValue i 0 := by
  cases h <;> simp at hm <;> rw [hm] <;> assumption

theorem of_approved (h : Story ports i es) {transaction : Transaction} {principalId : String} {membership : Membership}
    {code : StoredCode} (hm : .approved transaction principalId membership code ∈ es) :
    es = [.taken transaction, .approved transaction principalId membership code]
      ∧ Approves ports i transaction principalId membership code := by
  cases h <;> simp at hm
  obtain ⟨rfl, rfl, rfl, rfl⟩ := hm
  exact ⟨rfl, by assumption⟩

theorem of_granted (h : Story ports i es) {code : StoredCode} {token : StoredToken} (hm : .granted code token ∈ es) :
    .exchanged code ∈ es ∧ Grants ports i code token := by
  cases h <;> simp at hm <;> obtain ⟨rfl, rfl⟩ := hm <;> exact ⟨by simp, by assumption⟩

theorem granted_unique (h : Story ports i es) {code code' : StoredCode} {token token' : StoredToken}
    (hm : .granted code token ∈ es) (hm' : .granted code' token' ∈ es) : code = code' ∧ token = token' := by
  cases h <;> simp at hm hm' <;> obtain ⟨rfl, rfl⟩ := hm <;> obtain ⟨rfl, rfl⟩ := hm' <;> exact ⟨rfl, rfl⟩

theorem of_rotated (h : Story ports i es) {current next : StoredToken} (hm : .rotated current next ∈ es) :
    Rotates ports i current next := by
  cases h <;> simp at hm <;> obtain ⟨rfl, rfl⟩ := hm <;> assumption

theorem of_issued (h : Story ports i es) {familyId : String} {access : AccessToken} (hm : .issued familyId access ∈ es) :
    (∃ code token, .granted code token ∈ es ∧ familyId = token.familyId ∧ Carries access token)
      ∨ ∃ current next, .rotated current next ∈ es ∧ familyId = next.familyId ∧ Carries access next := by
  cases h with
  | grantIssued code token access hg ha =>
    simp only [List.mem_cons, reduceCtorEq, Entry.issued.injEq, List.not_mem_nil, or_false, false_or] at hm
    obtain ⟨rfl, rfl⟩ := hm
    exact .inl ⟨code, token, List.mem_cons_of_mem _ List.mem_cons_self, rfl, ha⟩
  | rotateIssued current next access hr ha =>
    simp only [List.mem_cons, reduceCtorEq, Entry.issued.injEq, List.not_mem_nil, or_false, false_or] at hm
    obtain ⟨rfl, rfl⟩ := hm
    exact .inr ⟨current, next, List.mem_cons_self, rfl, ha⟩
  | _ => simp at hm

theorem of_provisioned (h : Story ports i es) {principalId tenantId : String} {email : Option String}
    (hm : .provisioned principalId email tenantId ∈ es) : tenantId = defaultTenantId principalId email := by
  cases h <;> simp at hm <;> obtain ⟨rfl, rfl, rfl⟩ := hm <;> rfl

end Story

/-! ## The tables -/

/-- A refresh token stands for the same as another of its family. -/
structure SameGrant (token token' : StoredToken) : Prop where
  familyId : token.familyId = token'.familyId
  clientId : token.clientId = token'.clientId
  principalId : token.principalId = token'.principalId
  tenantId : token.tenantId = token'.tenantId
  scopes : token.scopes = token'.scopes
  permissions : token.permissions = token'.permissions
  refDomain : token.refDomain = token'.refDomain
  expiresAt : token.expiresAt = token'.expiresAt

/-- A family has been granted. -/
def Known (journal : List (Nat × Entry)) (familyId : String) : Prop :=
  ∃ i code token, (i, .granted code token) ∈ journal ∧ token.familyId = familyId

/-- A refresh token goes back to the grant of its family. -/
def Founded (journal : List (Nat × Entry)) (token : StoredToken) : Prop :=
  ∃ i code first, (i, .granted code first) ∈ journal ∧ SameGrant token first

/-- A refresh token that a call has stored. -/
def Born (journal : List (Nat × Entry)) (token : StoredToken) : Prop :=
  (∃ i code, (i, .granted code token) ∈ journal) ∨ ∃ i current, (i, .rotated current token) ∈ journal

/-- The refresh tokens and the families agree with the journal. -/
structure TokensOk (journal : List (Nat × Entry)) (families : Table String Family) (tokens : Table String RefreshRow) :
    Prop where
  row : ∀ h row, tokens.lookup h = some row → row.tokenHash = h ∧ Born journal row.toStoredToken
  lineage : ∀ i current next, (i, .rotated current next) ∈ journal → Born journal current ∧ Founded journal current
  unspent : ∀ h row, tokens.lookup h = some row → row.consumedAt = none → ∀ i current next,
    (i, .rotated current next) ∈ journal → current.tokenHash ≠ h
  successor : ∀ h row h', tokens.lookup h = some row → row.successorHash = some h' →
    ∃ i current next, (i, .rotated current next) ∈ journal ∧ next.tokenHash = h'
  once : ∀ i j current next current' next', (i, .rotated current next) ∈ journal → (j, .rotated current' next') ∈ journal →
    current.tokenHash = current'.tokenHash → i = j
  single : ∀ h h' row row', tokens.lookup h = some row → tokens.lookup h' = some row' → row.familyId = row'.familyId →
    row.consumedAt = none → row'.consumedAt = none → h = h'
  peopled : ∀ familyId family, families.lookup familyId = some family → ∃ h row, tokens.lookup h = some row
    ∧ row.familyId = familyId
  joined : ∀ h row, tokens.lookup h = some row → ∃ family, families.lookup row.familyId = some family
  refused : ∀ i row, (i, .refused (some row)) ∈ journal → row.consumedAt ≠ none →
    (Born journal row.toStoredToken ∧ Known journal row.familyId)
    ∧ ((∃ row', tokens.lookup row.tokenHash = some row' ∧ row'.familyId = row.familyId ∧ row'.consumedAt ≠ none)
      ∨ (tokens.lookup row.tokenHash = none ∧ ∀ h row', tokens.lookup h = some row' → row'.familyId ≠ row.familyId))

/-- The memberships agree with the journal: apart from those under the given keys they were provisioned, and who has approved
a transaction is a member. -/
structure MembersOk (base : String × String → Prop) (journal : List (Nat × Entry))
    (memberships : Table (String × String) Membership) : Prop where
  row : ∀ k, k ∈ memberships → base k ∨ ∃ i email, (i, .provisioned k.1 email k.2) ∈ journal
  approved : ∀ i t u m c, (i, .approved t u m c) ∈ journal → (u, t.tenantId) ∈ memberships

/-- The state of the stores between any two statements. -/
structure Inv (ports : Ports) (base : String × String → Prop) (s : State) : Prop where
  story : ∀ i, Story ports i (own i s.journal)
  transactions : Tickets Transaction.transactionId (fun i t => (i, .started t) ∈ s.journal)
    (fun i t => (i, .taken t) ∈ s.journal) s.transactions
  codes : Tickets StoredCode.codeHash (fun i c => ∃ t p m, (i, .approved t p m c) ∈ s.journal)
    (fun i c => (i, .exchanged c) ∈ s.journal) s.codes
  tokens : TokensOk s.journal s.families s.tokens
  members : MembersOk base s.journal s.memberships

/-- A family that was granted is revoked or gone. -/
def Dead (familyId : String) (s : State) : Prop :=
  Known s.journal familyId ∧ ∀ family, s.families.lookup familyId = some family → family.revoked = true

/-- The journal and the memberships grow, and a dead family stays dead, with no rotation of its tokens. -/
structure Fences (s s' : State) : Prop where
  grows : ∃ es, s'.journal = s.journal ++ es ∧ ∀ familyId, Dead familyId s → ∀ i current next,
    (i, .rotated current next) ∈ es → current.familyId ≠ familyId
  dead : ∀ familyId, Dead familyId s → Dead familyId s'
  members : ∀ k, k ∈ s.memberships → k ∈ s'.memberships

theorem Fences.refl (s : State) : Fences s s := ⟨⟨[], by simp, by simp⟩, fun _ h => h, fun _ h => h⟩

theorem Fences.trans (s s' s'' : State) (h : Fences s s') (h' : Fences s' s'') : Fences s s'' := by
  obtain ⟨⟨es, hes, hr⟩, hd, hm⟩ := h
  obtain ⟨⟨es', hes', hr'⟩, hd', hm'⟩ := h'
  refine ⟨⟨es ++ es', by rw [hes', hes, List.append_assoc], ?_⟩, fun f hf => hd' f (hd f hf), fun k hk => hm' k (hm k hk)⟩
  intro f hf i current next hmem
  rcases List.mem_append.mp hmem with hmem | hmem
  · exact hr f hf i current next hmem
  · exact hr' f (hd f hf) i current next hmem

/-! ## Fresh values -/

section Fresh

variable {ports : Ports} {base : String × String → Prop} {s : State} {i : Nat}

theorem Inv.story_of (h : Inv ports base s) {e : Entry} (hm : (i, e) ∈ s.journal) : Story ports i (own i s.journal)
    ∧ e ∈ own i s.journal :=
  ⟨h.story i, mem_own.mpr hm⟩

theorem Inv.born_hash (h : Inv ports base s) {token : StoredToken} (hborn : Born s.journal token) :
    ∃ j, (∃ code, (j, .granted code token) ∈ s.journal ∧
        token.tokenHash = ports.sha256Base64Url (ports.opaqueValue j 1))
      ∨ (∃ current, (j, .rotated current token) ∈ s.journal ∧
        token.tokenHash = ports.sha256Base64Url (ports.opaqueValue j 0)) := by
  rcases hborn with ⟨j, code, hm⟩ | ⟨j, current, hm⟩
  · obtain ⟨hstory, hmem⟩ := h.story_of hm
    obtain ⟨_, time, lifetime, _, htoken⟩ := hstory.of_granted hmem
    exact ⟨j, .inl ⟨code, hm, by rw [htoken]; rfl⟩⟩
  · obtain ⟨hstory, hmem⟩ := h.story_of hm
    obtain ⟨time, htoken⟩ := hstory.of_rotated hmem
    exact ⟨j, .inr ⟨current, hm, by rw [htoken]; rfl⟩⟩

theorem Inv.granted_family (h : Inv ports base s) {code : StoredCode} {token : StoredToken}
    (hm : (i, .granted code token) ∈ s.journal) : token.familyId = ports.opaqueValue i 0 := by
  obtain ⟨hstory, hmem⟩ := h.story_of hm
  obtain ⟨_, time, lifetime, _, htoken⟩ := hstory.of_granted hmem
  rw [htoken]
  rfl

theorem Inv.founded (h : Inv ports base s) {token : StoredToken} (hborn : Born s.journal token) : Founded s.journal token := by
  rcases hborn with ⟨j, code, hm⟩ | ⟨j, current, hm⟩
  · exact ⟨j, code, token, hm, ⟨rfl, rfl, rfl, rfl, rfl, rfl, rfl, rfl⟩⟩
  · obtain ⟨hstory, hmem⟩ := h.story_of hm
    obtain ⟨time, htoken⟩ := hstory.of_rotated hmem
    obtain ⟨_, k, code, first, hfirst, hsame⟩ := h.tokens.lineage j current token hm
    refine ⟨k, code, first, hfirst, ?_⟩
    rw [htoken]
    exact ⟨hsame.familyId, hsame.clientId, hsame.principalId, hsame.tenantId, hsame.scopes, hsame.permissions,
      hsame.refDomain, hsame.expiresAt⟩

theorem Founded.known {journal : List (Nat × Entry)} {token : StoredToken} (h : Founded journal token) :
    Known journal token.familyId := by
  obtain ⟨k, code, first, hfirst, hsame⟩ := h
  exact ⟨k, code, first, hfirst, hsame.familyId.symm⟩

theorem Inv.expiresAt_eq (hideal : ports.Ideal) (h : Inv ports base s) {token token' : StoredToken} (hborn : Born s.journal token)
    (hborn' : Born s.journal token') (hfamily : token.familyId = token'.familyId) : token.expiresAt = token'.expiresAt := by
  obtain ⟨k, code, first, hfirst, hsame⟩ := h.founded hborn
  obtain ⟨k', code', first', hfirst', hsame'⟩ := h.founded hborn'
  have hvalue : ports.opaqueValue k 0 = ports.opaqueValue k' 0 := by
    rw [← h.granted_family hfirst, ← h.granted_family hfirst', ← hsame.familyId, ← hsame'.familyId, hfamily]
  obtain ⟨rfl, _⟩ := hideal.random hvalue
  have heq := (h.story k).granted_unique (mem_own.mpr hfirst) (mem_own.mpr hfirst')
  rw [hsame.expiresAt, hsame'.expiresAt, heq.2]

end Fresh

end UniDocs.OAuth
