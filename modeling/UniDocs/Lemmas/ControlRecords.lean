import UniDocs.Lemmas.ControlBatches

/-!
# The records of idempotency keys

`createStack` and `createMemberInvitation` write the record of a key in the batch that creates the resource, and only where the
key is free. No operation changes or removes a record, so that a record that was read, expired or not, is there ever after.
-/

namespace UniDocs.Control

open Lib Lib.Trace

/-! ## What a batch records -/

/-- The key of a call, and the record that the call writes under it. -/
def Request.record (ports : Ports) (i : Nat) : Request → Option (IdempotencyKey × IdempotencyRow)
  | .createStack ctx displayName (some key) =>
    some (⟨ctx.identity, "POST", "/admin/stacks", key⟩, ⟨ports.sha256Hex (ports.canonicalJson "displayName" (some displayName)),
      .stack (newStack ports i displayName), ports.now i 0, ports.now i 0 + idempotencyRetentionMs⟩)
  | .createMemberInvitation ctx stackId emailConstraint (some key) =>
    let constraint := normalizeEmailConstraint ports emailConstraint
    some (⟨ctx.identity, "POST", "/admin/stacks/" ++ stackId ++ "/member-invitations", key⟩,
      ⟨ports.sha256Hex (ports.canonicalJson "emailConstraint" constraint), .invited (newInvitation ports i stackId constraint)
        ("/admin/invitations/" ++ ports.generateInvitationToken i), ports.now i 0, ports.now i 0 + idempotencyRetentionMs⟩)
  | _ => none

/-- The resource that a response reports is created, and no other. -/
def Response.Made : Response → Db → Db → Prop
  | .stack new, d, d' => d.casStacks.lookup new.stackId = none ∧ d'.casStacks = d.casStacks.insert new.stackId new
    ∧ d'.invitations = d.invitations
  | .invited invitation _, d, d' => d.invitations.lookup invitation.invitationId = none
    ∧ d'.invitations = d.invitations.insert invitation.invitationId invitation ∧ d'.casStacks = d.casStacks
  | _, _, _ => False

/-- A resource is created together with its record, under a key that was free. -/
structure Creates (key : IdempotencyKey) (row : IdempotencyRow) (d d' : Db) : Prop where
  made : row.response.Made d d'
  free : d.idempotency.lookup key = none
  recorded : d'.idempotency = d.idempotency.insert key row

/-- Every record stays. -/
def Keeps (d d' : Db) : Prop :=
  ∀ key row, d.idempotency.lookup key = some row → d'.idempotency.lookup key = some row

/-- What a call may do to the database. -/
def Effects (ports : Ports) (i : Nat) (q : Request) (d d' : Db) : Prop :=
  match q.record ports i with
  | some (key, row) => Creates key row d d'
  | none => d'.idempotency = d.idempotency

variable {ports : Ports} {i : Nat} {q : Request} {key : IdempotencyKey} {row : IdempotencyRow} {d d' : Db}

theorem Creates.lookup (h : Creates key row d d') : d'.idempotency.lookup key = some row := by
  rw [h.recorded, AList.lookup_insert]

theorem Creates.keeps (h : Creates key row d d') : Keeps d d' := by
  intro key' row' hrow'
  have hne : key' ≠ key := by
    rintro rfl
    rw [h.free] at hrow'
    cases hrow'
  rw [h.recorded, AList.lookup_insert_ne hne]
  exact hrow'

theorem Effects.keeps (h : Effects ports i q d d') : Keeps d d' := by
  unfold Effects at h
  split at h
  · exact h.keeps
  · intro key row hrow
    rw [h]
    exact hrow

/-- A record of a call is of a resource, and is kept for the retention period. -/
theorem record_row (h : q.record ports i = some (key, row)) :
    (∀ code message, row.response ≠ .error code message) ∧ row.createdAt = ports.now i 0
      ∧ row.expiresAt = ports.now i 0 + idempotencyRetentionMs := by
  unfold Request.record at h
  split at h
  · cases h
    exact ⟨nofun, rfl, rfl⟩
  · cases h
    exact ⟨nofun, rfl, rfl⟩
  · cases h

/-! ## Batches -/

theorem insertInto_error {κ ρ : Type} [DecidableEq κ] {name : String} {k : κ} {row : ρ} {t : Table κ ρ} {e : ControlError}
    (h : insertInto name k row t = .error e) : e = .unique name ∧ ∃ old, t.lookup k = some old := by
  unfold insertInto AList.insertNew at h
  split at h
  · cases h
  · rename_i hnone
    cases h
    split at hnone
    · rename_i hmem
      exact ⟨rfl, AList.mem_iff_lookup.mp hmem⟩
    · cases hnone

theorem mutationStatements_records {audit : AuditRecord} {d d' : Db} (h : mutationStatements audit d = .ok d') :
    d'.idempotency = d.idempotency := by
  obtain ⟨audits, _, h⟩ := bind_ok_iff.mp h
  cases h
  rfl

/-- An error of a batch with a record: a constraint is violated, and if it is that of the keys, the key is taken. -/
def Violates (key : IdempotencyKey) (d : Db) (e : ControlError) : Prop :=
  ∃ table, e = .unique table ∧ (table = "cas_control_idempotency" → ∃ old, d.idempotency.lookup key = some old)

theorem violates_of_insertInto {κ ρ : Type} [DecidableEq κ] {name : String} {k : κ} {r : ρ} {t : Table κ ρ} {e : ControlError}
    (hname : name ≠ "cas_control_idempotency") (h : insertInto name k r t = .error e) : Violates key d e :=
  ⟨name, (insertInto_error h).1, fun heq => absurd heq hname⟩

theorem violates_of_mutationStatements {audit : AuditRecord} {e : ControlError} (h : mutationStatements audit d = .error e) :
    Violates key d e := by
  rcases bind_error_iff.mp h with h | ⟨audits, _, h⟩
  · exact violates_of_insertInto (by decide) h
  · cases h

theorem createStackBatch_records {plan : CreateStackPlan} {u : Unit} {e : Entry}
    (h : createStackBatch plan d = .ok (u, some (e, d'))) :
    (Response.stack plan.stack).Made d d' ∧ insertIdempotency plan.idempotency d.idempotency = .ok d'.idempotency := by
  obtain ⟨d₁, hd₁, h⟩ := bind_ok_iff.mp h
  obtain ⟨casStacks, hstacks, h⟩ := bind_ok_iff.mp h
  obtain ⟨members, _, h⟩ := bind_ok_iff.mp h
  obtain ⟨issuers, _, h⟩ := bind_ok_iff.mp h
  obtain ⟨idempotency, hidempotency, h⟩ := bind_ok_iff.mp h
  cases h
  obtain ⟨_, hcasStacks, _, hinvitations⟩ := mutationStatements_registry hd₁
  obtain ⟨hnew, rfl⟩ := insertInto_ok hstacks
  rw [mutationStatements_records hd₁] at hidempotency
  rw [hcasStacks] at hnew
  exact ⟨⟨hnew, by rw [hcasStacks], hinvitations⟩, hidempotency⟩

theorem createStackBatch_violates {plan : CreateStackPlan} {e : ControlError} (hrecord : plan.idempotency = some (key, row))
    (h : createStackBatch plan d = .error e) : Violates key d e := by
  rcases bind_error_iff.mp h with h | ⟨d₁, hd₁, h⟩
  · exact violates_of_mutationStatements h
  rcases bind_error_iff.mp h with h | ⟨casStacks, _, h⟩
  · exact violates_of_insertInto (by decide) h
  rcases bind_error_iff.mp h with h | ⟨members, _, h⟩
  · exact violates_of_insertInto (by decide) h
  rcases bind_error_iff.mp h with h | ⟨issuers, _, h⟩
  · unfold insertIssuer at h
    split at h
    · cases h
    split_ifs at h
    · cases h
      exact ⟨_, rfl, fun hname => absurd hname (by decide)⟩
    · exact violates_of_insertInto (by decide) h
  rcases bind_error_iff.mp h with h | ⟨idempotency, _, h⟩
  · rw [hrecord, mutationStatements_records hd₁] at h
    obtain ⟨rfl, hold⟩ := insertInto_error h
    exact ⟨_, rfl, fun _ => hold⟩
  · cases h

theorem createMemberInvitationBatch_records {invitation : Invitation} {acceptUrl : String} {audit : AuditRecord}
    {record : Option (IdempotencyKey × IdempotencyRow)} {u : Unit} {e : Entry}
    (h : createMemberInvitationBatch invitation audit record d = .ok (u, some (e, d'))) :
    (Response.invited invitation acceptUrl).Made d d' ∧ insertIdempotency record d.idempotency = .ok d'.idempotency := by
  obtain ⟨d₁, hd₁, h⟩ := bind_ok_iff.mp h
  obtain ⟨invitations, hinsert, h⟩ := bind_ok_iff.mp h
  obtain ⟨idempotency, hidempotency, h⟩ := bind_ok_iff.mp h
  cases h
  obtain ⟨_, hcasStacks, _, hinvitations⟩ := mutationStatements_registry hd₁
  obtain ⟨hnew, rfl⟩ := insertInto_ok hinsert
  rw [mutationStatements_records hd₁] at hidempotency
  rw [hinvitations] at hnew
  exact ⟨⟨hnew, by rw [hinvitations], hcasStacks⟩, hidempotency⟩

theorem createMemberInvitationBatch_violates {invitation : Invitation} {audit : AuditRecord} {e : ControlError}
    (h : createMemberInvitationBatch invitation audit (some (key, row)) d = .error e) : Violates key d e := by
  rcases bind_error_iff.mp h with h | ⟨d₁, hd₁, h⟩
  · exact violates_of_mutationStatements h
  rcases bind_error_iff.mp h with h | ⟨invitations, _, h⟩
  · exact violates_of_insertInto (by decide) h
  rcases bind_error_iff.mp h with h | ⟨idempotency, _, h⟩
  · rw [mutationStatements_records hd₁] at h
    obtain ⟨rfl, hold⟩ := insertInto_error h
    exact ⟨_, rfl, fun _ => hold⟩
  · cases h

theorem patchStackBatch_records {plan : PatchStackPlan} {u : Unit} {e : Entry}
    (h : patchStackBatch plan d = .ok (u, some (e, d'))) : d'.idempotency = d.idempotency := by
  unfold patchStackBatch at h
  split at h
  · cases h
  · obtain ⟨d₁, hd₁, h⟩ := bind_ok_iff.mp h
    cases h
    have hsame := mutationStatements_records hd₁
    exact hsame

theorem deleteMemberBatch_records {stackId : String} {expectedRevision : Nat} {identity : IdentityKey} {audit : AuditRecord}
    {u : Unit} {e : Entry} (h : deleteMemberBatch stackId expectedRevision identity audit d = .ok (u, some (e, d'))) :
    d'.idempotency = d.idempotency := by
  obtain ⟨_, _, h⟩ := bind_ok_iff.mp h
  obtain ⟨d₁, hd₁, h⟩ := bind_ok_iff.mp h
  cases h
  have hsame := mutationStatements_records hd₁
  exact hsame

theorem acceptMemberInvitationBatch_records {plan : AcceptPlan} {u : Unit} {e : Entry}
    (h : acceptMemberInvitationBatch plan d = .ok (u, some (e, d'))) : d'.idempotency = d.idempotency := by
  unfold acceptMemberInvitationBatch at h
  split at h
  · cases h
  · obtain ⟨d₁, hd₁, h⟩ := bind_ok_iff.mp h
    cases h
    have hsame := mutationStatements_records hd₁
    exact hsame

/-! ## The effects of the operations -/

theorem idempotencyKey_ok {given taken : Option String} (h : idempotencyKey given = .ok taken) : taken = given := by
  unfold idempotencyKey at h
  split at h
  · cases h
    rfl
  · split_ifs at h
    cases h
    rfl

section Effects

variable {K : Db → Db → Prop} {α : Type}

theorem only_requireMember {identity : IdentityKey} {stackId : String} : Only i K (requireMember identity stackId) :=
  Only.bind Only.read fun _ => Only.evaluate

theorem only_requireStack {stackId : String} : Only i K (requireStack stackId) := Only.bind Only.read fun _ => Only.evaluate

theorem only_findIdempotency {record : Option IdempotencyKey} {now : Int} : Only i K (findIdempotency record now) := by
  cases record with
  | none => exact Only.pure
  | some key => exact Only.read

theorem only_commitOr {transaction : Db → Batch} {committed : α} {failed : ControlError → AdminProg α}
    (htransaction : ∀ d u e d', transaction d = .ok (u, some (e, d')) → K d d') (hfailed : ∀ e, Only i K (failed e)) :
    Only i K (commitOr i transaction committed failed) :=
  Only.tryCatch (Only.bind (Only.batch htransaction) fun _ => Only.pure) hfailed

theorem only_commitOrRace {transaction : Db → Batch} {record : Option (IdempotencyKey × IdempotencyRow)}
    (htransaction : ∀ d u e d', transaction d = .ok (u, some (e, d')) → K d d') :
    Only i K (commitOrRace i transaction record) := by
  refine only_commitOr htransaction fun e => ?_
  split
  · exact Only.throw
  · split
    · refine Only.bind Only.read fun found => ?_
      cases found with
      | none => exact Only.throw
      | some found => exact Only.pure
    · exact Only.throw

end Effects

theorem only_createStack {ctx : Context} {displayName : String} {key : Option String} :
    Only i (Effects ports i (.createStack ctx displayName key)) (createStack ports i ctx displayName key) := by
  refine Only.bind Only.evaluate fun _ => Only.evaluate_bind fun taken htaken => ?_
  obtain rfl := idempotencyKey_ok htaken
  refine Only.bind only_findIdempotency fun existing => ?_
  cases existing with
  | some existing => exact Only.evaluate
  | none =>
    refine Only.bind Only.evaluate fun managedIssuer => Only.bind (only_commitOrRace ?_) fun race => ?_
    · intro d u e d' h
      obtain ⟨hmade, hrecord⟩ := createStackBatch_records h
      cases taken with
      | none => exact (Except.ok.inj hrecord).symm
      | some key =>
        obtain ⟨hfree, hinsert⟩ := insertInto_ok hrecord
        exact ⟨hmade, hfree, hinsert⟩
    · cases race with
      | none => exact Only.pure
      | some race => exact Only.evaluate

theorem only_createMemberInvitation {ctx : Context} {stackId : String} {emailConstraint key : Option String} :
    Only i (Effects ports i (.createMemberInvitation ctx stackId emailConstraint key))
      (createMemberInvitation ports i ctx stackId emailConstraint key) := by
  refine Only.bind only_requireMember fun _ => Only.bind Only.evaluate fun _ => Only.evaluate_bind fun taken htaken => ?_
  obtain rfl := idempotencyKey_ok htaken
  refine Only.bind only_findIdempotency fun existing => ?_
  cases existing with
  | some existing => exact Only.evaluate
  | none =>
    refine Only.bind (only_commitOrRace ?_) fun race => ?_
    · intro d u e d' h
      cases taken with
      | none => exact (Except.ok.inj (@createMemberInvitationBatch_records _ _ _ "" _ _ _ _ h).2).symm
      | some key =>
        obtain ⟨hmade, hrecord⟩ := createMemberInvitationBatch_records h
        obtain ⟨hfree, hinsert⟩ := insertInto_ok hrecord
        exact ⟨hmade, hfree, hinsert⟩
    · cases race with
      | none => exact Only.pure
      | some race => exact Only.evaluate

theorem only_patchStack {ctx : Context} {stackId : String} {displayName description ifMatch : Option String} :
    Only i (fun d d' => d'.idempotency = d.idempotency) (patchStack ports i ctx stackId displayName description ifMatch) := by
  refine Only.bind only_requireMember fun _ => Only.bind only_requireStack fun stack => Only.bind Only.evaluate fun _ => ?_
  refine Only.bind Only.evaluate fun fields => Only.bind (only_commitOr ?_ ?_) fun result => ?_
  · exact fun d u e d' h => patchStackBatch_records h
  · intro e
    dsimp only
    split
    · exact Only.bind Only.read fun _ => Only.pure
    · exact Only.throw
  · cases result <;> first | exact Only.throw | exact Only.pure

theorem only_deleteMember {ctx : Context} {stackId : String} {identity : IdentityKey} {ifMatch : Option String} :
    Only i (fun d d' => d'.idempotency = d.idempotency) (deleteMember ports i ctx stackId identity ifMatch) := by
  refine Only.bind only_requireMember fun _ => Only.bind only_requireStack fun stack => Only.bind Only.evaluate fun _ => ?_
  refine Only.bind (only_commitOr ?_ ?_) fun result => ?_
  · exact fun d u e d' h => deleteMemberBatch_records h
  · intro e
    split
    · refine Only.bind Only.read fun found => ?_
      cases found with
      | none => exact Only.pure
      | some row =>
        dsimp only
        split
        · exact Only.pure
        · exact Only.bind Only.read fun _ => Only.pure
    · exact Only.throw
  · cases result <;> first | exact Only.throw | exact Only.pure

theorem only_acceptMemberInvitation {ctx : Context} {token : String} :
    Only i (fun d d' => d'.idempotency = d.idempotency) (acceptMemberInvitation ports i ctx token) := by
  refine Only.bind Only.evaluate fun _ => Only.bind Only.read fun found => ?_
  cases found with
  | none => exact Only.throw
  | some invitation =>
    dsimp only
    split_ifs
    · exact Only.throw
    · refine Only.bind Only.read fun existing => Only.bind (only_commitOr ?_ ?_) fun accepted => ?_
      · exact fun d u e d' h => acceptMemberInvitationBatch_records h
      · intro e
        split
        · exact Only.pure
        · exact Only.throw
      · cases accepted
        · exact Only.throw
        · exact Only.pure
    · exact Only.throw

theorem only_guarded {K : Db → Db → Prop} {program : AdminProg Response} (h : Only i K program) : Only i K (guarded program) :=
  Only.tryCatch h fun _ => Only.pure

/-- A call with a key changes the database at most by creating its resource with the record; other calls change no record. -/
theorem only_serve (ports : Ports) (i : Nat) (q : Request) : Only i (Effects ports i q) (serve ports i q) := by
  cases q with
  | createStack ctx displayName key => exact only_guarded only_createStack
  | patchStack ctx stackId displayName description ifMatch => exact only_guarded only_patchStack
  | createMemberInvitation ctx stackId emailConstraint key => exact only_guarded only_createMemberInvitation
  | acceptMemberInvitation ctx token => exact only_guarded only_acceptMemberInvitation
  | deleteMember ctx stackId identity ifMatch => exact only_guarded only_deleteMember

/-! ## Calls with a key -/

/-- No statement fails for a fault of the database, and no batch for an identifier that is taken. -/
def undisturbed : Guard (DbCall Db ControlError Nat Entry) (Traced Db Nat Entry) := fun _ c fault s =>
  fault = .none ∧ match c with
    | .read _ => True
    | .batch _ f => ∀ table, f s.db = .error (.unique table) → table = "cas_control_idempotency"

/-- More than undisturbed calls are in scope. -/
def Disturbed (allowed : Guard (DbCall Db ControlError Nat Entry) (Traced Db Nat Entry)) : Prop :=
  ¬ ∀ β c fault s, allowed β c fault s → undisturbed β c fault s

/-- The transitions that keep the records. -/
def keySystem (allowed : Guard (DbCall Db ControlError Nat Entry) (Traced Db Nat Entry)) :
    System Db ControlError Nat Entry Request where
  step _ d d' := Keeps d d'
  start d := d = Db.empty
  may _ _ _ := True
  allowed := allowed

/-- The managed issuer of a new stack is refused. -/
def Unprovisioned (ports : Ports) (i : Nat) : Request → Prop
  | .createStack _ _ _ => ∃ e, provisionIssuer ports (ports.generateStackId i) (ports.now i 0) = .error e
  | _ => False

/-- There is a record under a key. -/
abbrev Held (key : IdempotencyKey) (row : IdempotencyRow) (s : Traced Db Nat Entry) : Prop :=
  s.db.idempotency.lookup key = some row

/-- A record was read that has not expired for a call. -/
def Found (ports : Ports) (i : Nat) (key : IdempotencyKey) (old : IdempotencyRow) (s : Traced Db Nat Entry) : Prop :=
  Wrote i [] s ∧ Held key old s ∧ ports.now i 0 < old.expiresAt

/-- A call with a key has created its resource, or reports what is recorded. -/
def Answered (ports : Ports) (i : Nat) (key : IdempotencyKey) (row : IdempotencyRow) (r : Response) (s : Traced Db Nat Entry) : Prop :=
  (r = row.response ∧ ∃ e, Wrote i [e] s) ∨ ∃ old, Found ports i key old s ∧ resolveIdempotency old row.payloadHash = .ok r

/-- Why a call with a key throws. -/
def Thrown (allowed : Guard (DbCall Db ControlError Nat Entry) (Traced Db Nat Entry)) (ports : Ports) (i : Nat) (q : Request)
    (key : IdempotencyKey) (row : IdempotencyRow) (e : ControlError) (s : Traced Db Nat Entry) : Prop :=
  Disturbed allowed
  ∨ (∃ message, e = .plane .invalidRequest message ∨ e = .plane .stackMembershipRequired message)
  ∨ (Unprovisioned ports i q ∧ toAdminError e = .error .serviceUnavailable "control plane operation failed")
  ∨ (∃ old, Found ports i key old s ∧ resolveIdempotency old row.payloadHash = .error e)
  ∨ ∃ old, Held key old s ∧ old.expiresAt ≤ ports.now i 0

section Keyed

variable {allowed : Guard (DbCall Db ControlError Nat Entry) (Traced Db Nat Entry)} {old : IdempotencyRow} {e : ControlError}

/-- An assertion that the others keep. -/
abbrev KeptKey (allowed : Guard (DbCall Db ControlError Nat Entry) (Traced Db Nat Entry)) (i : Nat) (q : Request)
    (P : Traced Db Nat Entry → Prop) : Prop :=
  Stable ((keySystem allowed).spec .storage i q) P

/-- A program of a call with a key, whose errors are explained. -/
abbrev Keyed (allowed : Guard (DbCall Db ControlError Nat Entry) (Traced Db Nat Entry)) (ports : Ports) (i : Nat) (q : Request)
    (key : IdempotencyKey) (row : IdempotencyRow) {α : Type} (P : Traced Db Nat Entry → Prop) (p : AdminProg α)
    (Q : α → Traced Db Nat Entry → Prop) : Prop :=
  Triple ((keySystem allowed).spec .storage i q) P p Q (Thrown allowed ports i q key row)

theorem disturbed_of_fault {β : Type} {c : DbCall Db ControlError Nat Entry β} {fault : Fault} {s : Traced Db Nat Entry}
    (hfault : fault ≠ .none) (h : allowed β c fault s) : Disturbed allowed :=
  fun hall => hfault (hall β c fault s h).1

theorem kept_held : KeptKey allowed i q (Held key row) :=
  System.stable_db (P := fun d : Db => d.idempotency.lookup key = some row) fun _ _ _ hs h => hs key row h

theorem kept_found : KeptKey allowed i q (Found ports i key old) := System.stable_wrote.and (kept_held.and (Stable.const _))

theorem kept_thrown : KeptKey allowed i q (Thrown allowed ports i q key row e) := by
  rintro s s' hi hi' hr (h | h | h | ⟨old, hfound, hresolved⟩ | ⟨old, hheld, hexpired⟩)
  · exact .inl h
  · exact .inr (.inl h)
  · exact .inr (.inr (.inl h))
  · exact .inr (.inr (.inr (.inl ⟨old, kept_found s s' hi hi' hr hfound, hresolved⟩)))
  · exact .inr (.inr (.inr (.inr ⟨old, kept_held s s' hi hi' hr hheld, hexpired⟩)))

theorem keyed_read {β : Type} {f : Db → β} {P : Traced Db Nat Entry → Prop} {Q : β → Traced Db Nat Entry → Prop}
    (hQ : ∀ b, KeptKey allowed i q (Q b)) (h : ∀ s, P s → Q (f s.db) s) : Keyed allowed ports i q key row P (read f) Q :=
  System.read_rule_allowed hQ kept_thrown (fun s _ hp => h s hp) fun _ _ _ _ hfault ha => .inl (disturbed_of_fault hfault ha)

theorem keyed_check {β : Type} {r : Except ControlError β} {P : Traced Db Nat Entry → Prop}
    (h : ∀ e, r = .error e → ∃ message, e = .plane .invalidRequest message ∨ e = .plane .stackMembershipRequired message) :
    Keyed allowed ports i q key row P (evaluate r) (fun b s => r = .ok b ∧ P s) :=
  System.evaluate_rule fun e _ he _ _ => .inr (.inl (h e he))

theorem keyed_resolve : Keyed allowed ports i q key row (Found ports i key old)
    (evaluate (resolveIdempotency old row.payloadHash)) (Answered ports i key row) := by
  refine Triple.post (System.evaluate_rule fun e s he _ hfound => ?_) fun r s _ hr => ?_
  · exact .inr (.inr (.inr (.inl ⟨old, hfound, he⟩)))
  · exact .inr ⟨old, hr.2, hr.1⟩

/-- What a lookup of the record shows. -/
theorem getIdempotency_cases (ports : Ports) (key : IdempotencyKey) {s : Traced Db Nat Entry} (hwrote : Wrote i [] s) :
    match s.db.getIdempotency key (ports.now i 0) with
    | some old => Found ports i key old s
    | none => ∀ old, Held key old s → old.expiresAt ≤ ports.now i 0 := by
  unfold Db.getIdempotency
  cases hlookup : s.db.idempotency.lookup key with
  | none =>
    intro old hheld
    cases hlookup.symm.trans hheld
  | some old =>
    rw [Option.filter_some]
    split_ifs with hlive
    · exact ⟨hwrote, hlookup, of_decide_eq_true hlive⟩
    · intro old' hheld
      cases hlookup.symm.trans hheld
      simpa using hlive

theorem keyed_findIdempotency : Keyed allowed ports i q key row (Wrote i []) (findIdempotency (some key) (ports.now i 0))
    (fun existing s => match existing with
      | some old => Found ports i key old s
      | none => Wrote i [] s) := by
  refine keyed_read (fun existing => ?_) fun s hwrote => ?_
  · cases existing with
    | some old => exact kept_found
    | none => exact System.stable_wrote
  · have hcases := getIdempotency_cases ports key hwrote
    cases hlookup : s.db.getIdempotency key (ports.now i 0) with
    | some old =>
      rw [hlookup] at hcases
      exact hcases
    | none => exact hwrote

/-- The batch with its record: the resource is created, or the record that is read under the taken key is not expired. -/
theorem keyed_commitOrRace {transaction : Db → Batch}
    (hcommit : ∀ d u t, transaction d = .ok (u, t) → ∃ e d', t = some (e, d') ∧ Creates key row d d')
    (hviolates : ∀ d e, transaction d = .error e → Violates key d e) (hnow : row.createdAt = ports.now i 0) :
    Keyed allowed ports i q key row (Wrote i []) (commitOrRace i transaction (some (key, row)))
      (fun race s => match race with
        | some old => Found ports i key old s
        | none => ∃ e, Wrote i [e] s) := by
  have hwritten : KeptKey allowed i q fun s => ∃ e, Wrote i [e] s := Stable.ex fun _ => System.stable_wrote
  refine Triple.tryCatch (F := fun e s => if e = .unique "cas_control_idempotency" then Wrote i [] s ∧ ∃ old, Held key old s
    else Disturbed allowed) ?_ fun e => ?_
  · refine Triple.bind (Q := fun _ s => ∃ e, Wrote i [e] s) ?_ fun _ => Triple.pure fun _ _ h => h
    refine System.batch_rule_allowed (fun _ => hwritten) (fun e => ?_) ?_ ?_ ?_ ?_ ?_
    · split_ifs
      · exact System.stable_wrote.and (Stable.ex fun _ => kept_held)
      · exact Stable.const _
    · intro s u _ _ hf
      obtain ⟨e, d', ht, _⟩ := hcommit _ _ _ hf
      cases ht
    · intro s u e d _ hwrote hf
      obtain ⟨e', d', ht, hcreates⟩ := hcommit _ _ _ hf
      cases ht
      exact ⟨hcreates.keeps, trivial, e, hwrote.snoc e d⟩
    · intro s e fault _ hwrote hf ha
      obtain ⟨table, rfl, htaken⟩ := hviolates _ _ hf
      split_ifs with htable
      · exact ⟨hwrote, htaken (ControlError.unique.inj htable)⟩
      · exact fun hall => htable (congrArg _ ((hall _ _ _ _ ha).2 table hf))
    · exact fun s fault _ _ hfault ha => disturbed_of_fault hfault ha
    · intro s u e d _ _ _ ha
      have hfault : Fault.lost ≠ .none := nofun
      exact disturbed_of_fault hfault ha
  · dsimp only
    split_ifs with he
    · refine Triple.bind (Q := fun found s => match found with
        | some old => Found ports i key old s
        | none => ∃ old, Held key old s ∧ old.expiresAt ≤ ports.now i 0) (keyed_read (fun found => ?_) ?_) fun found => ?_
      · cases found with
        | some old => exact kept_found
        | none => exact Stable.ex fun _ => kept_held.and (Stable.const _)
      · rintro s ⟨hwrote, old, hheld⟩
        have hcases := getIdempotency_cases ports key hwrote
        rw [hnow]
        cases hlookup : s.db.getIdempotency key (ports.now i 0) with
        | some old =>
          rw [hlookup] at hcases
          exact hcases
        | none =>
          rw [hlookup] at hcases
          exact ⟨old, hheld, hcases old hheld⟩
      · cases found with
        | some old => exact Triple.pure fun _ _ h => h
        | none => exact Triple.throw fun _ _ h => .inr (.inr (.inr (.inr h)))
    · exact Triple.throw fun _ _ h => .inl h

/-- What follows on the lookup of a record. -/
theorem keyed_finish {transaction : Db → Batch}
    (hcommit : ∀ d u t, transaction d = .ok (u, t) → ∃ e d', t = some (e, d') ∧ Creates key row d d')
    (hviolates : ∀ d e, transaction d = .error e → Violates key d e) (hnow : row.createdAt = ports.now i 0) :
    Keyed allowed ports i q key row (Wrote i []) (do
      let race ← commitOrRace i transaction (some (key, row))
      match race with
      | some race => evaluate (resolveIdempotency race row.payloadHash)
      | none => return row.response) (Answered ports i key row) := by
  refine Triple.bind (keyed_commitOrRace hcommit hviolates hnow) fun race => ?_
  cases race with
  | some old => exact keyed_resolve
  | none => exact Triple.pure fun _ _ hwrote => .inl ⟨rfl, hwrote⟩

/-- Why a call is refused before its key is looked at. -/
theorem rejectInvalid_error {message : Option String} (h : rejectInvalid message = .error e) :
    ∃ message, e = .plane .invalidRequest message ∨ e = .plane .stackMembershipRequired message := by
  unfold rejectInvalid at h
  split at h
  · cases h
    exact ⟨_, .inl rfl⟩
  · cases h

theorem idempotencyKey_error {given : Option String} (h : idempotencyKey given = .error e) :
    ∃ message, e = .plane .invalidRequest message ∨ e = .plane .stackMembershipRequired message := by
  unfold idempotencyKey at h
  split at h
  · cases h
  · split_ifs at h
    · cases h
      exact ⟨_, .inl rfl⟩
    · cases h
      exact ⟨_, .inl rfl⟩

theorem provisionIssuer_error {stackId : String} {now : Int} (h : provisionIssuer ports stackId now = .error e) :
    e = .provisioning := by
  unfold provisionIssuer at h
  split at h
  · cases h
  · split at h
    · cases h
    · cases h
      rfl

theorem keyed_createStack {ctx : Context} {displayName k : String}
    (h : (Request.createStack ctx displayName (some k)).record ports i = some (key, row)) :
    Keyed allowed ports i (.createStack ctx displayName (some k)) key row (Wrote i [])
      (createStack ports i ctx displayName (some k)) (Answered ports i key row) := by
  cases h
  refine Triple.bind (keyed_check fun e he => rejectInvalid_error he) fun _ => Triple.of_pure fun _ => ?_
  refine Triple.bind (keyed_check fun e he => idempotencyKey_error he) fun taken => Triple.of_pure fun htaken => ?_
  obtain rfl := idempotencyKey_ok htaken
  refine Triple.bind keyed_findIdempotency fun existing => ?_
  cases existing with
  | some existing => exact keyed_resolve
  | none =>
    refine Triple.bind (Q := fun _ => Wrote i []) ?_ fun managedIssuer => keyed_finish ?_ ?_ rfl
    · refine Triple.post (System.evaluate_rule fun e s he _ _ => ?_) fun _ _ _ hr => hr.2
      exact .inr (.inr (.inl ⟨⟨e, he⟩, by rw [provisionIssuer_error he]; rfl⟩))
    · intro d u t hf
      obtain ⟨d', rfl, _⟩ := createStackBatch_ok hf
      obtain ⟨hmade, hrecord⟩ := createStackBatch_records hf
      obtain ⟨hfree, hinsert⟩ := insertInto_ok hrecord
      exact ⟨_, d', rfl, hmade, hfree, hinsert⟩
    · exact fun d e hf => createStackBatch_violates rfl hf

theorem keyed_createMemberInvitation {ctx : Context} {stackId k : String} {emailConstraint : Option String}
    (h : (Request.createMemberInvitation ctx stackId emailConstraint (some k)).record ports i = some (key, row)) :
    Keyed allowed ports i (.createMemberInvitation ctx stackId emailConstraint (some k)) key row (Wrote i [])
      (createMemberInvitation ports i ctx stackId emailConstraint (some k)) (Answered ports i key row) := by
  cases h
  refine Triple.bind (Q := fun _ => Wrote i []) ?_ fun _ => ?_
  · refine Triple.bind (keyed_read (fun _ => System.stable_wrote) fun _ hwrote => hwrote) fun isMember => ?_
    refine Triple.post (keyed_check fun e he => ?_) fun _ _ _ hr => hr.2
    split_ifs at he
    cases he
    exact ⟨_, .inr rfl⟩
  refine Triple.bind (keyed_check fun e he => rejectInvalid_error he) fun _ => Triple.of_pure fun _ => ?_
  refine Triple.bind (keyed_check fun e he => idempotencyKey_error he) fun taken => Triple.of_pure fun htaken => ?_
  obtain rfl := idempotencyKey_ok htaken
  refine Triple.bind keyed_findIdempotency fun existing => ?_
  cases existing with
  | some existing => exact keyed_resolve
  | none =>
    refine keyed_finish ?_ ?_ rfl
    · intro d u t hf
      obtain ⟨d', rfl, _⟩ := createMemberInvitationBatch_ok rfl hf
      obtain ⟨hmade, hrecord⟩ := createMemberInvitationBatch_records hf
      obtain ⟨hfree, hinsert⟩ := insertInto_ok hrecord
      exact ⟨_, d', rfl, hmade, hfree, hinsert⟩
    · exact fun d e hf => createMemberInvitationBatch_violates hf

/-- What a call with a key ends with. -/
def Settled (allowed : Guard (DbCall Db ControlError Nat Entry) (Traced Db Nat Entry)) (ports : Ports) (i : Nat) (q : Request)
    (result : Except ControlError Response) (s : Traced Db Nat Entry) : Prop :=
  ∀ key row, q.record ports i = some (key, row) → ∃ response, result = .ok response
    ∧ (Answered ports i key row response s ∨ ∃ e, response = toAdminError e ∧ Thrown allowed ports i q key row e s)

/-- A call without a key. -/
theorem settles_unkeyed (hrecord : q.record ports i = none) :
    Triple ((keySystem allowed).spec .storage i q) (Wrote i []) (serve ports i q) (fun a => Settled allowed ports i q (.ok a))
      (fun e => Settled allowed ports i q (.error e)) := by
  have hlawful : (keySystem allowed).Lawful .storage i q (serve ports i q) :=
    System.lawful_of_only (fun _ _ _ heffect => ⟨heffect.keeps, trivial⟩) (only_serve ports i q)
  have hnone : ∀ result s, Settled allowed ports i q result s := by
    intro result s key row hsome
    rw [hrecord] at hsome
    cases hsome
  exact hlawful.conseq (fun _ _ _ => trivial) (fun _ _ _ _ => hnone _ _) fun _ _ _ _ => hnone _ _

theorem settles_keyed {program : AdminProg Response} (hrecord : q.record ports i = some (key, row))
    (h : Keyed allowed ports i q key row (Wrote i []) program (Answered ports i key row)) :
    Triple ((keySystem allowed).spec .storage i q) (Wrote i []) (guarded program) (fun a => Settled allowed ports i q (.ok a))
      (fun e => Settled allowed ports i q (.error e)) := by
  have hsame : ∀ {key' row'}, q.record ports i = some (key', row') → key = key' ∧ row = row' := by
    intro key' row' hrecord'
    cases hrecord.symm.trans hrecord'
    exact ⟨rfl, rfl⟩
  refine Triple.tryCatch (h.post fun response s _ hanswered key' row' hrecord' => ?_) fun e => Triple.pure fun s _ hthrown => ?_
  · obtain ⟨rfl, rfl⟩ := hsame hrecord'
    exact ⟨response, rfl, .inl hanswered⟩
  · intro key' row' hrecord'
    obtain ⟨rfl, rfl⟩ := hsame hrecord'
    exact ⟨_, rfl, .inr ⟨e, rfl, hthrown⟩⟩

theorem settles (allowed : Guard (DbCall Db ControlError Nat Entry) (Traced Db Nat Entry)) (ports : Ports) :
    Serves (keySystem allowed) .storage (serve ports) (Settled allowed ports) := by
  intro i q
  cases hrecord : q.record ports i with
  | none => exact settles_unkeyed hrecord
  | some record =>
    obtain ⟨key, row⟩ := record
    cases q with
    | createStack ctx displayName given =>
      cases given with
      | none => cases hrecord
      | some k => exact settles_keyed hrecord (keyed_createStack hrecord)
    | createMemberInvitation ctx stackId emailConstraint given =>
      cases given with
      | none => cases hrecord
      | some k => exact settles_keyed hrecord (keyed_createMemberInvitation hrecord)
    | patchStack => cases hrecord
    | acceptMemberInvitation => cases hrecord
    | deleteMember => cases hrecord

end Keyed

end UniDocs.Control
