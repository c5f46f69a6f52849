import UniDocs.Lemmas.ControlBatches

/-!
# The control plane operations, call by call

One triple for each operation: an operation that reports an error has written nothing, and a patch that reports the stack has
committed it. What was read before stays known in the form that other operations cannot take away: a stack keeps its row or
has a higher revision, an invitation keeps what it was created with.
-/

namespace UniDocs.Control

open Lib Lib.Trace

/-- What the call of a request may do. -/
def May (ports : Ports) (i : Nat) : Request → Entry → Prop
  | .createStack ctx displayName _, .created stack owner => stack = newStack ports i displayName ∧ owner = ctx.identity
  | .patchStack _ stackId displayName description ifMatch, .patched stack name text =>
    stack.stackId = stackId ∧ requireIfMatch ifMatch stack.revision = .ok ()
      ∧ patchedFields stack displayName description = .ok (name, text)
  | .createMemberInvitation _ stackId emailConstraint _, .invited invitation =>
    invitation = newInvitation ports i stackId (normalizeEmailConstraint ports emailConstraint)
  | .acceptMemberInvitation ctx token, .accepted invitation identity now =>
    identity = ctx.identity ∧ now = ports.now i 0 ∧ invitation.tokenHash = ports.sha256Hex token
      ∧ meetsConstraint ports ctx invitation.emailConstraint = true
  | .deleteMember _ stackId identity _, .removed stackId' identity' => stackId' = stackId ∧ identity' = identity
  | _, _ => False

/-- The transitions of the control database. -/
def system (ports : Ports) : System Db ControlError Nat Entry Request where
  step e d d' := Transition e d.registry d'.registry
  start d := d = Db.empty
  may := May ports
  allowed := answered

variable {ports : Ports} {i : Nat} {q : Request} {α β : Type}

/-- A program of the call `i` for the request `q`. -/
abbrev Does (ports : Ports) (i : Nat) (q : Request) (P : Traced Db Nat Entry → Prop) (p : AdminProg α)
    (Q : α → Traced Db Nat Entry → Prop) (T : ControlError → Traced Db Nat Entry → Prop) : Prop :=
  Triple ((system ports).spec .storage i q) P p Q T

/-- An assertion that the others keep. -/
abbrev Kept (ports : Ports) (i : Nat) (q : Request) (P : Traced Db Nat Entry → Prop) : Prop :=
  Stable ((system ports).spec .storage i q) P

theorem kept_wrote {es : List Entry} : Kept ports i q (Wrote i es) := System.stable_wrote

theorem registry_ok {s : Traced Db Nat Entry} (h : (system ports).Inv s) : s.db.registry.Ok := by
  obtain ⟨d, rfl, hpath⟩ := h
  refine hpath.rule (P := fun d => d.registry.Ok) (fun e d d' hs hok => Registry.ok_of_transition hs hok) ?_
  exact ⟨fun h => by simp [Db.registry, Db.empty] at h, fun h => by simp [Db.registry, Db.empty] at h,
    fun h => by simp [Db.registry, Db.empty] at h⟩

/-! ## Rules -/

/-- A throw in a program that has written nothing. -/
def nothing (i : Nat) : ControlError → Traced Db Nat Entry → Prop := fun _ => Wrote i []

theorem kept_nothing {e : ControlError} : Kept ports i q (nothing i e) := kept_wrote

section Rules

variable {P : Traced Db Nat Entry → Prop}

theorem does_read {f : Db → β} {Q : β → Traced Db Nat Entry → Prop} (hw : ∀ s, P s → Wrote i [] s)
    (hQ : ∀ b, Kept ports i q (Q b)) (h : ∀ s, (system ports).Inv s → P s → Q (f s.db) s) :
    Does ports i q P (read f) Q (nothing i) :=
  System.read_rule hQ kept_nothing h fun s _ hp => hw s hp

theorem does_evaluate {r : Except ControlError β} (hw : ∀ s, P s → Wrote i [] s) :
    Does ports i q P (evaluate r) (fun b s => r = .ok b ∧ P s) (nothing i) :=
  System.evaluate_rule fun _ s _ _ hp => hw s hp

/-- A check whose value is not used. -/
theorem does_check {r : Except ControlError β} (hw : ∀ s, P s → Wrote i [] s) :
    Does ports i q P (evaluate r) (fun _ => P) (nothing i) :=
  (does_evaluate hw).post fun _ _ _ h => h.2

theorem does_throw {e : ControlError} {Q : β → Traced Db Nat Entry → Prop} (hw : ∀ s, P s → Wrote i [] s) :
    Does ports i q P (throw e : AdminProg β) Q (nothing i) :=
  Triple.throw fun s _ hp => hw s hp

theorem does_commitOr {transaction : Db → Batch} {committed : α} {failed : ControlError → AdminProg α}
    {Q : α → Traced Db Nat Entry → Prop} (hP : Kept ports i q P) (hQ : ∀ a, Kept ports i q (Q a))
    (hcommit : ∀ s u t, (system ports).Inv s → P s → transaction s.db = .ok (u, t) → ∃ e d, t = some (e, d)
      ∧ Transition e s.db.registry d.registry ∧ May ports i q e ∧ Q committed ⟨d, s.trace ++ [(i, e)]⟩)
    (hfailed : ∀ e, Does ports i q P (failed e) Q (nothing i)) :
    Does ports i q P (commitOr i transaction committed failed) Q (nothing i) := by
  refine Triple.tryCatch (F := fun _ => P) ?_ hfailed
  refine Triple.bind (Q := fun _ => Q committed) ?_ fun _ => Triple.pure fun _ _ h => h
  refine System.batch_rule (fun _ => hQ committed) (fun _ => hP) ?_ ?_ (fun _ _ _ hp _ => hp) (fun _ _ hp => hp) ?_
  · intro s u hi hp hf
    obtain ⟨e, d, ht, _⟩ := hcommit s u none hi hp hf
    cases ht
  · intro s u e d hi hp hf
    obtain ⟨e', d', ht, hstep, hmay, hpost⟩ := hcommit s u _ hi hp hf
    cases ht
    exact ⟨hstep, hmay, hpost⟩
  · exact fun _ _ _ _ _ _ _ hlost => absurd rfl hlost

end Rules

/-! ## Reads -/

theorem kept_stackSince {stack : Stack} : Kept ports i q fun s => s.db.registry.StackSince stack :=
  System.stable_db (P := fun d : Db => d.registry.StackSince stack) fun _ _ _ hs h => Registry.stackSince_of_transition hs h

theorem kept_invitationSince {invitation : Invitation} : Kept ports i q fun s => s.db.registry.InvitationSince invitation :=
  System.stable_db (P := fun d : Db => d.registry.InvitationSince invitation)
    fun _ _ _ hs h => Registry.invitationSince_of_transition hs h

/-- Nothing written yet, and a stack was read. -/
def ReadStack (i : Nat) (stack : Stack) (s : Traced Db Nat Entry) : Prop :=
  Wrote i [] s ∧ s.db.registry.StackSince stack

theorem kept_readStack {stack : Stack} : Kept ports i q (ReadStack i stack) := kept_wrote.and kept_stackSince

/-- Nothing written yet, and an invitation was read. -/
def ReadInvitation (i : Nat) (invitation : Invitation) (s : Traced Db Nat Entry) : Prop :=
  Wrote i [] s ∧ s.db.registry.InvitationSince invitation

theorem kept_readInvitation {invitation : Invitation} : Kept ports i q (ReadInvitation i invitation) :=
  kept_wrote.and kept_invitationSince

theorem does_requireMember (identity : IdentityKey) (stackId : String) :
    Does ports i q (Wrote i []) (requireMember identity stackId) (fun _ => Wrote i []) (nothing i) :=
  Triple.bind (does_read (fun _ hp => hp) (fun _ => kept_wrote) fun _ _ hp => hp) fun _ => does_check fun _ hp => hp

theorem does_requireStack (stackId : String) :
    Does ports i q (Wrote i []) (requireStack stackId) (fun stack s => stack.stackId = stackId ∧ ReadStack i stack s)
      (nothing i) := by
  refine Triple.bind (Q := fun found s => Wrote i [] s ∧ ∀ stack, found = some stack →
    stack.stackId = stackId ∧ s.db.registry.StackSince stack) ?_ fun found => ?_
  · refine does_read (fun _ hp => hp) (fun found => ?_) ?_
    · exact kept_wrote.and (Stable.all fun _ => Stable.imp fun _ => (Stable.const _).and kept_stackSince)
    · intro s hi hp
      refine ⟨hp, fun stack hstack => ?_⟩
      have hid : stack.stackId = stackId := (registry_ok hi).stackId hstack
      exact ⟨hid, stack, by rw [hid]; exact hstack, .inl rfl⟩
  · cases found with
    | none => exact (does_evaluate fun _ hp => hp.1).post fun _ _ _ h => by cases h.1
    | some stack =>
      refine Triple.pure ?_
      intro s _ hp
      obtain ⟨hid, hsince⟩ := hp.2 stack rfl
      exact ⟨hid, hp.1, hsince⟩

theorem does_findIdempotency (record : Option IdempotencyKey) (now : Int) :
    Does ports i q (Wrote i []) (findIdempotency record now) (fun _ => Wrote i []) (nothing i) := by
  cases record with
  | none => exact Triple.pure fun _ _ hp => hp
  | some key => exact does_read (fun _ hp => hp) (fun _ => kept_wrote) fun _ _ hp => hp

/-! ## What the operations report -/

/-- What holds when an operation reports its response. -/
def Reported (ports : Ports) (i : Nat) (q : Request) (r : Response) (s : Traced Db Nat Entry) : Prop :=
  match r, q with
  | .error _ _, _ => Wrote i [] s
  | .stack stack, .patchStack _ stackId _ _ _ =>
    ∃ row name text, Wrote i [.patched row name text] s ∧ row.stackId = stackId ∧ stack = row.patched name text
  | .member member, .acceptMemberInvitation ctx _ => member.identity = ctx.identity ∧
    ∃ invitation, Wrote i [.accepted invitation ctx.identity (ports.now i 0)] s ∧ invitation.stackId = member.stackId
  | _, _ => True

theorem does_resolveIdempotency {record : IdempotencyRow} {payloadHash : String}
    (hq : ∀ ctx stackId name text ifMatch, q ≠ .patchStack ctx stackId name text ifMatch)
    (hq' : ∀ ctx token, q ≠ .acceptMemberInvitation ctx token) :
    Does ports i q (Wrote i []) (evaluate (resolveIdempotency record payloadHash)) (Reported ports i q) (nothing i) := by
  refine (does_check fun _ hp => hp).post fun r s _ hwrote => ?_
  unfold Reported
  split
  · exact hwrote
  · exact absurd rfl (hq _ _ _ _ _)
  · exact absurd rfl (hq' _ _)
  · trivial

theorem does_commitOrRace {transaction : Db → Batch} {record : Option (IdempotencyKey × IdempotencyRow)}
    (hcommit : ∀ s u t, (system ports).Inv s → Wrote i [] s → transaction s.db = .ok (u, t) → ∃ e d, t = some (e, d)
      ∧ Transition e s.db.registry d.registry ∧ May ports i q e) :
    Does ports i q (Wrote i []) (commitOrRace i transaction record) (fun race s => race ≠ none → Wrote i [] s) (nothing i) := by
  refine does_commitOr kept_wrote (fun _ => Stable.imp fun _ => kept_wrote) ?_ fun e => ?_
  · intro s u t hi hp hf
    obtain ⟨e, d, ht, hstep, hmay⟩ := hcommit s u t hi hp hf
    exact ⟨e, d, ht, hstep, hmay, fun hnone => absurd rfl hnone⟩
  · cases record with
    | none => exact does_throw fun _ hp => hp
    | some record =>
      dsimp only
      split
      · refine Triple.bind (does_read (fun _ hp => hp) (fun _ => kept_wrote) fun _ _ hp => hp) fun found => ?_
        cases found with
        | none => exact does_throw fun _ hp => hp
        | some found => exact Triple.pure fun _ _ hp _ => hp
      · exact does_throw fun _ hp => hp

theorem does_createStack (ctx : Context) (displayName : String) (key : Option String) :
    Does ports i (.createStack ctx displayName key) (Wrote i []) (createStack ports i ctx displayName key)
      (Reported ports i (.createStack ctx displayName key)) (nothing i) := by
  refine Triple.bind (does_check fun _ hp => hp) fun _ => ?_
  refine Triple.bind (does_check fun _ hp => hp) fun key => ?_
  refine Triple.bind (does_findIdempotency _ _) fun existing => ?_
  cases existing with
  | some existing => exact does_resolveIdempotency (by intros; exact nofun) (by intros; exact nofun)
  | none =>
    refine Triple.bind (does_check fun _ hp => hp) fun managedIssuer => ?_
    refine Triple.bind (does_commitOrRace ?_) fun race => ?_
    · intro s u t _ _ hf
      obtain ⟨d, ht, hstep⟩ := createStackBatch_ok hf
      exact ⟨_, d, ht, hstep, rfl, rfl⟩
    · cases race with
      | some race => exact (does_resolveIdempotency (by intros; exact nofun) (by intros; exact nofun)).pre fun _ _ hp => hp (by simp)
      | none => exact Triple.pure fun _ _ _ => trivial

theorem does_createMemberInvitation (ctx : Context) (stackId : String) (emailConstraint key : Option String) :
    Does ports i (.createMemberInvitation ctx stackId emailConstraint key) (Wrote i [])
      (createMemberInvitation ports i ctx stackId emailConstraint key)
      (Reported ports i (.createMemberInvitation ctx stackId emailConstraint key)) (nothing i) := by
  refine Triple.bind (does_requireMember _ _) fun _ => ?_
  refine Triple.bind (does_check fun _ hp => hp) fun _ => ?_
  refine Triple.bind (does_check fun _ hp => hp) fun key => ?_
  refine Triple.bind (does_findIdempotency _ _) fun existing => ?_
  cases existing with
  | some existing => exact does_resolveIdempotency (by intros; exact nofun) (by intros; exact nofun)
  | none =>
    refine Triple.bind (does_commitOrRace ?_) fun race => ?_
    · intro s u t _ _ hf
      obtain ⟨d, ht, hstep⟩ := createMemberInvitationBatch_ok rfl hf
      exact ⟨_, d, ht, hstep, rfl⟩
    · cases race with
      | some race => exact (does_resolveIdempotency (by intros; exact nofun) (by intros; exact nofun)).pre fun _ _ hp => hp (by simp)
      | none => exact Triple.pure fun _ _ _ => trivial

/-! ## Patches -/

/-- What holds after `commitPatchStack`. -/
def PatchEnd (i : Nat) (stack : Stack) (name text : String) (result : PatchResult) (s : Traced Db Nat Entry) : Prop :=
  match result with
  | .updated => Wrote i [.patched stack name text] s
  | _ => Wrote i [] s

theorem kept_patchEnd {stack : Stack} {name text : String} {result : PatchResult} :
    Kept ports i q (PatchEnd i stack name text result) := by
  cases result <;> exact kept_wrote

theorem does_commitPatchStack {plan : PatchStackPlan} {stack : Stack} (hid : plan.stackId = stack.stackId)
    (hexpected : plan.expectedRevision = stack.revision) (hnext : plan.nextRevision = stack.revision + 1)
    (hmay : May ports i q (.patched stack plan.displayName plan.description)) :
    Does ports i q (ReadStack i stack) (commitPatchStack i plan) (PatchEnd i stack plan.displayName plan.description)
      (nothing i) := by
  refine does_commitOr kept_readStack (fun _ => kept_patchEnd) ?_ fun e => ?_
  · rintro s u t hi ⟨hwrote, row', hrow', hsince⟩ hf
    obtain ⟨row, d, ht, hrowId, hrevision, hrow, hstep⟩ :=
      patchStackBatch_ok (registry_ok hi) (by rw [hnext, hexpected]) hf
    have hrows : row' = row := by
      rw [hid] at hrow
      exact Option.some.inj (hrow'.symm.trans hrow)
    have hsame : row = stack := by
      rw [hrows] at hsince
      rcases hsince with heq | hlt
      · exact heq
      · omega
    subst hsame
    exact ⟨_, d, ht, hstep, hmay, hwrote.snoc _ _⟩
  · split
    · refine Triple.bind (does_read (fun _ hp => hp.1) (fun _ => kept_readStack) fun _ _ hp => hp) fun current => ?_
      refine Triple.pure fun s _ hp => ?_
      cases current <;> exact hp.1
    · exact does_throw fun _ hp => hp.1

theorem does_patchStack (ctx : Context) (stackId : String) (displayName description ifMatch : Option String) :
    Does ports i (.patchStack ctx stackId displayName description ifMatch) (Wrote i [])
      (patchStack ports i ctx stackId displayName description ifMatch)
      (Reported ports i (.patchStack ctx stackId displayName description ifMatch)) (nothing i) := by
  refine Triple.bind (does_requireMember _ _) fun _ => ?_
  refine Triple.bind (does_requireStack stackId) fun stack => ?_
  refine Triple.of_pure fun hid => ?_
  refine Triple.bind (does_evaluate fun _ hp => hp.1) fun _ => ?_
  refine Triple.of_pure fun hmatch => ?_
  refine Triple.bind (does_evaluate fun _ hp => hp.1) fun fields => ?_
  refine Triple.of_pure fun hfields => ?_
  obtain ⟨name, text⟩ := fields
  refine Triple.bind (Q := PatchEnd i stack name text)
    (does_commitPatchStack rfl rfl rfl ⟨hid, hmatch, hfields⟩) fun result => ?_
  cases result with
  | updated => exact Triple.pure fun s _ hwrote => ⟨stack, name, text, hwrote, hid, rfl⟩
  | notFound => exact does_throw fun _ hp => hp
  | revisionMismatch => exact does_throw fun _ hp => hp

/-! ## Members -/

/-- What holds after `commitDeleteMember`: only a deletion has written. -/
def DeleteEnd (i : Nat) (result : DeleteResult) (s : Traced Db Nat Entry) : Prop := result ≠ .deleted → Wrote i [] s

theorem does_commitDeleteMember {stackId : String} {expectedRevision : Nat} {identity : IdentityKey} {audit : AuditRecord}
    (hmay : May ports i q (.removed stackId identity)) :
    Does ports i q (Wrote i []) (commitDeleteMember i stackId expectedRevision identity audit) (DeleteEnd i) (nothing i) := by
  have hread : ∀ {β : Type} (f : Db → β), Does ports i q (Wrote i []) (read f) (fun _ => Wrote i []) (nothing i) :=
    fun _ => does_read (fun _ hp => hp) (fun _ => kept_wrote) fun _ _ hp => hp
  refine does_commitOr kept_wrote (fun _ => Stable.imp fun _ => kept_wrote) ?_ fun e => ?_
  · intro s u t _ _ hf
    obtain ⟨d, ht, hstep⟩ := deleteMemberBatch_ok hf
    exact ⟨_, d, ht, hstep, hmay, fun hne => absurd rfl hne⟩
  · split
    · refine Triple.bind (hread _) fun stack => ?_
      cases stack with
      | none => exact Triple.pure fun _ _ hp _ => hp
      | some stack =>
        dsimp only
        split
        · exact Triple.pure fun _ _ hp _ => hp
        · exact Triple.bind (hread _) fun _ => Triple.pure fun _ _ hp _ => hp
    · exact does_throw fun _ hp => hp

theorem does_deleteMember (ctx : Context) (stackId : String) (identity : IdentityKey) (ifMatch : Option String) :
    Does ports i (.deleteMember ctx stackId identity ifMatch) (Wrote i [])
      (deleteMember ports i ctx stackId identity ifMatch) (Reported ports i (.deleteMember ctx stackId identity ifMatch))
      (nothing i) := by
  refine Triple.bind (does_requireMember _ _) fun _ => ?_
  refine Triple.bind (does_requireStack stackId) fun stack => ?_
  refine Triple.of_pure fun hid => ?_
  refine Triple.bind (does_check fun _ hp => hp.1) fun _ => ?_
  have hmay : May ports i (.deleteMember ctx stackId identity ifMatch) (.removed stack.stackId identity) := ⟨hid, rfl⟩
  refine Triple.bind ((does_commitDeleteMember hmay).pre fun _ _ hp => hp.1) fun result => ?_
  cases result with
  | deleted => exact Triple.pure fun _ _ _ => trivial
  | notMember => exact Triple.pure fun _ _ _ => trivial
  | stackNotFound => exact does_throw fun _ hp => hp (by simp)
  | revisionMismatch => exact does_throw fun _ hp => hp (by simp)
  | lastMember => exact does_throw fun _ hp => hp (by simp)

/-- What holds after `commitAcceptMemberInvitation`. -/
def AcceptEnd (i : Nat) (plan : AcceptPlan) (accepted : Bool) (s : Traced Db Nat Entry) : Prop :=
  match accepted with
  | true => ∃ row, Wrote i [.accepted row plan.identity plan.now] s ∧ row.stackId = plan.stackId
  | false => Wrote i [] s

theorem kept_acceptEnd {plan : AcceptPlan} {accepted : Bool} : Kept ports i q (AcceptEnd i plan accepted) := by
  cases accepted with
  | true => exact Stable.ex fun _ => kept_wrote.and (Stable.const _)
  | false => exact kept_wrote

theorem does_commitAcceptMemberInvitation {plan : AcceptPlan} {invitation : Invitation}
    (hid : invitation.invitationId = plan.invitationId) (hstack : invitation.stackId = plan.stackId)
    (hmay : ∀ row : Invitation, row.emailConstraint = invitation.emailConstraint → row.tokenHash = plan.tokenHash →
      May ports i q (.accepted row plan.identity plan.now)) :
    Does ports i q (ReadInvitation i invitation) (commitAcceptMemberInvitation i plan) (AcceptEnd i plan) (nothing i) := by
  refine does_commitOr kept_readInvitation (fun _ => kept_acceptEnd) ?_ fun e => ?_
  · rintro s u t hi ⟨hwrote, hsince⟩ hf
    obtain ⟨row, d, ht, hconstraint, hhash, hrow, hstep⟩ :=
      acceptMemberInvitationBatch_ok (registry_ok hi) hid hstack hsince hf
    exact ⟨_, d, ht, hstep, hmay row hconstraint hhash, row, hwrote.snoc _ _, hrow⟩
  · split
    · exact Triple.pure fun _ _ hp => hp.1
    · exact does_throw fun _ hp => hp.1

theorem does_acceptMemberInvitation (ctx : Context) (token : String) :
    Does ports i (.acceptMemberInvitation ctx token) (Wrote i []) (acceptMemberInvitation ports i ctx token)
      (Reported ports i (.acceptMemberInvitation ctx token)) (nothing i) := by
  refine Triple.bind (does_check fun _ hp => hp) fun _ => ?_
  refine Triple.bind (Q := fun found s => Wrote i [] s ∧ ∀ invitation, found = some invitation →
    s.db.registry.InvitationSince invitation) ?_ fun found => ?_
  · refine does_read (fun _ hp => hp) (fun _ => ?_) ?_
    · exact kept_wrote.and (Stable.all fun _ => Stable.imp fun _ => kept_invitationSince)
    · intro s hi hp
      refine ⟨hp, fun invitation hfound => ?_⟩
      obtain ⟨⟨id, row⟩, hmem, rfl⟩ := List.mem_map.mp (List.mem_of_mem_head? hfound)
      have hrow : s.db.registry.invitation id = some row := (AList.mem_rows.mp hmem).1
      have hid : row.invitationId = id := (registry_ok hi).invitationId hrow
      rw [← hid] at hrow
      exact ⟨row.status, hrow, fun h => h⟩
  · cases found with
    | none => exact does_throw fun _ hp => hp.1
    | some invitation =>
      dsimp only
      split
      · exact does_throw fun _ hp => hp.1
      · split
        · rename_i hmeets
          refine Triple.pre (P := ReadInvitation i invitation) ?_ fun _ _ hp => ⟨hp.1, hp.2 invitation rfl⟩
          refine Triple.bind (does_read (fun _ hp => hp.1) (fun _ => kept_readInvitation) fun _ _ hp => hp) fun existing => ?_
          refine Triple.bind (does_commitAcceptMemberInvitation rfl rfl ?_) fun accepted => ?_
          · intro row hconstraint hhash
            exact ⟨rfl, rfl, hhash, by rw [hconstraint]; exact hmeets⟩
          · cases accepted with
            | true => exact Triple.pure fun _ _ hp => ⟨rfl, hp⟩
            | false => exact does_throw fun _ hp => hp
        · exact does_throw fun _ hp => hp.1

/-! ## All operations -/

/-- An operation that throws reports an error. -/
theorem does_guarded {program : AdminProg Response} (h : Does ports i q (Wrote i []) program (Reported ports i q) (nothing i)) :
    Does ports i q (Wrote i []) (guarded program) (Reported ports i q) (fun _ _ => False) := by
  refine Triple.tryCatch h fun e => Triple.pure fun s _ hwrote => ?_
  cases e <;> exact hwrote

/-- What holds when a call has ended. -/
def Ended (ports : Ports) (i : Nat) (q : Request) (r : Except ControlError Response) (s : Traced Db Nat Entry) : Prop :=
  match r with
  | .ok response => Reported ports i q response s
  | .error _ => False

theorem serves (ports : Ports) : Serves (system ports) .storage (serve ports) (Ended ports) := by
  intro i q
  cases q with
  | createStack ctx displayName key => exact does_guarded (does_createStack ctx displayName key)
  | patchStack ctx stackId displayName description ifMatch =>
    exact does_guarded (does_patchStack ctx stackId displayName description ifMatch)
  | createMemberInvitation ctx stackId emailConstraint key =>
    exact does_guarded (does_createMemberInvitation ctx stackId emailConstraint key)
  | acceptMemberInvitation ctx token => exact does_guarded (does_acceptMemberInvitation ctx token)
  | deleteMember ctx stackId identity ifMatch => exact does_guarded (does_deleteMember ctx stackId identity ifMatch)

end UniDocs.Control
