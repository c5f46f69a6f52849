import UniDocs.Control.Store
import Mathlib.Data.Set.Insert

/-!
# The registry of stacks

What the control database is for: stacks under their identifiers, who is a member of which, and the invitations. Its
transitions say what each kind of change needs and does; the laws of the registry are those of its transitions.
-/

namespace UniDocs.Control

/-- Stacks, members and invitations. -/
structure Registry where
  stack : String → Option Stack
  members : Set (String × IdentityKey)
  invitation : String → Option Invitation

/-- The registry that the tables hold. -/
def Db.registry (d : Db) : Registry := ⟨d.casStacks.lookup, {k | k ∈ d.members}, d.invitations.lookup⟩

/-- A stack after a patch. -/
def Stack.patched (stack : Stack) (displayName description : String) : Stack :=
  { stack with displayName := displayName, description := description, revision := stack.revision + 1 }

/-- What a change needs and does. -/
def Transition : Entry → Registry → Registry → Prop
  | .created stack owner, r, r' =>
    r.stack stack.stackId = none ∧ r' = ⟨Function.update r.stack stack.stackId (some stack),
      insert (stack.stackId, owner) r.members, r.invitation⟩
  | .patched stack displayName description, r, r' =>
    r.stack stack.stackId = some stack ∧
      r' = ⟨Function.update r.stack stack.stackId (some (stack.patched displayName description)), r.members, r.invitation⟩
  | .invited invitation, r, r' =>
    r.invitation invitation.invitationId = none ∧ invitation.status = .pending ∧
      r' = ⟨r.stack, r.members, Function.update r.invitation invitation.invitationId (some invitation)⟩
  | .removed stackId identity, r, r' =>
    (∃ other, other ≠ identity ∧ (stackId, other) ∈ r.members) ∧ r' = ⟨r.stack, r.members \ {(stackId, identity)}, r.invitation⟩
  | .accepted invitation identity now, r, r' =>
    r.invitation invitation.invitationId = some invitation ∧ invitation.status = .pending ∧ now < invitation.expiresAt ∧
      r' = ⟨r.stack, insert (invitation.stackId, identity) r.members,
        Function.update r.invitation invitation.invitationId (some { invitation with status := .accepted })⟩

namespace Registry

/-- Rows are under their own identifiers, and every stack has a member. -/
structure Ok (r : Registry) : Prop where
  stackId : ∀ {id row}, r.stack id = some row → row.stackId = id
  invitationId : ∀ {id invitation}, r.invitation id = some invitation → invitation.invitationId = id
  member : ∀ {id row}, r.stack id = some row → ∃ identity, (id, identity) ∈ r.members

/-- A row of an updated function. -/
theorem update_cases {α : Type} {f : String → Option α} {id id' : String} {a b : α}
    (h : Function.update f id (some a) id' = some b) : (id' = id ∧ b = a) ∨ f id' = some b := by
  by_cases hid : id' = id
  · subst hid
    rw [Function.update_self] at h
    exact .inl ⟨rfl, (Option.some.inj h).symm⟩
  · rw [Function.update_of_ne hid] at h
    exact .inr h

/-- A change keeps the registry well formed. -/
theorem ok_of_transition {e : Entry} {r r' : Registry} (h : Transition e r r') (hok : r.Ok) : r'.Ok := by
  cases e with
  | created stack owner =>
    obtain ⟨hnew, rfl⟩ := h
    refine ⟨?_, hok.invitationId, ?_⟩
    · intro id row hrow
      rcases update_cases hrow with ⟨rfl, rfl⟩ | hrow
      · rfl
      · exact hok.stackId hrow
    · intro id row hrow
      rcases update_cases hrow with ⟨rfl, rfl⟩ | hrow
      · exact ⟨owner, Set.mem_insert _ _⟩
      · obtain ⟨identity, hmem⟩ := hok.member hrow
        exact ⟨identity, Set.mem_insert_of_mem _ hmem⟩
  | patched old displayName description =>
    obtain ⟨hold, rfl⟩ := h
    refine ⟨?_, hok.invitationId, ?_⟩
    · intro id row hrow
      rcases update_cases hrow with ⟨rfl, rfl⟩ | hrow
      · rfl
      · exact hok.stackId hrow
    · intro id row hrow
      rcases update_cases hrow with ⟨rfl, rfl⟩ | hrow
      · exact hok.member hold
      · exact hok.member hrow
  | invited invitation =>
    obtain ⟨_, _, rfl⟩ := h
    refine ⟨hok.stackId, ?_, hok.member⟩
    intro id row hrow
    rcases update_cases hrow with ⟨rfl, rfl⟩ | hrow
    · rfl
    · exact hok.invitationId hrow
  | removed stackId identity =>
    obtain ⟨⟨other, hne, hother⟩, rfl⟩ := h
    refine ⟨hok.stackId, hok.invitationId, ?_⟩
    intro id row hrow
    by_cases hid : id = stackId
    · subst hid
      exact ⟨other, hother, by simpa using hne⟩
    · obtain ⟨member, hmem⟩ := hok.member hrow
      refine ⟨member, hmem, ?_⟩
      intro heq
      exact hid (congrArg Prod.fst heq)
  | accepted invitation identity now =>
    obtain ⟨hrow, _, _, rfl⟩ := h
    refine ⟨hok.stackId, ?_, ?_⟩
    · intro id row hid
      rcases update_cases hid with ⟨rfl, rfl⟩ | hid
      · rfl
      · exact hok.invitationId hid
    · intro id row hid
      obtain ⟨member, hmem⟩ := hok.member hid
      exact ⟨member, Set.mem_insert_of_mem _ hmem⟩

/-- A stack that was read: it is there as it was, or with a higher revision. -/
def StackSince (stack : Stack) (r : Registry) : Prop :=
  ∃ row, r.stack stack.stackId = some row ∧ (row = stack ∨ stack.revision < row.revision)

theorem stackSince_of_transition {e : Entry} {r r' : Registry} (h : Transition e r r') {stack : Stack}
    (hsince : r.StackSince stack) : r'.StackSince stack := by
  obtain ⟨row, hrow, hcases⟩ := hsince
  cases e with
  | created new owner =>
    obtain ⟨hnew, rfl⟩ := h
    have hne : stack.stackId ≠ new.stackId := by
      intro heq
      rw [heq, hnew] at hrow
      cases hrow
    exact ⟨row, by simpa [Function.update_of_ne hne] using hrow, hcases⟩
  | patched old displayName description =>
    obtain ⟨hold, rfl⟩ := h
    by_cases hid : stack.stackId = old.stackId
    · rw [hid] at hrow
      cases hold.symm.trans hrow
      refine ⟨row.patched displayName description, by simp [hid], .inr ?_⟩
      rcases hcases with rfl | hlt
      · exact Nat.lt_succ_self _
      · exact Nat.lt_succ_of_lt hlt
    · exact ⟨row, by simpa [Function.update_of_ne hid] using hrow, hcases⟩
  | invited invitation =>
    obtain ⟨_, _, rfl⟩ := h
    exact ⟨row, hrow, hcases⟩
  | removed stackId identity =>
    obtain ⟨_, rfl⟩ := h
    exact ⟨row, hrow, hcases⟩
  | accepted invitation identity now =>
    obtain ⟨_, _, _, rfl⟩ := h
    exact ⟨row, hrow, hcases⟩

/-- An invitation that was read: it is there as it was, up to its status, and one that was accepted stays so. -/
def InvitationSince (invitation : Invitation) (r : Registry) : Prop :=
  ∃ status, r.invitation invitation.invitationId = some { invitation with status := status }
    ∧ (invitation.status = .accepted → status = .accepted)

theorem invitationSince_of_transition {e : Entry} {r r' : Registry} (h : Transition e r r') {invitation : Invitation}
    (hsince : r.InvitationSince invitation) : r'.InvitationSince invitation := by
  obtain ⟨status, hrow, haccepted⟩ := hsince
  cases e with
  | created new owner =>
    obtain ⟨_, rfl⟩ := h
    exact ⟨status, hrow, haccepted⟩
  | patched old displayName description =>
    obtain ⟨_, rfl⟩ := h
    exact ⟨status, hrow, haccepted⟩
  | invited new =>
    obtain ⟨hnew, _, rfl⟩ := h
    have hne : invitation.invitationId ≠ new.invitationId := by
      intro heq
      rw [heq, hnew] at hrow
      cases hrow
    exact ⟨status, by simpa [Function.update_of_ne hne] using hrow, haccepted⟩
  | removed stackId identity =>
    obtain ⟨_, rfl⟩ := h
    exact ⟨status, hrow, haccepted⟩
  | accepted claimed identity now =>
    obtain ⟨hclaimed, _, _, rfl⟩ := h
    by_cases hid : invitation.invitationId = claimed.invitationId
    · have hsame : claimed = { invitation with status := status } := by
        rw [← hid] at hclaimed
        exact Option.some.inj (hclaimed.symm.trans hrow)
      subst hsame
      exact ⟨.accepted, Function.update_self .., fun _ => rfl⟩
    · exact ⟨status, by simpa [Function.update_of_ne hid] using hrow, haccepted⟩

end Registry

end UniDocs.Control
