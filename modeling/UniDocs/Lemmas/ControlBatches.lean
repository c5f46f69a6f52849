import UniDocs.Control.Admin
import UniDocs.Control.Registry

/-!
# The batches make transitions of the registry

Each batch of the control database that commits is a transition of the registry, the one its label names.
-/

namespace UniDocs.Control

open Lib Lib.Trace

theorem insertInto_ok {κ ρ : Type} [DecidableEq κ] {name : String} {k : κ} {row : ρ} {t t' : Table κ ρ}
    (h : insertInto name k row t = .ok t') : t.lookup k = none ∧ t' = t.insert k row := by
  unfold insertInto at h
  split at h
  · rename_i t₁ ht
    cases h
    exact AList.lookup_insertNew ht
  · cases h

theorem mutationStatements_registry {audit : AuditRecord} {d d' : Db} (h : mutationStatements audit d = .ok d') :
    d'.registry = d.registry ∧ d'.casStacks = d.casStacks ∧ d'.members = d.members ∧ d'.invitations = d.invitations := by
  obtain ⟨audits, _, h⟩ := bind_ok_iff.mp h
  cases h
  exact ⟨rfl, rfl, rfl, rfl⟩

theorem createStackBatch_ok {plan : CreateStackPlan} {d : Db} {u : Unit} {t : Option (Entry × Db)}
    (h : createStackBatch plan d = .ok (u, t)) :
    ∃ d', t = some (.created plan.stack plan.owner, d') ∧ Transition (.created plan.stack plan.owner) d.registry d'.registry := by
  obtain ⟨d₁, hd₁, h⟩ := bind_ok_iff.mp h
  obtain ⟨casStacks, hstacks, h⟩ := bind_ok_iff.mp h
  obtain ⟨members, hmembers, h⟩ := bind_ok_iff.mp h
  obtain ⟨issuers, _, h⟩ := bind_ok_iff.mp h
  obtain ⟨idempotency, _, h⟩ := bind_ok_iff.mp h
  cases h
  obtain ⟨_, h1, h2, h3⟩ := mutationStatements_registry hd₁
  obtain ⟨hnew, rfl⟩ := insertInto_ok hstacks
  obtain ⟨_, rfl⟩ := insertInto_ok hmembers
  rw [h1] at hnew
  refine ⟨_, rfl, hnew, ?_⟩
  simp only [Db.registry, h1, h2, h3, AList.lookup_insert_update, Registry.mk.injEq, true_and, and_true]
  ext k
  simp [AList.mem_insert]

theorem patchStackBatch_ok {plan : PatchStackPlan} {d : Db} {u : Unit} {t : Option (Entry × Db)} (hok : d.registry.Ok)
    (hnext : plan.nextRevision = plan.expectedRevision + 1) (h : patchStackBatch plan d = .ok (u, t)) :
    ∃ row d', t = some (.patched row plan.displayName plan.description, d') ∧ row.stackId = plan.stackId
      ∧ row.revision = plan.expectedRevision ∧ d.casStacks.lookup plan.stackId = some row
      ∧ Transition (.patched row plan.displayName plan.description) d.registry d'.registry := by
  unfold patchStackBatch updateStack at h
  cases hrow : d.casStacks.lookup plan.stackId with
  | none =>
    rw [hrow] at h
    cases h
  | some row =>
    simp only [hrow] at h
    by_cases hrevision : row.revision = plan.expectedRevision
    · rw [if_pos hrevision] at h
      obtain ⟨d₁, hd₁, h⟩ := bind_ok_iff.mp h
      cases h
      have hid : row.stackId = plan.stackId := hok.stackId hrow
      obtain ⟨h0, _⟩ := mutationStatements_registry hd₁
      refine ⟨row, d₁, rfl, hid, hrevision, rfl, by rw [hid]; exact hrow, ?_⟩
      rw [h0]
      simp only [Db.registry, AList.lookup_insert_update, hid, Stack.patched, hrevision, hnext]
    · rw [if_neg hrevision] at h
      cases h

theorem createMemberInvitationBatch_ok {invitation : Invitation} {audit : AuditRecord}
    {record : Option (IdempotencyKey × IdempotencyRow)} {d : Db} {u : Unit} {t : Option (Entry × Db)}
    (hpending : invitation.status = .pending) (h : createMemberInvitationBatch invitation audit record d = .ok (u, t)) :
    ∃ d', t = some (.invited invitation, d') ∧ Transition (.invited invitation) d.registry d'.registry := by
  obtain ⟨d₁, hd₁, h⟩ := bind_ok_iff.mp h
  obtain ⟨invitations, hinvitations, h⟩ := bind_ok_iff.mp h
  obtain ⟨idempotency, _, h⟩ := bind_ok_iff.mp h
  cases h
  obtain ⟨_, h1, h2, h3⟩ := mutationStatements_registry hd₁
  obtain ⟨hnew, rfl⟩ := insertInto_ok hinvitations
  rw [h3] at hnew
  refine ⟨_, rfl, hnew, hpending, ?_⟩
  simp only [Db.registry, h1, h2, h3, AList.lookup_insert_update]

theorem exists_other_member {d : Db} {stackId : String} (identity : IdentityKey) (h : 1 < d.memberCount stackId) :
    ∃ other, other ≠ identity ∧ (stackId, other) ∈ d.members := by
  have hpart : d.members.part (fun k _ => if decide (k.1 = stackId) then 1 else 0) (stackId, identity) ≤ 1 := by
    unfold AList.part
    split
    · simp
    · decide
  have hcount : (d.members.erase (stackId, identity)).count (fun k _ => decide (k.1 = stackId)) ≠ 0 := by
    simp only [Db.memberCount, AList.count] at h ⊢
    rw [AList.total_erase]
    omega
  have hrow : ∃ k row, (d.members.erase (stackId, identity)).lookup k = some row ∧ k.1 = stackId := by
    by_contra hnone
    refine hcount (AList.count_eq_zero.mpr fun k row hk => ?_)
    rw [decide_eq_false_iff_not]
    exact fun hid => hnone ⟨k, row, hk, hid⟩
  obtain ⟨⟨id, other⟩, row, hk, rfl⟩ := hrow
  rw [AList.lookup_erase_eq] at hk
  split at hk
  · cases hk
  · rename_i hne
    refine ⟨other, ?_, AList.mem_of_lookup hk⟩
    rintro rfl
    exact hne rfl

theorem deleteMemberBatch_ok {stackId : String} {expectedRevision : Nat} {identity : IdentityKey} {audit : AuditRecord}
    {d : Db} {u : Unit} {t : Option (Entry × Db)}
    (h : deleteMemberBatch stackId expectedRevision identity audit d = .ok (u, t)) :
    ∃ d', t = some (.removed stackId identity, d') ∧ Transition (.removed stackId identity) d.registry d'.registry := by
  obtain ⟨_, hguard, h⟩ := bind_ok_iff.mp h
  obtain ⟨d₁, hd₁, h⟩ := bind_ok_iff.mp h
  cases h
  have hcount : 1 < d.memberCount stackId := by
    unfold guardJson at hguard
    split at hguard
    · rename_i hcondition
      simp only [Bool.and_eq_true, decide_eq_true_eq] at hcondition
      exact hcondition.2
    · cases hguard
  refine ⟨d₁, rfl, exists_other_member identity hcount, ?_⟩
  rw [(mutationStatements_registry hd₁).1]
  simp only [Db.registry, Registry.mk.injEq, true_and, and_true]
  ext k
  simp [AList.mem_erase, and_comm]

theorem acceptMemberInvitationBatch_ok {plan : AcceptPlan} {d : Db} {u : Unit} {t : Option (Entry × Db)}
    (hok : d.registry.Ok) {invitation : Invitation} (hid : invitation.invitationId = plan.invitationId)
    (hstack : invitation.stackId = plan.stackId) (hsince : d.registry.InvitationSince invitation)
    (h : acceptMemberInvitationBatch plan d = .ok (u, t)) :
    ∃ row d', t = some (.accepted row plan.identity plan.now, d') ∧ row.emailConstraint = invitation.emailConstraint
      ∧ row.tokenHash = plan.tokenHash ∧ row.stackId = plan.stackId
      ∧ Transition (.accepted row plan.identity plan.now) d.registry d'.registry := by
  obtain ⟨status, hread, _⟩ := hsince
  unfold acceptMemberInvitationBatch claimInvitation at h
  cases hrow : d.invitations.lookup plan.invitationId with
  | none =>
    rw [hrow] at h
    cases h
  | some row =>
    simp only [hrow] at h
    split at h
    · cases h
    · rename_i claimed invitations hclaim
      split at hclaim
      · rename_i hchecks
        cases hclaim
        obtain ⟨d₁, hd₁, h⟩ := bind_ok_iff.mp h
        cases h
        have hrowId : row.invitationId = plan.invitationId := hok.invitationId hrow
        have hsame : row = { invitation with status := status } := by
          rw [← hid] at hrow
          exact Option.some.inj (hrow.symm.trans hread)
        have hstackId : row.stackId = plan.stackId := by
          rw [hsame]
          exact hstack
        refine ⟨row, d₁, rfl, by rw [hsame], hchecks.1, hstackId, by rw [hrowId]; exact hrow, hchecks.2.1, hchecks.2.2, ?_⟩
        rw [(mutationStatements_registry hd₁).1]
        simp only [Db.registry, AList.lookup_insert_update, hrowId, hstackId, Registry.mk.injEq, true_and, and_true]
        ext k
        unfold insertMember
        split
        · rename_i hmem
          constructor
          · exact fun hk => .inr hk
          · rintro (rfl | hk)
            · exact hmem
            · exact hk
        · simp [AList.mem_insert]
      · cases hclaim

end UniDocs.Control
