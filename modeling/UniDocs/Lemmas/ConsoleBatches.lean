import UniDocs.Control.Issuance
import UniDocs.Lemmas.ControlBatches

/-!
# The batches of the console make transitions of the registry of issuers

What each batch that commits needs of the tables of issuers and does to them, and that membership is lost by a removal only.
-/

namespace UniDocs.Control

open Lib Lib.Trace

/-! ## The batches of the other tables -/

/-- Members are lost by a removal only. -/
def KeepsMembers (e : Entry) (d d' : Db) : Prop := ∀ k, k ∈ d.members → k ∈ d'.members ∨ e = .removed k.1 k.2

theorem keepsMembers_of_eq {e : Entry} {d d' : Db} (h : d'.members = d.members) : KeepsMembers e d d' :=
  fun _ hk => .inl (h ▸ hk)

theorem keepsMembers_createStackBatch {plan : CreateStackPlan} {d d' : Db} {u : Unit} {e : Entry}
    (h : createStackBatch plan d = .ok (u, some (e, d'))) : KeepsMembers e d d' := by
  obtain ⟨d₁, ht, _, hafter⟩ := createStackBatch_ok h
  cases ht
  intro k hk
  have hmembers := congrArg Registry.members hafter
  have hmem : k ∈ d'.registry.members := by
    rw [hmembers]
    exact .inr hk
  exact .inl hmem

theorem keepsMembers_patchStackBatch {plan : PatchStackPlan} {d d' : Db} {u : Unit} {e : Entry}
    (h : patchStackBatch plan d = .ok (u, some (e, d'))) : KeepsMembers e d d' := by
  unfold patchStackBatch at h
  split at h
  · cases h
  · obtain ⟨d₁, hd₁, h⟩ := bind_ok_iff.mp h
    cases h
    exact keepsMembers_of_eq (mutationStatements_registry hd₁).2.2.1

theorem keepsMembers_createMemberInvitationBatch {invitation : Invitation} {audit : AuditRecord}
    {record : Option (IdempotencyKey × IdempotencyRow)} {d d' : Db} {u : Unit} {e : Entry}
    (h : createMemberInvitationBatch invitation audit record d = .ok (u, some (e, d'))) : KeepsMembers e d d' := by
  obtain ⟨d₁, hd₁, h⟩ := bind_ok_iff.mp h
  obtain ⟨invitations, _, h⟩ := bind_ok_iff.mp h
  obtain ⟨idempotency, _, h⟩ := bind_ok_iff.mp h
  cases h
  exact keepsMembers_of_eq (mutationStatements_registry hd₁).2.2.1

theorem keepsMembers_deleteMemberBatch {stackId : String} {expectedRevision : Nat} {identity : IdentityKey}
    {audit : AuditRecord} {d d' : Db} {u : Unit} {e : Entry}
    (h : deleteMemberBatch stackId expectedRevision identity audit d = .ok (u, some (e, d'))) : KeepsMembers e d d' := by
  obtain ⟨d₁, ht, _, hafter⟩ := deleteMemberBatch_ok h
  cases ht
  intro k hk
  by_cases hremoved : k = (stackId, identity)
  · exact .inr (by rw [hremoved])
  · have hmembers := congrArg Registry.members hafter
    have hmem : k ∈ d'.registry.members := by
      rw [hmembers]
      exact ⟨hk, hremoved⟩
    exact .inl hmem

theorem keepsMembers_acceptMemberInvitationBatch {plan : AcceptPlan} {d d' : Db} {u : Unit} {e : Entry}
    (h : acceptMemberInvitationBatch plan d = .ok (u, some (e, d'))) : KeepsMembers e d d' := by
  unfold acceptMemberInvitationBatch at h
  split at h
  · cases h
  · obtain ⟨d₁, hd₁, h⟩ := bind_ok_iff.mp h
    cases h
    intro k hk
    left
    rw [(mutationStatements_registry hd₁).2.2.1]
    simp only [insertMember]
    split
    · exact hk
    · simp [AList.mem_insert, hk]

/-! ## The batches of issuers -/

section Issuers

variable {d d' : ConsoleDb} {u : Unit} {e : ConsoleEntry}

theorem consoleMutation_ok {audit : AuditRecord} (h : consoleMutation audit d = .ok d') :
    d'.issuance = d.issuance ∧ d'.control.members = d.control.members := by
  obtain ⟨control, hcontrol, h⟩ := bind_ok_iff.mp h
  cases h
  exact ⟨rfl, (mutationStatements_registry hcontrol).2.2.1⟩

/-- A batch that keeps the members. -/
theorem consoleStep_of_members {sha256Hex : String → String} {signed : String → String → Prop}
    (h : IssuanceStep sha256Hex signed e d.issuance d'.issuance) (hmembers : d'.control.members = d.control.members) :
    ConsoleStep sha256Hex signed e d d' :=
  ⟨h, fun _ hk => .inl (hmembers ▸ hk)⟩

variable {sha256Hex : String → String} {signed : String → String → Prop}

theorem createManagedBatch_ok {issuer : ManagedIssuer} {audit : AuditRecord}
    (h : createManagedBatch issuer audit d = .ok (u, some (e, d'))) :
    e = .managedPatched issuer.stackId true ∧ ConsoleStep sha256Hex signed e d d' := by
  obtain ⟨d₁, hd₁, h⟩ := bind_ok_iff.mp h
  obtain ⟨d₂, hd₂, h⟩ := bind_ok_iff.mp h
  cases h
  obtain ⟨h1, h2⟩ := consoleMutation_ok hd₂
  have hsame : d₁.issuance = d.issuance ∧ d₁.control.members = d.control.members := by
    unfold insertManagedIssuer at hd₁
    split at hd₁
    · cases hd₁
    · obtain ⟨issuers, _, hd₁⟩ := bind_ok_iff.mp hd₁
      cases hd₁
      exact ⟨rfl, rfl⟩
  refine ⟨rfl, consoleStep_of_members ?_ (h2.trans hsame.2)⟩
  rw [h1, hsame.1]
  exact .managedPatched ..

theorem patchManagedBatch_ok {stackId : String} {expectedRevision nextRevision : Nat} {enabled : Bool} {audit : AuditRecord}
    (h : patchManagedBatch stackId expectedRevision nextRevision enabled audit d = .ok (u, some (e, d'))) :
    e = .managedPatched stackId enabled ∧ ConsoleStep sha256Hex signed e d d' := by
  unfold patchManagedBatch at h
  split at h
  · cases h
  · split at h
    · obtain ⟨d₁, hd₁, h⟩ := bind_ok_iff.mp h
      cases h
      obtain ⟨h1, h2⟩ := consoleMutation_ok hd₁
      refine ⟨rfl, consoleStep_of_members ?_ h2⟩
      rw [h1]
      exact .managedPatched ..
    · cases h

theorem insertKeys_ok {inspectionId : String} {keys : List OAuthJwk} : ∀ {t t' : Table (String × String) InspectionKey},
    insertKeys inspectionId t keys = .ok t' → ∀ k row, t.lookup k = some row → t'.lookup k = some row := by
  induction keys with
  | nil =>
    intro t t' h k row hrow
    cases h
    exact hrow
  | cons key keys ih =>
    intro t t' h k row hrow
    obtain ⟨t₁, ht₁, h⟩ := bind_ok_iff.mp h
    obtain ⟨hnew, rfl⟩ := insertInto_ok ht₁
    refine ih h k row ?_
    have hne : k ≠ (inspectionId, key.kid) := by
      rintro rfl
      rw [hnew] at hrow
      cases hrow
    rw [AList.lookup_insert_ne hne]
    exact hrow

/-- What the statement of an inspection that writes the issuer record needs and does. -/
theorem writeIssuer_ok {stackId : String} {issuer : OAuthIssuer} {oauthIssuers table : Table String OAuthIssuer}
    (hrevision : issuer.revision ≠ 0)
    (h : writeIssuer stackId issuer oauthIssuers = .ok table) :
    table = oauthIssuers.insert stackId issuer
      ∧ (∀ id other, oauthIssuers.lookup id = some other → other.metadata.issuer = issuer.metadata.issuer → id = stackId)
      ∧ ∀ old, oauthIssuers.lookup stackId = some old → old.status ≠ .active ∧ old.revision < issuer.revision := by
  unfold writeIssuer at h
  by_cases hone : issuer.revision = 1
  · rw [if_pos hone] at h
    unfold insertOAuthIssuer at h
    split at h
    · cases h
    · rename_i hfree
      obtain ⟨hnew, rfl⟩ := insertInto_ok h
      refine ⟨rfl, ?_, ?_⟩
      · intro id other hother hissuer
        exact absurd (AList.has_iff.mpr ⟨id, other, hother, by simpa using hissuer⟩) hfree
      · intro old hold
        rw [hnew] at hold
        cases hold
  · rw [if_neg hone] at h
    unfold updateOAuthIssuer at h
    split at h
    · cases h
    · rename_i row hrow
      split at h
      · rename_i hguard
        split at h
        · rename_i hfree
          cases h
          have hnext : row.revision + 1 = issuer.revision := by omega
          refine ⟨by rw [hnext], ?_, ?_⟩
          · intro id other hother hissuer
            by_contra hne
            have hhas : oauthIssuers.has (fun id row => id ≠ stackId && row.metadata.issuer = issuer.metadata.issuer) = true :=
              AList.has_iff.mpr ⟨id, other, hother, by simp [hne, hissuer]⟩
            simp only [issuerFree, hhas, Bool.not_true, Bool.false_eq_true] at hfree
          · intro old hold
            rw [hrow] at hold
            cases hold
            exact ⟨hguard.2, by omega⟩
        · cases h
      · cases h

theorem inspectBatch_ok {plan : InspectPlan} (hrevision : plan.issuer.revision ≠ 0) (hpending : plan.issuer.status = .pending)
    (hstack : plan.inspection.stackId = plan.stackId) (hunused : plan.inspection.usedAt = none)
    (h : inspectBatch plan d = .ok (u, some (e, d'))) :
    e = .inspected plan.stackId plan.inspectionId plan.issuer plan.inspection ∧ ConsoleStep sha256Hex signed e d d' := by
  obtain ⟨oauthIssuers, hissuers, h⟩ := bind_ok_iff.mp h
  obtain ⟨inspections, hinspections, h⟩ := bind_ok_iff.mp h
  obtain ⟨inspectionKeys, hkeys, h⟩ := bind_ok_iff.mp h
  obtain ⟨d₁, hd₁, h⟩ := bind_ok_iff.mp h
  cases h
  obtain ⟨h1, h2⟩ := consoleMutation_ok hd₁
  obtain ⟨rfl, hfree, hold⟩ := writeIssuer_ok hrevision hissuers
  obtain ⟨hnew, rfl⟩ := insertInto_ok hinspections
  refine ⟨rfl, consoleStep_of_members ?_ h2⟩
  rw [h1]
  simp only [ConsoleDb.issuance, AList.lookup_insert_update]
  exact .inspected hfree hold hpending hnew hunused hstack (insertKeys_ok hkeys)

theorem activateBatch_ok {stackId inspectionId : String} {expectedRevision : Nat} {activatedAt : Int} {audit : AuditRecord}
    {current : OAuthIssuer} {inspection : Inspection} (hcurrent : d.issuance.RecordSince stackId current)
    (hexpected : expectedRevision = current.revision) (hinspection : d.issuance.InspectionSince inspectionId inspection)
    (hmatches : Matches inspection current) (hattested : Attested sha256Hex signed d.issuance inspectionId inspection)
    (h : activateBatch stackId inspectionId expectedRevision activatedAt audit d = .ok (u, some (e, d'))) :
    e = .activated stackId inspectionId activatedAt ∧ ConsoleStep sha256Hex signed e d d' := by
  obtain ⟨oauthIssuers, hissuers, h⟩ := bind_ok_iff.mp h
  obtain ⟨inspections, hinspections, h⟩ := bind_ok_iff.mp h
  obtain ⟨d₁, hd₁, h⟩ := bind_ok_iff.mp h
  cases h
  obtain ⟨h1, h2⟩ := consoleMutation_ok hd₁
  refine ⟨rfl, consoleStep_of_members ?_ h2⟩
  unfold activateIssuer at hissuers
  split at hissuers
  · cases hissuers
  · rename_i row hrow
    split at hissuers
    · rename_i hguard
      cases hissuers
      unfold consumeInspection at hinspections
      split at hinspections
      · cases hinspections
      · rename_i found hfound
        split at hinspections
        · rename_i huse
          cases hinspections
          -- the record is the one that was read, and the inspection too
          have hsame : row = current := by
            obtain ⟨row', hrow', hcases⟩ := hcurrent
            obtain rfl : row' = row := Option.some.inj (hrow'.symm.trans hrow)
            rcases hcases with heq | hlt
            · exact heq
            · omega
          subst hsame
          obtain ⟨usedAt, revision, hsince⟩ := hinspection
          obtain rfl := Option.some.inj (hfound.symm.trans hsince)
          rw [h1]
          simp only [ConsoleDb.issuance, AList.lookup_insert_update]
          exact .activated hrow hguard.2 hfound huse.1 huse.2.1 huse.2.2
            ⟨hmatches.metadata, hmatches.audience, hmatches.jwksDigest, hmatches.lifetime⟩ hattested
        · cases hinspections
    · cases hissuers

end Issuers

end UniDocs.Control
