import UniDocs.Administrators.Directory
import UniDocs.Administrators.Flows

/-!
# The operations on administrators, call by call

Every batch of an operation makes the transition that its request asks for, and a session that `findSession` returns is the
one that its query has found.
-/

/-!
## The batches make transitions of the directory

Each batch on the tables of administrators that commits is a transition of the directory, the one its label names.
-/

namespace UniDocs.Administrators

open Lib Lib.Trace

theorem guardRow_ok {condition : Bool} {u : Unit} (h : guardRow condition = .ok u) : condition = true := by
  cases condition with
  | true => rfl
  | false => cases h

theorem insertInto_ok {κ ρ : Type} [DecidableEq κ] {k : κ} {row : ρ} {t t' : Table κ ρ} (h : insertInto k row t = .ok t') :
    t.lookup k = none ∧ t' = t.insert k row := by
  unfold insertInto at h
  split at h
  · rename_i t₁ ht
    cases h
    exact AList.lookup_insertNew ht
  · cases h

theorem insertAdministrator_ok {memberId : String} {row : Administrator} {t t' : Table String Administrator}
    (h : insertAdministrator memberId row t = .ok t') : t.lookup memberId = none ∧ t' = t.insert memberId row := by
  obtain ⟨_, _, h⟩ := bind_ok_iff.mp h
  exact insertInto_ok h

theorem lookup_revokeFamilies (memberId : String) (now : Int) (families : Table String Family) (f : String) :
    (revokeFamilies memberId now families).lookup f = (families.lookup f).map (Family.revokeOf memberId now) :=
  AList.lookup_updateAll _ families f

theorem isBound_iff {d : Db} {memberId : String} {identity : AdminIdentity} (h : isBound d memberId identity = true) :
    d.directory.Bound memberId (identity.issuer, identity.subject) := by
  unfold isBound at h
  split at h
  · cases h
  · rename_i row hrow
    simp only [Bool.and_eq_true, decide_eq_true_eq] at h
    exact ⟨row, hrow, h.2, h.1⟩

theorem hasSession_live {d : Db} {memberId : String} {sessionHash : Option String} {now : Int}
    (h : d.hasSession memberId sessionHash now = true) :
    ∃ hash, sessionHash = some hash ∧ d.directory.Live memberId hash now := by
  unfold Db.hasSession at h
  split at h
  · cases h
  · rename_i session hsession
    split at h
    · cases h
    · rename_i family hfamily
      simp only [Bool.and_eq_true, decide_eq_true_eq] at h
      obtain ⟨hash, rfl, hlookup⟩ := Option.bind_eq_some_iff.mp hsession
      exact ⟨hash, rfl, session, family, hlookup, hfamily, h.1.1, h.1.2, h.2⟩

theorem authority_authorized {d : Db} {context : AdminContext} {now : Int} (h : d.authority context now = true) :
    d.directory.Authorized context now := by
  unfold Db.authority at h
  split at h
  · cases h
  · rename_i row hrow
    simp only [Bool.and_eq_true, Bool.or_eq_true, decide_eq_true_eq] at h
    refine ⟨⟨row, hrow, h.1.2, h.1.1⟩, fun hsession => ?_⟩
    rcases h.2 with hbearer | hlive
    · rw [hbearer] at hsession
      cases hsession
    · exact hasSession_live hlive

/-! ## Logins -/

theorem admitMember_ok {plan : LoginPlan} {d d' : Db} (h : admitMember plan d = .ok d') :
    Admits plan.memberId plan.identity plan.confirmationTime d.directory d'.directory plan.kind ∧ d'.families = d.families := by
  unfold admitMember at h
  cases hkind : plan.kind with
  | returning =>
    simp only [hkind] at h
    cases h
    exact ⟨⟨rfl, rfl⟩, rfl⟩
  | bootstrap =>
    simp only [hkind] at h
    obtain ⟨_, hguard, h⟩ := bind_ok_iff.mp h
    obtain ⟨administrators, hinsert, h⟩ := bind_ok_iff.mp h
    cases h
    obtain ⟨_, rfl⟩ := insertAdministrator_ok hinsert
    have hchecks := guardRow_ok hguard
    simp only [Bool.and_eq_true, decide_eq_true_eq, Bool.not_eq_true'] at hchecks
    refine ⟨⟨hchecks.1, rfl, fun id => ?_, _, AList.lookup_insert_update ..⟩, rfl⟩
    cases hrow : d.administrators.lookup id with
    | none => exact hrow
    | some row =>
      have hhas : d.administrators.has (fun _ _ => true) = true := AList.has_iff.mpr ⟨id, row, hrow, rfl⟩
      rw [hchecks.2] at hhas
      cases hhas
  | invitation revision =>
    simp only [hkind] at h
    split at h
    · cases h
    · rename_i row hrow
      obtain ⟨_, hguard, h⟩ := bind_ok_iff.mp h
      obtain ⟨_, _, h⟩ := bind_ok_iff.mp h
      cases h
      have hchecks := guardRow_ok hguard
      simp only [Bool.and_eq_true, decide_eq_true_eq] at hchecks
      obtain ⟨⟨⟨⟨hemail, hactive⟩, hunbound⟩, _⟩, htime⟩ := hchecks
      exact ⟨⟨row, _, hrow, hactive, hunbound, hemail, htime, rfl, AList.lookup_insert_update .., rfl⟩, rfl⟩

theorem loginBatch_ok {plan : LoginPlan} {d : Db} {u : Unit} {t : Option (Entry × Db)} (h : loginBatch plan d = .ok (u, t)) :
    ∃ d', t = some (.login plan.kind plan.memberId plan.identity plan.confirmationTime plan.familyId, d')
      ∧ Transition (.login plan.kind plan.memberId plan.identity plan.confirmationTime plan.familyId) d.directory d'.directory := by
  obtain ⟨d₁, hadmit, h⟩ := bind_ok_iff.mp h
  obtain ⟨_, hbound, h⟩ := bind_ok_iff.mp h
  obtain ⟨adminAudit, _, h⟩ := bind_ok_iff.mp h
  obtain ⟨families, hfamilies, h⟩ := bind_ok_iff.mp h
  obtain ⟨_, _, h⟩ := bind_ok_iff.mp h
  obtain ⟨sessions, _, h⟩ := bind_ok_iff.mp h
  obtain ⟨authAudit, _, h⟩ := bind_ok_iff.mp h
  cases h
  obtain ⟨hadmits, hsame⟩ := admitMember_ok hadmit
  obtain ⟨hfresh, rfl⟩ := insertInto_ok hfamilies
  rw [lookup_revokeFamilies, hsame, Option.map_eq_none_iff] at hfresh
  refine ⟨_, rfl, ?_, isBound_iff (guardRow_ok hbound), hfresh, plan.now, ?_⟩
  · cases hkind : plan.kind <;> rw [hkind] at hadmits <;> exact hadmits
  · simp only [Db.directory, AList.lookup_insert_update, hsame]
    congr 1
    funext f
    exact lookup_revokeFamilies ..

theorem revokeBatch_ok {sessionHash memberId requestId authAuditId : String} {now : Int} {d : Db} {u : Unit}
    {t : Option (Entry × Db)} (h : revokeBatch sessionHash memberId requestId authAuditId now d = .ok (u, t)) :
    ∃ d', t = some (.revoked sessionHash memberId, d') ∧ Transition (.revoked sessionHash memberId) d.directory d'.directory := by
  unfold revokeBatch at h
  split at h
  · cases h
  · rename_i session _
    split at h
    · cases h
    · rename_i family hfamily
      obtain ⟨_, _, h⟩ := bind_ok_iff.mp h
      obtain ⟨authAudit, _, h⟩ := bind_ok_iff.mp h
      cases h
      exact ⟨_, rfl, rfl, rfl, session.familyId, family, now, hfamily, AList.lookup_insert_update ..⟩

/-! ## Members -/

theorem addBatch_ok {command : AddCommand} {now : Int} {d : Db} {u : Unit} {t : Option (Entry × Db)}
    (h : addBatch command now d = .ok (u, t)) : ∃ d', t = some (.added command.context now command.adminId, d')
      ∧ Transition (.added command.context now command.adminId) d.directory d'.directory := by
  obtain ⟨_, hguard, h⟩ := bind_ok_iff.mp h
  obtain ⟨receipts, _, h⟩ := bind_ok_iff.mp h
  obtain ⟨administrators, hinsert, h⟩ := bind_ok_iff.mp h
  obtain ⟨adminAudit, _, h⟩ := bind_ok_iff.mp h
  cases h
  obtain ⟨hfresh, rfl⟩ := insertAdministrator_ok hinsert
  exact ⟨_, rfl, authority_authorized (guardRow_ok hguard), hfresh, rfl, rfl, _, rfl, rfl, AList.lookup_insert_update ..⟩

theorem removeBatch_ok {command : RemoveCommand} {revision : Nat} {now : Int} {d : Db} {u : Unit} {t : Option (Entry × Db)}
    (h : removeBatch command revision now d = .ok (u, t)) : ∃ d', t = some (.removed command.context now command.adminId, d')
      ∧ Transition (.removed command.context now command.adminId) d.directory d'.directory := by
  obtain ⟨_, hguard, h⟩ := bind_ok_iff.mp h
  obtain ⟨receipts, _, h⟩ := bind_ok_iff.mp h
  split at h
  · cases h
  · rename_i row hrow
    obtain ⟨_, hrowGuard, h⟩ := bind_ok_iff.mp h
    obtain ⟨adminAudit, _, h⟩ := bind_ok_iff.mp h
    cases h
    have hchecks := guardRow_ok hrowGuard
    simp only [Bool.and_eq_true, decide_eq_true_eq] at hchecks
    refine ⟨_, rfl, authority_authorized (guardRow_ok hguard), hchecks.1.1.1, rfl,
      ⟨row, { row with active := false, revision := row.revision + 1, updatedAt := command.occurredAt }, hrow, hchecks.1.1.2,
        rfl, rfl, AList.lookup_insert_update ..⟩, command.occurredAt, ?_⟩
    funext f
    exact lookup_revokeFamilies ..

/-! ## Sessions -/

theorem findSessionQuery_ok {sessionHash : String} {now : Int} {d : Db} {found : Option (Session × Family × Administrator)}
    {t : Option (Entry × Db)} (h : findSessionQuery sessionHash now d = .ok (found, t)) :
    (found = none ∧ t = none) ∨ ∃ session family member, found = some (session, family, member)
      ∧ t = some (.found sessionHash session family member, d)
      ∧ Transition (.found sessionHash session family member) d.directory d.directory := by
  unfold findSessionQuery at h
  split at h
  · cases h
    exact .inl ⟨rfl, rfl⟩
  · rename_i session family member hjoin
    cases h
    refine .inr ⟨session, family, member, rfl, rfl, rfl, ?_⟩
    unfold Db.joinSession at hjoin
    split at hjoin
    · cases hjoin
    · rename_i session' hsession
      split at hjoin
      · cases hjoin
      · rename_i family' hfamily
        split at hjoin
        · cases hjoin
        · rename_i member' hmember
          split at hjoin
          · rename_i hchecks
            cases hjoin
            exact ⟨hsession, hfamily, hmember, hchecks.1, hchecks.2.1⟩
          · cases hjoin

end UniDocs.Administrators

namespace UniDocs.Administrators

open Lib Lib.Trace

/-- What the call of a request may do. -/
def May (ports : Ports) (i : Nat) : Request → Entry → Prop
  | .completeLogin identity bootstrapEmail _, .login kind _ verified time _ =>
    verifyLogin ports identity (ports.now i 0) = .ok (verified, time)
      ∧ (kind = .bootstrap → requireBootstrapIdentity ports verified bootstrapEmail (ports.now i 0) = .ok ())
  | .add command, .added context now adminId => context = command.context ∧ now = ports.now i 2 ∧ adminId = command.adminId
  | .remove command, .removed context now adminId => context = command.context ∧ now = ports.now i 2 ∧ adminId = command.adminId
  | .revokeSession sessionHash memberId _, .revoked sessionHash' memberId' => sessionHash' = sessionHash ∧ memberId' = memberId
  | .findSession sessionHash, .found sessionHash' _ _ _ => sessionHash' = sessionHash
  | _, _ => False

/-- The transitions of the tables, whatever calls fail or lose their answers. -/
def system (ports : Ports) : System Db PortalError Nat Entry Request where
  step e d d' := Transition e d.directory d'.directory
  start d := d = Db.empty
  may := May ports
  allowed := Machine.anyCall

variable {ports : Ports} {i : Nat} {q : Request}

abbrev Lawful (ports : Ports) (i : Nat) (q : Request) {α : Type} (p : AdminProg α) : Prop :=
  (system ports).Lawful .storage i q p

theorem lawful_authorize (k : Nat) (context : AdminContext) : Lawful ports i q (authorize ports i k context) :=
  .bind (.read _) fun _ => .evaluate _

theorem lawful_replay (k : Nat) (context : AdminContext) (operation : Operation) (key fingerprint : String) :
    Lawful ports i q (replay ports i k context operation key fingerprint) := by
  refine .bind (lawful_authorize k context) fun _ => .bind (.read _) fun receipt => ?_
  cases receipt with
  | none => exact .pure _
  | some receipt => exact .bind (.evaluate _) fun _ => .pure _

theorem lawful_add (command : AddCommand) : Lawful ports i (.add command) (add ports i command) := by
  refine .bind (lawful_authorize _ _) fun _ => .bind (lawful_replay _ _ _ _ _) fun previous => ?_
  cases previous with
  | some previous => exact .pure _
  | none =>
    refine .tryCatch (.bind (.batch ?_) fun _ => .pure _) fun e => .bind (lawful_replay _ _ _ _ _) fun concurrent => ?_
    · intro d u e d' hf
      obtain ⟨d₁, ht, hstep⟩ := addBatch_ok hf
      cases ht
      exact ⟨hstep, rfl, rfl, rfl⟩
    · cases concurrent with
      | some concurrent => exact .pure _
      | none => exact .bind (.read _) fun _ => .evaluate _

theorem lawful_removable (command : RemoveCommand) : Lawful ports i q (removable ports command) := by
  refine .bind (.read _) fun target => ?_
  cases target with
  | none => exact .throw _
  | some target =>
    dsimp only
    split
    · exact .throw _
    · split
      · exact .throw _
      · split
        · exact .pure _
        · exact .bind (.read _) fun _ => .evaluate _

theorem lawful_remove (command : RemoveCommand) : Lawful ports i (.remove command) (remove ports i command) := by
  refine .bind (lawful_authorize _ _) fun _ => .bind (lawful_replay _ _ _ _ _) fun previous => ?_
  cases previous with
  | some previous => exact .pure _
  | none =>
    refine .bind (lawful_removable command) fun target => ?_
    refine .tryCatch (.batch ?_) fun e => .bind (lawful_replay _ _ _ _ _) fun concurrent => ?_
    · intro d u e d' hf
      obtain ⟨d₁, ht, hstep⟩ := removeBatch_ok hf
      cases ht
      exact ⟨hstep, rfl, rfl, rfl⟩
    · cases concurrent with
      | some concurrent => exact .pure _
      | none => exact .bind (lawful_removable command) fun _ => .throw _

theorem checkLogin_bootstrap {verified : AdminIdentity} {time now : Int} {bootstrapEmail : Option String}
    {invited : Option (String × Administrator)} {kind : LoginKind} {u : Unit}
    (h : checkLogin ports verified time bootstrapEmail invited kind now = .ok u) (hkind : kind = .bootstrap) :
    requireBootstrapIdentity ports verified bootstrapEmail now = .ok () := by
  obtain ⟨_, _, h⟩ := bind_ok_iff.mp h
  obtain ⟨_, _, h⟩ := bind_ok_iff.mp h
  rw [if_pos hkind] at h
  exact h

theorem lawful_completeLogin (identity : AdminIdentity) (bootstrapEmail : Option String) (requestId : String) :
    Lawful ports i (.completeLogin identity bootstrapEmail requestId)
      (completeLogin ports i identity bootstrapEmail requestId) := by
  refine .evaluate_bind fun verified hverified => ?_
  obtain ⟨verified, time⟩ := verified
  refine .bind (.read _) fun bound => ?_
  refine .bind ?_ fun invited => ?_
  · cases bound with
    | none => exact .read _
    | some bound => exact .pure _
  · refine .evaluate_bind fun _ hcheck => ?_
    refine .bind ?_ fun _ => .bind (.batch ?_) fun _ => .pure _
    · unfold refuseBootstrapped
      split
      · exact .bind (.read _) fun _ => .evaluate _
      · exact .pure _
    · intro d u e d' hf
      obtain ⟨d₁, ht, hstep⟩ := loginBatch_ok hf
      cases ht
      exact ⟨hstep, hverified, fun hkind => checkLogin_bootstrap hcheck hkind⟩

theorem lawful_revokeSession (sessionHash memberId requestId : String) :
    Lawful ports i (.revokeSession sessionHash memberId requestId) (revokeSession ports i sessionHash memberId requestId) := by
  refine .batch fun d u e d' hf => ?_
  obtain ⟨d₁, ht, hstep⟩ := revokeBatch_ok hf
  cases ht
  exact ⟨hstep, rfl, rfl⟩

/-- A session that is returned was found, of an active member and in a family that is not revoked. -/
def FoundEnd (i : Nat) (sessionHash : String) (r : Option AdminSession) (s : Traced Db Nat Entry) : Prop :=
  ∀ session, r = some session → ∃ row family member, Wrote i [.found sessionHash row family member] s
    ∧ session.memberId = family.memberId

theorem does_findSession (sessionHash : String) : Triple ((system ports).spec .storage i (.findSession sessionHash)) (Wrote i [])
    (findSession ports i sessionHash) (FoundEnd i sessionHash) (fun _ _ => True) := by
  have hnone : ∀ {s : Traced Db Nat Entry}, FoundEnd i sessionHash none s := fun _ h => by cases h
  refine Triple.bind (Q := fun found s => ∀ row family member, found = some (row, family, member) →
    Wrote i [.found sessionHash row family member] s) ?_ fun found => ?_
  · refine System.batch_rule (fun _ => ?_) (fun _ => Stable.const True) ?_ ?_ (fun _ _ _ _ _ => trivial) (fun _ _ _ => trivial)
      (fun _ _ _ _ _ _ _ _ => trivial)
    · exact Stable.all fun _ => Stable.all fun _ => Stable.all fun _ => Stable.imp fun _ => System.stable_wrote
    · intro s found _ _ hf row family member hfound
      rcases findSessionQuery_ok hf with ⟨rfl, _⟩ | ⟨_, _, _, _, ht, _⟩
      · cases hfound
      · cases ht
    · intro s found e d _ hwrote hf
      rcases findSessionQuery_ok hf with ⟨_, ht⟩ | ⟨row, family, member, rfl, ht, hstep⟩
      · cases ht
      · cases ht
        refine ⟨hstep, rfl, ?_⟩
        rintro row' family' member' ⟨⟩
        exact hwrote.snoc _ _
  · cases found with
    | none => exact Triple.pure fun _ _ _ => hnone
    | some found =>
      obtain ⟨row, family, member⟩ := found
      refine Triple.bind (System.evaluate_rule fun _ _ _ _ _ => trivial) fun identity => ?_
      refine Triple.of_pure fun _ => ?_
      split
      · refine Triple.pure fun s _ hp session hsession => ?_
        cases hsession
        exact ⟨row, family, member, hp row family member rfl, rfl⟩
      · exact Triple.pure fun _ _ _ => hnone

/-- What holds when a request has ended. -/
def Ended (i : Nat) (q : Request) (r : Except PortalError Response) (s : Traced Db Nat Entry) : Prop :=
  match q, r with
  | .findSession sessionHash, .ok (.session session) => FoundEnd i sessionHash session s
  | _, _ => True

theorem serves (ports : Ports) : Serves (system ports) .storage (serve ports) Ended := by
  intro i q
  cases q with
  | completeLogin identity bootstrapEmail requestId =>
    exact ((lawful_completeLogin identity bootstrapEmail requestId).bind fun _ => .pure _).pre fun _ _ _ => trivial
  | findSession sessionHash =>
    refine Triple.bind (does_findSession sessionHash) fun session => ?_
    exact Triple.pure fun _ _ h => h
  | revokeSession sessionHash memberId requestId =>
    exact ((lawful_revokeSession sessionHash memberId requestId).bind fun _ => .pure _).pre fun _ _ _ => trivial
  | add command => exact ((lawful_add command).bind fun _ => .pure _).pre fun _ _ _ => trivial
  | remove command => exact ((lawful_remove command).bind fun _ => .pure _).pre fun _ _ _ => trivial

end UniDocs.Administrators
