import UniDocs.Lemmas.ConsoleBatches
import UniDocs.Lib.Part

/-!
# The console, call by call

Every batch of every operation makes the transition its request stands for. An activation commits on what it has checked: the
record has the revision that was read, the inspection changes by its use only, and the keys of an inspection stay. The
operations on a stack are gated by the membership of the caller.
-/

namespace UniDocs.Control

open Lib Lib.Trace

/-- What the call of a request may do. -/
def ConsoleMay (ports : ConsolePorts) (i : Nat) : ConsoleRequest → ConsoleEntry → Prop
  | .control _, .control _ => True
  | .patchManagedOAuthIssuer .., .managedPatched .. => True
  | .inspectOAuthIssuer _ stackId _, .inspected stackId' inspectionId _ inspection =>
    stackId' = stackId ∧ inspectionId = ports.generateOAuthInspectionId i
      ∧ ∃ issuer audience discovered, inspection = newInspection ports i stackId issuer audience discovered
  | .activateOAuthIssuer _ stackId inspectionId _ _, .activated stackId' inspectionId' now =>
    stackId' = stackId ∧ inspectionId' = inspectionId ∧ now = ports.now i 0
  | _, _ => False

/-- The transitions of the control database with the tables of issuers. -/
def consoleSystem (ports : ConsolePorts) (signed : String → String → Prop) :
    System ConsoleDb ControlError Nat ConsoleEntry ConsoleRequest where
  step := ConsoleStep ports.sha256Hex signed
  start d := d = ConsoleDb.empty
  may := ConsoleMay ports
  allowed := Machine.anyCall

variable {ports : ConsolePorts} {signed : String → String → Prop} {i : Nat} {q : ConsoleRequest} {α β : Type}

/-- A program of which every batch is in order. -/
abbrev ConsoleLawful (ports : ConsolePorts) (signed : String → String → Prop) (i : Nat) (q : ConsoleRequest)
    (p : ConsoleProg α) : Prop :=
  (consoleSystem ports signed).Lawful .storage i q p

/-! ## The other operations -/

section Batches

variable {ctl : Ports}

theorem batches_requireMember {G : Entry → Db → Db → Prop} (identity : IdentityKey) (stackId : String) :
    Batches i G (requireMember identity stackId) :=
  .bind (.read _) fun _ => .evaluate _

theorem batches_requireStack (stackId : String) : Batches i KeepsMembers (requireStack stackId) :=
  .bind (.read _) fun _ => .evaluate _

theorem batches_findIdempotency (record : Option IdempotencyKey) (now : Int) :
    Batches i KeepsMembers (findIdempotency record now) := by
  cases record with
  | none => exact .pure _
  | some key => exact .read _

theorem batches_commitOr {transaction : Db → Batch} {committed : α} {failed : ControlError → AdminProg α}
    (h : ∀ d u e d', transaction d = .ok (u, some (e, d')) → KeepsMembers e d d')
    (hfailed : ∀ e, Batches i KeepsMembers (failed e)) :
    Batches i KeepsMembers (commitOr i transaction committed failed) :=
  .tryCatch (.bind (.batch h) fun _ => .pure _) hfailed

theorem batches_commitOrRace {transaction : Db → Batch} {record : Option (IdempotencyKey × IdempotencyRow)}
    (h : ∀ d u e d', transaction d = .ok (u, some (e, d')) → KeepsMembers e d d') :
    Batches i KeepsMembers (commitOrRace i transaction record) := by
  refine batches_commitOr h fun e => ?_
  cases record with
  | none => exact .throw _
  | some record =>
    dsimp only
    split
    · refine .bind (.read _) fun found => ?_
      cases found with
      | none => exact .throw _
      | some found => exact .pure _
    · exact .throw _

theorem batches_createStack (ctx : Context) (displayName : String) (key : Option String) :
    Batches i KeepsMembers (createStack ctl i ctx displayName key) := by
  refine .bind (.evaluate _) fun _ => .bind (.evaluate _) fun key => ?_
  refine .bind (batches_findIdempotency _ _) fun existing => ?_
  cases existing with
  | some existing => exact .evaluate _
  | none =>
    refine .bind (.evaluate _) fun managedIssuer => ?_
    refine .bind (batches_commitOrRace fun d u e d' h => keepsMembers_createStackBatch h) fun race => ?_
    cases race with
    | some race => exact .evaluate _
    | none => exact .pure _

theorem batches_patchStack (ctx : Context) (stackId : String) (displayName description ifMatch : Option String) :
    Batches i KeepsMembers (patchStack ctl i ctx stackId displayName description ifMatch) := by
  refine .bind (batches_requireMember _ _) fun _ => .bind (batches_requireStack _) fun stack => ?_
  refine .bind (.evaluate _) fun _ => .bind (.evaluate _) fun fields => ?_
  obtain ⟨name, text⟩ := fields
  refine .bind (batches_commitOr (fun d u e d' h => keepsMembers_patchStackBatch h) fun e => ?_) fun result => ?_
  · split
    · exact .bind (.read _) fun _ => .pure _
    · exact .throw _
  · cases result with
    | updated => exact .pure _
    | notFound => exact .throw _
    | revisionMismatch => exact .throw _

theorem batches_createMemberInvitation (ctx : Context) (stackId : String) (emailConstraint key : Option String) :
    Batches i KeepsMembers (createMemberInvitation ctl i ctx stackId emailConstraint key) := by
  refine .bind (batches_requireMember _ _) fun _ => .bind (.evaluate _) fun _ => .bind (.evaluate _) fun key => ?_
  refine .bind (batches_findIdempotency _ _) fun existing => ?_
  cases existing with
  | some existing => exact .evaluate _
  | none =>
    refine .bind (batches_commitOrRace fun d u e d' h => keepsMembers_createMemberInvitationBatch h) fun race => ?_
    cases race with
    | some race => exact .evaluate _
    | none => exact .pure _

theorem batches_deleteMember (ctx : Context) (stackId : String) (identity : IdentityKey) (ifMatch : Option String) :
    Batches i KeepsMembers (deleteMember ctl i ctx stackId identity ifMatch) := by
  refine .bind (batches_requireMember _ _) fun _ => .bind (batches_requireStack _) fun stack => ?_
  refine .bind (.evaluate _) fun _ => ?_
  refine .bind (batches_commitOr (fun d u e d' h => keepsMembers_deleteMemberBatch h) fun e => ?_) fun result => ?_
  · split
    · refine .bind (.read _) fun stack => ?_
      cases stack with
      | none => exact .pure _
      | some stack =>
        dsimp only
        split
        · exact .pure _
        · exact .bind (.read _) fun _ => .pure _
    · exact .throw _
  · cases result with
    | deleted => exact .pure _
    | notMember => exact .pure _
    | stackNotFound => exact .throw _
    | revisionMismatch => exact .throw _
    | lastMember => exact .throw _

theorem batches_acceptMemberInvitation (ctx : Context) (token : String) :
    Batches i KeepsMembers (acceptMemberInvitation ctl i ctx token) := by
  refine .bind (.evaluate _) fun _ => .bind (.read _) fun found => ?_
  cases found with
  | none => exact .throw _
  | some invitation =>
    dsimp only
    split
    · exact .throw _
    · split
      · refine .bind (.read _) fun existing => ?_
        refine .bind (batches_commitOr (fun d u e d' h => keepsMembers_acceptMemberInvitationBatch h) fun e => ?_)
          fun accepted => ?_
        · split
          · exact .pure _
          · exact .throw _
        · cases accepted with
          | true => exact .pure _
          | false => exact .throw _
      · exact .throw _

theorem batches_serve (request : Request) : Batches i KeepsMembers (serve ctl i request) := by
  cases request with
  | createStack ctx displayName key => exact .tryCatch (batches_createStack _ _ _) fun _ => .pure _
  | patchStack ctx stackId displayName description ifMatch =>
    exact .tryCatch (batches_patchStack _ _ _ _ _) fun _ => .pure _
  | createMemberInvitation ctx stackId emailConstraint key =>
    exact .tryCatch (batches_createMemberInvitation _ _ _ _) fun _ => .pure _
  | acceptMemberInvitation ctx token => exact .tryCatch (batches_acceptMemberInvitation _ _) fun _ => .pure _
  | deleteMember ctx stackId identity ifMatch => exact .tryCatch (batches_deleteMember _ _ _ _) fun _ => .pure _

end Batches

/-- A batch of the other tables is a transition of the console. -/
theorem consoleStep_of_control {sha256Hex : String → String} {e : Entry} {d d' : Db} {c : ConsoleDb}
    (h : KeepsMembers e d d') (hd : c.control = d) : ConsoleStep sha256Hex signed (.control e) c (controlPart.set d' c) := by
  refine ⟨.control _ _, fun k hk => ?_⟩
  rw [hd] at hk
  rcases h k hk with hmem | hremoved
  · exact .inl hmem
  · exact .inr (by rw [hremoved])

theorem lawful_control (request : Request) :
    ConsoleLawful ports signed i (.control request) (consoleServe ports i (.control request)) := by
  refine .bind (Batches.lawful_lift (batches_serve request) ?_) fun _ => .pure _
  intro e d d' h
  exact ⟨consoleStep_of_control h rfl, trivial⟩

/-! ## Managed issuers -/

theorem lawful_requireMember (identity : IdentityKey) (stackId : String) :
    ConsoleLawful ports signed i q (consoleRequireMember identity stackId) := by
  have hnone : Batches i (fun _ _ _ => False) (requireMember identity stackId) := batches_requireMember _ _
  exact hnone.lawful_lift fun _ _ _ h => h.elim

theorem lawful_consoleCommitOr {transaction : ConsoleDb → ConsoleBatch} {committed : α} {failed : ControlError → ConsoleProg α}
    (h : ∀ d u e d', transaction d = .ok (u, some (e, d')) → ConsoleStep ports.sha256Hex signed e d d' ∧ ConsoleMay ports i q e)
    (hfailed : ∀ e, ConsoleLawful ports signed i q (failed e)) :
    ConsoleLawful ports signed i q (consoleCommitOr i transaction committed failed) :=
  .tryCatch (.bind (.batch h) fun _ => .pure _) hfailed

theorem lawful_managedRefusal (stackId : String) : ConsoleLawful ports signed i q (managedRefusal stackId) :=
  .bind (.read _) fun _ => .pure _

theorem lawful_patchManagedOAuthIssuer (ctx : Context) (stackId : String) (enabled : Option Bool) (ifMatch : Option String) :
    ConsoleLawful ports signed i (.patchManagedOAuthIssuer ctx stackId enabled ifMatch)
      (patchManagedOAuthIssuer ports i ctx stackId enabled ifMatch) := by
  refine .bind (lawful_requireMember _ _) fun _ => .bind (.read _) fun existing => ?_
  refine .bind ?_ fun issuer => ?_
  · cases existing with
    | some existing => exact .pure _
    | none =>
      refine .bind (.read _) fun existing => ?_
      cases existing with
      | some existing => exact .pure _
      | none => exact .evaluate _
  · obtain ⟨issuer, status⟩ := issuer
    refine .bind (.evaluate _) fun enabled => .bind ?_ fun result => ?_
    · unfold commitPatchManagedOAuthIssuer
      split
      · refine lawful_consoleCommitOr (fun d u e d' h => ?_) fun e => ?_
        · obtain ⟨rfl, hstep⟩ := createManagedBatch_ok h
          exact ⟨hstep, trivial⟩
        · split
          · exact lawful_managedRefusal _
          · exact .throw _
      · refine lawful_consoleCommitOr (fun d u e d' h => ?_) fun e => ?_
        · obtain ⟨rfl, hstep⟩ := patchManagedBatch_ok h
          exact ⟨hstep, trivial⟩
        · split
          · exact lawful_managedRefusal _
          · exact .throw _
    · cases result with
      | created => exact .pure _
      | updated => exact .pure _
      | notFound => exact .throw _
      | revisionMismatch => exact .throw _

/-! ## Inspections -/

theorem lawful_commitInspectOAuthIssuer (ctx : Context) (stackId text issuer audience : String)
    (discovered : OAuthDiscoveryResult) (existing : Option OAuthIssuer) :
    ConsoleLawful ports signed i (.inspectOAuthIssuer ctx stackId text)
      (commitInspectOAuthIssuer i (inspectPlan ports i ctx stackId issuer audience discovered existing)) := by
  refine lawful_consoleCommitOr (fun d u e d' h => ?_) fun e => ?_
  · obtain ⟨rfl, hstep⟩ := inspectBatch_ok (Nat.succ_ne_zero _) rfl rfl rfl h
    exact ⟨hstep, rfl, rfl, issuer, audience, discovered, rfl⟩
  · split
    · exact .bind (.read _) fun _ => .pure _
    · split
      · exact .pure _
      · exact .throw _

theorem lawful_inspectOAuthIssuer (ctx : Context) (stackId text : String) :
    ConsoleLawful ports signed i (.inspectOAuthIssuer ctx stackId text) (inspectOAuthIssuer ports i ctx stackId text) := by
  refine .bind (lawful_requireMember _ _) fun _ => .bind (.evaluate _) fun target => ?_
  obtain ⟨inspectIssuer, issuer, audience⟩ := target
  refine .bind (.read _) fun elsewhere => ?_
  cases elsewhere with
  | true => exact .pure _
  | false =>
    refine .bind (.read _) fun existing => .bind (.evaluate _) fun _ => .bind (.evaluate _) fun discovered => ?_
    refine .bind (lawful_commitInspectOAuthIssuer _ _ _ _ _ _ _) fun result => ?_
    cases result with
    | created => exact .pure _
    | issuerConflict => exact .pure _
    | revisionMismatch => exact .throw _

/-! ## Activations -/

/-- The record that an activation has read. -/
def ReadRecord (stackId : String) (row : OAuthIssuer) (d : ConsoleDb) : Prop := d.issuance.RecordSince stackId row

/-- The inspection that an activation has read. -/
def ReadInspection (inspectionId : String) (inspection : Inspection) (d : ConsoleDb) : Prop :=
  d.issuance.InspectionSince inspectionId inspection

theorem requirePending_ok {current : Option OAuthIssuer} {ifMatch : Option String} {row : OAuthIssuer}
    (h : requirePending current ifMatch = .ok row) : current = some row := by
  unfold requirePending at h
  split at h
  · cases h
  · split at h
    · cases h
    · rename_i found _
      cases hmatch : requireIfMatch ifMatch found.revision with
      | error e =>
        rw [hmatch] at h
        cases h
      | ok u =>
        rw [hmatch] at h
        cases h
        rfl

theorem requireInspection_ok {found : Option Inspection} {stackId : String} {now : Int} {current : OAuthIssuer}
    {inspection : Inspection} (h : requireInspection found stackId now current = .ok inspection) :
    found = some inspection ∧ Matches inspection current := by
  unfold requireInspection at h
  split at h
  · cases h
  · split at h
    · cases h
    · split at h
      · rename_i hsame
        cases h
        simp only [sameIssuer, Bool.and_eq_true, decide_eq_true_eq] at hsame
        exact ⟨rfl, hsame.1.1.1, hsame.1.1.2, hsame.1.2, hsame.2⟩
      · cases h

theorem requireChallenge_ok {proof inspectionId challenge : String} {inspection : Inspection}
    (h : requireChallenge ports proof inspectionId inspection = .ok challenge) :
    ports.sha256Hex challenge = inspection.challengeHash := by
  unfold requireChallenge at h
  split at h
  · cases h
  · split at h
    · cases h
    · split at h
      · rename_i hchecks
        cases h
        exact hchecks.2.1
      · cases h

theorem requireSignature_ok {proof challenge : String} {keys : List (String × InspectionKey)}
    (hverify : ∀ proof jwk algorithm payload kid, ports.compactVerify proof jwk algorithm = some (payload, kid) →
      signed jwk payload) (h : requireSignature ports proof challenge keys = .ok ()) :
    ∃ kid key, (kid, key) ∈ keys ∧ signed key.publicJwk challenge := by
  unfold requireSignature at h
  split at h
  · cases h
  · split at h
    · cases h
    · rename_i kid key hfind
      split at h
      · rename_i hchecks
        have hproof := hchecks.2
        unfold verifyCompactJwsProof at hproof
        split at hproof
        · rename_i payload kid' hjws
          simp only [Bool.and_eq_true, decide_eq_true_eq] at hproof
          refine ⟨kid, key, List.mem_of_find?_eq_some hfind, ?_⟩
          rw [← hproof.2]
          exact hverify _ _ _ _ _ hjws
        · cases hproof
      · cases h

theorem mem_listOAuthIssuerInspectionKeys {d : ConsoleDb} {inspectionId kid : String} {key : InspectionKey}
    (h : (kid, key) ∈ d.listOAuthIssuerInspectionKeys inspectionId) :
    d.inspectionKeys.lookup (inspectionId, kid) = some key := by
  unfold ConsoleDb.listOAuthIssuerInspectionKeys at h
  rw [List.mem_insertionSort] at h
  obtain ⟨⟨⟨id, kid'⟩, row⟩, hmem, heq⟩ := List.mem_map.mp h
  cases heq
  obtain ⟨hrow, hid⟩ := AList.mem_rows.mp hmem
  obtain rfl : id = inspectionId := by simpa using hid
  exact hrow

theorem lawful_activateOAuthIssuer (hverify : ∀ proof jwk algorithm payload kid,
      ports.compactVerify proof jwk algorithm = some (payload, kid) → signed jwk payload)
    (ctx : Context) (stackId inspectionId proof : String) (ifMatch : Option String) :
    ConsoleLawful ports signed i (.activateOAuthIssuer ctx stackId inspectionId proof ifMatch)
      (activateOAuthIssuer ports i ctx stackId inspectionId proof ifMatch) := by
  refine .bind (lawful_requireMember _ _) fun _ => ?_
  refine System.LawfulFrom.read_bind (R := fun current d => ∀ row, current = some row → ReadRecord stackId row d)
    (fun _ _ _ _ _ => trivial) (fun _ _ _ _ hs h row hrow => Issuance.recordSince_of_step hs.issuance (h row hrow)) ?_
    fun current => ?_
  · intro d _ row hrow
    exact ⟨row, hrow, .inl rfl⟩
  refine System.LawfulFrom.evaluate_bind fun row hpending => ?_
  obtain rfl := requirePending_ok hpending
  refine System.LawfulFrom.read_bind (R := fun found d => ∀ inspection, found = some inspection →
    ReadInspection inspectionId inspection d) ?_ ?_ ?_ fun found => ?_
  · exact fun _ _ _ hs h => ⟨trivial, fun r hr => Issuance.recordSince_of_step hs.issuance (h.2 r hr)⟩
  · exact fun _ _ _ _ hs h inspection hi => Issuance.inspectionSince_of_step hs.issuance (h inspection hi)
  · intro d _ inspection hfound
    exact ⟨inspection.usedAt, inspection.revision, hfound⟩
  refine System.LawfulFrom.evaluate_bind fun inspection hinspection => ?_
  obtain ⟨rfl, hmatches⟩ := requireInspection_ok hinspection
  refine System.LawfulFrom.evaluate_bind fun challenge hchallenge => ?_
  refine System.LawfulFrom.read_bind (R := fun keys d => ∀ kid key, (kid, key) ∈ keys →
    d.issuance.key (inspectionId, kid) = some key) ?_ ?_ ?_ fun keys => ?_
  · exact fun _ _ _ hs h => ⟨⟨trivial, fun r hr => Issuance.recordSince_of_step hs.issuance (h.1.2 r hr)⟩,
      fun r hr => Issuance.inspectionSince_of_step hs.issuance (h.2 r hr)⟩
  · exact fun _ _ _ _ hs h kid key hmem => Issuance.key_kept hs.issuance (h kid key hmem)
  · exact fun d _ kid key hmem => mem_listOAuthIssuerInspectionKeys hmem
  refine System.LawfulFrom.evaluate_bind fun _ hsignature => ?_
  obtain ⟨kid, key, hlisted, hsigned⟩ := requireSignature_ok hverify hsignature
  refine System.LawfulFrom.then ?_ fun result => ?_
  · refine System.LawfulFrom.tryCatch (System.LawfulFrom.then (System.LawfulFrom.batch ?_) fun _ => .pure _) fun e => ?_
    · rintro d u e d' ⟨⟨⟨_, hrecord⟩, hsince⟩, hkeys⟩ h
      obtain ⟨rfl, hstep⟩ := activateBatch_ok (hrecord row rfl) rfl (hsince inspection rfl) hmatches
        ⟨kid, key, challenge, hkeys kid key hlisted, hsigned, requireChallenge_ok hchallenge⟩ h
      exact ⟨hstep, rfl, rfl, rfl⟩
    · split
      · exact .bind (.read _) fun _ => .pure _
      · exact .throw _
  · cases result with
    | activated => exact .pure _
    | unavailable => exact .throw _
    | revisionMismatch => exact .throw _

/-! ## All operations -/

theorem console_serves (hverify : ∀ proof jwk algorithm payload kid,
      ports.compactVerify proof jwk algorithm = some (payload, kid) → signed jwk payload) :
    Serves (consoleSystem ports signed) .storage (consoleServe ports) fun _ _ _ _ => True := by
  intro i q
  refine Triple.pre (P := fun _ => True) ?_ fun _ _ _ => trivial
  cases q with
  | control request => exact lawful_control request
  | patchManagedOAuthIssuer ctx stackId enabled ifMatch =>
    exact System.Lawful.tryCatch (lawful_patchManagedOAuthIssuer _ _ _ _) fun _ => .pure _
  | inspectOAuthIssuer ctx stackId issuer => exact System.Lawful.tryCatch (lawful_inspectOAuthIssuer _ _ _) fun _ => .pure _
  | activateOAuthIssuer ctx stackId inspectionId proof ifMatch =>
    exact System.Lawful.tryCatch (lawful_activateOAuthIssuer hverify _ _ _ _ _) fun _ => .pure _

/-! ## Gates -/

/-- The identity of a mutation of a stack, with the stack. -/
def ConsoleRequest.mutates : ConsoleRequest → Option (String × IdentityKey)
  | .control (.patchStack ctx stackId _ _ _) => some (stackId, ctx.identity)
  | .control (.createMemberInvitation ctx stackId _ _) => some (stackId, ctx.identity)
  | .control (.deleteMember ctx stackId _ _) => some (stackId, ctx.identity)
  | .patchManagedOAuthIssuer ctx stackId _ _ => some (stackId, ctx.identity)
  | .inspectOAuthIssuer ctx stackId _ => some (stackId, ctx.identity)
  | .activateOAuthIssuer ctx stackId _ _ _ => some (stackId, ctx.identity)
  | _ => none

/-- What follows on a membership that is not there makes no call. -/
theorem gated_guarded (identity : IdentityKey) (stackId : String) (g : Unit → AdminProg Response) :
    Gated (fun d : Db => (stackId, identity) ∈ d.members) (guarded (requireMember identity stackId >>= g)) := by
  refine ⟨fun d hd => ?_, fun e => ⟨_, rfl⟩⟩
  have hno : d.hasMembership identity stackId = false := decide_eq_false hd
  simp only [hno, Prog.bind]
  exact ⟨_, rfl⟩

theorem gated_consoleGuarded (identity : IdentityKey) (stackId : String) (g : Unit → ConsoleProg ConsoleResponse) :
    Gated (fun d : ConsoleDb => (stackId, identity) ∈ d.control.members)
      (consoleGuarded (consoleRequireMember identity stackId >>= g)) := by
  refine ⟨fun d hd => ?_, fun e => ⟨_, rfl⟩⟩
  have hno : d.control.hasMembership identity stackId = false := decide_eq_false hd
  simp only [controlPart, hno, Prog.bind]
  exact ⟨_, rfl⟩

/-- A mutation of a stack reads first whether its identity is a member. -/
theorem gated_consoleServe {k : String × IdentityKey} (h : q.mutates = some k) :
    Gated (fun d : ConsoleDb => k ∈ d.control.members) (consoleServe ports i q) := by
  cases q with
  | control request =>
    have hlift : Gated (fun d : Db => k ∈ d.members) (serve ports.toPorts i request) := by
      cases request with
      | patchStack ctx stackId displayName description ifMatch =>
        cases h
        exact gated_guarded _ _ _
      | createMemberInvitation ctx stackId emailConstraint key =>
        cases h
        exact gated_guarded _ _ _
      | deleteMember ctx stackId identity ifMatch =>
        cases h
        exact gated_guarded _ _ _
      | _ => cases h
    exact (hlift.lift controlPart).bind_pure ConsoleResponse.admin
  | patchManagedOAuthIssuer ctx stackId enabled ifMatch =>
    cases h
    exact gated_consoleGuarded _ _ _
  | inspectOAuthIssuer ctx stackId issuer =>
    cases h
    exact gated_consoleGuarded _ _ _
  | activateOAuthIssuer ctx stackId inspectionId proof ifMatch =>
    cases h
    exact gated_consoleGuarded _ _ _

end UniDocs.Control
