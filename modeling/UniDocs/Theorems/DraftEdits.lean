import UniDocs.Lib.Machine
import UniDocs.Lib.Result
import UniDocs.Client.EditorDraft

/-!
# A draft loses no edit

As long as no candidate is made while an edit can still reach the queue's end before it, the document of a draft is the
committed one with its operations applied, the operations are those of the outstanding candidate, and every edit that was
confirmed to its caller is either still in the draft or was reported committed.
-/

namespace UniDocs.Client

open Lib

variable {Doc Op : Type} {applyOne : Doc → Op → Except String Doc}

/-- Applies operations in order. -/
def applyAll (applyOne : Doc → Op → Except String Doc) : Doc → List Op → Except String Doc
  | doc, [] => .ok doc
  | doc, operation :: operations => do
    let doc ← applyOne doc operation
    applyAll applyOne doc operations

theorem applyAll_append {doc middle final : Doc} {first second : List Op} (h : applyAll applyOne doc first = .ok middle)
    (h' : applyAll applyOne middle second = .ok final) : applyAll applyOne doc (first ++ second) = .ok final := by
  induction first generalizing doc with
  | nil =>
    cases h
    exact h'
  | cons operation first ih =>
    obtain ⟨next, hnext, hrest⟩ := bind_ok_iff.mp h
    exact bind_ok_iff.mpr ⟨next, hnext, ih hrest⟩

/-- The operations of the candidates that were reported committed. -/
def History.committed (history : History Doc Op) : List Op := history.reported.flatMap DraftCandidate.operations

/-- The claim about one state: the document is the one committed at `baseVersion` with the operations applied in order; an
outstanding candidate holds the operations of a frozen draft; and what `applyLocal` confirmed is kept, in order, in what was
committed and what is still in the draft. -/
structure NoEditLost (applyOne : Doc → Op → Except String Doc) (session : Session Doc Op) : Prop where
  document : ∃ committed, applyAll applyOne session.history.doc session.history.committed = .ok committed
    ∧ session.draft.baseVersion = session.history.baseVersion + session.history.reported.length
    ∧ applyAll applyOne committed session.draft.operations = .ok session.draft.doc
  candidate : ∀ candidate, session.draft.candidate = some candidate →
    session.draft.frozen = true ∧ session.draft.operations = candidate.operations
  kept : session.history.resolved = session.history.committed ++ session.draft.operations

/-! ## The invariant -/

/-- What a checkpoint and the draft it was taken from have in common. -/
structure Sound (applyOne : Doc → Op → Except String Doc) (doc : Doc) (baseVersion : Nat) (operations : List Op)
    (candidate : Option (DraftCandidate Op)) (history : History Doc Op) : Prop where
  document : ∃ committed, applyAll applyOne history.doc history.committed = .ok committed
    ∧ baseVersion = history.baseVersion + history.reported.length ∧ applyAll applyOne committed operations = .ok doc
  candidate : ∀ c ∈ candidate, operations = c.operations ∧ baseVersion = c.baseVersion
  kept : history.resolved = history.committed ++ operations

/-- No edit waits on the queue. -/
def NoEdits (queue : List (Action Op)) : Prop := ∀ operation, Action.applyLocal operation ∉ queue

/-- The invariant of a session. -/
structure Inv (applyOne : Doc → Op → Except String Doc) (session : Session Doc Op) : Prop where
  draft : Sound applyOne session.draft.doc session.draft.baseVersion session.draft.operations session.draft.candidate
    session.history
  closed : session.draft.candidate.isSome → session.draft.frozen = true ∧ NoEdits session.queue
  checkpoints : ∀ entry ∈ session.checkpoints,
    Sound applyOne entry.1.doc entry.1.baseVersion entry.1.operations entry.1.candidate entry.2

theorem Inv.noEditLost {session : Session Doc Op} (h : Inv applyOne session) : NoEditLost applyOne session where
  document := h.draft.document
  candidate := by
    intro candidate hsome
    exact ⟨(h.closed (by simp [hsome])).1, (h.draft.candidate candidate hsome).1⟩
  kept := h.draft.kept

/-- The queued action makes a candidate. -/
def makesCandidate (draft : EditorDraft Doc Op) : Bool := draft.candidate.isNone && !draft.renderFailed && draft.dirty

/-- Whether an action is an edit. -/
def Action.isEdit : Action Op → Bool
  | .applyLocal _ => true
  | _ => false

/-- A queued `prepareCommit` that makes a candidate finds the draft frozen and no edit behind it on the queue. -/
def orderly (session : Session Doc Op) (event : Event Op) : Bool :=
  match event, session.queue with
  | .run _, .prepareCommit :: queue =>
    !makesCandidate session.draft || (session.draft.frozen && queue.all fun action => !action.isEdit)
  | _, _ => true

theorem noEdits_of_all {queue : List (Action Op)} (h : (queue.all fun action => !action.isEdit) = true) : NoEdits queue := by
  intro operation hmem
  have hedit := List.all_eq_true.mp h _ hmem
  simp [Action.isEdit] at hedit

/-! ## Steps -/

/-- A call keeps the invariant: no edit is queued on a frozen draft. -/
theorem Inv.call {session : Session Doc Op} (h : Inv applyOne session) (action : Action Op) :
    Inv applyOne (session.call action) := by
  cases action with
  | applyLocal operation =>
    rw [Session.call]
    split_ifs with hfrozen
    · exact h
    · refine ⟨h.draft, ?_, h.checkpoints⟩
      intro hsome
      exact absurd (h.closed hsome).1 hfrozen
  | prepareCommit =>
    refine ⟨h.draft, ?_, h.checkpoints⟩
    intro hsome
    refine ⟨rfl, ?_⟩
    intro operation hmem
    simp only [Session.call, List.mem_append, List.mem_singleton, reduceCtorEq, or_false] at hmem
    exact (h.closed hsome).2 operation hmem
  | acceptResult candidateId result | checkpoint | recoverRenderer =>
    refine ⟨h.draft, ?_, h.checkpoints⟩
    intro hsome
    refine ⟨(h.closed hsome).1, ?_⟩
    intro operation hmem
    simp only [Session.call, List.mem_append, List.mem_singleton, reduceCtorEq, or_false] at hmem
    exact (h.closed hsome).2 operation hmem

/-- An edit runs only while no candidate is outstanding; it is added to the document and to what was confirmed. -/
theorem Inv.runApplyLocal {session : Session Doc Op} (h : Inv applyOne session) (hnone : session.draft.candidate = none)
    (operation : Op) (environment : Environment) :
    Inv applyOne (session.runAction applyOne (.applyLocal operation) environment) := by
  simp only [Session.runAction, EditorDraft.applyLocal]
  split_ifs with hfailed
  · exact h
  cases happly : applyOne session.draft.doc operation with
  | error e => exact h
  | ok next =>
    cases hrender : environment.applyOp with
    | error e =>
      cases hreset : environment.reset with
      | ok u => exact h
      | error e' => exact ⟨h.draft, h.closed, h.checkpoints⟩
    | ok rect =>
      obtain ⟨⟨committed, hcommitted, hversion, hdoc⟩, _, hkept⟩ := h.draft
      refine ⟨⟨⟨committed, hcommitted, hversion, ?_⟩, ?_, ?_⟩, ?_, h.checkpoints⟩
      · refine applyAll_append hdoc ?_
        simp only [applyAll, happly, bind, Except.bind]
      · intro c hc
        simp [hnone] at hc
      · have hkept' : session.history.resolved ++ [operation]
            = session.history.committed ++ (session.draft.operations ++ [operation]) := by
          rw [hkept, List.append_assoc]
        exact hkept'
      · intro hsome
        simp [hnone] at hsome

theorem prepareCommit_cases (draft : EditorDraft Doc Op) (environment : Environment) :
    (draft.prepareCommit environment).2 = draft
      ∨ draft.candidate = none ∧ (draft.prepareCommit environment).2 = { draft with frozen := false }
      ∨ makesCandidate draft = true ∧ (draft.prepareCommit environment).2 = { draft with
          candidate := some ⟨environment.generateId, draft.baseVersion, draft.sequence, draft.operations⟩ } := by
  rw [EditorDraft.prepareCommit]
  cases hcandidate : draft.candidate with
  | some candidate => exact Or.inl rfl
  | none =>
    by_cases hrefused : (draft.renderFailed || !draft.dirty) = true
    · simp only [if_pos hrefused]
      exact Or.inr (Or.inl ⟨trivial, trivial⟩)
    · simp only [if_neg hrefused]
      refine Or.inr (Or.inr ⟨?_, trivial⟩)
      simp only [Bool.or_eq_true, Bool.not_eq_true', not_or, Bool.not_eq_true, Bool.not_eq_false] at hrefused
      simp [makesCandidate, hcandidate, hrefused]

theorem Inv.runPrepareCommit {session : Session Doc Op} (h : Inv applyOne session) (environment : Environment)
    (horderly : makesCandidate session.draft = true → session.draft.frozen = true ∧ NoEdits session.queue) :
    Inv applyOne (session.runAction applyOne .prepareCommit environment) := by
  rw [Session.runAction]
  rcases prepareCommit_cases session.draft environment with heq | ⟨hnone, heq⟩ | ⟨hmakes, heq⟩
  · rw [heq]
    exact h
  · rw [heq]
    refine ⟨h.draft, ?_, h.checkpoints⟩
    intro hsome
    simp [hnone] at hsome
  · rw [heq]
    refine ⟨⟨h.draft.document, ?_, h.draft.kept⟩, fun _ => horderly hmakes, h.checkpoints⟩
    intro c hc
    cases hc
    exact ⟨rfl, rfl⟩

/-- `acceptResult` leaves the draft alone, or settles the outstanding candidate as rejected or as committed. -/
theorem acceptResult_cases (draft : EditorDraft Doc Op) (candidateId : String) (result : DraftCommitResult) :
    (draft.acceptResult candidateId result).2 = draft ∧ Session.newlyReported draft candidateId result = []
      ∨ (draft.acceptResult candidateId result).2 = { draft with
          completed := (candidateId, result) :: draft.completed, candidate := none, frozen := false }
        ∧ Session.newlyReported draft candidateId result = []
      ∨ ∃ candidate, draft.candidate = some candidate ∧ (draft.acceptResult candidateId result).2 = { draft with
          baseVersion := candidate.baseVersion + 1, operations := [],
          completed := (candidateId, result) :: draft.completed, candidate := none, frozen := false }
        ∧ Session.newlyReported draft candidateId result = [candidate] := by
  cases hcompleted : draft.completed.lookup candidateId with
  | some completed =>
    refine Or.inl ⟨?_, ?_⟩
    · simp only [EditorDraft.acceptResult, hcompleted]
      split_ifs <;> rfl
    · cases result <;> simp [Session.newlyReported, hcompleted]
  | none =>
    cases hcandidate : draft.candidate with
    | none =>
      refine Or.inl ⟨by simp [EditorDraft.acceptResult, hcompleted, hcandidate], ?_⟩
      cases result <;> simp [Session.newlyReported, EditorDraft.acceptResult, hcompleted, hcandidate]
    | some candidate =>
      by_cases hid : candidate.candidateId = candidateId
      case neg =>
        refine Or.inl ⟨by simp [EditorDraft.acceptResult, hcompleted, hcandidate, hid], ?_⟩
        cases result <;> simp [Session.newlyReported, EditorDraft.acceptResult, hcompleted, hcandidate, hid]
      cases result with
      | unknown =>
        exact Or.inl ⟨by simp [EditorDraft.acceptResult, hcompleted, hcandidate, hid], by simp [Session.newlyReported]⟩
      | rejected =>
        exact Or.inr (Or.inl
          ⟨by simp [EditorDraft.acceptResult, hcompleted, hcandidate, hid], by simp [Session.newlyReported]⟩)
      | committed version =>
        by_cases hversion : version ≠ candidate.baseVersion + 1 ∨ (Codec.maxSafeInteger : Int) < version
        · exact Or.inl
            ⟨by simp only [EditorDraft.acceptResult, hcompleted, hcandidate, hid, ne_eq, not_true_eq_false, if_false,
                if_pos hversion],
              by simp only [Session.newlyReported, EditorDraft.acceptResult, hcompleted, hcandidate, hid, ne_eq,
                not_true_eq_false, if_false, if_pos hversion]⟩
        · have hnext : version.toNat = candidate.baseVersion + 1 := by omega
          exact Or.inr (Or.inr ⟨candidate, rfl,
            by simp only [EditorDraft.acceptResult, hcompleted, hcandidate, hid, ne_eq, not_true_eq_false, if_false,
                if_neg hversion, hnext],
              by simp only [Session.newlyReported, EditorDraft.acceptResult, hcompleted, hcandidate, hid, ne_eq,
                not_true_eq_false, if_false, if_neg hversion, Option.toList_some]⟩)

theorem committed_append (history : History Doc Op) (candidates : List (DraftCandidate Op)) :
    History.committed { history with reported := history.reported ++ candidates }
      = history.committed ++ candidates.flatMap DraftCandidate.operations :=
  List.flatMap_append

/-- A result settles the candidate it names, and a commit moves its operations to the committed version. -/
theorem Inv.runAcceptResult {session : Session Doc Op} (h : Inv applyOne session) (candidateId : String)
    (result : DraftCommitResult) (environment : Environment) :
    Inv applyOne (session.runAction applyOne (.acceptResult candidateId result) environment) := by
  rw [Session.runAction]
  rcases acceptResult_cases session.draft candidateId result with ⟨heq, hnew⟩ | ⟨heq, hnew⟩ | ⟨candidate, hsome, heq, hnew⟩
  · rw [heq, hnew, List.append_nil]
    exact h
  · rw [heq, hnew, List.append_nil]
    refine ⟨⟨h.draft.document, ?_, h.draft.kept⟩, ?_, h.checkpoints⟩
    · intro c hc
      cases hc
    · intro hsome
      cases hsome
  · rw [heq, hnew]
    obtain ⟨⟨committed, hcommitted, hversion, hdoc⟩, hcandidate, hkept⟩ := h.draft
    obtain ⟨hoperations, hbase⟩ := hcandidate candidate hsome
    have hcommitted' : History.committed { session.history with reported := session.history.reported ++ [candidate] }
        = session.history.committed ++ session.draft.operations := by
      rw [committed_append, hoperations]
      simp
    refine ⟨⟨⟨session.draft.doc, ?_, ?_, rfl⟩, ?_, ?_⟩, ?_, h.checkpoints⟩
    · rw [hcommitted']
      exact applyAll_append hcommitted hdoc
    · simp only [List.length_append, List.length_singleton]
      omega
    · intro c hc
      cases hc
    · rw [hcommitted', List.append_nil]
      exact hkept
    · intro hsome'
      cases hsome'

theorem Inv.runRecoverRenderer {session : Session Doc Op} (h : Inv applyOne session) (environment : Environment) :
    Inv applyOne (session.runAction applyOne .recoverRenderer environment) := by
  simp only [Session.runAction, EditorDraft.recoverRenderer]
  cases environment.reset with
  | ok u => exact ⟨h.draft, h.closed, h.checkpoints⟩
  | error e => exact h

/-- A checkpoint records a sound draft. -/
theorem Inv.runCheckpoint {session : Session Doc Op} (h : Inv applyOne session) (environment : Environment) :
    Inv applyOne (session.runAction applyOne .checkpoint environment) := by
  refine ⟨h.draft, h.closed, ?_⟩
  intro entry hentry
  rcases List.mem_append.mp hentry with hold | hnew
  · exact h.checkpoints entry hold
  · rw [List.mem_singleton] at hnew
    rw [hnew]
    exact h.draft

theorem restore_ok {checkpoint : DraftCheckpoint Doc Op} {draft : EditorDraft Doc Op}
    (h : EditorDraft.restore checkpoint = .ok draft) :
    draft.doc = checkpoint.doc ∧ draft.baseVersion = checkpoint.baseVersion ∧ draft.operations = checkpoint.operations
      ∧ draft.candidate = checkpoint.candidate ∧ (draft.candidate.isSome → draft.frozen = true) := by
  simp only [EditorDraft.restore, throw_bind, check_ok_iff, bind_ok_iff] at h
  obtain ⟨_, created, hcreate, h⟩ := h
  have hcreated : created = { doc := checkpoint.doc, baseVersion := checkpoint.baseVersion } := by
    rw [EditorDraft.create] at hcreate
    split_ifs at hcreate
    cases hcreate
    rfl
  subst hcreated
  cases hcandidate : checkpoint.candidate with
  | none =>
    rw [hcandidate] at h
    cases h
    exact ⟨rfl, rfl, rfl, rfl, by simp⟩
  | some candidate =>
    rw [hcandidate] at h
    simp only [check_ok_iff] at h
    cases h.2
    exact ⟨rfl, rfl, rfl, rfl, fun _ => rfl⟩

theorem Inv.step {session : Session Doc Op} (h : Inv applyOne session) (event : Event Op)
    (horderly : orderly session event = true) : Inv applyOne (session.step applyOne event) := by
  cases event with
  | call action => exact h.call action
  | run environment =>
    rw [Session.step]
    cases hqueue : session.queue with
    | nil => exact h
    | cons action queue =>
      -- the action is taken off the queue first
      have hrest : Inv applyOne { session with queue } := by
        refine ⟨h.draft, ?_, h.checkpoints⟩
        intro hsome
        obtain ⟨hfrozen, hedits⟩ := h.closed hsome
        exact ⟨hfrozen, fun operation hmem => hedits operation (by rw [hqueue]; exact List.mem_cons_of_mem _ hmem)⟩
      cases action with
      | applyLocal operation =>
        refine hrest.runApplyLocal ?_ operation environment
        cases hcandidate : session.draft.candidate with
        | none => rfl
        | some candidate =>
          have hedits := (h.closed (by simp [hcandidate])).2
          exact absurd (by simp [hqueue]) (hedits operation)
      | prepareCommit =>
        refine hrest.runPrepareCommit environment ?_
        intro hmakes
        simp only [orderly, hqueue, hmakes, Bool.not_true, Bool.false_or, Bool.and_eq_true] at horderly
        exact ⟨horderly.1, noEdits_of_all horderly.2⟩
      | acceptResult candidateId result => exact hrest.runAcceptResult candidateId result environment
      | checkpoint => exact hrest.runCheckpoint environment
      | recoverRenderer => exact hrest.runRecoverRenderer environment
  | restore index =>
    rw [Session.step]
    cases hentry : session.checkpoints[index]? with
    | none => exact h
    | some entry =>
      obtain ⟨checkpoint, history⟩ := entry
      have hsound := h.checkpoints _ (List.mem_of_getElem? hentry)
      cases hrestore : EditorDraft.restore checkpoint with
      | error e => simpa only [hrestore] using h
      | ok draft =>
        obtain ⟨hdoc, hbase, hoperations, hcandidate, hfrozen⟩ := restore_ok hrestore
        simp only [hrestore]
        refine ⟨?_, fun hsome => ⟨hfrozen hsome, by simp [NoEdits]⟩, h.checkpoints⟩
        simp only [hdoc, hbase, hoperations, hcandidate]
        exact hsound

/-! ## The claim -/

/-- A draft as it begins. -/
def startSession (draft : EditorDraft Doc Op) : Session Doc Op where
  draft := draft
  history := { doc := draft.doc, baseVersion := draft.baseVersion }

/-- In every run of a new draft in which each `prepareCommit` that makes a candidate finds the draft frozen and no edit
behind it on the queue, no state has lost an edit. -/
theorem draft_loses_no_edit (applyOne : Doc → Op → Except String Doc) {doc : Doc} {baseVersion : Nat}
    {draft : EditorDraft Doc Op} (hdraft : EditorDraft.create doc baseVersion = .ok draft) (events : List (Event Op))
    (horderly : Machine.Guarded (Session.step applyOne) (fun session event => orderly session event = true)
      (startSession draft) events) :
    ∀ session ∈ Machine.states (Session.step applyOne) (startSession draft) events, NoEditLost applyOne session := by
  intro session hmem
  have hstart : Inv applyOne (startSession draft) := by
    rw [EditorDraft.create] at hdraft
    split_ifs at hdraft
    cases hdraft
    refine ⟨⟨⟨doc, rfl, rfl, rfl⟩, ?_, rfl⟩, ?_, ?_⟩
    · intro c hc
      cases hc
    · intro hsome
      cases hsome
    · intro entry hentry
      cases hentry
  have hstep : ∀ s e, Inv applyOne s → orderly s e = true → Inv applyOne (Session.step applyOne s e) :=
    fun s e hs he => hs.step e he
  exact (Machine.invariant_rule hstep hstart horderly session hmem).noEditLost

/-! ## Runs -/

/-- A document of numbers, to which an operation adds one. -/
def addNumber (doc : List Nat) (operation : Nat) : Except String (List Nat) := .ok (doc ++ [operation])

/-- A renderer that works, and an identifier. -/
def works (id : String) : Environment := ⟨.ok (0, 0, 1, 1), .ok (), id⟩

/-- An edit is prepared, rejected, and committed with a second edit. -/
def editAndCommit : List (Event Nat) :=
  [.call (.applyLocal 1), .call .prepareCommit, .run (works ""), .run (works "a"), .call (.acceptResult "a" .rejected),
    .run (works ""), .call (.applyLocal 2), .call .prepareCommit, .run (works ""), .run (works "b"),
    .call (.acceptResult "b" (.committed 2)), .run (works "")]

theorem draft_loses_no_edit_editAndCommit :
    NoEditLost addNumber (Machine.final (Session.step addNumber) (startSession ⟨[], 1, [], 0, none, [], false, false⟩)
        editAndCommit)
      ∧ (Machine.final (Session.step addNumber) (startSession ⟨[], 1, [], 0, none, [], false, false⟩)
        editAndCommit).history.resolved = [1, 2] := by
  refine ⟨?_, by decide⟩
  exact draft_loses_no_edit addNumber (rfl : EditorDraft.create [] 1 = .ok _) editAndCommit (by decide) _
    (Machine.final_mem_states _ _)

/-- A rejection and the next `prepareCommit` overlap on the queue: the rejection unfreezes the draft before the candidate is
made, and an edit goes in behind it. -/
def editBehindCandidate : List (Event Nat) :=
  [.call (.applyLocal 1), .call .prepareCommit, .run (works ""), .run (works "a"), .call (.acceptResult "a" .rejected),
    .call .prepareCommit, .run (works ""), .call (.applyLocal 2), .run (works "b"), .run (works ""),
    .call (.acceptResult "b" (.committed 2)), .run (works "")]

/-- The second edit was confirmed and is neither in the draft nor in a committed candidate, while the document shows it. -/
theorem draft_loses_no_edit_false :
    let session := Machine.final (Session.step addNumber) (startSession ⟨[], 1, [], 0, none, [], false, false⟩)
      editBehindCandidate
    session.history.resolved = [1, 2] ∧ session.history.committed = [1] ∧ session.draft.operations = []
      ∧ session.draft.doc = [1, 2] ∧ ¬ NoEditLost addNumber session := by
  refine ⟨by decide, by decide, by decide, by decide, ?_⟩
  intro h
  exact absurd h.kept (by decide)

end UniDocs.Client
