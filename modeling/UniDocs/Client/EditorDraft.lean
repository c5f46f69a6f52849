import UniDocs.Codec.Binary

/-!
# The editor draft

`EditorDraft` collects edits over a committed version until the host asks for a candidate. Its methods put their work on one
queue; what a method does before it is queued happens at the call. The document, its operations and `applyOne` are
parameters, as are the outcomes of the renderer and the identifiers that are generated.
-/

namespace UniDocs.Client

open UniDocs.Codec

section Draft

variable (Doc Op : Type)

structure DraftCandidate where
  candidateId : String
  baseVersion : Nat
  sequence : Nat
  operations : List Op
  deriving DecidableEq, Repr

inductive DraftCommitResult where
  | committed (version : Int)
  | rejected
  | unknown
  deriving DecidableEq, Repr

structure DraftCheckpoint where
  schema : Nat
  doc : Doc
  baseVersion : Nat
  sequence : Nat
  operations : List Op
  candidate : Option (DraftCandidate Op)
  deriving DecidableEq, Repr

/-- The fields of `EditorDraft`; the results of completed candidates by their identifiers. -/
structure EditorDraft where
  doc : Doc
  baseVersion : Nat
  operations : List Op := []
  sequence : Nat := 0
  candidate : Option (DraftCandidate Op) := none
  completed : List (String × DraftCommitResult) := []
  frozen : Bool := false
  renderFailed : Bool := false
  deriving DecidableEq, Repr

/-- What the renderer and the identifier generator do during one queued action. -/
structure Environment where
  applyOp : Except String (Int × Int × Int × Int)
  reset : Except String Unit
  generateId : String

end Draft

variable {Doc Op : Type} (applyOne : Doc → Op → Except String Doc)

namespace EditorDraft

/-- The constructor. -/
def create (doc : Doc) (baseVersion : Nat) : Except String (EditorDraft Doc Op) :=
  if maxSafeInteger < baseVersion ∨ baseVersion < 1 then .error "Invalid base version"
  else .ok { doc, baseVersion }

def dirty (draft : EditorDraft Doc Op) : Bool := !draft.operations.isEmpty

/-- The action of `checkpoint`. -/
def checkpoint (draft : EditorDraft Doc Op) : DraftCheckpoint Doc Op where
  schema := 1
  doc := draft.doc
  baseVersion := draft.baseVersion
  sequence := draft.sequence
  operations := draft.operations
  candidate := draft.candidate

def restore (checkpoint : DraftCheckpoint Doc Op) : Except String (EditorDraft Doc Op) := do
  if checkpoint.schema ≠ 1 ∨ maxSafeInteger < checkpoint.sequence ∨ checkpoint.sequence < checkpoint.operations.length then
    throw "Invalid draft checkpoint"
  let draft ← create checkpoint.doc checkpoint.baseVersion
  let draft := { draft with sequence := checkpoint.sequence, operations := checkpoint.operations }
  match checkpoint.candidate with
  | none => return draft
  | some candidate =>
    if candidate.baseVersion ≠ checkpoint.baseVersion ∨ candidate.sequence ≠ checkpoint.sequence
        ∨ candidate.operations.length ≠ checkpoint.operations.length ∨ checkpoint.operations.isEmpty then
      throw "Invalid pending candidate"
    return { draft with candidate := some candidate, frozen := true }

/-- The action of `applyLocal`. -/
def applyLocal (draft : EditorDraft Doc Op) (operation : Op) (environment : Environment) :
    Except String (Int × Int × Int × Int) × EditorDraft Doc Op :=
  if draft.renderFailed then (.error "Renderer recovery required", draft)
  else
    match applyOne draft.doc operation with
    | .error e => (.error e, draft)
    | .ok next =>
      match environment.applyOp with
      | .ok rect =>
        (.ok rect, { draft with
          doc := next
          operations := draft.operations ++ [operation]
          sequence := draft.sequence + 1 })
      | .error e =>
        match environment.reset with
        | .ok () => (.error e, draft)
        | .error _ => (.error e, { draft with renderFailed := true })

/-- The action of `prepareCommit`. -/
def prepareCommit (draft : EditorDraft Doc Op) (environment : Environment) :
    Except String (DraftCandidate Op) × EditorDraft Doc Op :=
  match draft.candidate with
  | some candidate => (.ok candidate, draft)
  | none =>
    if draft.renderFailed || !draft.dirty then
      (.error (if draft.renderFailed then "Renderer recovery required" else "No changes"), { draft with frozen := false })
    else
      let candidate : DraftCandidate Op := {
        candidateId := environment.generateId
        baseVersion := draft.baseVersion
        sequence := draft.sequence
        operations := draft.operations
      }
      (.ok candidate, { draft with candidate := some candidate })

/-- The action of `acceptResult`. -/
def acceptResult (draft : EditorDraft Doc Op) (candidateId : String) (result : DraftCommitResult) :
    Except String Unit × EditorDraft Doc Op :=
  match draft.completed.lookup candidateId with
  | some completed =>
    if completed = result then (.ok (), draft) else (.error "Conflicting result for completed candidate", draft)
  | none =>
    match draft.candidate with
    | none => (.error "Unknown candidate", draft)
    | some candidate =>
      if candidate.candidateId ≠ candidateId then (.error "Unknown candidate", draft)
      else
        match result with
        | .unknown => (.ok (), draft)
        | .committed version =>
          if version ≠ candidate.baseVersion + 1 ∨ (maxSafeInteger : Int) < version then
            (.error "Invalid committed version", draft)
          else
            (.ok (), { draft with
              baseVersion := version.toNat
              operations := []
              completed := (candidateId, result) :: draft.completed
              candidate := none
              frozen := false })
        | .rejected =>
          (.ok (), { draft with
            completed := (candidateId, result) :: draft.completed
            candidate := none
            frozen := false })

/-- The action of `recoverRenderer`. -/
def recoverRenderer (draft : EditorDraft Doc Op) (environment : Environment) : Except String Unit × EditorDraft Doc Op :=
  match environment.reset with
  | .ok () => (.ok (), { draft with renderFailed := false })
  | .error e => (.error e, draft)

end EditorDraft

/-! ## Calls, the queue and what was promised -/

/-- The calls of a draft, which are also the actions that wait on its queue. -/
inductive Action (Op : Type) where
  | applyLocal (operation : Op)
  | prepareCommit
  | acceptResult (candidateId : String) (result : DraftCommitResult)
  | checkpoint
  | recoverRenderer
  deriving DecidableEq, Repr

/-- What was promised to the callers: the committed version the draft began with, the operations whose `applyLocal` resolved
and the candidates that were reported committed, both in order. A checkpoint is kept with the promises of its moment. -/
structure History (Doc Op : Type) where
  doc : Doc
  baseVersion : Nat
  resolved : List Op := []
  reported : List (DraftCandidate Op) := []
  deriving DecidableEq, Repr

/-- A draft with its queue, and the checkpoints that were handed out. -/
structure Session (Doc Op : Type) where
  draft : EditorDraft Doc Op
  queue : List (Action Op) := []
  history : History Doc Op
  checkpoints : List (DraftCheckpoint Doc Op × History Doc Op) := []
  deriving DecidableEq, Repr

/-- A call, the next queued action, or a new draft from a checkpoint that was handed out. -/
inductive Event (Op : Type) where
  | call (action : Action Op)
  | run (environment : Environment)
  | restore (index : Nat)

namespace Session

/-- What happens at a call: `applyLocal` is rejected while the draft is frozen, `prepareCommit` freezes it. -/
def call (session : Session Doc Op) (action : Action Op) : Session Doc Op :=
  match action with
  | .applyLocal _ =>
    if session.draft.frozen then session else { session with queue := session.queue ++ [action] }
  | .prepareCommit =>
    { session with draft := { session.draft with frozen := true }, queue := session.queue ++ [action] }
  | _ => { session with queue := session.queue ++ [action] }

/-- The candidate that a result reports as committed, when the draft takes the result. -/
def newlyReported (draft : EditorDraft Doc Op) (candidateId : String) (result : DraftCommitResult) :
    List (DraftCandidate Op) :=
  match result, (draft.acceptResult candidateId result).1, draft.completed.lookup candidateId with
  | .committed _, .ok _, none => draft.candidate.toList
  | _, _, _ => []

/-- Runs an action from the queue. -/
def runAction (session : Session Doc Op) (action : Action Op) (environment : Environment) : Session Doc Op :=
  match action with
  | .applyLocal operation =>
    let (answer, draft) := session.draft.applyLocal applyOne operation environment
    let resolved := match answer with
      | .ok _ => session.history.resolved ++ [operation]
      | .error _ => session.history.resolved
    { session with draft, history := { session.history with resolved } }
  | .prepareCommit => { session with draft := (session.draft.prepareCommit environment).2 }
  | .acceptResult candidateId result =>
    { session with
      draft := (session.draft.acceptResult candidateId result).2
      history := { session.history with
        reported := session.history.reported ++ newlyReported session.draft candidateId result } }
  | .checkpoint => { session with checkpoints := session.checkpoints ++ [(session.draft.checkpoint, session.history)] }
  | .recoverRenderer => { session with draft := (session.draft.recoverRenderer environment).2 }

/-- One event. -/
def step (session : Session Doc Op) (event : Event Op) : Session Doc Op :=
  match event with
  | .call action => session.call action
  | .run environment =>
    match session.queue with
    | [] => session
    | action :: queue => runAction applyOne { session with queue } action environment
  | .restore index =>
    match session.checkpoints[index]? with
    | none => session
    | some (checkpoint, history) =>
      match EditorDraft.restore checkpoint with
      | .error _ => session
      | .ok draft => { session with draft, queue := [], history }

end Session

end UniDocs.Client
