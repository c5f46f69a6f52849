import Mathlib.Algebra.Group.Nat.Defs
import UniDocs.Lib.JsMap
import UniDocs.Markdown.Markdown

/-!
# The Markdown editor service

Contexts of one `MarkdownEditorService`. A call runs from one `await` to the next without interruption; between those parts
other calls run, snapshots load or fail, and callers change the objects they have passed. Every reading of the clock has a
number, and so has every object that is put into the map of contexts, since `===` compares objects. Values that are not of
the declared shape are absent (`none`).
-/

namespace UniDocs.Markdown

open Lib

/-! ## Arguments -/

/-- `Omit<Invocation, "requestId">`. -/
structure Binding where
  actorId : String
  tenantId : String
  docId : String
  docType : String
  deriving DecidableEq, Repr

structure Invocation where
  requestId : String
  binding : Binding
  deriving DecidableEq, Repr

structure EditorContext where
  contextId : String
  sequence : Nat
  deriving DecidableEq, Repr

/-- `ChangeSet<MarkdownV1Operation>`: the contents of its `setContent` operations. -/
structure ChangeSet where
  operations : List JsString
  deriving DecidableEq, Repr

/-- `StateSource<MarkdownV1Operation>`; the base is an SBlob, given by its hash. -/
structure StateSource where
  schemaVersion : String
  base : Option String
  changes : List ChangeSet
  deriving DecidableEq, Repr

def markdownSchemaVersion : String := "markdown/1"

def isInvocation : Option Invocation → Bool
  | some ⟨requestId, ⟨actorId, tenantId, docId, docType⟩⟩ =>
    [requestId, actorId, tenantId, docId, docType].all fun text => text.length != 0
  | none => false

def isStateSource : Option StateSource → Bool
  | some source => source.schemaVersion.length != 0 && source.base.all fun hash => hash.length != 0
  | none => false

/-- `isEditorContext`; a sequence is a safe integer. -/
def isEditorContext : Option EditorContext → Bool
  | some context => context.contextId.length != 0 && decide (context.sequence ≤ 2 ^ 53 - 1)
  | none => false

/-- The error codes that the service answers with. -/
inductive ServiceErrorCode where
  | invalidRequest
  | unsupportedSchema
  | limitExceeded
  | resourceUnavailable
  | internalError
  | operationRejected
  | contextLost
  | sequenceConflict
  deriving DecidableEq, Repr

/-- The result of a call. -/
inductive ServiceResult where
  | context (context : EditorContext)
  | document (content : JsString)
  | failure (code : ServiceErrorCode) (message : String)
  deriving DecidableEq, Repr

/-- What a caller passes. -/
inductive Request where
  | init (invocation : Option Invocation) (source : Option StateSource)
  | apply (invocation : Option Invocation) (context : Option EditorContext) (changeSet : Option ChangeSet)
  | snapshot (invocation : Option Invocation) (context : Option EditorContext)

/-! ## State -/

/-- `StoredContext`. `object` is its identity; `origin` is the identity of the object with which the context began, which no
part of the service reads. -/
structure StoredContext where
  object : Nat
  origin : Nat
  binding : Binding
  sequence : Nat
  document : JsString
  expiresAt : Int
  deriving DecidableEq, Repr

/-- What a queued call does when its turn comes. -/
inductive QueuedAction where
  | apply (invocation : Invocation) (context : EditorContext) (changeSet : ChangeSet)
  | snapshot (invocation : Invocation) (context : EditorContext)

/-- Where a call stands: waiting for the snapshot of a new context, or for a change set to be applied to it; in the queue of
a context behind another call; waiting for its change set to be applied; with a result, and still in the queue or not. -/
inductive CallPhase where
  | idle
  | loading (binding : Binding) (changes : List ChangeSet) (base : Option String)
  | replaying (binding : Binding) (document : Except JsString JsString) (changes : List ChangeSet)
  | queued (previous : Option Nat) (contextId : String) (action : QueuedAction)
  | applying (invocation : Invocation) (contextId : String) (stored : StoredContext) (changeSet : ChangeSet)
      (document : Except JsString JsString)
  | settled (contextId : String) (result : ServiceResult)
  | done (result : ServiceResult)

/-- A success: a context that was made, a change set that was applied, or a document that was read. `readings` counts the
readings of the clock up to then. -/
inductive Note where
  | created (call : Nat) (contextId : String) (origin : Nat) (binding : Binding) (document : JsString) (expiresAt : Int)
  | applied (call : Nat) (contextId : String) (origin : Nat) (binding : Binding) (sequence : Nat) (changeSet : ChangeSet)
      (readings : Nat)
  | read (call : Nat) (contextId : String) (origin : Nat) (binding : Binding) (sequence : Nat) (document : JsString)
      (readings : Nat)

/-- The service, its calls and their callers: `args` are the objects that the callers hold. `asked` is what they held when
they called, and `log` lists the successes in their order; no part of the service reads these two. -/
structure Service where
  contexts : List (String × StoredContext)
  queues : List (String × Nat)
  initializing : Nat
  readings : Nat
  objects : Nat
  calls : Nat → CallPhase
  args : Nat → Option Request
  asked : Nat → Option Request
  log : List Note

/-- `contextTtlMs` and `maxContexts`, positive safe integers. -/
structure Options where
  contextTtlMs : Nat
  maxContexts : Nat
  valid : 0 < contextTtlMs ∧ contextTtlMs ≤ 2 ^ 53 - 1 ∧ 0 < maxContexts ∧ maxContexts ≤ 2 ^ 53 - 1

/-- The readings of the clock, which never go back. -/
structure Clock where
  now : Nat → Int
  monotone : ∀ i j, i ≤ j → now i ≤ now j

def applyChangeSet (canonicalize : UInt16 → UInt16) (document : JsString) (changeSet : ChangeSet) :
    Except JsString JsString :=
  apply canonicalize (changeSet.operations.map MOp.setContent) document

namespace Service

/-- A new service. -/
def start : Service := ⟨[], [], 0, 0, 0, fun _ => .idle, fun _ => none, fun _ => none, []⟩

/-- The service with a call in another phase. -/
def setCall (s : Service) (call : Nat) (phase : CallPhase) : Service :=
  { s with calls := Function.update s.calls call phase }

/-- The service after a success. -/
def note (s : Service) (note : Note) : Service := { s with log := s.log ++ [note] }

/-- The end of an initialization: its result, and the `finally` that gives back its place. -/
def finishInit (s : Service) (call : Nat) (result : ServiceResult) : Service :=
  { s with initializing := s.initializing - 1 }.setCall call (.done result)

section Parts

variable (canonicalize : UInt16 → UInt16) (options : Options) (clock : Clock)

def getContext (contextId : String) (s : Service) : Option StoredContext × Service :=
  match s.contexts.lookup contextId with
  | none => (none, s)
  | some stored =>
    if stored.expiresAt ≤ clock.now s.readings then
      (none, { s with contexts := JsMap.delete contextId s.contexts, readings := s.readings + 1 })
    else (some stored, { s with readings := s.readings + 1 })

def pruneExpired (s : Service) : Service :=
  (s.contexts.map Prod.fst).foldl (fun s contextId => (getContext clock contextId s).2) s

/-! ## Initialization -/

/-- `loadSnapshot` fails, gives what is not a document, or gives one. -/
inductive LoadAnswer where
  | failed
  | invalid
  | document (content : JsString)

/-- `createContextId` throws, gives what is not a string, or gives one. -/
inductive IdAnswer where
  | threw
  | notString
  | id (contextId : String)

/-- `init`, up to its first `await`. -/
def beginInit (s : Service) (call : Nat) (invocation : Option Invocation) (source : Option StateSource) : Service :=
  match invocation, source with
  | some invocation, some source =>
    if !(isInvocation (some invocation) && isStateSource (some source)) then
      s.setCall call (.done (.failure .invalidRequest "Invalid Markdown initialization"))
    else if invocation.binding.docType ≠ "markdown" then
      s.setCall call (.done (.failure .invalidRequest "Expected Markdown document type"))
    else if source.schemaVersion ≠ markdownSchemaVersion then
      s.setCall call (.done (.failure .unsupportedSchema "Unsupported Markdown schema"))
    else
      let s := s.pruneExpired clock
      if options.maxContexts ≤ s.contexts.length + s.initializing then
        s.setCall call (.done (.failure .limitExceeded "Editor context capacity reached"))
      else { s with initializing := s.initializing + 1 }.setCall call (.loading invocation.binding source.changes source.base)
  | _, _ => s.setCall call (.done (.failure .invalidRequest "Invalid Markdown initialization"))

/-- The end of `init`: the new context, under an id that is not taken. -/
def allocate (s : Service) (call : Nat) (binding : Binding) (document : JsString) (answer : IdAnswer) : Service :=
  match answer with
  | .threw => s.finishInit call (.failure .operationRejected "Invalid Markdown state or operation")
  | .notString => s.finishInit call (.failure .internalError "Cannot allocate a fresh editor context")
  | .id contextId =>
    if contextId.length = 0 || JsMap.has contextId s.contexts then
      s.finishInit call (.failure .internalError "Cannot allocate a fresh editor context")
    else
      let expiresAt := clock.now s.readings + options.contextTtlMs
      let stored : StoredContext := ⟨s.objects, s.objects, binding, 0, document, expiresAt⟩
      let made : Service :=
        { s with
          contexts := JsMap.set contextId stored s.contexts
          readings := s.readings + 1
          objects := s.objects + 1 }
      (made.note (.created call contextId s.objects binding document expiresAt)).finishInit call (.context ⟨contextId, 0⟩)

/-- `init` with a document: the next change set, which it awaits, or the new context. -/
def continueInit (s : Service) (call : Nat) (binding : Binding) (document : JsString) (changes : List ChangeSet)
    (answer : IdAnswer) : Service :=
  match changes with
  | changeSet :: changes => s.setCall call (.replaying binding (applyChangeSet canonicalize document changeSet) changes)
  | [] => s.allocate options clock call binding document answer

/-- `init`, after the base has been loaded. -/
def resumeInit (s : Service) (call : Nat) (binding : Binding) (changes : List ChangeSet) (base : Option String)
    (load : LoadAnswer) (answer : IdAnswer) : Service :=
  match base, load with
  | none, _ => s.continueInit canonicalize options clock call binding [] changes answer
  | some _, .failed => s.finishInit call (.failure .resourceUnavailable "Markdown snapshot is unavailable")
  | some _, .invalid => s.finishInit call (.failure .operationRejected "Invalid Markdown state or operation")
  | some _, .document content => s.continueInit canonicalize options clock call binding content changes answer

/-! ## Calls on a context -/

/-- `#serialize`: the call goes behind the last one on the context. -/
def enqueue (s : Service) (call : Nat) (contextId : String) (action : QueuedAction) : Service :=
  { s with queues := JsMap.set contextId call s.queues }.setCall call
    (.queued (s.queues.lookup contextId) contextId action)

/-- `apply`, up to its first `await`. -/
def beginApply (s : Service) (call : Nat) (invocation : Option Invocation) (context : Option EditorContext)
    (changeSet : Option ChangeSet) : Service :=
  match invocation, context with
  | some invocation, some context =>
    if !(isInvocation (some invocation) && isEditorContext (some context)) then
      s.setCall call (.done (.failure .invalidRequest "Invalid Markdown apply request"))
    else
      match changeSet with
      | none => s.setCall call (.done (.failure .operationRejected "Invalid Markdown changeset"))
      | some changeSet => s.enqueue call context.contextId (.apply invocation context changeSet)
  | _, _ => s.setCall call (.done (.failure .invalidRequest "Invalid Markdown apply request"))

/-- `snapshot`, up to its first `await`. -/
def beginSnapshot (s : Service) (call : Nat) (invocation : Option Invocation) (context : Option EditorContext) : Service :=
  match invocation, context with
  | some invocation, some context =>
    if !(isInvocation (some invocation) && isEditorContext (some context)) then
      s.setCall call (.done (.failure .invalidRequest "Invalid Markdown snapshot request"))
    else s.enqueue call context.contextId (.snapshot invocation context)
  | _, _ => s.setCall call (.done (.failure .invalidRequest "Invalid Markdown snapshot request"))

/-- The checks with which `#apply` and `#snapshot` begin, after the clock was read. -/
def checkContext (found : Option StoredContext) (invocation : Invocation) (context : EditorContext) :
    Except ServiceResult StoredContext :=
  match found with
  | none => .error (.failure .contextLost "Editor context is unavailable")
  | some stored =>
    if stored.binding ≠ invocation.binding then .error (.failure .contextLost "Editor context is unavailable")
    else if stored.sequence ≠ context.sequence then
      .error (.failure .sequenceConflict "Editor context sequence does not match")
    else .ok stored

/-- `#apply`, up to its `await`. -/
def runApply (s : Service) (call : Nat) (invocation : Invocation) (context : EditorContext) (changeSet : ChangeSet) : Service :=
  let (found, s) := getContext clock context.contextId s
  match checkContext found invocation context with
  | .error result => s.setCall call (.settled context.contextId result)
  | .ok stored =>
    if stored.sequence = 2 ^ 53 - 1 then
      s.setCall call (.settled context.contextId (.failure .limitExceeded "Editor context sequence exhausted"))
    else
      s.setCall call
        (.applying invocation context.contextId stored changeSet (applyChangeSet canonicalize stored.document changeSet))

/-- `#snapshot`. -/
def runSnapshot (s : Service) (call : Nat) (invocation : Invocation) (context : EditorContext) : Service :=
  let (found, s) := getContext clock context.contextId s
  match checkContext found invocation context with
  | .error result => s.setCall call (.settled context.contextId result)
  | .ok stored =>
    (s.note (.read call context.contextId stored.origin invocation.binding stored.sequence stored.document
      s.readings)).setCall call (.settled context.contextId (.document stored.document))

/-- `#apply`, after its `await`. -/
def finishApply (s : Service) (call : Nat) (invocation : Invocation) (contextId : String) (stored : StoredContext)
    (changeSet : ChangeSet) (document : Except JsString JsString) : Service :=
  match document with
  | .error _ => s.setCall call (.settled contextId (.failure .operationRejected "Invalid Markdown operation"))
  | .ok document =>
    let (found, s) := getContext clock contextId s
    if found.map StoredContext.object ≠ some stored.object then
      s.setCall call (.settled contextId (.failure .contextLost "Editor context is unavailable"))
    else
      let next := { stored with object := s.objects, sequence := stored.sequence + 1, document }
      let updated : Service := { s with contexts := JsMap.set contextId next s.contexts, objects := s.objects + 1 }
      (updated.note (.applied call contextId stored.origin invocation.binding stored.sequence changeSet s.readings)).setCall
        call (.settled contextId (.context ⟨contextId, next.sequence⟩))

/-- The call before this one in the queue, if there was one, has its result. -/
def previousSettled (s : Service) : Option Nat → Bool
  | none => true
  | some call =>
    match s.calls call with
    | .settled _ _ | .done _ => true
    | _ => false

/-- The `finally` of `#serialize`. -/
def leaveQueue (s : Service) (call : Nat) (contextId : String) (result : ServiceResult) : Service :=
  let queues := if s.queues.lookup contextId = some call then JsMap.delete contextId s.queues else s.queues
  { s with queues }.setCall call (.done result)

/-! ## Steps -/

/-- What can happen: a caller calls or changes the objects it holds, a snapshot loads or fails, an awaited change set has
been applied, the turn of a queued call comes, and a call with its result leaves its queue. -/
inductive Event where
  | call (call : Nat) (request : Request)
  | mutate (call : Nat) (request : Request)
  | loaded (call : Nat) (load : LoadAnswer) (answer : IdAnswer)
  | resume (call : Nat) (answer : IdAnswer)
  | turn (call : Nat)
  | leave (call : Nat)

/-- The first part of a call. -/
def begin (s : Service) (call : Nat) : Request → Service
  | .init invocation source => s.beginInit options clock call invocation source
  | .apply invocation context changeSet => s.beginApply call invocation context changeSet
  | .snapshot invocation context => s.beginSnapshot call invocation context

/-- The turn of a queued call. -/
def run (s : Service) (call : Nat) : QueuedAction → Service
  | .apply invocation context changeSet => s.runApply canonicalize clock call invocation context changeSet
  | .snapshot invocation context => s.runSnapshot clock call invocation context

/-- One step; an event that does not apply changes nothing. -/
def step (s : Service) : Event → Service
  | .call call request =>
    match s.calls call with
    | .idle =>
      let s :=
        { s with
          args := Function.update s.args call (some request)
          asked := Function.update s.asked call (some request) }
      s.begin options clock call request
    | _ => s
  | .mutate call request => { s with args := Function.update s.args call (some request) }
  | .loaded call load answer =>
    match s.calls call with
    | .loading binding changes base => s.resumeInit canonicalize options clock call binding changes base load answer
    | _ => s
  | .resume call answer =>
    match s.calls call with
    | .replaying _ (.error _) _ =>
      s.finishInit call (.failure .operationRejected "Invalid Markdown state or operation")
    | .replaying binding (.ok document) changes =>
      s.continueInit canonicalize options clock call binding document changes answer
    | .applying invocation contextId stored changeSet document =>
      s.finishApply clock call invocation contextId stored changeSet document
    | _ => s
  | .turn call =>
    match s.calls call with
    | .queued previous _ action => if s.previousSettled previous then s.run canonicalize clock call action else s
    | _ => s
  | .leave call =>
    match s.calls call with
    | .settled contextId result => s.leaveQueue call contextId result
    | _ => s

end Parts

end Service

end UniDocs.Markdown
