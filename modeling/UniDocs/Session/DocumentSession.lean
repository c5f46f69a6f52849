import UniDocs.Session.Ports

/-!
# The document session

The cloud-neutral editing core: load from the snapshot cache or the latest durable snapshot and replay the deltas after
it, the write order of `apply`, creation and cloning in one unit of work, rollback as a synthetic delta, and the
snapshot threshold. A field of the session object changes where the code assigns it, so what a call has assigned before
it throws stays.
-/

namespace UniDocs.Session

open Lib

section Programs

variable {Doc Op : Type}

/-- A field of the session object. -/
def get {β : Type} (n : Nat) (f : SessionMemory Doc → β) : SessionProg Doc Op β :=
  Prog.perform (.memory n fun m => (m, f m))

/-- An assignment to the session object. -/
def assign (n : Nat) (f : SessionMemory Doc → SessionMemory Doc) : SessionProg Doc Op Unit :=
  Prog.perform (.memory n fun m => (f m, ()))

/-- A read of the ports. -/
def read {β : Type} (n : Nat) (r : PortRead Op β) : SessionProg Doc Op β := Prog.attempt (.read n r)

/-- A write to the ports. -/
def write (n : Nat) (w : PortWrite Doc Op) : SessionProg Doc Op Unit := Prog.attempt (.write n w)

/-- The injected clock. -/
def now : SessionProg Doc Op Nat := Prog.perform .now

/-- The result of a function of the document type or of the codec, which may throw. -/
def evaluate {β : Type} (r : Except String β) : SessionProg Doc Op β :=
  match r with
  | .ok b => pure b
  | .error message => throw (.failure message)

/-- Write a durable snapshot every N deltas. -/
def deltaThreshold : Nat := 20

/-- The number of operation identifiers a session remembers. -/
def maxRecentOps : Nat := 256

def DocumentType.encodeSValue (dt : DocumentType Doc Op) (doc : Doc) : Except String Bytes :=
  match dt.encodeSValueWithRefs doc with
  | .ok r => .ok r.1
  | .error e => .error e

def DocumentType.refsFromSValue (dt : DocumentType Doc Op) (doc : Doc) : Except String CasReferences :=
  match dt.encodeSValueWithRefs doc with
  | .ok r => .ok r.2
  | .error e => .error e

/-! ## Snapshots -/

/-- Refresh the snapshot cache. -/
def saveSnapshotCache (dt : DocumentType Doc Op) (n : Nat) : SessionProg Doc Op Unit := do
  let m ← get n fun m => (m.doc, m.version)
  match m.1 with
  | none => pure ()
  | some doc => do
    let bytes ← evaluate (dt.encodeSValue doc)
    write n (.cachePut m.2 bytes)

/-- Refresh the cache after a creation, whose success does not depend on it. -/
def saveSnapshotCacheBestEffort (dt : DocumentType Doc Op) (n : Nat) : SessionProg Doc Op Unit :=
  (saveSnapshotCache dt n).tryCatch fun _ => pure ()

/-- Replay deltas into the session. -/
def replayDeltas (dt : DocumentType Doc Op) (n : Nat) : List (Delta Op) → SessionProg Doc Op Unit
  | [] => pure ()
  | delta :: rest => do
    let doc ← get n (·.doc)
    match doc with
    | none => throw (.failure "no document to replay on")
    | some doc => do
      let doc ← evaluate (dt.apply delta.operations doc)
      assign n fun m => { m with doc := some doc, version := delta.version }
      replayDeltas dt n rest

/-- The starting point of a load: the cache, or else the latest durable snapshot. -/
def loadSnapshot (dt : DocumentType Doc Op) (n : Nat) : SessionProg Doc Op Unit := do
  let snapshot ← read n .cacheGet
  match snapshot with
  | some (version, bytes) => do
    let doc ← evaluate (dt.decodeSValue bytes)
    assign n fun m => { m with doc := some doc, version := version }
  | none => do
    let ref ← read n (.latestSnapshotRef none)
    match ref with
    | none => pure ()
    | some (version, hash) => do
      let bytes ← read n (.blobGet hash)
      match bytes with
      | none => throw (.storageCorrupt s!"Snapshot {hash} not found in R2")
      | some bytes => do
        let doc ← evaluate (dt.decodeSValue bytes)
        assign n fun m => { m with doc := some doc, version := version }

/-- Rebuild the session from the snapshot cache and the deltas after it. -/
def load (dt : DocumentType Doc Op) (n : Nat) : SessionProg Doc Op Unit := do
  let loaded ← get n (·.loaded)
  if loaded then pure ()
  else do
    loadSnapshot dt n
    let version ← get n (·.version)
    let pending ← read n (.since version)
    let doc ← get n (·.doc)
    (if !pending.isEmpty && doc.isNone then do
      let doc ← evaluate dt.init
      assign n fun m => { m with doc := some doc, version := 0 }
    else pure ())
    replayDeltas dt n pending
    (if !pending.isEmpty then saveSnapshotCache dt n else pure ())
    assign n fun m => { m with loaded := true }

def requireDoc (n : Nat) : SessionProg Doc Op Doc := do
  let doc ← get n (·.doc)
  match doc with
  | some doc => pure doc
  | none => throw (.docNotFound "Document not initialized. POST /\x7bdocType\x7d/ to create.")

def shouldSnapshot (n : Nat) : SessionProg Doc Op Bool := do
  let ref ← read n (.latestSnapshotRef none)
  let deltasSince ← read n (.countSince ((ref.map Prod.fst).getD 0))
  pure (decide (deltaThreshold ≤ deltasSince))

/-- Serialize a document and put it in the blob store. -/
def writeBlob (dt : DocumentType Doc Op) (n : Nat) (doc : Doc) : SessionProg Doc Op Hash := do
  let bytes ← evaluate (dt.encodeSValue doc)
  write n (.putIfAbsent (dt.computeHash bytes) bytes)
  pure (dt.computeHash bytes)

/-- Send root references to the CAS, and undo what was written before when they are refused. -/
def commitRootRefsOrRollback (requestId : String) (changes : CasReferences) (rollback : SessionProg Doc Op Unit) :
    SessionProg Doc Op Unit :=
  if changes.isEmpty then pure ()
  else Prog.tryCatch (Prog.attempt (.updateRootRefs requestId changes)) fun e => do
    rollback
    throw e

/-- Pin the references of a snapshot. -/
def pinSnapshot (dt : DocumentType Doc Op) (sessionId : String) (version : Nat) (doc : Doc) : SessionProg Doc Op Unit := do
  let refs ← evaluate (dt.refsFromSValue doc)
  if refs.isEmpty then pure ()
  else
    (commitRootRefsOrRollback s!"snapshot:{sessionId}:{version}" refs (pure ())).tryCatch fun e =>
      throw (.rootRefs s!"CAS snapshot root-refs failed: {e.text}")

/-- Write a durable snapshot of the current version. -/
def writeSnapshot (dt : DocumentType Doc Op) (sessionId : String) (n : Nat) : SessionProg Doc Op (Option (Hash × Nat)) := do
  let m ← get n fun m => (m.doc, m.version)
  match m.1 with
  | none => pure none
  | some doc => do
    let hash ← writeBlob dt n doc
    pinSnapshot dt sessionId m.2 doc
    let timestamp ← now
    write n (.recordSnapshot m.2 hash timestamp)
    pure (some (hash, m.2))

/-- A durable snapshot when the threshold was crossed. -/
def snapshotAtThreshold (dt : DocumentType Doc Op) (sessionId : String) (n : Nat) : SessionProg Doc Op Unit := do
  let due ← shouldSnapshot n
  if due then do
    let _ ← writeSnapshot dt sessionId n
    pure ()
  else pure ()

/-! ## Lifecycle -/

/-- The unit of work of a creation, the assignment after it, and the cache. -/
def commitFirstVersion (dt : DocumentType Doc Op) (sessionId : String) (n : Nat) (doc : Doc) (hash : Hash)
    (description : String) : SessionProg Doc Op Nat := do
  pinSnapshot dt sessionId 1 doc
  let timestamp ← now
  write n (.createTransaction ⟨1, timestamp, description, []⟩ hash)
  assign n fun m => { m with doc := some doc, version := 1 }
  saveSnapshotCacheBestEffort dt n
  assign n fun m => { m with loaded := true }
  pure 1

/-- Create a document, optionally from uploaded bytes in a format. -/
def create (dt : DocumentType Doc Op) (sessionId : String) (n : Nat) (input : Option (Bytes × Option String)) :
    SessionProg Doc Op Nat := do
  load dt n
  let doc ← get n (·.doc)
  Prog.require doc.isNone (.docExists "Document already exists")
  let doc ← evaluate (match input with
    | some (bytes, format) => dt.load format bytes
    | none => dt.init)
  let hash ← writeBlob dt n doc
  commitFirstVersion dt sessionId n doc hash "Document created"

/-- Adopt an existing snapshot as version 1. -/
def initFromHash (dt : DocumentType Doc Op) (sessionId : String) (n : Nat) (hash : Hash) (sourceVersion : Nat) :
    SessionProg Doc Op Nat := do
  load dt n
  let doc ← get n (·.doc)
  Prog.require doc.isNone (.docExists "Document already exists")
  let bytes ← read n (.blobGet hash)
  match bytes with
  | none => throw (.docNotFound s!"Snapshot {hash} not found in R2")
  | some bytes => do
    let doc ← evaluate (dt.decodeSValue bytes)
    commitFirstVersion dt sessionId n doc hash s!"Cloned from snapshot {hash} (source version {sourceVersion})"

/-! ## Writes -/

/-- Lease every hash of a batch. -/
def leaseAll : CasReferences → SessionProg Doc Op Unit
  | [] => pure ()
  | (hash, _) :: rest => do
    Prog.attempt (.leaseNode hash)
    leaseAll rest

/-- Lease the references of a batch; operations that cannot be encoded are a rejected delta. -/
def leaseOpRefs (dt : DocumentType Doc Op) (ops : List Op) : SessionProg Doc Op CasReferences :=
  match dt.refsFromOperations ops with
  | .error message => throw (.deltaRejected s!"Delta failed: {message}")
  | .ok refs => do
    leaseAll refs
    pure refs

/-- Remember an operation, and forget the oldest beyond the limit. -/
def rememberOp (opId : String) (version : Nat) (ops : List (String × Nat)) : List (String × Nat) :=
  let kept := if ops.any fun e => e.1 == opId then ops.map fun e => if e.1 = opId then (opId, version) else e
    else ops ++ [(opId, version)]
  if maxRecentOps < kept.length then kept.tail else kept

/-- Commit a batch that is not a retry: the write order of `apply`. -/
def applyBatch (dt : DocumentType Doc Op) (sessionId : String) (n : Nat) (ops : List Op) (description : String)
    (baseVersion : Nat) (opId : Option String) : SessionProg Doc Op Nat := do
  let doc ← requireDoc n
  let head ← read n .head
  Prog.require (head == baseVersion) (.versionConflict head (baseVersion + 1))
  let refs ← leaseOpRefs dt ops
  let applied ← Prog.perform (.configApply n baseVersion ops doc)
  let newDoc ← (match applied with
    | .ok newDoc => pure newDoc
    | .error message => throw (.deltaRejected s!"Delta failed: {message}"))
  let timestamp ← now
  write n (.append ⟨baseVersion + 1, timestamp, description, ops⟩ .operations)
  (commitRootRefsOrRollback s!"apply:{sessionId}:{baseVersion + 1}" refs (write n (.remove (baseVersion + 1)))).tryCatch
    fun e => throw (.rootRefs s!"CAS root-refs failed: {e.text}")
  assign n fun m => { m with doc := some newDoc, version := baseVersion + 1 }
  saveSnapshotCache dt n
  snapshotAtThreshold dt sessionId n
  (match opId with
    | some opId => assign n fun m => { m with recentOps := rememberOp opId (baseVersion + 1) m.recentOps }
    | none => pure ())
  pure (baseVersion + 1)

/-- Apply one atomic batch of operations. -/
def apply (dt : DocumentType Doc Op) (sessionId : String) (n : Nat) (ops : List Op) (description : String)
    (baseVersion : Nat) (opId : Option String) : SessionProg Doc Op Nat := do
  load dt n
  let recentOps ← get n (·.recentOps)
  match opId.bind fun id => recentOps.lookup id with
  | some version => pure version
  | none => applyBatch dt sessionId n ops description baseVersion opId

/-- Replay deltas on a document. -/
def replayOnto (dt : DocumentType Doc Op) : List (Delta Op) → Doc → Except String Doc
  | [], doc => .ok doc
  | delta :: rest, doc =>
    match dt.apply delta.operations doc with
    | .ok doc => replayOnto dt rest doc
    | .error e => .error e

/-- The document and the version that a rollback replays from. -/
def rollbackBase (dt : DocumentType Doc Op) (n : Nat) (target : Nat) : SessionProg Doc Op (Doc × Nat) := do
  let ref ← read n (.latestSnapshotRef (some target))
  match ref with
  | some (version, hash) => do
    let bytes ← read n (.blobGet hash)
    match bytes with
    | none => throw (.storageCorrupt s!"Snapshot {hash} not found in R2")
    | some bytes => do
      let doc ← evaluate (dt.decodeSValue bytes)
      pure (doc, version)
  | none => do
    let doc ← evaluate dt.init
    pure (doc, 0)

/-- Make the document of an earlier version current again, as a new version. -/
def rollback (dt : DocumentType Doc Op) (sessionId : String) (n : Nat) (target : Nat) : SessionProg Doc Op Nat := do
  load dt n
  let _ ← requireDoc n
  let existing ← read n (.range target target)
  Prog.require (!existing.isEmpty) (.docNotFound s!"Version {target} not found")
  let base ← rollbackBase dt n target
  let deltas ← read n (.range (base.2 + 1) target)
  let doc ← evaluate (replayOnto dt deltas base.1)
  let head ← read n .head
  let timestamp ← now
  write n (.append ⟨head + 1, timestamp, s!"Rollback to version {target}", []⟩ (.rollback target doc))
  assign n fun m => { m with doc := some doc, version := head + 1 }
  saveSnapshotCache dt n
  snapshotAtThreshold dt sessionId n
  pure (head + 1)

/-- Force a durable snapshot. -/
def snapshot (dt : DocumentType Doc Op) (sessionId : String) (n : Nat) : SessionProg Doc Op (Option (Hash × Nat)) := do
  load dt n
  let _ ← requireDoc n
  writeSnapshot dt sessionId n

/-- The bytes of the current document. -/
def ir (dt : DocumentType Doc Op) (n : Nat) : SessionProg Doc Op (Nat × Bytes) := do
  load dt n
  let doc ← requireDoc n
  let bytes ← evaluate (dt.encodeSValue doc)
  let version ← get n (·.version)
  pure (version, bytes)

/-! ## Calls on a session -/

/-- The calls a client of a session makes. -/
inductive Method (Op : Type) where
  | create (input : Option (Bytes × Option String))
  | initFromHash (hash : Hash) (sourceVersion : Nat)
  | apply (ops : List Op) (description : String) (baseVersion : Nat) (opId : Option String)
  | rollback (target : Nat)
  | snapshot
  | ir

/-- The program of a call; only whether it succeeds matters to a run. -/
def Method.program (dt : DocumentType Doc Op) (sessionId : String) (n : Nat) : Method Op → SessionProg Doc Op Unit
  | .create input => do
    let _ ← Session.create dt sessionId n input
    pure ()
  | .initFromHash hash sourceVersion => do
    let _ ← Session.initFromHash dt sessionId n hash sourceVersion
    pure ()
  | .apply ops description baseVersion opId => do
    let _ ← Session.apply dt sessionId n ops description baseVersion opId
    pure ()
  | .rollback target => do
    let _ ← Session.rollback dt sessionId n target
    pure ()
  | .snapshot => do
    let _ ← Session.snapshot dt sessionId n
    pure ()
  | .ir => do
    let _ ← Session.ir dt n
    pure ()

end Programs

end UniDocs.Session
