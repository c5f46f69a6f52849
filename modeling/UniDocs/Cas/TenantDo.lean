import UniDocs.Cas.NodeLease
import UniDocs.Cas.RootRefs

/-!
# The tenant Durable Object

The mutation coordinator of one tenant. Begin and finalize steps, root ref updates and collections run behind the
mutation gate; request bodies stream to the bucket outside it. Requests of all tenants run side by side, a call at a
time, and the environment moves the clock, uploads temporary objects and restarts instances.
-/

namespace UniDocs.Cas

open Lib

/-- A request running in the instance of a tenant. -/
structure RequestId where
  scope : Scope
  n : Nat
  deriving DecidableEq, Repr

/-- Run an operation while holding the mutation gate. -/
def withMutation {α : Type} (i : RequestId) (operation : Op α) : Op α := do
  Prog.perform (.acquire i.scope i.n)
  operation.tryFinally (Prog.perform (.release i.scope i.n))

/-! ## Requests -/

/-- A lease request: its headers and body. `uploadId` names a session to finalize, `freshId` is the identifier the
platform draws for a new one. -/
structure LeaseRequest where
  hash : Hash
  leaseDuration : NumberHeader
  contentType : Option String
  uploadLength : Option NumberHeader
  uploadId : Option String
  contentLength : NumberHeader
  body : Option Bytes
  freshId : String

/-- The requests that change a tenant's state. -/
inductive Request where
  | lease (request : LeaseRequest)
  | gc (maxNodes : Option Int)
  | updateRootRefs (refDomain : String) (body : RootRefsBody)

/-- What a request answers. -/
inductive Reply where
  | lease (result : CasLeaseResult)
  | uploadRequired (hash : Hash) (uploadId : String) (expiresAt : Nat)
  | gc (result : CasGcResult)
  | rootRefs (result : DomainUpdateResult)
  deriving DecidableEq, Repr

def canonicalNodeContentType : String := "application/vnd.unidocs.cas-node.v1"

/-! ## Uploads in progress -/

/-- The request that uploads the hash, if there is one. -/
def activeUpload (i : RequestId) (hash : Hash) : Op (Option Nat) :=
  uploads i.scope fun u => (u, u.active.lookup hash)

/-- Enter the upload of the hash as this request's. -/
def registerUpload (i : RequestId) (hash : Hash) : Op Unit :=
  uploads i.scope fun u => ({ u with active := u.active.insert hash i.n }, ())

/-- Settle this request's upload; the first outcome stands. -/
def settle (i : RequestId) (outcome : UploadOutcome) : Op Unit :=
  uploads i.scope fun u =>
    (if i.n ∈ u.outcomes then u else { u with outcomes := u.outcomes.insert i.n outcome }, ())

/-- Take the upload of the hash out again if it is this request's. -/
def unregisterUpload (i : RequestId) (hash : Hash) : Op Unit :=
  uploads i.scope fun u =>
    (if u.active.lookup hash = some i.n then { u with active := u.active.erase hash } else u, ())

/-- Wait for another request's upload of the hash, then lease the node. -/
def joinUpload (cfg : Config) (i : RequestId) (hash : Hash) (leaseDurationMs active : Nat) : Op Reply := do
  let outcome ← Prog.perform (.completion i.scope active)
  match outcome with
  | .failed error => throw error
  | .ok => do
    let result ← withMutation i (leaseReadyNode cfg.codec i.scope hash leaseDurationMs)
    pure (.lease result)

/-! ## Streamed uploads -/

/-- How a request enters its upload. -/
inductive Admission (α : Type) where
  | ready (result : CasLeaseResult)
  | join (active : Nat)
  | upload (plan : α)

/-- Join an upload in progress, or run the admission step and enter the upload it asks for. -/
def admitUpload {α : Type} (i : RequestId) (hash : Hash) (begin_ : Op (CasLeaseResult ⊕ α)) : Op (Admission α) := do
  let active ← activeUpload i hash
  match active with
  | some n => pure (.join n)
  | none => do
    let admitted ← begin_
    match admitted with
    | .inl result => pure (.ready result)
    | .inr plan => do
      registerUpload i hash
      pure (.upload plan)

/-- The metadata of an uploaded body, with the status of a parse error. -/
def parseUploadedBody (codec : Codec) (body : Bytes) (declaredLength : Nat) : Except CasError ParsedNode :=
  match codec.parseCanonicalNodeStream body declaredLength with
  | .ok node => .ok node
  | .error message =>
    .error (.nodeOp (if (message.splitOn "too large").length > 1 then 413 else 400) NodeOpErrorCodes.invalidRequest message)

/-- The outcome of an operation as a value. -/
def settled {α : Type} (operation : Op α) : Op (Except CasError α) :=
  Prog.tryCatch (do
    let a ← operation
    pure (.ok a)) fun e => pure (.error e)

/-- Store the body while parsing its metadata from the same bytes. A body of another length than declared is not stored. -/
def streamCanonicalUpload (cfg : Config) (sc : Scope) (plan : CanonicalNodeUploadPlan) (body : Bytes) (declaredLength : Nat) :
    Op ParsedNode := do
  let stored ← settled (if body.length = declaredLength then uploadCanonicalNode sc plan body
    else throw (.nodeOp 400 NodeOpErrorCodes.invalidRequest "Canonical node upload failed"))
  let node ← Prog.ret (parseUploadedBody cfg.codec body declaredLength)
  Prog.ret stored
  pure node

/-- Upload and finalize, and settle the requests that joined. -/
def runUpload (i : RequestId) (hash : Hash) (upload : Op CasLeaseResult) (cleanup : Op Unit) : Op Reply :=
  Prog.tryFinally
    (Prog.tryCatch (do
      let result ← upload
      settle i .ok
      pure (.lease result))
      fun e => do
        cleanup
        settle i (.failed e)
        throw e)
    (unregisterUpload i hash)

/-- A lease with a canonical body. -/
def handleStreamedLease (cfg : Config) (i : RequestId) (hash : Hash) (leaseDurationMs declaredLength : Nat) (body : Bytes) :
    Op Reply := do
  let admission ← withMutation i (admitUpload i hash (do
    let begin_ ← beginCanonicalNodeLease i.scope hash leaseDurationMs (some declaredLength)
    pure (match begin_ with
      | .ready result => .inl result
      | .upload plan => .inr plan)))
  match admission with
  | .ready result => pure (.lease result)
  | .join active => joinUpload cfg i hash leaseDurationMs active
  | .upload plan =>
    runUpload i hash (do
      let parsed ← streamCanonicalUpload cfg i.scope plan body declaredLength
      withMutation i (finalizeCanonicalNodeLease cfg.codec i.scope plan (some parsed)))
      (pure ())

/-! ## Direct uploads -/

def prepareDirectUpload (cfg : Config) (i : RequestId) (hash : Hash) (storedBytes : NumberHeader) (leaseDurationMs : Nat)
    (freshId : String) : Op Reply := do
  let prepared ← withMutation i (prepareCanonicalNodeUpload cfg.codec i.scope hash storedBytes leaseDurationMs freshId)
  match prepared with
  | .ready result => pure (.lease result)
  | .upload session replaced => do
    (match replaced with
      | some key => Prog.attempt (.deleteTemporary key)
      | none => pure ())
    Prog.require cfg.directUpload (.nodeOp 503 NodeOpErrorCodes.storage "Direct canonical upload is not configured")
    pure (.uploadRequired hash session.uploadId session.expiresAt)

/-- An object that is already there has to be the same. -/
def requireSameObject (codec : Codec) (sc : Scope) (hash : Hash) (storedBytes : Int) : Op Unit := do
  let object ← query sc fun t => t.objects.lookup hash
  Prog.require (object.any fun bytes => (bytes.length : Int) == storedBytes && codec.sha256Hex bytes == hash)
    (.nodeOp 409 NodeOpErrorCodes.conflict "Canonical object conflicts with an existing object")

/-- Copy the temporary object to its canonical key while parsing it. -/
def publishTemporaryUpload (cfg : Config) (sc : Scope) (hash : Hash) (session : DirectUploadSession) : Op ParsedNode := do
  let temporary ← Prog.attempt (.getTemporary session.temporaryObjectKey)
  match temporary.filter fun bytes => (bytes.length : Int) == session.storedBytes with
  | none => throw (.nodeOp 412 NodeOpErrorCodes.uploadIncomplete "Canonical upload is incomplete")
  | some body =>
    Prog.tryCatch (do
      let stored ← settled (Prog.attempt (.publishCanonicalObject sc hash body))
      let node ← Prog.ret (parseUploadedBody cfg.codec body body.length)
      let fresh ← Prog.ret stored
      if fresh then pure node
      else do
        requireSameObject cfg.codec sc hash session.storedBytes
        pure node)
      fun e => match e with
        | .nodeOp status code message => throw (.nodeOp status code message)
        | _ => throw (.nodeOp 422 NodeOpErrorCodes.digestMismatch "Canonical node checksum does not match its hash")

def finalizeDirectUpload (cfg : Config) (i : RequestId) (hash : Hash) (uploadId : String) (leaseDurationMs : Nat) :
    Op Reply := do
  let admission ← withMutation i (admitUpload i hash (do
    let admitted ← admitCanonicalNodeUploadFinalization cfg.codec i.scope hash uploadId leaseDurationMs
    pure (match admitted with
      | .ready result => .inl result
      | .upload session => .inr session)))
  match admission with
  | .ready result => pure (.lease result)
  | .join active => joinUpload cfg i hash leaseDurationMs active
  | .upload session =>
    runUpload i hash (do
      let parsed ← publishTemporaryUpload cfg i.scope hash session
      let result ← withMutation i (finalizeCanonicalNodeLease cfg.codec i.scope
        ⟨hash, session.storedBytes.toNat, session.leaseDurationMs⟩ (some parsed))
      Prog.attempt (.deleteTemporary session.temporaryObjectKey)
      pure result)
      (do
        -- both cleanups are tried, whatever becomes of either
        let _ ← settled (Prog.attempt (.deleteTemporary session.temporaryObjectKey))
        let _ ← settled (withMutation i (write i.scope (.deleteCanonicalUploadSession hash session.uploadId)))
        pure ())

/-! ## Routes -/

/-- The modes of a lease exclude each other. -/
def LeaseRequest.modeCount (r : LeaseRequest) : Nat :=
  (if r.contentType.isSome then 1 else 0) + (if r.uploadLength.isSome then 1 else 0) + (if r.uploadId.isSome then 1 else 0)

/-- A lease whose body is announced by its content type. -/
def handleBodyLease (cfg : Config) (i : RequestId) (r : LeaseRequest) (leaseDurationMs : Nat) (contentType : String) : Op Reply :=
  match r.body with
  | some body =>
    if contentType = canonicalNodeContentType then
      match r.contentLength with
      | .absent => throw (.nodeOp 411 NodeOpErrorCodes.invalidRequest "Content-Length is required")
      | .notFinite => throw (.nodeOp 400 NodeOpErrorCodes.invalidRequest "Invalid Content-Length")
      | .value n =>
        if isSafeInteger n && decide (0 ≤ n) then
          handleStreamedLease cfg i r.hash leaseDurationMs n.toNat body
        else throw (.nodeOp 400 NodeOpErrorCodes.invalidRequest "Invalid Content-Length")
    else throw (.nodeOp 415 NodeOpErrorCodes.invalidRequest s!"Content-Type must be {canonicalNodeContentType}")
  | none => throw (.nodeOp 415 NodeOpErrorCodes.invalidRequest s!"Content-Type must be {canonicalNodeContentType}")

def handleLease (cfg : Config) (i : RequestId) (r : LeaseRequest) : Op Reply := do
  Prog.require (r.hash != "") (.nodeOp 400 NodeOpErrorCodes.invalidRequest "missing X-CAS-Hash")
  let leaseDurationMs ← parseLeaseDuration r.leaseDuration
  Prog.require (decide (r.modeCount ≤ 1))
    (.nodeOp 400 NodeOpErrorCodes.uploadInvalid "Canonical lease upload modes are mutually exclusive")
  match r.uploadLength, r.uploadId, r.contentType with
  | some storedBytes, _, _ => prepareDirectUpload cfg i r.hash storedBytes leaseDurationMs r.freshId
  | none, some uploadId, _ => finalizeDirectUpload cfg i r.hash uploadId leaseDurationMs
  | none, none, some contentType => handleBodyLease cfg i r leaseDurationMs contentType
  | none, none, none => do
    let result ← withMutation i (leaseReadyNode cfg.codec i.scope r.hash leaseDurationMs)
    pure (.lease result)

def handleGc (i : RequestId) (maxNodes : Option Int) : Op Reply := do
  let maxNodes := maxNodes.getD defaultGcMaxNodes
  Prog.require (isSafeInteger maxNodes && decide (0 < maxNodes))
    (.nodeOp 400 NodeOpErrorCodes.invalidRequest "maxNodes must be a positive integer")
  let result ← withMutation i (collectExpiredUnreferencedNodes i.scope maxNodes)
  pure (.gc result)

/-- The canonical update as the tenant object sends it on. -/
def CanonicalRootRefsUpdate.command (canonical : CanonicalRootRefsUpdate) : RootRefsBody where
  requestId := some canonical.requestId
  changes := some (canonical.entries.map fun e => (⟨e.1, .int e.2⟩ : Sigma fun _ : Hash => JsonDelta)).toAList

/-- Canonicalize the caller's update and forward one command to the domain object. -/
def forwardRootRefs (cfg : Config) (i : RequestId) (refDomain : String) (body : RootRefsBody) :
    Op (Response DomainUpdateResult) :=
  match canonicalizeRootRefsUpdate cfg.codec body with
  | .error (.rootRefsValidation status code message) => pure (.error status code message)
  | .error _ => pure (.error 400 RootRefsErrorCodes.invalidRequest "root refs update is invalid")
  | .ok canonical => do
    Prog.attempt .hop
    let response ← domainFetch cfg ⟨i.scope.stackId, i.scope.tenantId, refDomain⟩ canonical.command
    Prog.attempt .hop
    pure response

/-- The answer of a route; an unexpected failure becomes a storage error. -/
def respond (operation : Op (Response Reply)) : Op (Response Reply) :=
  operation.tryCatch fun e => match e with
    | .nodeOp status code message => pure (.error status code message)
    | _ => pure (.error 503 NodeOpErrorCodes.storage "tenant CAS operation failed")

/-- Serve one request. -/
def tenantFetch (cfg : Config) (i : RequestId) : Request → Op (Response Reply)
  | .lease r => respond (do
    let reply ← handleLease cfg i r
    pure (.ok reply))
  | .gc maxNodes => respond (do
    let reply ← handleGc i maxNodes
    pure (.ok reply))
  | .updateRootRefs refDomain body => respond (do
    let response ← withMutation i (forwardRootRefs cfg i refDomain body)
    pure (match response with
      | .ok result => .ok (.rootRefs result)
      | .error status code message => .error status code message))

/-! ## Runs -/

/-- What happens around the requests: time passes, a client uploads to a temporary key, an instance restarts. -/
inductive Event where
  | tick (ms : Nat)
  | putTemporary (key : String) (body : Bytes)
  | restart (sc : Scope)

/-- The effect of an event: a restart loses the instance's memory. -/
def Event.apply : Event → State → State
  | .tick ms, s => { s with clock := s.clock + ms }
  | .putTemporary key body, s => { s with temporaries := s.temporaries.insert key body }
  | .restart sc, s => s.setInst sc Instance.fresh

/-- The service: requests to the tenant objects, in any order and interleaving. -/
def machine (cfg : Config) : Machine Call State CasError (Response Reply) RequestId Request Event where
  exec := exec cfg.codec
  serve := tenantFetch cfg
  env e s := some (e.apply s)
  kills e i := match e with
    | .restart sc => decide (i.scope = sc)
    | _ => false

/-- No rows, no objects, fresh instances. -/
def State.empty : State where
  clock := 0
  tenant := fun _ => Tenant.empty
  inst := fun _ => Instance.fresh
  temporaries := ∅
  ledger := Ledger.empty

/-- The service before its first request. -/
def start : Pool Call State CasError (Response Reply) RequestId Request := ⟨State.empty, fun _ => none⟩

end UniDocs.Cas
