import Mathlib.Data.List.Sort
import UniDocs.Cas.Service

/-!
# Node leases

The lease kernels and their repository: readiness checks through the ready cache, bodyless renewal and orphan adoption,
the begin and finalize steps of a streamed upload, and the sessions of direct uploads. The kernels run while their
caller holds the tenant's mutation gate, except `uploadCanonicalNode`.
-/

namespace UniDocs.Cas

open Lib

namespace NodeOpErrorCodes

def invalidRequest := "INVALID_REQUEST"
def notFound := "NODE_NOT_FOUND"
def notReady := "NODE_NOT_READY"
def conflict := "NODE_CONFLICT"
def uploadConflict := "CAS_UPLOAD_CONFLICT"
def uploadIncomplete := "CAS_UPLOAD_INCOMPLETE"
def digestMismatch := "CAS_DIGEST_MISMATCH"
def uploadExpired := "CAS_UPLOAD_EXPIRED"
def uploadInvalid := "CAS_UPLOAD_INVALID"
def storage := "STORAGE_ERROR"

end NodeOpErrorCodes

/-! ## Durations and limits -/

def defaultLeaseMs : Nat := 15 * 60 * 1000
def minLeaseMs : Nat := 60 * 1000
def maxLeaseMs : Nat := 24 * 60 * 60 * 1000
def defaultUploadSessionMs : Nat := 15 * 60 * 1000
def maxCanonicalNodeBytes : Nat := 64 * 1024 * 1024

/-- The header, the longest content type and the most refs a canonical prefix can hold. -/
def prefixLimit : Nat := 24 + 1024 + 256 * 32

/-- A header that the code reads with `Number`. -/
inductive NumberHeader where
  | absent
  | notFinite
  | value (n : Int)
  deriving DecidableEq, Repr

def isSafeInteger (n : Int) : Bool := decide (-(2 ^ 53 - 1) ≤ n ∧ n ≤ 2 ^ 53 - 1)

def clampLeaseDuration (value : Int) : Nat := (min (max value minLeaseMs) maxLeaseMs).toNat

def parseLeaseDuration : NumberHeader → Op Nat
  | .absent => pure defaultLeaseMs
  | .notFinite => throw (.nodeOp 400 NodeOpErrorCodes.invalidRequest "Invalid lease duration")
  | .value n => pure (clampLeaseDuration n)

def nextNodeLease (existing : Option NodeLeaseRecord) (durationMs now : Nat) : NodeLeaseRecord where
  leaseStartedAt := match existing with
    | some e => if e.leaseExpiresAt > now then e.leaseStartedAt else now
    | none => now
  leaseExpiresAt := max ((existing.map (·.leaseExpiresAt)).getD 0) (now + durationMs)

/-- The result of a lease. -/
structure CasLeaseResult where
  hash : Hash
  lease : NodeLeaseRecord
  deriving DecidableEq, Repr

/-- The length of a string in UTF-16 units. -/
def utf16Length (s : String) : Nat := (s.toList.map fun c => if c.val < 0x10000 then 1 else 2).sum

def isLowerHex (c : Char) : Bool := ('0' ≤ c && c ≤ '9') || ('a' ≤ c && c ≤ 'f')

/-- `validateHash` of the codec. -/
def validateHash (hash : Hash) : Except String Unit :=
  if utf16Length hash ≠ 64 then .error s!"Hash must be 64 characters, got {utf16Length hash}"
  else if hash.toList.all isLowerHex then .ok () else .error s!"Hash must be lowercase hex: {hash}"

def validateLeaseHash (hash : Hash) : Op Unit :=
  match validateHash hash with
  | .ok () => pure ()
  | .error message => throw (.nodeOp 400 NodeOpErrorCodes.invalidRequest message)

/-! ## Repository -/

/-- The lease of a row. -/
def NodeRow.lease (row : NodeRow) : NodeLeaseRecord := ⟨row.leaseStartedAt, row.leaseExpiresAt⟩

/-- The children of a parent in edge order. -/
def Tenant.refs (t : Tenant) (parent : Hash) : List Hash :=
  ((t.edges.rows fun k _ => k.1 == parent).insertionSort fun a b => a.1.2 ≤ b.1.2).map Prod.snd

/-- A row counts as ready while its cache entry is trusted, and else when its object is in the bucket. -/
def isNodeReady (sc : Scope) (hash : Hash) : Op Bool := do
  let row ← query sc fun t => decide (hash ∈ t.nodes)
  if row then
    let cached ← Prog.perform (.cachedReady sc hash)
    if cached then pure true
    else do
      let object ← query sc fun t => decide (hash ∈ t.objects)
      if object then do
        Prog.perform (.cacheReady sc [hash])
        pure true
      else pure false
  else pure false

/-- Each child has to be ready, in order. -/
def requireChildrenReady (sc : Scope) : List Hash → Op Unit
  | [] => pure ()
  | child :: rest => do
    let ready ← isNodeReady sc child
    Prog.require ready (.nodeOp 409 NodeOpErrorCodes.notReady s!"Child node {child} is not ready")
    requireChildrenReady sc rest

/-- The repository's commit after an upload: the batch, then the cache entries. -/
def commitUploadedCanonicalNode (sc : Scope) : UploadedCanonicalNodeCommit → Op Unit
  | .existing hash lease => do
    write sc (.commitUploadedCanonicalNode (.existing hash lease))
    Prog.perform (.cacheReady sc [hash])
  | .new hash node lease => do
    write sc (.commitUploadedCanonicalNode (.new hash node lease))
    Prog.perform (.cacheReady sc (hash :: node.refs))

/-- The repository's commit of an adoption. -/
def commitAdoptedCanonicalNode (sc : Scope) (plan : AdoptedCanonicalNodePlan) : Op Unit := do
  write sc (.commitAdoptedCanonicalNode plan)
  Prog.perform (.cacheReady sc (plan.hash :: plan.node.refs))

/-- Parse the stored prefix of a canonical object. -/
def inspectCanonicalNode (codec : Codec) (sc : Scope) (hash : Hash) (storedBytes : Nat) : Op ParsedNode := do
  let object ← query sc fun t => (t.objects.lookup hash).map (List.take (min storedBytes prefixLimit))
  match object with
  | none => throw (.other "Canonical node disappeared during inspection")
  | some stored =>
    match codec.parseCanonicalNodeStream stored storedBytes with
    | .ok node => pure node
    | .error message => throw (.other message)

/-! ## Bodyless leases -/

/-- Renew the lease of a row that is ready. -/
def renewReadyNode (sc : Scope) (hash : Hash) (existing : NodeLeaseRecord) (leaseDurationMs now : Nat) : Op CasLeaseResult := do
  let ready ← isNodeReady sc hash
  Prog.require ready (.nodeOp 409 NodeOpErrorCodes.notReady s!"Node {hash} is not ready")
  write sc (.renewNodeLease hash (nextNodeLease (some existing) leaseDurationMs now))
  pure ⟨hash, nextNodeLease (some existing) leaseDurationMs now⟩

/-- Adopt a canonical object that has no row. -/
def adoptOrphan (codec : Codec) (sc : Scope) (hash : Hash) (leaseDurationMs now : Nat) : Op CasLeaseResult := do
  let object ← query sc fun t => t.objects.lookup hash
  match object with
  | none => throw (.nodeOp 404 NodeOpErrorCodes.notFound s!"Node {hash} not found")
  | some bytes => do
    Prog.require (decide (bytes.length ≤ maxCanonicalNodeBytes) && codec.sha256Hex bytes == hash)
      (.nodeOp 404 NodeOpErrorCodes.notFound s!"Node {hash} not found")
    let node ← (inspectCanonicalNode codec sc hash bytes.length).tryCatch fun e =>
      throw (.nodeOp 409 NodeOpErrorCodes.conflict e.message)
    requireChildrenReady sc node.refs
    commitAdoptedCanonicalNode sc
      { hash, node, storedBytes := bytes.length, lease := nextNodeLease none leaseDurationMs now,
        reservationCreatedAt := now, reservationExpiresAt := now + maxLeaseMs }
    pure ⟨hash, nextNodeLease none leaseDurationMs now⟩

/-- Renew an existing ready node, or adopt a verified canonical object without a row. -/
def leaseReadyNode (codec : Codec) (sc : Scope) (hash : Hash) (leaseDurationMs : Nat) : Op CasLeaseResult := do
  validateLeaseHash hash
  let time ← now
  let existing ← query sc fun t => (t.nodes.lookup hash).map NodeRow.lease
  match existing with
  | some lease => renewReadyNode sc hash lease leaseDurationMs time
  | none => adoptOrphan codec sc hash leaseDurationMs time

/-! ## Streamed uploads -/

/-- What an admitted upload will finalize. -/
structure CanonicalNodeUploadPlan where
  hash : Hash
  storedBytes : Nat
  leaseDurationMs : Nat
  deriving DecidableEq, Repr

/-- The answer of the begin step. -/
inductive CanonicalNodeLeaseBeginResult where
  | ready (result : CasLeaseResult)
  | upload (plan : CanonicalNodeUploadPlan)

/-- Fence an upload that has to send its bytes. -/
def reserveUpload (sc : Scope) (hash : Hash) (leaseDurationMs : Nat) (declaredLength : Option Nat) :
    Op CanonicalNodeLeaseBeginResult :=
  match declaredLength with
  | none => throw (.nodeOp 411 NodeOpErrorCodes.invalidRequest "Content-Length is required")
  | some length => do
    Prog.require (decide (length ≤ maxCanonicalNodeBytes))
      (.nodeOp 413 NodeOpErrorCodes.invalidRequest "Canonical node is too large")
    let time ← now
    write sc (.reserveCanonicalUpload hash ⟨length, time, time + maxLeaseMs⟩)
    pure (.upload ⟨hash, length, leaseDurationMs⟩)

/-- Establish an upload fence, or renew immediately when the node is already ready. -/
def beginCanonicalNodeLease (sc : Scope) (hash : Hash) (leaseDurationMs : Nat) (declaredLength : Option Nat) :
    Op CanonicalNodeLeaseBeginResult := do
  validateLeaseHash hash
  let existing ← query sc fun t => (t.nodes.lookup hash).map NodeRow.lease
  match existing with
  | some lease => do
    let ready ← isNodeReady sc hash
    if ready then do
      let time ← now
      write sc (.renewNodeLease hash (nextNodeLease (some lease) leaseDurationMs time))
      pure (.ready ⟨hash, nextNodeLease (some lease) leaseDurationMs time⟩)
    else reserveUpload sc hash leaseDurationMs declaredLength
  | none => reserveUpload sc hash leaseDurationMs declaredLength

/-- Stream canonical bytes to their hash-addressed object. -/
def uploadCanonicalNode (sc : Scope) (plan : CanonicalNodeUploadPlan) (body : Bytes) : Op Unit :=
  (write sc (.putCanonicalObject plan.hash body)).tryCatch fun e =>
    throw (.nodeOp 400 NodeOpErrorCodes.invalidRequest
      (if e = .rejected then "Canonical node checksum does not match its hash" else "Canonical node upload failed"))

/-- The metadata of the upload: as parsed from its stream, or else read back from the bucket. -/
def uploadedMetadata (codec : Codec) (sc : Scope) (plan : CanonicalNodeUploadPlan) : Option ParsedNode → Op ParsedNode
  | some node => pure node
  | none => (inspectCanonicalNode codec sc plan.hash plan.storedBytes).tryCatch fun e =>
    throw (.nodeOp (if (e.message.splitOn "too large").length > 1 then 413 else 400)
      NodeOpErrorCodes.invalidRequest e.message)

/-- A row that is already there has to carry the same metadata. -/
def requireSameMetadata (sc : Scope) (hash : Hash) (row : NodeRow) (node : ParsedNode) : Op Unit := do
  let refs ← query sc fun t => t.refs hash
  Prog.require (row.contentSize == node.contentSize && row.contentType == node.contentType && refs == node.refs)
    (.nodeOp 409 NodeOpErrorCodes.conflict "Immutable metadata mismatch")

/-- Publish metadata and a lease after an upload. -/
def finalizeCanonicalNodeLease (codec : Codec) (sc : Scope) (plan : CanonicalNodeUploadPlan) (parsed : Option ParsedNode) :
    Op CasLeaseResult := do
  validateLeaseHash plan.hash
  let existing ← query sc fun t => t.nodes.lookup plan.hash
  let time ← now
  let node ← uploadedMetadata codec sc plan parsed
  match existing with
  | some row => do
    requireSameMetadata sc plan.hash row node
    requireChildrenReady sc node.refs
    let lease := nextNodeLease (some row.lease) plan.leaseDurationMs time
    commitUploadedCanonicalNode sc (.existing plan.hash lease)
    pure ⟨plan.hash, lease⟩
  | none => do
    requireChildrenReady sc node.refs
    let lease := nextNodeLease none plan.leaseDurationMs time
    commitUploadedCanonicalNode sc (.new plan.hash node lease)
    pure ⟨plan.hash, lease⟩

/-! ## Direct uploads -/

/-- Lease the node when it is ready; `none` when it is not found and has to be uploaded. -/
def leaseUnlessNotFound (codec : Codec) (sc : Scope) (hash : Hash) (leaseDurationMs : Nat) : Op (Option CasLeaseResult) :=
  Prog.tryCatch (do
    let result ← leaseReadyNode codec sc hash leaseDurationMs
    pure (some result))
    fun e => match e with
      | .nodeOp status code message =>
        if code = NodeOpErrorCodes.notFound then pure none else throw (.nodeOp status code message)
      | e => throw e

/-- The answer of the prepare step; `replaced` is the temporary object of the session it replaced. -/
inductive CanonicalDirectUploadPrepareResult where
  | ready (result : CasLeaseResult)
  | upload (session : DirectUploadSession) (replaced : Option String)

/-- Open or join the upload session of a hash; `uploadId` is the fresh identifier the platform draws. -/
def reserveSession (sc : Scope) (hash : Hash) (storedBytes : Int) (leaseDurationMs : Nat) (uploadId : String) :
    Op CanonicalDirectUploadPrepareResult := do
  let time ← now
  let existing ← query sc fun t => t.directUploadSessions.lookup hash
  match existing.filter fun s => decide (time < s.expiresAt) with
  | some session => do
    Prog.require (session.storedBytes == storedBytes)
      (.nodeOp 409 NodeOpErrorCodes.uploadConflict "Canonical upload length conflicts with the active session")
    pure (.upload session none)
  | none => do
    let session : DirectUploadSession :=
      ⟨uploadId, "_uploads/v1/" ++ uploadId, storedBytes, leaseDurationMs, time, time + defaultUploadSessionMs⟩
    Prog.require (uploadId != "") (.other "Canonical upload identifiers must not be empty")
    write sc (.reserveCanonicalUploadSession hash session)
    pure (.upload session (existing.map (·.temporaryObjectKey)))

def prepareCanonicalNodeUpload (codec : Codec) (sc : Scope) (hash : Hash) (storedBytes : NumberHeader) (leaseDurationMs : Nat)
    (uploadId : String) : Op CanonicalDirectUploadPrepareResult := do
  validateLeaseHash hash
  let ready ← leaseUnlessNotFound codec sc hash leaseDurationMs
  match ready with
  | some result => pure (.ready result)
  | none =>
    match storedBytes with
    | .value n => do
      Prog.require (isSafeInteger n && decide (1 ≤ n))
        (.nodeOp 400 NodeOpErrorCodes.uploadInvalid "Invalid canonical upload length")
      Prog.require (decide (n ≤ maxCanonicalNodeBytes))
        (.nodeOp 413 NodeOpErrorCodes.uploadInvalid "Canonical node is too large")
      reserveSession sc hash n leaseDurationMs uploadId
    | _ => throw (.nodeOp 400 NodeOpErrorCodes.uploadInvalid "Invalid canonical upload length")

/-- The answer of the finalize admission. -/
inductive CanonicalDirectUploadFinalizeAdmission where
  | ready (result : CasLeaseResult)
  | upload (session : DirectUploadSession)

def admitCanonicalNodeUploadFinalization (codec : Codec) (sc : Scope) (hash : Hash) (uploadId : String)
    (leaseDurationMs : Nat) : Op CanonicalDirectUploadFinalizeAdmission := do
  validateLeaseHash hash
  let ready ← leaseUnlessNotFound codec sc hash leaseDurationMs
  match ready with
  | some result => pure (.ready result)
  | none => do
    let session ← query sc fun t => t.directUploadSessions.lookup hash
    match session.filter fun s => s.uploadId == uploadId with
    | none => throw (.nodeOp 400 NodeOpErrorCodes.uploadInvalid "Canonical upload session is invalid")
    | some session => do
      let time ← now
      Prog.require (decide (time < session.expiresAt))
        (.nodeOp 410 NodeOpErrorCodes.uploadExpired "Canonical upload session expired")
      pure (.upload session)

end UniDocs.Cas

/-!
## Node collection

Collect expired nodes that have no child or root references. Eligibility is read again right before each deletion, and
the object goes before the batch that removes the row and the edges.
-/

namespace UniDocs.Cas

open Lib

def defaultGcMaxNodes : Nat := 100

/-- The counts of a collection. -/
structure CasGcResult where
  examined : Nat
  deleted : Nat
  reclaimedContentBytes : Nat
  deriving DecidableEq, Repr

namespace Tenant

/-- An upload reservation still fences the hash. -/
def reserved (t : Tenant) (hash : Hash) (expiresAtOrBefore : Nat) : Bool :=
  match t.uploadReservations.lookup hash with
  | some r => decide (expiresAtOrBefore < r.expiresAt)
  | none => false

/-- The `SELECT` of eligible hashes, with its limit. -/
def findExpiredUnreferenced (t : Tenant) (expiresAtOrBefore maxNodes : Nat) : List Hash :=
  ((t.nodes.rows fun hash row => row.childRefCount == 0 && row.rootRefCount == 0 &&
    decide (row.leaseExpiresAt ≤ expiresAtOrBefore) && !t.reserved hash expiresAtOrBefore).map Prod.fst).take maxNodes

/-- The row of a hash that is not fenced and still expired and unreferenced. -/
def stillExpiredUnreferenced (t : Tenant) (hash : Hash) (expiresAtOrBefore : Nat) : Option NodeRow :=
  ((t.nodes.lookup hash).filter fun _ => !t.reserved hash expiresAtOrBefore).filter fun row =>
    !(decide (row.childRefCount > 0) || decide (row.rootRefCount > 0) || decide (row.leaseExpiresAt > expiresAtOrBefore))

/-- The children of a parent with the number of edges to each. -/
def childReferences (t : Tenant) (parent : Hash) : List NodeGcChildReference :=
  let children := (t.edges.rows fun k _ => k.1 == parent).map Prod.snd
  children.dedup.map fun c => ⟨c, children.count c⟩

end Tenant

/-- Eligibility again, and then the edges to be released. -/
def readStillExpiredUnreferenced (sc : Scope) (hash : Hash) (expiresAtOrBefore : Nat) : Op (Option NodeGcDeletion) := do
  let fresh ← query sc fun t => t.stillExpiredUnreferenced hash expiresAtOrBefore
  match fresh with
  | none => pure none
  | some row => do
    let childReferences ← query sc fun t => t.childReferences hash
    pure (some ⟨hash, row.contentSize, childReferences⟩)

/-- One candidate: the bytes it reclaimed, or `none` when it is no longer eligible. -/
def collectCandidate (sc : Scope) (hash : Hash) (expiresAtOrBefore : Nat) : Op (Option Nat) := do
  let deletion ← readStillExpiredUnreferenced sc hash expiresAtOrBefore
  match deletion with
  | none => pure none
  | some d => do
    write sc (.deleteCanonicalContent d.hash)
    write sc (.commitDeletion d)
    pure (some d.contentSize)

/-- The loop over the candidates, with what has been deleted so far. -/
def collectCandidates (sc : Scope) (expiresAtOrBefore : Nat) : List Hash → Nat × Nat → Op (Nat × Nat)
  | [], acc => pure acc
  | hash :: rest, acc => do
    let reclaimed ← collectCandidate sc hash expiresAtOrBefore
    collectCandidates sc expiresAtOrBefore rest (match reclaimed with
      | some bytes => (acc.1 + 1, acc.2 + bytes)
      | none => acc)

def collectExpiredUnreferencedNodes (sc : Scope) (maxNodes : Int) : Op CasGcResult := do
  Prog.require (isSafeInteger maxNodes && decide (0 < maxNodes)) (.other "maxNodes must be a positive integer")
  let expiresAtOrBefore ← now
  let candidates ← query sc fun t => t.findExpiredUnreferenced expiresAtOrBefore maxNodes.toNat
  let result ← collectCandidates sc expiresAtOrBefore candidates (0, 0)
  pure ⟨candidates.length, result.1, result.2⟩

end UniDocs.Cas
