import UniDocs.Lib.JsString
import UniDocs.Lib.Table
import UniDocs.Lib.Trace

/-!
# Platform documents

A platform document is an object with tables of its own: the document with its head, the version rows, the intent of a creation,
and an intent for each commit. The functions below are the transactions of `PlatformDocument`, and over them the programs of the
coordinator, which retain a root in the content store between the intent and the version.
-/

namespace UniDocs.Platform

open Lib Lib.Trace Lib.Sql

/-! ## Rows -/

/-- `PlatformDocumentIdentity`. -/
structure Identity where
  tenantId : String
  docId : String
  docType : String
  ownerActorId : String
  schemaVersion : String
  deriving DecidableEq, Repr

/-- An identity as it is sent: its fields, and what `JSON.stringify` writes of the object, which depends on the order of the
fields in it. -/
structure IdentityObject where
  fields : Identity
  text : String
  deriving DecidableEq, Repr

/-- A row of `platform_document_v1`. -/
structure DocumentRow where
  identity : Identity
  headVersion : Nat
  deriving DecidableEq, Repr

/-- A row of `platform_document_versions_v1`. -/
structure VersionRow where
  stateHash : String
  createdAt : Int
  deriving DecidableEq, Repr

/-- `PlatformDocumentVersion`. -/
structure DocumentVersion where
  version : Nat
  stateHash : String
  createdAt : Int
  deriving DecidableEq, Repr

/-- A row of `platform_document_creation_v1`. -/
structure CreationRow where
  identity : String
  stateHash : String
  requestDigest : String
  deriving DecidableEq, Repr

/-- `PlatformDocumentCreation`. -/
structure Creation where
  identity : IdentityObject
  stateHash : String
  requestDigest : String
  deriving DecidableEq, Repr

/-- `PlatformCommitCandidate`. -/
structure Candidate where
  operationId : String
  baseVersion : Nat
  stateHash : String
  deriving DecidableEq, Repr

/-- What has become of a commit: `version_conflict` is the one reason for a rejection. -/
inductive Outcome where
  | pending
  | committed (version : Nat)
  | rejected (headVersion : Nat)
  deriving DecidableEq, Repr

/-- `PlatformCommitReceipt`. -/
structure Receipt where
  operationId : String
  baseVersion : Nat
  requestDigest : String
  outcome : Outcome
  deriving DecidableEq, Repr

/-- The column `state` of an intent. -/
inductive IntentState where
  | pending
  | committed
  | rejected
  deriving DecidableEq, Repr

def Outcome.state : Outcome → IntentState
  | .pending => .pending
  | .committed _ => .committed
  | .rejected _ => .rejected

/-- A row of `platform_document_intents_v1`. -/
structure IntentRow where
  baseVersion : Nat
  requestDigest : String
  stateHash : String
  state : IntentState
  receipt : Receipt
  deriving DecidableEq, Repr

/-- The tables of the object, and the root changes that the content store has applied, each under its request id. -/
structure Db where
  document : Option DocumentRow
  versions : Table Nat VersionRow
  creation : Option CreationRow
  intents : Table String IntentRow
  retained : Table String String

/-- What is thrown. -/
inductive PlatformError where
  | invalidIdentity
  | invalidBaseVersion
  | invalidOperationId
  | invalidStateHash
  | invalidTimestamp
  | invalidRetention
  | createConflict
  | identityConflict
  | documentNotFound
  | payloadConflict
  | operationNotFound
  | pendingHeadChanged
  | invalidStoredReceipt
  | pendingDisappeared
  | retentionFailed
  | capture (message : String)
  | constraint
  | noRow
  | storage
  deriving DecidableEq, Repr

/-! ## Checks -/

def maxSafeInteger : Nat := 2 ^ 53 - 1

/-- `/^[A-Za-z0-9_-]{1,128}$/`. -/
def isOperationId (text : String) : Bool :=
  1 ≤ text.toList.length && text.toList.length ≤ 128 &&
    text.toList.all fun c => c.isAlphanum || c = '_' || c = '-'

/-- `/^[a-f0-9]{64}$/`. -/
def isHash (text : String) : Bool :=
  text.toList.length = 64 && text.toList.all fun c => c.isDigit || ('a' ≤ c && c ≤ 'f')

def requireIdentity (identity : IdentityObject) : Except PlatformError Unit :=
  let fields := identity.fields
  let values := [fields.tenantId, fields.docId, fields.docType, fields.ownerActorId, fields.schemaVersion]
  if values.all fun value => 0 < (JsString.ofString value).length && (JsString.ofString value).length ≤ 256 then .ok ()
  else .error .invalidIdentity

def requireOperationId (operationId : String) : Except PlatformError Unit :=
  if isOperationId operationId then .ok () else .error .invalidOperationId

def requireHash (hash : String) : Except PlatformError Unit :=
  if isHash hash then .ok () else .error .invalidStateHash

def requireTimestamp (timestamp : Int) : Except PlatformError Unit :=
  if 0 ≤ timestamp ∧ timestamp ≤ maxSafeInteger then .ok () else .error .invalidTimestamp

def requireCandidate (candidate : Candidate) : Except PlatformError Unit := do
  requireOperationId candidate.operationId
  if candidate.baseVersion < 1 ∨ maxSafeInteger ≤ candidate.baseVersion then throw .invalidBaseVersion
  requireHash candidate.stateHash

/-- The checks of a receipt that was stored. -/
def parseReceipt (receipt : Receipt) : Except PlatformError Receipt := do
  requireOperationId receipt.operationId
  requireHash receipt.requestDigest
  if receipt.baseVersion < 1 ∨ maxSafeInteger < receipt.baseVersion then throw .invalidStoredReceipt
  match receipt.outcome with
  | .pending => return receipt
  | .committed version => if version = receipt.baseVersion + 1 then return receipt else throw .invalidStoredReceipt
  | .rejected headVersion =>
    if 1 ≤ headVersion ∧ headVersion ≤ maxSafeInteger then return receipt else throw .invalidStoredReceipt

/-! ## Transactions -/

/-- The hashes of the object. -/
structure Ports where
  digestCreation : Identity → String → String
  digestCandidate : Identity → Candidate → String
  /-- What `capture` and `store` give an editor's call: the hash under which its snapshot is stored. -/
  snapshot : Nat → Except String String

/-- What a transaction or a change of roots has done. -/
inductive Entry where
  | begun (identity : IdentityObject) (stateHash : String)
  | created (identity : IdentityObject) (stateHash : String)
  | offered (candidate : Candidate)
  | committed (operationId : String)
  | retained (requestId stateHash : String)
  deriving DecidableEq, Repr

/-- The answer of a transaction that commits, and what it has done. -/
abbrev Committed (β : Type) := β × Option (Entry × Db)

def Db.version (d : Db) (version : Nat) : Except PlatformError DocumentVersion :=
  match d.versions.lookup version with
  | some row => .ok ⟨version, row.stateHash, row.createdAt⟩
  | none => .error .noRow

/-- The transaction of `beginCreate`. -/
def beginCreateTx (ports : Ports) (identity : IdentityObject) (stateHash : String) (d : Db) :
    Except PlatformError (Committed Creation) :=
  let creation : Creation := ⟨identity, stateHash, ports.digestCreation identity.fields stateHash⟩
  match d.document with
  | some existing => do
    if existing.identity ≠ identity.fields then throw .createConflict
    let first ← d.version 1
    if first.stateHash ≠ stateHash then throw .createConflict
    return (creation, none)
  | none =>
    match d.creation with
    | some pending =>
      if pending.identity ≠ identity.text ∨ pending.stateHash ≠ stateHash ∨ pending.requestDigest ≠ creation.requestDigest then
        .error .createConflict
      else .ok (creation, none)
    | none => .ok (creation, some (.begun identity stateHash,
        { d with creation := some ⟨identity.text, stateHash, creation.requestDigest⟩ }))

/-- The transaction of `createRetained`. -/
def createRetainedTx (identity : IdentityObject) (stateHash : String) (createdAt : Int) (d : Db) :
    Except PlatformError (Committed (IdentityObject × DocumentVersion)) :=
  match d.document with
  | some existing => do
    if existing.identity ≠ identity.fields then throw .identityConflict
    let head ← d.version existing.headVersion
    if head.version ≠ 1 ∨ head.stateHash ≠ stateHash then throw .createConflict
    return ((identity, head), none)
  | none =>
    match d.creation with
    | none => .error .noRow
    | some pending => do
      if pending.identity ≠ identity.text ∨ pending.stateHash ≠ stateHash then throw .createConflict
      let versions ← insertInto .constraint 1 ⟨stateHash, createdAt⟩ d.versions
      return ((identity, ⟨1, stateHash, createdAt⟩), some (.created identity stateHash,
        { d with document := some ⟨identity.fields, 1⟩, versions := versions, creation := none }))

/-- The unique index over pending intents, for a row to be inserted. -/
def pendingFree (intents : Table String IntentRow) (row : IntentRow) : Bool :=
  row.state ≠ .pending || !intents.has fun _ other => other.state = .pending

/-- The receipt that an operation is given first, and its row. -/
def Candidate.receipt (candidate : Candidate) (requestDigest : String) (headVersion : Nat) : Receipt :=
  ⟨candidate.operationId, candidate.baseVersion, requestDigest,
    if candidate.baseVersion = headVersion then .pending else .rejected headVersion⟩

def Candidate.intent (candidate : Candidate) (requestDigest : String) (headVersion : Nat) : IntentRow :=
  let receipt := candidate.receipt requestDigest headVersion
  ⟨candidate.baseVersion, requestDigest, candidate.stateHash, receipt.outcome.state, receipt⟩

/-- The transaction of `beginCommit`; the digest was computed before it. -/
def beginCommitTx (requestDigest : String) (candidate : Candidate) (d : Db) : Except PlatformError (Committed Receipt) :=
  match d.document with
  | none => .error .documentNotFound
  | some document =>
    match d.intents.lookup candidate.operationId with
    | some existing => do
      if existing.requestDigest ≠ requestDigest ∨ existing.baseVersion ≠ candidate.baseVersion
          ∨ existing.stateHash ≠ candidate.stateHash then throw .payloadConflict
      return (← parseReceipt existing.receipt, none)
    | none => do
      let row := candidate.intent requestDigest document.headVersion
      guardRow .constraint (pendingFree d.intents row)
      let intents ← insertInto .constraint candidate.operationId row d.intents
      return (row.receipt, some (.offered candidate, { d with intents := intents }))

/-- The receipt of a commit, and its row. -/
def Receipt.commit (operationId : String) (receipt : Receipt) : Receipt :=
  ⟨operationId, receipt.baseVersion, receipt.requestDigest, .committed (receipt.baseVersion + 1)⟩

def IntentRow.commit (operationId : String) (row : IntentRow) : IntentRow :=
  { row with state := .committed, receipt := row.receipt.commit operationId }

/-- The transaction of `commitRetained`. -/
def commitRetainedTx (operationId : String) (committedAt : Int) (d : Db) : Except PlatformError (Committed Receipt) :=
  match d.document with
  | none => .error .documentNotFound
  | some document =>
    match d.intents.lookup operationId with
    | none => .error .operationNotFound
    | some intent => do
      let receipt ← parseReceipt intent.receipt
      if receipt.outcome ≠ .pending then return (receipt, none)
      if document.headVersion ≠ receipt.baseVersion then throw .pendingHeadChanged
      let version := receipt.baseVersion + 1
      let versions ← insertInto .constraint version ⟨intent.stateHash, committedAt⟩ d.versions
      return (receipt.commit operationId, some (.committed operationId,
        { d with
          document := some { document with headVersion := version }
          versions := versions
          intents := d.intents.insert operationId (intent.commit operationId) }))

/-- The change of roots that `retainRoot` asks the content store for, which applies a request id once. -/
def retainTx (requestId stateHash : String) (d : Db) : Except PlatformError (Committed Unit) :=
  match d.retained.lookup requestId with
  | some applied => if applied = stateHash then .ok ((), none) else .error .retentionFailed
  | none => .ok ((), some (.retained requestId stateHash, { d with retained := d.retained.insert requestId stateHash }))

/-! ## The object -/

abbrev PlatformProg (α : Type) := DbProg Db PlatformError Nat Entry α

def beginCreate (ports : Ports) (i : Nat) (identity : IdentityObject) (stateHash : String) : PlatformProg Creation := do
  evaluate (requireIdentity identity)
  evaluate (requireHash stateHash)
  batch i (beginCreateTx ports identity stateHash)

def createRetained (i : Nat) (identity : IdentityObject) (stateHash : String) (createdAt : Int) :
    PlatformProg (IdentityObject × DocumentVersion) := do
  evaluate (requireIdentity identity)
  evaluate (requireHash stateHash)
  evaluate (requireTimestamp createdAt)
  batch i (createRetainedTx identity stateHash createdAt)

def requireDocument : PlatformProg DocumentRow := do
  let document ← read fun d => d.document
  match document with
  | none => throw .documentNotFound
  | some document => return document

def beginCommit (ports : Ports) (i : Nat) (candidate : Candidate) : PlatformProg Receipt := do
  evaluate (requireCandidate candidate)
  let document ← requireDocument
  batch i (beginCommitTx (ports.digestCandidate document.identity candidate) candidate)

def commitRetained (i : Nat) (operationId : String) (committedAt : Int) : PlatformProg Receipt := do
  evaluate (requireOperationId operationId)
  evaluate (requireTimestamp committedAt)
  batch i (commitRetainedTx operationId committedAt)

/-- `commitStatus`: `none` is the state `unknown`. -/
def commitStatus (operationId : String) : PlatformProg (Option Receipt) := do
  evaluate (requireOperationId operationId)
  let intent ← read fun d => d.intents.lookup operationId
  match intent with
  | none => return none
  | some intent => return some (← evaluate (parseReceipt intent.receipt))

/-- `PlatformPendingCommit`. -/
structure PendingCommit where
  candidate : Candidate
  receipt : Receipt
  deriving DecidableEq, Repr

def pendingCommit (operationId : String) : PlatformProg (Option PendingCommit) := do
  evaluate (requireOperationId operationId)
  let intent ← read fun d => d.intents.lookup operationId
  match intent with
  | none => return none
  | some intent =>
    let receipt ← evaluate (parseReceipt intent.receipt)
    if receipt.outcome ≠ .pending then return none
    else return some ⟨⟨operationId, intent.baseVersion, intent.stateHash⟩, receipt⟩

/-- `read`. -/
def readDocument : PlatformProg (Option (Identity × DocumentVersion)) := do
  let row ← read fun d => d.document.map fun document => (document.identity, d.version document.headVersion)
  match row with
  | none => return none
  | some (identity, head) => return some (identity, ← evaluate head)

/-! ## The coordinator -/

/-- The request ids under which roots are retained. -/
def createRequestId (requestDigest : String) : String := "platform-create-" ++ requestDigest ++ "-root"

def commitRequestId (requestDigest : String) : String := "platform-commit-" ++ requestDigest ++ "-root"

/-- `retainRoot` of `createPlatformRootRetention`. -/
def retainRoot (i : Nat) (requestId stateHash : String) : PlatformProg Unit := do
  evaluate (if isOperationId requestId && isHash stateHash then .ok () else .error .invalidRetention)
  batch i (retainTx requestId stateHash)

def createPlatformDocument (ports : Ports) (i : Nat) (identity : IdentityObject) (initialStateHash : String) (createdAt : Int) :
    PlatformProg (IdentityObject × DocumentVersion) := do
  let creation ← beginCreate ports i identity initialStateHash
  retainRoot i (createRequestId creation.requestDigest) creation.stateHash
  createRetained i creation.identity creation.stateHash createdAt

def resumePlatformCommit (i : Nat) (operationId : String) (committedAt : Int) : PlatformProg (Option Receipt) := do
  let pending ← pendingCommit operationId
  match pending with
  | none => commitStatus operationId
  | some pending =>
    retainRoot i (commitRequestId pending.receipt.requestDigest) pending.candidate.stateHash
    return some (← commitRetained i operationId committedAt)

def commitPlatformDocument (ports : Ports) (i : Nat) (candidate : Candidate) (committedAt : Int) : PlatformProg Receipt := do
  let receipt ← beginCommit ports i candidate
  if receipt.outcome ≠ .pending then return receipt
  let resumed ← resumePlatformCommit i candidate.operationId committedAt
  match resumed with
  | none => throw .pendingDisappeared
  | some resumed => return resumed

def commitPlatformEditorSnapshot (ports : Ports) (i : Nat) (operationId : String) (baseVersion : Nat) (committedAt : Int) :
    PlatformProg (Option Receipt) := do
  let status ← commitStatus operationId
  match status with
  | some receipt =>
    if receipt.outcome = .pending then resumePlatformCommit i operationId committedAt else return some receipt
  | none =>
    let stateHash ← evaluate ((ports.snapshot i).mapError .capture)
    return some (← commitPlatformDocument ports i ⟨operationId, baseVersion, stateHash⟩ committedAt)

/-! ## The machine -/

inductive Request where
  | create (identity : IdentityObject) (initialStateHash : String) (createdAt : Int)
  | commit (candidate : Candidate) (committedAt : Int)
  | resume (operationId : String) (committedAt : Int)
  | snapshot (operationId : String) (baseVersion : Nat) (committedAt : Int)
  | status (operationId : String)
  | read
  deriving DecidableEq, Repr

inductive Response where
  | created (identity : IdentityObject) (head : DocumentVersion)
  | receipt (receipt : Option Receipt)
  | document (document : Option (Identity × DocumentVersion))
  deriving DecidableEq, Repr

def serve (ports : Ports) (i : Nat) : Request → PlatformProg Response
  | .create identity initialStateHash createdAt => do
    let (identity, head) ← createPlatformDocument ports i identity initialStateHash createdAt
    return .created identity head
  | .commit candidate committedAt => do return .receipt (some (← commitPlatformDocument ports i candidate committedAt))
  | .resume operationId committedAt => do return .receipt (← resumePlatformCommit i operationId committedAt)
  | .snapshot operationId baseVersion committedAt => do
    return .receipt (← commitPlatformEditorSnapshot ports i operationId baseVersion committedAt)
  | .status operationId => do return .receipt (← commitStatus operationId)
  | .read => do return .document (← readDocument)

/-- Requests to one object, transaction by transaction in any order. -/
abbrev platform (ports : Ports) := machine (δ := Db) PlatformError.storage (serve ports)

abbrev PlatformPool := DbPool Db PlatformError Nat Entry Response Request

/-- The tables of a fresh object. -/
def Db.empty : Db := ⟨none, ∅, none, ∅, ∅⟩

end UniDocs.Platform
