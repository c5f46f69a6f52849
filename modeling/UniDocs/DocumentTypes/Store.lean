import UniDocs.Administrators.Store

/-!
# Document types and their contracts

The tables of document types and of document contracts and the batches of `D1DocumentTypeRepository` and
`D1DocumentContractRepository`. The registration of a type is one JSON value that embeds the latest contract and the selected
bundles and operator. Whatever other services write, they write to the other tables.
-/

namespace UniDocs.DocumentTypes

open Lib Lib.Trace
open UniDocs.Administrators (AdminContext)

/-! ## Records -/

/-- A schema of a contract, as JSON text, with what is derived from it. -/
structure ContractSchema where
  contentType : String
  schema : String
  schemaHash : String
  deriving DecidableEq, Repr

structure DocumentContractRecord where
  documentType : String
  documentContractIdx : Int
  formatVersion : Nat
  snapshot : ContractSchema
  location : ContractSchema
  contractHash : String
  createdAt : Int
  deriving DecidableEq, Repr

/-- The `content` of a record is the JSON text of its other fields. -/
structure TypeCardBundleRecord where
  typeCardBundleId : String
  content : String
  deriving DecidableEq, Repr

structure ViewBundleRecord where
  viewBundleId : String
  supportedDocumentContractIdxs : List Int
  content : String
  deriving DecidableEq, Repr

structure OperatorRecord where
  operatorId : String
  supportedDocumentContracts : List (String × List Int)
  content : String
  deriving DecidableEq, Repr

/-- The contract indexes that the descriptor of an operator has for a type. -/
def OperatorRecord.contractIdxs (operator : OperatorRecord) (documentType : String) : List Int :=
  (operator.supportedDocumentContracts.lookup documentType).getD []

/-- A registration without its etag. -/
structure Representation where
  documentType : String
  internalName : String
  enabled : Bool
  latestDocumentContract : Option DocumentContractRecord
  typeCardBundle : Option TypeCardBundleRecord
  viewBundle : Option ViewBundleRecord
  builtinOperator : Option OperatorRecord
  updatedAt : Int
  deriving DecidableEq, Repr

/-- `DocumentTypeRegistration`. -/
structure Registration where
  representation : Representation
  etag : String
  deriving DecidableEq, Repr

/-! ## Tables -/

/-- A row of `portal_document_types`. -/
structure DocumentType where
  internalName : String
  enabled : Bool
  registration : Registration
  createdAt : Int
  lastContractIdx : Int
  deriving DecidableEq, Repr

/-- A row of `portal_document_contracts`. -/
structure DocumentContract where
  contractHash : String
  record : DocumentContractRecord
  createdAt : Int
  deriving DecidableEq, Repr

inductive Operation where
  | createDocumentType
  | updateDocumentType
  | appendDocumentContract
  deriving DecidableEq, Repr

/-- The response of a receipt. -/
inductive Outcome where
  | type (documentType etag : String)
  | contract (documentContractIdx : Int) (contractHash : String)
  deriving DecidableEq, Repr

/-- A row of `portal_idempotency_receipts`. -/
structure Receipt where
  fingerprint : String
  response : Outcome
  createdAt : Int
  deriving DecidableEq, Repr

inductive AuditAction where
  | registered
  | internalNameChanged
  | typeCardBundleChanged
  | viewBundleChanged
  | operatorChanged
  | enabled
  | disabled
  | contractAppended
  deriving DecidableEq, Repr

/-- A row of `portal_admin_audit`. -/
structure Audit where
  actorId : String
  action : AuditAction
  resourceId : String
  documentType : String
  occurredAt : Int
  requestId : String
  reason : Option String
  details : Option Outcome
  attribution : Option String × Option String × Option String
  deriving DecidableEq, Repr

/-- The other tables: those of administrators and sessions, candidates by document type, receipts and the audit. -/
structure Others where
  administrators : Administrators.Db
  typeCardBundles : Table (String × String) TypeCardBundleRecord
  viewBundles : Table (String × String) ViewBundleRecord
  operators : Table (String × String) OperatorRecord
  receipts : Table (String × Operation × String) Receipt
  audits : Table String Audit

structure Db where
  documentTypes : Table String DocumentType
  documentContracts : Table (String × Int) DocumentContract
  others : Others

inductive OperationCode where
  | invalidRequest
  | notFound
  | idempotencyConflict
  | preconditionFailed
  | forbidden
  deriving DecidableEq, Repr

/-- What is thrown: an operation error, a violated constraint, the end of the retries, or a failure of the database. -/
inductive PortalError where
  | operation (code : OperationCode)
  | constraint
  | contention
  | storage
  deriving DecidableEq, Repr

/-! ## Batches -/

/-- What a batch has done; `base` is the registration from which the new one was computed, and `old` the row it replaces. -/
inductive Entry where
  | created (registration : Registration)
  | updated (expectedEtag : String) (base registration : Registration) (old : DocumentType)
  | appended (base registration : Registration) (record : DocumentContractRecord) (old : DocumentType)
  | elsewhere
  deriving DecidableEq, Repr

/-- The answer of a batch that commits, and what it has done. -/
abbrev Committed (β : Type) := β × Option (Entry × Db)

def insertInto {κ ρ : Type} [DecidableEq κ] (k : κ) (row : ρ) (table : Table κ ρ) : Except PortalError (Table κ ρ) :=
  match table.insertNew k row with
  | some table => .ok table
  | none => .error .constraint

/-- A row for `portal_mutation_guard`. -/
def guardRow (condition : Bool) : Except PortalError Unit := if condition then .ok () else .error .constraint

/-- What every command has: who makes it, the key of its receipt, and what the audit says. -/
structure Command where
  context : AdminContext
  key : String
  fingerprint : String
  occurredAt : Int
  requestId : String
  deriving DecidableEq, Repr

def insertAudits : List (String × Audit) → Table String Audit → Except PortalError (Table String Audit)
  | [], audits => .ok audits
  | (id, audit) :: rest, audits => do
    let audits ← insertInto id audit audits
    insertAudits rest audits

/-- The statements that the batches share: the guard of the actor, the receipt and the audit. -/
def commitOthers (command : Command) (operation : Operation) (response : Outcome) (createdAt : Int)
    (audits : List (String × Audit)) (now : Int) (others : Others) : Except PortalError Others := do
  guardRow (others.administrators.authority command.context now)
  let receipts ← insertInto (command.context.memberId, operation, command.key) ⟨command.fingerprint, response, createdAt⟩
    others.receipts
  let audits ← insertAudits audits others.audits
  return { others with receipts := receipts, audits := audits }

/-- The columns that repeat fields of the registration. -/
def DocumentType.withRegistration (row : DocumentType) (registration : Registration) : DocumentType :=
  { row with
    internalName := registration.representation.internalName
    enabled := registration.representation.enabled
    registration := registration }

/-- The batch of `create`. -/
def createBatch (command : Command) (registration : Registration) (auditId : String) (now : Int) (d : Db) :
    Except PortalError (Committed Unit) := do
  let representation := registration.representation
  let documentType := representation.documentType
  let others ← commitOthers command .createDocumentType (.type documentType registration.etag) representation.updatedAt
    [(auditId, ⟨command.context.memberId, .registered, documentType, documentType, command.occurredAt, command.requestId, none,
      none, command.context.attribution⟩)] now d.others
  let documentTypes ← insertInto documentType
    ⟨representation.internalName, representation.enabled, registration, representation.updatedAt, -1⟩ d.documentTypes
  return ((), some (.created registration, { d with documentTypes := documentTypes, others := others }))

/-- The batch of `update`, which does not look at `base`. -/
def updateBatch (command : Command) (expectedEtag : String) (base registration : Registration) (audits : List (String × Audit))
    (now : Int) (d : Db) : Except PortalError (Committed Unit) := do
  let documentType := registration.representation.documentType
  let others ← commitOthers command .updateDocumentType (.type documentType registration.etag)
    registration.representation.updatedAt audits now d.others
  match d.documentTypes.lookup documentType with
  | none => .error .constraint
  | some row =>
    guardRow (row.registration.etag = expectedEtag)
    return ((), some (.updated expectedEtag base registration row,
      { d with
        documentTypes := d.documentTypes.insert documentType (row.withRegistration registration)
        others := others }))

/-- The batch of `append`, for the index after the one that was read with the registration `current`. -/
def appendBatch (command : Command) (lastContractIdx : Int) (current registration : Registration)
    (record : DocumentContractRecord) (audit : String × Audit) (now : Int) (d : Db) : Except PortalError (Committed Unit) := do
  let documentType := record.documentType
  let others ← commitOthers command .appendDocumentContract (.contract record.documentContractIdx record.contractHash)
    command.occurredAt [audit] now d.others
  match d.documentTypes.lookup documentType with
  | none => .error .constraint
  | some row =>
    guardRow (row.lastContractIdx = lastContractIdx && row.registration.etag = current.etag)
    guardRow (!d.documentContracts.has fun k contract => k.1 = documentType && contract.contractHash = record.contractHash)
    let documentContracts ← insertInto (documentType, record.documentContractIdx)
      ⟨record.contractHash, record, command.occurredAt⟩ d.documentContracts
    return ((), some (.appended current registration record row,
      { d with
        documentTypes := d.documentTypes.insert documentType
          { row.withRegistration registration with lastContractIdx := record.documentContractIdx }
        documentContracts := documentContracts
        others := others }))

/-- Another service writes to the other tables. -/
def elsewhereBatch (others : Others) (d : Db) : Except PortalError (Committed Unit) :=
  .ok ((), some (.elsewhere, { d with others := others }))

end UniDocs.DocumentTypes
