import Mathlib.Logic.Function.Basic
import UniDocs.DocumentTypes.Store
import UniDocs.Lib.JsString

/-!
# The operations on document types

`create` and `update` of `createDocumentTypeService` and `append` of `createDocumentContractService` with their repositories, as
programs over the tables. What the clocks show and what is drawn is given by the number of the call; digests are parameters.
-/

namespace UniDocs.DocumentTypes

open Lib Lib.Trace
open UniDocs.Administrators (AdminContext)

/-! ## Requests -/

/-- `UpdateDocumentTypeRequest`: a missing operator is not the same as none. -/
structure UpdateRequest where
  internalName : Option String
  typeCardBundleId : Option String
  viewBundleId : Option String
  builtinOperatorId : Option (Option String)
  enabled : Option Bool
  reason : Option String
  deriving DecidableEq, Repr

/-- `AppendDocumentContractRequest`. -/
structure AppendRequest where
  formatVersion : Nat
  snapshot : String
  location : String
  reason : String
  deriving DecidableEq, Repr

/-- The values of which `schemaHash` and `contractHash` take digests. -/
inductive Hashed where
  | createRequest (internalName : String)
  | updateRequest (documentType expectedEtag : String) (body : UpdateRequest)
  | appendRequest (documentType : String) (body : AppendRequest)
  | schema (text : String)
  | contract (documentType : String) (formatVersion : Nat) (snapshot location : String)
  deriving DecidableEq, Repr

/-- What the services and repositories are built with. -/
structure Ports where
  /-- What the clock of the repositories shows to a call, in seconds, reading by reading. -/
  now : Nat → Nat → Int
  /-- What the clock of the services shows to a call, in milliseconds. -/
  clock : Nat → Int
  /-- `crypto.randomUUID()`, draw by draw. -/
  id : Nat → Nat → String
  schemaHash : Hashed → String
  resourceEtag : Representation → String

abbrev AdminProg (α : Type) := DbProg Db PortalError Nat Entry α

/-- The registration of a representation. -/
def Ports.register (ports : Ports) (representation : Representation) : Registration :=
  ⟨representation, ports.resourceEtag representation⟩

/-! ## Checks -/

/-- `DocumentTypeSchema`. -/
def isDocumentType (text : String) : Bool :=
  match text.toList with
  | [] => false
  | c :: cs => c.isLower && cs.length ≤ 63 && cs.all fun c => c.isLower || c.isDigit || c = '-'

/-- `EtagSchema`. -/
def isEtag (text : String) : Bool :=
  let chars := text.toList
  chars.take 8 = "\"sha256-".toList && chars.length = 52 && chars.getLast? = some '"' &&
    (chars.drop 8).dropLast.all fun c => c.isAlphanum || c = '_' || c = '-'

def isKey (key : String) : Bool :=
  key.toList ≠ [] && key.toList.length ≤ 128 && key.toList.all fun c => 0x20 ≤ c.toNat && c.toNat ≤ 0x7e

def isName (name : String) : Bool := Text.trim name ≠ "" && Text.unitLength name ≤ 256

/-- `IdSchema`, of a field that may be missing. -/
def isOptionalId (id : Option String) : Bool := id ≠ some ""

/-- Some setting is updated. -/
def UpdateRequest.changes (request : UpdateRequest) : Bool :=
  request.internalName ≠ none || request.typeCardBundleId ≠ none || request.viewBundleId ≠ none ||
    request.builtinOperatorId ≠ none || request.enabled ≠ none

/-- `updateRequest`: the fingerprint of a request that is valid. -/
def updateRequest (ports : Ports) (documentType : String) (request : UpdateRequest) (key expectedEtag : String) :
    Except PortalError String :=
  if request.changes && request.internalName.all isName && isOptionalId request.typeCardBundleId &&
      isOptionalId request.viewBundleId && isOptionalId request.builtinOperatorId.join && isKey key && isEtag expectedEtag &&
      isDocumentType documentType then
    .ok (ports.schemaHash (.updateRequest documentType expectedEtag request))
  else .error (.operation .invalidRequest)

def documentContentFormatVersion : Nat := 1

def validAppend (documentType : String) (request : AppendRequest) (key : String) : Bool :=
  isDocumentType documentType && request.formatVersion = documentContentFormatVersion && request.reason ≠ "" &&
    Text.unitLength request.reason ≤ 2048 && isKey key

/-! ## Statements that the repositories share -/

/-- `authorize`; `k` is the number of the clock reading. -/
def authorize (ports : Ports) (i k : Nat) (context : AdminContext) : AdminProg Unit := do
  let allowed ← read fun d => d.others.administrators.authority context (ports.now i k)
  evaluate (if allowed then .ok () else .error (.operation .forbidden))

/-- The response of an earlier delivery, for the same fingerprint. -/
def replay (ports : Ports) (i k : Nat) (command : Command) (operation : Operation) : AdminProg (Option Outcome) := do
  authorize ports i k command.context
  let receipt ← read fun d => d.others.receipts.lookup (command.context.memberId, operation, command.key)
  match receipt with
  | none => return none
  | some receipt =>
    evaluate (if receipt.fingerprint = command.fingerprint then .ok () else .error (.operation .idempotencyConflict))
    return some receipt.response

def getRow (documentType : String) : AdminProg (Option DocumentType) := read fun d => d.documentTypes.lookup documentType

/-- `get` of the repository. -/
def getRegistration (ports : Ports) (i k : Nat) (context : AdminContext) (documentType : String) :
    AdminProg (Option Registration) := do
  authorize ports i k context
  let row ← getRow documentType
  return row.map (·.registration)

/-! ## Creation -/

/-- The repository's `create`. -/
def createDocumentType (ports : Ports) (i : Nat) (command : Command) (registration : Registration) : AdminProg Outcome := do
  authorize ports i 0 command.context
  let previous ← replay ports i 1 command .createDocumentType
  match previous with
  | some previous => return previous
  | none =>
    Prog.tryCatch (do
      batch i (createBatch command registration (ports.id i 1) (ports.now i 2))
      return .type registration.representation.documentType registration.etag) fun e => do
      let concurrent ← replay ports i 3 command .createDocumentType
      match concurrent with
      | some concurrent => return concurrent
      | none => throw e

/-- The service's `create`. -/
def create (ports : Ports) (i : Nat) (context : AdminContext) (internalName key requestId : String) : AdminProg Outcome := do
  let documentType := "dt-" ++ ports.id i 0
  evaluate (if isName internalName && isKey key && isDocumentType documentType then .ok ()
    else .error (.operation .invalidRequest))
  let timestamp := ports.clock i
  createDocumentType ports i
    ⟨context, key, ports.schemaHash (.createRequest internalName), timestamp, requestId⟩
    (ports.register ⟨documentType, internalName, false, none, none, none, none, timestamp⟩)

/-! ## Updates -/

/-- The repository's `update`; `k` is the number of its first clock reading. -/
def updateDocumentType (ports : Ports) (i k : Nat) (command : Command) (expectedEtag : String)
    (base registration : Registration) (audits : List (String × Audit)) : AdminProg Outcome := do
  authorize ports i k command.context
  let previous ← replay ports i (k + 1) command .updateDocumentType
  match previous with
  | some previous => return previous
  | none =>
    Prog.tryCatch (do
      batch i (updateBatch command expectedEtag base registration audits (ports.now i (k + 2)))
      return .type registration.representation.documentType registration.etag) fun e => do
      let concurrent ← replay ports i (k + 3) command .updateDocumentType
      match concurrent with
      | some concurrent => return concurrent
      | none =>
        let current ← getRegistration ports i (k + 4) command.context registration.representation.documentType
        match current with
        | none => throw (.operation .notFound)
        | some current => throw (if current.etag ≠ expectedEtag then .operation .preconditionFailed else e)

/-- The candidate of an identifier, when the request has one. -/
def resolve {ρ : Type} (ports : Ports) (i k : Nat) (context : AdminContext) (documentType : String)
    (table : Others → Table (String × String) ρ) (candidateId : Option String) : AdminProg (Option ρ) :=
  match candidateId with
  | none => return none
  | some candidateId => do
    authorize ports i k context
    let record ← read fun d => (table d.others).lookup (documentType, candidateId)
    match record with
    | none => throw (.operation .notFound)
    | some record => return some record

/-- What a request selects: nothing where it has no such field. -/
structure Selection where
  typeCardBundle : Option TypeCardBundleRecord
  viewBundle : Option ViewBundleRecord
  builtinOperator : Option (Option OperatorRecord)
  deriving DecidableEq, Repr

/-- The selection of an operator, or of none. -/
def resolveOperator (ports : Ports) (i k : Nat) (context : AdminContext) (documentType : String)
    (operatorId : Option (Option String)) : AdminProg (Option (Option OperatorRecord)) :=
  match operatorId with
  | none => return none
  | some none => return some none
  | some (some operatorId) => do
    let operator ← resolve ports i k context documentType Others.operators (some operatorId)
    return some operator

/-- The updated representation. -/
def UpdateRequest.apply (request : UpdateRequest) (selection : Selection) (documentType : String) (timestamp : Int)
    (current : Representation) : Representation where
  documentType := documentType
  internalName := request.internalName.getD current.internalName
  enabled := request.enabled.getD current.enabled
  latestDocumentContract := current.latestDocumentContract
  typeCardBundle := selection.typeCardBundle.or current.typeCardBundle
  viewBundle := selection.viewBundle.or current.viewBundle
  builtinOperator := selection.builtinOperator.getD current.builtinOperator
  updatedAt := timestamp

/-- The parts that a type needs to be enabled. -/
def enabledParts (current : Representation) (representation : Representation) :
    Except PortalError (Option (ViewBundleRecord × OperatorRecord)) :=
  if representation.enabled then
    match current.latestDocumentContract, representation.typeCardBundle, representation.viewBundle,
        representation.builtinOperator with
    | some _, some _, some view, some operator => .ok (some (view, operator))
    | _, _, _, _ => .error (.operation .invalidRequest)
  else .ok none

/-- Some index is that of a contract and supported by the view bundle and the operator. -/
def hasCommonIdx (documentType : String) (view : ViewBundleRecord) (operator : OperatorRecord) (contractIdxs : List Int) : Bool :=
  contractIdxs.any fun idx =>
    view.supportedDocumentContractIdxs.contains idx && (operator.contractIdxs documentType).contains idx

/-- `listDocumentContractIdxs`, whose order is not used. -/
def Db.contractIdxs (d : Db) (documentType : String) : List Int :=
  (d.documentContracts.rows fun k _ => k.1 = documentType).map (·.1.2)

/-- The contracts that the parts of an enabled type have in common exist. -/
def checkEnabled (ports : Ports) (i k : Nat) (context : AdminContext) (documentType : String)
    (parts : Option (ViewBundleRecord × OperatorRecord)) : AdminProg Unit :=
  match parts with
  | none => return ()
  | some (view, operator) => do
    authorize ports i k context
    let contractIdxs ← read fun d => d.contractIdxs documentType
    evaluate (if hasCommonIdx documentType view operator contractIdxs then .ok () else .error (.operation .invalidRequest))

/-- What the audit says of an update. -/
def changedActions (request : UpdateRequest) (current updated : Representation) : List AuditAction :=
  (if request.internalName ≠ none ∧ request.internalName ≠ some current.internalName then [.internalNameChanged] else []) ++
  (if request.typeCardBundleId ≠ none ∧ updated.typeCardBundle.map (·.typeCardBundleId)
      ≠ current.typeCardBundle.map (·.typeCardBundleId) then [.typeCardBundleChanged] else []) ++
  (if request.viewBundleId ≠ none ∧ updated.viewBundle.map (·.viewBundleId) ≠ current.viewBundle.map (·.viewBundleId) then
    [.viewBundleChanged] else []) ++
  (if request.builtinOperatorId ≠ none ∧ updated.builtinOperator.map (·.operatorId) ≠ current.builtinOperator.map (·.operatorId)
    then [.operatorChanged] else []) ++
  (if request.enabled ≠ none ∧ updated.enabled ≠ current.enabled then
    [if updated.enabled then .enabled else .disabled] else [])

/-- The service's `update`. -/
def update (ports : Ports) (i : Nat) (context : AdminContext) (documentType : String) (request : UpdateRequest)
    (key expectedEtag requestId : String) : AdminProg Outcome := do
  let fingerprint ← evaluate (updateRequest ports documentType request key expectedEtag)
  let current ← getRegistration ports i 0 context documentType
  match current with
  | none => throw (.operation .notFound)
  | some current =>
    let timestamp := ports.clock i
    let typeCardBundle ← resolve ports i 1 context documentType Others.typeCardBundles request.typeCardBundleId
    let viewBundle ← resolve ports i 2 context documentType Others.viewBundles request.viewBundleId
    let builtinOperator ← resolveOperator ports i 3 context documentType request.builtinOperatorId
    let representation := request.apply ⟨typeCardBundle, viewBundle, builtinOperator⟩ documentType timestamp
      current.representation
    let parts ← evaluate (enabledParts current.representation representation)
    checkEnabled ports i 4 context documentType parts
    let audits := (changedActions request current.representation representation).mapIdx fun n action =>
      (ports.id i n, (⟨context.memberId, action, documentType, documentType, timestamp, requestId, request.reason,
        none, context.attribution⟩ : Audit))
    updateDocumentType ports i 5 ⟨context, key, fingerprint, timestamp, requestId⟩ expectedEtag current
      (ports.register representation) audits

/-! ## Contracts -/

def buildRegistration (ports : Ports) (timestamp : Int) (current : Registration) (record : DocumentContractRecord) :
    Registration :=
  ports.register { current.representation with latestDocumentContract := some record, updatedAt := timestamp }

/-- The record of a contract under an index. -/
def contractRecord (ports : Ports) (documentType : String) (request : AppendRequest) (timestamp idx : Int) :
    DocumentContractRecord where
  documentType := documentType
  documentContractIdx := idx
  formatVersion := request.formatVersion
  snapshot := ⟨"application/vnd.unidocs." ++ documentType ++ ".snapshot+cbor;version=1", request.snapshot,
    ports.schemaHash (.schema request.snapshot)⟩
  location := ⟨"application/vnd.unidocs." ++ documentType ++ ".location+json;version=1", request.location,
    ports.schemaHash (.schema request.location)⟩
  contractHash := ports.schemaHash (.contract documentType request.formatVersion request.snapshot request.location)
  createdAt := timestamp

/-- What a failed attempt goes on with: a receipt, or nothing when the attempt is made again. -/
def afterAttempt (ports : Ports) (i k : Nat) (command : Command) (documentType contractHash : String) (row : DocumentType)
    (e : PortalError) : AdminProg (Option Outcome) := do
  let concurrent ← replay ports i k command .appendDocumentContract
  match concurrent with
  | some concurrent => return some concurrent
  | none =>
    let duplicate ← read fun d => d.documentContracts.has fun k contract =>
      k.1 = documentType && contract.contractHash = contractHash
    evaluate (if duplicate then .error (.operation .invalidRequest) else .ok ())
    let latest ← getRow documentType
    match latest with
    | none => throw (.operation .notFound)
    | some latest =>
      evaluate (if latest.lastContractIdx = row.lastContractIdx ∧ latest.registration.etag = row.registration.etag then .error e
        else .ok none)

/-- The remaining attempts of the repository's `append`. -/
def appendAttempts (ports : Ports) (i : Nat) (command : Command) (documentType : String) (request : AppendRequest) :
    Nat → AdminProg Outcome
  | 0 => throw .contention
  | remaining + 1 => do
    let row ← getRow documentType
    match row with
    | none => throw (.operation .notFound)
    | some row =>
      let record := contractRecord ports documentType request command.occurredAt (row.lastContractIdx + 1)
      let response := Outcome.contract record.documentContractIdx record.contractHash
      let audit : Audit := ⟨command.context.memberId, .contractAppended,
        documentType ++ ":" ++ toString record.documentContractIdx, documentType, command.occurredAt, command.requestId,
        some request.reason, some response, command.context.attribution⟩
      let outcome ← Prog.tryCatch (do
        batch i (appendBatch command row.lastContractIdx row.registration
          (buildRegistration ports command.occurredAt row.registration record) record (ports.id i 0, audit)
          (ports.now i (2 + 2 * remaining)))
        return some response) fun e => afterAttempt ports i (3 + 2 * remaining) command documentType record.contractHash row e
      match outcome with
      | some outcome => return outcome
      | none => appendAttempts ports i command documentType request remaining

/-- The service's `append`; its time is that of a second. -/
def append (ports : Ports) (i : Nat) (context : AdminContext) (documentType : String) (request : AppendRequest)
    (key requestId : String) : AdminProg Outcome := do
  evaluate (if validAppend documentType request key then .ok () else .error (.operation .invalidRequest))
  let timestamp := ports.clock i / 1000 * 1000
  let command : Command := ⟨context, key, ports.schemaHash (.appendRequest documentType request), timestamp, requestId⟩
  authorize ports i 0 context
  let previous ← replay ports i 1 command .appendDocumentContract
  match previous with
  | some previous => return previous
  | none => appendAttempts ports i command documentType request 16

/-! ## The machine -/

inductive Request where
  | create (context : AdminContext) (internalName key requestId : String)
  | update (context : AdminContext) (documentType : String) (request : UpdateRequest) (key expectedEtag requestId : String)
  | append (context : AdminContext) (documentType : String) (request : AppendRequest) (key requestId : String)
  | elsewhere (others : Others)

def serve (ports : Ports) (i : Nat) : Request → AdminProg (Option Outcome)
  | .create context internalName key requestId => do return some (← create ports i context internalName key requestId)
  | .update context documentType request key expectedEtag requestId => do
    return some (← update ports i context documentType request key expectedEtag requestId)
  | .append context documentType request key requestId => do
    return some (← append ports i context documentType request key requestId)
  | .elsewhere others => do
    batch i (elsewhereBatch others)
    return none

/-- Operations over the tables, statement by statement in any order. -/
abbrev portal (ports : Ports) := machine (δ := Db) PortalError.storage (serve ports)

abbrev PortalPool := DbPool Db PortalError Nat Entry (Option Outcome) Request

end UniDocs.DocumentTypes

/-!
## The catalog of document types

What the two tables are for: a type has a registration, and its contracts are numbered from 0 without a gap. The transitions say
what each kind of change needs and does. A transition keeps the catalog consistent when the registration from which the new one
was computed is the one it replaces.
-/

namespace UniDocs.DocumentTypes

/-- Types and contracts. -/
structure Catalog where
  type : String → Option DocumentType
  contract : String × Int → Option DocumentContract

/-- The catalog that the tables hold. -/
def Db.catalog (d : Db) : Catalog := ⟨d.documentTypes.lookup, d.documentContracts.lookup⟩

namespace Catalog

/-- The parts of a representation are there and support a contract that exists. -/
def Usable (c : Catalog) (documentType : String) (representation : Representation) : Prop :=
  ∃ card view operator idx contract, representation.typeCardBundle = some card ∧ representation.viewBundle = some view
    ∧ representation.builtinOperator = some operator ∧ idx ∈ view.supportedDocumentContractIdxs
    ∧ idx ∈ operator.contractIdxs documentType ∧ c.contract (documentType, idx) = some contract

/-- What holds of a consistent catalog. -/
structure Consistent (ports : Ports) (c : Catalog) : Prop where
  etag : ∀ documentType row, c.type documentType = some row →
    row.registration.etag = ports.resourceEtag row.registration.representation
  columns : ∀ documentType row, c.type documentType = some row → row.internalName = row.registration.representation.internalName
    ∧ row.enabled = row.registration.representation.enabled
  orphan : ∀ documentType n, c.type documentType = none → c.contract (documentType, n) = none
  bound : ∀ documentType row, c.type documentType = some row → -1 ≤ row.lastContractIdx
  indexes : ∀ documentType row, c.type documentType = some row → ∀ n, (∃ contract, c.contract (documentType, n) = some contract) ↔
    0 ≤ n ∧ n ≤ row.lastContractIdx
  hashes : ∀ documentType m n a b, c.contract (documentType, m) = some a → c.contract (documentType, n) = some b →
    a.contractHash = b.contractHash → m = n
  latest : ∀ documentType row, c.type documentType = some row →
    row.registration.representation.latestDocumentContract = (c.contract (documentType, row.lastContractIdx)).map (·.record)
  enabled : ∀ documentType row, c.type documentType = some row → row.registration.representation.enabled = true →
    c.Usable documentType row.registration.representation

end Catalog

/-- What a change needs and does. -/
def Transition (ports : Ports) : Entry → Catalog → Catalog → Prop
  | .created registration, c, c' =>
    c.type registration.representation.documentType = none ∧ registration.etag = ports.resourceEtag registration.representation
      ∧ registration.representation.enabled = false ∧ registration.representation.latestDocumentContract = none
      ∧ c'.contract = c.contract
      ∧ ∃ createdAt, c'.type = Function.update c.type registration.representation.documentType
        (some ⟨registration.representation.internalName, false, registration, createdAt, -1⟩)
  | .updated expectedEtag base registration old, c, c' =>
    c.type registration.representation.documentType = some old ∧ old.registration.etag = expectedEtag
      ∧ base.etag = ports.resourceEtag base.representation ∧ registration.etag = ports.resourceEtag registration.representation
      ∧ registration.representation.latestDocumentContract = base.representation.latestDocumentContract
      ∧ (registration.representation.enabled = true →
        c.Usable registration.representation.documentType registration.representation)
      ∧ c'.contract = c.contract
      ∧ c'.type = Function.update c.type registration.representation.documentType (some (old.withRegistration registration))
  | .appended base registration record old, c, c' =>
    c.type record.documentType = some old ∧ old.registration.etag = base.etag
      ∧ base.etag = ports.resourceEtag base.representation ∧ record.documentContractIdx = old.lastContractIdx + 1
      ∧ (∃ timestamp, registration = buildRegistration ports timestamp base record)
      ∧ c.contract (record.documentType, record.documentContractIdx) = none
      ∧ (∀ n other, c.contract (record.documentType, n) = some other → other.contractHash ≠ record.contractHash)
      ∧ (∃ createdAt, c'.contract = Function.update c.contract (record.documentType, record.documentContractIdx)
        (some ⟨record.contractHash, record, createdAt⟩))
      ∧ c'.type = Function.update c.type record.documentType
        (some { old.withRegistration registration with lastContractIdx := record.documentContractIdx })
  | .elsewhere, c, c' => c' = c

/-- The new registration was computed from the one it replaces. -/
def Entry.Fresh : Entry → Prop
  | .updated _ base _ old => base.representation = old.registration.representation
  | .appended base _ _ old => base.representation = old.registration.representation
  | _ => True

/-! ## How a transition changes the catalog -/

variable {ports : Ports} {e : Entry} {c c' : Catalog}

/-- A contract that exists stays as it is. -/
theorem Transition.contract (h : Transition ports e c c') {k : String × Int} {contract : DocumentContract}
    (hk : c.contract k = some contract) : c'.contract k = some contract := by
  cases e with
  | created registration =>
    obtain ⟨_, _, _, _, hcontract, _⟩ := h
    rw [hcontract, hk]
  | updated expectedEtag base registration old =>
    obtain ⟨_, _, _, _, _, _, hcontract, _⟩ := h
    rw [hcontract, hk]
  | appended base registration record old =>
    obtain ⟨_, _, _, _, _, hnone, _, ⟨_, hcontract⟩, _⟩ := h
    have hne : k ≠ (record.documentType, record.documentContractIdx) := by
      rintro rfl
      rw [hnone] at hk
      cases hk
    rw [hcontract, Function.update_of_ne hne, hk]
  | elsewhere => rw [show c' = c from h, hk]

theorem Catalog.Usable.transition (h : Transition ports e c c') {documentType : String} {representation : Representation}
    (hu : c.Usable documentType representation) : c'.Usable documentType representation := by
  obtain ⟨card, view, operator, idx, contract, hcard, hview, hoperator, hidx, hidx', hcontract⟩ := hu
  exact ⟨card, view, operator, idx, contract, hcard, hview, hoperator, hidx, hidx', h.contract hcontract⟩

/-- The row of a type after a transition: as it was, or the row of that transition. -/
theorem update_cases {κ ρ : Type} [DecidableEq κ] {f : κ → Option ρ} {k k' : κ} {r r' : ρ}
    (h : Function.update f k (some r) k' = some r') : (k' = k ∧ r' = r) ∨ (k' ≠ k ∧ f k' = some r') := by
  by_cases hk : k' = k
  · subst hk
    rw [Function.update_self] at h
    exact .inl ⟨rfl, (Option.some.inj h).symm⟩
  · rw [Function.update_of_ne hk] at h
    exact .inr ⟨hk, h⟩

/-- The etag of a registration is that of its other fields, from whatever it was computed. -/
def Catalog.Tagged (ports : Ports) (c : Catalog) : Prop :=
  ∀ documentType row, c.type documentType = some row →
    row.registration.etag = ports.resourceEtag row.registration.representation

theorem Catalog.Tagged.transition (h : Transition ports e c c') (ht : c.Tagged ports) : c'.Tagged ports := by
  intro documentType row hrow
  cases e with
  | created registration =>
    obtain ⟨_, hetag, _, _, _, _, htype⟩ := h
    rw [htype] at hrow
    rcases update_cases hrow with ⟨rfl, rfl⟩ | ⟨_, hrow⟩
    · exact hetag
    · exact ht documentType row hrow
  | updated expectedEtag base registration old =>
    obtain ⟨_, _, _, hetag, _, _, _, htype⟩ := h
    rw [htype] at hrow
    rcases update_cases hrow with ⟨rfl, rfl⟩ | ⟨_, hrow⟩
    · exact hetag
    · exact ht documentType row hrow
  | appended base registration record old =>
    obtain ⟨_, _, _, _, ⟨timestamp, rfl⟩, _, _, _, htype⟩ := h
    rw [htype] at hrow
    rcases update_cases hrow with ⟨rfl, rfl⟩ | ⟨_, hrow⟩
    · rfl
    · exact ht documentType row hrow
  | elsewhere =>
    rw [show c' = c from h] at hrow
    exact ht documentType row hrow

end UniDocs.DocumentTypes
