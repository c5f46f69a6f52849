import UniDocs.Control.Store
import UniDocs.Lib.Part
import Mathlib.Data.List.Sort

/-!
# The issuers of stacks

The tables of external OAuth issuers, of their inspections and of managed issuers, next to the other tables of the control
database, with the batches of `commitPatchManagedOAuthIssuer`, `commitInspectOAuthIssuer` and `commitActivateOAuthIssuer`.
-/

namespace UniDocs.Control

open Lib Lib.Trace

/-! ## Rows -/

inductive OAuthMetadataType where
  | oauth
  | oidc
  deriving DecidableEq, Repr

/-- `DiscoveredOAuthMetadata`. -/
structure OAuthMetadata where
  issuer : String
  metadataUrl : String
  metadataType : OAuthMetadataType
  authorizationEndpoint : String
  tokenEndpoint : String
  jwksUri : String
  registrationEndpoint : Option String
  scopesSupported : List String
  codeChallengeMethodsSupported : List String
  deriving DecidableEq, Repr

inductive OAuthIssuerStatus where
  | pending
  | active
  | stale
  | incompatible
  | disabled
  deriving DecidableEq, Repr

/-- A row of `cas_stack_oauth_issuers`, whose mode is `external`. -/
structure OAuthIssuer where
  metadata : OAuthMetadata
  audience : String
  status : OAuthIssuerStatus
  verifiedAt : Option Int
  lastRefreshAt : Option Int
  lastRefreshError : Option String
  jwksDigest : String
  capabilityMaxLifetimeSeconds : Int
  revision : Nat
  deriving DecidableEq, Repr

/-- A row of `cas_oauth_issuer_inspections`. -/
structure Inspection where
  stackId : String
  metadata : OAuthMetadata
  audience : String
  metadataDigest : String
  jwksDigest : String
  challengeHash : String
  capabilityMaxLifetimeSeconds : Int
  createdAt : Int
  expiresAt : Int
  usedAt : Option Int
  revision : Nat
  deriving DecidableEq, Repr

/-- The other columns of `cas_oauth_issuer_inspection_keys`; the JWK as its JSON text. -/
structure InspectionKey where
  algorithm : String
  publicJwk : String
  deriving DecidableEq, Repr

inductive ManagedIssuerStatus where
  | active
  | disabled
  deriving DecidableEq, Repr

/-- The control database with the tables of issuers. The status of a managed issuer is `active` where it is inserted; where an
update has set it, it is in a table of its own. -/
structure ConsoleDb where
  control : Db
  managedStatus : Table String ManagedIssuerStatus
  oauthIssuers : Table String OAuthIssuer
  inspections : Table String Inspection
  inspectionKeys : Table (String × String) InspectionKey

def ConsoleDb.empty : ConsoleDb := ⟨Db.empty, ∅, ∅, ∅, ∅⟩

/-! ## Reads -/

namespace ConsoleDb

def getManagedOAuthIssuer (d : ConsoleDb) (stackId : String) : Option (ManagedIssuer × ManagedIssuerStatus) :=
  (d.control.issuers.lookup stackId).map fun issuer => (issuer, (d.managedStatus.lookup stackId).getD .active)

def hasOAuthIssuerElsewhere (d : ConsoleDb) (issuer stackId : String) : Bool :=
  d.oauthIssuers.has fun id row => row.metadata.issuer = issuer && id ≠ stackId

/-- `listOAuthIssuerInspectionKeys`: the rows by their key identifiers. -/
def listOAuthIssuerInspectionKeys (d : ConsoleDb) (inspectionId : String) : List (String × InspectionKey) :=
  ((d.inspectionKeys.rows fun k _ => k.1 = inspectionId).map fun row => (row.1.2, row.2)).insertionSort
    fun a b => a.1 ≤ b.1

end ConsoleDb

/-! ## Batches -/

/-- What a batch has done. -/
inductive ConsoleEntry where
  | control (e : Entry)
  | managedPatched (stackId : String) (enabled : Bool)
  | inspected (stackId inspectionId : String) (issuer : OAuthIssuer) (inspection : Inspection)
  | activated (stackId inspectionId : String) (activatedAt : Int)
  deriving DecidableEq, Repr

/-- The other tables as a part of the database. -/
def controlPart : Part Db ConsoleDb Entry ConsoleEntry where
  get d := d.control
  set control d := { d with control := control }
  label := .control

/-- The database after a batch that commits, with its label. -/
abbrev ConsoleBatch := Except ControlError (Unit × Option (ConsoleEntry × ConsoleDb))

/-- `#mutationStatements`, next to the tables of issuers. -/
def consoleMutation (audit : AuditRecord) (d : ConsoleDb) : Except ControlError ConsoleDb := do
  let control ← mutationStatements audit d.control
  return { d with control := control }

/-- `INSERT INTO cas_stack_managed_issuers`. -/
def insertManagedIssuer (issuer : ManagedIssuer) (d : ConsoleDb) : Except ControlError ConsoleDb :=
  if d.control.issuers.has fun _ other => other.issuer = issuer.issuer then .error (.unique "cas_stack_managed_issuers")
  else do
    let issuers ← insertInto "cas_stack_managed_issuers" issuer.stackId issuer d.control.issuers
    return { d with control := { d.control with issuers := issuers } }

/-- The batch of `commitPatchManagedOAuthIssuer` for an issuer that is not there yet. -/
def createManagedBatch (issuer : ManagedIssuer) (audit : AuditRecord) (d : ConsoleDb) : ConsoleBatch := do
  let d ← insertManagedIssuer issuer d
  let d ← consoleMutation audit d
  return ((), some (.managedPatched issuer.stackId true, d))

/-- The batch of `commitPatchManagedOAuthIssuer` for an issuer that is there. -/
def patchManagedBatch (stackId : String) (expectedRevision nextRevision : Nat) (enabled : Bool) (audit : AuditRecord)
    (d : ConsoleDb) : ConsoleBatch :=
  match d.control.issuers.lookup stackId with
  | none => .error .malformedJson
  | some row =>
    if row.revision = expectedRevision then do
      let status := if enabled then ManagedIssuerStatus.active else .disabled
      let d ← consoleMutation audit
        { d with
          control := { d.control with issuers := d.control.issuers.insert stackId { row with revision := nextRevision } }
          managedStatus := d.managedStatus.insert stackId status }
      return ((), some (.managedPatched stackId enabled, d))
    else .error .malformedJson

/-- The unique index over issuers, for the row of a stack. -/
def issuerFree (stackId issuer : String) (oauthIssuers : Table String OAuthIssuer) : Bool :=
  !oauthIssuers.has fun id row => id ≠ stackId && row.metadata.issuer = issuer

/-- `INSERT INTO cas_stack_oauth_issuers`: the index is checked before the primary key. -/
def insertOAuthIssuer (stackId : String) (issuer : OAuthIssuer) (oauthIssuers : Table String OAuthIssuer) :
    Except ControlError (Table String OAuthIssuer) :=
  if oauthIssuers.has fun _ row => row.metadata.issuer = issuer.metadata.issuer then
    .error (.unique "cas_stack_oauth_issuers.issuer")
  else insertInto "cas_stack_oauth_issuers.stack_id" stackId issuer oauthIssuers

/-- The `UPDATE` of `commitInspectOAuthIssuer` with its guard: the row before must not be active. -/
def updateOAuthIssuer (stackId : String) (issuer : OAuthIssuer) (oauthIssuers : Table String OAuthIssuer) :
    Except ControlError (Table String OAuthIssuer) :=
  match oauthIssuers.lookup stackId with
  | none => .error .malformedJson
  | some row =>
    if row.revision = issuer.revision - 1 ∧ row.status ≠ .active then
      if issuerFree stackId issuer.metadata.issuer oauthIssuers then
        .ok (oauthIssuers.insert stackId { issuer with revision := row.revision + 1 })
      else .error (.unique "cas_stack_oauth_issuers.issuer")
    else .error .malformedJson

/-- The statement of `commitInspectOAuthIssuer` that writes the issuer record. -/
def writeIssuer (stackId : String) (issuer : OAuthIssuer) (oauthIssuers : Table String OAuthIssuer) :
    Except ControlError (Table String OAuthIssuer) :=
  if issuer.revision = 1 then insertOAuthIssuer stackId issuer oauthIssuers else updateOAuthIssuer stackId issuer oauthIssuers

/-- `DiscoveredOAuthJwk`. -/
structure OAuthJwk where
  kid : String
  algorithm : String
  publicJwk : String
  deriving DecidableEq, Repr

/-- The insertion of the keys of an inspection. -/
def insertKeys (inspectionId : String) (table : Table (String × String) InspectionKey) :
    List OAuthJwk → Except ControlError (Table (String × String) InspectionKey)
  | [] => .ok table
  | key :: keys => do
    let table ← insertInto "cas_oauth_issuer_inspection_keys" (inspectionId, key.kid) ⟨key.algorithm, key.publicJwk⟩ table
    insertKeys inspectionId table keys

/-- `ControlInspectOAuthIssuerPlan`. -/
structure InspectPlan where
  stackId : String
  issuer : OAuthIssuer
  inspectionId : String
  inspection : Inspection
  keys : List OAuthJwk
  audit : AuditRecord

/-- The batch of `commitInspectOAuthIssuer`. -/
def inspectBatch (plan : InspectPlan) (d : ConsoleDb) : ConsoleBatch := do
  let oauthIssuers ← writeIssuer plan.stackId plan.issuer d.oauthIssuers
  let inspections ← insertInto "cas_oauth_issuer_inspections" plan.inspectionId plan.inspection d.inspections
  let inspectionKeys ← insertKeys plan.inspectionId d.inspectionKeys plan.keys
  let d ← consoleMutation plan.audit
    { d with oauthIssuers := oauthIssuers, inspections := inspections, inspectionKeys := inspectionKeys }
  return ((), some (.inspected plan.stackId plan.inspectionId plan.issuer plan.inspection, d))

/-- The first `UPDATE` of `commitActivateOAuthIssuer`, with its guard. -/
def activateIssuer (stackId : String) (expectedRevision : Nat) (activatedAt : Int) (oauthIssuers : Table String OAuthIssuer) :
    Except ControlError (Table String OAuthIssuer) :=
  match oauthIssuers.lookup stackId with
  | none => .error .malformedJson
  | some row =>
    if row.revision = expectedRevision ∧ row.status = .pending then
      .ok (oauthIssuers.insert stackId
        { row with status := .active, verifiedAt := some activatedAt, revision := row.revision + 1 })
    else .error .malformedJson

/-- The second `UPDATE` of `commitActivateOAuthIssuer`, with its guard. -/
def consumeInspection (stackId inspectionId : String) (activatedAt : Int) (inspections : Table String Inspection) :
    Except ControlError (Table String Inspection) :=
  match inspections.lookup inspectionId with
  | none => .error .malformedJson
  | some row =>
    if row.stackId = stackId ∧ row.usedAt = none ∧ activatedAt < row.expiresAt then
      .ok (inspections.insert inspectionId { row with usedAt := some activatedAt, revision := row.revision + 1 })
    else .error .malformedJson

/-- The batch of `commitActivateOAuthIssuer`. -/
def activateBatch (stackId inspectionId : String) (expectedRevision : Nat) (activatedAt : Int) (audit : AuditRecord)
    (d : ConsoleDb) : ConsoleBatch := do
  let oauthIssuers ← activateIssuer stackId expectedRevision activatedAt d.oauthIssuers
  let inspections ← consumeInspection stackId inspectionId activatedAt d.inspections
  let d ← consoleMutation audit { d with oauthIssuers := oauthIssuers, inspections := inspections }
  return ((), some (.activated stackId inspectionId activatedAt, d))

end UniDocs.Control
