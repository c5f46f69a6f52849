import UniDocs.Lib.Result
import UniDocs.Lib.Table
import UniDocs.Lib.Trace

/-!
# The control database

The tables of `D1ControlPlaneAdminRepository` and its batches. A batch is a chain of statements: the first that violates a
constraint, or whose guard evaluates the deliberately malformed JSON, aborts it with nothing changed. A batch that commits is
labelled with what it has done.
-/

namespace UniDocs.Control

open Lib Lib.Trace

/-! ## Rows -/

/-- `CasOperatorIdentityKey`. -/
structure IdentityKey where
  identityIssuer : String
  subject : String
  deriving DecidableEq, Repr

/-- A row of `cas_operator_identities`. -/
structure IdentityRow where
  displayName : Option String
  emailForDisplay : Option String
  createdAt : Int
  deriving DecidableEq, Repr

inductive StackStatus where
  | active
  | suspended
  deriving DecidableEq, Repr

/-- `ControlStackRecord`. -/
structure Stack where
  stackId : String
  displayName : String
  description : String
  status : StackStatus
  createdAt : Int
  revision : Nat
  deriving DecidableEq, Repr

inductive InvitationStatus where
  | pending
  | accepted
  | expired
  | revoked
  deriving DecidableEq, Repr

/-- `ControlMemberInvitationRecord`. -/
structure Invitation where
  invitationId : String
  stackId : String
  status : InvitationStatus
  emailConstraint : Option String
  tokenHash : String
  expiresAt : Int
  createdAt : Int
  revision : Nat
  deriving DecidableEq, Repr

/-- The columns of `cas_stack_managed_issuers` that are bound. -/
structure ManagedIssuer where
  stackId : String
  issuer : String
  audience : String
  metadataUrl : String
  authorizationEndpoint : String
  tokenEndpoint : String
  jwksUri : String
  scopesSupported : List String
  codeChallengeMethodsSupported : List String
  verifiedAt : Option Int
  jwksDigest : String
  capabilityMaxLifetimeSeconds : Int
  revision : Nat
  deriving DecidableEq, Repr

/-- `CasStackMember`. -/
structure Member where
  stackId : String
  identity : IdentityKey
  displayName : Option String
  emailForDisplay : Option String
  deriving DecidableEq, Repr

/-- The codes of `CasAdminErrorCodes` that the operations use. -/
inductive ErrorCode where
  | stackMembershipRequired
  | notFound
  | lastMember
  | serviceUnavailable
  | preconditionRequired
  | revisionMismatch
  | idempotencyConflict
  | invalidRequest
  deriving DecidableEq, Repr

/-- What an operation reports. -/
inductive Response where
  | error (code : ErrorCode) (message : String)
  | stack (stack : Stack)
  | invited (invitation : Invitation) (acceptUrl : String)
  | member (member : Member)
  | ok
  deriving DecidableEq, Repr

/-- `ControlAuditRecord`. -/
structure AuditRecord where
  eventId : String
  stackId : Option String
  identity : IdentityKey
  action : String
  target : String
  requestId : Option String
  traceId : Option String
  callerChannel : Option String
  oauthClientHandle : Option String
  toolName : Option String
  createdAt : Int
  deriving DecidableEq, Repr

/-- The primary key of `cas_control_idempotency`. -/
structure IdempotencyKey where
  identity : IdentityKey
  method : String
  canonicalRoute : String
  key : String
  deriving DecidableEq, Repr

/-- The other columns of `cas_control_idempotency`. -/
structure IdempotencyRow where
  payloadHash : String
  response : Response
  createdAt : Int
  expiresAt : Int
  deriving DecidableEq, Repr

/-- The tables that the operations read and write. -/
structure Db where
  identities : Table IdentityKey IdentityRow
  casStacks : Table String Stack
  members : Table (String × IdentityKey) Int
  invitations : Table String Invitation
  issuers : Table String ManagedIssuer
  audits : Table String AuditRecord
  idempotency : Table IdempotencyKey IdempotencyRow
  snapshot : Nat

/-- The database after its migrations. -/
def Db.empty : Db := ⟨∅, ∅, ∅, ∅, ∅, ∅, ∅, 0⟩

/-- What a thrown error is: a `ControlPlaneError`, a violated constraint, the malformed JSON of a guard, a failure of the
database, or one of the provisioner. -/
inductive ControlError where
  | plane (code : ErrorCode) (message : String)
  | unique (table : String)
  | malformedJson
  | storage
  | provisioning
  deriving DecidableEq, Repr

/-! ## Reads -/

namespace Db

def hasMembership (d : Db) (identity : IdentityKey) (stackId : String) : Bool := (stackId, identity) ∈ d.members

/-- `getIdempotency`: the record, when it has not expired. -/
def getIdempotency (d : Db) (key : IdempotencyKey) (now : Int) : Option IdempotencyRow :=
  (d.idempotency.lookup key).filter fun row => now < row.expiresAt

/-- `getInvitationByTokenHash`: the first row with the hash. -/
def getInvitationByTokenHash (d : Db) (tokenHash : String) : Option Invitation :=
  ((d.invitations.rows fun _ row => row.tokenHash = tokenHash).map (·.2)).head?

/-- `SELECT COUNT(*) FROM cas_stack_members WHERE stack_id = ?`. -/
def memberCount (d : Db) (stackId : String) : Int := d.members.count fun k _ => k.1 = stackId

end Db

/-! ## Batches -/

/-- What a batch has done. -/
inductive Entry where
  | created (stack : Stack) (owner : IdentityKey)
  | patched (stack : Stack) (displayName description : String)
  | invited (invitation : Invitation)
  | removed (stackId : String) (identity : IdentityKey)
  | accepted (invitation : Invitation) (identity : IdentityKey) (now : Int)
  deriving DecidableEq, Repr

/-- The database after a batch that commits, with its label. -/
abbrev Batch := Except ControlError (Unit × Option (Entry × Db))

/-- `INSERT INTO` a table. -/
def insertInto {κ ρ : Type} [DecidableEq κ] (name : String) (k : κ) (row : ρ) (table : Table κ ρ) :
    Except ControlError (Table κ ρ) :=
  match table.insertNew k row with
  | some table => .ok table
  | none => .error (.unique name)

/-- The guard `SELECT CASE WHEN … THEN 1 ELSE json_extract('invalid', '$') END`; where the condition is `changes() = 1`, it
fails when the statement before it has changed no row. -/
def guardJson (condition : Bool) : Except ControlError Unit := if condition then .ok () else .error .malformedJson

def mutationStatements (audit : AuditRecord) (d : Db) : Except ControlError Db := do
  let audits ← insertInto "cas_control_audit_events" audit.eventId audit d.audits
  return { d with snapshot := d.snapshot + 1, audits := audits }

/-- `ControlCreateStackPlan`. -/
structure CreateStackPlan where
  stack : Stack
  owner : IdentityKey
  joinedAt : Int
  managedIssuer : Option ManagedIssuer
  audit : AuditRecord
  idempotency : Option (IdempotencyKey × IdempotencyRow)

/-- The insertion of the issuer, where there is one; of two stacks the issuers differ. -/
def insertIssuer (issuer : Option ManagedIssuer) (issuers : Table String ManagedIssuer) :
    Except ControlError (Table String ManagedIssuer) :=
  match issuer with
  | none => .ok issuers
  | some issuer =>
    if issuers.has fun _ other => other.issuer = issuer.issuer then .error (.unique "cas_stack_managed_issuers")
    else insertInto "cas_stack_managed_issuers" issuer.stackId issuer issuers

/-- `#idempotencyStatement`, where there is a record. -/
def insertIdempotency (record : Option (IdempotencyKey × IdempotencyRow)) (table : Table IdempotencyKey IdempotencyRow) :
    Except ControlError (Table IdempotencyKey IdempotencyRow) :=
  match record with
  | none => .ok table
  | some (key, row) => insertInto "cas_control_idempotency" key row table

/-- The batch of `commitCreateStack`. -/
def createStackBatch (plan : CreateStackPlan) (d : Db) : Batch := do
  let d ← mutationStatements plan.audit d
  let casStacks ← insertInto "cas_stacks" plan.stack.stackId plan.stack d.casStacks
  let members ← insertInto "cas_stack_members" (plan.stack.stackId, plan.owner) plan.joinedAt d.members
  let issuers ← insertIssuer plan.managedIssuer d.issuers
  let idempotency ← insertIdempotency plan.idempotency d.idempotency
  return ((), some (.created plan.stack plan.owner,
    { d with casStacks := casStacks, members := members, issuers := issuers, idempotency := idempotency }))

/-- `ControlPatchStackPlan`. -/
structure PatchStackPlan where
  stackId : String
  expectedRevision : Nat
  displayName : String
  description : String
  nextRevision : Nat
  audit : AuditRecord

/-- The `UPDATE` of `commitPatchStack`: the row it found and the table after it, where it changes a row. -/
def updateStack (plan : PatchStackPlan) (casStacks : Table String Stack) : Option (Stack × Table String Stack) :=
  match casStacks.lookup plan.stackId with
  | some row =>
    if row.revision = plan.expectedRevision then
      some (row, casStacks.insert plan.stackId
        { row with displayName := plan.displayName, description := plan.description, revision := plan.nextRevision })
    else none
  | none => none

/-- The batch of `commitPatchStack`. -/
def patchStackBatch (plan : PatchStackPlan) (d : Db) : Batch :=
  match updateStack plan d.casStacks with
  | none => .error .malformedJson
  | some (stack, casStacks) => do
    let d ← mutationStatements plan.audit { d with casStacks := casStacks }
    return ((), some (.patched stack plan.displayName plan.description, d))

/-- The batch of `commitCreateMemberInvitation`. -/
def createMemberInvitationBatch (invitation : Invitation) (audit : AuditRecord)
    (record : Option (IdempotencyKey × IdempotencyRow)) (d : Db) : Batch := do
  let d ← mutationStatements audit d
  let invitations ← insertInto "cas_stack_member_invitations" invitation.invitationId invitation d.invitations
  let idempotency ← insertIdempotency record d.idempotency
  return ((), some (.invited invitation, { d with invitations := invitations, idempotency := idempotency }))

/-- The batch of `commitDeleteMember`. -/
def deleteMemberBatch (stackId : String) (expectedRevision : Nat) (identity : IdentityKey) (audit : AuditRecord) (d : Db) :
    Batch := do
  guardJson ((d.casStacks.has fun id row => id = stackId && row.revision = expectedRevision) && 1 < d.memberCount stackId)
  let d ← mutationStatements audit { d with members := d.members.erase (stackId, identity) }
  return ((), some (.removed stackId identity, d))

/-- `ControlAcceptMemberInvitationPlan`. -/
structure AcceptPlan where
  invitationId : String
  stackId : String
  tokenHash : String
  now : Int
  identity : IdentityKey
  row : IdentityRow
  joinedAt : Int
  audit : AuditRecord

/-- The `UPDATE` of `commitAcceptMemberInvitation`: the row it found and the table after it, where it changes a row. -/
def claimInvitation (plan : AcceptPlan) (invitations : Table String Invitation) : Option (Invitation × Table String Invitation) :=
  match invitations.lookup plan.invitationId with
  | some row =>
    if row.tokenHash = plan.tokenHash ∧ row.status = .pending ∧ plan.now < row.expiresAt then
      some (row, invitations.insert plan.invitationId { row with status := .accepted })
    else none
  | none => none

/-- The upsert of the identity: a row that is there keeps when it was created. -/
def synchronizeIdentity (identity : IdentityKey) (row : IdentityRow) (identities : Table IdentityKey IdentityRow) :
    Table IdentityKey IdentityRow :=
  match identities.lookup identity with
  | some old => identities.insert identity { row with createdAt := old.createdAt }
  | none => identities.insert identity row

/-- `INSERT OR IGNORE` of a member. -/
def insertMember (key : String × IdentityKey) (joinedAt : Int) (members : Table (String × IdentityKey) Int) :
    Table (String × IdentityKey) Int :=
  if key ∈ members then members else members.insert key joinedAt

/-- The batch of `commitAcceptMemberInvitation`. -/
def acceptMemberInvitationBatch (plan : AcceptPlan) (d : Db) : Batch :=
  match claimInvitation plan d.invitations with
  | none => .error .malformedJson
  | some (invitation, invitations) => do
    let d ← mutationStatements plan.audit
      { d with
        invitations := invitations
        identities := synchronizeIdentity plan.identity plan.row d.identities
        members := insertMember (plan.stackId, plan.identity) plan.joinedAt d.members }
    return ((), some (.accepted invitation plan.identity plan.now, d))

end UniDocs.Control
