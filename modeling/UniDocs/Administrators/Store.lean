import UniDocs.Lib.Result
import UniDocs.Lib.Table
import UniDocs.Lib.Trace

/-!
# The administrators of the portal

The tables of administrators, sessions and receipts and the batches of `D1PortalAuthRepository` and
`D1AdministratorRepository`. A row for `portal_mutation_guard` that is not 1 violates its check, which aborts the batch; a
violated key or index does the same.
-/

namespace UniDocs.Administrators

open Lib Lib.Trace

/-! ## Rows -/

structure AdminIdentity where
  issuer : String
  subject : String
  email : String
  authenticatedAt : Option Int
  loginConfirmedAt : Option Int
  loginConfirmation : Option String
  deriving DecidableEq, Repr

inductive Transport where
  | bearer
  | session
  deriving DecidableEq, Repr

/-- `AdminContext`, with what `auditAttribution` takes from its caller. -/
structure AdminContext where
  memberId : String
  identity : AdminIdentity
  transport : Transport
  sessionHash : Option String
  attribution : Option String × Option String × Option String
  deriving DecidableEq, Repr

/-- A row of `portal_administrators`: the issuer and the subject are both there or both absent. -/
structure Administrator where
  email : String
  bound : Option (String × String)
  active : Bool
  revision : Nat
  addedBy : String
  createdAt : Int
  updatedAt : Int
  deriving DecidableEq, Repr

/-- A row of `portal_session_families`. -/
structure Family where
  memberId : String
  revokedAt : Option Int
  createdAt : Int
  deriving DecidableEq, Repr

/-- A row of `portal_sessions`. -/
structure Session where
  familyId : String
  csrfHash : String
  identity : AdminIdentity
  createdAt : Int
  expiresAt : Int
  deriving DecidableEq, Repr

inductive Operation where
  | addAdministratorMember
  | removeAdministratorMember
  deriving DecidableEq, Repr

/-- A row of `portal_idempotency_receipts`: the fingerprint and the response, an identifier and an etag or nothing. -/
structure Receipt where
  fingerprint : String
  response : Option (String × String)
  createdAt : Int
  deriving DecidableEq, Repr

/-- A row of `portal_admin_audit`. -/
structure AdminAudit where
  actorId : String
  action : String
  resourceId : String
  occurredAt : Int
  requestId : String
  attribution : Option String × Option String × Option String
  deriving DecidableEq, Repr

/-- A row of `portal_auth_audit`. -/
structure AuthAudit where
  memberId : String
  action : String
  occurredAt : Int
  requestId : String
  deriving DecidableEq, Repr

/-- The tables. -/
structure Db where
  administrators : Table String Administrator
  bootstrap : Option String
  families : Table String Family
  sessions : Table String Session
  receipts : Table (String × Operation × String) Receipt
  adminAudit : Table String AdminAudit
  authAudit : Table String AuthAudit

def Db.empty : Db := ⟨∅, none, ∅, ∅, ∅, ∅, ∅⟩

inductive OperationCode where
  | notFound
  | idempotencyConflict
  | administratorExists
  | preconditionFailed
  | cannotRemoveSelf
  | lastAdministrator
  | forbidden
  deriving DecidableEq, Repr

/-- What is thrown: an `AdminAccessError`, an `AdministratorOperationError`, the error of an email that is not valid, a violated
constraint, or a failure of the database. -/
inductive PortalError where
  | unauthorized
  | forbidden
  | invalidEmail
  | operation (code : OperationCode)
  | constraint
  | storage
  deriving DecidableEq, Repr

/-! ## Reads -/

namespace Db

/-- `SELECT … WHERE issuer = ? AND subject = ? AND active = 1`. -/
def findBound (d : Db) (issuer subject : String) : Option (String × Administrator) :=
  (d.administrators.rows fun _ row => row.bound = some (issuer, subject) && row.active).head?

/-- `SELECT … WHERE email = ? AND active = 1 AND subject IS NULL`. -/
def findInvited (d : Db) (email : String) : Option (String × Administrator) :=
  (d.administrators.rows fun _ row => row.email = email && row.active && row.bound = none).head?

/-- `SELECT … WHERE member_id = ? AND active = 1`. -/
def findActive (d : Db) (memberId : String) : Option Administrator :=
  (d.administrators.lookup memberId).filter fun row => row.active

/-- `SELECT COUNT(*) … WHERE active = 1 AND subject IS NOT NULL`. -/
def boundCount (d : Db) : Int := d.administrators.count fun _ row => row.active && row.bound ≠ none

/-- The subquery of `AUTHORITY`: an unrevoked and unexpired session of the member. -/
def hasSession (d : Db) (memberId : String) (sessionHash : Option String) (now : Int) : Bool :=
  match sessionHash.bind d.sessions.lookup with
  | none => false
  | some session =>
    match d.families.lookup session.familyId with
    | none => false
    | some family => family.memberId = memberId && family.revokedAt = none && now < session.expiresAt

def authority (d : Db) (context : AdminContext) (now : Int) : Bool :=
  match d.administrators.lookup context.memberId with
  | none => false
  | some row => row.bound = some (context.identity.issuer, context.identity.subject) && row.active &&
    (context.transport = .bearer || d.hasSession context.memberId context.sessionHash now)

/-- The row of `findSession`: the session with its family and its member. -/
def joinSession (d : Db) (sessionHash : String) (now : Int) : Option (Session × Family × Administrator) :=
  match d.sessions.lookup sessionHash with
  | none => none
  | some session =>
    match d.families.lookup session.familyId with
    | none => none
    | some family =>
      match d.administrators.lookup family.memberId with
      | none => none
      | some member =>
        if family.revokedAt = none ∧ member.active ∧ now < session.expiresAt then some (session, family, member) else none

end Db

/-! ## Batches -/

/-- How a login finds its member. -/
inductive LoginKind where
  | returning
  | bootstrap
  | invitation (revision : Nat)
  deriving DecidableEq, Repr

/-- What a batch or a query has done. -/
inductive Entry where
  | login (kind : LoginKind) (memberId : String) (identity : AdminIdentity) (confirmationTime : Int) (familyId : String)
  | added (context : AdminContext) (now : Int) (adminId : String)
  | removed (context : AdminContext) (now : Int) (adminId : String)
  | revoked (sessionHash memberId : String)
  | found (sessionHash : String) (session : Session) (family : Family) (member : Administrator)
  deriving DecidableEq, Repr

/-- The answer of a batch that commits, and what it has done. -/
abbrev Committed (β : Type) := β × Option (Entry × Db)

/-- `INSERT INTO` a table. -/
def insertInto {κ ρ : Type} [DecidableEq κ] (k : κ) (row : ρ) (table : Table κ ρ) : Except PortalError (Table κ ρ) :=
  match table.insertNew k row with
  | some table => .ok table
  | none => .error .constraint

/-- A row for `portal_mutation_guard`. -/
def guardRow (condition : Bool) : Except PortalError Unit := if condition then .ok () else .error .constraint

/-- The unique indexes over active rows, for a row under a key. -/
def indexFree (administrators : Table String Administrator) (memberId : String) (row : Administrator) : Bool :=
  !administrators.has fun k other => k ≠ memberId && other.active && row.active &&
    (other.email = row.email || (row.bound ≠ none && other.bound = row.bound))

/-- `INSERT INTO portal_administrators`. -/
def insertAdministrator (memberId : String) (row : Administrator) (administrators : Table String Administrator) :
    Except PortalError (Table String Administrator) := do
  guardRow (indexFree administrators memberId row)
  insertInto memberId row administrators

/-- `UPDATE portal_session_families SET revoked_at = ? WHERE member_id = ? AND revoked_at IS NULL`. -/
def revokeFamilies (memberId : String) (now : Int) (families : Table String Family) : Table String Family :=
  families.updateAll fun _ family =>
    if family.memberId = memberId ∧ family.revokedAt = none then { family with revokedAt := some now } else family

/-- `DELETE FROM portal_sessions WHERE family_id IN …`. -/
def deleteSessions (memberId : String) (families : Table String Family) (sessions : Table String Session) :
    Table String Session :=
  sessions.keep fun _ session => match families.lookup session.familyId with
    | some family => family.memberId ≠ memberId
    | none => true

/-- What `completeLogin` binds to its statements. -/
structure LoginPlan where
  kind : LoginKind
  memberId : String
  identity : AdminIdentity
  confirmationTime : Int
  now : Int
  requestId : String
  adminAuditId : String
  familyId : String
  sessionHash : String
  csrfHash : String
  expiresAt : Int
  authAuditId : String

/-- The statements for a bootstrap or for the binding of an invitation, with their guard. -/
def admitMember (plan : LoginPlan) (d : Db) : Except PortalError Db :=
  let identity := some (plan.identity.issuer, plan.identity.subject)
  match plan.kind with
  | .returning => .ok d
  | .bootstrap => do
    guardRow (d.bootstrap = none && !d.administrators.has fun _ _ => true)
    let administrators ← insertAdministrator plan.memberId
      ⟨plan.identity.email, identity, true, 0, "bootstrap", plan.now, plan.now⟩ d.administrators
    return { d with administrators := administrators, bootstrap := some plan.memberId }
  | .invitation revision =>
    match d.administrators.lookup plan.memberId with
    | none => .error .constraint
    | some row => do
      guardRow (row.email = plan.identity.email && row.active && row.bound = none && row.revision = revision &&
        row.createdAt ≤ plan.confirmationTime)
      let row := { row with bound := identity, revision := row.revision + 1, updatedAt := plan.now }
      guardRow (indexFree d.administrators plan.memberId row)
      return { d with administrators := d.administrators.insert plan.memberId row }

/-- The audit record of a login that admits a member. -/
def loginAudit (plan : LoginPlan) (audits : Table String AdminAudit) : Except PortalError (Table String AdminAudit) :=
  let record (action : String) : AdminAudit := ⟨plan.memberId, action, plan.memberId, plan.now, plan.requestId, (none, none, none)⟩
  match plan.kind with
  | .returning => .ok audits
  | .bootstrap => insertInto plan.adminAuditId (record "administrator.bootstrap") audits
  | .invitation _ => insertInto plan.adminAuditId (record "administrator.bound") audits

/-- Whether a member is active and bound to an identity. -/
def isBound (d : Db) (memberId : String) (identity : AdminIdentity) : Bool :=
  match d.administrators.lookup memberId with
  | none => false
  | some row => row.bound = some (identity.issuer, identity.subject) && row.active

/-- The batch of `completeLogin`. -/
def loginBatch (plan : LoginPlan) (d : Db) : Except PortalError (Committed Unit) := do
  let d ← admitMember plan d
  guardRow (isBound d plan.memberId plan.identity)
  let adminAudit ← loginAudit plan d.adminAudit
  let revoked := revokeFamilies plan.memberId plan.now d.families
  let sessions := deleteSessions plan.memberId revoked d.sessions
  let families ← insertInto plan.familyId ⟨plan.memberId, none, plan.now⟩ revoked
  guardRow (!sessions.has fun _ session => session.familyId = plan.familyId)
  let sessions ← insertInto plan.sessionHash ⟨plan.familyId, plan.csrfHash, plan.identity, plan.now, plan.expiresAt⟩ sessions
  let authAudit ← insertInto plan.authAuditId ⟨plan.memberId, "session.created", plan.now, plan.requestId⟩ d.authAudit
  return ((), some (.login plan.kind plan.memberId plan.identity plan.confirmationTime plan.familyId,
    { d with adminAudit := adminAudit, families := families, sessions := sessions, authAudit := authAudit }))

/-- The batch of `revokeSession`. -/
def revokeBatch (sessionHash memberId requestId authAuditId : String) (now : Int) (d : Db) : Except PortalError (Committed Unit) :=
  match d.sessions.lookup sessionHash with
  | none => .error .constraint
  | some session =>
    match d.families.lookup session.familyId with
    | none => .error .constraint
    | some family => do
      guardRow (now < session.expiresAt && family.memberId = memberId && family.revokedAt = none &&
        (d.findActive memberId).isSome)
      let authAudit ← insertInto authAuditId ⟨memberId, "session.revoked", now, requestId⟩ d.authAudit
      return ((), some (.revoked sessionHash memberId,
        { d with
          families := d.families.insert session.familyId { family with revokedAt := some now }
          sessions := d.sessions.erase sessionHash
          authAudit := authAudit }))

/-- `AdministratorAddCommand`: times are in seconds. -/
structure AddCommand where
  context : AdminContext
  key : String
  fingerprint : String
  adminId : String
  email : String
  etag : String
  auditEventId : String
  action : String
  occurredAt : Int
  requestId : String
  deriving DecidableEq, Repr

/-- The batch of `add`. -/
def addBatch (command : AddCommand) (now : Int) (d : Db) : Except PortalError (Committed Unit) := do
  guardRow (d.authority command.context now)
  let actor := command.context.memberId
  let receipts ← insertInto (actor, .addAdministratorMember, command.key)
    ⟨command.fingerprint, some (command.adminId, command.etag), command.occurredAt⟩ d.receipts
  let administrators ← insertAdministrator command.adminId
    ⟨command.email, none, true, 0, actor, command.occurredAt, command.occurredAt⟩ d.administrators
  let adminAudit ← insertInto command.auditEventId ⟨actor, command.action, command.adminId, command.occurredAt,
    command.requestId, command.context.attribution⟩ d.adminAudit
  return ((), some (.added command.context now command.adminId,
    { d with receipts := receipts, administrators := administrators, adminAudit := adminAudit }))

/-- `AdministratorRemoveCommand`. -/
structure RemoveCommand where
  context : AdminContext
  adminId : String
  key : String
  fingerprint : String
  expectedEtag : String
  auditEventId : String
  action : String
  occurredAt : Int
  requestId : String
  deriving DecidableEq, Repr

/-- The batch of `remove`. -/
def removeBatch (command : RemoveCommand) (revision : Nat) (now : Int) (d : Db) : Except PortalError (Committed Unit) := do
  guardRow (d.authority command.context now)
  let actor := command.context.memberId
  let receipts ← insertInto (actor, .removeAdministratorMember, command.key) ⟨command.fingerprint, none, command.occurredAt⟩
    d.receipts
  match d.administrators.lookup command.adminId with
  | none => .error .constraint
  | some row =>
    guardRow (command.adminId ≠ actor && row.active && row.revision = revision && (row.bound = none || 1 < d.boundCount))
    let families := revokeFamilies command.adminId command.occurredAt d.families
    let adminAudit ← insertInto command.auditEventId ⟨actor, command.action, command.adminId, command.occurredAt,
      command.requestId, command.context.attribution⟩ d.adminAudit
    return ((), some (.removed command.context now command.adminId,
      { d with
        receipts := receipts
        administrators := d.administrators.insert command.adminId
          { row with active := false, revision := row.revision + 1, updatedAt := command.occurredAt }
        families := families
        sessions := deleteSessions command.adminId families d.sessions
        adminAudit := adminAudit }))

/-- The query of `findSession`, labelled with the row it finds. -/
def findSessionQuery (sessionHash : String) (now : Int) (d : Db) :
    Except PortalError (Committed (Option (Session × Family × Administrator))) :=
  match d.joinSession sessionHash now with
  | none => .ok (none, none)
  | some (session, family, member) =>
    .ok (some (session, family, member), some (.found sessionHash session family member, d))

end UniDocs.Administrators
