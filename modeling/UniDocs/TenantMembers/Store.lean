import UniDocs.Administrators.Store
import UniDocs.Lib.Table

/-!
# The members of tenants

The tables of tenant members and their sessions, with the statements that `D1TenantLoginRepository`,
`D1TenantMemberRepository` and `D1TenantSessionStore` run on them. The tables of administrators are read for the authority of an
administrator; others change them.
-/

namespace UniDocs.TenantMembers

open Lib Lib.Trace Lib.Sql
open Administrators (AdminIdentity AdminContext AdminAudit)

/-! ## Rows -/

/-- A row of `portal_tenant_members`: the issuer and the subject are both there or both absent. -/
structure Member where
  tenantId : String
  principalId : String
  email : String
  bound : Option (String × String)
  active : Bool
  revision : Nat
  addedBy : String
  createdAt : Int
  updatedAt : Int
  deriving DecidableEq, Repr

/-- A row of `portal_tenant_sessions`. -/
structure Session where
  tenantId : String
  principalId : String
  csrfHash : String
  createdAt : Int
  expiresAt : Int
  deriving DecidableEq, Repr

inductive Operation where
  | addTenantMember
  | removeTenantMember
  | revokeTenantMemberSessions
  deriving DecidableEq, Repr

/-- What `add` answers. -/
structure AddResponse where
  memberId : String
  principalId : String
  etag : String
  deriving DecidableEq, Repr

/-- A row of `portal_idempotency_receipts` for an operation on tenant members: `null` is the response of the operations that
return nothing. -/
structure Receipt where
  fingerprint : String
  response : Option AddResponse
  createdAt : Int
  deriving DecidableEq, Repr

/-- A row of `portal_tenant_auth_audit`. -/
structure AuthAudit where
  memberId : String
  action : String
  occurredAt : Int
  requestId : String
  deriving DecidableEq, Repr

/-- The tables. -/
structure Db where
  admin : Administrators.Db
  members : Table String Member
  sessions : Table String Session
  receipts : Table (String × Operation × String) Receipt
  authAudit : Table String AuthAudit

inductive OperationCode where
  | notFound
  | idempotencyConflict
  | tenantMemberExists
  | preconditionFailed
  | forbidden
  deriving DecidableEq, Repr

/-- What is thrown: an error of the checks of an identity, a `TenantMemberOperationError`, the `TypeError` of a clock, a violated
constraint, or a failure of the database. -/
inductive TenantError where
  | access (error : Administrators.PortalError)
  | operation (code : OperationCode)
  | invalidClock
  | constraint
  | storage
  deriving DecidableEq, Repr

/-- The member that a session is for. -/
def Session.isOf (session : Session) (tenantId principalId : String) : Bool :=
  session.tenantId = tenantId && session.principalId = principalId

/-! ## Reads -/

namespace Db

/-- `SELECT * … WHERE issuer = ? AND subject = ? AND active = 1`. -/
def findBound (d : Db) (issuer subject : String) : Option (String × Member) :=
  (d.members.rows fun _ row => row.bound = some (issuer, subject) && row.active).head?

/-- `SELECT * … WHERE email = ? AND active = 1 AND subject IS NULL`. -/
def findInvited (d : Db) (email : String) : Option (String × Member) :=
  (d.members.rows fun _ row => row.email = email && row.active && row.bound = none).head?

/-- `SELECT 1 … WHERE email = ? AND active = 1 AND subject <> ?`. -/
def heldByAnother (d : Db) (email subject : String) : Bool :=
  d.members.has fun _ row => row.email = email && row.active && match row.bound with
    | none => false
    | some (_, other) => other ≠ subject

/-- `SELECT 1 … WHERE email = ? AND active = 1`. -/
def emailHeld (d : Db) (email : String) : Bool := d.members.has fun _ row => row.email = email && row.active

def activeMember (d : Db) (memberId : String) : Option Member := (d.members.lookup memberId).filter fun row => row.active

/-- The rows of the join of a session with its member. -/
def membersOf (d : Db) (session : Session) : List (String × Member) :=
  d.members.rows fun _ row => session.isOf row.tenantId row.principalId

/-- The row of `find`: the session with its member. -/
def joinSession (d : Db) (sessionHash : String) (now : Int) : Option (Session × String × Member) :=
  match d.sessions.lookup sessionHash with
  | none => none
  | some session =>
    if session.createdAt ≤ now ∧ now < session.expiresAt then
      ((d.membersOf session).find? fun row => row.2.active && row.2.bound ≠ none).map fun row => (session, row)
    else none

end Db

/-! ## Batches -/

/-- How a sign-in finds its member. -/
inductive LoginKind where
  | bound
  | invited (revision : Nat)
  | provisioned
  deriving DecidableEq, Repr

/-- What a batch or a query has done. -/
inductive Entry where
  | login (kind : LoginKind) (memberId : String) (identity : AdminIdentity) (confirmedAt : Int) (sessionHash : String)
      (session : Session)
  | added (context : AdminContext) (memberId : String)
  | removed (context : AdminContext) (memberId : String)
  | sessionsRevoked (context : AdminContext) (memberId : String) (tenantId principalId : String)
  | revoked (sessionHash : String)
  | found (sessionHash : String) (now : Int) (session : Session) (memberId : String)
  | elsewhere
  deriving DecidableEq, Repr

/-- The answer of a batch that commits, and what it has done. -/
abbrev Committed (β : Type) := β × Option (Entry × Db)

/-- The unique indexes, for a row under a key: over all rows for the tenant and the principal, over active ones for the email and
the identity. -/
def indexFree (members : Table String Member) (memberId : String) (row : Member) : Bool :=
  !members.has fun k other => k ≠ memberId && ((other.tenantId = row.tenantId && other.principalId = row.principalId) ||
    (other.active && row.active && (other.email = row.email || (row.bound ≠ none && other.bound = row.bound))))

/-- `INSERT INTO portal_tenant_members`. -/
def insertMember (memberId : String) (row : Member) (members : Table String Member) : Except TenantError (Table String Member) := do
  guardRow .constraint (indexFree members memberId row)
  insertInto .constraint memberId row members

def tenantSessionTtlSeconds : Int := 28800

def tenantMemberSessionLimit : Nat := 10

/-- `ORDER BY created_at DESC, session_hash DESC`. -/
def newer (a b : String × Session) : Bool :=
  b.2.createdAt < a.2.createdAt || (a.2.createdAt = b.2.createdAt && b.1 ≤ a.1)

/-- `DELETE FROM portal_tenant_sessions WHERE tenant_id = ? AND principal_id = ? AND expires_at <= ?`. -/
def deleteExpired (tenantId principalId : String) (now : Int) (sessions : Table String Session) : Table String Session :=
  sessions.keep fun _ session => !(session.isOf tenantId principalId && session.expiresAt ≤ now)

/-- `DELETE FROM portal_tenant_sessions WHERE tenant_id = ? AND principal_id = ? AND session_hash NOT IN` the newest ones. -/
def deleteOldest (tenantId principalId : String) (limit : Nat) (sessions : Table String Session) : Table String Session :=
  keepKeys (fun _ session => session.isOf tenantId principalId)
    (firstKeys (fun _ session => session.isOf tenantId principalId) newer limit sessions) sessions

/-- `DELETE FROM portal_tenant_sessions WHERE tenant_id = ? AND principal_id = ?`. -/
def deleteSessions (tenantId principalId : String) (sessions : Table String Session) : Table String Session :=
  sessions.keep fun _ session => !session.isOf tenantId principalId

/-- What `completeLogin` binds to its statements. -/
structure LoginPlan where
  kind : LoginKind
  memberId : String
  tenantId : String
  principalId : String
  identity : AdminIdentity
  confirmedAt : Int
  now : Int
  requestId : String
  boundEventId : String
  sessionEventId : String
  sessionHash : String
  csrfHash : String

def LoginPlan.session (plan : LoginPlan) : Session :=
  ⟨plan.tenantId, plan.principalId, plan.csrfHash, plan.now, plan.now + tenantSessionTtlSeconds⟩

/-- The `audit` statement. -/
def LoginPlan.audit (plan : LoginPlan) (eventId action : String) (audits : Table String AuthAudit) :
    Except TenantError (Table String AuthAudit) :=
  insertInto .constraint eventId ⟨plan.memberId, action, plan.now, plan.requestId⟩ audits

/-- The statements that bind an invitation or provision a member, with their guards. -/
def admitMember (plan : LoginPlan) (d : Db) : Except TenantError Db :=
  let identity := some (plan.identity.issuer, plan.identity.subject)
  match plan.kind with
  | .bound => .ok d
  | .invited revision =>
    match d.members.lookup plan.memberId with
    | none => .error .constraint
    | some row => do
      guardRow .constraint (row.email = plan.identity.email && row.active && row.bound = none && row.revision = revision &&
        row.createdAt ≤ plan.confirmedAt)
      let row := { row with bound := identity, revision := row.revision + 1, updatedAt := plan.now }
      guardRow .constraint (indexFree d.members plan.memberId row)
      let authAudit ← plan.audit plan.boundEventId "member.bound" d.authAudit
      return { d with members := d.members.insert plan.memberId row, authAudit := authAudit }
  | .provisioned => do
    let members ← insertMember plan.memberId ⟨plan.tenantId, plan.principalId, plan.identity.email, identity, true, 0,
      "self-signup", plan.now, plan.now⟩ d.members
    let authAudit ← plan.audit plan.boundEventId "member.bound" d.authAudit
    return { d with members := members, authAudit := authAudit }

/-- Whether a member is active and bound to an identity. -/
def isBound (d : Db) (memberId : String) (identity : AdminIdentity) : Bool :=
  match d.members.lookup memberId with
  | none => false
  | some row => row.bound = some (identity.issuer, identity.subject) && row.active

/-- The batch of `completeLogin`. -/
def loginBatch (plan : LoginPlan) (d : Db) : Except TenantError (Committed Unit) := do
  let d ← admitMember plan d
  guardRow .constraint (isBound d plan.memberId plan.identity)
  let unexpired := deleteExpired plan.tenantId plan.principalId plan.now d.sessions
  let newest := deleteOldest plan.tenantId plan.principalId (tenantMemberSessionLimit - 1) unexpired
  let sessions ← insertInto .constraint plan.sessionHash plan.session newest
  let authAudit ← plan.audit plan.sessionEventId "session.created" d.authAudit
  return ((), some (.login plan.kind plan.memberId plan.identity plan.confirmedAt plan.sessionHash plan.session,
    { d with sessions := sessions, authAudit := authAudit }))

/-- `AdminAuditEvent`, with its time in seconds. -/
structure AuditEvent where
  auditEventId : String
  action : String
  resourceId : String
  occurredAt : Int
  requestId : String
  deriving DecidableEq, Repr

def auditStatement (context : AdminContext) (audit : AuditEvent) (d : Db) : Except TenantError Db := do
  let adminAudit ← insertInto .constraint audit.auditEventId
    ⟨context.memberId, audit.action, audit.resourceId, audit.occurredAt, audit.requestId, context.attribution⟩ d.admin.adminAudit
  return { d with admin := { d.admin with adminAudit := adminAudit } }

/-- The statements with which the batches of administrators begin: the guard and the receipt. -/
def beginBatch (context : AdminContext) (now : Int) (operation : Operation) (key : String) (receipt : Receipt) (d : Db) :
    Except TenantError Db := do
  guardRow .constraint (d.admin.authority context now)
  let receipts ← insertInto .constraint (context.memberId, operation, key) receipt d.receipts
  return { d with receipts := receipts }

/-- `TenantMemberAddCommand`, with times in seconds. -/
structure AddCommand where
  context : AdminContext
  key : String
  fingerprint : String
  memberId : String
  tenantId : String
  principalId : String
  email : String
  etag : String
  addedAt : Int
  audit : AuditEvent
  deriving DecidableEq, Repr

def AddCommand.response (command : AddCommand) : AddResponse := ⟨command.memberId, command.principalId, command.etag⟩

/-- The batch of `add`. -/
def addBatch (command : AddCommand) (now : Int) (d : Db) : Except TenantError (Committed Unit) := do
  let d ← beginBatch command.context now .addTenantMember command.key
    ⟨command.fingerprint, some command.response, command.addedAt⟩ d
  let members ← insertMember command.memberId ⟨command.tenantId, command.principalId, command.email, none, true, 0,
    command.context.memberId, command.addedAt, command.addedAt⟩ d.members
  let d ← auditStatement command.context command.audit { d with members := members }
  return ((), some (.added command.context command.memberId, d))

/-- `TenantMemberRemoveCommand`. -/
structure RemoveCommand where
  context : AdminContext
  memberId : String
  key : String
  fingerprint : String
  expectedEtag : String
  audit : AuditEvent
  deriving DecidableEq, Repr

/-- The batch of `remove`; the target is the row that was read. -/
def removeBatch (command : RemoveCommand) (target : Member) (now : Int) (d : Db) : Except TenantError (Committed Unit) := do
  let d ← beginBatch command.context now .removeTenantMember command.key ⟨command.fingerprint, none, command.audit.occurredAt⟩ d
  match d.members.lookup command.memberId with
  | none => .error .constraint
  | some row =>
    guardRow .constraint (row.active && row.revision = target.revision)
    let row := { row with active := false, revision := row.revision + 1, updatedAt := command.audit.occurredAt }
    let d ← auditStatement command.context command.audit
      { d with
        members := d.members.insert command.memberId row
        sessions := deleteSessions target.tenantId target.principalId d.sessions }
    return ((), some (.removed command.context command.memberId, d))

/-- `TenantMemberRevokeSessionsCommand`. -/
structure RevokeSessionsCommand where
  context : AdminContext
  memberId : String
  key : String
  fingerprint : String
  audit : AuditEvent
  deriving DecidableEq, Repr

/-- The batch of `revokeSessions`; the target is the row that was read. -/
def revokeSessionsBatch (command : RevokeSessionsCommand) (target : Member) (now : Int) (d : Db) :
    Except TenantError (Committed Unit) := do
  let d ← beginBatch command.context now .revokeTenantMemberSessions command.key
    ⟨command.fingerprint, none, command.audit.occurredAt⟩ d
  guardRow .constraint (d.activeMember command.memberId).isSome
  let d ← auditStatement command.context command.audit
    { d with sessions := deleteSessions target.tenantId target.principalId d.sessions }
  return ((), some (.sessionsRevoked command.context command.memberId target.tenantId target.principalId, d))

/-- `INSERT INTO portal_tenant_auth_audit … SELECT` from the join of a session with its member. -/
def auditRevocation (eventId sessionHash requestId : String) (now : Int) (d : Db) : Except TenantError (Table String AuthAudit) :=
  match d.sessions.lookup sessionHash with
  | none => .ok d.authAudit
  | some session =>
    match d.membersOf session with
    | [] => .ok d.authAudit
    | (memberId, _) :: _ => insertInto .constraint eventId ⟨memberId, "session.revoked", now, requestId⟩ d.authAudit

/-- The batch of `revoke`. -/
def revokeBatch (eventId sessionHash requestId : String) (now : Int) (d : Db) : Except TenantError (Committed Unit) := do
  let authAudit ← auditRevocation eventId sessionHash requestId now d
  return ((), some (.revoked sessionHash, { d with sessions := d.sessions.erase sessionHash, authAudit := authAudit }))

/-- The query of `find`, labelled with the row it finds. -/
def findQuery (sessionHash : String) (now : Int) (d : Db) : Except TenantError (Committed (Option Session)) :=
  match d.joinSession sessionHash now with
  | none => .ok (none, none)
  | some (session, memberId, _) => .ok (some session, some (.found sessionHash now session memberId, d))

/-- Others change the tables of administrators. -/
def elsewhereBatch (admin : Administrators.Db) (d : Db) : Except TenantError (Committed Unit) :=
  .ok ((), some (.elsewhere, { d with admin := admin }))

end UniDocs.TenantMembers
