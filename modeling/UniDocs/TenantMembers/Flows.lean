import UniDocs.Administrators.Flows
import UniDocs.TenantMembers.Store

/-!
# Signing in and managing members

`D1TenantLoginRepository.completeLogin`, `add`, `remove` and `revokeSessions` of `D1TenantMemberRepository`, and `find` and
`revoke` of `D1TenantSessionStore`, as programs over the tables. What the clock shows and what is drawn at random is given by the
number of the call.
-/

namespace UniDocs.TenantMembers

open Lib Lib.Trace
open Administrators (AdminIdentity AdminContext validateAdminIdentity requireRecentAuthentication adminConfirmationTime
  maxSafeInteger)

/-- What the repositories are built with: also the etag of the record of a member. -/
structure Ports extends Administrators.Ports where
  memberEtag : String → Member → String

abbrev TenantProg (α : Type) := DbProg Db TenantError Nat Entry α

/-! ## Signing in -/

def requireClock (now : Int) : Except TenantError Unit :=
  if now < 0 ∨ maxSafeInteger < now then .error .invalidClock else .ok ()

/-- The checks of an identity that `portal-service` makes. -/
def access {α : Type} (r : Except Administrators.PortalError α) : Except TenantError α := r.mapError .access

/-- The checks of a sign-in before it reads, and the time it was confirmed at. -/
def verifyLogin (ports : Ports) (identity : AdminIdentity) (now : Int) : Except TenantError (AdminIdentity × Int) := do
  let verified ← access (validateAdminIdentity ports.toPorts identity now)
  access (requireRecentAuthentication verified now)
  match adminConfirmationTime verified with
  | none => .error (.access .forbidden)
  | some confirmedAt => return (verified, confirmedAt)

/-- The invitation for an email, which is looked for when no member is bound to the identity. -/
def findInvitation (bound : Option (String × Member)) (email : String) : TenantProg (Option (String × Member)) :=
  match bound with
  | some _ => return none
  | none => read fun d => d.findInvited email

/-- The confirmation is not older than the invitation. -/
def checkInvitation (invited : Option (String × Member)) (confirmedAt : Int) : Except TenantError Unit :=
  match invited with
  | some (_, row) => if confirmedAt < row.createdAt then .error (.access .forbidden) else .ok ()
  | none => .ok ()

/-- The member of a sign-in, from what was read: its number, its tenant and its principal, and how it was found. -/
def loginMember (ports : Ports) (i : Nat) (bound invited : Option (String × Member)) :
    LoginKind × String × String × String :=
  match bound, invited with
  | some (memberId, row), _ => (.bound, memberId, row.tenantId, row.principalId)
  | none, some (memberId, row) => (.invited row.revision, memberId, row.tenantId, row.principalId)
  | none, none => (.provisioned, ports.randomUUID i 0, "t-" ++ ports.randomUUID i 1, "user:" ++ ports.randomUUID i 2)

/-- What `completeLogin` returns, with the hashes of the tokens. -/
structure LoginResult where
  memberId : String
  tenantId : String
  principalId : String
  sessionHash : String
  csrfHash : String
  deriving DecidableEq, Repr

def completeLogin (ports : Ports) (i : Nat) (identity : AdminIdentity) (requestId : String) : TenantProg LoginResult := do
  let now := ports.now i 0
  let (verified, confirmedAt) ← evaluate (verifyLogin ports identity now)
  let bound ← read fun d => d.findBound verified.issuer verified.subject
  let invited ← findInvitation bound verified.email
  evaluate (checkInvitation invited confirmedAt)
  let (kind, memberId, tenantId, principalId) := loginMember ports i bound invited
  evaluate (requireClock now)
  Prog.tryCatch (do
    batch i (loginBatch ⟨kind, memberId, tenantId, principalId, verified, confirmedAt, now, requestId, ports.randomUUID i 3,
      ports.randomUUID i 4, ports.sessionHash i, ports.csrfHash i⟩)
    return ⟨memberId, tenantId, principalId, ports.sessionHash i, ports.csrfHash i⟩) fun e => do
    let held ← read fun d => d.heldByAnother verified.email verified.subject
    evaluate (if held then .error (.access .forbidden) else .error e)

/-! ## Managing members -/

/-- `authorize`; `k` is the number of the clock reading. -/
def authorize (ports : Ports) (i k : Nat) (context : AdminContext) : TenantProg Unit := do
  let allowed ← read fun d => d.admin.authority context (ports.now i k)
  evaluate (if allowed then .ok () else .error (.operation .forbidden))

def receipt (context : AdminContext) (operation : Operation) (key fingerprint : String) : TenantProg (Option Receipt) := do
  let row ← read fun d => d.receipts.lookup (context.memberId, operation, key)
  match row with
  | none => return none
  | some row =>
    evaluate (if row.fingerprint = fingerprint then .ok () else .error (.operation .idempotencyConflict))
    return some row

/-- The response of a receipt of `add`. -/
def Receipt.answer (receipt : Receipt) : AddResponse := receipt.response.getD ⟨"", "", ""⟩

def add (ports : Ports) (i : Nat) (command : AddCommand) : TenantProg AddResponse := do
  let context := command.context
  authorize ports i 0 context
  let previous ← receipt context .addTenantMember command.key command.fingerprint
  match previous with
  | some previous => return previous.answer
  | none =>
    Prog.tryCatch (do
      batch i (addBatch command (ports.now i 1))
      return command.response) fun e => do
      let concurrent ← receipt context .addTenantMember command.key command.fingerprint
      match concurrent with
      | some concurrent => return concurrent.answer
      | none =>
        let held ← read fun d => d.emailHeld command.email
        evaluate (if held then .error (.operation .tenantMemberExists) else .ok ())
        authorize ports i 2 context
        throw e

/-- The `check` of `remove`. -/
def checkTarget (ports : Ports) (command : RemoveCommand) : TenantProg Member := do
  let target ← read fun d => d.activeMember command.memberId
  match target with
  | none => throw (.operation .notFound)
  | some target =>
    if ports.memberEtag command.memberId target ≠ command.expectedEtag then throw (.operation .preconditionFailed)
    else return target

def remove (ports : Ports) (i : Nat) (command : RemoveCommand) : TenantProg Unit := do
  let context := command.context
  authorize ports i 0 context
  let previous ← receipt context .removeTenantMember command.key command.fingerprint
  match previous with
  | some _ => return ()
  | none =>
    let target ← checkTarget ports command
    Prog.tryCatch (batch i (removeBatch command target (ports.now i 1))) fun e => do
      let concurrent ← receipt context .removeTenantMember command.key command.fingerprint
      match concurrent with
      | some _ => return ()
      | none =>
        let _ ← checkTarget ports command
        authorize ports i 2 context
        throw e

/-- The active member of `revokeSessions`. -/
def requireMember (memberId : String) : TenantProg Member := do
  let target ← read fun d => d.activeMember memberId
  match target with
  | none => throw (.operation .notFound)
  | some target => return target

def revokeSessions (ports : Ports) (i : Nat) (command : RevokeSessionsCommand) : TenantProg Unit := do
  let context := command.context
  authorize ports i 0 context
  let previous ← receipt context .revokeTenantMemberSessions command.key command.fingerprint
  match previous with
  | some _ => return ()
  | none =>
    let target ← requireMember command.memberId
    Prog.tryCatch (batch i (revokeSessionsBatch command target (ports.now i 1))) fun e => do
      let concurrent ← receipt context .revokeTenantMemberSessions command.key command.fingerprint
      match concurrent with
      | some _ => return ()
      | none =>
        let _ ← requireMember command.memberId
        authorize ports i 2 context
        throw e

/-! ## Sessions -/

/-- `find`: the record of a session. -/
def find (i : Nat) (sessionHash : String) (now : Int) : TenantProg (Option Session) := batch i (findQuery sessionHash now)

def revoke (ports : Ports) (i : Nat) (sessionHash requestId : String) (now : Int) : TenantProg Unit := do
  evaluate (requireClock now)
  batch i (revokeBatch (ports.randomUUID i 0) sessionHash requestId now)

/-! ## The machine -/

/-- What is asked; what others do to the tables of administrators is a request too. -/
inductive Request where
  | completeLogin (identity : AdminIdentity) (requestId : String)
  | add (command : AddCommand)
  | remove (command : RemoveCommand)
  | revokeSessions (command : RevokeSessionsCommand)
  | find (sessionHash : String) (now : Int)
  | revoke (sessionHash requestId : String) (now : Int)
  | elsewhere (admin : Administrators.Db)

inductive Response where
  | login (result : LoginResult)
  | added (response : AddResponse)
  | session (session : Option Session)
  | done
  deriving DecidableEq, Repr

def serve (ports : Ports) (i : Nat) : Request → TenantProg Response
  | .completeLogin identity requestId => do return .login (← completeLogin ports i identity requestId)
  | .add command => do return .added (← add ports i command)
  | .remove command => do
    remove ports i command
    return .done
  | .revokeSessions command => do
    revokeSessions ports i command
    return .done
  | .find sessionHash now => do return .session (← find i sessionHash now)
  | .revoke sessionHash requestId now => do
    revoke ports i sessionHash requestId now
    return .done
  | .elsewhere admin => do
    batch i (elsewhereBatch admin)
    return .done

/-- Operations over the tables, statement by statement in any order. -/
abbrev portal (ports : Ports) := machine (δ := Db) TenantError.storage (serve ports)

abbrev TenantPool := DbPool Db TenantError Nat Entry Response Request

end UniDocs.TenantMembers
