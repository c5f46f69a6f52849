import UniDocs.Administrators.Store

/-!
# The operations on administrators

`completeLogin`, `findSession` and `revokeSession` of `D1PortalAuthRepository` and `add` and `remove` of
`D1AdministratorRepository`, with the checks of identities of `portal-service`, as programs over the tables. What the clock
shows and what is drawn at random is given by the number of the call; the normal form of an email and the etag of a record are
parameters.
-/

namespace UniDocs.Administrators

open Lib Lib.Trace

/-- What the repositories are built with. -/
structure Ports where
  /-- What `now` shows to a call, reading by reading. -/
  now : Nat → Nat → Int
  /-- `crypto.randomUUID()`, draw by draw. -/
  randomUUID : Nat → Nat → String
  /-- The hashes of the tokens of a new session. -/
  sessionHash : Nat → String
  csrfHash : Nat → String
  /-- `normalizeGoogleEmail`, where the address is valid. -/
  normalizeGoogleEmail : String → Option String
  /-- `resourceEtag` of the record of a row. -/
  resourceEtag : String → Administrator → String

abbrev AdminProg (α : Type) := DbProg Db PortalError Nat Entry α

/-! ## Identities -/

def maxSafeInteger : Int := 9007199254740991

def googleIssuer : String := "https://accounts.google.com"

/-- `readGoogleIdentity`, of a verified email. -/
def readGoogleIdentity (ports : Ports) (issuer subject email : String) (authTime : Option Int) (now : Int)
    (allowMissingAuthTime : Bool) : Except PortalError AdminIdentity :=
  if issuer ≠ googleIssuer ∧ issuer ≠ "accounts.google.com" then .error .unauthorized
  else if subject.toList = [] ∨ 255 < subject.toList.length ∨
      subject.toList.any fun c => c.toNat < 0x21 || 0x7e < c.toNat then .error .unauthorized
  else if (match authTime with
      | none => !allowMissingAuthTime
      | some time => time < 0 || maxSafeInteger < time || now + 30 < time) then .error .unauthorized
  else
    match ports.normalizeGoogleEmail email with
    | none => .error .unauthorized
    | some email => .ok ⟨googleIssuer, subject, email, authTime, none, none⟩

def authorizationCode : String := "authorization-code-v1"

def validateAdminIdentity (ports : Ports) (identity : AdminIdentity) (now : Int) : Except PortalError AdminIdentity :=
  let confirmed := identity.loginConfirmation = some authorizationCode
  if (identity.loginConfirmation ≠ none ∨ identity.loginConfirmedAt ≠ none) ∧ ¬ confirmed then .error .unauthorized
  else do
    let verified ← readGoogleIdentity ports identity.issuer identity.subject identity.email identity.authenticatedAt now confirmed
    if confirmed then
      match identity.loginConfirmedAt with
      | none => .error .unauthorized
      | some time =>
        if time < 0 ∨ maxSafeInteger < time ∨ now < time then .error .unauthorized
        else return { verified with loginConfirmedAt := some time, loginConfirmation := some authorizationCode }
    else return verified

def adminConfirmationTime (identity : AdminIdentity) : Option Int :=
  if identity.loginConfirmation = some authorizationCode then identity.loginConfirmedAt
  else if identity.loginConfirmation ≠ none ∨ identity.loginConfirmedAt ≠ none then none
  else identity.authenticatedAt

def requireRecentAuthentication (identity : AdminIdentity) (now : Int) : Except PortalError Unit :=
  let skew := if identity.loginConfirmation = some authorizationCode then 0 else 30
  match adminConfirmationTime identity with
  | none => .error .forbidden
  | some time =>
    if time < 0 ∨ maxSafeInteger < time ∨ now < 0 ∨ maxSafeInteger < now ∨ now + skew < time ∨ 300 < now - time then
      .error .forbidden
    else .ok ()

def requireBootstrapIdentity (ports : Ports) (identity : AdminIdentity) (configuredEmail : Option String) (now : Int) :
    Except PortalError Unit := do
  requireRecentAuthentication identity now
  match configuredEmail with
  | none => .error .forbidden
  | some configured =>
    if identity.issuer ≠ googleIssuer then .error .forbidden
    else
      match ports.normalizeGoogleEmail configured with
      | none => .error .invalidEmail
      | some email => if identity.email = email then .ok () else .error .forbidden

/-! ## Sessions -/

structure AdminSession where
  sessionHash : String
  csrfHash : String
  identity : AdminIdentity
  memberId : String
  createdAt : Int
  expiresAt : Int
  deriving DecidableEq, Repr

def sessionTtlSeconds : Int := 8 * 60 * 60

def findSession (ports : Ports) (i : Nat) (sessionHash : String) : AdminProg (Option AdminSession) := do
  let found ← batch i (findSessionQuery sessionHash (ports.now i 0))
  match found with
  | none => return none
  | some (session, family, member) =>
    let identity ← evaluate (validateAdminIdentity ports session.identity (ports.now i 1))
    if member.bound = some (identity.issuer, identity.subject) then
      return some ⟨sessionHash, session.csrfHash, identity, family.memberId, session.createdAt, session.expiresAt⟩
    else return none

/-- The invitation for an email, which is looked for when no member is bound to the identity. -/
def findInvitation (bound : Option (String × Administrator)) (email : String) :
    AdminProg (Option (String × Administrator)) :=
  match bound with
  | some _ => return none
  | none => read fun d => d.findInvited email

/-- How the login goes on, from what was read of the members. -/
def loginKind (bound invited : Option (String × Administrator)) : LoginKind :=
  match bound, invited with
  | some _, _ => .returning
  | none, some (_, row) => .invitation row.revision
  | none, none => .bootstrap

/-- The confirmation is not older than the invitation. -/
def checkInvitation (invited : Option (String × Administrator)) (confirmationTime : Int) : Except PortalError Unit :=
  match invited with
  | some (_, row) => if confirmationTime < row.createdAt then .error .forbidden else .ok ()
  | none => .ok ()

/-- The checks that a login makes before its batch. -/
def checkLogin (ports : Ports) (verified : AdminIdentity) (confirmationTime : Int) (bootstrapEmail : Option String)
    (invited : Option (String × Administrator)) (kind : LoginKind) (now : Int) : Except PortalError Unit := do
  checkInvitation invited confirmationTime
  requireRecentAuthentication verified now
  if kind = .bootstrap then requireBootstrapIdentity ports verified bootstrapEmail now else .ok ()

/-- The bootstrap is refused when it has been made. -/
def refuseBootstrapped (kind : LoginKind) : AdminProg Unit :=
  if kind = .bootstrap then do
    let bootstrapped ← read fun d => d.bootstrap
    evaluate (if bootstrapped = none then .ok () else .error .forbidden)
  else return ()

/-- The confirmation time of an identity that may log in. -/
def verifyLogin (ports : Ports) (identity : AdminIdentity) (now : Int) : Except PortalError (AdminIdentity × Int) := do
  let verified ← validateAdminIdentity ports identity now
  requireRecentAuthentication verified now
  match adminConfirmationTime verified with
  | none => .error .forbidden
  | some time => return (verified, time)

def completeLogin (ports : Ports) (i : Nat) (identity : AdminIdentity) (bootstrapEmail : Option String) (requestId : String) :
    AdminProg AdminSession := do
  let now := ports.now i 0
  let (verified, confirmationTime) ← evaluate (verifyLogin ports identity now)
  let bound ← read fun d => d.findBound verified.issuer verified.subject
  let invited ← findInvitation bound verified.email
  let memberId := ((bound.orElse fun _ => invited).map (·.1)).getD (ports.randomUUID i 0)
  let kind := loginKind bound invited
  evaluate (checkLogin ports verified confirmationTime bootstrapEmail invited kind now)
  refuseBootstrapped kind
  batch i (loginBatch ⟨kind, memberId, verified, confirmationTime, now, requestId, ports.randomUUID i 1, ports.randomUUID i 2,
    ports.sessionHash i, ports.csrfHash i, now + sessionTtlSeconds, ports.randomUUID i 3⟩)
  return ⟨ports.sessionHash i, ports.csrfHash i, verified, memberId, now, now + sessionTtlSeconds⟩

def revokeSession (ports : Ports) (i : Nat) (sessionHash memberId requestId : String) : AdminProg Unit :=
  batch i (revokeBatch sessionHash memberId requestId (ports.randomUUID i 0) (ports.now i 0))

/-! ## Members -/

/-- `authorize`; `k` is the number of the clock reading. -/
def authorize (ports : Ports) (i k : Nat) (context : AdminContext) : AdminProg Unit := do
  let allowed ← read fun d => d.authority context (ports.now i k)
  evaluate (if allowed then .ok () else .error (.operation .forbidden))

/-- The receipt of an earlier delivery, for the same fingerprint. -/
def replay (ports : Ports) (i k : Nat) (context : AdminContext) (operation : Operation) (key fingerprint : String) :
    AdminProg (Option Receipt) := do
  authorize ports i k context
  let receipt ← read fun d => d.receipts.lookup (context.memberId, operation, key)
  match receipt with
  | none => return none
  | some receipt =>
    evaluate (if receipt.fingerprint = fingerprint then .ok () else .error (.operation .idempotencyConflict))
    return some receipt

/-- The response of a receipt. -/
def Receipt.answer (receipt : Receipt) : String × String := receipt.response.getD ("", "")

def add (ports : Ports) (i : Nat) (command : AddCommand) : AdminProg (String × String) := do
  let context := command.context
  authorize ports i 0 context
  let previous ← replay ports i 1 context .addAdministratorMember command.key command.fingerprint
  match previous with
  | some previous => return previous.answer
  | none =>
    Prog.tryCatch (do
      batch i (addBatch command (ports.now i 2))
      return (command.adminId, command.etag)) fun e => do
      let concurrent ← replay ports i 3 context .addAdministratorMember command.key command.fingerprint
      match concurrent with
      | some concurrent => return concurrent.answer
      | none =>
        let existing ← read fun d => d.administrators.has fun _ row => row.email = command.email && row.active
        evaluate (if existing then .error (.operation .administratorExists) else .error e)

/-- The checks of `remove` on the row it reads. -/
def removable (ports : Ports) (command : RemoveCommand) : AdminProg Administrator := do
  let target ← read fun d => d.findActive command.adminId
  match target with
  | none => throw (.operation .notFound)
  | some target =>
    if ports.resourceEtag command.adminId target ≠ command.expectedEtag then throw (.operation .preconditionFailed)
    else if command.adminId = command.context.memberId then throw (.operation .cannotRemoveSelf)
    else if target.bound = none then return target
    else
      let count ← read fun d => d.boundCount
      evaluate (if count ≤ 1 then .error (.operation .lastAdministrator) else .ok target)

def remove (ports : Ports) (i : Nat) (command : RemoveCommand) : AdminProg Unit := do
  let context := command.context
  authorize ports i 0 context
  let previous ← replay ports i 1 context .removeAdministratorMember command.key command.fingerprint
  match previous with
  | some _ => return ()
  | none =>
    let target ← removable ports command
    Prog.tryCatch (batch i (removeBatch command target.revision (ports.now i 2))) fun e => do
      let concurrent ← replay ports i 3 context .removeAdministratorMember command.key command.fingerprint
      match concurrent with
      | some _ => return ()
      | none =>
        let _ ← removable ports command
        throw e

/-! ## The machine -/

inductive Request where
  | completeLogin (identity : AdminIdentity) (bootstrapEmail : Option String) (requestId : String)
  | findSession (sessionHash : String)
  | revokeSession (sessionHash memberId requestId : String)
  | add (command : AddCommand)
  | remove (command : RemoveCommand)
  deriving DecidableEq, Repr

inductive Response where
  | login (session : AdminSession)
  | session (session : Option AdminSession)
  | added (adminId etag : String)
  | done
  deriving DecidableEq, Repr

def serve (ports : Ports) (i : Nat) : Request → AdminProg Response
  | .completeLogin identity bootstrapEmail requestId => do
    return .login (← completeLogin ports i identity bootstrapEmail requestId)
  | .findSession sessionHash => do return .session (← findSession ports i sessionHash)
  | .revokeSession sessionHash memberId requestId => do
    revokeSession ports i sessionHash memberId requestId
    return .done
  | .add command => do
    let (adminId, etag) ← add ports i command
    return .added adminId etag
  | .remove command => do
    remove ports i command
    return .done

/-- Operations over the tables, statement by statement in any order. -/
abbrev portal (ports : Ports) := machine (δ := Db) PortalError.storage (serve ports)

abbrev PortalPool := DbPool Db PortalError Nat Entry Response Request

end UniDocs.Administrators
