import UniDocs.Control.Store
import UniDocs.Lib.JsString

/-!
# The control plane operations

`createStack`, `patchStack`, `createMemberInvitation`, `acceptMemberInvitation` and `deleteMember` of
`ControlPlaneAdminService` with their repository functions, as programs over the control database. What the clock shows and
what the generators draw is given by the number of the call; the digest, the lower case of a string, the text of a payload and
the provisioner of issuers are parameters.
-/

namespace UniDocs.Control

open Lib Lib.Trace Lib.Text

/-- What the service is built with. -/
structure Ports where
  /-- What `#now` shows to a call, reading by reading. -/
  now : Nat → Nat → Int
  generateStackId : Nat → String
  generateInvitationId : Nat → String
  generateInvitationToken : Nat → String
  generateEventId : Nat → String
  sha256Hex : String → String
  toLowerCase : String → String
  /-- `canonicalJson` of an object with one field. -/
  canonicalJson : String → Option String → String
  managedOAuthIssuer : Option (String → Int → Except Unit ManagedIssuer)
  invitationTtlMs : Int

/-- `ControlPlaneCallContext`. -/
structure Context where
  identity : IdentityKey
  profile : Option (Option String × Option String)
  requestId : Option String
  traceId : Option String
  callerChannel : Option String
  oauthClientHandle : Option String
  toolName : Option String
  deriving DecidableEq, Repr

/-- The display name of the profile. -/
def Context.displayName (ctx : Context) : Option String := (ctx.profile.getD (none, none)).1

/-- The email of the profile. -/
def Context.emailForDisplay (ctx : Context) : Option String := (ctx.profile.getD (none, none)).2

/-- A program of the service. -/
abbrev AdminProg (α : Type) := DbProg Db ControlError Nat Entry α

/-- `CAS_ADMIN_IDEMPOTENCY_RETENTION_MS`. -/
def idempotencyRetentionMs : Int := 24 * 60 * 60 * 1000

/-! ## Validation -/

/-- A validator's message is thrown as an invalid request. -/
def rejectInvalid (message : Option String) : Except ControlError Unit :=
  match message with
  | some message => .error (.plane .invalidRequest message)
  | none => .ok ()

def validateDisplayName (value : String) : Option String :=
  let trimmed := (trim value).toList
  if trimmed.length = 0 then some "displayName must not be empty"
  else if 120 < unitLength (trim value) then some "displayName must be at most 120 characters"
  else if trimmed.any fun c => c.toNat ≤ 0x1f || c.toNat = 0x7f then some "displayName contains control characters"
  else none

/-- Whether a text matches `/^[^\s@]+@[^\s@]+\.[^\s@]+$/`. -/
def isEmail (text : List Char) : Bool :=
  match text.splitOn '@' with
  | [name, domain] => name ≠ [] && text.all (fun c => !isSpace c) && (domain.drop 1).dropLast.contains '.'
  | _ => false

def validateEmailConstraint (value : Option String) : Option String :=
  match value with
  | none => none
  | some value =>
    let trimmed := (trim value).toList
    if trimmed.length = 0 then some "emailConstraint must not be empty"
    else if 254 < unitLength (trim value) then some "emailConstraint is too long"
    else if isEmail trimmed then none
    else some "emailConstraint must be a valid email address"

def normalizeEmailConstraint (ports : Ports) (value : Option String) : Option String :=
  value.map fun value => ports.toLowerCase (trim value)

def validateInvitationToken (value : String) : Option String :=
  if unitLength value < 32 ∨ 128 < unitLength value then some "invitation token has an invalid length"
  else if value.toList ≠ [] ∧ value.toList.all fun c => c.isAlphanum || c = '_' || c = '-' then none
  else some "invitation token is malformed"

def idempotencyKey (key : Option String) : Except ControlError (Option String) :=
  match key with
  | none => .ok none
  | some key =>
    if unitLength key = 0 then .error (.plane .invalidRequest "Idempotency-Key must not be empty")
    else if 128 < unitLength key then .error (.plane .invalidRequest "Idempotency-Key is too long")
    else .ok (some key)

/-- `parseCasAdminETag`: a quoted safe integer. -/
def parseCasAdminETag (value : String) : Option Nat :=
  match (trim value).toList with
  | '"' :: rest =>
    let digits := rest.dropLast
    if rest.getLast? = some '"' ∧ digits ≠ [] ∧ digits.all Char.isDigit then
      let revision := digits.foldl (fun n c => 10 * n + (c.toNat - '0'.toNat)) 0
      if revision ≤ 9007199254740991 then some revision else none
    else none
  | _ => none

def requireIfMatch (ifMatch : Option String) (revision : Nat) : Except ControlError Unit :=
  if trim (ifMatch.getD "") = "" then .error (.plane .preconditionRequired "If-Match header is required")
  else
    match parseCasAdminETag (ifMatch.getD "") with
    | none => .error (.plane .preconditionRequired "If-Match header is malformed")
    | some expected =>
      if expected = revision then .ok () else .error (.plane .revisionMismatch "resource revision has changed")

/-! ## Helpers of the service -/

/-- `#audit`; `k` is the number of the clock reading. -/
def auditRecord (ports : Ports) (i k : Nat) (ctx : Context) (action target stackId : String) : AuditRecord :=
  ⟨ports.generateEventId i, some stackId, ctx.identity, action, target, ctx.requestId, ctx.traceId, ctx.callerChannel,
    ctx.oauthClientHandle, ctx.toolName, ports.now i k⟩

def toAdminError : ControlError → Response
  | .plane code message => .error code message
  | _ => .error .serviceUnavailable "control plane operation failed"

/-- `#guard`. -/
def guarded (program : AdminProg Response) : AdminProg Response := program.tryCatch fun e => pure (toAdminError e)

def requireMember (identity : IdentityKey) (stackId : String) : AdminProg Unit := do
  let isMember ← read fun d => d.hasMembership identity stackId
  evaluate (if isMember then .ok () else .error (.plane .stackMembershipRequired "not a member of this stack"))

def requireStack (stackId : String) : AdminProg Stack := do
  let stack ← read fun d => d.casStacks.lookup stackId
  evaluate (match stack with
    | some stack => .ok stack
    | none => .error (.plane .notFound "stack not found"))

/-- `#resolveIdempotency` and `#resolveInvitationIdempotency`: the recorded response, for the same payload. -/
def resolveIdempotency (record : IdempotencyRow) (payloadHash : String) : Except ControlError Response :=
  if record.payloadHash = payloadHash then .ok record.response
  else .error (.plane .idempotencyConflict "Idempotency-Key reused with a different payload")

/-! ## Repository functions -/

/-- `try` a batch; the handler is given its error. -/
def commitOr {α : Type} (i : Nat) (transaction : Db → Batch) (committed : α) (failed : ControlError → AdminProg α) :
    AdminProg α :=
  Prog.tryCatch (do
    batch i transaction
    return committed) failed

/-- `commitCreateStack` and `commitCreateMemberInvitation`: the record of another call, where that call has taken the key. -/
def commitOrRace (i : Nat) (transaction : Db → Batch) (record : Option (IdempotencyKey × IdempotencyRow)) :
    AdminProg (Option IdempotencyRow) :=
  commitOr i transaction none fun e =>
    match record with
    | none => throw e
    | some (key, row) =>
      if e = .unique "cas_control_idempotency" then do
        let found ← read fun d => d.getIdempotency key row.createdAt
        match found with
        | some found => return some found
        | none => throw e
      else throw e

inductive PatchResult where
  | updated
  | notFound
  | revisionMismatch
  deriving DecidableEq, Repr

def commitPatchStack (i : Nat) (plan : PatchStackPlan) : AdminProg PatchResult :=
  commitOr i (patchStackBatch plan) .updated fun e =>
    if e = .malformedJson then do
      let current ← read fun d => d.casStacks.lookup plan.stackId
      return if current.isSome then .revisionMismatch else .notFound
    else throw e

inductive DeleteResult where
  | deleted
  | stackNotFound
  | revisionMismatch
  | lastMember
  | notMember
  deriving DecidableEq, Repr

/-- Why the guard of `commitDeleteMember` has failed, read afterwards. -/
def deleteRefusal (stackId : String) (expectedRevision : Nat) : AdminProg DeleteResult := do
  let stack ← read fun d => d.casStacks.lookup stackId
  match stack with
  | none => return .stackNotFound
  | some stack =>
    if stack.revision ≠ expectedRevision then return .revisionMismatch
    else
      let count ← read fun d => d.memberCount stackId
      return if count ≤ 1 then .lastMember else .notMember

def commitDeleteMember (i : Nat) (stackId : String) (expectedRevision : Nat) (identity : IdentityKey) (audit : AuditRecord) :
    AdminProg DeleteResult :=
  commitOr i (deleteMemberBatch stackId expectedRevision identity audit) .deleted fun e =>
    if e = .malformedJson then deleteRefusal stackId expectedRevision else throw e

/-- `commitAcceptMemberInvitation`: whether the invitation was accepted. -/
def commitAcceptMemberInvitation (i : Nat) (plan : AcceptPlan) : AdminProg Bool :=
  commitOr i (acceptMemberInvitationBatch plan) true fun e => if e = .malformedJson then return false else throw e

/-! ## Operations -/

/-- The record of an earlier call with the key, where a key is given. -/
def findIdempotency (record : Option IdempotencyKey) (now : Int) : AdminProg (Option IdempotencyRow) :=
  match record with
  | none => return none
  | some key => read fun d => d.getIdempotency key now

/-- The issuer that a new stack is given. -/
def provisionIssuer (ports : Ports) (stackId : String) (now : Int) : Except ControlError (Option ManagedIssuer) :=
  match ports.managedOAuthIssuer with
  | none => .ok none
  | some provision =>
    match provision stackId now with
    | .ok issuer => .ok (some issuer)
    | .error _ => .error .provisioning

/-- The stack that `createStack` makes. -/
def newStack (ports : Ports) (i : Nat) (displayName : String) : Stack :=
  ⟨ports.generateStackId i, trim displayName, "", .active, ports.now i 0, 1⟩

def createStack (ports : Ports) (i : Nat) (ctx : Context) (displayName : String) (key : Option String) :
    AdminProg Response := do
  evaluate (rejectInvalid (validateDisplayName displayName))
  let key ← evaluate (idempotencyKey key)
  let now := ports.now i 0
  let payloadHash := ports.sha256Hex (ports.canonicalJson "displayName" (some displayName))
  let recordKey := key.map fun key => ⟨ctx.identity, "POST", "/admin/stacks", key⟩
  let existing ← findIdempotency recordKey now
  match existing with
  | some existing => evaluate (resolveIdempotency existing payloadHash)
  | none =>
    let stack := newStack ports i displayName
    let record := recordKey.map fun key => (key, ⟨payloadHash, .stack stack, now, now + idempotencyRetentionMs⟩)
    let managedIssuer ← evaluate (provisionIssuer ports stack.stackId now)
    let race ← commitOrRace i (createStackBatch ⟨stack, ctx.identity, now, managedIssuer,
      auditRecord ports i 1 ctx "stack.created" stack.stackId stack.stackId, record⟩) record
    match race with
    | some race => evaluate (resolveIdempotency race payloadHash)
    | none => return .stack stack

/-- The fields of a stack after a patch, or why it is refused. -/
def patchedFields (stack : Stack) (displayName description : Option String) : Except ControlError (String × String) := do
  if displayName = none ∧ description = none then throw (.plane .invalidRequest "no change requested")
  rejectInvalid (displayName.bind validateDisplayName)
  if 2000 < unitLength (description.getD "") then
    throw (.plane .invalidRequest "description must be a string of at most 2000 characters")
  let name := (displayName.map trim).getD stack.displayName
  let text := (description.map trim).getD stack.description
  if name = stack.displayName ∧ text = stack.description then throw (.plane .invalidRequest "no change requested")
  return (name, text)

def patchStack (ports : Ports) (i : Nat) (ctx : Context) (stackId : String) (displayName description ifMatch : Option String) :
    AdminProg Response := do
  requireMember ctx.identity stackId
  let stack ← requireStack stackId
  evaluate (requireIfMatch ifMatch stack.revision)
  let (name, text) ← evaluate (patchedFields stack displayName description)
  let result ← commitPatchStack i ⟨stack.stackId, stack.revision, name, text, stack.revision + 1,
    auditRecord ports i 0 ctx "stack.patched" stack.stackId stack.stackId⟩
  match result with
  | .notFound => throw (.plane .notFound "stack not found")
  | .revisionMismatch => throw (.plane .revisionMismatch "resource revision has changed")
  | .updated => return .stack { stack with displayName := name, description := text, revision := stack.revision + 1 }

/-- The target of an audit record about an identity. -/
def identityTarget (identity : IdentityKey) : String := identity.identityIssuer ++ ":" ++ identity.subject

def deleteMember (ports : Ports) (i : Nat) (ctx : Context) (stackId : String) (identity : IdentityKey)
    (ifMatch : Option String) : AdminProg Response := do
  requireMember ctx.identity stackId
  let stack ← requireStack stackId
  evaluate (requireIfMatch ifMatch stack.revision)
  let result ← commitDeleteMember i stack.stackId stack.revision identity
    (auditRecord ports i 0 ctx "member.removed" (identityTarget identity) stack.stackId)
  match result with
  | .stackNotFound => throw (.plane .notFound "stack not found")
  | .revisionMismatch => throw (.plane .revisionMismatch "resource revision has changed")
  | .lastMember => throw (.plane .lastMember "a stack must retain at least one member")
  | .deleted => return .ok
  | .notMember => return .ok

/-- The invitation that `createMemberInvitation` makes. -/
def newInvitation (ports : Ports) (i : Nat) (stackId : String) (emailConstraint : Option String) : Invitation :=
  ⟨ports.generateInvitationId i, stackId, .pending, emailConstraint, ports.sha256Hex (ports.generateInvitationToken i),
    ports.now i 0 + ports.invitationTtlMs, ports.now i 0, 1⟩

def createMemberInvitation (ports : Ports) (i : Nat) (ctx : Context) (stackId : String) (emailConstraint key : Option String) :
    AdminProg Response := do
  requireMember ctx.identity stackId
  evaluate (rejectInvalid (validateEmailConstraint emailConstraint))
  let key ← evaluate (idempotencyKey key)
  let constraint := normalizeEmailConstraint ports emailConstraint
  let now := ports.now i 0
  let payloadHash := ports.sha256Hex (ports.canonicalJson "emailConstraint" constraint)
  let recordKey := key.map fun key =>
    ⟨ctx.identity, "POST", "/admin/stacks/" ++ stackId ++ "/member-invitations", key⟩
  let existing ← findIdempotency recordKey now
  match existing with
  | some existing => evaluate (resolveIdempotency existing payloadHash)
  | none =>
    let invitation := newInvitation ports i stackId constraint
    let response := Response.invited invitation ("/admin/invitations/" ++ ports.generateInvitationToken i)
    let record := recordKey.map fun key => (key, ⟨payloadHash, response, now, now + idempotencyRetentionMs⟩)
    let race ← commitOrRace i (createMemberInvitationBatch invitation
      (auditRecord ports i 1 ctx "member.invited" invitation.invitationId invitation.stackId) record) record
    match race with
    | some race => evaluate (resolveIdempotency race payloadHash)
    | none => return response

/-- Whether the email of the caller meets the constraint of an invitation. -/
def meetsConstraint (ports : Ports) (ctx : Context) (constraint : Option String) : Bool :=
  constraint = none || normalizeEmailConstraint ports ctx.emailForDisplay = constraint

def acceptMemberInvitation (ports : Ports) (i : Nat) (ctx : Context) (token : String) : AdminProg Response := do
  evaluate (rejectInvalid (validateInvitationToken token))
  let tokenHash := ports.sha256Hex token
  let found ← read fun d => d.getInvitationByTokenHash tokenHash
  let now := ports.now i 0
  match found with
  | none => throw (.plane .notFound "invitation not found, expired, or already used")
  | some invitation =>
    if invitation.status ≠ .pending ∨ invitation.expiresAt ≤ now then
      throw (.plane .notFound "invitation not found, expired, or already used")
    else if meetsConstraint ports ctx invitation.emailConstraint then
      let existing ← read fun d => d.identities.lookup ctx.identity
      let row : IdentityRow := ⟨ctx.displayName, ctx.emailForDisplay, (existing.map IdentityRow.createdAt).getD now⟩
      let accepted ← commitAcceptMemberInvitation i ⟨invitation.invitationId, invitation.stackId, tokenHash, now,
        ctx.identity, row, now,
        auditRecord ports i 1 ctx "member.invitation.accepted" invitation.stackId invitation.stackId⟩
      if accepted then
        return .member ⟨invitation.stackId, ctx.identity, row.displayName, row.emailForDisplay⟩
      else throw (.plane .notFound "invitation not found, expired, or already used")
    else throw (.plane .notFound "invitation is bound to another email")

/-! ## The machine -/

/-- A call of the service. -/
inductive Request where
  | createStack (ctx : Context) (displayName : String) (idempotencyKey : Option String)
  | patchStack (ctx : Context) (stackId : String) (displayName description ifMatch : Option String)
  | createMemberInvitation (ctx : Context) (stackId : String) (emailConstraint idempotencyKey : Option String)
  | acceptMemberInvitation (ctx : Context) (token : String)
  | deleteMember (ctx : Context) (stackId : String) (identity : IdentityKey) (ifMatch : Option String)
  deriving DecidableEq, Repr

/-- The program of a call. -/
def serve (ports : Ports) (i : Nat) : Request → AdminProg Response
  | .createStack ctx displayName key => guarded (createStack ports i ctx displayName key)
  | .patchStack ctx stackId displayName description ifMatch =>
    guarded (patchStack ports i ctx stackId displayName description ifMatch)
  | .createMemberInvitation ctx stackId emailConstraint key =>
    guarded (createMemberInvitation ports i ctx stackId emailConstraint key)
  | .acceptMemberInvitation ctx token => guarded (acceptMemberInvitation ports i ctx token)
  | .deleteMember ctx stackId identity ifMatch => guarded (deleteMember ports i ctx stackId identity ifMatch)

/-- Calls over the control database, statement by statement in any order. -/
abbrev controlPlane (ports : Ports) := machine (δ := Db) ControlError.storage (serve ports)

abbrev ControlPool := DbPool Db ControlError Nat Entry Response Request

end UniDocs.Control
