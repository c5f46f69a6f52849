import UniDocs.Control.Admin
import UniDocs.Control.Issuers

/-!
# The operations on issuers

`patchManagedOAuthIssuer`, `inspectOAuthIssuer` and `activateOAuthIssuer` of `ControlPlaneAdminService` with their repository
functions, served next to the other operations of the control plane. What discovery answers to a call is given by the number of
the call; the URL parser, the decoder of base64url, the JWS library and `Number` are parameters.
-/

namespace UniDocs.Control

open Lib Lib.Trace Lib.Text

/-- What `new URL` shows of a text. -/
structure Url where
  protocol : String
  username : String
  password : String
  hostname : String
  search : String
  hash : String
  deriving DecidableEq, Repr

structure OAuthDiscoveryResult where
  metadata : OAuthMetadata
  metadataDigest : String
  jwksDigest : String
  keys : List OAuthJwk

/-- What discovery fails with: whether the error is a `TypeError`, and its message. -/
structure DiscoveryError where
  isTypeError : Bool
  message : String

/-- What the service is built with for the issuers. -/
structure ConsolePorts extends Ports where
  /-- `new URL`. -/
  parseUrl : String → Option Url
  encodeURIComponent : String → String
  /-- `inspectIssuer` of the discovery, where there is one. -/
  oauthDiscovery : Option (Nat → String → Except DiscoveryError OAuthDiscoveryResult)
  /-- The origin of `oauthResourcePublicOrigin`. -/
  oauthResourceOrigin : Option String
  oauthInspectionTtlMs : Int
  generateOAuthInspectionId : Nat → String
  generateNonce : Nat → String
  /-- The text of a base64url part. -/
  decodeBase64Url : String → Option String
  /-- `decodeProtectedHeader`: the `kid` and the `alg`, where they are texts. -/
  decodeProtectedHeader : String → Option (Option String × Option String)
  /-- `compactVerify` of a proof under a key and an algorithm: the text of the payload and the `kid` of the header. -/
  compactVerify : String → String → String → Option (String × Option String)
  /-- The `kid` of a JWK. -/
  jwkKid : String → Option String
  /-- `Number` of a text, where it is a safe integer. -/
  number : String → Option Int

/-- A program of the service. -/
abbrev ConsoleProg (α : Type) := DbProg ConsoleDb ControlError Nat ConsoleEntry α

def oauthCapabilityMaxLifetimeSeconds : Int := 30 * 60

/-! ## Validation -/

def canonicalizeOAuthIssuer (ports : ConsolePorts) (value : String) : Except String String :=
  match ports.parseUrl (trim value) with
  | none => .error "issuer must be an absolute URL"
  | some url =>
    if url.protocol ≠ "https:" then .error "issuer must use https"
    else if url.username ≠ "" ∨ url.password ≠ "" then .error "issuer must not contain credentials"
    else if url.hostname = "" then .error "issuer must include a hostname"
    else if url.search ≠ "" ∨ url.hash ≠ "" then .error "issuer must not contain a query or fragment"
    else .ok (trim value)

/-- `stackOAuthResource`, for an origin that is a URL. -/
def stackOAuthResource (ports : ConsolePorts) (origin stackId : String) : String :=
  origin ++ "/stacks/" ++ ports.encodeURIComponent stackId

/-- `OAuthIssuerInspectionChallengeInput`. -/
structure Challenge where
  nonce : String
  inspectionId : String
  stackId : String
  issuer : String
  audience : String
  metadataDigest : String
  jwksDigest : String
  capabilityMaxLifetimeSeconds : Int
  expiresAt : Int
  deriving DecidableEq, Repr

/-- `OAUTH_ISSUER_INSPECTION_CHALLENGE_VERSION`. -/
def challengeVersion : String := "cas-oauth-issuer-inspection-v1"

def buildOAuthIssuerInspectionChallenge (input : Challenge) : String :=
  String.intercalate "\n" [challengeVersion, input.nonce, input.inspectionId, input.stackId, input.issuer, input.audience,
    input.metadataDigest, input.jwksDigest, toString input.capabilityMaxLifetimeSeconds, toString input.expiresAt]

/-- The parts of a text between a separator. -/
def splitText (text : String) (separator : Char) : List String := (text.toList.splitOn separator).map String.ofList

def parseOAuthIssuerInspectionChallenge (ports : ConsolePorts) (challenge : String) : Option Challenge :=
  match splitText challenge '\n' with
  | [version, nonce, inspectionId, stackId, issuer, audience, metadataDigest, jwksDigest, lifetimeText, expiresText] =>
    if version ≠ challengeVersion ∨ "" ∈ [nonce, inspectionId, stackId, issuer, audience, metadataDigest, jwksDigest] then none
    else
      match ports.number lifetimeText, ports.number expiresText with
      | some lifetime, some expiresAt =>
        some ⟨nonce, inspectionId, stackId, issuer, audience, metadataDigest, jwksDigest, lifetime, expiresAt⟩
      | _, _ => none
  | _ => none

def extractJwsPayload (ports : ConsolePorts) (jws : String) : Option String :=
  match splitText jws '.' with
  | [header, payload, signature] =>
    if header = "" ∨ payload = "" ∨ signature = "" then none else ports.decodeBase64Url payload
  | _ => none

def extractJwsProtectedHeader (ports : ConsolePorts) (jws : String) : Option (String × String) :=
  match ports.decodeProtectedHeader jws with
  | some (some kid, some alg) => if kid ≠ "" then some (kid, alg) else none
  | _ => none

def verifyCompactJwsProof (ports : ConsolePorts) (challenge : String) (key : InspectionKey) (proof : String) : Bool :=
  match ports.compactVerify proof key.publicJwk key.algorithm with
  | some (payload, kid) => kid = ports.jwkKid key.publicJwk && payload = challenge
  | none => false

/-! ## Repository functions -/

/-- `try` a batch; the handler is given its error. -/
def consoleCommitOr {α : Type} (i : Nat) (transaction : ConsoleDb → ConsoleBatch) (committed : α)
    (failed : ControlError → ConsoleProg α) : ConsoleProg α :=
  Prog.tryCatch (do
    batch i transaction
    return committed) failed

inductive ManagedResult where
  | created
  | updated
  | notFound
  | revisionMismatch
  deriving DecidableEq, Repr

/-- What a failed commit of a managed issuer is. -/
def managedRefusal (stackId : String) : ConsoleProg ManagedResult := do
  let current ← read fun d => d.getManagedOAuthIssuer stackId
  return if current.isSome then .revisionMismatch else .notFound

/-- `commitPatchManagedOAuthIssuer`, where the plan has an issuer and where it has none. -/
def commitPatchManagedOAuthIssuer (i : Nat) (stackId : String) (expectedRevision nextRevision : Nat) (enabled : Bool)
    (issuer : Option ManagedIssuer) (audit : AuditRecord) : ConsoleProg ManagedResult :=
  match issuer with
  | some issuer =>
    consoleCommitOr i (createManagedBatch issuer audit) .created fun e =>
      if e = .unique "cas_stack_managed_issuers" then managedRefusal stackId else throw e
  | none =>
    consoleCommitOr i (patchManagedBatch stackId expectedRevision nextRevision enabled audit) .updated fun e =>
      if e = .malformedJson then managedRefusal stackId else throw e

inductive InspectResult where
  | created
  | issuerConflict
  | revisionMismatch
  deriving DecidableEq, Repr

def commitInspectOAuthIssuer (i : Nat) (plan : InspectPlan) : ConsoleProg InspectResult :=
  consoleCommitOr i (inspectBatch plan) .created fun e =>
    if e = .unique "cas_stack_oauth_issuers.issuer" then do
      let current ← read fun d => d.oauthIssuers.lookup plan.stackId
      return if current.map (·.metadata.issuer) = some plan.issuer.metadata.issuer then .revisionMismatch else .issuerConflict
    else if e = .unique "cas_stack_oauth_issuers.stack_id" ∨ e = .malformedJson then return .revisionMismatch
    else throw e

inductive ActivateResult where
  | activated
  | unavailable
  | revisionMismatch
  deriving DecidableEq, Repr

/-- Whether an inspection can still be used. -/
def usable (inspection : Option Inspection) (now : Int) : Bool :=
  inspection.any fun inspection => inspection.usedAt = none && now < inspection.expiresAt

def commitActivateOAuthIssuer (i : Nat) (stackId inspectionId : String) (expectedRevision : Nat) (activatedAt : Int)
    (audit : AuditRecord) : ConsoleProg ActivateResult :=
  consoleCommitOr i (activateBatch stackId inspectionId expectedRevision activatedAt audit) .activated fun e =>
    if e = .malformedJson then do
      let inspection ← read fun d => d.inspections.lookup inspectionId
      return if usable inspection activatedAt then .revisionMismatch else .unavailable
    else throw e

/-! ## Operations -/

/-- `CasOAuthIssuerInspection`. -/
structure InspectionResponse where
  inspectionId : String
  inspection : Inspection
  challenge : String
  keys : List OAuthJwk
  revision : Nat
  deriving DecidableEq, Repr

/-- What the service reports. -/
inductive ConsoleResponse where
  | admin (response : Response)
  | issuerConflict (message : String)
  | managedIssuer (issuer : ManagedIssuer) (status : ManagedIssuerStatus)
  | inspection (response : InspectionResponse)
  | oauthIssuer (stackId : String) (issuer : OAuthIssuer)
  deriving DecidableEq, Repr

/-- `#guard`. -/
def consoleGuarded (program : ConsoleProg ConsoleResponse) : ConsoleProg ConsoleResponse :=
  program.tryCatch fun e => pure (.admin (toAdminError e))

/-- `#requireMember`. -/
def consoleRequireMember (identity : IdentityKey) (stackId : String) : ConsoleProg Unit :=
  controlPart.lift (requireMember identity stackId)

/-- The issuer that the provisioner makes for a stack. -/
def provisionedIssuer (ports : ConsolePorts) (i : Nat) (stackId : String) :
    Except ControlError (ManagedIssuer × ManagedIssuerStatus) :=
  match ports.managedOAuthIssuer with
  | none => .error (.plane .notFound "managed issuer is not available")
  | some provision =>
    match provision stackId (ports.now i 0) with
    | .ok issuer => .ok ({ issuer with revision := 0 }, .disabled)
    | .error _ => .error .provisioning

def managedIssuerResource (ports : ConsolePorts) (i : Nat) (stackId : String) :
    ConsoleProg (ManagedIssuer × ManagedIssuerStatus) := do
  let existing ← read fun d => d.getManagedOAuthIssuer stackId
  match existing with
  | some existing => return existing
  | none => evaluate (provisionedIssuer ports i stackId)

/-- The existing issuer, or the one of the provisioner. -/
def issuerOr (ports : ConsolePorts) (i : Nat) (stackId : String) (existing : Option (ManagedIssuer × ManagedIssuerStatus)) :
    ConsoleProg (ManagedIssuer × ManagedIssuerStatus) :=
  match existing with
  | some existing => return existing
  | none => managedIssuerResource ports i stackId

/-- The checks of a patch of a managed issuer; `none` is an `enabled` that is not a boolean. -/
def checkManagedPatch (ifMatch : Option String) (enabled : Option Bool) (issuer : ManagedIssuer) (status : ManagedIssuerStatus) :
    Except ControlError Bool := do
  requireIfMatch ifMatch issuer.revision
  match enabled with
  | none => throw (.plane .invalidRequest "enabled must be a boolean")
  | some enabled =>
    if enabled = (status = .active) then throw (.plane .invalidRequest "managed issuer state is unchanged")
    else return enabled

def patchManagedOAuthIssuer (ports : ConsolePorts) (i : Nat) (ctx : Context) (stackId : String) (enabled : Option Bool)
    (ifMatch : Option String) : ConsoleProg ConsoleResponse := do
  consoleRequireMember ctx.identity stackId
  let existing ← read fun d => d.getManagedOAuthIssuer stackId
  let (issuer, status) ← issuerOr ports i stackId existing
  let enabled ← evaluate (checkManagedPatch ifMatch enabled issuer status)
  let action := if enabled then "managed_issuer.enabled" else "managed_issuer.disabled"
  let plan := if existing.isSome then none else some { issuer with revision := 1 }
  let result ← commitPatchManagedOAuthIssuer i issuer.stackId issuer.revision (issuer.revision + 1) enabled plan
    (auditRecord ports.toPorts i 1 ctx action issuer.issuer issuer.stackId)
  match result with
  | .notFound => throw (.plane .notFound "managed issuer is not configured")
  | .revisionMismatch => throw (.plane .revisionMismatch "managed issuer revision has changed")
  | _ => return .managedIssuer { issuer with revision := issuer.revision + 1 } (if enabled then .active else .disabled)

/-- The parameters of an inspection that do not come from the database. -/
def inspectionTarget (ports : ConsolePorts) (stackId issuer : String) :
    Except ControlError ((Nat → String → Except DiscoveryError OAuthDiscoveryResult) × String × String) :=
  match ports.oauthDiscovery with
  | none => .error (.plane .serviceUnavailable "OAuth discovery is not configured")
  | some inspectIssuer =>
    match canonicalizeOAuthIssuer ports issuer with
    | .error message => .error (.plane .invalidRequest message)
    | .ok issuer =>
      match ports.oauthResourceOrigin with
      | none => .error (.plane .serviceUnavailable "OAuth resource policy is not configured")
      | some origin => .ok (inspectIssuer, issuer, stackOAuthResource ports origin stackId)

/-- An active issuer is not inspected again. -/
def requireInactive (existing : Option OAuthIssuer) : Except ControlError Unit :=
  if existing.map (·.status) = some .active then
    .error (.plane .invalidRequest "active OAuth issuer must be refreshed, not reinspected")
  else .ok ()

/-- What discovery answers. -/
def discover (inspectIssuer : Nat → String → Except DiscoveryError OAuthDiscoveryResult) (i : Nat) (issuer : String) :
    Except ControlError OAuthDiscoveryResult :=
  match inspectIssuer i issuer with
  | .ok discovered => .ok discovered
  | .error e => .error (.plane (if e.isTypeError then .invalidRequest else .serviceUnavailable) e.message)

/-- The challenge of an inspection. -/
def inspectionChallenge (ports : ConsolePorts) (i : Nat) (stackId issuer audience : String)
    (discovered : OAuthDiscoveryResult) : Challenge where
  nonce := ports.generateNonce i
  inspectionId := ports.generateOAuthInspectionId i
  stackId := stackId
  issuer := issuer
  audience := audience
  metadataDigest := discovered.metadataDigest
  jwksDigest := discovered.jwksDigest
  capabilityMaxLifetimeSeconds := oauthCapabilityMaxLifetimeSeconds
  expiresAt := ports.now i 0 + ports.oauthInspectionTtlMs

/-- The issuer record of an inspection. -/
def inspectedIssuer (ports : ConsolePorts) (i : Nat) (audience : String) (discovered : OAuthDiscoveryResult)
    (revision : Nat) : OAuthIssuer where
  metadata := discovered.metadata
  audience := audience
  status := .pending
  verifiedAt := none
  lastRefreshAt := some (ports.now i 0)
  lastRefreshError := none
  jwksDigest := discovered.jwksDigest
  capabilityMaxLifetimeSeconds := oauthCapabilityMaxLifetimeSeconds
  revision := revision

/-- The record of an inspection. -/
def newInspection (ports : ConsolePorts) (i : Nat) (stackId issuer audience : String)
    (discovered : OAuthDiscoveryResult) : Inspection where
  stackId := stackId
  metadata := discovered.metadata
  audience := audience
  metadataDigest := discovered.metadataDigest
  jwksDigest := discovered.jwksDigest
  challengeHash := ports.sha256Hex (buildOAuthIssuerInspectionChallenge
    (inspectionChallenge ports i stackId issuer audience discovered))
  capabilityMaxLifetimeSeconds := oauthCapabilityMaxLifetimeSeconds
  createdAt := ports.now i 0
  expiresAt := ports.now i 0 + ports.oauthInspectionTtlMs
  usedAt := none
  revision := 1

/-- What `inspectOAuthIssuer` commits. -/
def inspectPlan (ports : ConsolePorts) (i : Nat) (ctx : Context) (stackId issuer audience : String)
    (discovered : OAuthDiscoveryResult) (existing : Option OAuthIssuer) : InspectPlan where
  stackId := stackId
  issuer := inspectedIssuer ports i audience discovered ((existing.map (·.revision)).getD 0 + 1)
  inspectionId := ports.generateOAuthInspectionId i
  inspection := newInspection ports i stackId issuer audience discovered
  keys := discovered.keys
  audit := auditRecord ports.toPorts i 1 ctx "oauth_issuer.inspection.created" issuer stackId

def inspectOAuthIssuer (ports : ConsolePorts) (i : Nat) (ctx : Context) (stackId issuer : String) :
    ConsoleProg ConsoleResponse := do
  consoleRequireMember ctx.identity stackId
  let (inspectIssuer, issuer, audience) ← evaluate (inspectionTarget ports stackId issuer)
  let elsewhere ← read fun d => d.hasOAuthIssuerElsewhere issuer stackId
  if elsewhere then return .issuerConflict "issuer is already registered to another stack"
  else
    let existing ← read fun d => d.oauthIssuers.lookup stackId
    evaluate (requireInactive existing)
    let discovered ← evaluate (discover inspectIssuer i issuer)
    let plan := inspectPlan ports i ctx stackId issuer audience discovered existing
    let result ← commitInspectOAuthIssuer i plan
    match result with
    | .issuerConflict => return .issuerConflict "issuer is already registered to another stack"
    | .revisionMismatch => throw (.plane .revisionMismatch "OAuth issuer resource revision has changed")
    | .created =>
      let challenge := inspectionChallenge ports i stackId issuer audience discovered
      return .inspection ⟨plan.inspectionId, plan.inspection, buildOAuthIssuerInspectionChallenge challenge, plan.keys,
        plan.issuer.revision⟩

/-- The pending issuer that is activated. -/
def requirePending (current : Option OAuthIssuer) (ifMatch : Option String) : Except ControlError OAuthIssuer :=
  match current with
  | none => .error (.plane .notFound "pending OAuth issuer is not configured")
  | some current =>
    if current.status ≠ .pending then .error (.plane .notFound "pending OAuth issuer is not configured")
    else (requireIfMatch ifMatch current.revision).map fun _ => current

/-- Whether an inspection is of the record. -/
def sameIssuer (inspection : Inspection) (current : OAuthIssuer) : Bool :=
  inspection.metadata = current.metadata && inspection.audience = current.audience && inspection.jwksDigest = current.jwksDigest
    && inspection.capabilityMaxLifetimeSeconds = current.capabilityMaxLifetimeSeconds

/-- The inspection that is consumed. -/
def requireInspection (inspection : Option Inspection) (stackId : String) (now : Int) (current : OAuthIssuer) :
    Except ControlError Inspection :=
  match inspection with
  | none => .error (.plane .invalidRequest "OAuth issuer inspection is unavailable")
  | some inspection =>
    if inspection.stackId ≠ stackId ∨ inspection.usedAt ≠ none ∨ inspection.expiresAt ≤ now then
      .error (.plane .invalidRequest "OAuth issuer inspection is unavailable")
    else if sameIssuer inspection current then .ok inspection
    else .error (.plane .revisionMismatch "OAuth issuer inspection is no longer current")

/-- Whether a challenge is the one of an inspection. -/
def challengeOf (parsed : Challenge) (inspectionId : String) (inspection : Inspection) : Bool :=
  parsed.inspectionId = inspectionId && parsed.stackId = inspection.stackId
    && parsed.issuer = inspection.metadata.issuer && parsed.audience = inspection.audience
    && parsed.metadataDigest = inspection.metadataDigest && parsed.jwksDigest = inspection.jwksDigest
    && parsed.capabilityMaxLifetimeSeconds = inspection.capabilityMaxLifetimeSeconds
    && parsed.expiresAt = inspection.expiresAt

/-- The challenge that a proof is about. -/
def requireChallenge (ports : ConsolePorts) (proof inspectionId : String) (inspection : Inspection) :
    Except ControlError String :=
  match extractJwsPayload ports proof with
  | none => .error (.plane .invalidRequest "activation proof challenge is invalid")
  | some challenge =>
    match parseOAuthIssuerInspectionChallenge ports challenge with
    | none => .error (.plane .invalidRequest "activation proof challenge is invalid")
    | some parsed =>
      if challenge ≠ "" ∧ ports.sha256Hex challenge = inspection.challengeHash ∧ challengeOf parsed inspectionId inspection then
        .ok challenge
      else .error (.plane .invalidRequest "activation proof challenge is invalid")

/-- The check of the signature of a proof. -/
def requireSignature (ports : ConsolePorts) (proof challenge : String) (keys : List (String × InspectionKey)) :
    Except ControlError Unit :=
  match extractJwsProtectedHeader ports proof with
  | none => .error (.plane .invalidRequest "activation proof signature is invalid")
  | some (kid, alg) =>
    match keys.find? fun candidate => candidate.1 = kid with
    | none => .error (.plane .invalidRequest "activation proof signature is invalid")
    | some (_, key) =>
      if alg = key.algorithm ∧ verifyCompactJwsProof ports challenge key proof then .ok ()
      else .error (.plane .invalidRequest "activation proof signature is invalid")

def activateOAuthIssuer (ports : ConsolePorts) (i : Nat) (ctx : Context) (stackId inspectionId activationProof : String)
    (ifMatch : Option String) : ConsoleProg ConsoleResponse := do
  consoleRequireMember ctx.identity stackId
  let current ← read fun d => d.oauthIssuers.lookup stackId
  let current ← evaluate (requirePending current ifMatch)
  let inspection ← read fun d => d.inspections.lookup inspectionId
  let now := ports.now i 0
  let inspection ← evaluate (requireInspection inspection stackId now current)
  let challenge ← evaluate (requireChallenge ports activationProof inspectionId inspection)
  let keys ← read fun d => d.listOAuthIssuerInspectionKeys inspectionId
  evaluate (requireSignature ports activationProof challenge keys)
  let result ← commitActivateOAuthIssuer i stackId inspectionId current.revision now
    (auditRecord ports.toPorts i 1 ctx "oauth_issuer.activated" current.metadata.issuer stackId)
  match result with
  | .unavailable => throw (.plane .invalidRequest "OAuth issuer inspection is unavailable")
  | .revisionMismatch => throw (.plane .revisionMismatch "OAuth issuer resource revision has changed")
  | .activated =>
    return .oauthIssuer stackId { current with status := .active, verifiedAt := some now, revision := current.revision + 1 }

/-! ## The machine -/

/-- A call of the service. -/
inductive ConsoleRequest where
  | control (request : Request)
  | patchManagedOAuthIssuer (ctx : Context) (stackId : String) (enabled : Option Bool) (ifMatch : Option String)
  | inspectOAuthIssuer (ctx : Context) (stackId issuer : String)
  | activateOAuthIssuer (ctx : Context) (stackId inspectionId activationProof : String) (ifMatch : Option String)
  deriving DecidableEq, Repr

/-- The program of a call. -/
def consoleServe (ports : ConsolePorts) (i : Nat) : ConsoleRequest → ConsoleProg ConsoleResponse
  | .control request => do
    let response ← controlPart.lift (serve ports.toPorts i request)
    return .admin response
  | .patchManagedOAuthIssuer ctx stackId enabled ifMatch =>
    consoleGuarded (patchManagedOAuthIssuer ports i ctx stackId enabled ifMatch)
  | .inspectOAuthIssuer ctx stackId issuer => consoleGuarded (inspectOAuthIssuer ports i ctx stackId issuer)
  | .activateOAuthIssuer ctx stackId inspectionId activationProof ifMatch =>
    consoleGuarded (activateOAuthIssuer ports i ctx stackId inspectionId activationProof ifMatch)

/-- Calls over the control database, statement by statement in any order. -/
abbrev console (ports : ConsolePorts) := machine (δ := ConsoleDb) ControlError.storage (consoleServe ports)

abbrev ConsolePool := DbPool ConsoleDb ControlError Nat ConsoleEntry ConsoleResponse ConsoleRequest

end UniDocs.Control
