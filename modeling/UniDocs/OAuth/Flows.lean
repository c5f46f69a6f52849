import UniDocs.Lib.Utf16
import UniDocs.OAuth.Store

/-!
# The OAuth flows of the gateway

Starting and completing an authorization, the exchange of a code, the refresh and the revocation of a token, and the cleanup,
as programs over the stores. The random values of a call are given by the number of the call and of the draw; the digest, the
URL parser and the settings of the ports are parameters. An audit record is a statement that changes no table that is read.
-/

namespace UniDocs.OAuth

open Lib Lib.Journal Lib.Text

/-- What a flow throws: a protocol error with its code, status and description, a `TypeError` or `Error` with its message, or
the failure of a store or of the issuer. -/
inductive OAuthError where
  | protocol (code : String) (status : Nat) (description : String)
  | failure (message : String)
  | storage
  deriving DecidableEq, Repr

/-- What is read of a parsed URL; `portless` is its `href` without the port. -/
structure RedirectUrl where
  protocol : String
  username : String
  password : String
  hash : String
  hostname : String
  portless : String

/-- The ports of the flows other than the stores. -/
structure Ports where
  sha256Base64Url : String → String
  opaqueValue : Nat → Nat → String
  parseUrl : String → Option RedirectUrl
  audience : String
  transactionLifetimeSeconds : Option Int
  codeLifetimeSeconds : Option Int
  accessTokenLifetimeSeconds : Option Int
  refreshTokenLifetimeSeconds : Option Int

abbrev OAuthProg (α : Type) := StoreProg State OAuthError α

/-- The result of a computation that may throw. -/
def evaluate {α : Type} (r : Except OAuthError α) : OAuthProg α := .ret r

def now : OAuthProg Int := look State.clock

def record : OAuthProg Unit := execute id

def maxSafeInteger : Int := 9007199254740991

/-! ## Checks -/

/-- Throws unless a condition holds. -/
def check (condition : Bool) (e : OAuthError) : Except OAuthError Unit := if condition then .ok () else .error e

def invalidRequest (description : String) : OAuthError := .protocol "invalid_request" 400 description

def invalidScope (description : String) : OAuthError := .protocol "invalid_scope" 400 description

def invalidGrant (description : String) : OAuthError := .protocol "invalid_grant" 400 description

def invalidClientMetadata (description : String) : OAuthError := .protocol "invalid_client_metadata" 400 description

def requireEpochSeconds (value : Int) : Except OAuthError Unit :=
  check (0 ≤ value && value ≤ maxSafeInteger) (.failure "OAuth clock must return epoch seconds")

def boundedLifetime (value : Int) (label : String) (minimum maximum : Int) : Except OAuthError Int := do
  check (minimum ≤ value && value ≤ maximum)
    (.failure ("OAuth " ++ label ++ " lifetime must be an integer from " ++ toString minimum ++ " to " ++ toString maximum))
  return value

def accessTokenLifetime (value : Option Int) : Except OAuthError Int := do
  let lifetime := value.getD 120
  check (1 ≤ lifetime && lifetime ≤ 1800) (.failure "OAuth access token lifetime must be an integer from 1 to 1800")
  return lifetime

def requireNonEmpty (value name : String) : Except OAuthError Unit :=
  check (value ≠ "") (invalidRequest (name ++ " is required"))

def isLoopbackHost (hostname : String) : Bool := hostname = "127.0.0.1" || hostname = "[::1]"

def validateGatewayOAuthRedirectUri (ports : Ports) (value : String) : Except OAuthError String := do
  match ports.parseUrl value with
  | none => throw (invalidClientMetadata "redirect_uris must contain absolute URLs")
  | some url =>
    check (url.username = "" && url.password = "" && url.hash = "")
      (invalidClientMetadata "redirect URIs must not contain credentials or fragments")
    check (url.protocol = "https:" || (url.protocol = "http:" && isLoopbackHost url.hostname))
      (invalidClientMetadata "redirect URIs must use HTTPS except native loopback redirects")
    check (!url.hostname.toList.contains '*') (invalidClientMetadata "redirect URI hosts must not contain wildcards")
    return value

def gatewayOAuthRedirectUriMatches (ports : Ports) (registeredUri requestedUri : String) : Except OAuthError Bool :=
  if registeredUri = requestedUri then .ok true
  else
    match ports.parseUrl registeredUri, ports.parseUrl requestedUri with
    | some registered, some requested =>
      .ok (registered.protocol = "http:" && requested.protocol = "http:" && isLoopbackHost registered.hostname
        && registered.hostname = requested.hostname && registered.portless = requested.portless)
    | _, _ => .error (.failure "Invalid URL")

/-- `redirectUris.some(…)`. -/
def someUriMatches (ports : Ports) (requestedUri : String) : List String → Except OAuthError Bool
  | [] => .ok false
  | uri :: uris => do
    let found ← gatewayOAuthRedirectUriMatches ports uri requestedUri
    if found then return true else someUriMatches ports requestedUri uris

/-- The scope a text names. -/
def parseScope (text : String) : Option Scope :=
  [Scope.casRead, .casWrite, .casManage].find? fun scope => scope.text = text

/-- The loop of `parseGatewayOAuthScope`; a scope that is there already is not added again. -/
def addScopes : List String → List Scope → Except OAuthError (List Scope)
  | [], scopes => .ok scopes
  | text :: texts, scopes =>
    match parseScope text with
    | none => .error (invalidScope ("unsupported scope: " ++ text))
    | some scope => addScopes texts (if scope ∈ scopes then scopes else scopes ++ [scope])

def parseGatewayOAuthScope (value : String) : Except OAuthError (List Scope) := do
  let values := (value.toList.splitOn ' ').filter (· ≠ [])
  check (values ≠ []) (invalidScope "scope must not be empty")
  addScopes (values.map String.ofList) []

def validateGatewayOAuthPkceVerifier (value : String) : Bool :=
  43 ≤ value.toList.length && value.toList.length ≤ 128 &&
    value.toList.all fun c => c.isAlphanum || c = '.' || c = '_' || c = '~' || c = '-'

def validateGatewayOAuthPkceS256Challenge (value : String) : Bool :=
  value.toList.length = 43 && value.toList.all fun c => c.isAlphanum || c = '_' || c = '-'

/-! ## Tenants -/

/-- The lowercase of a character, as far as it shows below: a letter that is not here has no lowercase in `[a-z0-9]`. -/
def lowerCase (c : Char) : List Char :=
  if 'A' ≤ c ∧ c ≤ 'Z' then [Char.ofNat (c.toNat + 32)]
  else if c.toNat = 0x212a then ['k']
  else if c.toNat = 0x130 then ['i', Char.ofNat 0x307]
  else [c]

/-- `replace(/[^a-z0-9]+/g, "-")`, with whether the last character was replaced. -/
def dashed : Bool → List Char → List Char
  | _, [] => []
  | inRun, c :: cs =>
    if ('a' ≤ c ∧ c ≤ 'z') ∨ ('0' ≤ c ∧ c ≤ '9') then c :: dashed false cs
    else if inRun then dashed true cs
    else '-' :: dashed true cs

def tenantIdFromEmail (email : Option String) : Option String :=
  match email with
  | none => none
  | some email =>
    let localPart := email.toList.takeWhile (· ≠ '@')
    if localPart = [] then none
    else
      let normalized := strip (· = '-') (dashed false (localPart.flatMap lowerCase))
      if normalized = [] then none else some (String.ofList normalized)

/-- The tenant that `provisionDefault` names for a principal; half of a surrogate pair is stored as a replacement character. -/
def defaultTenantId (principalId : String) (email : Option String) : String :=
  (tenantIdFromEmail email).getD ("user-" ++ JsString.toText ((JsString.ofString principalId).take 16))

def provisionDefault (i : Nat) (principalId : String) (email : Option String) : OAuthProg (Option Membership) := do
  let tenantId := defaultTenantId principalId email
  execute fun s => s.insertMembership i principalId email tenantId
  query fun s => s.defaultForPrincipal principalId

/-! ## Authorization -/

/-- `GatewayOAuthAuthorizationRequest`. -/
structure AuthorizationRequest where
  responseType : String
  clientId : String
  redirectUri : String
  tenantId : Option String
  scope : String
  state : Option String
  codeChallenge : String
  codeChallengeMethod : String
  authenticatedPrincipalId : Option String
  authenticatedEmail : Option String
  deriving DecidableEq, Repr

/-- `GatewayOAuthPendingAuthorization`. -/
structure PendingAuthorization where
  transactionId : String
  clientId : String
  tenantId : String
  scopes : List Scope
  expiresAt : Int
  deriving DecidableEq, Repr

/-- `GatewayOAuthAuthorizationResult`: a code, or `access_denied` where there is none. -/
structure AuthorizationResult where
  redirectUri : String
  state : Option String
  code : Option String
  deriving DecidableEq, Repr

/-- `defaultForPrincipal` or else `provisionDefault`. -/
def defaultMembership (i : Nat) (principalId : String) (email : Option String) : OAuthProg (Option Membership) := do
  let found ← query fun s => s.defaultForPrincipal principalId
  match found with
  | some membership => return some membership
  | none => provisionDefault i principalId email

/-- The tenant of a request. -/
def resolveTenant (i : Nat) (request : AuthorizationRequest) : OAuthProg String := do
  let tenantId := trim (request.tenantId.getD "")
  if tenantId ≠ "" then return tenantId
  else
    let principalId := request.authenticatedPrincipalId.getD ""
    evaluate (check (principalId ≠ "") (invalidRequest "tenant_id is required when no principal membership is available"))
    let membership ← defaultMembership i principalId request.authenticatedEmail
    match membership with
    | none => throw (.protocol "invalid_scope" 403 "user has no tenant membership")
    | some membership => return membership.tenantId

/-- The attempts to store a transaction: how many are left, and the draws so far. -/
def storeTransaction (ports : Ports) (i : Nat) (transaction : Transaction) : Nat → Nat → OAuthProg PendingAuthorization
  | 0, _ => throw (.protocol "server_error" 500 "could not allocate an authorization transaction")
  | attempts + 1, draw => do
    let transactionId := ports.opaqueValue i draw
    let stored ← statement fun s => s.putTransaction i { transaction with transactionId := transactionId }
    if stored then
      record
      return ⟨transactionId, transaction.clientId, transaction.tenantId, transaction.requestedScopes, transaction.expiresAt⟩
    else storeTransaction ports i transaction attempts (draw + 1)

/-- The checks of a request after its tenant is known. -/
def checkRequest (request : AuthorizationRequest) : Except OAuthError (List Scope) := do
  let scopes ← parseGatewayOAuthScope request.scope
  check (request.codeChallengeMethod = "S256") (invalidRequest "code_challenge_method must be S256")
  check (validateGatewayOAuthPkceS256Challenge request.codeChallenge)
    (invalidRequest "PKCE S256 code_challenge must be a 43-character base64url digest")
  check (unitLength (request.state.getD "") ≤ 2048) (invalidRequest "state must not exceed 2048 characters")
  return scopes

def startGatewayOAuthAuthorization (ports : Ports) (i : Nat) (request : AuthorizationRequest) :
    OAuthProg PendingAuthorization := do
  evaluate (check (request.responseType = "code") (.protocol "unsupported_response_type" 400 "response_type must be code"))
  evaluate (requireNonEmpty request.clientId "client_id")
  evaluate (requireNonEmpty request.redirectUri "redirect_uri")
  let client ← query fun s => s.clients.lookup request.clientId
  match client with
  | none => throw (.protocol "invalid_client" 400 "client_id is not registered")
  | some client =>
    let _ ← evaluate (validateGatewayOAuthRedirectUri ports request.redirectUri)
    let registered ← evaluate (someUriMatches ports request.redirectUri client.redirectUris)
    evaluate (check registered (invalidRequest "redirect_uri is not registered for this client"))
    let tenantId ← resolveTenant i request
    let scopes ← evaluate (checkRequest request)
    let time ← now
    evaluate (requireEpochSeconds time)
    let lifetime ← evaluate (boundedLifetime (ports.transactionLifetimeSeconds.getD 600) "transaction" 60 900)
    storeTransaction ports i
      ⟨"", request.clientId, request.redirectUri, tenantId, request.authenticatedPrincipalId, scopes, request.state,
        request.codeChallenge, time, time + lifetime⟩ 3 0

/-- The decision of a user. -/
structure Decision where
  approved : Bool
  principalId : String
  deriving DecidableEq, Repr

def gatewayOAuthScopesToCapabilityPermissions (tenantId : String) (scopes : List Scope) :
    Except OAuthError (List Permission) := do
  check (tenantId ≠ "") (.failure "Tenant ID must not be empty")
  check (scopes ≠ []) (.failure "OAuth scopes must not be empty")
  return (scopes.foldl (fun unique scope => if scope ∈ unique then unique else unique ++ [scope]) []).map (⟨tenantId, ·⟩)

/-- The code of a transaction, with its hash still to be drawn. -/
def codeOf (transaction : Transaction) (principalId : String) (membership : Membership) (permissions : List Permission)
    (codeHash : String) (time lifetime : Int) : StoredCode where
  codeHash := codeHash
  clientId := transaction.clientId
  redirectUri := transaction.redirectUri
  principalId := principalId
  tenantId := transaction.tenantId
  scopes := transaction.requestedScopes
  permissions := permissions
  codeChallenge := transaction.codeChallenge
  refDomain := membership.refDomain
  createdAt := time
  expiresAt := time + lifetime

/-- The attempts to store a code. -/
def storeCode (ports : Ports) (i : Nat) (transaction : Transaction) (principalId : String) (membership : Membership)
    (permissions : List Permission) (time lifetime : Int) : Nat → Nat → OAuthProg AuthorizationResult
  | 0, _ => throw (.protocol "server_error" 500 "could not allocate an authorization code")
  | attempts + 1, draw => do
    let code := ports.opaqueValue i draw
    let row := codeOf transaction principalId membership permissions (ports.sha256Base64Url code) time lifetime
    let stored ← statement fun s => s.putCode i transaction principalId membership row
    if stored then
      record
      return ⟨transaction.redirectUri, transaction.state, some code⟩
    else storeCode ports i transaction principalId membership permissions time lifetime attempts (draw + 1)

/-- The approval of a transaction that is the user's, in a tenant of which the user is a member. -/
def approve (ports : Ports) (i : Nat) (transaction : Transaction) (principalId : String) (time : Int) :
    OAuthProg AuthorizationResult := do
  evaluate (check (principalId ≠ "") (invalidRequest "authenticated principal is invalid"))
  evaluate (check (transaction.principalId = none || transaction.principalId = some principalId)
    (invalidRequest "authorization transaction belongs to another user"))
  let found ← query fun s => s.memberships.lookup (principalId, transaction.tenantId)
  match found with
  | none => throw (.protocol "invalid_scope" 403 "user is not a member of the requested tenant")
  | some membership =>
    evaluate (check (membership.tenantId = transaction.tenantId)
      (.protocol "invalid_scope" 403 "user is not a member of the requested tenant"))
    evaluate (check (transaction.requestedScopes.all (membership.scopes.contains ·))
      (.protocol "invalid_scope" 403 "requested scopes exceed tenant membership"))
    let lifetime ← evaluate (boundedLifetime (ports.codeLifetimeSeconds.getD 60) "authorization code" 30 300)
    let permissions ← evaluate (gatewayOAuthScopesToCapabilityPermissions transaction.tenantId transaction.requestedScopes)
    storeCode ports i transaction principalId membership permissions time lifetime 3 0

def completeGatewayOAuthAuthorization (ports : Ports) (i : Nat) (transactionId : String) (decision : Decision) :
    OAuthProg AuthorizationResult := do
  let found ← statement fun s => s.takeTransaction i transactionId
  match found with
  | none => throw (invalidRequest "authorization transaction is invalid or already used")
  | some transaction =>
    let time ← now
    evaluate (requireEpochSeconds time)
    evaluate (check (time < transaction.expiresAt) (invalidRequest "authorization transaction has expired"))
    if decision.approved then approve ports i transaction decision.principalId time
    else
      record
      return ⟨transaction.redirectUri, transaction.state, none⟩

/-! ## Tokens -/

/-- `GatewayOAuthAuthorizationCodeTokenRequest`. -/
structure CodeRequest where
  grantType : String
  code : String
  clientId : String
  redirectUri : String
  codeVerifier : String
  deriving DecidableEq, Repr

/-- `GatewayOAuthRefreshTokenRequest`. -/
structure RefreshRequest where
  grantType : String
  refreshToken : String
  clientId : String
  deriving DecidableEq, Repr

/-- `GatewayOAuthTokenResponse`. -/
structure TokenResponse where
  accessToken : AccessToken
  expiresIn : Int
  scope : String
  refreshToken : String
  deriving DecidableEq, Repr

/-- `issueAccessToken`, with the number of the draw; the issuer may throw. The family is for the journal. -/
def issueAccessToken (ports : Ports) (i : Nat) (familyId principalId tenantId : String) (permissions : List Permission)
    (refDomain : Option String) (lifetime : Int) (draw : Nat) : OAuthProg AccessToken :=
  let token : AccessToken :=
    ⟨principalId, ports.audience, tenantId, permissions, lifetime, ports.opaqueValue i draw, refDomain⟩
  statement fun s => (s.write i (.issued familyId token), token)

/-- The first token of a family for a code. -/
def initialToken (code : StoredCode) (tokenHash familyId : String) (time lifetime : Int) : StoredToken where
  tokenHash := tokenHash
  familyId := familyId
  generation := 0
  clientId := code.clientId
  principalId := code.principalId
  tenantId := code.tenantId
  scopes := code.scopes
  permissions := code.permissions
  refDomain := code.refDomain
  createdAt := time
  expiresAt := time + lifetime

/-- The attempts of `createInitialRefreshToken`; the family has drawn first. -/
def createInitialRefreshToken (ports : Ports) (i : Nat) (code : StoredCode) (time lifetime : Int) :
    Nat → Nat → OAuthProg (String × StoredToken)
  | 0, _ => throw (.protocol "server_error" 500 "could not allocate a refresh token")
  | attempts + 1, draw => do
    let refreshToken := ports.opaqueValue i draw
    let token := initialToken code (ports.sha256Base64Url refreshToken) (ports.opaqueValue i 0) time lifetime
    let stored ← statement fun s => s.putInitial i code token
    if stored then return (refreshToken, token)
    else createInitialRefreshToken ports i code time lifetime attempts (draw + 1)

def verifyGatewayOAuthPkceS256 (ports : Ports) (verifier challenge : String) : Bool :=
  validateGatewayOAuthPkceVerifier verifier && validateGatewayOAuthPkceS256Challenge challenge
    && ports.sha256Base64Url verifier = challenge

/-- Whether a code is exchanged for what it was issued for. -/
def codeAccepts (ports : Ports) (stored : StoredCode) (request : CodeRequest) (time : Int) : Bool :=
  time < stored.expiresAt && stored.clientId = request.clientId && stored.redirectUri = request.redirectUri
    && verifyGatewayOAuthPkceS256 ports request.codeVerifier stored.codeChallenge

/-- What revokes the family of a token when the issuer throws. -/
def orRevoke (issue : OAuthProg AccessToken) (tokenHash clientId : String) : OAuthProg AccessToken :=
  issue.tryCatch fun e => do
    execute fun s => s.revoke tokenHash clientId
    throw e

def scopeText (scopes : List Scope) : String := " ".intercalate (scopes.map Scope.text)

def refreshTokenLifetime (ports : Ports) : Except OAuthError Int := do
  let lifetime := ports.refreshTokenLifetimeSeconds.getD 2592000
  check (300 ≤ lifetime && lifetime ≤ 7776000)
    (.failure "OAuth refresh token lifetime must be an integer from 300 to 7776000")
  return lifetime

/-- The tokens for a code that was taken. -/
def grantTokens (ports : Ports) (i : Nat) (request : CodeRequest) (stored : StoredCode) : OAuthProg TokenResponse := do
  let time ← now
  evaluate (requireEpochSeconds time)
  if codeAccepts ports stored request time then
    evaluate (check (ports.audience ≠ "") (.protocol "server_error" 500 "capability audience is not configured"))
    let lifetime ← evaluate (accessTokenLifetime ports.accessTokenLifetimeSeconds)
    let refreshLifetime ← evaluate (refreshTokenLifetime ports)
    let (refreshToken, token) ← createInitialRefreshToken ports i stored time refreshLifetime 3 1
    let accessToken ← orRevoke (issueAccessToken ports i token.familyId stored.principalId stored.tenantId stored.permissions
      stored.refDomain lifetime 4) (ports.sha256Base64Url refreshToken) stored.clientId
    record
    return ⟨accessToken, lifetime, scopeText stored.scopes, refreshToken⟩
  else
    record
    throw (invalidGrant "authorization code exchange failed")

def exchangeGatewayOAuthAuthorizationCode (ports : Ports) (i : Nat) (request : CodeRequest) : OAuthProg TokenResponse := do
  evaluate (check (request.grantType = "authorization_code")
    (.protocol "unsupported_grant_type" 400 "grant_type must be authorization_code"))
  evaluate (requireNonEmpty request.code "code")
  evaluate (requireNonEmpty request.clientId "client_id")
  evaluate (requireNonEmpty request.redirectUri "redirect_uri")
  let found ← statement fun s => s.takeCode i (ports.sha256Base64Url request.code)
  match found with
  | none =>
    record
    throw (invalidGrant "authorization code is invalid or already used")
  | some stored => grantTokens ports i request stored

/-- `rotate`: the successor, or nothing where the token is invalid or replayed. -/
def rotate (i : Nat) (currentHash nextHash : String) (time : Int) : OAuthProg (Option StoredToken) := do
  let inserted ← statement fun s => s.rotate i currentHash nextHash time
  match inserted with
  | none => throw .storage
  | some true =>
    let row ← query fun s => s.findToken nextHash
    match row with
    | none => throw (.failure "OAuth refresh rotation successor was not persisted")
    | some (row, _) => return some row.toStoredToken
  | some false =>
    let current ← query fun s => s.findToken currentHash
    match current with
    | none => return none
    | some (row, revoked) =>
      if row.consumedAt = none ∨ revoked then return none
      else
        execute fun s => s.replay time row.familyId
        return none

/-- The tokens for a token that was rotated. -/
def refreshTokens (ports : Ports) (i : Nat) (request : RefreshRequest) (nextRefreshToken : String) (stored : StoredToken)
    (time : Int) : OAuthProg TokenResponse := do
  if stored.clientId ≠ request.clientId ∨ stored.expiresAt ≤ time then
    execute fun s => s.revoke (ports.sha256Base64Url nextRefreshToken) stored.clientId
    record
    throw (invalidGrant "refresh token exchange failed")
  else
    let lifetime ← evaluate (accessTokenLifetime ports.accessTokenLifetimeSeconds)
    let accessToken ← orRevoke (issueAccessToken ports i stored.familyId stored.principalId stored.tenantId stored.permissions
      stored.refDomain lifetime 1) (ports.sha256Base64Url nextRefreshToken) stored.clientId
    record
    return ⟨accessToken, lifetime, scopeText stored.scopes, nextRefreshToken⟩

def refreshGatewayOAuthAccessToken (ports : Ports) (i : Nat) (request : RefreshRequest) : OAuthProg TokenResponse := do
  evaluate (check (request.grantType = "refresh_token")
    (.protocol "unsupported_grant_type" 400 "grant_type must be refresh_token"))
  evaluate (requireNonEmpty request.refreshToken "refresh_token")
  evaluate (requireNonEmpty request.clientId "client_id")
  let nextRefreshToken := ports.opaqueValue i 0
  let time ← now
  evaluate (requireEpochSeconds time)
  let rotation ← rotate i (ports.sha256Base64Url request.refreshToken) (ports.sha256Base64Url nextRefreshToken) time
  match rotation with
  | none =>
    record
    throw (invalidGrant "refresh token is invalid, expired, revoked, or already used")
  | some stored => refreshTokens ports i request nextRefreshToken stored time

def revokeGatewayOAuthRefreshToken (ports : Ports) (refreshToken clientId : String) : OAuthProg Unit := do
  evaluate (requireNonEmpty refreshToken "token")
  evaluate (requireNonEmpty clientId "client_id")
  execute fun s => s.revoke (ports.sha256Base64Url refreshToken) clientId
  record

def cleanupGatewayOAuthD1 : OAuthProg Unit := do
  let time ← now
  evaluate (check (0 ≤ time && time ≤ maxSafeInteger) (.failure "OAuth cleanup time is invalid"))
  execute fun s => s.cleanup time

/-! ## The machine -/

/-- A call of the gateway. -/
inductive OAuthRequest where
  | start (request : AuthorizationRequest)
  | complete (transactionId : String) (decision : Decision)
  | exchange (request : CodeRequest)
  | refresh (request : RefreshRequest)
  | revoke (refreshToken clientId : String)
  | cleanup
  deriving DecidableEq, Repr

/-- What a call returns. -/
inductive OAuthResult where
  | pending (authorization : PendingAuthorization)
  | decided (result : AuthorizationResult)
  | tokens (response : TokenResponse)
  | done
  deriving DecidableEq, Repr

/-- The program of a call. -/
def serve (ports : Ports) (i : Nat) : OAuthRequest → OAuthProg OAuthResult
  | .start request => do return .pending (← startGatewayOAuthAuthorization ports i request)
  | .complete transactionId decision => do return .decided (← completeGatewayOAuthAuthorization ports i transactionId decision)
  | .exchange request => do return .tokens (← exchangeGatewayOAuthAuthorizationCode ports i request)
  | .refresh request => do return .tokens (← refreshGatewayOAuthAccessToken ports i request)
  | .revoke refreshToken clientId => do
    revokeGatewayOAuthRefreshToken ports refreshToken clientId
    return .done
  | .cleanup => do
    cleanupGatewayOAuthD1
    return .done

/-- What happens around the calls: the clock shows another time, a client is registered, an operator seeds a membership. -/
inductive OAuthEvent where
  | clock (time : Int)
  | register (client : Client)
  | seed (principalId : String) (membership : Membership)

/-- The effect of an event; memberships are seeded where that is allowed. -/
def environment (seeding : Bool) (event : OAuthEvent) (s : State) : Option State :=
  match event with
  | .clock time => some { s with clock := time }
  | .register client =>
    some { s with clients := if client.clientId ∈ s.clients then s.clients else s.clients.insert client.clientId client }
  | .seed principalId membership =>
    if seeding then
      some { s with memberships := s.memberships.insert (principalId, membership.tenantId) membership }
    else none

/-- Calls over the stores, statement by statement in any order. -/
def gateway (ports : Ports) (seeding : Bool) :
    Machine (StoreCall State OAuthError) State OAuthError OAuthResult Nat OAuthRequest OAuthEvent where
  exec := execStore .storage
  serve := serve ports
  env := environment seeding
  kills _ _ := false

abbrev GatewayPool := Pool (StoreCall State OAuthError) State OAuthError OAuthResult Nat OAuthRequest

/-- No calls yet, and nothing granted: the tables of clients and of memberships are given. -/
def GatewayPool.initial (time : Int) (clients : Table String Client) (memberships : Table (String × String) Membership) :
    GatewayPool :=
  ⟨⟨time, clients, memberships, ∅, ∅, ∅, ∅, []⟩, fun _ => none⟩

end UniDocs.OAuth
