import UniDocs.Lib.Result
import UniDocs.Codec.Binary

/-!
# Signed platform requests

`signPlatformRequest` and `verifyPlatformRequest`. The digest, the message authentication code and the URL parser of the
platform are parameters, as are the times a verification reads and the answer of the nonce store. A request has its headers
by their lowercase names and its body as the chunks of a stream.
-/

namespace UniDocs.Auth

open Lib UniDocs.Codec UniDocs.Cas

/-! ## Requests -/

inductive ServiceRole where
  | editor
  | operator
  deriving DecidableEq, Repr

def ServiceRole.text : ServiceRole → String
  | editor => "editor"
  | operator => "operator"

/-- What the URL parser returns. -/
structure Url where
  protocol : String
  username : String
  password : String
  hash : String
  origin : String
  pathname : String
  href : String
  deriving DecidableEq, Repr

/-- A `Request`; the body as the chunks its reader gives. -/
structure Request where
  url : String
  method : String
  headers : List (String × String)
  chunks : List Bytes
  deriving DecidableEq, Repr

/-- `headers.get(name)`. -/
def Request.header (request : Request) (name : String) : Option String := request.headers.lookup name

/-- What the platform supplies: SHA-256, HMAC with SHA-256 under a key, and the URL parser. -/
structure Platform (Key : Type) where
  sha256 : Bytes → Bytes
  hmac : Key → Bytes → Bytes
  parseUrl : String → Option Url

structure PlatformHmacKey (Key : Type) where
  keyId : String
  platformId : String
  environment : String
  serviceId : String
  role : ServiceRole
  key : Key

structure PlatformHmacTarget where
  origin : String
  paths : List String

/-- `PlatformRequestAuthentication` without the signature; the protocol and the algorithm are constants. -/
structure Authentication where
  keyId : String
  platformId : String
  environment : String
  serviceId : String
  role : ServiceRole
  issuedAt : Int
  expiresAt : Int
  nonce : String
  deriving DecidableEq, Repr

structure VerifiedPlatformRequest where
  authentication : Authentication
  body : Bytes
  casAuthorization : Option String
  platformAuthorization : Option String
  deriving DecidableEq, Repr

/-- Everything a signature covers that is not constant. -/
structure SignedFields extends VerifiedPlatformRequest where
  origin : String
  pathname : String
  deriving DecidableEq, Repr

/-- The signed fields of a request to a URL. -/
def Url.fields (url : Url) (verified : VerifiedPlatformRequest) : SignedFields where
  toVerifiedPlatformRequest := verified
  origin := url.origin
  pathname := url.pathname

/-- The `code` of a `PlatformHmacError`, or a `TypeError`. -/
inductive HmacError where
  | unauthorized
  | replayDetected
  | unavailable
  | limitExceeded
  | typeError (message : String)
  deriving DecidableEq, Repr

def doctypeProtocol : String := "unidocs-doctype/2-draft"

def hmacAlgorithm : String := "HMAC-SHA-256"

def sValueContentType : String := "application/vnd.unidocs.svalue+cbor;version=1"

def maximumLifetime : Int := 300

def clockSkew : Int := 30

/-! ## Checks -/

/-- Refuses a request unless a condition holds. -/
def authorize (condition : Bool) : Except HmacError Unit := if condition then .ok () else .error .unauthorized

/-- `/^[A-Za-z0-9_-]{1,128}$/`. -/
def tokenPattern (text : String) : Bool :=
  let cs := text.toList
  1 ≤ cs.length && cs.length ≤ 128 && cs.all fun c => c.isAlphanum || c = '_' || c = '-'

/-- `/^\/[A-Za-z0-9/_-]*$/`. -/
def pathPattern (text : String) : Bool :=
  match text.toList with
  | '/' :: cs => cs.all fun c => c.isAlphanum || c = '/' || c = '_' || c = '-'
  | _ => false

/-- `/^(0|[1-9][0-9]*)$/`, and the number it denotes. -/
def parseDecimal (text : String) : Option Nat :=
  match text.toList with
  | [] => none
  | c :: cs =>
    if (c :: cs).all Char.isDigit ∧ (c ≠ '0' ∨ cs = []) then some (Nat.ofDigitChars 10 (c :: cs) 0) else none

/-- `[\x21-\x7e]`. -/
def isVisible (c : Char) : Bool := 0x21 ≤ c.toNat && c.toNat ≤ 0x7e

/-- `/^[\x21-\x7e]+(?: [\x21-\x7e]+)*$/`, inside or at the start of a word. -/
def isWords : Bool → List Char → Bool
  | inWord, [] => inWord
  | inWord, c :: cs => if isVisible c then isWords true cs else c = ' ' && inWord && isWords false cs

def checkedCredential (value : Option String) : Except HmacError (Option String) :=
  match value with
  | none => .ok none
  | some text =>
    if 8192 < text.toList.length ∨ ¬ isWords false text.toList ∨ ',' ∈ text.toList then .error .unauthorized
    else .ok (some text)

variable {Key : Type} (platform : Platform Key)

def checkedUrl (input : String) (target : PlatformHmacTarget) : Except HmacError Url :=
  match platform.parseUrl input with
  | none => .error .unauthorized
  | some url =>
    if url.protocol ≠ "https:" ∨ url.username ≠ "" ∨ url.password ≠ "" ∨ url.hash ≠ "" ∨ url.origin ≠ target.origin ∨
        ¬ target.paths.contains url.pathname ∨ ¬ pathPattern url.pathname ∨ '?' ∈ input.toList ∨ '#' ∈ input.toList ∨
        url.href ≠ input then .error .unauthorized
    else .ok url

/-- `validateAuthentication` at a time. -/
def validateAuthentication (authentication : Authentication) (now : Rat) : Except HmacError Unit :=
  authorize (
    [authentication.keyId, authentication.platformId, authentication.environment, authentication.serviceId,
      authentication.nonce].all tokenPattern &&
    0 ≤ authentication.issuedAt && authentication.issuedAt ≤ maxSafeInteger &&
    -maxSafeInteger ≤ authentication.expiresAt && authentication.expiresAt ≤ maxSafeInteger &&
    authentication.issuedAt < authentication.expiresAt &&
    authentication.expiresAt - authentication.issuedAt ≤ maximumLifetime &&
    (authentication.issuedAt : Rat) ≤ now + clockSkew && now < (authentication.expiresAt + clockSkew : Int))

/-! ## The canonical request -/

def digest (bytes : Bytes) : String := String.ofList ((platform.sha256 bytes).flatMap byteHex)

/-- `String(value)` of an integer. -/
def decimal : Int → String
  | .ofNat n => toString n
  | .negSucc n => "-" ++ toString (n + 1)

/-- The digest of a credential. -/
def credentialField (value : Option String) : String :=
  match value with
  | none => "absent"
  | some text => digest platform (textEncode text)

/-- The fields of `canonicalRequest`. -/
def canonicalFields (f : SignedFields) : List String :=
  ["unidocs-hmac/1", doctypeProtocol, hmacAlgorithm, f.authentication.keyId, f.authentication.platformId,
    f.authentication.environment, f.authentication.serviceId, f.authentication.role.text, "POST", f.origin, f.pathname, "",
    sValueContentType, digest platform f.body, decimal f.authentication.issuedAt, decimal f.authentication.expiresAt,
    f.authentication.nonce, credentialField platform f.casAuthorization, credentialField platform f.platformAuthorization]

/-- A field behind its length in bytes. -/
def lengthPrefixed (field : String) : String := toString (textEncode field).length ++ ":" ++ field

/-- `canonicalRequest`: the fields are joined and encoded. -/
def canonicalRequest (f : SignedFields) : Bytes :=
  textEncode (String.ofList ((canonicalFields platform f).flatMap fun field => (lengthPrefixed field).toList))

/-! ## Signing -/

/-- The options of `signPlatformRequest`. -/
structure SignOptions (Key : Type) where
  url : String
  target : PlatformHmacTarget
  key : PlatformHmacKey Key
  body : Bytes
  casAuthorization : Option String
  platformAuthorization : Option String
  lifetimeSeconds : Option Int

/-- The authentication of a request that is signed at a time, with its nonce. -/
def SignOptions.authentication (options : SignOptions Key) (now : Rat) (nonce : String) : Authentication where
  keyId := options.key.keyId
  platformId := options.key.platformId
  environment := options.key.environment
  serviceId := options.key.serviceId
  role := options.key.role
  issuedAt := now.floor
  expiresAt := now.floor + options.lifetimeSeconds.getD 60
  nonce := nonce

/-- The headers that carry an authentication and its signature, in the order of `PlatformHmacHeaders`. -/
def authenticationHeaders (authentication : Authentication) (signature : String) : List (String × String) :=
  [("x-unidocs-protocol", doctypeProtocol), ("x-unidocs-algorithm", hmacAlgorithm),
    ("x-unidocs-key-id", authentication.keyId), ("x-unidocs-platform-id", authentication.platformId),
    ("x-unidocs-environment", authentication.environment), ("x-unidocs-service-id", authentication.serviceId),
    ("x-unidocs-role", authentication.role.text), ("x-unidocs-issued-at", decimal authentication.issuedAt),
    ("x-unidocs-expires-at", decimal authentication.expiresAt), ("x-unidocs-nonce", authentication.nonce),
    ("x-unidocs-signature", signature)]

/-- A header that is set when there is a value. -/
def optionalHeader (name : String) (value : Option String) : List (String × String) :=
  match value with
  | none => []
  | some text => [(name, text)]

def casAuthorizationHeader : String := "x-unidocs-cas-authorization"

def platformDelegationHeader : String := "x-unidocs-platform-authorization"

/-- An editor is not given a platform delegation. -/
def delegationAllowed (role : ServiceRole) (platformAuthorization : Option String) : Bool :=
  !(role = .editor && platformAuthorization.isSome)

/-- What `signPlatformRequest` signs. -/
def signedFields (options : SignOptions Key) (now : Rat) (nonce : String) : Except HmacError SignedFields := do
  let url ← checkedUrl platform options.url options.target
  let authentication := options.authentication now nonce
  validateAuthentication authentication authentication.issuedAt
  let casAuthorization ← checkedCredential options.casAuthorization
  let platformAuthorization ← checkedCredential options.platformAuthorization
  authorize (delegationAllowed authentication.role platformAuthorization)
  return url.fields ⟨authentication, options.body, casAuthorization, platformAuthorization⟩

/-- The signature of a request under a key. -/
def signatureOf (key : Key) (f : SignedFields) : String :=
  String.ofList ((platform.hmac key (canonicalRequest platform f)).flatMap byteHex)

/-- The request that carries signed fields. -/
def signedRequest (url : String) (key : Key) (f : SignedFields) : Request where
  url := url
  method := "POST"
  headers := ("content-type", sValueContentType) :: authenticationHeaders f.authentication (signatureOf platform key f)
    ++ optionalHeader casAuthorizationHeader f.casAuthorization
    ++ optionalHeader platformDelegationHeader f.platformAuthorization
  chunks := [f.body]

/-- `signPlatformRequest` at a time, with the nonce that is generated. -/
def signPlatformRequest (options : SignOptions Key) (now : Rat) (nonce : String) : Except HmacError Request := do
  let f ← signedFields platform options now nonce
  return signedRequest platform options.url options.key.key f

/-! ## Verifying -/

/-- `VerifyPlatformRequestOptions`, apart from the clock and the nonce store. -/
structure VerifyOptions (Key : Type) where
  target : PlatformHmacTarget
  keys : List (PlatformHmacKey Key)
  maxBodyBytes : Option Int

/-- The names under which a platform header may come. -/
def allowedHeaders : List String :=
  ["x-unidocs-protocol", "x-unidocs-algorithm", "x-unidocs-key-id", "x-unidocs-platform-id", "x-unidocs-environment",
    "x-unidocs-service-id", "x-unidocs-role", "x-unidocs-issued-at", "x-unidocs-expires-at", "x-unidocs-nonce",
    "x-unidocs-signature", casAuthorizationHeader, platformDelegationHeader]

/-- The checks of the method and the headers. -/
def checkHeaders (request : Request) : Except HmacError Unit :=
  authorize (
    request.method = "POST" && request.header "content-type" = some sValueContentType &&
    (request.header "authorization").isNone && (request.header "cookie").isNone &&
    (request.header "content-encoding").isNone &&
    request.headers.all fun entry => !(("x-unidocs-".toList).isPrefixOf entry.1.toList) || allowedHeaders.contains entry.1)

/-- A header that must be there. -/
def requiredHeader (request : Request) (name : String) : Except HmacError String :=
  match request.header name with
  | none => .error .unauthorized
  | some value => .ok value

/-- A header that holds a time. -/
def timeHeader (request : Request) (name : String) : Except HmacError Int := do
  let text ← requiredHeader request name
  match parseDecimal text with
  | none => .error .unauthorized
  | some n => return n

/-- The role a header names. -/
def parseRole (text : String) : Except HmacError ServiceRole :=
  if text = "editor" then .ok .editor else if text = "operator" then .ok .operator else .error .unauthorized

/-- `/^[a-f0-9]{64}$/`. -/
def signaturePattern (text : String) : Bool :=
  text.toList.length = 64 &&
    text.toList.all fun c => (0x30 ≤ c.toNat && c.toNat ≤ 0x39) || (0x61 ≤ c.toNat && c.toNat ≤ 0x66)

/-- `readAuthentication`: the authentication and the signature. -/
def readAuthentication (request : Request) : Except HmacError (Authentication × String) := do
  let issuedAt ← timeHeader request "x-unidocs-issued-at"
  let expiresAt ← timeHeader request "x-unidocs-expires-at"
  let protocol ← requiredHeader request "x-unidocs-protocol"
  let algorithm ← requiredHeader request "x-unidocs-algorithm"
  let keyId ← requiredHeader request "x-unidocs-key-id"
  let platformId ← requiredHeader request "x-unidocs-platform-id"
  let environment ← requiredHeader request "x-unidocs-environment"
  let serviceId ← requiredHeader request "x-unidocs-service-id"
  let role ← requiredHeader request "x-unidocs-role"
  let nonce ← requiredHeader request "x-unidocs-nonce"
  let signature ← requiredHeader request "x-unidocs-signature"
  authorize (protocol = doctypeProtocol && algorithm = hmacAlgorithm)
  let role ← parseRole role
  authorize (signaturePattern signature)
  return ({ keyId, platformId, environment, serviceId, role, issuedAt, expiresAt, nonce }, signature)

/-- The loop of `readBoundedBody` over the chunks. -/
def readChunks (maximum : Int) : Nat → List Bytes → Except HmacError Bytes
  | _, [] => .ok []
  | length, chunk :: chunks =>
    if maximum < (length + chunk.length : Nat) then .error .limitExceeded
    else do
      let rest ← readChunks maximum (length + chunk.length) chunks
      return chunk ++ rest

/-- The check of a declared length. -/
def declaredLength (request : Request) (maximum : Int) : Except HmacError Unit :=
  match request.header "content-length" with
  | none => .ok ()
  | some declared =>
    match parseDecimal declared with
    | none => .error .limitExceeded
    | some length => if maximum < (length : Int) then .error .limitExceeded else .ok ()

def readBoundedBody (request : Request) (maximum : Int) : Except HmacError Bytes :=
  if ¬ (0 < maximum ∧ maximum ≤ maxSafeInteger) then .error (.typeError "Invalid request body limit")
  else do
    declaredLength request maximum
    readChunks maximum 0 request.chunks

/-- The keys that an authentication names. -/
def candidates (keys : List (PlatformHmacKey Key)) (authentication : Authentication) : List (PlatformHmacKey Key) :=
  keys.filter fun key => key.keyId = authentication.keyId && key.platformId = authentication.platformId &&
    key.environment = authentication.environment && key.serviceId = authentication.serviceId &&
    key.role = authentication.role

/-- The only candidate. -/
def onlyCandidate (keys : List (PlatformHmacKey Key)) (authentication : Authentication) :
    Except HmacError (PlatformHmacKey Key) :=
  match candidates keys authentication with
  | [key] => .ok key
  | _ => .error .unauthorized

/-- What a verification reads of a request and checks before the nonce is claimed. -/
def verifySignature (options : VerifyOptions Key) (request : Request) (first second : Rat) :
    Except HmacError SignedFields := do
  let url ← checkedUrl platform request.url options.target
  checkHeaders request
  let (authentication, signature) ← readAuthentication request
  validateAuthentication authentication first
  let key ← onlyCandidate options.keys authentication
  let casAuthorization ← checkedCredential (request.header casAuthorizationHeader)
  let platformAuthorization ← checkedCredential (request.header platformDelegationHeader)
  authorize (delegationAllowed authentication.role platformAuthorization)
  let body ← readBoundedBody request (options.maxBodyBytes.getD 1048576)
  let f := url.fields ⟨authentication, body, casAuthorization, platformAuthorization⟩
  authorize (hexBytes signature.toList = platform.hmac key.key (canonicalRequest platform f))
  validateAuthentication authentication second
  return f

/-- The scope of a nonce; the texts stand for their JSON. -/
def nonceScope (authentication : Authentication) : String × String × String × ServiceRole :=
  (authentication.platformId, authentication.environment, authentication.serviceId, authentication.role)

/-- The time until which a nonce is retained. -/
def retainUntil (authentication : Authentication) : Int := authentication.expiresAt + clockSkew

/-- `verifyPlatformRequest`: the three times it reads, and the answer of the nonce store between the last two. -/
def verifyPlatformRequest (options : VerifyOptions Key) (request : Request) (first second third : Rat)
    (claim : Except Unit Bool) : Except HmacError VerifiedPlatformRequest := do
  let f ← verifySignature platform options request first second
  match claim with
  | .error _ => .error .unavailable
  | .ok false => .error .replayDetected
  | .ok true =>
    validateAuthentication f.authentication third
    return f.toVerifiedPlatformRequest

end UniDocs.Auth
