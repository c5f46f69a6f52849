import UniDocs.Cas.NodeLease
import UniDocs.Lib.JsonText

/-!
# Root Ref updates

Canonicalization of an update, the kernel that plans and commits it, the retry loop, and the domain Durable Object that
serves one command of a tenant. An update is validated against the tenant's node rows and planned from the domain's
revision and balances, which are read before the batch that commits it.
-/

namespace UniDocs.Cas

open Lib

namespace RootRefsErrorCodes

def invalidRequest := "ROOT_REF_INVALID"
def nodeNotFound := "NODE_NOT_FOUND"
def nodeNotReady := "NODE_NOT_READY"
def negativeAggregate := "NEGATIVE_AGGREGATE"
def idempotencyConflict := "IDEMPOTENCY_CONFLICT"
def busy := "ROOT_REF_BUSY"

end RootRefsErrorCodes

def casMaxRootRefChanges : Nat := 1000
def casMaxRootRefDelta : Nat := 1000000
def casMaxRequestIdLength : Nat := 256

/-! ## Canonicalization -/

/-- A member of the `changes` object as `JSON.parse` gives it: a whole number, or anything else with its text. -/
inductive JsonDelta where
  | int (n : Int)
  | other (text : String)
  deriving DecidableEq, Repr

/-- The body of an update: `none` stands for a member of the wrong type. An object has each key once. -/
structure RootRefsBody where
  requestId : Option String
  changes : Option (Table Hash JsonDelta)

/-- A validated update in hash order. -/
structure CanonicalRootRefsUpdate where
  requestId : String
  changesJson : String
  payloadHash : String
  entries : Entries
  deriving DecidableEq, Repr

/-- The JSON text of a changes record. -/
def changesJson (es : Entries) : String :=
  "\x7b" ++ ",".intercalate (es.map fun e => "\"" ++ e.1 ++ "\":" ++ toString e.2) ++ "\x7d"

/-- The digest of a text's UTF-8 bytes. -/
def sha256HexText (codec : Codec) (text : String) : String := codec.sha256Hex text.toUTF8.data.toList

/-- A validation error of the update. -/
def invalidUpdate {α : Type} (message : String) : Except CasError α :=
  .error (.rootRefsValidation 400 RootRefsErrorCodes.invalidRequest message)

/-- Validate one change. -/
def validateChange (hash : Hash) (delta : JsonDelta) : Except CasError (Hash × Int) :=
  match validateHash hash with
  | .error _ => invalidUpdate s!"invalid hash: {hash}"
  | .ok () =>
    match delta with
    | .other text => invalidUpdate s!"invalid delta for {hash}: {text}"
    | .int n =>
      if !isSafeInteger n || n == 0 then invalidUpdate s!"invalid delta for {hash}: {n}"
      else if n.natAbs > casMaxRootRefDelta then invalidUpdate s!"delta for {hash} exceeds the per-hash bound"
      else .ok (hash, n)

/-- Validate the changes in their order. -/
def validateChanges : List (Sigma fun _ : Hash => JsonDelta) → Except CasError Entries
  | [] => .ok []
  | ⟨hash, delta⟩ :: rest =>
    match validateChange hash delta with
    | .error e => .error e
    | .ok entry =>
      match validateChanges rest with
      | .error e => .error e
      | .ok entries => .ok (entry :: entries)

/-- Validate and canonicalize an update into hash order. -/
def canonicalizeRootRefsUpdate (codec : Codec) (body : RootRefsBody) : Except CasError CanonicalRootRefsUpdate :=
  match body.requestId with
  | none => invalidUpdate "requestId must be a non-empty string"
  | some requestId =>
    if requestId = "" then invalidUpdate "requestId must be a non-empty string"
    else if utf16Length requestId > casMaxRequestIdLength then invalidUpdate "requestId exceeds 256 characters"
    else match body.changes with
      | none => invalidUpdate "changes must be an object"
      | some changes =>
        match validateChanges changes.entries with
        | .error e => .error e
        | .ok entries =>
          if entries.length = 0 then invalidUpdate "changes must not be empty"
          else if entries.length > casMaxRootRefChanges then invalidUpdate "changes exceeds the limit of 1000"
          else
            let sorted := entries.insertionSort fun a b => a.1 ≤ b.1
            .ok ⟨requestId, changesJson sorted, sha256HexText codec (changesJson sorted), sorted⟩

/-! ## The kernel -/

/-- A repository call; a failure of the store becomes retryable. -/
def repositoryCall {α : Type} (operation : Op α) : Op α :=
  operation.tryCatch fun e => match e with
    | .rootRefsValidation status code message => throw (.rootRefsValidation status code message)
    | .rootRefsRetryable message => throw (.rootRefsRetryable message)
    | e => throw (.rootRefsRetryable e.message)

/-- `readNodes`: one `SELECT` for each hash; a hash without a row gives none. -/
def readNodes (sc : Scope) : List Hash → Op (List (Hash × Int))
  | [] => pure []
  | hash :: rest => do
    let row ← query sc fun t => (t.nodes.lookup hash).map (·.rootRefCount)
    let nodes ← readNodes sc rest
    pure (match row with
      | some count => (hash, count) :: nodes
      | none => nodes)

/-- `findUnreadyNode`: the first hash without an object. -/
def findUnreadyNode (sc : Scope) : List Hash → Op (Option Hash)
  | [] => pure none
  | hash :: rest => do
    let object ← query sc fun t => decide (hash ∈ t.objects)
    if object then findUnreadyNode sc rest else pure (some hash)

/-- `readDomainState`: the revision first, then the balances. -/
def readDomainState (sc : RootRefScope) : Op (Nat × (Hash → Option Int)) := do
  let revision ← queryLedger fun l => l.revision sc.domain
  let balances ← queryLedger fun l hash => l.refs.lookup (sc, hash)
  pure (revision, balances)

/-- Each change needs a row and a count that stays in range. -/
def validateCounts (nodes : List (Hash × Int)) : Entries → Except CasError Unit
  | [] => .ok ()
  | (hash, delta) :: rest =>
    match nodes.lookup hash with
    | none => .error (.rootRefsValidation 404 RootRefsErrorCodes.nodeNotFound s!"node {hash} not found")
    | some count =>
      if count + delta < 0 then
        .error (.rootRefsValidation 409 RootRefsErrorCodes.negativeAggregate s!"root ref count would go negative for {hash}")
      else if !isSafeInteger (count + delta) then
        .error (.rootRefsValidation 400 RootRefsErrorCodes.invalidRequest s!"root ref count would overflow for {hash}")
      else validateCounts nodes rest

/-- The result of an update. -/
structure DomainUpdateResult where
  idempotent : Bool
  revision : Nat
  deriving DecidableEq, Repr

/-- The plan of an update over the domain state it read. -/
def rootRefPlan (sc : RootRefScope) (canonical : CanonicalRootRefsUpdate) (revision : Nat)
    (balances : Hash → Option Int) (appliedAt : Nat) : RootRefCommitPlan where
  scope := sc
  requestId := canonical.requestId
  payloadHash := canonical.payloadHash
  entries := canonical.entries
  expectedRevision := revision
  revision := revision + 1
  projections := canonical.entries.map fun e =>
    let refCount := (balances e.1).getD 0 + e.2
    ⟨e.1, if refCount = 0 then none else some refCount⟩
  appliedAt := appliedAt

/-- Plan and commit an update that has not been recorded. -/
def planAndCommit (sc : RootRefScope) (canonical : CanonicalRootRefsUpdate) : Op DomainUpdateResult := do
  let nodes ← repositoryCall (readNodes sc.tenant (canonical.entries.map Prod.fst))
  Prog.ret (validateCounts nodes canonical.entries)
  let unready ← repositoryCall
    (findUnreadyNode sc.tenant ((canonical.entries.filter fun e => decide (0 < e.2)).map Prod.fst))
  match unready with
  | some hash => throw (.rootRefsValidation 409 RootRefsErrorCodes.nodeNotReady s!"node {hash} is not ready")
  | none => do
    let domain ← repositoryCall (readDomainState sc)
    let appliedAt ← now
    let committed ← repositoryCall
      (Prog.attempt (.commitRootRefs (rootRefPlan sc canonical domain.1 domain.2 appliedAt)))
    Prog.require committed (.rootRefsRetryable "stack-domain revision allocation lost a conflict")
    pure ⟨false, domain.1 + 1⟩

/-- Apply one update. -/
def applyRootRefsUpdate (sc : RootRefScope) (canonical : CanonicalRootRefsUpdate) : Op DomainUpdateResult := do
  let existing ← repositoryCall (queryLedger fun l => l.requests.lookup (sc, canonical.requestId))
  match existing with
  | some record => do
    Prog.require (record.payloadHash == canonical.payloadHash)
      (.rootRefsValidation 409 RootRefsErrorCodes.idempotencyConflict "requestId reused with a different payload")
    pure ⟨true, record.revision⟩
  | none => planAndCommit sc canonical

/-! ## Retries and the domain Durable Object -/

/-- Run the operation again after a retryable error. Without a bound on the attempts the loop has no end of its own;
`fuel` is the number of attempts a run gets to see. -/
def withDomainRetry {α : Type} (operation : Op α) (maxAttempts : Option Nat) (attempt : Nat) : Nat → Op α
  | 0 => Prog.call .stall fun never => never.elim
  | fuel + 1 => operation.tryCatch fun e => match e with
    | .rootRefsRetryable message =>
      if maxAttempts.any fun bound => decide (bound ≤ attempt) then throw (.rootRefsRetryable message)
      else withDomainRetry operation maxAttempts (attempt + 1) fuel
    | e => throw e

/-- An HTTP answer of the service: the value, or the status, code and message of an error. -/
inductive Response (α : Type) where
  | ok (value : α)
  | error (status : Nat) (code : String) (message : String)
  deriving DecidableEq, Repr

/-- What the deployment sets: the codec, the bound on root ref attempts (`CAS_RETRY_MAX_ATTEMPTS`, when it is set) and
whether direct uploads are configured. -/
structure Config where
  codec : Codec
  maxAttempts : Option Nat
  retryFuel : Nat
  directUpload : Bool

/-- One command of the domain object. -/
def domainFetch (cfg : Config) (sc : RootRefScope) (body : RootRefsBody) : Op (Response DomainUpdateResult) :=
  Prog.tryCatch (do
    let canonical ← Prog.ret (canonicalizeRootRefsUpdate cfg.codec body)
    let result ← withDomainRetry (applyRootRefsUpdate sc canonical) cfg.maxAttempts 1 cfg.retryFuel
    pure (.ok result))
    fun e => match e with
      | .rootRefsValidation status code message => pure (.error status code message)
      | _ => pure (.error 503 RootRefsErrorCodes.busy "root refs update failed")

end UniDocs.Cas

/-!
## The body of a Root Ref update

The text of a request is searched for a hash key that occurs twice before it is parsed, since a parsed object keeps the last
one only. The search is a global regular expression over the raw text.
-/

namespace UniDocs.Cas

open Lib Lib.JsonText

/-- A validation error of a request body. -/
structure BodyError where
  status : Nat
  code : String
  message : JsString

/-- `[0-9a-f]`. -/
def isHashUnit (u : UInt16) : Bool := (48 ≤ u && u ≤ 57) || (97 ≤ u && u ≤ 102)

/-- 64 lowercase hexadecimal digits. -/
def isHashText (text : JsString) : Bool := text.length == 64 && text.all isHashUnit

/-- `/"([0-9a-f]{64})"\s*:/` at the start of a text: the hash, and how much of the text is matched. -/
def hashKeyAt : JsString → Option (JsString × Nat)
  | [] => none
  | u :: rest =>
    if u = 34 && isHashText (rest.take 64) then
      match rest.drop 64 with
      | 34 :: t =>
        match t.dropWhile JsString.isSpace with
        | 58 :: _ => some (rest.take 64, 67 + (t.takeWhile JsString.isSpace).length)
        | _ => none
      | _ => none
    else none

/-- The hashes that the global expression finds one after another; each search starts behind the match before. -/
def hashKeys : Nat → JsString → List JsString
  | _, [] => []
  | skip + 1, _ :: rest => hashKeys skip rest
  | 0, u :: rest =>
    match hashKeyAt (u :: rest) with
    | some (hash, length) => hash :: hashKeys (length - 1) rest
    | none => hashKeys 0 rest

/-- The first hash that was found before. -/
def firstRepeated (seen : List JsString) : List JsString → Option JsString
  | [] => none
  | hash :: rest => if seen.contains hash then some hash else firstRepeated (hash :: seen) rest

/-- A member of an object. -/
def member (name : String) (fields : List (JsString × Value)) : Option Value := fields.lookup (JsString.ofString name)

/-- Parse a Root Refs body, rejecting duplicate hash keys before JSON parsing: the request identifier and the changes. -/
def parseRootRefsBody (text : JsString) : Except BodyError (Option Value × Option Value) :=
  match firstRepeated [] (hashKeys 0 text) with
  | some hash => .error ⟨400, RootRefsErrorCodes.invalidRequest, JsString.ofString "duplicate JSON key: " ++ hash⟩
  | none =>
    match parse text with
    | none => .error ⟨400, RootRefsErrorCodes.invalidRequest, JsString.ofString "request body is not valid JSON"⟩
    | some (_, tree, _) =>
      match tree.value with
      | .object fields => .ok (member "requestId" fields, member "changes" fields)
      | _ => .error ⟨400, RootRefsErrorCodes.invalidRequest, JsString.ofString "request body must be an object"⟩

end UniDocs.Cas
