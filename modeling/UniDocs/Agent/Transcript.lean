import UniDocs.Codec.Binary
import UniDocs.Lib.Json

/-!
# The transcript of an agent session

The messages that `AgentSession` keeps, their JSON form (`encodeHistory`, `decodeHistory`), their form for a provider
(`materializeMessages`), and the runs that extend them. What the provider, the blob reads and the tools come to in each turn is
given from outside.
-/

namespace UniDocs.Transcript

open Lib

abbrev Bytes := List UInt8

/-! ## Messages -/

/-- `SBlob`, which is made by `createSBlob` alone. -/
structure SBlob where
  hash : String
  valid : Codec.IsHash hash

/-- `AgentContentPart`. -/
inductive ContentPart where
  | text (text : String)
  | image (blob : SBlob) (mediaType : String) (altText : Option String)
  | file (blob : SBlob) (mediaType : String) (filename : Option String)

/-- `AgentToolCall`. -/
structure ToolCall where
  id : String
  name : String
  arguments : Json

/-- `AgentMessage`. -/
inductive Message where
  | user (content : List ContentPart)
  | assistant (content : List ContentPart) (toolCalls : Option (List ToolCall))
  | tool (callId : String) (content : List ContentPart) (structuredContent : Option Json)

/-! ## JSON form -/

def optionalField (name : String) (value : Option Json) : List (String × Json) := (value.map fun v => (name, v)).toList

def encodePart : ContentPart → Json
  | .text text => .object [("type", .string "text"), ("text", .string text)]
  | .image blob mediaType altText =>
    .object ([("type", .string "image"), ("hash", .string blob.hash), ("mediaType", .string mediaType)] ++
      optionalField "altText" (altText.map .string))
  | .file blob mediaType filename =>
    .object ([("type", .string "file"), ("hash", .string blob.hash), ("mediaType", .string mediaType)] ++
      optionalField "filename" (filename.map .string))

def createSBlob (hash : String) : Except String SBlob :=
  if valid : Codec.IsHash hash then .ok ⟨hash, valid⟩ else .error "SBlob hash must be 64 lowercase hexadecimal characters"

/-- A field that is a string. -/
def stringField (name what : String) (raw : Json) : Except String String :=
  match raw.field? name with
  | some (.string text) => .ok text
  | _ => .error what

def decodePart (raw : Json) : Except String ContentPart :=
  if raw.isObject = false then .error "content part is not an object"
  else
    match raw.field? "type" with
    | some (.string "text") => do
      let text ← stringField "text" "text part has no text" raw
      pure (.text text)
    | some (.string "image") => do
      let hash ← stringField "hash" "image part has no hash" raw
      let mediaType ← stringField "mediaType" "image part has no mediaType" raw
      let blob ← createSBlob hash
      pure (.image blob mediaType ((raw.field? "altText").map Json.toText))
    | some (.string "file") => do
      let hash ← stringField "hash" "file part has no hash" raw
      let mediaType ← stringField "mediaType" "file part has no mediaType" raw
      let blob ← createSBlob hash
      pure (.file blob mediaType ((raw.field? "filename").map Json.toText))
    | _ => .error "unknown content part type"

def encodeToolCall (c : ToolCall) : Json :=
  .object [("id", .string c.id), ("name", .string c.name), ("arguments", c.arguments)]

def decodeToolCall (c : Json) : Except String ToolCall := do
  let id ← stringField "id" "malformed tool call" c
  let name ← stringField "name" "malformed tool call" c
  pure ⟨id, name, (c.field? "arguments").getD .null⟩

def decodeToolCalls : Json → Except String (List ToolCall)
  | .array calls => calls.mapM decodeToolCall
  | _ => .error "toolCalls is not an array"

def encodeMessage : Message → Json
  | .user content => .object [("role", .string "user"), ("content", .array (content.map encodePart))]
  | .assistant content toolCalls =>
    .object ([("role", .string "assistant"), ("content", .array (content.map encodePart))] ++
      optionalField "toolCalls" (toolCalls.map fun calls => .array (calls.map encodeToolCall)))
  | .tool callId content structuredContent =>
    .object ([("role", .string "tool"), ("callId", .string callId), ("content", .array (content.map encodePart))] ++
      optionalField "structuredContent" structuredContent)

def encodeHistory (history : List Message) : Json := .array (history.map encodeMessage)

def decodeMessage (m : Json) : Except String Message :=
  if m.isObject = false then .error "message is not an object"
  else
    match m.field? "content" with
    | some (.array parts) => do
      let content ← parts.mapM decodePart
      match m.field? "role" with
      | some (.string "user") => pure (.user content)
      | some (.string "assistant") =>
        match m.field? "toolCalls" with
        | none => pure (.assistant content none)
        | some raw => do
          let toolCalls ← decodeToolCalls raw
          pure (.assistant content (some toolCalls))
      | some (.string "tool") => do
        let callId ← stringField "callId" "tool message has no callId" m
        pure (.tool callId content (m.field? "structuredContent"))
      | _ => .error "unknown message role"
    | _ => .error "message content is not an array"

def decodeHistory : Json → Except String (List Message)
  | .array messages => messages.mapM decodeMessage
  | _ => .error "history is not an array"

/-! ## Attachments -/

/-- `ByteLru`, the entries from the least to the most recently used. -/
structure ByteLru where
  maxBytes : Nat
  entries : List (String × Bytes)
  bytes : Nat

def blobCacheBytes : Nat := 32 * 1024 * 1024

def ByteLru.empty : ByteLru := ⟨blobCacheBytes, [], 0⟩

def ByteLru.get (cache : ByteLru) (hash : String) : ByteLru × Option Bytes :=
  match cache.entries.find? fun e => e.1 == hash with
  | none => (cache, none)
  | some hit => ({ cache with entries := cache.entries.filter (fun e => e.1 != hash) ++ [hit] }, some hit.2)

/-- The loop of `set`, which spares the entry that has just been set. -/
def ByteLru.evict (maxBytes : Nat) (hash : String) : List (String × Bytes) → Nat → List (String × Bytes) × Nat
  | [], bytes => ([], bytes)
  | e :: entries, bytes =>
    if bytes ≤ maxBytes then (e :: entries, bytes)
    else if e.1 = hash then
      let rest := evict maxBytes hash entries bytes
      (e :: rest.1, rest.2)
    else evict maxBytes hash entries (bytes - e.2.length)

def ByteLru.set (cache : ByteLru) (hash : String) (data : Bytes) : ByteLru :=
  let existing := ((cache.entries.find? fun e => e.1 == hash).map (·.2.length)).getD 0
  let entries := cache.entries.filter (fun e => e.1 != hash) ++ [(hash, data)]
  let kept := evict cache.maxBytes hash entries (cache.bytes - existing + data.length)
  ⟨cache.maxBytes, kept.1, kept.2⟩

/-- `LlmContentPart`. -/
inductive LlmPart where
  | text (text : String)
  | image (data : Bytes) (mediaType : String) (altText : Option String)
  | file (data : Bytes) (mediaType : String) (filename : Option String)

inductive LlmMessage where
  | user (content : List LlmPart)
  | assistant (content : List LlmPart) (toolCalls : Option (List ToolCall))
  | tool (callId : String) (content : List LlmPart) (structuredContent : Option Json)

/-- What `readBlob` comes to: the bytes of the blob, `BlobUnavailableError`, or another error. -/
inductive Read where
  | found
  | unavailable
  | failed (error : String)

def ContentPart.blob? : ContentPart → Option SBlob
  | .text _ => none
  | .image blob _ _ => some blob
  | .file blob _ _ => some blob

def degrade : ContentPart → LlmPart
  | .text text => .text text
  | .image _ mediaType altText => .text ("[image: " ++ altText.getD mediaType ++ "]")
  | .file _ mediaType filename => .text ("[file: " ++ filename.getD mediaType ++ "]")

def withData (data : Bytes) : ContentPart → LlmPart
  | .text text => .text text
  | .image _ mediaType altText => .image data mediaType altText
  | .file _ mediaType filename => .file data mediaType filename

section Materialize

/- The bytes of a blob, which its hash fixes. -/
variable (contentOf : String → Bytes)

/-- The parts of a message look their blobs up in the cache, all before the first read is answered. -/
def lookUpParts : List ContentPart → ByteLru → ByteLru × List (Option Bytes)
  | [], cache => (cache, [])
  | part :: parts, cache =>
    let looked := match part.blob? with
      | none => (cache, none)
      | some blob => cache.get blob.hash
    let rest := lookUpParts parts looked.1
    (rest.1, looked.2 :: rest.2)

/-- `materializePart` after its lookup, with what its read comes to if it makes one. -/
def materializePart (read : Read) (hit : Option Bytes) (part : ContentPart) (cache : ByteLru) : ByteLru × Except String LlmPart :=
  match part.blob? with
  | none => (cache, .ok (withData [] part))
  | some blob =>
    match hit, read with
    | some data, _ => (cache, .ok (withData data part))
    | none, .found => (cache.set blob.hash (contentOf blob.hash), .ok (withData (contentOf blob.hash) part))
    | none, .unavailable => (cache, .ok (degrade part))
    | none, .failed error => (cache, .error error)

/-- The parts of a message, the `j`th of them first; the reads that succeed are cached also when another one fails. -/
def materializeParts (read : Nat → Read) : Nat → List (ContentPart × Option Bytes) → ByteLru →
    ByteLru × Except String (List LlmPart)
  | _, [], cache => (cache, .ok [])
  | j, (part, hit) :: parts, cache =>
    let first := materializePart contentOf (read j) hit part cache
    let rest := materializeParts read (j + 1) parts first.1
    (rest.1, do
      let head ← first.2
      let tail ← rest.2
      pure (head :: tail))

def Message.content : Message → List ContentPart
  | .user content => content
  | .assistant content _ => content
  | .tool _ content _ => content

/-- A message with other content. -/
def Message.withContent (content : List LlmPart) : Message → LlmMessage
  | .user _ => .user content
  | .assistant _ toolCalls => .assistant content toolCalls
  | .tool callId _ structuredContent => .tool callId content structuredContent

/-- One message. -/
def materializeMessage (read : Nat → Read) (m : Message) (cache : ByteLru) : ByteLru × Except String LlmMessage :=
  let looked := lookUpParts m.content cache
  let parts := materializeParts contentOf read 0 (m.content.zip looked.2) looked.1
  (parts.1, parts.2.map m.withContent)

/-- `materializeMessages`, from the `i`th message on. -/
def materializeFrom (read : Nat → Nat → Read) : Nat → List Message → ByteLru → ByteLru × Except String (List LlmMessage)
  | _, [], cache => (cache, .ok [])
  | i, m :: messages, cache =>
    match materializeMessage contentOf (read i) m cache with
    | (cache, .error e) => (cache, .error e)
    | (cache, .ok head) =>
      let rest := materializeFrom read (i + 1) messages cache
      (rest.1, do
        let tail ← rest.2
        pure (head :: tail))

def materializeMessages (read : Nat → Nat → Read) (messages : List Message) (cache : ByteLru) :
    ByteLru × Except String (List LlmMessage) := materializeFrom contentOf read 0 messages cache

end Materialize

/-! ## Tools -/

/-- `AgentToolResult`. -/
structure ToolResult where
  content : Option (List ContentPart)
  structuredContent : Option Json

/-- `AgentTool`, by its kind. -/
inductive ToolKind where
  | query (toResult : Option (Json → Nat → ToolResult))
  | effect
  | op

/-- What happens inside a tool call: what is thrown, if anything is, and else what the platform and the tool answer. -/
structure Invocation where
  threw : Option String
  data : Json
  version : Nat
  result : ToolResult

def versionNumber (version : Nat) : Json := .number (toString version)

def defaultQueryToolResult (data : Json) (version : Nat) : ToolResult :=
  ⟨none, some (.object [("data", data), ("version", versionNumber version)])⟩

def defaultOpToolResult (version : Nat) : ToolResult :=
  ⟨none, some (.object [("success", .bool true), ("version", versionNumber version)])⟩

def errorResult (error : String) : ToolResult := ⟨none, some (.object [("error", .string error)])⟩

def toolResultToMessage (callId : String) (result : ToolResult) : Message :=
  .tool callId (result.content.getD []) result.structuredContent

def dispatch (tools : List (String × ToolKind)) (name : String) (args : Json) (invocation : Invocation) : ToolResult :=
  match tools.find? fun t => t.1 == name with
  | none => errorResult ("Error: Unknown agent tool: " ++ name)
  | some tool =>
    if args.isObject = false then errorResult "TypeError: Agent tool parameters must be a JSON object"
    else
      match invocation.threw with
      | some error => errorResult error
      | none =>
        match tool.2 with
        | .query toResult => (toResult.getD defaultQueryToolResult) invocation.data invocation.version
        | .effect => invocation.result
        | .op => defaultOpToolResult invocation.version

/-! ## Runs -/

/-- `AgentCompletion`. -/
structure Completion where
  content : List LlmPart
  toolCalls : Option (List ToolCall)
  stopReason : Option String

/-- What one turn meets: what the read for each part of each message comes to, what the provider answers, and what happens in
each tool call. -/
structure Turn where
  read : Nat → Nat → Read
  completion : Except String Completion
  invocation : Nat → Invocation

/-- `AgentSession`, as far as it changes. -/
structure Session where
  history : List Message
  blobCache : ByteLru

/-- `AgentRunOutcome`. -/
inductive Outcome where
  | ok (content : List ContentPart) (response : String) (iterations : Nat)
  | failed (error : String)

/-- A call of `materializeMessages`: what it finds, and its result, which is handed to the provider. -/
structure Request where
  history : List Message
  blobCache : ByteLru
  read : Nat → Nat → Read
  result : Except String (List LlmMessage)

/-- The texts of a completion. -/
def assistantTexts (completion : Completion) : List String :=
  completion.content.filterMap fun
    | .text text => some text
    | .image _ _ _ => none
    | .file _ _ _ => none

def summarise (names : List String) : String :=
  let runs := names.foldl (fun (runs : List (String × Nat)) name => match runs.getLast? with
    | some last => if last.1 = name then runs.dropLast ++ [(name, last.2 + 1)] else runs ++ [(name, 1)]
    | none => [(name, 1)]) []
  if names.isEmpty then "none"
  else ", ".intercalate (runs.map fun r => if r.2 > 1 then r.1 ++ " x" ++ toString r.2 else r.1)

/-- The results of the tool calls, the `k`th of them first. -/
def toolMessages (tools : List (String × ToolKind)) (invocation : Nat → Invocation) : Nat → List ToolCall → List Message
  | _, [] => []
  | k, call :: calls =>
    toolResultToMessage call.id (dispatch tools call.name call.arguments (invocation k)) :: toolMessages tools invocation (k + 1) calls

section Runs

variable (tools : List (String × ToolKind)) (contentOf : String → Bytes)

/-- The loop of `run`, with the number of iterations left, those done, and the tools called so far. -/
def iterate (maxIterations : Nat) (turn : Nat → Turn) : Nat → Nat → List String → Session → List Request × Session × Outcome
  | 0, _, called, s =>
    ([], s, .failed ("Max iterations (" ++ toString maxIterations ++ ") reached. Tools called: " ++ summarise called))
  | left + 1, done, called, s =>
    let t := turn done
    let materialized := materializeMessages contentOf t.read s.history s.blobCache
    let request : Request := ⟨s.history, s.blobCache, t.read, materialized.2⟩
    let s : Session := ⟨s.history, materialized.1⟩
    match materialized.2, t.completion with
    | .error e, _ => ([request], s, .failed ("Agent run failed: " ++ e))
    | .ok _, .error e => ([request], s, .failed ("Agent run failed: " ++ e))
    | .ok _, .ok completion =>
      let texts := assistantTexts completion
      let toolCalls := completion.toolCalls.getD []
      if toolCalls.isEmpty ∧ texts.isEmpty then
        ([request], s, .failed ("模型没有返回可用内容（stop_reason: " ++ completion.stopReason.getD "未知" ++ "）"))
      else
        let content := texts.map ContentPart.text
        if toolCalls.isEmpty then
          ([request], ⟨s.history ++ [.assistant content none], s.blobCache⟩, .ok content (String.join texts) (done + 1))
        else
          let reply := .assistant content (some toolCalls) :: toolMessages tools t.invocation 0 toolCalls
          let rest := iterate maxIterations turn left (done + 1) (called ++ toolCalls.map (·.name)) ⟨s.history ++ reply, s.blobCache⟩
          (request :: rest.1, rest.2)

def run (content : List ContentPart) (maxIterations : Nat) (turn : Nat → Turn) (s : Session) : List Request × Session × Outcome :=
  iterate tools contentOf maxIterations turn maxIterations 0 [] ⟨s.history ++ [.user content], s.blobCache⟩

/-- A call of the session. -/
inductive Call where
  | run (content : List ContentPart) (maxIterations : Nat) (turn : Nat → Turn)
  | reset

/-- A session that is rebuilt from the stored history, which has to decode. -/
def Session.rebuild (s : Session) : Option Session :=
  match decodeHistory (encodeHistory s.history) with
  | .ok history => some ⟨history, .empty⟩
  | .error _ => none

/-- Calls one at a time, each on the session that is there or on one that is rebuilt first; a call for which the history does not
decode is refused. -/
def serve : List (Bool × Call) → Session → List Request
  | [], _ => []
  | (rebuilt, call) :: calls, s =>
    match if rebuilt then s.rebuild else some s with
    | none => serve calls s
    | some s =>
      match call with
      | .run content maxIterations turn =>
        let ran := run tools contentOf content maxIterations turn s
        ran.1 ++ serve calls ran.2.1
      | .reset => serve calls ⟨[], s.blobCache⟩

end Runs

end UniDocs.Transcript

/-!
## Messages for Anthropic

`toBlock` and `toAnthropicMessages`: the neutral form of the messages becomes the request of the Messages API. The results of the
tools of one turn are put together into one user message, by looking at the message before.
-/

namespace UniDocs.Transcript

open Lib

/-! ## Base64 -/

/-- The character of six bits. -/
def base64Char (n : Nat) : Char :=
  if n < 26 then Char.ofNat (65 + n)
  else if n < 52 then Char.ofNat (97 + (n - 26))
  else if n < 62 then Char.ofNat (48 + (n - 52))
  else if n = 62 then '+'
  else '/'

def base64Chars : Bytes → List Char
  | [] => []
  | [a] => [base64Char (a.toNat / 4), base64Char (a.toNat % 4 * 16), '=', '=']
  | [a, b] =>
    [base64Char (a.toNat / 4), base64Char (a.toNat % 4 * 16 + b.toNat / 16), base64Char (b.toNat % 16 * 4), '=']
  | a :: b :: c :: bytes =>
    [base64Char (a.toNat / 4), base64Char (a.toNat % 4 * 16 + b.toNat / 16), base64Char (b.toNat % 16 * 4 + c.toNat / 64),
      base64Char (c.toNat % 64)] ++ base64Chars bytes

def toBase64 (bytes : Bytes) : String := String.ofList (base64Chars bytes)

/-! ## Blocks -/

/-- A text or an image block. -/
inductive PartBlock where
  | text (text : String)
  | image (mediaType data : String)
  deriving DecidableEq

/-- `AnthropicBlock`. -/
inductive Block where
  | part (block : PartBlock)
  | toolUse (id name : String) (input : Json)
  | toolResult (toolUseId : String) (content : List PartBlock)

inductive Role where
  | user
  | assistant
  deriving DecidableEq

structure AnthropicMessage where
  role : Role
  content : List Block

def toBlock : LlmPart → PartBlock
  | .text text => .text text
  | .image data mediaType _ => .image mediaType (toBase64 data)
  | .file _ mediaType filename => .text ("[file: " ++ filename.getD mediaType ++ "]")

def Block.isToolResult : Block → Bool
  | .toolResult _ _ => true
  | .part _ | .toolUse _ _ _ => false

def toolUseBlock (call : ToolCall) : Block := .toolUse call.id call.name call.arguments

/-- The block of a tool message. -/
def toolResultBlock (callId : String) (content : List LlmPart) (structuredContent : Option Json) : Block :=
  .toolResult callId (content.map toBlock ++ (structuredContent.map fun v => PartBlock.text v.stringify).toList)

/-- The loop of `toAnthropicMessages`. -/
def pushMessage (out : List AnthropicMessage) : LlmMessage → List AnthropicMessage
  | .user content => out ++ [⟨.user, content.map fun part => .part (toBlock part)⟩]
  | .assistant content toolCalls =>
    out ++ [⟨.assistant, (content.map fun part => .part (toBlock part)) ++ (toolCalls.getD []).map toolUseBlock⟩]
  | .tool callId content structuredContent =>
    let block := toolResultBlock callId content structuredContent
    match out.getLast? with
    | some last =>
      if last.role = .user ∧ last.content.all Block.isToolResult then out.dropLast ++ [⟨.user, last.content ++ [block]⟩]
      else out ++ [⟨.user, [block]⟩]
    | none => out ++ [⟨.user, [block]⟩]

def toAnthropicMessages (messages : List LlmMessage) : List AnthropicMessage := messages.foldl pushMessage []

end UniDocs.Transcript
