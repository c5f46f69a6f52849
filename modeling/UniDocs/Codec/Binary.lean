import UniDocs.Cas.Store
import UniDocs.Lib.Bytes

/-!
# The canonical node format

A canonical node is a 24-byte header, the content type, the raw child hashes and the node's own content, with no padding.
The header fields are little-endian and fixed width. `validateCanonicalNodeSize` and `validateDecodedHeader` are the
version 1 rules that every reader applies before it trusts a field.
-/

namespace UniDocs.Codec

open Lib UniDocs.Cas

/-- Header size in bytes. -/
def headerSize : Nat := 24

/-- The current format version. -/
def version : Nat := 1

/-- The longest content type, in bytes. -/
def maxContentTypeLength : Nat := 1024

/-- The shortest content type, in bytes. -/
def minContentTypeLength : Nat := 1

/-- Size of a raw SHA-256 hash. -/
def hashSize : Nat := 32

/-- Number of hex digits of a hash. -/
def hashHexLength : Nat := 64

def maxCanonicalNodeBytes : Nat := 64 * 1024 * 1024

def maxNodeRefs : Nat := 256

/-! ## Numbers and texts -/

def maxSafeInteger : Nat := 2 ^ 53 - 1

/-- `Number(bigint)`: the nearest double, ties to even; exact below `2 ^ 53`. -/
def toNumber (n : Nat) : Nat :=
  if n < 2 ^ 53 then n
  else
    let unit := 2 ^ (n.log2 - 52)
    let quotient := n / unit
    let rest := n % unit
    if unit < 2 * rest ∨ unit = 2 * rest ∧ quotient % 2 = 1 then (quotient + 1) * unit else quotient * unit

/-- `new TextEncoder().encode(text)`. -/
def textEncode (text : String) : Bytes := utf8 text

/-- `new TextDecoder().decode(bytes)` on bytes below `0x80`, the only ones it is given here. -/
def textDecode (bytes : Bytes) : String := String.ofList (bytes.map fun b => Char.ofNat b.toNat)

/-! ## Header -/

/-- `encodeHeader`: signature, version, flags, content size, ref count, content type length and the reserved field. -/
def encodeHeader (contentSize : Nat) (contentType : String) (refCount : Nat) : Bytes :=
  [0x55, 0x44] ++ bytesLE 2 version ++ bytesLE 4 0 ++ bytesLE 8 contentSize ++ bytesLE 4 refCount
    ++ bytesLE 2 (textEncode contentType).length ++ bytesLE 2 0

/-- The fields of a header. -/
structure DecodedHeader where
  signature : Bytes
  version : Nat
  flags : Nat
  contentSize : Nat
  refCount : Nat
  contentTypeLength : Nat
  reserved : Nat
  deriving DecidableEq, Repr

/-- `view.getUintN(offset, true)`. -/
def getUint (header : Bytes) (offset width : Nat) : Nat := natLE ((header.drop offset).take width)

/-- `decodeHeader`; the 64-bit size passes through a double. -/
def decodeHeader (header : Bytes) : Except String DecodedHeader :=
  if header.length ≠ headerSize then
    .error s!"Header must be {headerSize} bytes, got {header.length}"
  else
    .ok {
      signature := header.take 2
      version := getUint header 2 2
      flags := getUint header 4 4
      contentSize := toNumber (getUint header 8 8)
      refCount := getUint header 16 4
      contentTypeLength := getUint header 20 2
      reserved := getUint header 22 2
    }

/-- `concatenateNodeBytes`: the header is 24 bytes and every hash 32, so that the parts written at their offsets are the
parts one after the other. -/
def concatenateNodeBytes (header contentType : Bytes) (childHashes : List Bytes) (content : Bytes) : Bytes :=
  header ++ contentType ++ childHashes.flatten ++ content

/-! ## Hashes -/

def hashToHex (hash : Bytes) : Except String Hash :=
  if hash.length ≠ hashSize then .error s!"Expected {hashSize} bytes, got {hash.length}"
  else .ok (String.ofList (hash.flatMap byteHex))

def hexToHash (hex : Hash) : Except String Bytes :=
  if hex.length ≠ hashSize * 2 then .error s!"Expected {hashSize * 2} hex characters, got {hex.length}"
  else .ok (hexBytes hex.toList)

/-! ## Validation -/

/-- Stricter limits of a deployment. -/
structure CanonicalNodeLimits where
  maxCanonicalNodeBytes : Option Int := none
  maxNodeRefs : Option Int := none
  deriving DecidableEq, Repr

def resolveLimit (value : Option Int) (maximum : Nat) (name : String) (allowZero : Bool) : Except String Nat :=
  match value with
  | none => .ok maximum
  | some value =>
    let minimum : Nat := if allowZero then 0 else 1
    if value < minimum ∨ (maximum : Int) < value then
      .error s!"{name} must be an integer between {minimum} and {maximum}"
    else .ok value.toNat

/-- `validateCanonicalNodeSize`: the canonical length under the version 1 limits. The sum is taken exactly; a double that
rounds it stays outside the safe range whenever the sum is outside. -/
def validateCanonicalNodeSize (contentSize contentTypeLength refCount : Nat) (limits : CanonicalNodeLimits) :
    Except String Nat := do
  let maxBytes ← resolveLimit limits.maxCanonicalNodeBytes maxCanonicalNodeBytes "Canonical node byte limit" false
  let maxRefs ← resolveLimit limits.maxNodeRefs maxNodeRefs "Child ref limit" true
  if maxSafeInteger < contentSize then
    throw s!"Invalid content size: {contentSize}"
  if contentTypeLength < minContentTypeLength ∨ maxContentTypeLength < contentTypeLength then
    throw s!"Content type length out of range: {contentTypeLength}"
  if maxRefs < refCount then
    throw s!"Child ref count out of range: {refCount}"
  let totalLength := headerSize + contentTypeLength + refCount * hashSize + contentSize
  if maxSafeInteger < totalLength then
    throw "Total node length overflows safe integer range"
  if maxBytes < totalLength then
    throw s!"Canonical node too large: {totalLength} > {maxBytes}"
  return totalLength

/-- `validateDecodedHeader`, under the limits of the format itself. -/
def validateDecodedHeader (decoded : DecodedHeader) : Except String Unit := do
  if decoded.signature ≠ [0x55, 0x44] then
    throw "Invalid signature: expected 'UD'"
  if decoded.version ≠ version then
    throw s!"Unsupported version: {decoded.version} (expected {version})"
  if decoded.flags ≠ 0 then
    throw s!"Flags must be zero, got {decoded.flags}"
  if decoded.reserved ≠ 0 then
    throw s!"Reserved must be zero, got {decoded.reserved}"
  let _ ← validateCanonicalNodeSize decoded.contentSize decoded.contentTypeLength decoded.refCount {}
  return ()

/-- Printable ASCII, `0x20` to `0x7e`. -/
def IsPrintable (c : Char) : Prop := 0x20 ≤ c.toNat ∧ c.toNat ≤ 0x7e

instance (c : Char) : Decidable (IsPrintable c) := inferInstanceAs (Decidable (_ ∧ _))

instance (cs : List Char) : Decidable (∀ c ∈ cs, IsPrintable c) := List.decidableBAll _ cs

def validateContentType (contentType : String) : Except String Unit := do
  let bytes := textEncode contentType
  if bytes.length < minContentTypeLength then
    throw "Content type must not be empty"
  if maxContentTypeLength < bytes.length then
    throw s!"Content type too long: {bytes.length} > {maxContentTypeLength}"
  if (Char.ofNat 0) ∈ contentType.toList then
    throw "Content type must not contain NUL"
  if ¬ ∀ c ∈ contentType.toList, IsPrintable c then
    throw s!"Content type must be printable ASCII (0x20-0x7e): {contentType}"

/-! ## Nodes -/

/-- A hash text: 64 lowercase hex digits. -/
def IsHash (hash : Hash) : Prop := hash.length = hashHexLength ∧ ∀ c ∈ hash.toList, IsLowerHex c

instance (hash : Hash) : Decidable (IsHash hash) := inferInstanceAs (Decidable (_ ∧ _))

/-- A node that the format can hold. -/
structure Node where
  contentType : String
  refs : List Hash
  content : Bytes
  contentType_length : minContentTypeLength ≤ contentType.length ∧ contentType.length ≤ maxContentTypeLength
  contentType_printable : ∀ c ∈ contentType.toList, IsPrintable c
  refs_length : refs.length ≤ maxNodeRefs
  refs_hash : ∀ ref ∈ refs, IsHash ref
  size_le : headerSize + contentType.length + refs.length * hashSize + content.length ≤ maxCanonicalNodeBytes

/-- The bytes of `encodeCanonicalNode`; it throws where a ref does not have the length of a hash. -/
def encodeCanonicalNode (contentType : String) (refs : List Hash) (content : Bytes) : Except String Bytes := do
  let childHashes ← refs.mapM hexToHash
  return concatenateNodeBytes (encodeHeader content.length contentType childHashes.length) (textEncode contentType)
    childHashes content

end UniDocs.Codec

/-!
## Reading a canonical node stream

`parseCanonicalNodeStream` reads the bounded prefix of a node from a stream whose chunks may be cut anywhere, checks it,
and hands back a stream that replays the whole node. A stream is the chunks a reader gets from it and how it ends.
-/

namespace UniDocs.Codec

open Lib UniDocs.Cas

/-- A byte stream as its reader sees it: the chunks in order, then the end or an error. -/
structure ByteStream where
  chunks : List Bytes
  error : Option String := none
  deriving DecidableEq, Repr

/-- The bytes of all chunks. -/
def ByteStream.bytes (stream : ByteStream) : Bytes := stream.chunks.flatten

/-- A `StreamCursor`: the chunks the reader still has, and the tail of the chunk it read last. -/
structure StreamCursor where
  reader : ByteStream
  remainder : Option Bytes := none
  deriving DecidableEq, Repr

/-- `await this.#reader.read()`: the next chunk, or `none` at the end. -/
def ByteStream.read (stream : ByteStream) : Except String (Option Bytes × ByteStream) :=
  match stream.chunks, stream.error with
  | chunk :: chunks, _ => .ok (some chunk, { stream with chunks })
  | [], some error => .error error
  | [], none => .ok (none, stream)

/-- `this.#remainder ?? (await this.#reader.read()).value`, with the remainder cleared. -/
def StreamCursor.next (cursor : StreamCursor) : Except String (Option Bytes × StreamCursor) :=
  match cursor.remainder with
  | some chunk => .ok (some chunk, { cursor with remainder := none })
  | none => do
    let (chunk, reader) ← cursor.reader.read
    return (chunk, { reader, remainder := none })

/-- Chunks that the cursor can still give out. -/
def StreamCursor.pending (cursor : StreamCursor) : List Bytes := cursor.remainder.toList ++ cursor.reader.chunks

theorem StreamCursor.pending_next {cursor cursor' : StreamCursor} {chunk : Bytes}
    (h : cursor.next = .ok (some chunk, cursor')) :
    cursor.pending = chunk :: cursor'.pending ∧ cursor'.remainder = none ∧ cursor'.reader.error = cursor.reader.error := by
  obtain ⟨⟨chunks, error⟩, remainder⟩ := cursor
  cases remainder with
  | some c =>
    simp only [next, Except.ok.injEq, Prod.mk.injEq, Option.some.injEq] at h
    obtain ⟨rfl, rfl⟩ := h
    exact ⟨rfl, rfl, rfl⟩
  | none =>
    cases chunks with
    | nil => cases error <;> cases h
    | cons c chunks =>
      cases h
      exact ⟨rfl, rfl, rfl⟩

/-- `readExactly`, the bytes read so far given. A chunk that reaches beyond the length fills the result, so the loop ends
there with the tail as the remainder. -/
def StreamCursor.readLoop (length : Nat) (cursor : StreamCursor) (result : Bytes) :
    Except String (Bytes × StreamCursor) :=
  if result.length < length then
    match _h : cursor.next with
    | .error error => .error error
    | .ok (none, _) => .error s!"Canonical node ended at {result.length} bytes while reading {length} bytes"
    | .ok (some chunk, rest) =>
      let take := min chunk.length (length - result.length)
      if take < chunk.length then
        .ok (result ++ chunk.take take, { rest with remainder := some (chunk.drop take) })
      else readLoop length rest (result ++ chunk.take take)
  else .ok (result, cursor)
termination_by cursor.pending.length
decreasing_by
  rw [(pending_next _h).1]
  simp

def StreamCursor.readExactly (cursor : StreamCursor) (length : Nat) : Except String (Bytes × StreamCursor) :=
  cursor.readLoop length []

/-- The chunks that the replaying stream passes on, `emitted` bytes already out. -/
def replayChunks (expectedLength : Nat) (error : Option String) : Nat → List Bytes → ByteStream
  | emitted, [] =>
    match error with
    | some error => { chunks := [], error := some error }
    | none =>
      if emitted ≠ expectedLength then
        { chunks := [], error := some s!"Canonical node length mismatch: expected {expectedLength}, got {emitted}" }
      else { chunks := [], error := none }
  | emitted, chunk :: chunks =>
    if expectedLength < emitted + chunk.length then
      { chunks := [], error := some s!"Canonical node length exceeds declared {expectedLength} bytes" }
    else
      let rest := replayChunks expectedLength error (emitted + chunk.length) chunks
      { rest with chunks := chunk :: rest.chunks }

/-- `replay`: the bytes already read, then the remainder, then the reader's chunks. -/
def StreamCursor.replay (cursor : StreamCursor) (start : Bytes) (expectedLength : Nat) : ByteStream :=
  replayChunks expectedLength cursor.reader.error 0 (start :: cursor.pending)

/-- What the parser returns. -/
structure ParsedCanonicalNodeStream where
  contentSize : Nat
  contentType : String
  refs : List Hash
  canonicalSize : Nat
  body : ByteStream
  deriving DecidableEq, Repr

/-- Consecutive slices of `hashSize` bytes, the last one possibly shorter. -/
def hashSlices (bytes : Bytes) : List Bytes :=
  if bytes = [] then [] else bytes.take hashSize :: hashSlices (bytes.drop hashSize)
termination_by bytes.length
decreasing_by
  have : 0 < bytes.length := List.length_pos_of_ne_nil (by assumption)
  simp only [List.length_drop, hashSize]
  omega

def parseCanonicalNodeStream (source : ByteStream) (declaredLength : Option Nat) (limits : CanonicalNodeLimits) :
    Except String ParsedCanonicalNodeStream := do
  let cursor : StreamCursor := { reader := source }
  let (header, cursor) ← cursor.readExactly headerSize
  let decoded ← decodeHeader header
  validateDecodedHeader decoded
  let canonicalSize ← validateCanonicalNodeSize decoded.contentSize decoded.contentTypeLength decoded.refCount limits
  if declaredLength.any (· ≠ canonicalSize) then
    throw s!"Canonical node length mismatch: header says {canonicalSize}, Content-Length says {declaredLength.getD 0}"
  let (contentTypeBytes, cursor) ← cursor.readExactly decoded.contentTypeLength
  if contentTypeBytes.any fun byte => byte < 0x20 || 0x7e < byte then
    throw "Content type must be printable ASCII (0x20-0x7e)"
  let contentType := textDecode contentTypeBytes
  validateContentType contentType
  let (refsBytes, cursor) ← cursor.readExactly (decoded.refCount * hashSize)
  let refs ← (hashSlices refsBytes).mapM hashToHex
  return {
    contentSize := decoded.contentSize
    contentType
    refs
    canonicalSize
    body := cursor.replay (header ++ contentTypeBytes ++ refsBytes) canonicalSize
  }

end UniDocs.Codec
