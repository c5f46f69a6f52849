import Mathlib.Data.List.Sort
import UniDocs.Codec.Binary
import UniDocs.Lib.CarryTree
import UniDocs.Lib.Cbor

/-!
# The blob client

`createCasBlobClient`: a blob is cut into chunks, every chunk becomes a node, and index nodes of bounded fan-out are put
over them as they come. A blob of at most one chunk is a single node. Reading opens the root and walks the tree, either all
of it or the part that a range asks for. The client is given a node store: `leaseNode` is what the store accepts, and the
reads go to any store, given as what it returns for a hash. A stream that is read is given by its bytes; progress callbacks,
abort signals and lease durations are left out.
-/

/-!
## The blob index

The node that lists the parts of a large blob: a level, a total size, the media type of the blob and the size of each child,
written as deterministic CBOR. `decodeBlobIndex` accepts nothing but what `encodeBlobIndex` writes.
-/

namespace UniDocs.Blob

open Lib Lib.Cbor UniDocs.Cas UniDocs.Codec

def blobChunkContentType : String := "application/vnd.unicas.blob-chunk"

def blobIndexContentType : String := "application/vnd.unicas.blob-index+cbor;version=1"

def blobChunkBytes : Nat := 32 * 1024 * 1024

def blobIndexFanout : Nat := 256

/-- `CasBlobIndexV1`; a child is given by its size. -/
structure CasBlobIndexV1 where
  version : Int
  level : Int
  size : Int
  mediaType : String
  children : List Int
  deriving DecidableEq, Repr

/-- What the index uses of the CBOR library: `encode` with the RFC 8949 options and `decode` with its defaults. -/
structure Cborg where
  encode : Item → Bytes
  decode : Bytes → Except String Item

/-- The library follows RFC 8949: an item whose maps are in the deterministic order is written as its tokens, and is read
back from them when it has no tag. -/
structure Cborg.Rfc8949 (cborg : Cborg) : Prop where
  encode_canonical : ∀ item : Item, item.Canonical → (∀ token ∈ item.tokens, token.Valid) →
    cborg.encode item = encodeTokens item.tokens
  decode_encode : ∀ item : Item, item.Canonical → (∀ token ∈ item.tokens, token.Valid) →
    (∀ number, Token.tag number ∉ item.tokens) → cborg.decode (encodeTokens item.tokens) = .ok item

/-! ## Validation -/

def validateSafeSize (value : Int) (name : String) (allowZero : Bool) : Except String Int :=
  let kind := if allowZero then "non-negative" else "positive"
  if (maxSafeInteger : Int) < value.natAbs ∨ (if allowZero then value < 0 else value ≤ 0) then
    .error s!"{name} must be a {kind} safe integer"
  else .ok value

/-- The loop of `validateBlobIndex` over the children. -/
def validateChildren : Nat → Int → List Int → Except String Int
  | _, total, [] => .ok total
  | index, total, child :: children => do
    let size ← validateSafeSize child s!"Blob index child {index} size" false
    let total := total + size
    if (maxSafeInteger : Int) < total then
      throw "Blob index child sizes overflow"
    validateChildren (index + 1) total children

/-- A media type that an index can carry: 1 to 1024 printable ASCII characters. -/
def IsMediaType (mediaType : String) : Prop :=
  1 ≤ mediaType.length ∧ mediaType.length ≤ 1024 ∧ ∀ c ∈ mediaType.toList, IsPrintable c

instance (mediaType : String) : Decidable (IsMediaType mediaType) := inferInstanceAs (Decidable (_ ∧ _ ∧ _))

def validateBlobIndex (value : CasBlobIndexV1) : Except String Unit := do
  if value.version ≠ 1 then
    throw "Blob index version must be 1"
  let _ ← validateSafeSize value.level "Blob index level" true
  let _ ← validateSafeSize value.size "Blob index size" false
  if ¬ IsMediaType value.mediaType then
    throw "Blob index mediaType must be 1-1024 printable ASCII characters"
  if value.children.length < 1 ∨ blobIndexFanout < value.children.length then
    throw s!"Blob index must contain 1-{blobIndexFanout} children"
  let total ← validateChildren 0 0 value.children
  if total ≠ value.size then
    throw s!"Blob index size mismatch: expected {value.size}, got {total}"

/-! ## Wire format -/

/-- `wireValue`, with the keys in the order in which the library writes them. -/
def wireValue (value : CasBlobIndexV1) : Item :=
  .map [("c", .array (value.children.map Item.int)), ("l", .int value.level), ("m", .text value.mediaType),
    ("s", .int value.size), ("v", .int value.version)]

def encodeBlobIndex (cborg : Cborg) (value : CasBlobIndexV1) : Except String Bytes := do
  validateBlobIndex value
  return cborg.encode (wireValue value)

/-- A decoded value where a number is expected; a value of another type fails the checks that `-1` fails. -/
def wireNumber : Item → Int
  | .int value => value
  | _ => -1

/-- A decoded value where a text is expected; a value of another type is taken as the empty text. The regular expression of
the source would take a number by its digits. -/
def wireText : Item → String
  | .text value => value
  | _ => ""

/-- A property of a decoded object; of repeated keys the last one counts. -/
def property (entries : List (String × Item)) (key : String) : Item :=
  ((entries.reverse.find? fun entry => entry.1 = key).map Prod.snd).getD .null

/-- `Object.keys(decoded).sort().join(",")`. -/
def joinedKeys (entries : List (String × Item)) : String :=
  String.intercalate "," ((entries.map Prod.fst).dedup.insertionSort (· ≤ ·))

def decodeBlobIndex (cborg : Cborg) (bytes : Bytes) : Except String CasBlobIndexV1 := do
  let entries ← match ← cborg.decode bytes with
    | .map entries => pure entries
    | .bytes _ => throw "Blob index contains unknown or missing fields"
    | _ => throw "Blob index must be a CBOR map"
  if joinedKeys entries ≠ "c,l,m,s,v" then
    throw "Blob index contains unknown or missing fields"
  let children ← match property entries "c" with
    | .array children => pure children
    | _ => throw "Blob index children must be an array"
  let value : CasBlobIndexV1 := {
    version := wireNumber (property entries "v")
    level := wireNumber (property entries "l")
    size := wireNumber (property entries "s")
    mediaType := wireText (property entries "m")
    children := children.map wireNumber
  }
  validateBlobIndex value
  let canonical ← encodeBlobIndex cborg value
  if bytes ≠ canonical then
    throw "Blob index encoding is not canonical"
  return value

end UniDocs.Blob

namespace UniDocs.Blob

open Lib UniDocs.Cas UniDocs.Codec

/-- `BlobTreeNode`; a chunk has level `-1`. -/
structure BlobTreeNode where
  hash : Hash
  size : Nat
  level : Int
  deriving DecidableEq, Repr

structure CasBlobRef where
  hash : Hash
  size : Nat
  contentType : String
  deriving DecidableEq, Repr

structure CasBlobClientOptions where
  chunkBytes : Option Int := none
  indexFanout : Option Int := none
  deriving DecidableEq, Repr

/-- A client: the chunk size and the fan-out that `createCasBlobClient` has admitted. -/
structure CasBlobClient where
  chunkBytes : Nat
  indexFanout : Nat
  chunkBytes_pos : 0 < chunkBytes
  chunkBytes_le : chunkBytes ≤ blobChunkBytes
  two_le_indexFanout : 2 ≤ indexFanout
  indexFanout_le : indexFanout ≤ blobIndexFanout

def createCasBlobClient (options : CasBlobClientOptions) : Except String CasBlobClient :=
  let chunkBytes := options.chunkBytes.getD blobChunkBytes
  let indexFanout := options.indexFanout.getD blobIndexFanout
  if hchunk : 0 < chunkBytes ∧ chunkBytes ≤ blobChunkBytes then
    if hfanout : 2 ≤ indexFanout ∧ indexFanout ≤ blobIndexFanout then
      .ok {
        chunkBytes := chunkBytes.toNat
        indexFanout := indexFanout.toNat
        chunkBytes_pos := by omega
        chunkBytes_le := by omega
        two_le_indexFanout := by omega
        indexFanout_le := by omega
      }
    else .error s!"Blob index fanout must be an integer between 2 and {blobIndexFanout}"
  else .error s!"Blob chunk size must be an integer between 1 and {blobChunkBytes}"

/-! ## The node store -/

/-- A node as the store returns it. -/
structure StoredNode where
  contentType : String
  refs : List Hash
  content : Bytes
  deriving DecidableEq, Repr

/-- The nodes that a client has leased, in order. -/
abbrev Leases := List (Hash × StoredNode)

/-- `leaseNode` with a body: the store reads the canonical bytes to their end and checks the hash against them. -/
def leaseNode (sha256 : Bytes → Bytes) (leases : Leases) (hash : Hash) (body : Bytes) : Except String Leases := do
  let parsed ← parseCanonicalNodeStream { chunks := [body] } (some body.length) {}
  if let some e := parsed.body.error then
    throw e
  let digest ← hashToHex (sha256 body)
  if digest ≠ hash then
    throw s!"Hash mismatch: expected {hash}"
  let content := parsed.body.bytes.drop (parsed.canonicalSize - parsed.contentSize)
  return leases ++ [(hash, { contentType := parsed.contentType, refs := parsed.refs, content })]

def storeNodeContent (sha256 : Bytes → Bytes) (leases : Leases) (content : Bytes) (contentType : String)
    (refs : List Hash) : Except String (Leases × Hash) := do
  let bytes ← encodeCanonicalNode contentType refs content
  let hash ← hashToHex (sha256 bytes)
  let leases ← leaseNode sha256 leases hash bytes
  return (leases, hash)

/-! ## Chunks -/

/-- The inner loop of `chunkSource`: fills the current chunk from what is left of a source chunk. Every round takes at least
one byte. -/
def fillChunks (chunkBytes : Nat) : Nat → Bytes → Bytes → List Bytes × Bytes
  | 0, chunk, _ => ([], chunk)
  | fuel + 1, chunk, rest =>
    if rest = [] then ([], chunk)
    else
      let take := min (chunkBytes - chunk.length) rest.length
      let chunk := chunk ++ rest.take take
      if chunk.length = chunkBytes then
        let (chunks, last) := fillChunks chunkBytes fuel [] (rest.drop take)
        (chunk :: chunks, last)
      else fillChunks chunkBytes fuel chunk (rest.drop take)

/-- The outer loop of `chunkSource`, with the chunk that is being filled. -/
def chunkLoop (chunkBytes : Nat) : Bytes → List Bytes → List Bytes
  | chunk, [] => if 0 < chunk.length then [chunk] else []
  | chunk, value :: source =>
    let (chunks, chunk) := fillChunks chunkBytes value.length chunk value
    chunks ++ chunkLoop chunkBytes chunk source

def chunkSource (chunkBytes : Nat) (source : List Bytes) : List Bytes := chunkLoop chunkBytes [] source

/-! ## Writing -/

section Write

variable (cborg : Cborg) (sha256 : Bytes → Bytes) (client : CasBlobClient) (mediaType : String)

def storeIndex (leases : Leases) (children : List BlobTreeNode) : Except String (Leases × BlobTreeNode) := do
  let first :: _ := children | throw "Cannot read properties of undefined (reading 'level')"
  let level := first.level + 1
  if children.any fun child => child.level ≠ level - 1 then
    throw "Blob tree index children must have the same level"
  let size := (children.map BlobTreeNode.size).sum
  let content ← encodeBlobIndex cborg
    { version := 1, level, size, mediaType, children := children.map fun child => (child.size : Int) }
  let (leases, hash) ← storeNodeContent sha256 leases content blobIndexContentType (children.map BlobTreeNode.hash)
  return (leases, { hash, size, level })

/-- The group that a node goes to. -/
def groupIndex (node : BlobTreeNode) : Nat := (node.level + 1).toNat

/-- The groups of nodes that wait for a parent, by level. -/
abbrev Groups := List (List BlobTreeNode)

/-- `appendTreeNode`; the recursion goes up one group at a time. -/
def appendTreeNode (leases : Leases) (groups : Groups) (node : BlobTreeNode) : Except String (Leases × Groups) :=
  CarryTree.append client.indexFanout groupIndex (storeIndex cborg sha256 mediaType) "no group left" (groups.length + 1)
    leases groups node

/-- `finishTree`; the loop goes up one group at a time. -/
def finishTree (leases : Leases) (groups : Groups) : Except String (Leases × BlobTreeNode) :=
  CarryTree.finish client.indexFanout groupIndex (storeIndex cborg sha256 mediaType) "no group left" (groups.length + 1)
    leases groups

/-- `addChunk` for the chunks of a blob one after the other. -/
def addChunks : List Bytes → Leases → Groups → Nat → Except String (Leases × Groups × Nat)
  | [], leases, groups, measuredSize => .ok (leases, groups, measuredSize)
  | bytes :: chunks, leases, groups, measuredSize => do
    let (leases, hash) ← storeNodeContent sha256 leases bytes blobChunkContentType []
    let (leases, groups) ← appendTreeNode cborg sha256 client mediaType leases groups { hash, size := bytes.length, level := -1 }
    addChunks chunks leases groups (measuredSize + bytes.length)

end Write

structure CasBlobWriteOptions where
  contentType : String
  size : Option Nat := none
  deriving DecidableEq, Repr

def assertExpectedSize (expected : Option Nat) (actual : Nat) : Except String Unit :=
  if expected.any (· ≠ actual) then .error s!"Blob size mismatch: expected {expected.getD 0}, got {actual}"
  else .ok ()

/-- `storeBlob`: the nodes it leases and the reference it returns. -/
def storeBlob (cborg : Cborg) (sha256 : Bytes → Bytes) (client : CasBlobClient) (source : List Bytes)
    (options : CasBlobWriteOptions) : Except String (Leases × CasBlobRef) := do
  match chunkSource client.chunkBytes source with
  | [] =>
    let (leases, hash) ← storeNodeContent sha256 [] [] options.contentType []
    assertExpectedSize options.size 0
    return (leases, { hash, size := 0, contentType := options.contentType })
  | [first] =>
    let (leases, hash) ← storeNodeContent sha256 [] first options.contentType []
    assertExpectedSize options.size first.length
    return (leases, { hash, size := first.length, contentType := options.contentType })
  | chunks =>
    let (leases, groups, measuredSize) ← addChunks cborg sha256 client options.contentType chunks [] [] 0
    let (leases, root) ← finishTree cborg sha256 client options.contentType leases groups
    assertExpectedSize options.size measuredSize
    return (leases, { hash := root.hash, size := measuredSize, contentType := options.contentType })

/-! ## Reading -/

/-- A store as its readers see it: the node that it returns for a hash. -/
abbrev NodeStore := Hash → Option StoredNode

structure CasNodeRange where
  offset : Nat
  length : Option Nat := none
  deriving DecidableEq, Repr

/-- `readMetadata` and `readContent` both ask for the node. -/
def readStored (cas : NodeStore) (hash : Hash) : Except String StoredNode :=
  match cas hash with
  | none => .error s!"node not found: {hash}"
  | some node => .ok node

/-- `readContent` with a range. -/
def StoredNode.slice (node : StoredNode) (offset length : Nat) : Bytes := (node.content.drop offset).take length

def validateLeaf (hash : Hash) (refs : List Hash) (contentType : String) (expectedLevel : Option Int) :
    Except String Unit := do
  if refs.length ≠ 0 then
    throw s!"CAS node {hash} is not a blob leaf"
  if expectedLevel.any fun level => level ≠ -1 ∨ contentType ≠ blobChunkContentType then
    throw s!"Blob tree leaf {hash} has an invalid type or level"

def validateIndex (hash : Hash) (mediaType : String) (level : Int) (childCount refCount : Nat) (expectedLevel : Option Int)
    (expectedMediaType : String) : Except String Unit :=
  if mediaType ≠ expectedMediaType ∨ (expectedLevel.any fun expected => level ≠ expected) ∨ childCount ≠ refCount then
    .error s!"Blob index {hash} metadata is inconsistent"
  else .ok ()

def validateRange (range : CasNodeRange) : Except String Unit := do
  if maxSafeInteger < range.offset then
    throw "Blob range offset must be a non-negative safe integer"
  if range.length.any (maxSafeInteger < ·) then
    throw "Blob range length must be a non-negative safe integer"

section Read

variable (cborg : Cborg) (cas : NodeStore)

def resolveBlobRef (hash : Hash) : Except String CasBlobRef := do
  let node ← readStored cas hash
  if node.contentType ≠ blobIndexContentType then
    if node.refs.length ≠ 0 then
      throw s!"CAS node {hash} is not a blob root"
    return { hash, size := node.content.length, contentType := node.contentType }
  let index ← decodeBlobIndex cborg node.content
  if index.children.length ≠ node.refs.length then
    throw s!"Blob index {hash} child metadata does not match its CAS refs"
  return { hash, size := index.size.toNat, contentType := index.mediaType }

/-- `readNode`: the bytes it yields. The fuel bounds the depth of the tree. -/
def readNode (expectedMediaType : String) : Nat → Hash → Option Int → Except String Bytes
  | 0, _, _ => .error "tree too deep"
  | fuel + 1, hash, expectedLevel => do
    let node ← readStored cas hash
    if node.contentType ≠ blobIndexContentType then
      validateLeaf hash node.refs node.contentType expectedLevel
      return node.content
    let index ← decodeBlobIndex cborg node.content
    validateIndex hash index.mediaType index.level index.children.length node.refs.length expectedLevel expectedMediaType
    let parts ← node.refs.mapM fun ref => readNode expectedMediaType fuel ref (some (index.level - 1))
    return parts.flatten

/-- The part of one child that lies in the range, if any. -/
def readIntersection (read : Nat → Nat → Except String Bytes) (offset stop childStart childEnd : Nat) :
    Except String Bytes :=
  let intersectionStart := max offset childStart
  let intersectionEnd := min stop childEnd
  if intersectionStart < intersectionEnd then
    read (intersectionStart - childStart) (intersectionEnd - intersectionStart)
  else .ok []

/-- The loop of `readRangeNode` over the children of an index. -/
def readRangeChildren (read : Hash → Nat → Nat → Except String Bytes) (offset stop : Nat) :
    Nat → List (Int × Hash) → Except String Bytes
  | _, [] => .ok []
  | childStart, (size, ref) :: children => do
    let childEnd := childStart + size.toNat
    let part ← readIntersection (read ref) offset stop childStart childEnd
    if stop ≤ childEnd then
      return part
    let rest ← readRangeChildren read offset stop childEnd children
    return part ++ rest

/-- `readRangeNode`: the bytes it yields. -/
def readRangeNode (expectedMediaType : String) : Nat → Hash → Nat → Nat → Option Int → Except String Bytes
  | 0, _, _, _, _ => .error "tree too deep"
  | fuel + 1, hash, offset, length, expectedLevel => do
    let node ← readStored cas hash
    if node.contentType ≠ blobIndexContentType then
      validateLeaf hash node.refs node.contentType expectedLevel
      return node.slice offset length
    let index ← decodeBlobIndex cborg node.content
    validateIndex hash index.mediaType index.level index.children.length node.refs.length expectedLevel expectedMediaType
    readRangeChildren
      (fun ref offset length => readRangeNode expectedMediaType fuel ref offset length (some (index.level - 1)))
      offset (offset + length) 0 (index.children.zip node.refs)

/-- `openBlob`: the reference of the handle, through which the reads below go. -/
def openBlob (hash : Hash) : Except String CasBlobRef := resolveBlobRef cborg cas hash

/-- The handle's `ranged`. -/
def ranged (fuel : Nat) (ref : CasBlobRef) (range : CasNodeRange) : Except String Bytes := do
  validateRange range
  if ref.size < range.offset then
    throw "Blob range offset exceeds blob size"
  let length := min (range.length.getD (ref.size - range.offset)) (ref.size - range.offset)
  if length = 0 then
    return []
  readRangeNode cborg cas ref.contentType fuel ref.hash range.offset length none

/-- The handle's `read`. -/
def read (fuel : Nat) (ref : CasBlobRef) (range : Option CasNodeRange) : Except String Bytes :=
  match range with
  | none => readNode cborg cas ref.contentType fuel ref.hash none
  | some range => ranged cborg cas fuel ref range

/-- The handle's `readBytes`. -/
def readBytes (fuel : Nat) (ref : CasBlobRef) (offset length : Nat) : Except String Bytes :=
  ranged cborg cas fuel ref { offset, length := some length }

end Read

end UniDocs.Blob
