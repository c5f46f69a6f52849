import Mathlib.Data.List.Sort
import UniDocs.Lib.Cbor
import UniDocs.Codec.Binary

/-!
# The SValue codec

`encodeSValueWithRefs` and `decodeSValueWithRefs`: a value is checked and prepared node by node, written as deterministic
CBOR, and read back through a tokenizer that applies the limits before it takes anything. The CBOR library is a parameter;
what the codec relies on is stated in `Cborg.Rfc8949`. A JavaScript string with an isolated surrogate, which both
directions refuse, has no counterpart here: texts are sequences of Unicode scalar values.
-/

namespace UniDocs.SValueCodec

open Lib Lib.Cbor UniDocs.Cas UniDocs.Codec

/-! ## Values -/

/-- A JavaScript number: an integral double, the negative zero, a finite double with a fractional part (by its bits), or
one that is not finite. -/
inductive JsNumber where
  | integral (value : Int)
  | negativeZero
  | fractional (bits : { bits : Nat // IsFraction bits })
  | notFinite
  deriving DecidableEq

/-- The hash of an SBlob, which its constructor has validated. -/
abbrev BlobHash := { hash : Hash // IsHash hash }

/-- A document value. The properties of an object are listed in the order of its own keys. -/
inductive SValue where
  | null
  | bool (value : Bool)
  | number (value : JsNumber)
  | string (value : String)
  | sblob (hash : BlobHash)
  | array (items : List SValue)
  | object (properties : List (String × SValue))

mutual
/-- The keys of every object are distinct, as those of a JavaScript object are. -/
def SValue.DistinctKeys : SValue → Prop
  | .array items => distinctItems items
  | .object properties => (properties.map Prod.fst).Nodup ∧ distinctProperties properties
  | _ => True
def distinctItems : List SValue → Prop
  | [] => True
  | item :: items => item.DistinctKeys ∧ distinctItems items
def distinctProperties : List (String × SValue) → Prop
  | [] => True
  | (_, value) :: properties => value.DistinctKeys ∧ distinctProperties properties
end

/-! ## Limits -/

structure SValueCodecLimits where
  maxArrayLength : Nat
  maxByteStringBytes : Nat
  maxDepth : Nat
  maxEncodedBytes : Nat
  maxMapEntries : Nat
  maxRefs : Nat
  maxStringBytes : Nat
  maxValues : Nat
  deriving DecidableEq, Repr

def defaultLimits : SValueCodecLimits where
  maxArrayLength := 100000
  maxByteStringBytes := 32
  maxDepth := 100
  maxEncodedBytes := 16 * 1024 * 1024
  maxMapEntries := 100000
  maxRefs := 100000
  maxStringBytes := 1024 * 1024
  maxValues := 1000000

/-- `options.limits`; an absent limit keeps its default. -/
structure SValueCodecOptions where
  maxArrayLength : Option Int := none
  maxByteStringBytes : Option Int := none
  maxDepth : Option Int := none
  maxEncodedBytes : Option Int := none
  maxMapEntries : Option Int := none
  maxRefs : Option Int := none
  maxStringBytes : Option Int := none
  maxValues : Option Int := none
  deriving DecidableEq, Repr

/-- A step into a value, for the paths of errors; `anyKey` is the place of a key itself. -/
inductive PathStep where
  | index (index : Nat)
  | key (key : String)
  | anyKey
  deriving DecidableEq, Repr

/-- What the codec throws: `Invalid SValue at $path: message`, a limit that is not one, or an error of the CBOR library. -/
inductive Failure where
  | invalid (path : List PathStep) (message : String)
  | limit (message : String)
  | cborg (message : String)
  deriving DecidableEq, Repr

/-- One entry of `codecLimits`. -/
def codecLimit (name : String) (value : Option Int) (default : Nat) : Except Failure Nat :=
  match value with
  | none => .ok default
  | some value =>
    if value < 0 ∨ (maxSafeInteger : Int) < value then .error (.limit s!"{name} must be a non-negative safe integer")
    else .ok value.toNat

def codecLimits (options : SValueCodecOptions) : Except Failure SValueCodecLimits := do
  let maxArrayLength ← codecLimit "maxArrayLength" options.maxArrayLength defaultLimits.maxArrayLength
  let maxByteStringBytes ← codecLimit "maxByteStringBytes" options.maxByteStringBytes defaultLimits.maxByteStringBytes
  let maxDepth ← codecLimit "maxDepth" options.maxDepth defaultLimits.maxDepth
  let maxEncodedBytes ← codecLimit "maxEncodedBytes" options.maxEncodedBytes defaultLimits.maxEncodedBytes
  let maxMapEntries ← codecLimit "maxMapEntries" options.maxMapEntries defaultLimits.maxMapEntries
  let maxRefs ← codecLimit "maxRefs" options.maxRefs defaultLimits.maxRefs
  let maxStringBytes ← codecLimit "maxStringBytes" options.maxStringBytes defaultLimits.maxStringBytes
  let maxValues ← codecLimit "maxValues" options.maxValues defaultLimits.maxValues
  return { maxArrayLength, maxByteStringBytes, maxDepth, maxEncodedBytes, maxMapEntries, maxRefs, maxStringBytes, maxValues }

/-! ## The CBOR library -/

/-- The CBOR tag of an SBlob. -/
def sBlobTag : Nat := 65536

/-- What the codec uses of the CBOR library: `encode` with the RFC 8949 options, the `next` of its tokenizer at a position
of the data, and `decode` with a tokenizer and tag decoders of the caller's, whose state is `σ`. -/
structure Cborg where
  encode : Item → Bytes
  next : Bytes → Nat → Except Failure (Token × Nat)
  decode : {σ : Type} → Bytes → (σ → Except Failure (Token × σ)) →
    (Nat → Option (Decoded BlobHash → σ → Except Failure (Decoded BlobHash × σ))) → (σ → Bool) → σ →
    Except Failure (Decoded BlobHash × σ)

/-- The library follows RFC 8949: an item whose maps are in the deterministic order is written as its tokens; a token is
read where its bytes stand; and `decode` assembles the item in that order whose tokens the tokenizer gives it, up to the
end of the data. -/
structure Cborg.Rfc8949 (cborg : Cborg) : Prop where
  encode_canonical : ∀ item : Item, item.Canonical → (∀ token ∈ item.tokens, token.Valid) →
    cborg.encode item = encodeTokens item.tokens
  next_token : ∀ (before after : Bytes) (token : Token), token.Valid →
    cborg.next (before ++ token.encode ++ after) before.length = .ok (token, before.length + token.encode.length)
  decode_error : ∀ {σ : Type} (data : Bytes) (next : σ → Except Failure (Token × σ))
    (onTag : Nat → Option (Decoded BlobHash → σ → Except Failure (Decoded BlobHash × σ))) (done : σ → Bool) (s : σ)
    (item : Item) (e : Failure), item.Canonical → item.tokens.length ≤ data.length →
      pull next onTag item s = some (.error e) → cborg.decode data next onTag done s = .error e
  decode_ok : ∀ {σ : Type} (data : Bytes) (next : σ → Except Failure (Token × σ))
    (onTag : Nat → Option (Decoded BlobHash → σ → Except Failure (Decoded BlobHash × σ))) (done : σ → Bool) (s s' : σ)
    (item : Item) (value : Decoded BlobHash), item.Canonical → item.tokens.length ≤ data.length →
      pull next onTag item s = some (.ok (value, s')) → done s' = true → cborg.decode data next onTag done s = .ok (value, s')

/-! ## Encoding -/

/-- The counters of `PrepareState`. -/
structure PrepareState where
  refs : List Hash := []
  values : Nat := 0
  deriving DecidableEq, Repr

def fail {α : Type} (path : List PathStep) (message : String) : Except Failure α := .error (.invalid path message)

def compareBytes : Bytes → Bytes → Int
  | [], r => -(r.length : Int)
  | l, [] => l.length
  | a :: l, b :: r => if a ≠ b then (a.toNat : Int) - b.toNat else compareBytes l r

section Encode

variable (cborg : Cborg) (limits : SValueCodecLimits)

def validateString (value : String) (path : List PathStep) : Except Failure Unit :=
  if limits.maxStringBytes < (utf8 value).length then fail path s!"string exceeds {limits.maxStringBytes} UTF-8 bytes"
  else .ok ()

/-- The checks with which `prepareValue` enters a value. -/
def enterValue (path : List PathStep) (depth : Nat) (state : PrepareState) : Except Failure PrepareState :=
  if limits.maxDepth < depth then fail path s!"nesting exceeds {limits.maxDepth}"
  else if limits.maxValues < state.values + 1 then fail path s!"value count exceeds {limits.maxValues}"
  else .ok { state with values := state.values + 1 }

/-- The numbers that `prepareValue` accepts; the negative zero becomes zero. -/
def prepareNumber (value : JsNumber) (path : List PathStep) : Except Failure JsNumber :=
  match value with
  | .notFinite => fail path "numbers must be finite"
  | .integral value =>
    if value.natAbs ≤ maxSafeInteger then .ok (.integral value) else fail path "integral numbers must be safe integers"
  | .negativeZero => .ok (.integral 0)
  | .fractional bits => .ok (.fractional bits)

/-- A number as the library writes it: an integral one as an integer, any other as a float. -/
def numberItem : JsNumber → Item
  | .integral value => .int value
  | .fractional bits => .float bits.val
  | .negativeZero => .float (2 ^ 63)
  | .notFinite => .float (0x7ff8 * 2 ^ 48)

/-- The number with a bit pattern. -/
def numberOfBits (bits : Nat) : JsNumber :=
  if h : IsFraction bits then .fractional ⟨bits, h⟩
  else
    let exponent := bits / 2 ^ 52 % 2 ^ 11
    let significand := 2 ^ 52 + bits % 2 ^ 52
    if exponent = 2047 then .notFinite
    else if bits = 0 then .integral 0
    else if bits = 2 ^ 63 then .negativeZero
    else
      let magnitude : Nat :=
        if 1075 ≤ exponent then significand * 2 ^ (exponent - 1075) else significand / 2 ^ (1075 - exponent)
      .integral (if bits < 2 ^ 63 then magnitude else -magnitude)

/-- `hexToBytes` on a validated hash. -/
def hexToBytes (hash : Hash) : Bytes := hexBytes hash.toList

/-- The reference that an SBlob adds. -/
def pushRef (hash : Hash) (path : List PathStep) (state : PrepareState) : Except Failure PrepareState :=
  if limits.maxRefs < state.refs.length + 1 then fail path s!"reference count exceeds {limits.maxRefs}"
  else .ok { state with refs := state.refs ++ [hash] }

/-- The order of `sortedKeys`, on the encoded keys. -/
def keyLe (key key' : String) : Prop := compareBytes (cborg.encode (.text key)) (cborg.encode (.text key')) ≤ 0

instance (key key' : String) : Decidable (keyLe cborg key key') := inferInstanceAs (Decidable (_ ≤ _))

/-- `sortedKeys`: the entries of an object in the order of their encoded keys, every key checked first. -/
def sortedKeys {α : Type} (properties : List (String × α)) (path : List PathStep) :
    Except Failure (List (String × α)) := do
  if limits.maxMapEntries < properties.length then
    fail path s!"map exceeds {limits.maxMapEntries} entries"
  properties.forM fun property => validateString limits property.1 (path ++ [.anyKey])
  return properties.insertionSort fun property property' => keyLe cborg property.1 property'.1

/-- A prepared part of a value: where it is, how deep, and the counters before it. -/
abbrev Prepare (α : Type) := List PathStep → Nat → PrepareState → Except Failure (α × PrepareState)

/-- The loop of `prepareValue` over the sorted entries of an object. -/
def prepareProperties : List (String × Prepare Item) → Prepare (List (String × Item))
  | [], _, _, state => .ok ([], state)
  | (key, prepare) :: properties, path, depth, state => do
    let (item, state) ← prepare (path ++ [.key key]) (depth + 1) state
    let (entries, state) ← prepareProperties properties path depth state
    return ((key, item) :: entries, state)

mutual
def prepareValue : SValue → Prepare Item
  | .null, path, depth, state => do
    let state ← enterValue limits path depth state
    return (.null, state)
  | .bool value, path, depth, state => do
    let state ← enterValue limits path depth state
    return (.bool value, state)
  | .string value, path, depth, state => do
    let state ← enterValue limits path depth state
    validateString limits value path
    return (.text value, state)
  | .number value, path, depth, state => do
    let state ← enterValue limits path depth state
    let value ← prepareNumber value path
    return (numberItem value, state)
  | .sblob hash, path, depth, state => do
    let state ← enterValue limits path depth state
    let state ← pushRef limits hash.val path state
    return (.tag sBlobTag (.bytes (hexToBytes hash.val)), state)
  | .array items, path, depth, state => do
    let state ← enterValue limits path depth state
    if limits.maxArrayLength < items.length then
      fail path s!"array exceeds {limits.maxArrayLength} entries"
    let (items, state) ← prepareItems items 0 path depth state
    return (.array items, state)
  | .object properties, path, depth, state => do
    let state ← enterValue limits path depth state
    let sorted ← sortedKeys cborg limits (prepareEach properties) path
    let (entries, state) ← prepareProperties sorted path depth state
    return (.map entries, state)
/-- The loop of `prepareValue` over the items of an array, from an index on. -/
def prepareItems : List SValue → Nat → Prepare (List Item)
  | [], _, _, _, state => .ok ([], state)
  | value :: values, index, path, depth, state => do
    let (item, state) ← prepareValue value (path ++ [.index index]) (depth + 1) state
    let (items, state) ← prepareItems values (index + 1) path depth state
    return (item :: items, state)
/-- The preparation of each property, to be run in the sorted order. -/
def prepareEach : List (String × SValue) → List (String × Prepare Item)
  | [] => []
  | (key, value) :: properties => (key, prepareValue value) :: prepareEach properties
end

structure EncodedSValue where
  data : Bytes
  refs : List Hash
  deriving DecidableEq, Repr

def encodeDetailed (value : SValue) : Except Failure EncodedSValue := do
  let (prepared, state) ← prepareValue cborg limits value [] 0 {}
  let data := cborg.encode prepared
  if limits.maxEncodedBytes < data.length then
    fail [] s!"encoding exceeds {limits.maxEncodedBytes} bytes"
  return { data, refs := state.refs }

end Encode

def encodeSValueWithRefs (cborg : Cborg) (value : SValue) (options : SValueCodecOptions) : Except Failure EncodedSValue := do
  let limits ← codecLimits options
  encodeDetailed cborg limits value

/-! ## Decoding -/

/-- The state of a decode: the `BoundedTokenizer`, with the innermost count of remaining children first, and the refs that
the tag decoder has collected. -/
structure DecodeState where
  pos : Nat := 0
  remaining : List Nat := []
  values : Nat := 0
  refs : List Hash := []
  deriving DecidableEq, Repr

/-- `readCborArgument`; `none` where the head is not complete or has no argument. -/
def readCborArgument (data : Bytes) (offset additional : Nat) : Except Failure (Option Nat) :=
  if additional < 24 then .ok (some additional)
  else
    let width := if additional = 24 then 1 else if additional = 25 then 2 else if additional = 26 then 4
      else if additional = 27 then 8 else 0
    if width = 0 ∨ data.length < offset + 1 + width then .ok none
    else
      let value := natBE ((data.drop (offset + 1)).take width)
      if width = 8 ∧ maxSafeInteger < value then fail [] "declared length exceeds the safe integer range"
      else .ok (some value)

section Decode

variable (cborg : Cborg) (limits : SValueCodecLimits)

/-- `#preflightHead`: the declared lengths against the limits. -/
def preflightHead (data : Bytes) (offset : Nat) : Except Failure Unit := do
  let some initial := data[offset]? | return ()
  let major := initial.toNat / 32
  if major < 2 ∨ 5 < major then return ()
  let some argument ← readCborArgument data offset (initial.toNat % 32) | return ()
  if major = 2 ∧ limits.maxByteStringBytes < argument then
    fail [] s!"byte string exceeds {limits.maxByteStringBytes} bytes"
  if major = 3 ∧ limits.maxStringBytes < argument then
    fail [] s!"string exceeds {limits.maxStringBytes} UTF-8 bytes"
  if major = 4 ∧ limits.maxArrayLength < argument then
    fail [] s!"array exceeds {limits.maxArrayLength} entries"
  if major = 5 ∧ limits.maxMapEntries < argument then
    fail [] s!"map exceeds {limits.maxMapEntries} entries"

/-- `while (this.#remaining.at(-1) === 0) this.#remaining.pop()`. -/
def popFinished : List Nat → List Nat
  | 0 :: remaining => popFinished remaining
  | remaining => remaining

/-- One child less for the innermost open item. -/
def countChild : List Nat → List Nat
  | children :: remaining => (children - 1) :: remaining
  | [] => []

/-- The number of data items that a token announces. -/
def childrenOf : Token → Nat
  | .array length => length
  | .map length => length * 2
  | .tag _ => 1
  | _ => 0

/-- `BoundedTokenizer.next`. -/
def boundedNext (data : Bytes) (state : DecodeState) : Except Failure (Token × DecodeState) := do
  preflightHead limits data state.pos
  let values := state.values + 1
  if limits.maxValues < values then
    fail [] s!"value count exceeds {limits.maxValues}"
  let remaining := countChild (popFinished state.remaining)
  let (token, pos) ← cborg.next data state.pos
  if 0 < childrenOf token then
    if limits.maxDepth ≤ remaining.length then
      fail [] s!"nesting exceeds {limits.maxDepth}"
    return (token, { state with pos, values, remaining := childrenOf token :: remaining })
  return (token, { state with pos, values, remaining })

def bytesToHex (bytes : Bytes) : Hash := String.ofList (bytes.flatMap byteHex)

def createSBlob (hash : Hash) : Except Failure BlobHash :=
  if h : IsHash hash then .ok ⟨hash, h⟩
  else .error (.invalid [.key "$sblob"] "SBlob hash must be 64 lowercase hexadecimal characters")

/-- The decoder of `SBlobTag`. -/
def decodeSBlob (content : Decoded BlobHash) (state : DecodeState) : Except Failure (Decoded BlobHash × DecodeState) :=
  match content with
  | .bytes hashBytes =>
    if hashBytes.length ≠ 32 then fail [] "SBlob tag must contain exactly 32 bytes"
    else do
      let hash := bytesToHex hashBytes
      let refs := state.refs ++ [hash]
      if limits.maxRefs < refs.length then
        fail [] s!"reference count exceeds {limits.maxRefs}"
      let blob ← createSBlob hash
      return (.custom blob, { state with refs })
  | _ => fail [] "SBlob tag must contain exactly 32 bytes"

/-- `decodeOptions.tags`. -/
def tagDecoders (number : Nat) :
    Option (Decoded BlobHash → DecodeState → Except Failure (Decoded BlobHash × DecodeState)) :=
  if number = sBlobTag then some (decodeSBlob limits) else none

/-- A normalized part of a decoded value. -/
abbrev Normalize (α : Type) := List PathStep → Nat → PrepareState → Except Failure (α × PrepareState)

mutual
def normalizeDecoded : Decoded BlobHash → Normalize SValue
  | .custom hash, _, _, state => .ok (.sblob hash, state)
  | .map entries, path, depth, state => do
    let state ← enterValue limits path depth state
    if limits.maxMapEntries < entries.length then
      fail path s!"map exceeds {limits.maxMapEntries} entries"
    let (properties, state) ← normalizeEntries entries path depth state
    return (.object properties, state)
  | .array items, path, depth, state => do
    let state ← enterValue limits path depth state
    if limits.maxArrayLength < items.length then
      fail path s!"array exceeds {limits.maxArrayLength} entries"
    let (items, state) ← normalizeItems items 0 path depth state
    return (.array items, state)
  | .null, path, depth, state => do
    let state ← enterValue limits path depth state
    return (.null, state)
  | .bool value, path, depth, state => do
    let state ← enterValue limits path depth state
    return (.bool value, state)
  | .text value, path, depth, state => do
    let state ← enterValue limits path depth state
    validateString limits value path
    return (.string value, state)
  | .int value, path, depth, state => do
    let state ← enterValue limits path depth state
    let value ← prepareNumber (.integral value) path
    return (.number value, state)
  | .float bits, path, depth, state => do
    let state ← enterValue limits path depth state
    let value ← prepareNumber (numberOfBits bits) path
    return (.number value, state)
  | .bytes _, path, depth, state => do
    let _ ← enterValue limits path depth state
    fail path "objects must have Object.prototype or null prototype"
def normalizeItems : List (Decoded BlobHash) → Nat → Normalize (List SValue)
  | [], _, _, _, state => .ok ([], state)
  | item :: items, index, path, depth, state => do
    let (value, state) ← normalizeDecoded item (path ++ [.index index]) (depth + 1) state
    let (values, state) ← normalizeItems items (index + 1) path depth state
    return (value :: values, state)
def normalizeEntries : List (Decoded BlobHash × Decoded BlobHash) → Normalize (List (String × SValue))
  | [], _, _, state => .ok ([], state)
  | (.text key, child) :: entries, path, depth, state => do
    validateString limits key (path ++ [.anyKey])
    let (value, state) ← normalizeDecoded child (path ++ [.key key]) (depth + 1) state
    let (properties, state) ← normalizeEntries entries path depth state
    return ((key, value) :: properties, state)
  | (_, _) :: _, path, _, _ => fail path "map keys must be strings"
end

end Decode

structure DecodedSValue where
  value : SValue
  refs : List Hash

def decodeSValueWithRefs (cborg : Cborg) (data : Bytes) (options : SValueCodecOptions) : Except Failure DecodedSValue := do
  let limits ← codecLimits options
  if limits.maxEncodedBytes < data.length then
    fail [] s!"encoding exceeds {limits.maxEncodedBytes} bytes"
  let (decoded, state) ← cborg.decode data (boundedNext cborg limits data) (tagDecoders limits)
    (fun state => state.pos = data.length) {}
  let (value, _) ← normalizeDecoded limits decoded [] 0 {}
  let canonical ← encodeDetailed cborg limits value
  if data ≠ canonical.data then
    fail [] "encoding is not canonical SValue version 1"
  if canonical.refs ≠ state.refs then
    fail [] "decoded reference order is inconsistent"
  return { value, refs := state.refs }

end UniDocs.SValueCodec
