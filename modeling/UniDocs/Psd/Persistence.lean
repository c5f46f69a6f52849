import UniDocs.Codec.Binary
import UniDocs.Lib.Traverse
import UniDocs.Psd.Layer

/-!
# Stored PSD documents

`serialize` and `deserialize` of `psd/ir.ts`, `storePsdDoc` and `materializePsdDocFromStore` of `state.ts`. A document goes
through a JSON text in both directions, with its pixels in PNG blobs. A layer has its bounds, its pixels, its mask and, under
their names, its other properties.
-/

namespace UniDocs.Psd.Storage

open Lib UniDocs.Codec

abbrev Bytes := List UInt8

abbrev Entries := List (String × Value)

/-! ## JSON -/

mutual

/-- `JSON.parse(JSON.stringify(value))`, where `undefined` is an item of an array. -/
def throughJson : Value → Value
  | .undefined | .null | .number .nan | .number (.infinite _) => .null
  | .bool value => .bool value
  | .number (.finite value) => .number (.finite value)
  | .string value => .string value
  | .bytes value => .object (value.mapIdx fun i byte => (toString i, .number (.finite byte.toNat)))
  | .array items => .array (jsonItems items)
  | .object entries => .object (jsonEntries entries)

def jsonItems : List Value → List Value
  | [] => []
  | value :: values => throughJson value :: jsonItems values

/-- The properties of an object, without those that are `undefined`. -/
def jsonEntries : Entries → Entries
  | [] => []
  | (_, .undefined) :: entries => jsonEntries entries
  | (key, value) :: entries => (key, throughJson value) :: jsonEntries entries

end

/-! ## Documents -/

/-- A branded blob handle. -/
abbrev SBlob := { hash : String // IsHash hash }

structure Pixels where
  width : Nat
  height : Nat
  data : Bytes
  deriving DecidableEq

structure PixelRef where
  width : Nat
  height : Nat
  hash : String
  blob : Option SBlob
  deriving DecidableEq

inductive PixelSource where
  | resident (pixels : Pixels)
  | ref (ref : PixelRef)

structure Mask where
  bounds : List Value
  rest : Entries
  pixels : Pixels
  blob : Option SBlob

/-- `JsonPixelRef` with hash texts, `PsdStoredPixels` with blobs. -/
structure PixelsOf (H : Type) where
  width : Nat
  height : Nat
  hash : Option H
  deriving DecidableEq

/-- `JsonMask` and `PsdStoredMask`. -/
structure MaskOf (H : Type) where
  bounds : List Value
  rest : Entries
  pixels : PixelsOf H

/-- A layer without its children; a mask may be missing or `null`. -/
structure LayerOf (P M : Type) where
  bounds : List Value
  rest : Entries
  pixels : Option P
  mask : Option (Option M)

structure FontOf (H : Type) where
  postScriptName : String
  blob : H
  deriving DecidableEq

structure DocOf (L H : Type) where
  canvas : Entries
  layers : List (RoseTree L)
  fonts : Option (List (FontOf H))

abbrev Layer := LayerOf PixelSource Mask

abbrev JsonLayer := LayerOf (PixelsOf String) (MaskOf String)

abbrev PsdStoredLayer := LayerOf (PixelsOf SBlob) (MaskOf SBlob)

abbrev PsdDoc := DocOf Layer SBlob

abbrev JsonDoc := DocOf JsonLayer String

abbrev PsdStoredDoc := DocOf PsdStoredLayer SBlob

/-! ## Blobs -/

/-- The content type of a blob and its bytes. -/
abbrev Blob := String × Bytes

/-- The PNG codec, and the hash of a blob. -/
structure Png where
  encode : Pixels → Except String Bytes
  decode : Bytes → Except String Pixels
  hash : Blob → SBlob

/-- The blobs of the CAS by their hashes. -/
structure Blobs where
  find : String → Option Blob

/-- A blob that is there already is kept. -/
def Blobs.insert (hash : String) (blob : Blob) (blobs : Blobs) : Blobs where
  find other := (blobs.find other).or (if other = hash then some blob else none)

/-- What a program does with the blobs. -/
abbrev Job := Step Blobs String

def createSBlob (hash : String) : Job SBlob :=
  if valid : IsHash hash then return ⟨hash, valid⟩
  else throw "Invalid SValue at $sblob: SBlob hash must be 64 lowercase hexadecimal characters"

/-- `makeSBlob` of a hash: its blob has to be there, since the callback only throws. -/
def makeSBlob (what hash : String) : Job SBlob :=
  if IsHash hash then do
    let blobs ← get
    if (blobs.find hash).isSome then createSBlob hash
    else throw s!"PSD {what} SBlob {hash} was not stored during externalization"
  else if hash.length = hashHexLength then throw s!"Hash must be lowercase hex: {hash}"
  else throw s!"Hash must be {hashHexLength} characters, got {hash.length}"

variable (png : Png)

/-- `put` of `casBlobStore`. -/
def put (bytes : Bytes) : Job String := do
  let hash := (png.hash ("image/png", bytes)).val
  modify (Blobs.insert hash ("image/png", bytes))
  return hash

def maxEncodedPngBytes : Nat := 64 * 1024 * 1024

/-- `get` of `casBlobStore`. -/
def getBytes (hash : String) : Job (Option Bytes) := do
  let blob ← createSBlob hash
  let blobs ← get
  match blobs.find blob with
  | none => return none
  | some (_, bytes) =>
    if maxEncodedPngBytes < bytes.length then throw s!"PNG blob exceeds {maxEncodedPngBytes}-byte limit"
    else return some bytes

/-! ## Serialization -/

/-- The pixels of a PNG that has just been stored. -/
def storePng (pixels : Pixels) : Job (PixelsOf String) := do
  let bytes ← StateT.lift (png.encode pixels)
  let hash ← put png bytes
  return ⟨pixels.width, pixels.height, some hash⟩

def serializePixels : PixelSource → Job (PixelsOf String)
  | .ref ref => return ⟨ref.width, ref.height, some ref.hash⟩
  | .resident pixels => storePng png pixels

/-- The `pixels` of a serialized mask. -/
def maskPixels (mask : Mask) : Job (PixelsOf String) :=
  if mask.pixels.width = 0 then return ⟨0, 0, none⟩
  else match mask.blob with
    | some blob => return ⟨mask.pixels.width, mask.pixels.height, some blob.val⟩
    | none => storePng png mask.pixels

def serializeMask (mask : Mask) : Job (MaskOf String) :=
  return ⟨mask.bounds, mask.rest, ← maskPixels png mask⟩

def serializeLayer (layer : Layer) : Job JsonLayer := do
  let pixels ← layer.pixels.mapM (serializePixels png)
  let mask ← layer.mask.mapM (Option.mapM (serializeMask png))
  return ⟨layer.bounds, layer.rest, pixels, mask⟩

def jsonMask (mask : MaskOf String) : MaskOf String := ⟨jsonItems mask.bounds, jsonEntries mask.rest, mask.pixels⟩

/-- A layer of the parsed text of a document. -/
def jsonLayer (layer : JsonLayer) : JsonLayer :=
  ⟨jsonItems layer.bounds, jsonEntries layer.rest, layer.pixels, layer.mask.map (Option.map jsonMask)⟩

def jsonDoc (doc : JsonDoc) : Job JsonDoc := do
  return ⟨jsonEntries doc.canvas, ← RoseTree.traverse (fun layer => pure (jsonLayer layer)) doc.layers, doc.fonts⟩

def fontText (font : FontOf SBlob) : FontOf String := ⟨font.postScriptName, font.blob.val⟩

/-- `serialize`, and `JSON.parse` of its text. -/
def serialize (doc : PsdDoc) : Job JsonDoc := do
  let layers ← RoseTree.traverse (serializeLayer png) doc.layers
  jsonDoc ⟨doc.canvas, layers, doc.fonts.map (List.map fontText)⟩

def storePixels (pixels : PixelsOf String) : Job (PixelsOf SBlob) :=
  return ⟨pixels.width, pixels.height, ← pixels.hash.mapM (makeSBlob "pixel")⟩

def storeMask (mask : MaskOf String) : Job (MaskOf SBlob) :=
  return ⟨mask.bounds, mask.rest, ← storePixels mask.pixels⟩

def storeLayer (layer : JsonLayer) : Job PsdStoredLayer := do
  let pixels ← layer.pixels.mapM storePixels
  let mask ← layer.mask.mapM (Option.mapM storeMask)
  return ⟨layer.bounds, layer.rest, pixels, mask⟩

def storeFont (font : FontOf String) : Job (FontOf SBlob) :=
  return ⟨font.postScriptName, ← makeSBlob "font" font.blob⟩

def storePsdDoc (doc : PsdDoc) : Job PsdStoredDoc := do
  let ir ← serialize png doc
  let layers ← RoseTree.traverse storeLayer ir.layers
  let fonts ← ir.fonts.mapM (List.mapM storeFont)
  return ⟨ir.canvas, layers, fonts⟩

/-! ## Materialization -/

def loadPixels (pixels : PixelsOf SBlob) : PixelsOf String := ⟨pixels.width, pixels.height, pixels.hash.map Subtype.val⟩

def loadMask (mask : MaskOf SBlob) : MaskOf String := ⟨mask.bounds, mask.rest, loadPixels mask.pixels⟩

def loadLayer (layer : PsdStoredLayer) : JsonLayer :=
  ⟨layer.bounds, layer.rest, layer.pixels.map loadPixels, layer.mask.map (Option.map loadMask)⟩

/-- `loadFont` is what `serialize` does with a font. -/
def loadFont : FontOf SBlob → FontOf String := fontText

/-- Pixels without a hash are refused as those of a text that is no hash. -/
def deserializePixels (pixels : PixelsOf String) : Job PixelSource := do
  let hash := pixels.hash.getD "undefined"
  return .ref ⟨pixels.width, pixels.height, hash, some (← createSBlob hash)⟩

def deserializeMask (mask : MaskOf String) : Job Mask :=
  match mask.pixels.hash with
  | none => return ⟨mask.bounds, mask.rest, ⟨0, 0, []⟩, none⟩
  | some hash => do
    match ← getBytes hash with
    | none => throw s!"ir: no blob found in store for mask hash \"{hash}\""
    | some bytes => do
      let pixels ← StateT.lift (png.decode bytes)
      return ⟨mask.bounds, mask.rest, pixels, some (← createSBlob hash)⟩

def deserializeLayer (layer : JsonLayer) : Job Layer := do
  let pixels ← layer.pixels.mapM deserializePixels
  let mask ← layer.mask.mapM (Option.mapM (deserializeMask png))
  return ⟨layer.bounds, layer.rest, pixels, mask⟩

def deserializeFont (font : FontOf String) : Job (FontOf SBlob) :=
  return ⟨font.postScriptName, ← createSBlob font.blob⟩

/-- `deserialize`, from the value of the text. -/
def deserialize (ir : JsonDoc) : Job PsdDoc := do
  let layers ← RoseTree.traverse (deserializeLayer png) ir.layers
  let fonts ← ir.fonts.mapM (List.mapM deserializeFont)
  return ⟨ir.canvas, layers, fonts⟩

/-- `materializePsdDocFromStore`, on the blobs of the CAS. -/
def materializePsdDoc (state : PsdStoredDoc) : Job PsdDoc := do
  let layers ← RoseTree.traverse (fun layer => pure (loadLayer layer)) state.layers
  let ir ← jsonDoc ⟨state.canvas, layers, state.fonts.map (List.map loadFont)⟩
  deserialize png ir

end UniDocs.Psd.Storage
