import UniDocs.Bundles.Zip

/-!
# Bundle manifests

`manifest.ts`, with `strict-json.ts`, the schemas of the manifests and the canonical JSON of `identity.ts`: the archive of a bundle is
scanned, its manifest is checked against the schema and its files against the manifest, and the bundle gets a hash of its content.
-/

/-!
## The assets of a bundle

`type-card-assets.ts` and `inspectViewAsset`: what a file of a bundle is, by its extension and its content. An SVG image is checked
on the value that a library makes of its XML text.
-/

namespace UniDocs.Bundles

open Lib

/-- A literal as a string of the runtime. -/
abbrev js (text : String) : JsString := JsString.ofString text

/-- `TypeCardAssetInfo`; a size that an image does not have is none. -/
structure AssetInfo where
  contentType : String
  width : Option Nat
  height : Option Nat
  deriving DecidableEq, Repr

/-! ## Bytes of an image -/

/-- `bytes[index]`, inside the bytes. -/
def byteAt (bytes : Bytes) (index : Nat) : Nat := (bytes.getD index 0).toNat

def ascii (bytes : Bytes) (offset length : Nat) : Bytes := (bytes.drop offset).take length

/-- The bytes of an ASCII literal. -/
def asciiBytes (text : String) : Bytes := text.toList.map fun c => UInt8.ofNat c.toNat

/-- `getUint32(offset)`. -/
def getUint32 (bytes : Bytes) (offset : Nat) : Nat := natBE (ascii bytes offset 4)

/-- `getUint32(offset, true)`. -/
def getUint32LE (bytes : Bytes) (offset : Nat) : Nat := natLE (ascii bytes offset 4)

/-- `getUint16(offset, true)`. -/
def getUint16LE (bytes : Bytes) (offset : Nat) : Nat := natLE (ascii bytes offset 2)

def maxDimension : Nat := 4096

def maxPixels : Nat := 16777216

def dimensions (width height : Nat) : Option (Nat × Nat) :=
  if width < 1 ∨ height < 1 ∨ maxDimension < width ∨ maxDimension < height ∨ maxPixels < width * height then none
  else some (width, height)

/-- One bit of `crc32`. -/
def crcBit (crc : UInt32) : UInt32 := (crc >>> 1) ^^^ (if crc &&& 1 = 0 then 0 else 0xedb88320)

def crc32 (bytes : Bytes) : UInt32 :=
  bytes.foldl (fun crc byte => Nat.repeat crcBit 8 (crc ^^^ byte.toUInt32)) 0xffffffff ^^^ 0xffffffff

/-! ## PNG -/

/-- The checks of an `IHDR` chunk at an offset, and the size that it gives. -/
def pngHeader (bytes : Bytes) (offset : Nat) : Option (Nat × Nat) := do
  let size ← dimensions (getUint32 bytes (offset + 8)) (getUint32 bytes (offset + 12))
  guard (byteAt bytes (offset + 16) ∈ [1, 2, 4, 8, 16] ∧ byteAt bytes (offset + 17) ∈ [0, 2, 3, 4, 6]
    ∧ byteAt bytes (offset + 18) = 0 ∧ byteAt bytes (offset + 19) = 0 ∧ byteAt bytes (offset + 20) ∈ [0, 1])
  pure size

/-- The loop of `pngInfo` over the chunks; each has at least twelve bytes. -/
def pngChunks (bytes : Bytes) : Nat → Nat → Option (Nat × Nat) → Bool → Option AssetInfo
  | 0, _, _, _ => none
  | fuel + 1, offset, size, sawData => do
    guard (offset + 12 ≤ bytes.length)
    let length := getUint32 bytes offset
    let chunkEnd := offset + 12 + length
    guard (chunkEnd ≤ bytes.length)
    let type := ascii bytes (offset + 4) 4
    guard (getUint32 bytes (offset + 8 + length) = (crc32 (ascii bytes (offset + 4) (length + 4))).toNat)
    guard (offset = 8 → type = asciiBytes "IHDR" ∧ length = 13)
    guard (type = asciiBytes "IHDR" → size = none)
    let size ← if type = asciiBytes "IHDR" then (pngHeader bytes offset).map some else some size
    let sawData := sawData || type == asciiBytes "IDAT"
    if type = asciiBytes "IEND" then
      guard (length = 0 ∧ sawData = true ∧ chunkEnd = bytes.length)
      size.map fun size => ⟨"image/png", some size.1, some size.2⟩
    else pngChunks bytes fuel chunkEnd size sawData

def pngInfo (bytes : Bytes) : Option AssetInfo := do
  guard (45 ≤ bytes.length ∧ bytes.take 8 = [137, 80, 78, 71, 13, 10, 26, 10])
  pngChunks bytes bytes.length 8 none false

/-! ## JPEG -/

/-- The markers of a frame. -/
def frameMarkers : List Nat := [0xc0, 0xc1, 0xc2, 0xc3, 0xc5, 0xc6, 0xc7, 0xc9, 0xca, 0xcb, 0xcd, 0xce, 0xcf]

/-- The loop of `jpegInfo` over the segments. -/
def jpegSegments (bytes : Bytes) : Nat → Nat → Option (Nat × Nat) → Option (Option (Nat × Nat))
  | 0, _, size => some size
  | fuel + 1, offset, size =>
    if bytes.length - 2 < offset + 4 then some size
    else if byteAt bytes offset ≠ 0xff then none
    else
      -- fill bytes before a marker
      let offset := offset + ((bytes.drop offset).takeWhile (· == 0xff)).length
      let marker := byteAt bytes offset
      let offset := offset + 1
      if marker = 0xda then some size
      else if marker = 0xd8 ∨ marker = 0xd9 ∨ (0xd0 ≤ marker ∧ marker ≤ 0xd7) then jpegSegments bytes fuel offset size
      else if bytes.length < offset + 2 then none
      else
        let length := byteAt bytes offset * 256 + byteAt bytes (offset + 1)
        if length < 2 ∨ bytes.length - 2 < offset + length then none
        else if marker ∈ frameMarkers then
          if length < 8 ∨ size ≠ none then none
          else
            (dimensions (byteAt bytes (offset + 5) * 256 + byteAt bytes (offset + 6))
              (byteAt bytes (offset + 3) * 256 + byteAt bytes (offset + 4))).bind fun size =>
                jpegSegments bytes fuel (offset + length) (some size)
        else jpegSegments bytes fuel (offset + length) size

def jpegInfo (bytes : Bytes) : Option AssetInfo := do
  guard (8 ≤ bytes.length ∧ bytes.take 2 = [0xff, 0xd8] ∧ bytes.drop (bytes.length - 2) = [0xff, 0xd9])
  let size ← jpegSegments bytes bytes.length 2 none
  size.map fun size => ⟨"image/jpeg", some size.1, some size.2⟩

/-! ## WebP -/

/-- The size of an image in a chunk of `webpInfo`, if the chunk is one that gives it. -/
def webpSize (bytes type : Bytes) (length data : Nat) : Option (Nat × Nat) :=
  if type = asciiBytes "VP8X" ∧ 10 ≤ length then
    some (1 + natLE (ascii bytes (data + 4) 3), 1 + natLE (ascii bytes (data + 7) 3))
  else if type = asciiBytes "VP8L" ∧ 5 ≤ length ∧ byteAt bytes data = 0x2f then
    let bits := getUint32LE bytes (data + 1)
    some (bits % 0x4000 + 1, bits / 0x4000 % 0x4000 + 1)
  else if type = asciiBytes "VP8 " ∧ 10 ≤ length ∧ ascii bytes (data + 3) 3 = [0x9d, 0x01, 0x2a] then
    some (getUint16LE bytes (data + 6) % 0x4000, getUint16LE bytes (data + 8) % 0x4000)
  else none

/-- The loop of `webpInfo` over the chunks. -/
def webpChunks (bytes : Bytes) : Nat → Nat → Option AssetInfo
  | 0, _ => none
  | fuel + 1, offset => do
    guard (offset + 8 ≤ bytes.length)
    let type := ascii bytes offset 4
    let length := getUint32LE bytes (offset + 4)
    let data := offset + 8
    guard (data + length ≤ bytes.length)
    match webpSize bytes type length data with
    | some size => (dimensions size.1 size.2).map fun size => ⟨"image/webp", some size.1, some size.2⟩
    | none => webpChunks bytes fuel (data + length + length % 2)

def webpInfo (bytes : Bytes) : Option AssetInfo := do
  guard (30 ≤ bytes.length ∧ ascii bytes 0 4 = asciiBytes "RIFF" ∧ ascii bytes 8 4 = asciiBytes "WEBP")
  guard (getUint32LE bytes 4 + 8 = bytes.length)
  webpChunks bytes bytes.length 12

/-! ## SVG -/

/-- What `XMLParser` makes of a text. -/
inductive XmlValue where
  | string (text : JsString)
  | number (text : JsString)
  | other
  | array (items : List XmlValue)
  | object (fields : List (JsString × XmlValue))

/-- `XMLValidator.validate(text) === true` and `XMLParser.parse`, with the options of `svgInfo`. -/
structure XmlLibrary where
  validate : JsString → Bool
  parse : JsString → Option (List (JsString × XmlValue))

/-- The ASCII letters of a string in lower case. -/
def asciiLower (text : JsString) : JsString := text.map fun u => if 65 ≤ u ∧ u ≤ 90 then u + 32 else u

/-- A string occurs in another, in any case. -/
def containsAnyCase (needle : String) (text : JsString) : Bool := (JsString.indexOf (asciiLower (js needle)) (asciiLower text)).isSome

def allowedElements : List JsString :=
  ["svg", "g", "path", "rect", "circle", "ellipse", "line", "polyline", "polygon", "defs", "linearGradient", "radialGradient",
    "stop", "clipPath", "mask", "title", "desc"].map js

def allowedAttributes : List JsString :=
  ["@_xmlns", "@_viewBox", "@_width", "@_height", "@_fill", "@_stroke", "@_stroke-width", "@_stroke-linecap",
    "@_stroke-linejoin", "@_stroke-miterlimit", "@_stroke-dasharray", "@_stroke-dashoffset", "@_fill-rule", "@_clip-rule",
    "@_opacity", "@_fill-opacity", "@_stroke-opacity", "@_transform", "@_d", "@_x", "@_y", "@_x1", "@_y1", "@_x2", "@_y2",
    "@_cx", "@_cy", "@_r", "@_rx", "@_ry", "@_points", "@_id", "@_offset", "@_stop-color", "@_stop-opacity",
    "@_gradientUnits", "@_gradientTransform", "@_clip-path", "@_mask"].map js

def svgNamespace : JsString := js "http://www.w3.org/2000/svg"

def isAsciiLetter (u : UInt16) : Bool := (65 ≤ u && u ≤ 90) || (97 ≤ u && u ≤ 122)

/-- `/^url\(#[A-Za-z_][A-Za-z0-9_.-]*\)$/`. -/
def isLocalUrl (value : JsString) : Bool :=
  let name := (value.drop 5).dropLast
  (js "url(#").isPrefixOf value && value.getLast? == some 41 &&
    (name.head?.any fun u => isAsciiLetter u || u == 95) &&
    name.all fun u => isAsciiLetter u || (48 ≤ u && u ≤ 57) || [95, 46, 45].contains u

/-- `url`, white space and an opening parenthesis at the start of a string in lower case. -/
def startsUrl (text : JsString) : Bool :=
  (js "url").isPrefixOf text && ((text.drop 3).dropWhile JsString.isSpace).head? == some 40

/-- `/url\s*\(|javascript:|https?:|data:/i`. -/
def hasExternalReference (value : JsString) : Bool :=
  (asciiLower value).tails.any startsUrl || containsAnyCase "javascript:" value || containsAnyCase "http:" value ||
    containsAnyCase "https:" value || containsAnyCase "data:" value

/-- The checks of an attribute. -/
def attributeAllowed (key value : JsString) : Bool :=
  if key = js "@_xmlns" then value == svgNamespace
  else if key = js "@_clip-path" ∨ key = js "@_mask" then isLocalUrl value
  else !hasExternalReference value

mutual

def visit (element : JsString) : XmlValue → Bool
  | .object fields => allowedElements.contains element && visitFields fields
  -- the keys of an array are no elements
  | .array items => allowedElements.contains element && items.isEmpty
  | _ => allowedElements.contains element

def visitFields : List (JsString × XmlValue) → Bool
  | [] => true
  | (key, child) :: fields =>
    (if key = js "#text" then true
    else if (js "@_").isPrefixOf key then
      allowedAttributes.contains key &&
        match child with
        | .string value => attributeAllowed key value
        | .number value => attributeAllowed key value
        | _ => false
    else
      match child with
      | .array items => visitItems key items
      | child => visit key child) && visitFields fields

def visitItems (element : JsString) : List XmlValue → Bool
  | [] => true
  | item :: items => visit element item && visitItems element items

end

def svgInfo (xml : XmlLibrary) (bytes : Bytes) : Option AssetInfo := do
  let text ← decodeText false bytes
  guard (text.length ≤ 262144 ∧ containsAnyCase "<!DOCTYPE" text = false ∧ containsAnyCase "<!ENTITY" text = false
    ∧ xml.validate text = true)
  let parsed ← xml.parse text
  guard (parsed.all fun field => field.1 == js "?xml" || field.1 == js "svg")
  match parsed.lookup (js "svg") with
  | some (.object fields) =>
    match fields.lookup (js "@_xmlns") with
    | some (.string value) =>
      guard (value = svgNamespace ∧ visit (js "svg") (.object fields) = true)
      pure ⟨"image/svg+xml", none, none⟩
    | _ => none
  | _ => none

/-! ## By extension -/

def endsWith (suffix : String) (path : JsString) : Bool := (js suffix).isSuffixOf path

def inspectTypeCardAsset (xml : XmlLibrary) (path : JsString) (bytes : Bytes) : Option AssetInfo :=
  if endsWith ".png" path then pngInfo bytes
  else if endsWith ".jpg" path || endsWith ".jpeg" path then jpegInfo bytes
  else if endsWith ".webp" path then webpInfo bytes
  else if endsWith ".svg" path then svgInfo xml bytes
  else none

/-- `path.slice(path.lastIndexOf("."))`: without a dot, the last unit. -/
def extensionOf (path : JsString) : JsString :=
  if 46 ∈ path then path.drop (path.length - 1 - (path.reverse.takeWhile (· != 46)).length) else path.drop (path.length - 1)

/-- The content type of a text file of a view. -/
def textTypeOf (extension : JsString) : Option String :=
  [(js ".html", "text/html"), (js ".css", "text/css"), (js ".js", "text/javascript"), (js ".mjs", "text/javascript")].lookup extension

/-- `inspectViewAsset`; no letter outside ASCII has a letter of one of the extensions as its lower case. -/
def inspectViewAsset {α : Type} (xml : XmlLibrary) (parseStrictJson : Bytes → Option α) (path : JsString) (bytes : Bytes) :
    Option AssetInfo :=
  let extension := asciiLower (extensionOf path)
  match textTypeOf extension with
  | some textType => do
    let text ← decodeText false bytes
    guard (0 ∉ text ∧ text.head? ≠ some 0xfeff)
    pure ⟨textType, none, none⟩
  | none =>
    if extension = js ".json" then (parseStrictJson bytes).map fun _ => ⟨"application/json", none, none⟩
    else if extension ∈ [".svg", ".png", ".jpg", ".jpeg", ".webp"].map js then inspectTypeCardAsset xml path bytes
    else if extension = js ".woff" ∧ bytes.take 4 = asciiBytes "wOFF" then some ⟨"font/woff", none, none⟩
    else if extension = js ".woff2" ∧ bytes.take 4 = asciiBytes "wOF2" then some ⟨"font/woff2", none, none⟩
    else none

end UniDocs.Bundles

namespace UniDocs.Bundles

open Lib

/-! ## Runtime -/

/-- A node of `jsonc-parser`; `value` is the value of a string node. -/
inductive JsonNode where
  | node (type : String) (value : Option JsString) (children : List JsonNode)

/-- What `inspectBundleManifest` uses of the runtime and of libraries: besides the ZIP reader, an XML parser, `canonicalize`, the tree
of `parseTree` where it reports no error, and `Intl.getCanonicalLocales(locale)[0]`. -/
structure BundleRuntime extends ZipRuntime where
  xml : XmlLibrary
  canonicalize : JsonValue → String
  parseTree : JsString → Option JsonNode
  canonicalLocale : JsString → Option JsString

/-! ## Strict JSON -/

def JsonNode.value : JsonNode → Option JsString
  | .node _ value _ => value

def JsonNode.children : JsonNode → List JsonNode
  | .node _ _ children => children

/-- The keys of the properties of an object are strings, and distinct. -/
def keysDistinct (properties : List JsonNode) : Bool :=
  let keys := properties.map fun property => property.children.head?.bind JsonNode.value
  keys.all Option.isSome && decide keys.Nodup

mutual

/-- `inspect`. -/
def inspectNode (depth : Nat) : JsonNode → Bool
  | .node type _ children => depth ≤ 64 && (type != "object" || keysDistinct children) && inspectNodes (depth + 1) children

def inspectNodes (depth : Nat) : List JsonNode → Bool
  | [] => true
  | node :: nodes => inspectNode depth node && inspectNodes depth nodes

end

def parseStrictJson (runtime : BundleRuntime) (content : Bytes) : Option JsonValue := do
  let text ← decodeText true content
  let root ← runtime.parseTree text
  guard (inspectNode 0 root = true)
  JsonValue.parse text

/-! ## Canonical JSON -/

mutual

def assertJson : JsonValue → Bool
  | .null => true
  | .bool _ => true
  | .number value => value.isSome
  | .string text => decide text.IsWellFormed
  | .array elements => assertElements elements
  | .object fields => assertFields fields

def assertElements : List JsonValue → Bool
  | [] => true
  | value :: values => assertJson value && assertElements values

def assertFields : List (JsString × JsonValue) → Bool
  | [] => true
  | (key, value) :: fields => decide key.IsWellFormed && assertJson value && assertFields fields

end

def canonicalJson (runtime : BundleRuntime) (value : JsonValue) : Option String :=
  if assertJson value then some (runtime.canonicalize value) else none

def digest (runtime : BundleRuntime) (value : JsonValue) : Option Bytes :=
  (canonicalJson runtime value).map fun text => runtime.sha256 (utf8 text)

def schemaHash (runtime : BundleRuntime) (value : JsonValue) : Option String :=
  (digest runtime value).map fun bytes => "sha256:" ++ hexText bytes

/-! ## Manifests -/

/-- `NonEmptyStringSchema`. -/
abbrev NonEmptyString := { text : JsString // text ≠ [] }

/-- `DocumentTypePattern`. -/
def isDocumentType (text : JsString) : Bool :=
  (text.head?.any fun u => 97 ≤ u && u ≤ 122) && (text.all fun u => (97 ≤ u && u ≤ 122) || (48 ≤ u && u ≤ 57) || u == 45) &&
    text.length ≤ 64

abbrev DocumentType := { text : JsString // isDocumentType text = true }

/-- `ViewBundleManifestV1`. -/
structure ViewBundleManifest where
  documentType : DocumentType
  interactive : NonEmptyString
  thumbnail : NonEmptyString
  different : interactive ≠ thumbnail
  supportedDocumentContractIdxs : List Nat
  supports : supportedDocumentContractIdxs ≠ []

/-- `TypeCardLocaleV1`. -/
structure TypeCardLocale where
  name : NonEmptyString
  description : JsString
  sampleThumbnailAlt : NonEmptyString

/-- `TypeCardIconV1`; a PNG icon has an image of each size. -/
inductive TypeCardIcon where
  | svg (path : NonEmptyString)
  | png (image16 image32 image64 image128 image256 : NonEmptyString)

/-- `TypeCardBundleManifestV1`. -/
structure TypeCardBundleManifest where
  documentType : DocumentType
  locales : List (JsString × TypeCardLocale)
  english : (locales.lookup (js "en")).isSome = true
  icon : TypeCardIcon
  sampleThumbnail : NonEmptyString

inductive BundleManifest where
  | typeCard (manifest : TypeCardBundleManifest)
  | view (manifest : ViewBundleManifest)

/-- The images of a PNG icon by their sizes. -/
def TypeCardIcon.images : TypeCardIcon → List (Nat × NonEmptyString)
  | .svg _ => []
  | .png image16 image32 image64 image128 image256 =>
    [(16, image16), (32, image32), (64, image64), (128, image128), (256, image256)]

def BundleManifest.documentType : BundleManifest → DocumentType
  | .typeCard manifest => manifest.documentType
  | .view manifest => manifest.documentType

/-! ### As JSON -/

def viewProtocol : JsString := js "unidocs-view-bundle/v1"

def typeCardProtocol : JsString := js "unidocs-type-card/v1"

def ViewBundleManifest.json (manifest : ViewBundleManifest) : JsonValue :=
  .object [(js "protocol", .string viewProtocol), (js "documentType", .string manifest.documentType.1),
    (js "entrypoints", .object [(js "interactive", .string manifest.interactive.1), (js "thumbnail", .string manifest.thumbnail.1)]),
    (js "supportedDocumentContractIdxs", .array (manifest.supportedDocumentContractIdxs.map fun n => .number (some n)))]

def TypeCardLocale.json (content : TypeCardLocale) : JsonValue :=
  .object [(js "name", .string content.name.1), (js "description", .string content.description),
    (js "sampleThumbnailAlt", .string content.sampleThumbnailAlt.1)]

def TypeCardIcon.json : TypeCardIcon → JsonValue
  | .svg path => .object [(js "kind", .string (js "svg")), (js "path", .string path.1)]
  | .png image16 image32 image64 image128 image256 =>
    .object [(js "kind", .string (js "png")), (js "images", .object [(js "16", .string image16.1), (js "32", .string image32.1),
      (js "64", .string image64.1), (js "128", .string image128.1), (js "256", .string image256.1)])]

def TypeCardBundleManifest.json (manifest : TypeCardBundleManifest) : JsonValue :=
  .object [(js "protocol", .string typeCardProtocol), (js "documentType", .string manifest.documentType.1),
    (js "locales", .object (manifest.locales.map fun entry => (entry.1, entry.2.json))), (js "icon", manifest.icon.json),
    (js "sampleThumbnail", .string manifest.sampleThumbnail.1)]

def BundleManifest.json : BundleManifest → JsonValue
  | .typeCard manifest => manifest.json
  | .view manifest => manifest.json

/-! ### Schemas -/

def parseString : JsonValue → Option JsString
  | .string text => some text
  | _ => none

def parseNonEmpty (value : JsonValue) : Option NonEmptyString :=
  (parseString value).bind fun text => if h : text ≠ [] then some ⟨text, h⟩ else none

def parseDocumentType (value : JsonValue) : Option DocumentType :=
  (parseString value).bind fun text => if h : isDocumentType text = true then some ⟨text, h⟩ else none

/-- `DocumentContractIdxSchema`. -/
def parseContractIdx : JsonValue → Option Nat
  | .number value => safeSize value
  | _ => none

def parseArray {α : Type} (parse : JsonValue → Option α) : JsonValue → Option (List α)
  | .array elements => elements.mapM parse
  | _ => none

/-- `ViewBundleManifestV1Schema`. -/
def parseViewManifest (value : JsonValue) : Option ViewBundleManifest := do
  guard ((value.field? (js "protocol")).bind parseString = some viewProtocol)
  let documentType ← (value.field? (js "documentType")).bind parseDocumentType
  let entrypoints ← value.field? (js "entrypoints")
  let interactive ← (entrypoints.field? (js "interactive")).bind parseNonEmpty
  let thumbnail ← (entrypoints.field? (js "thumbnail")).bind parseNonEmpty
  let idxs ← (value.field? (js "supportedDocumentContractIdxs")).bind (parseArray parseContractIdx)
  if h : interactive ≠ thumbnail ∧ idxs ≠ [] then some ⟨documentType, interactive, thumbnail, h.1, idxs, h.2⟩ else none

/-- `TypeCardLocaleV1Schema`. -/
def parseLocale (value : JsonValue) : Option TypeCardLocale := do
  let name ← (value.field? (js "name")).bind parseNonEmpty
  let description ← (value.field? (js "description")).bind parseString
  let sampleThumbnailAlt ← (value.field? (js "sampleThumbnailAlt")).bind parseNonEmpty
  pure ⟨name, description, sampleThumbnailAlt⟩

/-- `z.record(NonEmptyStringSchema, TypeCardLocaleV1Schema)`, which leaves `__proto__` out. -/
def parseLocales : JsonValue → Option (List (JsString × TypeCardLocale))
  | .object fields => (fields.filter fun field => field.1 != js "__proto__").mapM fun field =>
    if field.1 = [] then none else (parseLocale field.2).map fun content => (field.1, content)
  | _ => none

/-- `TypeCardIconV1Schema`. -/
def parseIcon (value : JsonValue) : Option TypeCardIcon := do
  let kind ← (value.field? (js "kind")).bind parseString
  if kind = js "svg" then
    let path ← (value.field? (js "path")).bind parseNonEmpty
    pure (.svg path)
  else if kind = js "png" then
    let images ← value.field? (js "images")
    let image16 ← (images.field? (js "16")).bind parseNonEmpty
    let image32 ← (images.field? (js "32")).bind parseNonEmpty
    let image64 ← (images.field? (js "64")).bind parseNonEmpty
    let image128 ← (images.field? (js "128")).bind parseNonEmpty
    let image256 ← (images.field? (js "256")).bind parseNonEmpty
    pure (.png image16 image32 image64 image128 image256)
  else none

/-- `TypeCardBundleManifestV1Schema`. -/
def parseTypeCardManifest (value : JsonValue) : Option TypeCardBundleManifest := do
  guard ((value.field? (js "protocol")).bind parseString = some typeCardProtocol)
  let documentType ← (value.field? (js "documentType")).bind parseDocumentType
  let locales ← (value.field? (js "locales")).bind parseLocales
  let icon ← (value.field? (js "icon")).bind parseIcon
  let sampleThumbnail ← (value.field? (js "sampleThumbnail")).bind parseNonEmpty
  if h : (locales.lookup (js "en")).isSome = true then some ⟨documentType, locales, h, icon, sampleThumbnail⟩ else none

/-! ## The inspection -/

inductive BundleKind where
  | typeCard
  | view
  deriving DecidableEq, Repr

def BundleKind.text : BundleKind → JsString
  | .typeCard => js "type-card"
  | .view => js "view"

def manifestPath : BundleKind → JsString
  | .typeCard => js "unidocs-type-card.json"
  | .view => js "unidocs-view.json"

def otherManifestPath : BundleKind → JsString
  | .typeCard => js "unidocs-view.json"
  | .view => js "unidocs-type-card.json"

/-- The schema of a kind. -/
def parseManifest (kind : BundleKind) (value : JsonValue) : Option BundleManifest :=
  match kind with
  | .typeCard => (parseTypeCardManifest value).map .typeCard
  | .view => (parseViewManifest value).map .view

/-- What the caller expects; the lookup of the revisions of a document type may throw. -/
structure ExpectedBundle where
  kind : BundleKind
  documentType : Option JsString
  documentContractIdxs : JsString → Option (List Nat)

/-- `TypeCardBundleAsset` and `ViewBundleAsset`. -/
structure BundleAsset where
  path : JsString
  bytes : Bytes
  info : AssetInfo

structure BundleManifestInspection where
  kind : BundleKind
  manifest : BundleManifest
  canonicalManifest : String
  contentHash : String
  archiveBytes : Nat
  files : List BundleZipFile
  assets : List BundleAsset

/-- What the callbacks of the scan keep. -/
structure Inspected where
  contents : List (JsString × Bytes)
  rawManifest : Option JsonValue
  archiveBytes : Nat

/-- The callback for a file. -/
def inspectFile (runtime : BundleRuntime) (kind : BundleKind) (seen : Inspected) (file : BundleZipFile) (content : Bytes) :
    Option Inspected :=
  if file.path = otherManifestPath kind then none
  else
    let contents := JsMap.set file.path content seen.contents
    if file.path ≠ manifestPath kind then some { seen with contents }
    else if 65536 < file.size then none
    else (parseStrictJson runtime content).map fun rawManifest => { seen with contents, rawManifest := some rawManifest }

/-- Anything that is thrown becomes a `BundleZipError`. -/
def orInvalid {α : Type} : Option α → Except BundleError α
  | some value => pure value
  | none => throw .bundleInvalid

def requireFile (runtime : BundleRuntime) (files : List BundleZipFile) (path : JsString) (extensions : List String) : Option Unit := do
  let path ← validateBundlePath runtime.normalizeNfc path
  let file ← files.find? fun file => file.path == path
  guard (file.size ≠ 0 ∧ extensions.any (fun suffix => endsWith suffix path) = true)

/-- The check of the entrypoints of a view, the lookup of the revisions, and the assets. -/
def inspectView (runtime : BundleRuntime) (expected : ExpectedBundle) (files : List BundleZipFile)
    (contents : List (JsString × Bytes)) (manifest : ViewBundleManifest) : Except BundleError (List BundleAsset) := do
  orInvalid (requireFile runtime files manifest.interactive.1 [".html"])
  orInvalid (requireFile runtime files manifest.thumbnail.1 [".html"])
  match expected.documentContractIdxs manifest.documentType.1 with
  | none => throw .revisionLookup
  | some available =>
    if ¬ manifest.supportedDocumentContractIdxs.Nodup ∨ ∃ revision ∈ manifest.supportedDocumentContractIdxs, revision ∉ available then
      throw .bundleInvalid
    else orInvalid ((files.filter fun file => file.path != manifestPath expected.kind).mapM fun file => do
      let bytes ← contents.lookup file.path
      let info ← inspectViewAsset runtime.xml (parseStrictJson runtime) file.path bytes
      pure ⟨file.path, bytes, info⟩)

def inspectAsset (runtime : BundleRuntime) (files : List BundleZipFile) (contents : List (JsString × Bytes)) (path : JsString)
    (extensions : List String) : Option BundleAsset := do
  requireFile runtime files path extensions
  let bytes ← contents.lookup path
  let info ← inspectTypeCardAsset runtime.xml path bytes
  pure ⟨path, bytes, info⟩

/-- The assets of the icon: one SVG image, or PNG images of the sizes that they are for. -/
def inspectIcon (runtime : BundleRuntime) (files : List BundleZipFile) (contents : List (JsString × Bytes)) :
    TypeCardIcon → Option (List BundleAsset)
  | .svg path => (inspectAsset runtime files contents path.1 [".svg"]).map fun asset => [asset]
  | icon => icon.images.mapM fun image => do
    let asset ← inspectAsset runtime files contents image.2.1 [".png"]
    guard (asset.info.width = some image.1 ∧ asset.info.height = some image.1)
    pure asset

/-- The paths that an icon refers to. -/
def TypeCardIcon.paths : TypeCardIcon → List JsString
  | .svg path => [path.1]
  | icon => icon.images.map fun image => image.2.1

/-- The check of the files of a type card against its manifest, and the assets. -/
def inspectTypeCard (runtime : BundleRuntime) (files : List BundleZipFile) (contents : List (JsString × Bytes))
    (manifest : TypeCardBundleManifest) : Option (List BundleAsset) := do
  guard (∀ entry ∈ manifest.locales, runtime.canonicalLocale entry.1 = some entry.1)
  let referencedPaths := manifest.icon.paths ++ [manifest.sampleThumbnail.1]
  guard (referencedPaths.Nodup ∧ (∀ file ∈ files, file.path ≠ manifestPath .typeCard → file.path ∈ referencedPaths)
    ∧ files.length = referencedPaths.length + 1)
  let icon ← inspectIcon runtime files contents manifest.icon
  let sample ← inspectAsset runtime files contents manifest.sampleThumbnail.1 [".png", ".jpg", ".jpeg", ".webp"]
  pure ((icon ++ [sample]).insertionSort fun left right => JsString.UnitsLe left.path right.path)

/-- The checks of the files against the manifest, and the assets. -/
def inspectAssets (runtime : BundleRuntime) (expected : ExpectedBundle) (files : List BundleZipFile)
    (contents : List (JsString × Bytes)) : BundleManifest → Except BundleError (List BundleAsset)
  | .view manifest => inspectView runtime expected files contents manifest
  | .typeCard manifest => orInvalid (inspectTypeCard runtime files contents manifest)

/-- A file as JSON. -/
def BundleZipFile.json (file : BundleZipFile) : JsonValue :=
  .object [(js "path", .string file.path), (js "size", .number (some file.size)), (js "sha256", .string (js file.sha256))]

/-- What `contentHash` is the hash of. -/
def contentValue (kind : BundleKind) (manifest : BundleManifest) (resources : List BundleZipFile) : JsonValue :=
  .object [(js "kind", .string kind.text), (js "manifest", manifest.json), (js "files", .array (resources.map BundleZipFile.json))]

/-- The body of `inspectBundleManifest` behind the scan. -/
def inspectScanned (runtime : BundleRuntime) (expected : ExpectedBundle) (files : List BundleZipFile) (seen : Inspected) :
    Except BundleError BundleManifestInspection := do
  let rawManifest ← orInvalid seen.rawManifest
  let manifest ← orInvalid (parseManifest expected.kind rawManifest)
  let canonicalManifest ← orInvalid (canonicalJson runtime manifest.json)
  if expected.documentType.any (fun documentType => documentType != manifest.documentType.1) then throw .bundleInvalid
  else if some canonicalManifest ≠ canonicalJson runtime rawManifest then throw .bundleInvalid
  else do
    let assets ← inspectAssets runtime expected files seen.contents manifest
    let resources := files.filter fun file => file.path != manifestPath expected.kind
    let contentHash ← orInvalid (schemaHash runtime (contentValue expected.kind manifest resources))
    let manifestDigest ← orInvalid (digest runtime manifest.json)
    let manifestFile : BundleZipFile := ⟨manifestPath expected.kind, (utf8 canonicalManifest).length, hexText manifestDigest⟩
    pure ⟨expected.kind, manifest, canonicalManifest, contentHash, seen.archiveBytes,
      files.map fun file => if file.path = manifestPath expected.kind then manifestFile else file, assets⟩

def inspectBundleManifest (runtime : BundleRuntime) (source : ByteSource) (expected : ExpectedBundle) :
    Except BundleError BundleManifestInspection := do
  let scanned ← scanBundleZip runtime.toZipRuntime source {} (inspectFile runtime expected.kind)
    (fun seen archiveBytes => { seen with archiveBytes }) ⟨[], none, 0⟩
  inspectScanned runtime expected scanned.1 scanned.2

end UniDocs.Bundles
