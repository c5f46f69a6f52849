import Mathlib.Data.List.Sort
import UniDocs.Lib.Bytes
import UniDocs.Lib.JsNumber
import UniDocs.Lib.Result
import UniDocs.Lib.Utf16

/-!
# OpenXML packages and their parts

`package-adapter.ts`: a DOCX file is taken apart into its parts, each with its content type, and put together again. The ZIP
reader and writer, the content types of an OPC package and the rules for part names belong to a library, as does the order in
which `localeCompare` puts paths.
-/

namespace UniDocs.Docx

open Lib

/-- The message of an error. -/
abbrev PackageError := JsString

/-- A message around a path. -/
def pathMessage (before : String) (path : JsString) (after : String) : PackageError :=
  JsString.ofString before ++ path ++ JsString.ofString after

/-! ## The library -/

/-- An entry of the central directory of an archive. -/
structure ZipEntry where
  name : JsString
  uncompressedSize : Nat
  deriving DecidableEq, Repr

/-- `ZipReader`. -/
structure ZipArchive where
  entries : List ZipEntry
  read : JsString → Except PackageError (List UInt8)

/-- `OpcPackage`: the declared content types of paths. -/
structure OpcPackage where
  contentTypeOf : JsString → Option String

/-- What the adapter uses of the library for office files, and of the runtime. -/
structure OfficeLibrary where
  /-- `ZipReader.open`, with `maxCompressionRatio` and `maxTotalUncompressedSize`. -/
  openZip : List UInt8 → Nat → Nat → Except PackageError ZipArchive
  /-- `ZipWriter`: the entries are added one by one, then the archive is finished. -/
  writeZip : List (JsString × List UInt8) → Except PackageError (List UInt8)
  /-- `OpcPackage.open`. -/
  openOpc : List UInt8 → Except PackageError OpcPackage
  validatePartName : JsString → Except PackageError Unit
  /-- `left.localeCompare(right) <= 0`. -/
  localeLe : JsString → JsString → Bool

def relationshipsContentType : String := "application/vnd.openxmlformats-package.relationships+xml"

/-! ## Limits -/

/-- A positive safe integer. -/
abbrev LimitValue := { n : Nat // 0 < n ∧ (n : Int) ≤ JsNumber.maxSafeInteger }

structure OpenXmlPackageLimits where
  maxEntries : LimitValue
  maxPackageBytes : LimitValue
  maxPartBytes : LimitValue
  maxPathBytes : LimitValue
  maxCompressionRatio : LimitValue
  deriving DecidableEq, Repr

/-- A number given for a limit; one that is not finite has no value. -/
abbrev LimitNumber := Option ℚ

/-- `Partial<OpenXmlPackageLimits>`. -/
structure LimitOverrides where
  maxEntries : Option LimitNumber := none
  maxPackageBytes : Option LimitNumber := none
  maxPartBytes : Option LimitNumber := none
  maxPathBytes : Option LimitNumber := none
  maxCompressionRatio : Option LimitNumber := none
  deriving DecidableEq, Repr

/-- `DEFAULT_OPEN_XML_PACKAGE_BYTES`. -/
def defaultPackageBytes : LimitValue := ⟨256 * 1024 * 1024, by decide⟩

/-- `DEFAULT_OPEN_XML_PART_BYTES`. -/
def defaultPartBytes : LimitValue := ⟨64 * 1024 * 1024, by decide⟩

def defaultLimits : OpenXmlPackageLimits where
  maxEntries := ⟨10000, by decide⟩
  maxPackageBytes := defaultPackageBytes
  maxPartBytes := defaultPartBytes
  maxPathBytes := ⟨1024, by decide⟩
  maxCompressionRatio := ⟨1200, by decide⟩

/-- One round of the loop of `packageLimits`. -/
def packageLimit (name : String) (override : Option LimitNumber) (default : LimitValue) : Except PackageError LimitValue :=
  match override with
  | none => pure default
  | some value =>
    match value with
    | none => throw (JsString.ofString s!"{name} must be a positive safe integer")
    | some value =>
      if h : value.den = 1 ∧ 0 < value.num ∧ value.num ≤ JsNumber.maxSafeInteger then
        pure ⟨value.num.toNat, by omega, by omega⟩
      else throw (JsString.ofString s!"{name} must be a positive safe integer")

def packageLimits (overrides : LimitOverrides) : Except PackageError OpenXmlPackageLimits := do
  let maxEntries ← packageLimit "maxEntries" overrides.maxEntries defaultLimits.maxEntries
  let maxPackageBytes ← packageLimit "maxPackageBytes" overrides.maxPackageBytes defaultLimits.maxPackageBytes
  let maxPartBytes ← packageLimit "maxPartBytes" overrides.maxPartBytes defaultLimits.maxPartBytes
  let maxPathBytes ← packageLimit "maxPathBytes" overrides.maxPathBytes defaultLimits.maxPathBytes
  let maxCompressionRatio ← packageLimit "maxCompressionRatio" overrides.maxCompressionRatio
    defaultLimits.maxCompressionRatio
  pure ⟨maxEntries, maxPackageBytes, maxPartBytes, maxPathBytes, maxCompressionRatio⟩

def validatePackageSize (bytes : List UInt8) (limits : OpenXmlPackageLimits) : Except PackageError Unit :=
  if bytes.length = 0 ∨ limits.maxPackageBytes < bytes.length then
    throw (JsString.ofString s!"DOCX package must contain 1-{limits.maxPackageBytes.val} bytes")
  else pure ()

/-! ## Paths -/

/-- `/`. -/
def slash : UInt16 := 47

def asciiLower (value : JsString) : JsString := value.map fun u => if 65 ≤ u ∧ u ≤ 90 then u + 32 else u

def contentTypesPath : JsString := JsString.ofString "/[Content_Types].xml"

def contentTypesContentType : String := "application/xml"

def canonicalPackagePath (lib : OfficeLibrary) (limits : OpenXmlPackageLimits) (allowLeadingSlash : Bool) (path : JsString) :
    Except PackageError JsString :=
  if path.length = 0 ∨ 92 ∈ path ∨ 63 ∈ path ∨ 35 ∈ path then throw (pathMessage "Invalid OpenXML package path: " path "")
  else if allowLeadingSlash = false ∧ path.head? = some slash then throw (pathMessage "ZIP entry must be relative: " path "")
  else if allowLeadingSlash = true ∧ path.head? ≠ some slash then
    throw (pathMessage "OpenXML manifest path must be absolute: " path "")
  else
    let absolute := if path.head? = some slash then path else slash :: path
    if limits.maxPathBytes < (utf8 absolute.toText).length then
      throw (JsString.ofString s!"OpenXML package path exceeds {limits.maxPathBytes.val} UTF-8 bytes")
    else do
      lib.validatePartName absolute
      pure absolute

def contentTypeForPath (opc : OpcPackage) (path : JsString) : Except PackageError String :=
  if asciiLower path = asciiLower contentTypesPath then pure contentTypesContentType
  else if (JsString.ofString ".rels").isSuffixOf (asciiLower path) then
    match opc.contentTypeOf path with
    | some declared =>
      if declared ≠ relationshipsContentType then
        throw (pathMessage "Relationship part " path s!" has invalid content type {declared}")
      else pure relationshipsContentType
    | none => pure relationshipsContentType
  else
    match opc.contentTypeOf path with
    | some contentType =>
      -- an empty content type is none
      if contentType = "" then throw (pathMessage "OpenXML part " path " has no declared content type") else pure contentType
    | none => throw (pathMessage "OpenXML part " path " has no declared content type")

/-! ## Taking a package apart -/

structure PackageFileData where
  data : List UInt8
  contentType : String
  deriving DecidableEq, Repr

/-- A map from paths to parts, in the order in which they were set. -/
abbrev PackageFiles := List (JsString × PackageFileData)

/-- What the loops over the parts keep track of: `equivalentPaths` and `totalBytes`. -/
structure Tally where
  equivalentPaths : List JsString
  totalBytes : Nat

/-- The checks that both loops make of a part with its path and its size. -/
def Tally.admit (limits : OpenXmlPackageLimits) (path : JsString) (size : Nat) (tally : Tally) : Except PackageError Tally :=
  if asciiLower path ∈ tally.equivalentPaths then throw (pathMessage "Duplicate equivalent OpenXML package path: " path "")
  else if limits.maxPartBytes < size then
    throw (pathMessage "OpenXML part " path s!" exceeds {limits.maxPartBytes.val} bytes")
  else if JsNumber.maxSafeInteger < ((tally.totalBytes + size : Nat) : Int) ∨ limits.maxPackageBytes < tally.totalBytes + size then
    throw (JsString.ofString s!"OpenXML package exceeds {limits.maxPackageBytes.val} uncompressed bytes")
  else pure ⟨tally.equivalentPaths ++ [asciiLower path], tally.totalBytes + size⟩

/-- The loop of `extractOpenXmlPackage`. -/
def extractFiles (lib : OfficeLibrary) (limits : OpenXmlPackageLimits) (opc : OpcPackage) (archive : ZipArchive) :
    Tally → List ZipEntry → Except PackageError PackageFiles
  | _, [] => pure []
  | tally, entry :: entries => do
    let path ← canonicalPackagePath lib limits false entry.name
    let tally ← tally.admit limits path entry.uncompressedSize
    let contentType ← contentTypeForPath opc path
    let data ← archive.read entry.name
    if data.length ≠ entry.uncompressedSize then throw (pathMessage "OpenXML part " path " length changed while reading")
    else do
      let files ← extractFiles lib limits opc archive tally entries
      pure ((path, ⟨data, contentType⟩) :: files)

def extractOpenXmlPackage (lib : OfficeLibrary) (bytes : List UInt8) (overrides : LimitOverrides) :
    Except PackageError PackageFiles := do
  let limits ← packageLimits overrides
  validatePackageSize bytes limits
  let archive ← lib.openZip bytes limits.maxCompressionRatio limits.maxPackageBytes
  let opc ← lib.openOpc bytes
  if limits.maxEntries < archive.entries.length then
    throw (JsString.ofString s!"OpenXML package exceeds {limits.maxEntries.val} ZIP entries")
  else do
    let files ← extractFiles lib limits opc archive ⟨[], 0⟩ (archive.entries.filter fun entry => entry.name.getLast? ≠ some slash)
    if contentTypesPath ∉ files.map Prod.fst then throw (pathMessage "OpenXML package is missing " contentTypesPath "")
    else pure files

/-! ## Putting a package together -/

/-- The loop of `buildOpenXmlPackage` that normalizes the parts. -/
def normalizeFiles (lib : OfficeLibrary) (limits : OpenXmlPackageLimits) :
    Tally → PackageFiles → Except PackageError (Tally × PackageFiles)
  | tally, [] => pure (tally, [])
  | tally, (path, file) :: files => do
    let canonical ← canonicalPackagePath lib limits true path
    let tally ← tally.admit limits canonical file.data.length
    let (tally, normalized) ← normalizeFiles lib limits tally files
    pure (tally, (canonical, file) :: normalized)

/-- The loop of `buildOpenXmlPackage` over the content types. -/
def checkContentTypes (opc : OpcPackage) : PackageFiles → Except PackageError Unit
  | [] => pure ()
  | (path, file) :: files => do
    let expected ← contentTypeForPath opc path
    if file.contentType ≠ expected then
      throw (pathMessage "OpenXML content type mismatch for " path s!": expected {expected}, got {file.contentType}")
    else checkContentTypes opc files

/-- The parts in the order in which they are written. -/
def sortFiles (lib : OfficeLibrary) (files : PackageFiles) : PackageFiles :=
  files.insertionSort fun left right => lib.localeLe left.1 right.1

/-- The entries of the archive that is written. -/
def zipParts (files : PackageFiles) : List (JsString × List UInt8) := files.map fun file => (file.1.drop 1, file.2.data)

def buildOpenXmlPackage (lib : OfficeLibrary) (files : PackageFiles) (overrides : LimitOverrides) :
    Except PackageError (List UInt8) := do
  let limits ← packageLimits overrides
  if files.length = 0 ∨ limits.maxEntries < files.length then
    throw (JsString.ofString s!"OpenXML manifest must contain 1-{limits.maxEntries.val} files")
  else do
    let (tally, normalized) ← normalizeFiles lib limits ⟨[], 0⟩ files
    if asciiLower contentTypesPath ∉ tally.equivalentPaths then
      throw (pathMessage "OpenXML manifest is missing " contentTypesPath "")
    else do
      let bytes ← lib.writeZip (zipParts (sortFiles lib normalized))
      validatePackageSize bytes limits
      let opc ← lib.openOpc bytes
      checkContentTypes opc (sortFiles lib normalized)
      pure bytes

end UniDocs.Docx

/-!
## The stored state of a DOCX document

`storeState` and `materialize`, `docx.ts`: the parts of a package are stored as blobs, one for each path, and read back into the
package that the document is opened from. What opening the document makes of the package is left to the library.
-/

namespace UniDocs.Docx

open Lib

/-! ## Blobs -/

/-- `SBlobHandler`, with the chunks that it is read in. -/
structure BlobHandler where
  size : Nat
  contentType : String
  chunks : List (List UInt8)

/-- What a document type uses of its context; each call may throw. -/
structure BlobContext (Blob : Type) where
  hash : Blob → String
  makeSBlob : List UInt8 → String → Except PackageError Blob
  openSBlob : Blob → Except PackageError BlobHandler

variable {Blob : Type}

/-- The loop of `materializeHandler` over the chunks. -/
def readChunks (size : Nat) : List UInt8 → List (List UInt8) → Except PackageError (List UInt8)
  | bytes, [] => pure bytes
  | bytes, chunk :: chunks =>
    if size < bytes.length + chunk.length then throw (JsString.ofString "SBlob returned more bytes than declared")
    else readChunks size (bytes ++ chunk) chunks

def materializeHandler (handler : BlobHandler) (maxBytes : Nat) : Except PackageError (List UInt8) :=
  if maxBytes < handler.size then throw (JsString.ofString s!"SBlob exceeds {maxBytes} bytes")
  else do
    let bytes ← readChunks handler.size [] handler.chunks
    if bytes.length ≠ handler.size then
      throw (JsString.ofString s!"SBlob returned {bytes.length} bytes, expected {handler.size}")
    else pure bytes

/-! ## Storing and materializing -/

/-- The loop of `storeState` over the parts: a blob of the previous state that has the same hash is kept. -/
def storeState (context : BlobContext Blob) (previous : List (JsString × Blob)) :
    PackageFiles → Except PackageError (List (JsString × Blob))
  | [] => pure []
  | (path, file) :: files => do
    let blob ← context.makeSBlob file.data file.contentType
    let stored ← storeState context previous files
    match previous.lookup path with
    | some prior => pure ((path, if context.hash prior = context.hash blob then prior else blob) :: stored)
    | none => pure ((path, blob) :: stored)

/-- The blobs of a document are opened. -/
def openBlobs (context : BlobContext Blob) : List (JsString × Blob) → Except PackageError (List (JsString × BlobHandler))
  | [] => pure []
  | (path, blob) :: files => do
    let handler ← context.openSBlob blob
    let loaded ← openBlobs context files
    pure ((path, handler) :: loaded)

/-- The loop of `materialize` over the sizes. -/
def checkSizes : Nat → List (JsString × BlobHandler) → Except PackageError Unit
  | _, [] => pure ()
  | packageBytes, (path, handler) :: loaded =>
    if defaultPartBytes < handler.size then
      throw (pathMessage "OpenXML part " path s!" exceeds {defaultPartBytes.val} bytes")
    else if JsNumber.maxSafeInteger < ((packageBytes + handler.size : Nat) : Int) ∨
        defaultPackageBytes < packageBytes + handler.size then
      throw (JsString.ofString s!"OpenXML package exceeds {defaultPackageBytes.val} uncompressed bytes")
    else checkSizes (packageBytes + handler.size) loaded

/-- The loop of `materialize` over the contents. -/
def readFiles : List (JsString × BlobHandler) → Except PackageError PackageFiles
  | [] => pure []
  | (path, handler) :: loaded => do
    let data ← materializeHandler handler defaultPartBytes
    let files ← readFiles loaded
    pure ((path, ⟨data, handler.contentType⟩) :: files)

/-- `materialize` of a state that is not cached, up to the package that `Document.open` is given. -/
def materialize (lib : OfficeLibrary) (context : BlobContext Blob) (doc : List (JsString × Blob)) :
    Except PackageError (List UInt8) := do
  let loaded ← openBlobs context doc
  checkSizes 0 loaded
  let files ← readFiles loaded
  buildOpenXmlPackage lib files {}

end UniDocs.Docx
