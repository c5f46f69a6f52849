import UniDocs.Lib.Bytes
import UniDocs.Lib.JsMap
import UniDocs.Lib.JsonValue

/-!
# Bundle archives

`ingress.ts` and `zip.ts` of the portal service: the archive of a bundle is read within limits, its entries are checked one by
one, and each file is read and hashed. The ZIP reader is a library that yields any sequence of entries.
-/

namespace UniDocs.Bundles

open Lib

abbrev Bytes := List UInt8

/-- A number of the runtime; one that is not finite has no value. -/
abbrev RuntimeNumber := Option ℚ

/-- The safe integer that a number is, if it is one and not negative. -/
def safeSize (value : RuntimeNumber) : Option Nat :=
  value.bind fun value => if value.den = 1 ∧ 0 ≤ value.num ∧ value.num ≤ JsNumber.maxSafeInteger then some value.num.toNat else none

/-- `new TextDecoder("utf-8", { fatal: true, ignoreBOM }).decode(bytes)`. -/
def decodeText (ignoreBOM : Bool) (bytes : Bytes) : Option JsString :=
  (String.fromUTF8? bytes.toByteArray).map fun text =>
    let units := JsString.ofString text
    if ignoreBOM = false ∧ units.head? = some 0xfeff then units.drop 1 else units

/-- The lowercase hex digits of bytes. -/
def hexText (bytes : Bytes) : String := String.ofList (bytes.flatMap byteHex)

/-! ## Paths -/

/-- `/`. -/
def slash : UInt16 := 47

/-- The units that no path has: `\`, `%`, `:`, `?`, `#` and the control characters. -/
def isForbidden (u : UInt16) : Bool := [92, 37, 58, 63, 35, 127].contains u || u ≤ 31

/-- A segment is not empty, not `.` or `..`, and does not end with a dot or a space. -/
def isCanonicalSegment (segment : JsString) : Bool :=
  !segment.isEmpty && segment != [46] && segment != [46, 46] && segment.getLast? != some 46 && segment.getLast? != some 32

/-- The default of `maxBytes`. -/
def maxPathBytes : Nat := 512

def validateBundlePath (normalizeNfc : JsString → JsString) (path : JsString) : Option JsString :=
  if ¬ path.IsWellFormed ∨ path ≠ normalizeNfc path ∨ maxPathBytes < (utf8 path.toText).length then none
  else if path.any isForbidden ∨ (path.splitOn slash).any fun segment => !isCanonicalSegment segment then none
  else some path

/-! ## Streams -/

/-- The chunks of a `ReadableStream`, and whether it fails behind them. -/
structure ByteSource where
  chunks : List Bytes
  fails : Bool

/-- The chunks that `boundedBytes` yields, put together, where it does not throw. -/
def boundedBytes (maxBytes : Nat) (fails : Bool) : Nat → List Bytes → Option Bytes
  | _, [] => if fails then none else some []
  | consumed, chunk :: chunks =>
    if maxBytes < consumed + chunk.length then none
    else (boundedBytes maxBytes fails (consumed + chunk.length) chunks).map (chunk ++ ·)

/-! ## Limits -/

/-- A limit may be lowered and not raised. -/
abbrev LimitUpTo (max : Nat) := { n : Nat // 1 ≤ n ∧ n ≤ max }

/-- Limits of at most `BUNDLE_ZIP_LIMITS`. -/
structure BundleZipLimits where
  archiveBytes : LimitUpTo (8 * 1024 * 1024)
  entries : LimitUpTo 512
  fileBytes : LimitUpTo (4 * 1024 * 1024)
  expandedBytes : LimitUpTo (32 * 1024 * 1024)
  compressionRatio : LimitUpTo 100

def BUNDLE_ZIP_LIMITS : BundleZipLimits where
  archiveBytes := ⟨8 * 1024 * 1024, by decide⟩
  entries := ⟨512, by decide⟩
  fileBytes := ⟨4 * 1024 * 1024, by decide⟩
  expandedBytes := ⟨32 * 1024 * 1024, by decide⟩
  compressionRatio := ⟨100, by decide⟩

/-- The `budgets` of a caller. -/
structure BundleZipBudgets where
  archiveBytes : Option RuntimeNumber := none
  entries : Option RuntimeNumber := none
  fileBytes : Option RuntimeNumber := none
  expandedBytes : Option RuntimeNumber := none
  compressionRatio : Option RuntimeNumber := none

/-- What the functions of a bundle throw: `RangeError`, `BundleZipError`, and what a caller's lookup of revisions throws. -/
inductive BundleError where
  | invalidLimit
  | bundleInvalid
  | revisionLookup
  deriving DecidableEq, Repr

/-- One round of the loop that checks the limits. -/
def bundleZipLimit (max : Nat) (budget : Option RuntimeNumber) (default : LimitUpTo max) : Except BundleError (LimitUpTo max) :=
  match budget with
  | none => pure default
  | some value =>
    match safeSize value with
    | none => throw .invalidLimit
    | some n => if h : 1 ≤ n ∧ n ≤ max then pure ⟨n, h⟩ else throw .invalidLimit

/-- The limits of `scanBundleZip`. -/
def bundleZipLimits (budgets : BundleZipBudgets) : Except BundleError BundleZipLimits := do
  let archiveBytes ← bundleZipLimit _ budgets.archiveBytes BUNDLE_ZIP_LIMITS.archiveBytes
  let entries ← bundleZipLimit _ budgets.entries BUNDLE_ZIP_LIMITS.entries
  let fileBytes ← bundleZipLimit _ budgets.fileBytes BUNDLE_ZIP_LIMITS.fileBytes
  let expandedBytes ← bundleZipLimit _ budgets.expandedBytes BUNDLE_ZIP_LIMITS.expandedBytes
  let compressionRatio ← bundleZipLimit _ budgets.compressionRatio BUNDLE_ZIP_LIMITS.compressionRatio
  pure ⟨archiveBytes, entries, fileBytes, expandedBytes, compressionRatio⟩

/-! ## The library -/

/-- An entry of the archive, with the chunks that `getData` writes and whether it then throws. -/
structure ZipEntry where
  rawFilename : Bytes
  filename : JsString
  directory : Bool
  encrypted : Bool
  symlink : Bool
  diskNumberStart : Nat
  compressionMethod : Nat
  externalFileAttributes : UInt32
  uncompressedSize : RuntimeNumber
  compressedSize : RuntimeNumber
  chunks : List Bytes
  dataFails : Bool
  warnings : Nat

/-- What `getEntriesGenerator` yields, whether it then throws, and the warnings of the reader. -/
structure ZipListing where
  entries : List ZipEntry
  fails : Bool
  warnings : Nat

/-- `ZipReader`, `normalize("NFC")` and `crypto.subtle.digest("SHA-256")`. -/
structure ZipRuntime where
  openZip : Bytes → ZipListing
  normalizeNfc : JsString → JsString
  sha256 : Bytes → Bytes

/-! ## The scan -/

structure BundleZipFile where
  path : JsString
  size : Nat
  sha256 : String
  deriving DecidableEq, Repr

/-- The variables of the loop over the entries, and what the callback keeps. -/
structure Scan (σ : Type) where
  paths : List (JsString × Bool)
  files : List BundleZipFile
  entryCount : Nat
  expandedBytes : Nat
  seen : σ

variable {σ : Type}

/-- The path of an entry: a directory loses the slash at its end. -/
def entryPath (directory : Bool) (rawPath : JsString) : JsString :=
  if directory = true ∧ rawPath.getLast? = some slash then rawPath.dropLast else rawPath

/-- The chunks that are written into `content`; the checks are made after each. -/
def writeChunks (limits : BundleZipLimits) (uncompressedSize compressedSize : Nat) :
    Bytes → Nat → List Bytes → Option (Bytes × Nat)
  | content, expandedBytes, [] => some (content, expandedBytes)
  | content, expandedBytes, chunk :: chunks =>
    if uncompressedSize < content.length + chunk.length ∨ limits.fileBytes < content.length + chunk.length ∨
        limits.expandedBytes < expandedBytes + chunk.length ∨
        max 1 compressedSize * limits.compressionRatio < content.length + chunk.length then none
    else writeChunks limits uncompressedSize compressedSize (content ++ chunk) (expandedBytes + chunk.length) chunks

/-- An entry on the way to a path is a file, or the path is a file on the way to an entry. -/
def conflicts (paths : List (JsString × Bool)) (path : JsString) (directory : Bool) : Bool :=
  let segments := path.splitOn slash
  ((List.range' 1 (segments.length - 1)).any fun depth =>
    paths.lookup ([slash].intercalate (segments.take depth)) == some false) ||
  (!directory && paths.any fun existing => (path ++ [slash]).isPrefixOf existing.1)

/-- One round of the loop over the entries. -/
def scanEntry (runtime : ZipRuntime) (limits : BundleZipLimits) (archiveSize : Nat)
    (inspectFile : σ → BundleZipFile → Bytes → Option σ) (scan : Scan σ) (entry : ZipEntry) : Option (Scan σ) := do
  guard (scan.entryCount + 1 ≤ limits.entries)
  let rawPath ← decodeText false entry.rawFilename
  guard (rawPath = entry.filename ∧ entry.encrypted = false ∧ entry.symlink = false ∧ entry.diskNumberStart = 0
    ∧ (entry.compressionMethod = 0 ∨ entry.compressionMethod = 8))
  let unixType := (entry.externalFileAttributes >>> 16) &&& 0xf000
  guard (unixType = 0 ∨ unixType = if entry.directory then 0x4000 else 0x8000)
  let path ← validateBundlePath runtime.normalizeNfc (entryPath entry.directory rawPath)
  guard (JsMap.has path scan.paths = false)
  guard (conflicts scan.paths path entry.directory = false)
  let paths := JsMap.set path entry.directory scan.paths
  let uncompressedSize ← safeSize entry.uncompressedSize
  let compressedSize ← safeSize entry.compressedSize
  guard (compressedSize ≤ archiveSize)
  if entry.directory then
    guard (uncompressedSize = 0 ∧ compressedSize = 0)
    pure { scan with paths, entryCount := scan.entryCount + 1 }
  else
    guard (uncompressedSize ≤ limits.fileBytes ∧ uncompressedSize ≤ max 1 compressedSize * limits.compressionRatio
      ∧ scan.expandedBytes + uncompressedSize ≤ limits.expandedBytes)
    let written ← writeChunks limits uncompressedSize compressedSize [] scan.expandedBytes entry.chunks
    guard (entry.dataFails = false ∧ written.1.length = uncompressedSize ∧ entry.warnings = 0)
    let file : BundleZipFile := ⟨path, written.1.length, hexText (runtime.sha256 written.1)⟩
    let seen ← inspectFile scan.seen file written.1
    pure ⟨paths, scan.files ++ [file], scan.entryCount + 1, written.2, seen⟩

/-- The loop over the entries. -/
def scanEntries (runtime : ZipRuntime) (limits : BundleZipLimits) (archiveSize : Nat)
    (inspectFile : σ → BundleZipFile → Bytes → Option σ) (scan : Scan σ) (entries : List ZipEntry) : Option (Scan σ) :=
  entries.foldlM (scanEntry runtime limits archiveSize inspectFile) scan

/-- The files by their paths. -/
def sortFiles (files : List BundleZipFile) : List BundleZipFile :=
  files.insertionSort fun left right => JsString.UnitsLe left.path right.path

/-- The part of `scanBundleZip` that throws `BundleZipError` only. -/
def scanArchive (runtime : ZipRuntime) (limits : BundleZipLimits) (source : ByteSource)
    (inspectFile : σ → BundleZipFile → Bytes → Option σ) (inspectArchive : σ → Nat → σ) (seen : σ) :
    Option (List BundleZipFile × σ) := do
  let archive ← boundedBytes limits.archiveBytes source.fails 0 source.chunks
  let listing := runtime.openZip archive
  let scan ← scanEntries runtime limits archive.length inspectFile ⟨[], [], 0, 0, inspectArchive seen archive.length⟩ listing.entries
  guard (listing.fails = false ∧ scan.files ≠ [] ∧ listing.warnings = 0)
  pure (sortFiles scan.files, scan.seen)

/-- `scanBundleZip`; the callbacks keep what they see in a value. -/
def scanBundleZip (runtime : ZipRuntime) (source : ByteSource) (budgets : BundleZipBudgets)
    (inspectFile : σ → BundleZipFile → Bytes → Option σ) (inspectArchive : σ → Nat → σ) (seen : σ) :
    Except BundleError (List BundleZipFile × σ) := do
  let limits ← bundleZipLimits budgets
  match scanArchive runtime limits source inspectFile inspectArchive seen with
  | none => throw .bundleInvalid
  | some result => pure result

end UniDocs.Bundles
