import UniDocs.Lib.Utf16
import UniDocs.Lib.JsMap
import UniDocs.Blob.BlobClient

/-!
# The file manifest

The directories and files of a root as the content of one node: entries sorted by path, a file by the position of its blob
among the references of the node. Paths are strings of code units; `localeCompare` is a parameter, and a string in CBOR is
the text that it stands for.
-/

namespace UniDocs.Files

open Lib Lib.Cbor UniDocs.Cas UniDocs.Codec UniDocs.Blob

def fileManifestContentType : String := "application/vnd.unicas.file-manifest+cbor;version=1"

def fileManifestVersion : Int := 1

def fileManifestMaxFiles : Nat := 256

def fileManifestMaxEntries : Nat := 4096

def fileManifestMaxPathBytes : Nat := 1024

inductive TenantFileManifestEntry where
  | directory (path : JsString)
  | file (path : JsString) (ref : Int) (size : Int) (mediaType : String)
  deriving DecidableEq

/-- The path of an entry. -/
def TenantFileManifestEntry.path : TenantFileManifestEntry → JsString
  | directory path => path
  | file path _ _ _ => path

structure TenantFileManifestV1 where
  version : Int
  entries : List TenantFileManifestEntry
  deriving DecidableEq

/-- The message of a `TypeError`. -/
abbrev FileError := JsString

/-- A message without values. -/
def fault (message : String) : FileError := JsString.ofString message

/-- A message that ends with a path. -/
def pathFault (message : String) (path : JsString) : FileError := JsString.ofString message ++ path

/-! ## Paths -/

/-- `/`. -/
def slash : UInt16 := 47

/-- `[\u0000-\u001f\u007f]`. -/
def isControl (u : UInt16) : Bool := u ≤ 0x1f || u == 0x7f

/-- A segment that no path may have: an empty one, `.` or `..`. -/
def isBadSegment (segment : JsString) : Bool := [[], [46], [46, 46]].contains segment

/-- `path.startsWith(prefix + "/")`. -/
def isBelow (directory path : JsString) : Bool := (directory ++ [slash]).isPrefixOf path

/-- The bytes of a path in UTF-8. -/
def pathBytes (path : JsString) : Nat := (utf8 path.toText).length

def validatePath (path : JsString) : Except FileError Unit :=
  if path = [] || fileManifestMaxPathBytes < pathBytes path then
    .error (fault s!"File path must be 1-{fileManifestMaxPathBytes} UTF-8 bytes")
  else if path.head? = some slash || path.getLast? = some slash || path.contains 92 || path.any isControl then
    .error (pathFault "Invalid file path: " path)
  else if (path.splitOn slash).any isBadSegment then .error (pathFault "Invalid file path: " path)
  else .ok ()

/-! ## Validation -/

/-- What the manifest asks of a file: the reference is the next one, the size a safe integer, the media type printable. -/
def validateFile (fileCount : Nat) (ref size : Int) (mediaType : String) : Except FileError Unit :=
  if ref ≠ fileCount then .error (fault "File manifest file refs must be contiguous in path order")
  else if (maxSafeInteger : Int) < size.natAbs || size < 0 then .error (fault "File size must be a non-negative safe integer")
  else if ¬ IsMediaType mediaType then .error (fault "File media type must be 1-1024 printable ASCII characters")
  else .ok ()

/-- What the manifest asks of the place of an entry: a path, behind the one before and below no file. -/
def validatePlace (previousPath : JsString) (filePaths : List JsString) (path : JsString) : Except FileError Unit :=
  match validatePath path with
  | .error e => .error e
  | .ok () =>
    if ¬ previousPath < path then .error (fault "File manifest entries must be uniquely sorted by path")
    else
      match filePaths.find? fun filePath => isBelow filePath path with
      | some filePath => .error (pathFault "File manifest path descends from file: " filePath)
      | none => .ok ()

/-- The loop of `validateFileManifest` over the entries: it returns the number of files. -/
def validateEntries : JsString → Nat → List JsString → List TenantFileManifestEntry → Except FileError Nat
  | _, fileCount, _, [] => .ok fileCount
  | previousPath, fileCount, filePaths, .directory path :: rest =>
    match validatePlace previousPath filePaths path with
    | .error e => .error e
    | .ok () => validateEntries path fileCount filePaths rest
  | previousPath, fileCount, filePaths, .file path ref size mediaType :: rest =>
    match validatePlace previousPath filePaths path with
    | .error e => .error e
    | .ok () =>
      match validateFile fileCount ref size mediaType with
      | .error e => .error e
      | .ok () => validateEntries path (fileCount + 1) (filePaths ++ [path]) rest

def validateFileManifest (value : TenantFileManifestV1) : Except FileError Unit :=
  if value.version ≠ fileManifestVersion then .error (fault "File manifest version must be 1")
  else if fileManifestMaxEntries < value.entries.length then
    .error (fault s!"File manifest must contain at most {fileManifestMaxEntries} entries")
  else
    match validateEntries [] 0 [] value.entries with
    | .error e => .error e
    | .ok fileCount =>
      if fileManifestMaxFiles < fileCount then .error (fault s!"File manifest must contain at most {fileManifestMaxFiles} files")
      else .ok ()

/-! ## Creation -/

/-- The files of a list of entries numbered from a position on. -/
def renumber : Int → List TenantFileManifestEntry → List TenantFileManifestEntry
  | _, [] => []
  | ref, .directory path :: rest => .directory path :: renumber ref rest
  | ref, .file path _ size mediaType :: rest => .file path ref size mediaType :: renumber (ref + 1) rest

def createFileManifest (localeCompare : JsString → JsString → Int) (entries : List TenantFileManifestEntry) :
    Except FileError TenantFileManifestV1 :=
  let sorted := entries.insertionSort fun left right => localeCompare left.path right.path ≤ 0
  let manifest : TenantFileManifestV1 := ⟨fileManifestVersion, renumber 0 sorted⟩
  match validateFileManifest manifest with
  | .error e => .error e
  | .ok () => .ok manifest

/-! ## Wire format -/

def wireEntry : TenantFileManifestEntry → Item
  | .directory path => .array [.text "d", .text path.toText]
  | .file path ref size mediaType => .array [.text "f", .text path.toText, .int ref, .int size, .text mediaType]

/-- The object that is encoded, with the keys in the order in which the library writes them. -/
def wireManifest (value : TenantFileManifestV1) : Item :=
  .map [("e", .array (value.entries.map wireEntry)), ("v", .int value.version)]

def encodeFileManifest (cborg : Cborg) (value : TenantFileManifestV1) : Except FileError Bytes :=
  match validateFileManifest value with
  | .error e => .error e
  | .ok () => .ok (cborg.encode (wireManifest value))

/-- `typeof value === "number"`. -/
def isNumber : Item → Bool
  | .int _ => true
  | .float _ => true
  | _ => false

def decodeEntry : Item → Except FileError TenantFileManifestEntry
  | .array [.text kind, .text path] =>
    if kind = "d" then .ok (.directory (.ofString path)) else .error (fault "File manifest entry is invalid")
  | .array [.text kind, .text path, ref, size, .text mediaType] =>
    if kind = "f" && isNumber ref && isNumber size then
      .ok (.file (.ofString path) (wireNumber ref) (wireNumber size) mediaType)
    else .error (fault "File manifest entry is invalid")
  | .array _ => .error (fault "File manifest entry is invalid")
  | _ => .error (fault "File manifest entry must be an array")

def decodeFileManifest (cborg : Cborg) (bytes : Bytes) : Except FileError TenantFileManifestV1 :=
  match cborg.decode bytes with
  | .error e => .error (fault e)
  | .ok (.map fields) =>
    if joinedKeys fields ≠ "e,v" then .error (fault "File manifest contains unknown or missing fields")
    else
      match property fields "e" with
      | .array items =>
        match items.mapM decodeEntry with
        | .error e => .error e
        | .ok entries =>
          let manifest : TenantFileManifestV1 := ⟨wireNumber (property fields "v"), entries⟩
          match validateFileManifest manifest with
          | .error e => .error e
          | .ok () =>
            match encodeFileManifest cborg manifest with
            | .error e => .error e
            | .ok canonical =>
              if bytes ≠ canonical then .error (fault "File manifest encoding is not canonical") else .ok manifest
      | _ => .error (fault "File manifest contains unknown or missing fields")
  | .ok (.bytes _) => .error (fault "File manifest contains unknown or missing fields")
  | .ok _ => .error (fault "File manifest must be a CBOR map")

/-- The files among entries: their paths and their references. -/
def fileRefsOf : List TenantFileManifestEntry → List (JsString × Int)
  | [] => []
  | .directory _ :: rest => fileRefsOf rest
  | .file path ref _ _ :: rest => (path, ref) :: fileRefsOf rest

/-- `fileManifestRefs`: the blob of each file. -/
def fileManifestRefs (manifest : TenantFileManifestV1) (refs : List Hash) : Except FileError (List (JsString × Hash)) :=
  match validateFileManifest manifest with
  | .error e => .error e
  | .ok () =>
    if (fileRefsOf manifest.entries).length ≠ refs.length then .error (fault "File manifest refs do not match its file entries")
    else .ok (JsMap.ofList ((fileRefsOf manifest.entries).map fun file => (file.1, refs.getD file.2.toNat "")))

end UniDocs.Files
