import UniDocs.Files.FileManifest

/-!
# The tenant file system

A file root is a working copy of the manifest that its catalog entry names: a map from paths to entries that `write`,
`mkdir`, `move`, `copy` and `remove` change in memory, and that `commit` stores as a new manifest. The catalog and the
retention of roots are services that the file system is given; releasing a manifest never makes a call fail and is left out.
-/

namespace UniDocs.Files

open Lib Lib.Cbor UniDocs.Cas UniDocs.Codec UniDocs.Blob

inductive WorkingEntry where
  | directory
  | file (hash : Hash) (size : Int) (mediaType : String)
  deriving DecidableEq

/-- The entries of a root by their paths, without the leading slash. -/
abbrev Entries := List (JsString × WorkingEntry)

structure TenantFileRootInfo where
  rootId : String
  name : JsString
  manifestHash : Hash
  revision : Int
  createdAt : Int
  updatedAt : Int
  deriving DecidableEq

/-- `WorkingRoot`: what `workingRoot` closes over. -/
structure WorkingRoot where
  info : TenantFileRootInfo
  committedName : JsString
  name : JsString
  committedEntries : Entries
  entries : Entries

def workingRoot (info : TenantFileRootInfo) (entries : Entries) : WorkingRoot := ⟨info, info.name, info.name, entries, entries⟩

/-- `sameEntries`; the fields of an entry are always written in one order. -/
def sameEntries (left right : Entries) : Bool :=
  left.length == right.length && left.all fun e => right.lookup e.1 == some e.2

/-! ## Paths -/

def normalizePath (path : JsString) : Except FileError JsString :=
  if path = [slash] then .ok []
  else if path.head? ≠ some slash || path.getLast? = some slash || path.contains 92 || path.any isControl then
    .error (pathFault "Invalid absolute path: " path)
  else if ((path.drop 1).splitOn slash).any isBadSegment then .error (pathFault "Invalid absolute path: " path)
  else .ok (path.drop 1)

def normalizeMutablePath (path : JsString) : Except FileError JsString :=
  match normalizePath path with
  | .error e => .error e
  | .ok [] => .error (fault "The root directory cannot be modified")
  | .ok normalized => .ok normalized

def parentPath (path : JsString) : JsString :=
  if path.contains slash then ((path.reverse.dropWhile fun u => u != slash).drop 1).reverse else []

def hasDescendant (entries : Entries) (path : JsString) : Bool := entries.any fun e => isBelow path e.1

def requireParent (entries : Entries) (path : JsString) : Except FileError Unit :=
  if parentPath path = [] then .ok ()
  else
    match entries.lookup (parentPath path) with
    | some (.file _ _ _) => .error (pathFault "Parent directory not found: /" (parentPath path))
    | some .directory => .ok ()
    | none =>
      if hasDescendant entries (parentPath path) then .ok ()
      else .error (pathFault "Parent directory not found: /" (parentPath path))

/-! ## Changes -/

section Changes

variable (cborg : Cborg) (sha256 : Bytes → Bytes) (client : CasBlobClient)

/-- `write`: the entries after it. -/
def write (entries : Entries) (path : JsString) (source : List Bytes) (options : CasBlobWriteOptions) :
    Except FileError Entries :=
  match normalizeMutablePath path with
  | .error e => .error e
  | .ok normalized =>
    match requireParent entries normalized with
    | .error e => .error e
    | .ok () =>
      if entries.lookup normalized = some .directory || hasDescendant entries normalized then
        .error (pathFault "Path is a directory: " path)
      else
        match storeBlob cborg sha256 client source options with
        | .error e => .error (fault e)
        | .ok (_, stored) => .ok (JsMap.set normalized (.file stored.hash stored.size stored.contentType) entries)

def mkdir (entries : Entries) (path : JsString) : Except FileError Entries :=
  match normalizeMutablePath path with
  | .error e => .error e
  | .ok normalized =>
    match requireParent entries normalized with
    | .error e => .error e
    | .ok () =>
      if JsMap.has normalized entries || hasDescendant entries normalized then
        .error (pathFault "Path already exists: " path)
      else .ok (JsMap.set normalized .directory entries)

/-- The entries below a path. -/
def descendantsOf (entries : Entries) (path : JsString) : Entries := entries.filter fun e => isBelow path e.1

/-- The entry of a source set under a target. -/
def placeEntry (target : JsString) (sourceEntry : Option WorkingEntry) (entries : Entries) : Entries :=
  match sourceEntry with
  | some entry => JsMap.set target entry entries
  | none => entries

/-- The entries of a source set under a target. -/
def placeAt (source target : JsString) (sourceEntry : Option WorkingEntry) (descendants entries : Entries) : Entries :=
  descendants.foldl (fun map e => JsMap.set (target ++ e.1.drop source.length) e.2 map) (placeEntry target sourceEntry entries)

/-- The entries without a source and what is below it. -/
def takeAway (source : JsString) (descendants entries : Entries) : Entries :=
  descendants.foldl (fun map e => JsMap.delete e.1 map) (JsMap.delete source entries)

/-- What `moveOrCopy` asks of a source and a target: the source is there, the target is not inside it and is free. -/
def checkPlaces (entries : Entries) (source target : JsString) (from' to' : JsString) : Except FileError Unit :=
  if (entries.lookup from').isNone && (descendantsOf entries from').isEmpty then .error (pathFault "Path not found: " source)
  else if to' = from' || isBelow from' to' then .error (fault "Cannot place a path inside itself")
  else
    match requireParent entries to' with
    | .error e => .error e
    | .ok () =>
      if JsMap.has to' entries || hasDescendant entries to' then .error (pathFault "Path already exists: " target)
      else .ok ()

def moveOrCopy (entries : Entries) (source target : JsString) (removeSource : Bool) : Except FileError Entries :=
  match normalizeMutablePath source with
  | .error e => .error e
  | .ok from' =>
    match normalizeMutablePath target with
    | .error e => .error e
    | .ok to' =>
      match checkPlaces entries source target from' to' with
      | .error e => .error e
      | .ok () =>
        let placed := placeAt from' to' (entries.lookup from') (descendantsOf entries from') entries
        .ok (if removeSource then takeAway from' (descendantsOf entries from') placed else placed)

def remove (entries : Entries) (path : JsString) : Except FileError Entries :=
  match normalizeMutablePath path with
  | .error e => .error e
  | .ok normalized =>
    if !JsMap.has normalized entries && !hasDescendant entries normalized then .error (pathFault "Path not found: " path)
    else .ok ((JsMap.delete normalized entries).filter fun e => !isBelow normalized e.1)

/-- A call that changes the working copy. -/
inductive Change where
  | write (path : JsString) (source : List Bytes) (options : CasBlobWriteOptions)
  | mkdir (path : JsString)
  | move (source target : JsString)
  | copy (source target : JsString)
  | remove (path : JsString)

/-- The entries after a call. -/
def Change.apply (entries : Entries) : Change → Except FileError Entries
  | .write path source options => Files.write cborg sha256 client entries path source options
  | .mkdir path => Files.mkdir entries path
  | .move source target => moveOrCopy entries source target true
  | .copy source target => moveOrCopy entries source target false
  | .remove path => Files.remove entries path

/-- A call on a root; one that fails changes nothing. -/
def change (root : WorkingRoot) (c : Change) : WorkingRoot :=
  match c.apply cborg sha256 client root.entries with
  | .ok entries => { root with entries }
  | .error _ => root

/-- Calls made one at a time. -/
def changes (root : WorkingRoot) (cs : List Change) : WorkingRoot := cs.foldl (change cborg sha256 client) root

end Changes

/-! ## Committing and opening -/

/-- The entries of a manifest for a list of working entries; a file's reference is its position among the files. -/
def manifestEntries : Int → Entries → List TenantFileManifestEntry
  | _, [] => []
  | ref, (path, .directory) :: rest => .directory path :: manifestEntries ref rest
  | ref, (path, .file _ size mediaType) :: rest => .file path ref size mediaType :: manifestEntries (ref + 1) rest

/-- The blobs of a list of working entries. -/
def fileHashes : Entries → List Hash
  | [] => []
  | (_, .directory) :: rest => fileHashes rest
  | (_, .file hash _ _) :: rest => hash :: fileHashes rest

/-- The entries in locale order. -/
def sortedEntries (localeCompare : JsString → JsString → Int) (entries : Entries) : Entries :=
  entries.insertionSort fun left right => localeCompare left.1 right.1 ≤ 0

/-- `storeManifest`: the node it leases and its hash. -/
def storeManifest (localeCompare : JsString → JsString → Int) (cborg : Cborg) (sha256 : Bytes → Bytes) (entries : Entries) :
    Except FileError (Leases × Hash) :=
  match createFileManifest localeCompare (manifestEntries 0 (sortedEntries localeCompare entries)) with
  | .error e => .error e
  | .ok manifest =>
    match encodeFileManifest cborg manifest with
    | .error e => .error e
    | .ok content =>
      match storeNodeContent sha256 [] content fileManifestContentType (fileHashes (sortedEntries localeCompare entries)) with
      | .error e => .error (fault e)
      | .ok result => .ok result

/-- The services of a commit: retaining a manifest, and the catalog's `update` of an entry at a revision. -/
structure Services where
  retain : Hash → Except FileError Unit
  update : (rootId : String) → (revision : Int) → (name : JsString) → (manifestHash : Hash) → Except FileError TenantFileRootInfo

/-- The manifest that a commit stores, if the entries have changed. -/
def commitManifest (localeCompare : JsString → JsString → Int) (cborg : Cborg) (sha256 : Bytes → Bytes) (root : WorkingRoot) :
    Except FileError (Leases × Hash) :=
  if sameEntries root.entries root.committedEntries then .ok ([], root.info.manifestHash)
  else storeManifest localeCompare cborg sha256 root.entries

/-- `commit`: the nodes it leases and the root after it. -/
def commit (localeCompare : JsString → JsString → Int) (cborg : Cborg) (sha256 : Bytes → Bytes) (services : Services)
    (root : WorkingRoot) : Except FileError (Leases × WorkingRoot) :=
  if root.name = root.committedName && sameEntries root.entries root.committedEntries then .ok ([], root)
  else
    match commitManifest localeCompare cborg sha256 root with
    | .error e => .error e
    | .ok (leases, manifestHash) =>
      match if manifestHash ≠ root.info.manifestHash then services.retain manifestHash else .ok () with
      | .error e => .error e
      | .ok () =>
        match services.update root.info.rootId root.info.revision root.name manifestHash with
        | .error e => .error e
        | .ok updated =>
          .ok (leases, { root with info := updated, committedName := root.name, committedEntries := root.entries })

/-- An entry of a manifest as a working entry. -/
def workingEntry (refs : List (JsString × Hash)) : TenantFileManifestEntry → JsString × WorkingEntry
  | .directory path => (path, .directory)
  | .file path _ size mediaType => (path, .file ((refs.lookup path).getD "") size mediaType)

def loadRoot (cborg : Cborg) (cas : NodeStore) (info : TenantFileRootInfo) : Except FileError WorkingRoot :=
  match cas info.manifestHash with
  | none => .error (fault s!"node not found: {info.manifestHash}")
  | some node =>
    if node.contentType ≠ fileManifestContentType then .error (fault "File root has an unsupported manifest type")
    else
      match decodeFileManifest cborg node.content with
      | .error e => .error e
      | .ok manifest =>
        match fileManifestRefs manifest node.refs with
        | .error e => .error e
        | .ok refs =>
          .ok (workingRoot info (JsMap.ofList (manifest.entries.map (workingEntry refs))))

def openRoot (cborg : Cborg) (cas : NodeStore) (list : List TenantFileRootInfo) (rootId : String) : Except FileError WorkingRoot :=
  match list.find? fun candidate => candidate.rootId == rootId with
  | none => .error (fault s!"File root not found: {rootId}")
  | some info => loadRoot cborg cas info

end UniDocs.Files
