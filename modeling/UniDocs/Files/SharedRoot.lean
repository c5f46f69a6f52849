import UniDocs.Files.FileSystem
import UniDocs.Lib.JsString
import UniDocs.Lib.Machine

/-!
# A root with overlapping calls

The calls on one `TenantFileRoot` share the variables that `workingRoot` closes over. A call runs at once up to its first
`await`; `write` waits for the blob client, and `commit` for the upload of the manifest, its retention and the catalog. What a
call does after a wait happens on the variables as they are then. The entry of the catalog is changed by the commits of this
root only; a service may fail a call, and the catalog may have made an update that it reports as failed.
-/

namespace UniDocs.Files

open Lib Lib.Cbor UniDocs.Cas UniDocs.Codec UniDocs.Blob

/-! ## Names -/

/-- `value.trim()`. -/
def trimUnits (value : JsString) : JsString :=
  ((value.dropWhile JsString.isSpace).reverse.dropWhile JsString.isSpace).reverse

def validateRootName (value : JsString) : Except FileError JsString :=
  if (trimUnits value).length = 0 || 120 < (trimUnits value).length || (trimUnits value).any isControl then
    .error (fault "Root name must be 1-120 characters without controls")
  else .ok (trimUnits value)

/-! ## Calls -/

/-- What a call waits for. A commit has the tree from which it started. -/
inductive Pending where
  | storing (path : JsString) (source : List Bytes) (options : CasBlobWriteOptions)
  | uploading (tree : Entries) (manifestHash : Hash)
  | retaining (tree : Entries) (manifestHash : Hash)
  | updating (tree : Entries) (revision : Int) (name : JsString) (manifestHash : Hash)

/-- The variables of a root, its entry in the catalog, and the calls that are waiting. -/
structure SharedRoot where
  root : WorkingRoot
  catalog : TenantFileRootInfo
  pending : Nat → Option Pending

def WorkingRoot.dirty (root : WorkingRoot) : Bool :=
  !(root.name == root.committedName) || !sameEntries root.entries root.committedEntries

/-- A call of a root. -/
inductive Call where
  | write (path : JsString) (source : List Bytes) (options : CasBlobWriteOptions)
  | mkdir (path : JsString)
  | move (source target : JsString)
  | copy (source target : JsString)
  | remove (path : JsString)
  | rename (name : JsString)
  | commit
  | discard

/-- The answer of the catalog to an update. -/
inductive Answer where
  | done (updatedAt : Int)
  | failed
  | lost (updatedAt : Int)

/-- A call is made, or a service has answered one that waits. -/
inductive FileEvent where
  | call (id : Nat) (call : Call)
  | stored (id : Nat) (ok : Bool)
  | uploaded (id : Nat) (ok : Bool)
  | retained (id : Nat) (ok : Bool)
  | updated (id : Nat) (answer : Answer)

namespace SharedRoot

/-- The entries are changed. -/
def edit (s : SharedRoot) (result : Except FileError Entries) : SharedRoot :=
  match result with
  | .ok entries => { s with root := { s.root with entries } }
  | .error _ => s

/-- A call waits. -/
def wait (s : SharedRoot) (id : Nat) (call : Pending) : SharedRoot :=
  { s with pending := Function.update s.pending id (some call) }

/-- A call waits no longer. -/
def wake (s : SharedRoot) (id : Nat) : SharedRoot := { s with pending := Function.update s.pending id none }

/-- What `write` asks of a path before it stores the blob. -/
def checkWrite (entries : Entries) (path : JsString) : Except FileError JsString :=
  match normalizeMutablePath path with
  | .error e => .error e
  | .ok normalized =>
    match requireParent entries normalized with
    | .error e => .error e
    | .ok () =>
      if entries.lookup normalized = some .directory || hasDescendant entries normalized then
        .error (pathFault "Path is a directory: " path)
      else .ok normalized

/-- A commit asks the catalog for its update, with the revision and the name as they are now. -/
def sendUpdate (s : SharedRoot) (id : Nat) (tree : Entries) (manifestHash : Hash) : SharedRoot :=
  s.wait id (.updating tree s.root.info.revision s.root.name manifestHash)

section Calls

variable (localeCompare : JsString → JsString → Int) (cborg : Cborg) (sha256 : Bytes → Bytes) (client : CasBlobClient)

/-- `commit` up to its first wait. -/
def startCommit (s : SharedRoot) (id : Nat) : SharedRoot :=
  if s.root.dirty then
    if sameEntries s.root.entries s.root.committedEntries then s.sendUpdate id s.root.entries s.root.info.manifestHash
    else
      match storeManifest localeCompare cborg sha256 s.root.entries with
      | .ok (_, manifestHash) => s.wait id (.uploading s.root.entries manifestHash)
      | .error _ => s
  else s

/-- A call up to its first wait. -/
def start (s : SharedRoot) (id : Nat) : Call → SharedRoot
  | .write path source options =>
    match checkWrite s.root.entries path with
    | .ok normalized => s.wait id (.storing normalized source options)
    | .error _ => s
  | .mkdir path => s.edit (Files.mkdir s.root.entries path)
  | .move source target => s.edit (moveOrCopy s.root.entries source target true)
  | .copy source target => s.edit (moveOrCopy s.root.entries source target false)
  | .remove path => s.edit (Files.remove s.root.entries path)
  | .rename name =>
    match validateRootName name with
    | .ok name => { s with root := { s.root with name } }
    | .error _ => s
  | .commit => s.startCommit localeCompare cborg sha256 id
  | .discard => { s with root := { s.root with name := s.root.committedName, entries := s.root.committedEntries } }

/-- The manifest of a commit is stored: it is retained, if it is not the one that the root has. -/
def afterUpload (s : SharedRoot) (id : Nat) (tree : Entries) (manifestHash : Hash) : SharedRoot :=
  if manifestHash ≠ s.root.info.manifestHash then s.wait id (.retaining tree manifestHash) else s.sendUpdate id tree manifestHash

/-- The entry of the catalog after an update. -/
def catalogAfter (s : SharedRoot) (name : JsString) (manifestHash : Hash) (updatedAt : Int) : TenantFileRootInfo :=
  { s.catalog with name, manifestHash, updatedAt, revision := s.catalog.revision + 1 }

/-- The catalog has answered an update; one with a stale revision is refused. -/
def afterUpdate (s : SharedRoot) (revision : Int) (name : JsString) (manifestHash : Hash) : Answer → SharedRoot
  | .done updatedAt =>
    if s.catalog.revision ≠ revision then s
    else
      let updated := s.catalogAfter name manifestHash updatedAt
      { s with
        catalog := updated
        root := { s.root with info := updated, committedName := s.root.name, committedEntries := s.root.entries } }
  | .failed => s
  | .lost updatedAt => if s.catalog.revision ≠ revision then s else { s with catalog := s.catalogAfter name manifestHash updatedAt }

/-- One step of the calls on a root. -/
def step (s : SharedRoot) : FileEvent → SharedRoot
  | .call id call => if (s.pending id).isSome then s else s.start localeCompare cborg sha256 id call
  | .stored id ok =>
    match s.pending id with
    | some (.storing path source options) =>
      if ok then
        match storeBlob cborg sha256 client source options with
        | .ok (_, stored) =>
          (s.wake id).edit (.ok (JsMap.set path (.file stored.hash stored.size stored.contentType) s.root.entries))
        | .error _ => s.wake id
      else s.wake id
    | _ => s
  | .uploaded id ok =>
    match s.pending id with
    | some (.uploading tree manifestHash) => if ok then (s.wake id).afterUpload id tree manifestHash else s.wake id
    | _ => s
  | .retained id ok =>
    match s.pending id with
    | some (.retaining tree manifestHash) => if ok then (s.wake id).sendUpdate id tree manifestHash else s.wake id
    | _ => s
  | .updated id answer =>
    match s.pending id with
    | some (.updating _ revision name manifestHash) => (s.wake id).afterUpdate revision name manifestHash answer
    | _ => s

end Calls

/-- An opened root on which no call has been made. -/
def opened (root : WorkingRoot) : SharedRoot := ⟨root, root.info, fun _ => none⟩

end SharedRoot

/-! ## What a manifest contains -/

/-- The hash of the node of a manifest with exactly these entries, in this order. -/
def manifestHash (cborg : Cborg) (sha256 : Bytes → Bytes) (l : Entries) : Except FileError Hash :=
  match encodeFileManifest cborg ⟨fileManifestVersion, manifestEntries 0 l⟩ with
  | .error e => .error e
  | .ok content =>
    match encodeCanonicalNode fileManifestContentType (fileHashes l) content with
    | .error e => .error (fault e)
    | .ok bytes =>
      match hashToHex (sha256 bytes) with
      | .error e => .error (fault e)
      | .ok hash => .ok hash

/-- A hash names a manifest with exactly these entries. -/
def Names (cborg : Cborg) (sha256 : Bytes → Bytes) (hash : Hash) (entries : Entries) : Prop :=
  ∃ l : Entries, l.Perm entries ∧ manifestHash cborg sha256 l = .ok hash

end UniDocs.Files
