import UniDocs.Lemmas.ManifestFormat
import Mathlib.Data.List.GetD
import Mathlib.Data.List.Perm.Subperm

/-!
# Storing the manifest of a file root

A working tree is committed and opened again as it was, when the locale order of its paths is the order of their code units
and none of them has a surrogate without its partner, and only then.
-/

namespace UniDocs.Files

open Lib Lib.Cbor UniDocs.Cas UniDocs.Codec UniDocs.Blob

variable {cborg : Cborg} {sha256 : Bytes → Bytes} {client : CasBlobClient} {localeCompare : JsString → JsString → Int}
  {entries : Entries}

/-! ## Opening a manifest -/

theorem decodeEntry_wellFormed {item : Item} {entry : TenantFileManifestEntry} (h : decodeEntry item = .ok entry) :
    entry.path.IsWellFormed := by
  unfold decodeEntry at h
  split at h
  · split at h
    · cases h
      exact JsString.isWellFormed_iff.mpr ⟨_, rfl⟩
    · cases h
  · split at h
    · cases h
      exact JsString.isWellFormed_iff.mpr ⟨_, rfl⟩
    · cases h
  · cases h
  · cases h

theorem mem_of_decodeEntries {items : List Item} {entries : List TenantFileManifestEntry}
    (h : items.mapM decodeEntry = .ok entries) : ∀ e ∈ entries, ∃ item, decodeEntry item = .ok e := by
  induction items generalizing entries with
  | nil =>
    cases h
    simp
  | cons item items ih =>
    rw [List.mapM_cons] at h
    obtain ⟨entry, hentry, h⟩ := bind_ok_iff.mp h
    obtain ⟨rest, hrest, h⟩ := bind_ok_iff.mp h
    cases h
    intro e he
    rcases List.mem_cons.mp he with rfl | hmem
    · exact ⟨item, hentry⟩
    · exact ih hrest e hmem

variable {manifest : TenantFileManifestV1}

theorem decodeFileManifest_ok {bytes : Bytes}
    (h : decodeFileManifest cborg bytes = .ok manifest) :
    validateFileManifest manifest = .ok () ∧ ∀ e ∈ manifest.entries, e.path.IsWellFormed := by
  rw [decodeFileManifest] at h
  split at h
  · cases h
  · split at h
    · cases h
    split at h
    · split at h
      · cases h
      rename_i entries hentries
      simp only at h
      split at h
      · cases h
      rename_i hvalid
      split at h
      · cases h
      split at h
      · cases h
      cases h
      refine ⟨hvalid, ?_⟩
      intro e he
      obtain ⟨item, hitem⟩ := mem_of_decodeEntries hentries e he
      exact decodeEntry_wellFormed hitem
    · cases h
  · cases h
  · cases h

theorem workingEntry_path (refs : List (JsString × Hash)) (e : TenantFileManifestEntry) : (workingEntry refs e).1 = e.path := by
  cases e <;> rfl

theorem map_workingEntry_paths (refs : List (JsString × Hash)) (es : List TenantFileManifestEntry) :
    (es.map (workingEntry refs)).map Prod.fst = es.map TenantFileManifestEntry.path := by
  rw [List.map_map]
  exact List.map_congr_left fun e _ => workingEntry_path refs e

/-- The references of the files of a manifest are below their number. -/
theorem mem_fileRefsOf {es : List TenantFileManifestEntry} {n : Nat} (h : FilesValid n es) {f : JsString × Int}
    (hf : f ∈ fileRefsOf es) : f.2.toNat < n + (fileRefsOf es).length ∧ f.1 ∈ es.map TenantFileManifestEntry.path := by
  induction es generalizing n with
  | nil => cases hf
  | cons e es ih =>
    cases e with
    | directory path =>
      obtain ⟨hlt, hmem⟩ := ih h hf
      exact ⟨hlt, List.mem_cons_of_mem _ hmem⟩
    | file path ref size mediaType =>
      obtain ⟨rfl, -⟩ := validateFile_ok_iff.mp h.1
      rw [fileRefsOf, List.length_cons]
      rcases List.mem_cons.mp hf with rfl | hrest
      · exact ⟨by simp, List.mem_cons_self⟩
      · obtain ⟨hlt, hmem⟩ := ih h.2 hrest
        exact ⟨by omega, List.mem_cons_of_mem _ hmem⟩

theorem nodup_fileRefsOf {es : List TenantFileManifestEntry} (h : (es.map TenantFileManifestEntry.path).Nodup) :
    ((fileRefsOf es).map Prod.fst).Nodup := by
  refine h.sublist ?_
  clear h
  induction es with
  | nil => exact List.Sublist.refl _
  | cons e es ih =>
    cases e with
    | directory path => exact ih.cons _
    | file path ref size mediaType => exact ih.cons_cons _

theorem mem_fileRefsOf_of_file {es : List TenantFileManifestEntry} {path : JsString} {ref size : Int} {mediaType : String}
    (h : .file path ref size mediaType ∈ es) : (path, ref) ∈ fileRefsOf es := by
  induction es with
  | nil => cases h
  | cons e es ih =>
    rcases List.mem_cons.mp h with rfl | hrest
    · exact List.mem_cons_self
    · cases e with
      | directory path => exact ih hrest
      | file path' ref' size' mediaType' => exact List.mem_cons_of_mem _ (ih hrest)

/-- The map from files to blobs, before it is looked up. -/
def refsMap (es : List TenantFileManifestEntry) (refs : List Hash) : List (JsString × Hash) :=
  (fileRefsOf es).map fun file => (file.1, refs.getD file.2.toNat "")

theorem refsMap_keys (es : List TenantFileManifestEntry) (refs : List Hash) :
    (refsMap es refs).map Prod.fst = (fileRefsOf es).map Prod.fst := by
  rw [refsMap, List.map_map]
  rfl

theorem nodup_of_sorted {paths : List JsString} (h : paths.Pairwise (· < ·)) : paths.Nodup := by
  refine h.imp ?_
  intro a b hlt heq
  subst heq
  exact List.lt_irrefl a hlt

theorem nodup_of_validated (h : validateFileManifest manifest = .ok ()) :
    (manifest.entries.map TenantFileManifestEntry.path).Nodup := by
  obtain ⟨-, -, hafter, -⟩ := validateFileManifest_ok_iff.mp h
  exact nodup_of_sorted (List.pairwise_cons.mp hafter.sorted).2

theorem refsMap_nodup (h : validateFileManifest manifest = .ok ()) (refs : List Hash) :
    ((refsMap manifest.entries refs).map Prod.fst).Nodup := by
  rw [refsMap_keys]
  exact nodup_fileRefsOf (nodup_of_validated h)

theorem fileManifestRefs_ok_iff {refs : List Hash} {map : List (JsString × Hash)} :
    fileManifestRefs manifest refs = .ok map ↔ validateFileManifest manifest = .ok () ∧
      (fileRefsOf manifest.entries).length = refs.length ∧ map = refsMap manifest.entries refs := by
  rw [fileManifestRefs]
  constructor
  · intro h
    split at h
    · cases h
    rename_i hvalid
    split at h
    · cases h
    rename_i hlen
    cases h
    exact ⟨hvalid, Decidable.not_not.mp hlen, JsMap.ofList_eq (refsMap_nodup hvalid refs)⟩
  · rintro ⟨hvalid, hlen, rfl⟩
    rw [hvalid]
    simp only [hlen, ne_eq, not_true_eq_false, if_false]
    exact congrArg Except.ok (JsMap.ofList_eq (refsMap_nodup hvalid refs))

variable {info : TenantFileRootInfo} {root : WorkingRoot}

theorem loadRoot_ok {cas : NodeStore} (h : loadRoot cborg cas info = .ok root) :
    ∃ node manifest, cas info.manifestHash = some node ∧ decodeFileManifest cborg node.content = .ok manifest ∧
      (fileRefsOf manifest.entries).length = node.refs.length ∧
      root = workingRoot info (manifest.entries.map (workingEntry (refsMap manifest.entries node.refs))) := by
  rw [loadRoot] at h
  split at h
  · cases h
  rename_i node hnode
  split at h
  · cases h
  split at h
  · cases h
  rename_i manifest hmanifest
  split at h
  · cases h
  rename_i refs hrefs
  obtain ⟨hvalid, hlen, rfl⟩ := fileManifestRefs_ok_iff.mp hrefs
  cases h
  have hnodup : ((manifest.entries.map (workingEntry (refsMap manifest.entries node.refs))).map Prod.fst).Nodup := by
    rw [map_workingEntry_paths]
    exact nodup_of_validated hvalid
  exact ⟨node, manifest, hnode, hmanifest, hlen, by rw [JsMap.ofList_eq hnodup]⟩

theorem loadRoot_kept {cas : NodeStore} (hcas : ∀ hash node, cas hash = some node → ∀ ref ∈ node.refs, IsHash ref)
    (h : loadRoot cborg cas info = .ok root) :
    Kept root.entries ∧ root.committedEntries = root.entries ∧ root.name = root.committedName ∧ root.info = info ∧
      ∀ e ∈ root.entries, e.1.IsWellFormed := by
  obtain ⟨node, manifest, hnode, hmanifest, hlen, rfl⟩ := loadRoot_ok h
  obtain ⟨hvalid, hwell⟩ := decodeFileManifest_ok hmanifest
  obtain ⟨-, -, hafter, -⟩ := validateFileManifest_ok_iff.mp hvalid
  have hfits := entryFits_of_validated hvalid
  refine ⟨⟨?_, ?_, ?_, ?_⟩, rfl, rfl, rfl, ?_⟩
  · show ((manifest.entries.map _).map Prod.fst).Nodup
    rw [map_workingEntry_paths]
    exact nodup_of_validated hvalid
  · intro e he
    obtain ⟨entry, hentry, rfl⟩ := List.mem_map.mp he
    rw [workingEntry_path]
    exact (hafter.paths entry hentry).1
  · intro e he
    obtain ⟨entry, hentry, rfl⟩ := List.mem_map.mp he
    cases entry with
    | directory path => exact trivial
    | file path ref size mediaType =>
      obtain ⟨-, -, hsize, hmedia⟩ := hfits _ hentry
      have hmem := mem_fileRefsOf_of_file hentry
      have hlookup : (refsMap manifest.entries node.refs).lookup path = some (node.refs.getD ref.toNat "") := by
        rw [JsMap.lookup_iff (refsMap_nodup hvalid _)]
        exact List.mem_map.mpr ⟨_, hmem, rfl⟩
      have hlt : ref.toNat < node.refs.length := by
        have hbound := (mem_fileRefsOf hafter.files hmem).1
        simp only [Nat.zero_add] at hbound
        omega
      have hhash : IsHash (node.refs.getD ref.toNat "") := by
        rw [List.getD_eq_getElem _ _ hlt]
        exact hcas _ _ hnode _ (List.getElem_mem hlt)
      show ValidEntry (.file (((refsMap manifest.entries node.refs).lookup path).getD "") size mediaType)
      rw [hlookup]
      exact ⟨hhash, hsize.1, hsize.2, hmedia⟩
  · intro f hf hfile e he
    obtain ⟨f', hf', rfl⟩ := List.mem_map.mp hf
    obtain ⟨e', he', rfl⟩ := List.mem_map.mp he
    rw [workingEntry_path, workingEntry_path]
    refine hafter.below f' hf' ?_ e' he'
    cases f' with
    | directory path => cases hfile
    | file path ref size mediaType => rfl
  · intro e he
    obtain ⟨entry, hentry, rfl⟩ := List.mem_map.mp he
    rw [workingEntry_path]
    exact hwell entry hentry

/-! ## A manifest as it was stored -/

/-- The files among entries and their blobs. -/
def fileBlobs : Entries → List (JsString × Hash)
  | [] => []
  | (_, .directory) :: rest => fileBlobs rest
  | (path, .file hash _ _) :: rest => (path, hash) :: fileBlobs rest

theorem mem_fileBlobs {l : Entries} {path : JsString} {hash : Hash} {size : Int} {mediaType : String}
    (h : (path, .file hash size mediaType) ∈ l) : (path, hash) ∈ fileBlobs l := by
  induction l with
  | nil => cases h
  | cons e l ih =>
    rcases List.mem_cons.mp h with rfl | hrest
    · exact List.mem_cons_self
    · obtain ⟨path', value⟩ := e
      cases value with
      | directory => exact ih hrest
      | file hash' size' mediaType' => exact List.mem_cons_of_mem _ (ih hrest)

theorem refsMap_manifestEntries (l : Entries) : refsMap (manifestEntries 0 l) (fileHashes l) = fileBlobs l := by
  have hgeneral : ∀ (l : Entries) (before : List Hash),
      refsMap (manifestEntries before.length l) (before ++ fileHashes l) = fileBlobs l := by
    intro l
    induction l with
    | nil => exact fun _ => rfl
    | cons e l ih =>
      intro before
      obtain ⟨path, value⟩ := e
      cases value with
      | directory => exact ih before
      | file hash size mediaType =>
        have hrest := ih (before ++ [hash])
        rw [List.length_append, List.length_singleton, List.append_assoc, List.singleton_append] at hrest
        have hhead : (before ++ hash :: fileHashes l).getD (before.length : Int).toNat "" = hash := by
          simp
        rw [refsMap, manifestEntries, fileRefsOf, List.map_cons, fileBlobs, fileHashes]
        rw [refsMap] at hrest
        simp only [hhead]
        exact congrArg ((path, hash) :: ·) hrest
  exact hgeneral l []

theorem map_workingEntry_manifestEntries {refs : List (JsString × Hash)} (n : Int) {l : Entries}
    (h : ∀ path hash size mediaType, (path, .file hash size mediaType) ∈ l → refs.lookup path = some hash) :
    (manifestEntries n l).map (workingEntry refs) = l := by
  induction l generalizing n with
  | nil => rfl
  | cons e l ih =>
    have hrest : ∀ path hash size mediaType, (path, .file hash size mediaType) ∈ l → refs.lookup path = some hash :=
      fun path hash size mediaType hmem => h path hash size mediaType (List.mem_cons_of_mem _ hmem)
    obtain ⟨path, value⟩ := e
    cases value with
    | directory => exact congrArg (_ :: ·) (ih n hrest)
    | file hash size mediaType =>
      rw [manifestEntries, List.map_cons, ih (n + 1) hrest, workingEntry, h path hash size mediaType List.mem_cons_self]
      rfl

theorem loadRoot_stored (hrfc : cborg.Rfc8949) {l : Entries} (hvalid : validateFileManifest (manifestOf l) = .ok ())
    (hwell : ∀ e ∈ l, e.1.IsWellFormed) {cas : NodeStore}
    (hcas : cas info.manifestHash =
      some ⟨fileManifestContentType, fileHashes l, encodeTokens (wireManifest (manifestOf l)).tokens⟩) :
    loadRoot cborg cas info = .ok (workingRoot info l) := by
  have hdecode := decodeFileManifest_encode hrfc hvalid fun e he => by
    obtain ⟨e', he', hpath, -⟩ := mem_manifestEntries he
    rw [hpath]
    exact hwell e' he'
  have hpaths : (l.map Prod.fst).Nodup := by
    rw [← manifestEntries_paths 0 l]
    exact nodup_of_validated hvalid
  have hlookup : ∀ path hash size mediaType, (path, .file hash size mediaType) ∈ l →
      (fileBlobs l).lookup path = some hash := by
    intro path hash size mediaType hmem
    have hnodup := refsMap_nodup hvalid (fileHashes l)
    have hblobs : refsMap (manifestOf l).entries (fileHashes l) = fileBlobs l := refsMap_manifestEntries l
    rw [hblobs] at hnodup
    rw [JsMap.lookup_iff hnodup]
    exact mem_fileBlobs hmem
  have hrefs : fileManifestRefs (manifestOf l) (fileHashes l) = .ok (fileBlobs l) :=
    fileManifestRefs_ok_iff.mpr ⟨hvalid, length_fileRefsOf 0 l, (refsMap_manifestEntries l).symm⟩
  have hentries : (manifestOf l).entries.map (workingEntry (fileBlobs l)) = l := map_workingEntry_manifestEntries 0 hlookup
  rw [loadRoot, hcas]
  simp only [ne_eq, not_true_eq_false, if_false, hdecode, hrefs, hentries, JsMap.ofList_eq hpaths]

/-! ## Storing -/

/-- What the comparator of a sort must be: of two strings one is not behind the other, and being not behind is transitive. -/
structure Consistent (localeCompare : JsString → JsString → Int) : Prop where
  total : ∀ a b, localeCompare a b ≤ 0 ∨ localeCompare b a ≤ 0
  trans : ∀ a b c, localeCompare a b ≤ 0 → localeCompare b c ≤ 0 → localeCompare a c ≤ 0

/-- The limits of a manifest. -/
structure Fits (entries : Entries) : Prop where
  count : entries.length ≤ fileManifestMaxEntries
  files : (fileHashes entries).length ≤ fileManifestMaxFiles
  bytes : ∀ e ∈ entries, pathBytes e.1 ≤ fileManifestMaxPathBytes

/-- The locale order says of two paths what the order of their code units says. -/
def OrdersAgree (localeCompare : JsString → JsString → Int) (entries : Entries) : Prop :=
  (entries.map Prod.fst).Pairwise fun a b => localeCompare a b ≤ 0 ↔ a < b

theorem sortedEntries_perm (localeCompare : JsString → JsString → Int) (entries : Entries) :
    (sortedEntries localeCompare entries).Perm entries := List.perm_insertionSort _ _

theorem sortedEntries_sorted_iff (hlc : Consistent localeCompare) (h : (entries.map Prod.fst).Nodup) :
    ((sortedEntries localeCompare entries).map Prod.fst).Pairwise (· < ·) ↔ OrdersAgree localeCompare entries := by
  rw [OrdersAgree, List.pairwise_map, List.pairwise_map, sortedEntries]
  refine StableSort.pairwise_insertionSort_iff (fun a b => hlc.total a.1 b.1) (fun a b c => hlc.trans a.1 b.1 c.1)
    (fun a b => lt_asymm_path) ?_
  exact (List.pairwise_map.mp h).imp fun hne => lt_or_gt_path hne

theorem length_fileHashes_perm {l l' : Entries} (h : l.Perm l') : (fileHashes l).length = (fileHashes l').length := by
  have hcount : ∀ l : Entries, (fileHashes l).length = l.countP fun e => e.2.isFile := by
    intro l
    induction l with
    | nil => rfl
    | cons e l ih =>
      obtain ⟨path, value⟩ := e
      cases value with
      | directory =>
        rw [fileHashes, ih, List.countP_cons]
        rfl
      | file hash size mediaType =>
        rw [fileHashes, List.length_cons, ih, List.countP_cons]
        rfl
  rw [hcount, hcount, h.countP_eq]

theorem mem_fileHashes {l : Entries} (h : ∀ e ∈ l, ValidEntry e.2) : ∀ ref ∈ fileHashes l, IsHash ref := by
  induction l with
  | nil => simp [fileHashes]
  | cons e l ih =>
    obtain ⟨path, value⟩ := e
    have hrest := ih fun e he => h e (List.mem_cons_of_mem _ he)
    cases value with
    | directory => exact hrest
    | file hash size mediaType =>
      intro ref href
      rcases List.mem_cons.mp href with rfl | hmem
      · exact (h _ List.mem_cons_self).1
      · exact hrest ref hmem

theorem validate_sortedEntries (hlc : Consistent localeCompare) (h : Kept entries) (hfits : Fits entries) :
    validateFileManifest (manifestOf (sortedEntries localeCompare entries)) = .ok () ↔ OrdersAgree localeCompare entries := by
  have hperm := sortedEntries_perm localeCompare entries
  have hkept : Kept (sortedEntries localeCompare entries) :=
    ⟨((hperm.map Prod.fst).nodup_iff).mpr h.nodup, fun e he => h.paths e (hperm.mem_iff.mp he),
      fun e he => h.values e (hperm.mem_iff.mp he),
      fun f hf hfile e he => h.below f (hperm.mem_iff.mp hf) hfile e (hperm.mem_iff.mp he)⟩
  have hafter := validAfter_manifestEntries hkept fun e he => hfits.bytes e (hperm.mem_iff.mp he)
  have hcount : (manifestEntries 0 (sortedEntries localeCompare entries)).length ≤ fileManifestMaxEntries := by
    have hlen := congrArg List.length (manifestEntries_paths 0 (sortedEntries localeCompare entries))
    rw [List.length_map, List.length_map, hperm.length_eq] at hlen
    rw [hlen]
    exact hfits.count
  have hfiles : (fileRefsOf (manifestEntries 0 (sortedEntries localeCompare entries))).length ≤ fileManifestMaxFiles := by
    rw [length_fileRefsOf, length_fileHashes_perm hperm]
    exact hfits.files
  rw [validateFileManifest_ok_iff, ← sortedEntries_sorted_iff hlc h.nodup, ← hafter]
  exact ⟨fun hvalid => hvalid.2.2.1, fun hvalid => ⟨rfl, hcount, hvalid, hfiles⟩⟩

/-- The node of the manifest of some entries. -/
def manifestNode (l : Entries) : StoredNode :=
  ⟨fileManifestContentType, fileHashes l, encodeTokens (wireManifest (manifestOf l)).tokens⟩

theorem storeManifest_iff (hrfc : cborg.Rfc8949) (hsha : ∀ bytes, (sha256 bytes).length = hashSize)
    (hlc : Consistent localeCompare) (h : Kept entries) (hfits : Fits entries) :
    (OrdersAgree localeCompare entries → ∃ hash, storeManifest localeCompare cborg sha256 entries =
      .ok ([(hash, manifestNode (sortedEntries localeCompare entries))], hash)) ∧
    (¬ OrdersAgree localeCompare entries → ∃ e, storeManifest localeCompare cborg sha256 entries = .error e) := by
  have hperm := sortedEntries_perm localeCompare entries
  have hpairs : (sortedEntries localeCompare entries).Pairwise fun a b => localeCompare a.1 b.1 ≤ 0 := by
    have htotal : Std.Total fun a b : JsString × WorkingEntry => localeCompare a.1 b.1 ≤ 0 := ⟨fun a b => hlc.total a.1 b.1⟩
    have htrans : IsTrans (JsString × WorkingEntry) fun a b => localeCompare a.1 b.1 ≤ 0 :=
      ⟨fun a b c => hlc.trans a.1 b.1 c.1⟩
    exact List.pairwise_insertionSort _ _
  rw [← validate_sortedEntries hlc h hfits, storeManifest]
  refine ⟨fun hvalid => ?_, fun hinvalid => ?_⟩
  · have hcreate := (createFileManifest_sorted hpairs).mpr ⟨hvalid, rfl⟩
    have hlen := length_wireManifest_le hvalid
    have hrefs : (fileHashes (sortedEntries localeCompare entries)).length ≤ maxNodeRefs := by
      rw [length_fileHashes_perm hperm]
      exact hfits.files
    have hhashes : ∀ ref ∈ fileHashes (sortedEntries localeCompare entries), IsHash ref :=
      mem_fileHashes fun e he => h.values e (hperm.mem_iff.mp he)
    have htotal : headerSize + fileManifestContentType.length + (fileHashes (sortedEntries localeCompare entries)).length * hashSize +
        (encodeTokens (wireManifest (manifestOf (sortedEntries localeCompare entries))).tokens).length ≤ Codec.maxCanonicalNodeBytes := by
      have hname : fileManifestContentType.length ≤ 1024 := by decide
      simp only [maxNodeRefs] at hrefs
      simp only [headerSize, hashSize, Codec.maxCanonicalNodeBytes]
      omega
    obtain ⟨hash, -, hstore⟩ := storeNodeContent_ok hsha ⟨fileManifestContentType, _, _, by decide, by decide, hrefs, hhashes, htotal⟩ []
    exact ⟨hash, by simp only [hcreate, encodeFileManifest_ok hrfc hvalid, hstore, List.nil_append, manifestNode]⟩
  · cases hcreate : createFileManifest localeCompare (manifestEntries 0 (sortedEntries localeCompare entries)) with
    | error e => exact ⟨e, rfl⟩
    | ok manifest => exact absurd ((createFileManifest_sorted hpairs).mp hcreate).1 hinvalid

/-! ## Committing and opening again -/

/-- The services of a commit do what they are asked. -/
def Accepts (services : Services) : Prop :=
  (∀ hash, services.retain hash = .ok ()) ∧ ∀ rootId revision name manifestHash, ∃ info,
    services.update rootId revision name manifestHash = .ok info ∧ info.rootId = rootId ∧ info.manifestHash = manifestHash

/-- Where the catalog lists an entry, opening its root yields the same map. -/
def Opens (cborg : Cborg) (cas : NodeStore) (info : TenantFileRootInfo) (entries : Entries) : Prop :=
  ∀ list : List TenantFileRootInfo, (list.find? fun candidate => candidate.rootId == info.rootId) = some info →
    ∃ opened, openRoot cborg cas list info.rootId = .ok opened ∧ ∀ path, opened.entries.lookup path = entries.lookup path

/-- A commit stores a manifest, and the root is opened from it as it was, in every store that returns what was leased. -/
def Storable (localeCompare : JsString → JsString → Int) (cborg : Cborg) (sha256 : Bytes → Bytes) (root : WorkingRoot) : Prop :=
  ∀ services, Accepts services → ∃ leases root', commit localeCompare cborg sha256 services root = .ok (leases, root') ∧
    ∀ cas, Returns cas leases → Opens cborg cas root'.info root.entries

theorem openRoot_listed {cas : NodeStore} {list : List TenantFileRootInfo}
    (h : (list.find? fun candidate => candidate.rootId == info.rootId) = some info) :
    openRoot cborg cas list info.rootId = loadRoot cborg cas info := by
  rw [openRoot, h]

/-- Entries that `sameEntries` finds equal are the same in another order. -/
theorem perm_of_sameEntries {left right : Entries} (h : sameEntries left right = true) (hleft : (left.map Prod.fst).Nodup)
    (hright : (right.map Prod.fst).Nodup) : left.Perm right := by
  rw [sameEntries, Bool.and_eq_true, beq_iff_eq, List.all_eq_true] at h
  obtain ⟨hlen, hall⟩ := h
  have hsub : left ⊆ right := by
    intro e he
    exact (JsMap.lookup_iff hright).mp (by simpa using hall e he)
  exact (List.subperm_of_subset (List.Nodup.of_map _ hleft) hsub).perm_of_length_le (by omega)

theorem lookup_sameEntries {left right : Entries} (h : sameEntries left right = true) (hleft : (left.map Prod.fst).Nodup)
    (hright : (right.map Prod.fst).Nodup) (path : JsString) : right.lookup path = left.lookup path :=
  (JsMap.lookup_perm hleft (perm_of_sameEntries h hleft hright) path).symm

/-- Services that do what they are asked. -/
def grantingServices : Services where
  retain _ := .ok ()
  update rootId revision name manifestHash := .ok ⟨rootId, name, manifestHash, revision + 1, 0, 0⟩

theorem grantingServices_accept : Accepts grantingServices := ⟨fun _ => rfl, fun _ _ _ _ => ⟨_, rfl, rfl, rfl⟩⟩

theorem commit_changed {services : Services} (hservices : Accepts services)
    (hchanged : sameEntries root.entries root.committedEntries = false) {leases : Leases} {hash : Hash}
    (hstore : storeManifest localeCompare cborg sha256 root.entries = .ok (leases, hash)) :
    ∃ root', commit localeCompare cborg sha256 services root = .ok (leases, root') ∧ root'.info.manifestHash = hash := by
  obtain ⟨updated, hupdate, -, hhash⟩ := hservices.2 root.info.rootId root.info.revision root.name hash
  have hretain : (if hash ≠ root.info.manifestHash then services.retain hash else .ok ()) = .ok () := by
    split
    · exact hservices.1 hash
    · rfl
  have hmanifest : commitManifest localeCompare cborg sha256 root = .ok (leases, hash) := by
    rw [commitManifest, hchanged]
    exact hstore
  rw [commit, hchanged, Bool.and_false, hmanifest]
  simp only [Bool.false_eq_true, if_false, hretain, hupdate]
  exact ⟨_, rfl, hhash⟩

theorem commit_changed_error {services : Services}
    (hchanged : sameEntries root.entries root.committedEntries = false) {e : FileError}
    (hstore : storeManifest localeCompare cborg sha256 root.entries = .error e) :
    commit localeCompare cborg sha256 services root = .error e := by
  have hmanifest : commitManifest localeCompare cborg sha256 root = .error e := by
    rw [commitManifest, hchanged]
    exact hstore
  rw [commit, hchanged, Bool.and_false, hmanifest]
  rfl

/-- A changed tree that is well made can be stored and opened again exactly when the two orders agree on its paths and none
of them has a surrogate without its partner. -/
theorem storable_changed_iff (hrfc : cborg.Rfc8949) (hsha : ∀ bytes, (sha256 bytes).length = hashSize)
    (hlc : Consistent localeCompare) (h : Kept root.entries) (hfits : Fits root.entries)
    (hchanged : sameEntries root.entries root.committedEntries = false) :
    Storable localeCompare cborg sha256 root ↔
      OrdersAgree localeCompare root.entries ∧ ∀ e ∈ root.entries, e.1.IsWellFormed := by
  obtain ⟨hok, herror⟩ := @storeManifest_iff cborg sha256 localeCompare root.entries hrfc hsha hlc h hfits
  have hperm := sortedEntries_perm localeCompare root.entries
  constructor
  · intro hstorable
    obtain ⟨leases, root', hcommit, hopens⟩ := hstorable grantingServices grantingServices_accept
    have hagree : OrdersAgree localeCompare root.entries := by
      by_contra hnot
      obtain ⟨e, he⟩ := herror hnot
      rw [commit_changed_error hchanged he] at hcommit
      cases hcommit
    refine ⟨hagree, ?_⟩
    intro e he
    obtain ⟨hash, hstore⟩ := hok hagree
    obtain ⟨root'', hcommit', -⟩ := commit_changed grantingServices_accept hchanged hstore
    rw [hcommit'] at hcommit
    cases hcommit
    -- What is opened has well formed paths, and the path is among them.
    obtain ⟨opened, hopen, hsame⟩ := hopens _ (returns_lookup (by simp)) [root'.info] (by simp)
    rw [openRoot_listed (by simp)] at hopen
    obtain ⟨node, manifest, -, hmanifest, -, rfl⟩ := loadRoot_ok hopen
    have hlookup := hsame e.1
    rw [(JsMap.lookup_iff h.nodup).mpr (show (e.1, e.2) ∈ root.entries from he)] at hlookup
    obtain ⟨hvalid, hwell⟩ := decodeFileManifest_ok hmanifest
    have hnodup : ((manifest.entries.map (workingEntry (refsMap manifest.entries node.refs))).map Prod.fst).Nodup := by
      rw [map_workingEntry_paths]
      exact nodup_of_validated hvalid
    obtain ⟨entry, hentry, heq⟩ := List.mem_map.mp ((JsMap.lookup_iff hnodup).mp hlookup)
    have hpath := congrArg Prod.fst heq
    rw [workingEntry_path] at hpath
    rw [← hpath]
    exact hwell entry hentry
  · rintro ⟨hagree, hwell⟩ services hservices
    obtain ⟨hash, hstore⟩ := hok hagree
    obtain ⟨root', hcommit, hhash⟩ := commit_changed hservices hchanged hstore
    refine ⟨_, root', hcommit, ?_⟩
    intro cas hreturns list hlist
    have hcas : cas root'.info.manifestHash = some (manifestNode (sortedEntries localeCompare root.entries)) := by
      rw [hhash]
      exact hreturns _ _ List.mem_cons_self
    have hload := loadRoot_stored hrfc ((validate_sortedEntries hlc h hfits).mpr hagree)
      (fun e he => hwell e (hperm.mem_iff.mp he)) hcas
    refine ⟨_, (openRoot_listed hlist).trans hload, ?_⟩
    intro path
    exact (JsMap.lookup_perm h.nodup hperm.symm path).symm

/-- Any calls on an opened root. If they leave the tree as it was committed, a commit stores nothing and the root is opened
as it is. Otherwise the tree can be stored and opened again exactly when the locale order of its paths is the order of their
code units and none of them has a surrogate without its partner. -/
theorem manifest_storable {cborg : Cborg} (hrfc : cborg.Rfc8949) {sha256 : Bytes → Bytes}
    (hsha : ∀ bytes, (sha256 bytes).length = hashSize) (client : CasBlobClient) {localeCompare : JsString → JsString → Int}
    (hlc : Consistent localeCompare) {cas : NodeStore}
    (hcas : ∀ hash node, cas hash = some node → ∀ ref ∈ node.refs, IsHash ref) {info : TenantFileRootInfo} {root : WorkingRoot}
    (hload : loadRoot cborg cas info = .ok root) (cs : List Change)
    (hfits : Fits (changes cborg sha256 client root cs).entries) :
    (sameEntries (changes cborg sha256 client root cs).entries root.entries = true → ∀ services,
      commit localeCompare cborg sha256 services (changes cborg sha256 client root cs) =
        .ok ([], changes cborg sha256 client root cs) ∧
      ∀ cas' : NodeStore, cas' info.manifestHash = cas info.manifestHash →
        Opens cborg cas' (changes cborg sha256 client root cs).info (changes cborg sha256 client root cs).entries) ∧
    (sameEntries (changes cborg sha256 client root cs).entries root.entries = false →
      (Storable localeCompare cborg sha256 (changes cborg sha256 client root cs) ↔
        OrdersAgree localeCompare (changes cborg sha256 client root cs).entries ∧
          ∀ e ∈ (changes cborg sha256 client root cs).entries, e.1.IsWellFormed)) := by
  obtain ⟨hroot, hcommitted, hname, rfl, -⟩ := loadRoot_kept hcas hload
  have hkept := @changes_kept cborg sha256 client hrfc hsha cs root hroot
  have hframe := @changes_frame cborg sha256 client cs root
  generalize changes cborg sha256 client root cs = tree at hkept hframe hfits
  have hinfo : tree.info = root.info := by rw [hframe]
  have hcommitted' : tree.committedEntries = root.entries := by rw [hframe, ← hcommitted]
  have hname' : tree.name = tree.committedName := by
    rw [hframe]
    exact hname
  refine ⟨?_, ?_⟩
  · intro hsame services
    refine ⟨?_, ?_⟩
    · rw [commit, hcommitted', hsame, if_pos (by simp [hname'])]
    · intro cas' hcas' list hlist
      rw [hinfo] at hlist ⊢
      have hload' : loadRoot cborg cas' root.info = .ok root := by
        rw [loadRoot, hcas', ← loadRoot]
        exact hload
      exact ⟨root, (openRoot_listed hlist).trans hload', lookup_sameEntries hsame hkept.nodup hroot.nodup⟩
  · intro hchanged
    rw [← hcommitted'] at hchanged
    exact storable_changed_iff hrfc hsha hlc hkept hfits hchanged

/-! ## Small trees -/

/-- `a` to `z` for `A` to `Z`. -/
def lowerUnit (u : UInt16) : UInt16 := if 65 ≤ u && u ≤ 90 then u + 32 else u

/-- An order that does not tell capital letters from small ones, as the locale order at its first level. -/
def foldedCompare (a b : JsString) : Int :=
  if b.map lowerUnit < a.map lowerUnit then 1 else if a.map lowerUnit < b.map lowerUnit then -1 else 0

theorem foldedCompare_le {a b : JsString} : foldedCompare a b ≤ 0 ↔ ¬ b.map lowerUnit < a.map lowerUnit := by
  rw [foldedCompare]
  split
  · simp_all
  · split <;> simp_all

theorem foldedCompare_consistent : Consistent foldedCompare where
  total a b := by
    rw [foldedCompare_le, foldedCompare_le]
    by_cases h : b.map lowerUnit < a.map lowerUnit
    · exact .inr (lt_asymm_path h)
    · exact .inl h
  trans a b c hab hbc := by
    rw [foldedCompare_le] at *
    exact List.le_trans hab hbc

/-- The nodes of the small trees: the manifests of no entry, of a file and a directory, and of directories, and the file. -/
def fileNodes : List (Bytes × Nat) :=
  [((manifestNode []).content, 0x5e93280041cae18198ba29cdefebb4210cf2cdb8f0867e75d00b7ca7d4635ac4),
    ((manifestNode [([97], .file "" 1 "text/plain"), ([98], .directory)]).content,
      0x6a5d166ad6eaec7be6b132dbe10c832e154e5b68ede8422218c403365b847db5),
    ((manifestNode [([97], .directory)]).content, 0x10a004f5aa0926323b431bfd9cc33f3188eb96b1cd4f0e7172636d311909d41a),
    ((manifestNode [([97], .directory), ([0xd800], .directory)]).content,
      0x42ba2b71a05febbf54674c4e2031fa6d56bd5c34aa6b6c6d9efff37440741395),
    ([1], 0xcbdfc9205ffd7fb93413280c0e3c72566e3e9bf29c97dd3ca538d42597c6bbe7)]

def fileDigest : Bytes → Bytes := nodeDigest fileNodes

theorem length_fileDigest (bytes : Bytes) : (fileDigest bytes).length = hashSize := length_nodeDigest _ bytes

/-- The hash of the empty manifest. -/
def emptyHash : Hash := "5e93280041cae18198ba29cdefebb4210cf2cdb8f0867e75d00b7ca7d4635ac4"

/-- The catalog's entry of an empty root. -/
def smallInfo : TenantFileRootInfo := ⟨"root", [97], emptyHash, 1, 0, 0⟩

/-- A store with the empty manifest. -/
def smallCas : NodeStore := fun hash => if hash = emptyHash then some (manifestNode []) else none

theorem smallCas_refs : ∀ hash node, smallCas hash = some node → ∀ ref ∈ node.refs, IsHash ref := by
  intro hash node hnode ref href
  rw [smallCas] at hnode
  split at hnode
  · cases hnode
    cases href
  · cases hnode

theorem loadRoot_small : loadRoot referenceCborg smallCas smallInfo = .ok (workingRoot smallInfo []) :=
  loadRoot_stored referenceCborg_rfc8949 (by decide) (by simp) (if_pos rfl)

/-- The empty root after changes. -/
def smallTree (cs : List Change) : WorkingRoot := changes referenceCborg fileDigest smallClient (workingRoot smallInfo []) cs

/-- A directory and a file, in the order in which they do not stand in the manifest. -/
def directoryAndFile : List Change := [.mkdir [slash, 98], .write [slash, 97] [[1]] { contentType := "text/plain" }]

theorem entries_directoryAndFile : (smallTree directoryAndFile).entries = [([98], .directory),
    ([97], .file "cbdfc9205ffd7fb93413280c0e3c72566e3e9bf29c97dd3ca538d42597c6bbe7" 1 "text/plain")] := by
  with_unfolding_all decide

/-- The directory `/b` and the file `/a` are stored and opened again. -/
theorem manifest_storable_small : Storable foldedCompare referenceCborg fileDigest (smallTree directoryAndFile) := by
  have hfits : Fits (smallTree directoryAndFile).entries := by
    rw [entries_directoryAndFile]
    exact ⟨by decide, by decide, by decide⟩
  have hchanged : sameEntries (smallTree directoryAndFile).entries [] = false := by
    rw [entries_directoryAndFile]
    decide
  refine ((manifest_storable referenceCborg_rfc8949 length_fileDigest smallClient foldedCompare_consistent
    smallCas_refs loadRoot_small directoryAndFile hfits).2 hchanged).mpr ?_
  show OrdersAgree foldedCompare (smallTree directoryAndFile).entries ∧
    ∀ e ∈ (smallTree directoryAndFile).entries, e.1.IsWellFormed
  rw [entries_directoryAndFile]
  exact ⟨by unfold OrdersAgree; decide, by decide⟩

/-- The empty root with two directories. -/
def twoDirectories (first second : JsString) : WorkingRoot := smallTree [.mkdir first, .mkdir second]

theorem loneSurrogate_not_wellFormed : ¬ JsString.IsWellFormed [0xd800] := by decide

/-- `/a` and `/B` are not stored, and `/` with a surrogate alone is not opened as it was. -/
theorem manifest_storable_false :
    (¬ ∀ first second, Fits (twoDirectories first second).entries →
      sameEntries (twoDirectories first second).entries [] = false →
        Storable foldedCompare referenceCborg fileDigest (twoDirectories first second)) ∧
    ¬ Storable foldedCompare referenceCborg fileDigest (twoDirectories [slash, 97] [slash, 66]) ∧
    ¬ Storable foldedCompare referenceCborg fileDigest (twoDirectories [slash, 97] [slash, 0xd800]) := by
  have hkept : ∀ first second, Kept (twoDirectories first second).entries := fun first second =>
    changes_kept referenceCborg_rfc8949 length_fileDigest _ ⟨by simp [workingRoot], by simp [workingRoot], by simp [workingRoot],
      by simp [workingRoot]⟩
  have hcommitted : ∀ first second, (twoDirectories first second).committedEntries = [] := by
    intro first second
    rw [twoDirectories, smallTree, changes_frame]
    rfl
  have hcapital : (twoDirectories [slash, 97] [slash, 66]).entries = [([97], .directory), ([66], .directory)] := by
    decide
  have hsurrogate : (twoDirectories [slash, 97] [slash, 0xd800]).entries = [([97], .directory), ([0xd800], .directory)] := by
    decide
  have hcapitalFits : Fits (twoDirectories [slash, 97] [slash, 66]).entries := by
    rw [hcapital]
    exact ⟨by decide, by decide, by decide⟩
  have hsurrogateFits : Fits (twoDirectories [slash, 97] [slash, 0xd800]).entries := by
    rw [hsurrogate]
    exact ⟨by decide, by decide, by decide⟩
  have hfirst : ¬ Storable foldedCompare referenceCborg fileDigest (twoDirectories [slash, 97] [slash, 66]) := by
    rw [storable_changed_iff referenceCborg_rfc8949 length_fileDigest foldedCompare_consistent (hkept _ _) hcapitalFits
      (by rw [hcommitted, hcapital]; decide), hcapital]
    rintro ⟨hagree, -⟩
    exact absurd hagree (by unfold OrdersAgree; decide)
  have hsecond : ¬ Storable foldedCompare referenceCborg fileDigest (twoDirectories [slash, 97] [slash, 0xd800]) := by
    rw [storable_changed_iff referenceCborg_rfc8949 length_fileDigest foldedCompare_consistent (hkept _ _) hsurrogateFits
      (by rw [hcommitted, hsurrogate]; decide), hsurrogate]
    rintro ⟨-, hwell⟩
    exact loneSurrogate_not_wellFormed (hwell ([0xd800], .directory) (List.mem_cons_of_mem _ List.mem_cons_self))
  refine ⟨?_, hfirst, hsecond⟩
  intro hall
  exact hfirst (hall _ _ hcapitalFits (by rw [hcapital]; decide))

end UniDocs.Files
