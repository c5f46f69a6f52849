import UniDocs.Lemmas.BundleScan
import UniDocs.Lib.CborReader
import UniDocs.Lib.Bytes
import UniDocs.Lib.Digest
import UniDocs.Lib.Result

/-!
# The layout and the identity of a bundle

The entries of an accepted archive lie at distinct canonical paths, of which no file is on the way to another, and what they produce
is within the limits. The content hash of a bundle says which manifest it has and which bytes are at which other paths, and nothing
more.
-/

namespace UniDocs.Bundles

open Lib

variable {runtime : BundleRuntime} {source source' : ByteSource} {expected expected' : ExpectedBundle}
  {inspection inspection' : BundleManifestInspection} {kind : BundleKind}

/-! ## What the libraries are relied on for -/

/-- `canonicalize` is injective on JSON values, and SHA-256 on bytes. -/
structure BundleRuntime.Ideal (runtime : BundleRuntime) : Prop where
  sha256 : Function.Injective runtime.sha256
  canonicalize : ∀ value value', assertJson value = true → assertJson value' = true →
    (runtime.canonicalize value = runtime.canonicalize value' ↔ value.Same value')

/-! ## Hashes -/

theorem hexText_injective {bytes bytes' : Bytes} (h : hexText bytes = hexText bytes') : bytes = bytes' := by
  have hchars := congrArg (fun text => hexBytes text.toList) h
  simpa only [hexText, String.toList_ofList, hexBytes_flatMap_byteHex] using hchars

theorem js_injective {text text' : String} (h : js text = js text') : text = text' := by
  have hread := congrArg JsString.toText h
  rwa [JsString.toText_ofString, JsString.toText_ofString] at hread

theorem canonicalJson_some_iff {value : JsonValue} {text : String} :
    canonicalJson runtime value = some text ↔ assertJson value = true ∧ runtime.canonicalize value = text := by
  unfold canonicalJson
  split_ifs with hvalid <;> simp [hvalid]

/-- The hashes of two values are equal exactly if the values are the same. -/
theorem schemaHash_eq_iff (hideal : runtime.Ideal) {value value' : JsonValue} {hash hash' : String}
    (h : schemaHash runtime value = some hash) (h' : schemaHash runtime value' = some hash') : hash = hash' ↔ value.Same value' := by
  have hparts : ∀ {value : JsonValue} {hash : String}, schemaHash runtime value = some hash → assertJson value = true
      ∧ hash = "sha256:" ++ hexText (runtime.sha256 (utf8 (runtime.canonicalize value))) := by
    intro value hash h
    obtain ⟨bytes, hbytes, rfl⟩ := Option.map_eq_some_iff.mp h
    obtain ⟨text, htext, rfl⟩ := Option.map_eq_some_iff.mp hbytes
    obtain ⟨hvalid, rfl⟩ := canonicalJson_some_iff.mp htext
    exact ⟨hvalid, rfl⟩
  obtain ⟨hvalid, rfl⟩ := hparts h
  obtain ⟨hvalid', rfl⟩ := hparts h'
  rw [← hideal.canonicalize value value' hvalid hvalid']
  constructor
  · intro heq
    exact Cbor.utf8_injective (hideal.sha256 (hexText_injective (String.append_right_inj _ |>.mp heq)))
  · intro heq
    rw [heq]

/-! ## The value that is hashed -/

theorem sorted_file (file : BundleZipFile) : file.json.sorted =
    .object [(js "path", .string file.path), (js "sha256", .string (js file.sha256)), (js "size", .number (some file.size))] := rfl

theorem same_file_iff {file file' : BundleZipFile} : file.json.Same file'.json ↔ file = file' := by
  constructor
  · intro h
    rw [JsonValue.Same, sorted_file, sorted_file] at h
    simp only [JsonValue.object.injEq, List.cons.injEq, Prod.mk.injEq, JsonValue.string.injEq, JsonValue.number.injEq,
      Option.some.injEq, Nat.cast_inj, true_and, and_true] at h
    obtain ⟨hpath, hsha, hsize⟩ := h
    obtain ⟨path, size, sha256⟩ := file
    obtain ⟨path', size', sha256'⟩ := file'
    cases hpath
    cases hsize
    cases js_injective hsha
    rfl
  · rintro rfl
    rfl

theorem sorted_contentValue (kind : BundleKind) (manifest : BundleManifest) (resources : List BundleZipFile) :
    (contentValue kind manifest resources).sorted = .object [(js "files", (JsonValue.array (resources.map BundleZipFile.json)).sorted),
      (js "kind", .string kind.text), (js "manifest", manifest.json.sorted)] := rfl

/-- The hashed value determines the manifest and the records of the other files. -/
theorem same_contentValue_iff {manifest manifest' : BundleManifest} {resources resources' : List BundleZipFile} :
    (contentValue kind manifest resources).Same (contentValue kind manifest' resources') ↔
      manifest.json.Same manifest'.json ∧ resources = resources' := by
  have hfiles : (JsonValue.array (resources.map BundleZipFile.json)).Same (.array (resources'.map BundleZipFile.json)) ↔
      resources = resources' := by
    rw [JsonValue.same_array_iff, List.forall₂_map_left_iff, List.forall₂_map_right_iff]
    simp only [same_file_iff]
    rw [List.forall₂_eq_eq_eq]
  rw [← hfiles, JsonValue.Same, sorted_contentValue, sorted_contentValue]
  simp only [JsonValue.object.injEq, List.cons.injEq, Prod.mk.injEq, true_and, and_true]
  exact and_comm

/-! ## The records of the files -/

theorem recordOf_injective {sha256 : Bytes → Bytes} (h : Function.Injective sha256) : Function.Injective (recordOf sha256) := by
  rintro ⟨path, content⟩ ⟨path', content'⟩ heq
  rw [recordOf, recordOf, BundleZipFile.mk.injEq] at heq
  exact Prod.ext heq.1 (h (hexText_injective heq.2.2))

/-- The records of the files other than the manifest, in the order in which they are hashed. -/
def resourcesOf (sha256 : Bytes → Bytes) (kind : BundleKind) (files : List (JsString × Bytes)) : List BundleZipFile :=
  (sortFiles (files.map (recordOf sha256))).filter fun file => file.path != manifestPath kind

theorem mem_resourcesOf {sha256 : Bytes → Bytes} {files : List (JsString × Bytes)} {record : BundleZipFile} :
    record ∈ resourcesOf sha256 kind files ↔ ∃ file ∈ files, file.1 ≠ manifestPath kind ∧ record = recordOf sha256 file := by
  unfold resourcesOf sortFiles
  rw [List.mem_filter, List.mem_insertionSort, List.mem_map]
  constructor
  · rintro ⟨⟨file, hmem, rfl⟩, hpath⟩
    exact ⟨file, hmem, bne_iff_ne.mp hpath, rfl⟩
  · rintro ⟨file, hmem, hpath, rfl⟩
    exact ⟨⟨file, hmem, rfl⟩, bne_iff_ne.mpr hpath⟩

/-- The records are those of the same bytes at the same paths, in whatever order the files were met. -/
theorem resourcesOf_eq_iff {sha256 : Bytes → Bytes} (hsha : Function.Injective sha256) {files files' : List (JsString × Bytes)}
    (hnodup : (files.map Prod.fst).Nodup) (hnodup' : (files'.map Prod.fst).Nodup) :
    resourcesOf sha256 kind files = resourcesOf sha256 kind files' ↔
      ∀ path, path ≠ manifestPath kind → files.lookup path = files'.lookup path := by
  have hmem : ∀ {files : List (JsString × Bytes)} {path : JsString} {content : Bytes}, path ≠ manifestPath kind →
      ((path, content) ∈ files ↔ recordOf sha256 (path, content) ∈ resourcesOf sha256 kind files) := by
    intro files path content hpath
    rw [mem_resourcesOf]
    constructor
    · intro h
      exact ⟨_, h, hpath, rfl⟩
    · rintro ⟨file, hfile, -, heq⟩
      rw [recordOf_injective hsha heq]
      exact hfile
  constructor
  · intro h path hpath
    refine Option.ext fun content => ?_
    rw [JsMap.lookup_iff hnodup, JsMap.lookup_iff hnodup', hmem hpath, hmem hpath, h]
  · intro h
    have hsame : ∀ file, file.1 ≠ manifestPath kind → (file ∈ files ↔ file ∈ files') := by
      rintro ⟨path, content⟩ hpath
      rw [← JsMap.lookup_iff hnodup, ← JsMap.lookup_iff hnodup', h path hpath]
    have hperm : (resourcesOf sha256 kind files).Perm (resourcesOf sha256 kind files') := by
      have hdistinct : ∀ {files : List (JsString × Bytes)}, (files.map Prod.fst).Nodup → (resourcesOf sha256 kind files).Nodup := by
        intro files hkeys
        refine List.Nodup.filter _ ((List.perm_insertionSort _ _).nodup_iff.mpr ?_)
        exact (List.Nodup.of_map _ hkeys).map (recordOf_injective hsha)
      refine (List.perm_ext_iff_of_nodup (hdistinct hnodup) (hdistinct hnodup')).mpr fun record => ?_
      rw [mem_resourcesOf, mem_resourcesOf]
      constructor
      · rintro ⟨file, hfile, hpath, heq⟩
        exact ⟨file, (hsame file hpath).mp hfile, hpath, heq⟩
      · rintro ⟨file, hfile, hpath, heq⟩
        exact ⟨file, (hsame file hpath).mpr hfile, hpath, heq⟩
    have hsorted : ∀ files : List (JsString × Bytes), (resourcesOf sha256 kind files).Pairwise fun left right =>
        JsString.UnitsLe left.path right.path := by
      intro files
      have : Std.Total fun left right : BundleZipFile => JsString.UnitsLe left.path right.path :=
        ⟨fun left right => Std.Total.total left.path right.path⟩
      have : IsTrans BundleZipFile fun left right => JsString.UnitsLe left.path right.path :=
        ⟨fun _ _ _ h h' => IsTrans.trans _ _ _ h h'⟩
      exact (List.pairwise_insertionSort _ _).filter _
    refine List.Perm.eq_of_pairwise (fun left right hleft hright hle hle' => ?_) (hsorted files) (hsorted files') hperm
    obtain ⟨file, hfile, hpath, rfl⟩ := mem_resourcesOf.mp hleft
    obtain ⟨file', hfile', hpath', rfl⟩ := mem_resourcesOf.mp hright
    have heq : file.1 = file'.1 := JsString.unitsLe_antisymm hle hle'
    have hlookup := (JsMap.lookup_iff hnodup').mpr ((hsame file hpath).mp hfile)
    rw [heq, (JsMap.lookup_iff hnodup').mpr hfile', Option.some.injEq] at hlookup
    rw [show file = file' from Prod.ext heq hlookup.symm]

/-! ## What an inspection accepts -/

theorem nodup_fileContents {entries : List ZipEntry} (h : (entries.map ZipEntry.path).Nodup) :
    ((fileContents entries).map Prod.fst).Nodup := by
  unfold fileContents
  rw [List.map_map]
  exact h.sublist ((List.filter_sublist (p := fun entry : ZipEntry => !entry.directory) (l := entries)).map ZipEntry.path)

theorem inspectFile_some {seen seen' : Inspected} {file : BundleZipFile} {content : Bytes}
    (h : inspectFile runtime kind seen file content = some seen') :
    (file.path ≠ manifestPath kind ∧ seen'.rawManifest = seen.rawManifest) ∨
      file.path = manifestPath kind ∧ ∃ raw, parseStrictJson runtime content = some raw ∧ seen'.rawManifest = some raw := by
  unfold inspectFile at h
  split at h
  · cases h
  dsimp only at h
  split at h
  · rename_i hpath
    cases h
    exact Or.inl ⟨hpath, rfl⟩
  · rename_i hpath
    split at h
    · cases h
    · obtain ⟨raw, hraw, rfl⟩ := Option.map_eq_some_iff.mp h
      exact Or.inr ⟨not_not.mp hpath, raw, hraw, rfl⟩

theorem rawManifest_of_fold {files : List (JsString × Bytes)} (hnodup : (files.map Prod.fst).Nodup) {seen seen' : Inspected}
    (h : files.foldlM (fun seen file => inspectFile runtime kind seen (recordOf runtime.sha256 file) file.2) seen = some seen') :
    (files.lookup (manifestPath kind)).elim (seen'.rawManifest = seen.rawManifest)
      fun content => seen'.rawManifest = parseStrictJson runtime content := by
  induction files generalizing seen with
  | nil =>
    cases h
    rfl
  | cons file files ih =>
    obtain ⟨path, content⟩ := file
    obtain ⟨hnew, hnodup⟩ := List.nodup_cons.mp hnodup
    rw [List.foldlM_cons, Option.bind_eq_bind, Option.bind_eq_some_iff] at h
    obtain ⟨seen₁, hfile, hrest⟩ := h
    have hmanifest := ih hnodup hrest
    rcases inspectFile_some hfile with ⟨hpath, hkept⟩ | ⟨hpath, raw, hraw, hset⟩
    · have hne : path ≠ manifestPath kind := hpath
      rw [hkept] at hmanifest
      rw [List.lookup_cons, beq_false_of_ne hne.symm]
      exact hmanifest
    · have hnone : files.lookup (manifestPath kind) = none := by
        rw [Option.eq_none_iff_forall_ne_some]
        intro other hmem
        refine hnew ?_
        rw [show path = manifestPath kind from hpath]
        exact List.mem_map.mpr ⟨(_, other), (JsMap.lookup_iff hnodup).mp hmem, rfl⟩
      rw [hnone] at hmanifest
      rw [List.lookup_cons, show path = manifestPath kind from hpath, beq_self_eq_true]
      exact (show seen'.rawManifest = _ from hmanifest).trans (hset.trans hraw.symm)

/-- The manifest of an archive, as the file at its path says it. -/
def archiveManifest (runtime : BundleRuntime) (kind : BundleKind) (entries : List ZipEntry) : Option JsonValue :=
  ((fileContents entries).lookup (manifestPath kind)).bind (parseStrictJson runtime)

/-- What is known of an inspection that returns. -/
structure Accepted (runtime : BundleRuntime) (source : ByteSource) (kind : BundleKind) (inspection : BundleManifestInspection) :
    Prop where
  archive : source.chunks.flatten.length ≤ BUNDLE_ZIP_LIMITS.archiveBytes
  scanned : ∃ scan, Scanned runtime.toZipRuntime BUNDLE_ZIP_LIMITS source.chunks.flatten.length (inspectFile runtime kind)
    ⟨[], none, source.chunks.flatten.length⟩ (listed runtime.toZipRuntime source) scan
  files : inspection.files.map (·.path) =
    (sortFiles ((fileContents (listed runtime.toZipRuntime source)).map (recordOf runtime.sha256))).map (·.path)
  manifest : ∃ raw, archiveManifest runtime kind (listed runtime.toZipRuntime source) = some raw
    ∧ parseManifest kind raw = some inspection.manifest
    ∧ canonicalJson runtime raw = canonicalJson runtime inspection.manifest.json ∧ (canonicalJson runtime raw).isSome = true
  hash : schemaHash runtime (contentValue kind inspection.manifest
    (resourcesOf runtime.sha256 kind (fileContents (listed runtime.toZipRuntime source)))) = some inspection.contentHash

theorem orInvalid_ok_iff {α : Type} {value : Option α} {a : α} : orInvalid value = .ok a ↔ value = some a := by
  cases value with
  | none => exact ⟨nofun, nofun⟩
  | some value => exact ⟨fun h => congrArg some (Except.ok.inj h), fun h => congrArg Except.ok (Option.some.inj h)⟩

theorem accepted_of_ok (h : inspectBundleManifest runtime source expected = .ok inspection) :
    Accepted runtime source expected.kind inspection := by
  unfold inspectBundleManifest at h
  obtain ⟨scanned, hscan, h⟩ := bind_ok_iff.mp h
  unfold scanBundleZip at hscan
  rw [show bundleZipLimits {} = .ok BUNDLE_ZIP_LIMITS from rfl, bind_ok_iff] at hscan
  obtain ⟨limits, hlimits, hscan⟩ := hscan
  cases hlimits
  split at hscan
  · cases hscan
  rename_i result hresult
  obtain rfl := (pure_ok_iff.mp hscan).symm
  obtain ⟨harchive, scan, hscanned, -, rfl⟩ := scanArchive_some hresult
  have hnodup := nodup_fileContents hscanned.distinct
  have hraw := rawManifest_of_fold hnodup hscanned.seen
  unfold inspectScanned at h
  simp only [bind_ok_iff, orInvalid_ok_iff, check_ok_iff, pure_ok_iff, not_not] at h
  obtain ⟨raw, hrawManifest, manifest, hmanifest, canonicalManifest, hcanonical, -, hsame, assets, -, contentHash, hhash, -, -,
    rfl⟩ := h
  rw [hscanned.files] at hhash
  refine ⟨harchive, ⟨scan, hscanned⟩, ?_, ⟨raw, ?_, hmanifest, ?_, ?_⟩, hhash⟩
  · dsimp only
    rw [hscanned.files, List.map_map]
    refine List.map_congr_left fun file _ => ?_
    rw [Function.comp_apply]
    split_ifs with hpath
    · exact hpath.symm
    · rfl
  · unfold archiveManifest
    rw [hrawManifest] at hraw
    cases hlookup : (fileContents (listed runtime.toZipRuntime source)).lookup (manifestPath expected.kind) with
    | none =>
      rw [hlookup] at hraw
      cases hraw
    | some content =>
      rw [hlookup] at hraw
      exact hraw.symm
  · rw [← hsame]
    exact hcanonical.symm
  · rw [← hsame]
    rfl

/-! ## Layout and limits -/

/-- The entries lie at distinct canonical paths, and no file is on the way to another entry. -/
structure IsLayout (normalizeNfc : JsString → JsString) (entries : List ZipEntry) : Prop where
  canonical : ∀ entry ∈ entries, IsCanonicalPath normalizeNfc entry.path
  distinct : (entries.map ZipEntry.path).Nodup
  free : ∀ file ∈ entries, file.directory = false → ∀ entry ∈ entries, ¬ IsAncestor file.path entry.path

/-- An archive and what its files produce are within `BUNDLE_ZIP_LIMITS`. -/
structure WithinLimits (archiveBytes : Nat) (entries : List ZipEntry) : Prop where
  archive : archiveBytes ≤ BUNDLE_ZIP_LIMITS.archiveBytes
  count : entries.length ≤ BUNDLE_ZIP_LIMITS.entries
  file : ∀ file ∈ entries, file.directory = false → file.produced.length ≤ BUNDLE_ZIP_LIMITS.fileBytes
  expanded : ((fileContents entries).map (·.2.length)).sum ≤ BUNDLE_ZIP_LIMITS.expandedBytes
  ratio : ∀ file ∈ entries, file.directory = false → ∃ compressed, safeSize file.compressedSize = some compressed
    ∧ compressed ≤ archiveBytes ∧ file.produced.length ≤ max 1 compressed * BUNDLE_ZIP_LIMITS.compressionRatio

theorem Accepted.layout (h : Accepted runtime source kind inspection) :
    IsLayout runtime.normalizeNfc (listed runtime.toZipRuntime source) := by
  obtain ⟨scan, hscanned⟩ := h.scanned
  exact ⟨hscanned.canonical, hscanned.distinct, hscanned.free⟩

theorem Accepted.within (h : Accepted runtime source kind inspection) :
    WithinLimits source.chunks.flatten.length (listed runtime.toZipRuntime source) := by
  obtain ⟨scan, hscanned⟩ := h.scanned
  refine ⟨h.archive, hscanned.count.2, fun file hmem hdirectory => (hscanned.size file hmem hdirectory).1, ?_,
    fun file hmem hdirectory => (hscanned.size file hmem hdirectory).2⟩
  rw [← hscanned.expanded.1]
  exact hscanned.expanded.2

theorem Accepted.perm_files (h : Accepted runtime source kind inspection) :
    (inspection.files.map (·.path)).Perm ((fileContents (listed runtime.toZipRuntime source)).map Prod.fst) := by
  rw [h.files]
  refine ((List.perm_insertionSort _ _).map _).trans ?_
  rw [List.map_map]
  exact List.Perm.refl _

/-! ## Identity -/

/-- Two archives have the same manifest, and the same bytes at the same other paths. -/
def SameBundle (runtime : BundleRuntime) (kind : BundleKind) (entries entries' : List ZipEntry) : Prop :=
  (∃ raw raw', archiveManifest runtime kind entries = some raw ∧ archiveManifest runtime kind entries' = some raw' ∧ raw.Same raw')
    ∧ ∀ path, path ≠ manifestPath kind → (fileContents entries).lookup path = (fileContents entries').lookup path

theorem canonicalJson_same (hideal : runtime.Ideal) {value value' : JsonValue}
    (h : canonicalJson runtime value = canonicalJson runtime value') (hsome : (canonicalJson runtime value).isSome = true) :
    value.Same value' := by
  obtain ⟨text, htext⟩ := Option.isSome_iff_exists.mp hsome
  obtain ⟨hvalid, hcanonical⟩ := canonicalJson_some_iff.mp htext
  obtain ⟨hvalid', hcanonical'⟩ := canonicalJson_some_iff.mp (h ▸ htext)
  exact (hideal.canonicalize value value' hvalid hvalid').mp (hcanonical.trans hcanonical'.symm)

theorem contentHash_eq_iff (hideal : runtime.Ideal) (h : Accepted runtime source kind inspection)
    (h' : Accepted runtime source' kind inspection') : inspection.contentHash = inspection'.contentHash ↔
      SameBundle runtime kind (listed runtime.toZipRuntime source) (listed runtime.toZipRuntime source') := by
  obtain ⟨raw, hraw, -, hsame, hsome⟩ := h.manifest
  obtain ⟨raw', hraw', -, hsame', hsome'⟩ := h'.manifest
  have hmanifest := canonicalJson_same hideal hsame hsome
  have hmanifest' := canonicalJson_same hideal hsame' hsome'
  rw [schemaHash_eq_iff hideal h.hash h'.hash, same_contentValue_iff,
    resourcesOf_eq_iff hideal.sha256 (nodup_fileContents h.layout.distinct) (nodup_fileContents h'.layout.distinct)]
  unfold SameBundle
  rw [hraw, hraw']
  constructor
  · rintro ⟨hjson, hfiles⟩
    exact ⟨⟨raw, raw', rfl, rfl, (hmanifest.trans hjson).trans hmanifest'.symm⟩, hfiles⟩
  · rintro ⟨⟨_, _, hleft, hright, hraws⟩, hfiles⟩
    cases hleft
    cases hright
    exact ⟨(hmanifest.symm.trans hraws).trans hmanifest', hfiles⟩

/-- For every archive that is accepted, its entries lie at distinct canonical paths, of which no file is on the way to another, and
what they produce is within all limits. Two archives of one kind have the same content hash exactly if they have the same manifest
and the same bytes at the same other paths. -/
theorem bundle_identity (hideal : runtime.Ideal) :
    (∀ source expected inspection, inspectBundleManifest runtime source expected = .ok inspection →
      IsLayout runtime.normalizeNfc (listed runtime.toZipRuntime source)
        ∧ (inspection.files.map (·.path)).Perm ((fileContents (listed runtime.toZipRuntime source)).map Prod.fst)
        ∧ WithinLimits source.chunks.flatten.length (listed runtime.toZipRuntime source))
    ∧ ∀ source expected inspection source' expected' inspection', inspectBundleManifest runtime source expected = .ok inspection →
      inspectBundleManifest runtime source' expected' = .ok inspection' → expected.kind = expected'.kind →
      (inspection.contentHash = inspection'.contentHash ↔
        SameBundle runtime expected.kind (listed runtime.toZipRuntime source) (listed runtime.toZipRuntime source')) := by
  constructor
  · intro source expected inspection h
    have haccepted := accepted_of_ok h
    exact ⟨haccepted.layout, haccepted.perm_files, haccepted.within⟩
  · intro source expected inspection source' expected' inspection' h h' hkind
    have haccepted' := accepted_of_ok h'
    rw [← hkind] at haccepted'
    exact contentHash_eq_iff hideal (accepted_of_ok h) haccepted'

/-! ## Two archives of one bundle -/

mutual

/-- A code of a value, of which the start says where it ends. -/
def tokens : JsonValue → List Nat
  | .null => [0]
  | .bool value => [1, value.toNat]
  | .number value => 2 :: value.elim [0] fun value => [1, value.num.toNat, (-value.num).toNat, value.den]
  | .string text => 3 :: text.length :: text.map UInt16.toNat
  | .array elements => 4 :: elements.length :: elementTokens elements
  | .object fields => 5 :: fields.length :: fieldTokens fields

def elementTokens : List JsonValue → List Nat
  | [] => []
  | value :: values => tokens value ++ elementTokens values

def fieldTokens : List (JsString × JsonValue) → List Nat
  | [] => []
  | (key, value) :: fields => key.length :: (key.map UInt16.toNat ++ (tokens value ++ fieldTokens fields))

end

theorem string_tokens {text text' : JsString} {rest rest' : List Nat}
    (h : text.length :: (text.map UInt16.toNat ++ rest) = text'.length :: (text'.map UInt16.toNat ++ rest')) :
    text = text' ∧ rest = rest' := by
  obtain ⟨hlength, h⟩ := List.cons.inj h
  obtain ⟨htext, hrest⟩ := List.append_inj h (by rw [List.length_map, List.length_map, hlength])
  exact ⟨List.map_injective_iff.mpr (fun _ _ => UInt16.toNat_inj.mp) htext, hrest⟩

mutual

theorem tokens_injective : ∀ (value value' : JsonValue) (rest rest' : List Nat),
    tokens value ++ rest = tokens value' ++ rest' → value = value' ∧ rest = rest'
  | .null, value', rest, rest', h => by
    cases value' with
    | null => exact ⟨rfl, by simpa [tokens] using h⟩
    | _ => simp [tokens] at h
  | .bool value, value', rest, rest', h => by
    cases value' with
    | bool value' =>
      simp only [tokens, List.cons_append, List.nil_append, List.cons.injEq, true_and] at h
      cases value <;> cases value' <;> simp_all
    | _ => simp [tokens] at h
  | .number value, value', rest, rest', h => by
    cases value' with
    | number value' =>
      simp only [tokens, List.cons_append, List.cons.injEq, true_and] at h
      cases value <;> cases value' <;>
        simp only [Option.elim_none, Option.elim_some, List.cons_append, List.nil_append, List.cons.injEq, true_and,
          zero_ne_one, one_ne_zero, false_and] at h
      · exact ⟨rfl, h⟩
      · obtain ⟨hpos, hneg, hden, hrest⟩ := h
        exact ⟨by rw [Rat.ext (by omega) hden], hrest⟩
    | _ => simp [tokens] at h
  | .string text, value', rest, rest', h => by
    cases value' with
    | string text' =>
      simp only [tokens, List.cons_append, List.cons.injEq, true_and] at h
      obtain ⟨rfl, hrest⟩ := string_tokens (List.cons_eq_cons.mpr h)
      exact ⟨rfl, hrest⟩
    | _ => simp [tokens] at h
  | .array elements, value', rest, rest', h => by
    cases value' with
    | array elements' =>
      simp only [tokens, List.cons_append, List.cons.injEq, true_and] at h
      obtain ⟨rfl, hrest⟩ := elementTokens_injective elements elements' rest rest' h.1 h.2
      exact ⟨rfl, hrest⟩
    | _ => simp [tokens] at h
  | .object fields, value', rest, rest', h => by
    cases value' with
    | object fields' =>
      simp only [tokens, List.cons_append, List.cons.injEq, true_and] at h
      obtain ⟨rfl, hrest⟩ := fieldTokens_injective fields fields' rest rest' h.1 h.2
      exact ⟨rfl, hrest⟩
    | _ => simp [tokens] at h

theorem elementTokens_injective : ∀ (values values' : List JsonValue) (rest rest' : List Nat), values.length = values'.length →
    elementTokens values ++ rest = elementTokens values' ++ rest' → values = values' ∧ rest = rest'
  | [], [], rest, rest', _, h => ⟨rfl, h⟩
  | value :: values, value' :: values', rest, rest', hlength, h => by
    rw [elementTokens, elementTokens, List.append_assoc, List.append_assoc] at h
    obtain ⟨rfl, htail⟩ := tokens_injective value value' _ _ h
    obtain ⟨rfl, hrest⟩ := elementTokens_injective values values' rest rest' (Nat.succ.inj hlength) htail
    exact ⟨rfl, hrest⟩

theorem fieldTokens_injective : ∀ (fields fields' : List (JsString × JsonValue)) (rest rest' : List Nat),
    fields.length = fields'.length → fieldTokens fields ++ rest = fieldTokens fields' ++ rest' → fields = fields' ∧ rest = rest'
  | [], [], rest, rest', _, h => ⟨rfl, h⟩
  | (key, value) :: fields, (key', value') :: fields', rest, rest', hlength, h => by
    simp only [fieldTokens, List.cons_append, List.append_assoc] at h
    obtain ⟨rfl, hvalue⟩ := string_tokens h
    obtain ⟨rfl, htail⟩ := tokens_injective value value' _ _ hvalue
    obtain ⟨rfl, hrest⟩ := fieldTokens_injective fields fields' rest rest' (Nat.succ.inj hlength) htail
    exact ⟨rfl, hrest⟩

end

/-- A small number as a character, and another one behind a mark in decimal digits. -/
def codeChars (n : Nat) : List Char := if n < 127 then [Char.ofNat n] else Char.ofNat 127 :: (Nat.toDigits 10 n ++ [' '])

theorem ofNat_small {n m : Nat} (hn : n < 128) (hm : m < 128) (h : Char.ofNat n = Char.ofNat m) : n = m := by
  have hvalid : ∀ k < 128, (Char.ofNat k).toNat = k := by decide
  rw [← hvalid n hn, h, hvalid m hm]

theorem codeChars_append {n m : Nat} {rest rest' : List Char} (h : codeChars n ++ rest = codeChars m ++ rest') :
    n = m ∧ rest = rest' := by
  have hblank : ∀ n : Nat, ' ' ∉ Nat.toDigits 10 n := by
    intro n hmem
    exact absurd (mem_toDigits_isDigit hmem) (by decide)
  unfold codeChars at h
  split_ifs at h with hn hm hm <;> rw [List.cons_append, List.cons_append] at h <;> obtain ⟨hfirst, h⟩ := List.cons.inj h
  · exact ⟨ofNat_small (by omega) (by omega) hfirst, h⟩
  · exact absurd (ofNat_small (by omega) (by omega) hfirst) (by omega)
  · exact absurd (ofNat_small (by omega) (by omega) hfirst) (by omega)
  · rw [List.append_assoc, List.append_assoc] at h
    obtain ⟨hdigits, hrest⟩ := split_inj (hblank n) (hblank m) h
    exact ⟨toDigits_injective hdigits, hrest⟩

theorem codeChars_ne_nil (n : Nat) : codeChars n ≠ [] := by
  unfold codeChars
  split_ifs <;> exact List.cons_ne_nil _ _

theorem codeChars_injective {codes codes' : List Nat} (h : codes.flatMap codeChars = codes'.flatMap codeChars) :
    codes = codes' := by
  induction codes generalizing codes' with
  | nil =>
    cases codes' with
    | nil => rfl
    | cons m codes' => exact absurd h.symm (List.append_ne_nil_of_left_ne_nil (codeChars_ne_nil m) _)
  | cons n codes ih =>
    cases codes' with
    | nil => exact absurd h (List.append_ne_nil_of_left_ne_nil (codeChars_ne_nil n) _)
    | cons m codes' =>
      obtain ⟨rfl, hrest⟩ := codeChars_append h
      rw [ih hrest]

/-- The text of a code of a value with its fields in order, where some values have a given text. -/
def codeText (known : List (List Nat × List Nat)) (value : JsonValue) : String :=
  String.ofList ((assign known (tokens value.sorted)).flatMap codeChars)

theorem codeText_eq_iff {known : List (List Nat × List Nat)} {value value' : JsonValue} :
    codeText known value = codeText known value' ↔ value.Same value' := by
  constructor
  · intro h
    have hchars := congrArg String.toList h
    unfold codeText at hchars
    rw [String.toList_ofList, String.toList_ofList] at hchars
    refine (tokens_injective value.sorted value'.sorted [] [] ?_).1
    rw [(assign known).injective (codeChars_injective hchars)]
  · intro h
    unfold codeText
    rw [h]

/-- An entry with the content of a text. -/
def textEntry (path content : String) (method : Nat) : ZipEntry :=
  ⟨utf8 path, js path, false, false, false, 0, method, 0, some (utf8 content).length, some (utf8 content).length, [utf8 content],
    false, 0⟩

def directoryEntry (path : String) : ZipEntry := ⟨utf8 path, js path, true, false, false, 0, 0, 0, some 0, some 0, [], false, 0⟩

def manifestText : String :=
  "\x7b\"protocol\":\"unidocs-view-bundle/v1\",\"documentType\":\"psd\",\"entrypoints\":\x7b\"interactive\":\"a.html\"," ++
    "\"thumbnail\":\"b.html\"\x7d,\"supportedDocumentContractIdxs\":[0]\x7d"

def stringNode (text : String) : JsonNode := .node "string" (some (js text)) []

def propertyNode (key : String) (value : JsonNode) : JsonNode := .node "property" none [stringNode key, value]

/-- The tree of the manifest. -/
def manifestNode : JsonNode :=
  .node "object" none [propertyNode "protocol" (stringNode "unidocs-view-bundle/v1"), propertyNode "documentType" (stringNode "psd"),
    propertyNode "entrypoints" (.node "object" none
      [propertyNode "interactive" (stringNode "a.html"), propertyNode "thumbnail" (stringNode "b.html")]),
    propertyNode "supportedDocumentContractIdxs" (.node "array" none [.node "number" none []])]

/-- A reader that knows two archives: the second has a directory besides, another order, and other methods. -/
def twoArchives (bytes : Bytes) : List ZipEntry :=
  if bytes.head? = some 1 then
    [textEntry "unidocs-view.json" manifestText 8, textEntry "a.html" "a" 0, textEntry "b.html" "b" 0]
  else
    [textEntry "b.html" "b" 8, directoryEntry "c/", textEntry "a.html" "a" 8, textEntry "unidocs-view.json" manifestText 0]

/-- The bytes of the manifest. -/
def manifestBytes : Bytes :=
  [123, 34, 112, 114, 111, 116, 111, 99, 111, 108, 34, 58, 34, 117, 110, 105, 100, 111, 99, 115, 45, 118, 105, 101, 119, 45, 98, 117,
    110, 100, 108, 101, 47, 118, 49, 34, 44, 34, 100, 111, 99, 117, 109, 101, 110, 116, 84, 121, 112, 101, 34, 58, 34, 112, 115, 100,
    34, 44, 34, 101, 110, 116, 114, 121, 112, 111, 105, 110, 116, 115, 34, 58, 123, 34, 105, 110, 116, 101, 114, 97, 99, 116, 105, 118,
    101, 34, 58, 34, 97, 46, 104, 116, 109, 108, 34, 44, 34, 116, 104, 117, 109, 98, 110, 97, 105, 108, 34, 58, 34, 98, 46, 104, 116,
    109, 108, 34, 125, 44, 34, 115, 117, 112, 112, 111, 114, 116, 101, 100, 68, 111, 99, 117, 109, 101, 110, 116, 67, 111, 110, 116,
    114, 97, 99, 116, 73, 100, 120, 115, 34, 58, 91, 48, 93, 125]

/-- What the manifest is parsed to. -/
def manifestValue : JsonValue :=
  .object [(js "protocol", .string (js "unidocs-view-bundle/v1")), (js "documentType", .string (js "psd")),
    (js "entrypoints", .object [(js "interactive", .string (js "a.html")), (js "thumbnail", .string (js "b.html"))]),
    (js "supportedDocumentContractIdxs", .array [.number (some 0)])]

/-- The files beside the manifest, with the hashes of their bytes. -/
def sampleFiles : List BundleZipFile :=
  [⟨js "a.html", 1, "ca978112ca1bbdcafac231b39a23dc4da786eff8147c4e72b9807785afee48bb"⟩,
    ⟨js "b.html", 1, "3e23e8160039594a33894f6564e1b1348bbd7a0088d42c4acb73eeaed59c009d"⟩]

/-- What the content hash of the archives is the hash of. -/
def sampleContent : JsonValue :=
  .object [(js "kind", .string (js "view")), (js "manifest", manifestValue), (js "files", .array (sampleFiles.map BundleZipFile.json))]

/-- The canonical text of the manifest: its fields by their names. -/
def manifestCanonical : Bytes :=
  utf8 ("\x7b\"documentType\":\"psd\",\"entrypoints\":\x7b\"interactive\":\"a.html\",\"thumbnail\":\"b.html\"\x7d," ++
    "\"protocol\":\"unidocs-view-bundle/v1\",\"supportedDocumentContractIdxs\":[0]\x7d")

/-- The canonical text of the content: the files, the kind and the manifest. -/
def contentCanonical : Bytes :=
  utf8 ("\x7b\"files\":[" ++
    "\x7b\"path\":\"a.html\",\"sha256\":\"ca978112ca1bbdcafac231b39a23dc4da786eff8147c4e72b9807785afee48bb\",\"size\":1\x7d," ++
    "\x7b\"path\":\"b.html\",\"sha256\":\"3e23e8160039594a33894f6564e1b1348bbd7a0088d42c4acb73eeaed59c009d\",\"size\":1\x7d" ++
    "],\"kind\":\"view\",\"manifest\":") ++ manifestCanonical ++ utf8 "\x7d"

/-- The manifest and the content, with their canonical texts. -/
def knownCodes : List (List Nat × List Nat) :=
  [(tokens manifestValue.sorted, manifestCanonical.map UInt8.toNat), (tokens sampleContent.sorted, contentCanonical.map UInt8.toNat)]

/-- The bytes that are hashed, with their digests. -/
def knownDigests : List (Bytes × Bytes) :=
  [(manifestBytes, bytesBE 32 0x155cc68235b57bf9a9ff32bfaf540de7fd340fb5b33d9bc7651d83651caba833),
    ([97], bytesBE 32 0xca978112ca1bbdcafac231b39a23dc4da786eff8147c4e72b9807785afee48bb),
    ([98], bytesBE 32 0x3e23e8160039594a33894f6564e1b1348bbd7a0088d42c4acb73eeaed59c009d),
    (manifestCanonical, bytesBE 32 0xcfc29ce780b9370721da13e359d8d67d27b27eb706e61e6b02bab1e901239c0d),
    (contentCanonical, bytesBE 32 0x12a5e39121f5534aa434484932d636f483b731062a0d6356d00571c2dd0f8be6)]

/-- Reads the two archives, and has the canonical texts and the digests of what is in them. -/
def sampleRuntime : BundleRuntime where
  openZip bytes := ⟨twoArchives bytes, false, 0⟩
  normalizeNfc := id
  sha256 := assign knownDigests
  xml := ⟨fun _ => false, fun _ => none⟩
  canonicalize := codeText knownCodes
  parseTree _ := some manifestNode
  canonicalLocale := some

theorem sampleRuntime_ideal : sampleRuntime.Ideal where
  sha256 := (assign _).injective
  canonicalize _ _ _ _ := codeText_eq_iff

def sampleExpected : ExpectedBundle := ⟨.view, none, fun _ => some [0]⟩

/-- A stream of an archive. -/
def sampleSource (first : UInt8) : ByteSource := ⟨[[first], List.replicate 600 0], false⟩

theorem toList_manifestText : manifestText.toList = manifestBytes.map fun byte => Char.ofNat byte.toNat := by
  have hstart :
      "\x7b\"protocol\":\"unidocs-view-bundle/v1\",\"documentType\":\"psd\",\"entrypoints\":\x7b\"interactive\":\"a.html\"," =
        String.ofList ((manifestBytes.take 96).map fun byte => Char.ofNat byte.toNat) := rfl
  have hend :
      "\"thumbnail\":\"b.html\"\x7d,\"supportedDocumentContractIdxs\":[0]\x7d" =
        String.ofList ((manifestBytes.drop 96).map fun byte => Char.ofNat byte.toNat) := rfl
  have htext : manifestText = _ ++ _ := congrArg₂ (· ++ ·) hstart hend
  have hchars : ∀ chars rest : List Char, (String.ofList chars ++ String.ofList rest).toList = chars ++ rest := by simp
  rw [htext, hchars, ← List.map_append, List.take_append_drop]

theorem utf8_manifestText : utf8 manifestText = manifestBytes := by
  rw [utf8, toList_manifestText]
  decide +kernel

theorem decodeText_manifest :
    decodeText true manifestBytes = some ((manifestBytes.map fun byte => Char.ofNat byte.toNat).flatMap JsString.charUnits) := by
  have hread : String.fromUTF8? manifestBytes.toByteArray = some manifestText := by
    rw [← utf8_manifestText, Cbor.fromUTF8_utf8]
  simp only [decodeText, hread, Option.map_some, JsString.ofString, toList_manifestText, Bool.true_eq_false, false_and, if_false]

theorem parse_manifest : parseStrictJson sampleRuntime manifestBytes = some manifestValue := by
  have htokens : (parseStrictJson sampleRuntime manifestBytes).map tokens = some (tokens manifestValue) := by
    rw [parseStrictJson, decodeText_manifest]
    decide +kernel
  obtain ⟨value, hvalue, heq⟩ := Option.map_eq_some_iff.mp htokens
  rw [hvalue, (tokens_injective value manifestValue [] [] (by rw [heq])).1]

/-- The callback, where the value of the manifest is known. -/
def inspectSample (seen : Inspected) (file : BundleZipFile) (content : Bytes) : Option Inspected :=
  if content = manifestBytes ∧ file.path = manifestPath .view then
    if 65536 < file.size then none
    else some { seen with contents := JsMap.set file.path content seen.contents, rawManifest := some manifestValue }
  else inspectFile sampleRuntime .view seen file content

theorem inspectFile_sample : inspectFile sampleRuntime .view = inspectSample := by
  funext seen file content
  unfold inspectSample
  split_ifs with hmanifest hsize
  · obtain ⟨rfl, hpath⟩ := hmanifest
    unfold inspectFile
    rw [if_neg (by rw [hpath]; decide), if_neg (not_not_intro hpath), if_pos hsize]
  · obtain ⟨rfl, hpath⟩ := hmanifest
    unfold inspectFile
    rw [if_neg (by rw [hpath]; decide), if_neg (not_not_intro hpath), if_neg hsize, parse_manifest]
    rfl
  · rfl

/-- The archives, where the bytes of the manifest are known. -/
def readArchives (bytes : Bytes) : List ZipEntry :=
  let manifest (method : Nat) : ZipEntry := ⟨utf8 "unidocs-view.json", js "unidocs-view.json", false, false, false, 0, method, 0,
    some manifestBytes.length, some manifestBytes.length, [manifestBytes], false, 0⟩
  if bytes.head? = some 1 then [manifest 8, textEntry "a.html" "a" 0, textEntry "b.html" "b" 0]
  else [textEntry "b.html" "b" 8, directoryEntry "c/", textEntry "a.html" "a" 8, manifest 0]

theorem twoArchives_read : twoArchives = readArchives := by
  funext bytes
  unfold twoArchives readArchives textEntry
  rw [utf8_manifestText]

theorem isWellFormed_js (text : String) : (js text).IsWellFormed := JsString.isWellFormed_iff.mpr ⟨text, rfl⟩

theorem assertElements_map {α : Type} {f : α → JsonValue} {values : List α} (h : ∀ value ∈ values, assertJson (f value) = true) :
    assertElements (values.map f) = true := by
  induction values with
  | nil => rfl
  | cons value values ih =>
    rw [List.forall_mem_cons] at h
    rw [List.map_cons, assertElements, h.1, ih h.2, Bool.and_self]

theorem assertJson_contentValue {kind : BundleKind} {manifest : BundleManifest} {resources : List BundleZipFile}
    (hmanifest : assertJson manifest.json = true) (hpaths : ∀ file ∈ resources, file.path.IsWellFormed) :
    assertJson (contentValue kind manifest resources) = true := by
  have hkind : kind.text.IsWellFormed := by cases kind <;> exact isWellFormed_js _
  have hfiles : assertElements (resources.map BundleZipFile.json) = true := by
    refine assertElements_map fun file hfile => ?_
    simp [BundleZipFile.json, assertJson, assertFields, isWellFormed_js, hpaths file hfile]
  simp [contentValue, assertJson, assertFields, isWellFormed_js, hkind, hmanifest, hfiles]

/-- The inspection behind the scan returns, where the manifest is written as it was read. -/
theorem inspectScanned_ok {files : List BundleZipFile} {seen : Inspected} {raw : JsonValue} {manifest : BundleManifest}
    {assets : List BundleAsset} (hraw : seen.rawManifest = some raw) (hmanifest : parseManifest expected.kind raw = some manifest)
    (hjson : manifest.json = raw) (hvalid : assertJson raw = true) (htype : expected.documentType = none)
    (hassets : inspectAssets runtime expected files seen.contents manifest = .ok assets)
    (hpaths : ∀ file ∈ files, file.path.IsWellFormed) : ∃ inspection, inspectScanned runtime expected files seen = .ok inspection := by
  have hcanonical : canonicalJson runtime raw = some (runtime.canonicalize raw) := canonicalJson_some_iff.mpr ⟨hvalid, rfl⟩
  have hcontent : canonicalJson runtime (contentValue expected.kind manifest
      (files.filter fun file => file.path != manifestPath expected.kind)) = some _ :=
    canonicalJson_some_iff.mpr ⟨assertJson_contentValue (hjson ▸ hvalid)
      fun file hfile => hpaths file (List.mem_filter.mp hfile).1, rfl⟩
  unfold inspectScanned
  rw [hraw]
  simp only [orInvalid, pure_bind, hmanifest, hjson, hcanonical, htype, hassets, schemaHash, digest, hcontent, Option.map_some,
    Option.any_none, Bool.false_eq_true, ne_eq, not_true_eq_false, if_false]
  exact ⟨_, rfl⟩

/-- The checks on a sample archive: it is scanned, its manifest is written as it was read, and its assets are admitted. -/
def sampleChecks (runtime : BundleRuntime) (scanned : List BundleZipFile × Inspected) : Bool :=
  scanned.2.rawManifest.any fun raw => (parseManifest .view raw).any fun manifest =>
    decide (tokens manifest.json = tokens raw) && assertJson raw && scanned.1.all (fun file => decide file.path.IsWellFormed) &&
      (inspectAssets runtime sampleExpected scanned.1 scanned.2.contents manifest).toOption.isSome

theorem accepted_of_checks {source : ByteSource}
    (h : (scanBundleZip runtime.toZipRuntime source {} (inspectFile runtime .view)
      (fun seen archiveBytes => { seen with archiveBytes }) ⟨[], none, 0⟩).toOption.any (sampleChecks runtime) = true) :
    ∃ inspection, inspectBundleManifest runtime source sampleExpected = .ok inspection := by
  obtain ⟨scanned, hscanned, hchecks⟩ := (Option.any_eq_true _ _).mp h
  obtain ⟨raw, hraw, hchecks⟩ := (Option.any_eq_true _ _).mp hchecks
  obtain ⟨manifest, hmanifest, hchecks⟩ := (Option.any_eq_true _ _).mp hchecks
  simp only [Bool.and_eq_true, decide_eq_true_eq, List.all_eq_true] at hchecks
  obtain ⟨⟨⟨htokens, hvalid⟩, hpaths⟩, hassets⟩ := hchecks
  obtain ⟨assets, hassets⟩ := Option.isSome_iff_exists.mp hassets
  obtain ⟨inspection, hinspection⟩ : ∃ inspection, inspectScanned runtime sampleExpected scanned.1 scanned.2 = .ok inspection :=
    inspectScanned_ok hraw hmanifest (tokens_injective _ _ [] [] (by rw [htokens])).1 hvalid rfl (ok_of_toOption hassets) hpaths
  refine ⟨inspection, ?_⟩
  unfold inspectBundleManifest
  rw [show sampleExpected.kind = .view from rfl, ok_of_toOption hscanned]
  exact hinspection

theorem accepted_sample : ∀ first ∈ [1, 2],
    ∃ inspection, inspectBundleManifest sampleRuntime (sampleSource first) sampleExpected = .ok inspection := by
  simp only [List.forall_mem_cons, List.not_mem_nil, false_implies, implies_true, and_true]
  refine ⟨accepted_of_checks ?_, accepted_of_checks ?_⟩
  all_goals
    rw [inspectFile_sample]
    unfold sampleRuntime
    rw [twoArchives_read]
  · decide +kernel
  · decide +kernel

/-- The archives are of one bundle: they have the same content hash. -/
theorem bundle_identity_twoArchives : ∃ inspection inspection',
    inspectBundleManifest sampleRuntime (sampleSource 1) sampleExpected = .ok inspection ∧
      inspectBundleManifest sampleRuntime (sampleSource 2) sampleExpected = .ok inspection' ∧
      IsLayout id (listed sampleRuntime.toZipRuntime (sampleSource 2)) ∧ inspection.contentHash = inspection'.contentHash := by
  obtain ⟨inspection, h⟩ := accepted_sample 1 (by simp)
  obtain ⟨inspection', h'⟩ := accepted_sample 2 (by simp)
  have hidentity := bundle_identity sampleRuntime_ideal
  obtain ⟨hlayout, -, -⟩ := hidentity.1 _ _ _ h
  obtain ⟨hlayout', -, -⟩ := hidentity.1 _ _ _ h'
  have hreverse : fileContents (listed sampleRuntime.toZipRuntime (sampleSource 2)) =
      (fileContents (listed sampleRuntime.toZipRuntime (sampleSource 1))).reverse := rfl
  have hlookup : ∀ path, (fileContents (listed sampleRuntime.toZipRuntime (sampleSource 1))).lookup path =
      (fileContents (listed sampleRuntime.toZipRuntime (sampleSource 2))).lookup path := by
    intro path
    rw [hreverse]
    exact JsMap.lookup_perm (nodup_fileContents hlayout.distinct) (List.reverse_perm _).symm path
  refine ⟨inspection, inspection', h, h', hlayout', (hidentity.2 _ _ _ _ _ _ h h' rfl).mpr ⟨?_, fun path _ => hlookup path⟩⟩
  obtain ⟨raw, hraw, -⟩ := (accepted_of_ok h).manifest
  refine ⟨raw, raw, hraw, ?_, JsonValue.Same.refl raw⟩
  unfold archiveManifest at hraw ⊢
  rw [← hlookup]
  exact hraw

end UniDocs.Bundles
