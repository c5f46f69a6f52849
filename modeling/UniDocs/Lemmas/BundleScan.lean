import UniDocs.Bundles.Manifest

/-!
# The scan of a bundle archive

What one round of the loop over the entries accepts, and from it what holds of all entries of an archive that is accepted: their
paths, their sizes and the files that are returned.
-/

namespace UniDocs.Bundles

open Lib

variable {σ : Type} {runtime : ZipRuntime} {limits : BundleZipLimits} {archiveSize : Nat}
  {inspectFile : σ → BundleZipFile → Bytes → Option σ}

theorem guard_some_iff {p : Prop} [Decidable p] {u : Unit} : (guard p : Option Unit) = some u ↔ p := by
  by_cases hp : p <;> simp [guard, hp]

/-! ## Paths -/

/-- A canonical relative path. -/
structure IsCanonicalPath (normalizeNfc : JsString → JsString) (path : JsString) : Prop where
  wellFormed : path.IsWellFormed
  normal : normalizeNfc path = path
  length : (utf8 path.toText).length ≤ 512
  units : ∀ u ∈ path, u ∉ [92, 37, 58, 63, 35, 127] ∧ 31 < u
  segments : ∀ segment ∈ path.splitOn slash, segment ∉ [[], [46], [46, 46]] ∧ segment.getLast? ≠ some 46
    ∧ segment.getLast? ≠ some 32

/-- A path lies on the way to another one. -/
def IsAncestor (path path' : JsString) : Prop := path ++ [slash] <+: path'

theorem validateBundlePath_some {normalizeNfc : JsString → JsString} {path path' : JsString}
    (h : validateBundlePath normalizeNfc path = some path') : path' = path ∧ IsCanonicalPath normalizeNfc path := by
  unfold validateBundlePath at h
  split_ifs at h with hencoding hcanonical
  rw [not_or, not_or, not_not, not_not, not_lt] at hencoding
  rw [not_or, Bool.not_eq_true, Bool.not_eq_true, List.any_eq_false, List.any_eq_false] at hcanonical
  refine ⟨(Option.some.inj h).symm, hencoding.1, hencoding.2.1.symm, hencoding.2.2, fun u hu => ?_, fun segment hsegment => ?_⟩
  · have hallowed := hcanonical.1 u hu
    rw [isForbidden, Bool.not_eq_true, Bool.or_eq_false_iff, decide_eq_false_iff_not, UInt16.not_le] at hallowed
    exact ⟨by simpa using hallowed.1, hallowed.2⟩
  · have hsegment : isCanonicalSegment segment = true := by simpa using hcanonical.2 segment hsegment
    unfold isCanonicalSegment at hsegment
    simp only [Bool.and_eq_true, Bool.not_eq_true', List.isEmpty_eq_false_iff, bne_iff_ne] at hsegment
    obtain ⟨⟨⟨⟨hempty, hdot⟩, hdots⟩, hlast⟩, hspace⟩ := hsegment
    exact ⟨by simp [hempty, hdot, hdots], hlast, hspace⟩

/-- The path that is read before a slash is found among the paths that are asked for. -/
theorem not_conflicts_ancestor {paths : List (JsString × Bool)} {path ancestor : JsString} {directory : Bool}
    (hnodup : (paths.map Prod.fst).Nodup) (h : conflicts paths path directory = false) (hmem : (ancestor, false) ∈ paths) :
    ¬ IsAncestor ancestor path := by
  rintro ⟨rest, hrest⟩
  have hsplit : path.splitOn slash = ancestor.splitOn slash ++ rest.splitOn slash := by
    rw [← hrest, List.append_assoc, List.singleton_append, List.splitOn_eq_splitOnP, List.splitOnP_append_cons _ _ (by simp)]
    rfl
  have hpos : 0 < (ancestor.splitOn slash).length := List.length_pos_iff.mpr (List.splitOnP_ne_nil _ _)
  have hpos' : 0 < (rest.splitOn slash).length := List.length_pos_iff.mpr (List.splitOnP_ne_nil _ _)
  unfold conflicts at h
  rw [Bool.or_eq_false_iff, List.any_eq_false] at h
  refine h.1 (ancestor.splitOn slash).length ?_ ?_
  · rw [List.mem_range'_1, hsplit, List.length_append]
    omega
  · rw [hsplit, List.take_left, List.intercalate_splitOn, (JsMap.lookup_iff hnodup).mpr hmem]
    rfl

/-- A file does not lie on the way to a path that was met before. -/
theorem not_conflicts_file {paths : List (JsString × Bool)} {path : JsString} (h : conflicts paths path false = false)
    {existing : JsString × Bool} (hmem : existing ∈ paths) : ¬ IsAncestor path existing.1 := by
  intro hprefix
  unfold conflicts at h
  rw [Bool.or_eq_false_iff, Bool.not_false, Bool.true_and, List.any_eq_false (l := paths)] at h
  exact h.2 existing hmem (List.isPrefixOf_iff_prefix.mpr hprefix)

/-! ## Contents -/

/-- The bytes that an entry produces. -/
def ZipEntry.produced (entry : ZipEntry) : Bytes := entry.chunks.flatten

/-- The path of an entry. -/
def ZipEntry.path (entry : ZipEntry) : JsString := entryPath entry.directory entry.filename

/-- The files of an archive with the bytes that they produce. -/
def fileContents (entries : List ZipEntry) : List (JsString × Bytes) :=
  (entries.filter fun entry => !entry.directory).map fun entry => (entry.path, entry.produced)

/-- What is returned of a file. -/
def recordOf (sha256 : Bytes → Bytes) (file : JsString × Bytes) : BundleZipFile :=
  ⟨file.1, file.2.length, hexText (sha256 file.2)⟩

/-- The chunks are put together. -/
theorem writeChunks_some {uncompressedSize compressedSize : Nat} {content content' : Bytes} {expandedBytes expandedBytes' : Nat}
    {chunks : List Bytes}
    (h : writeChunks limits uncompressedSize compressedSize content expandedBytes chunks = some (content', expandedBytes')) :
    content' = content ++ chunks.flatten ∧ expandedBytes' = expandedBytes + chunks.flatten.length := by
  induction chunks generalizing content expandedBytes with
  | nil =>
    cases h
    simp
  | cons chunk chunks ih =>
    rw [writeChunks] at h
    split_ifs at h
    obtain ⟨hcontent, hexpanded⟩ := ih h
    rw [hcontent, hexpanded, List.flatten_cons, List.append_assoc, List.length_append, Nat.add_assoc]
    exact ⟨rfl, rfl⟩

/-! ## One entry -/

/-- What the round of an entry accepts, and what it does. -/
structure EntryScanned (runtime : ZipRuntime) (limits : BundleZipLimits) (archiveSize : Nat)
    (inspectFile : σ → BundleZipFile → Bytes → Option σ) (scan : Scan σ) (entry : ZipEntry) (scan' : Scan σ) : Prop where
  count : scan.entryCount + 1 ≤ limits.entries ∧ scan'.entryCount = scan.entryCount + 1
  canonical : IsCanonicalPath runtime.normalizeNfc entry.path
  fresh : entry.path ∉ scan.paths.map Prod.fst
  free : conflicts scan.paths entry.path entry.directory = false
  paths : scan'.paths = scan.paths ++ [(entry.path, entry.directory)]
  directory : entry.directory = true → scan'.files = scan.files ∧ scan'.expandedBytes = scan.expandedBytes ∧ scan'.seen = scan.seen
  file : entry.directory = false → (∃ compressed, safeSize entry.compressedSize = some compressed ∧ compressed ≤ archiveSize
      ∧ entry.produced.length ≤ max 1 compressed * limits.compressionRatio)
    ∧ entry.produced.length ≤ limits.fileBytes ∧ scan.expandedBytes + entry.produced.length ≤ limits.expandedBytes
    ∧ scan'.files = scan.files ++ [recordOf runtime.sha256 (entry.path, entry.produced)]
    ∧ scan'.expandedBytes = scan.expandedBytes + entry.produced.length
    ∧ inspectFile scan.seen (recordOf runtime.sha256 (entry.path, entry.produced)) entry.produced = some scan'.seen

theorem scanEntry_some {scan scan' : Scan σ} {entry : ZipEntry}
    (h : scanEntry runtime limits archiveSize inspectFile scan entry = some scan') :
    EntryScanned runtime limits archiveSize inspectFile scan entry scan' := by
  unfold scanEntry at h
  simp only [Option.bind_eq_bind, Option.bind_eq_some_iff, guard_some_iff, exists_const] at h
  obtain ⟨hcount, rawPath, -, ⟨hname, -⟩, -, path, hpath, hfresh, hfree, uncompressed, huncompressed, compressed, hcompressed,
    hle, h⟩ := h
  subst hname
  obtain ⟨rfl, hcanonical⟩ := validateBundlePath_some hpath
  have hnew : entryPath entry.directory entry.filename ∉ scan.paths.map Prod.fst := by
    rw [← JsMap.has_iff, hfresh]
    exact Bool.false_ne_true
  have hset := JsMap.set_of_not_has hfresh entry.directory
  split_ifs at h with hdirectory
  · simp only [Option.bind_eq_some_iff, guard_some_iff, exists_const] at h
    obtain ⟨-, h⟩ := h
    cases h
    exact ⟨⟨hcount, rfl⟩, hcanonical, hnew, hfree, hset, fun _ => ⟨rfl, rfl, rfl⟩,
      fun hfile => absurd hdirectory (by rw [hfile]; exact Bool.false_ne_true)⟩
  · simp only [Option.bind_eq_some_iff, guard_some_iff, exists_const] at h
    obtain ⟨⟨hsize, hratio, hexpanded⟩, ⟨content, expandedBytes⟩, hwrite, ⟨-, hlength, -⟩, seen, hseen, h⟩ := h
    obtain ⟨hcontent, hbytes⟩ := writeChunks_some hwrite
    rw [List.nil_append] at hcontent
    subst hcontent hbytes
    have hproduced : entry.produced.length = uncompressed := hlength
    cases h
    exact ⟨⟨hcount, rfl⟩, hcanonical, hnew, hfree, hset, fun hdir => absurd hdir hdirectory, fun _ =>
      ⟨⟨compressed, hcompressed, hle, by omega⟩, by omega, by omega, rfl, rfl, hseen⟩⟩

/-! ## All entries -/

/-- What holds after the rounds of some entries. -/
structure Scanned (runtime : ZipRuntime) (limits : BundleZipLimits) (archiveSize : Nat)
    (inspectFile : σ → BundleZipFile → Bytes → Option σ) (seen : σ) (entries : List ZipEntry) (scan : Scan σ) : Prop where
  count : scan.entryCount = entries.length ∧ entries.length ≤ limits.entries
  paths : scan.paths = entries.map fun entry => (entry.path, entry.directory)
  files : scan.files = (fileContents entries).map (recordOf runtime.sha256)
  expanded : scan.expandedBytes = ((fileContents entries).map (·.2.length)).sum ∧ scan.expandedBytes ≤ limits.expandedBytes
  seen : (fileContents entries).foldlM (fun seen file => inspectFile seen (recordOf runtime.sha256 file) file.2) seen = some scan.seen
  canonical : ∀ entry ∈ entries, IsCanonicalPath runtime.normalizeNfc entry.path
  distinct : (entries.map ZipEntry.path).Nodup
  free : ∀ file ∈ entries, file.directory = false → ∀ entry ∈ entries, ¬ IsAncestor file.path entry.path
  size : ∀ file ∈ entries, file.directory = false → file.produced.length ≤ limits.fileBytes
    ∧ ∃ compressed, safeSize file.compressedSize = some compressed ∧ compressed ≤ archiveSize
      ∧ file.produced.length ≤ max 1 compressed * limits.compressionRatio

theorem not_isAncestor_self (path : JsString) : ¬ IsAncestor path path := by
  intro h
  have hlength := h.length_le
  rw [List.length_append, List.length_singleton] at hlength
  omega

theorem fileContents_append (entries : List ZipEntry) (entry : ZipEntry) : fileContents (entries ++ [entry]) =
    fileContents entries ++ if entry.directory then [] else [(entry.path, entry.produced)] := by
  unfold fileContents
  rw [List.filter_append, List.map_append]
  cases hdirectory : entry.directory <;> simp [hdirectory]

theorem fst_paths {entries : List ZipEntry} {scan : Scan σ} (h : Scanned runtime limits archiveSize inspectFile seen entries scan) :
    scan.paths.map Prod.fst = entries.map ZipEntry.path := by
  rw [h.paths, List.map_map]
  rfl

/-- A round keeps what holds. -/
theorem Scanned.step {seen : σ} {entries : List ZipEntry} {entry : ZipEntry} {scan scan' : Scan σ}
    (h : Scanned runtime limits archiveSize inspectFile seen entries scan)
    (hentry : EntryScanned runtime limits archiveSize inspectFile scan entry scan') :
    Scanned runtime limits archiveSize inspectFile seen (entries ++ [entry]) scan' where
  count := by
    obtain ⟨hle, heq⟩ := hentry.count
    rw [heq, List.length_append, h.count.1, List.length_singleton]
    rw [h.count.1] at hle
    exact ⟨rfl, hle⟩
  paths := by
    rw [hentry.paths, h.paths, List.map_append]
    rfl
  files := by
    rw [fileContents_append]
    cases hdirectory : entry.directory with
    | true => rw [(hentry.directory hdirectory).1, h.files, if_pos rfl, List.append_nil]
    | false =>
      rw [(hentry.file hdirectory).2.2.2.1, h.files, if_neg Bool.false_ne_true, List.map_append]
      rfl
  expanded := by
    rw [fileContents_append]
    cases hdirectory : entry.directory with
    | true =>
      rw [(hentry.directory hdirectory).2.1, if_pos rfl, List.append_nil]
      exact h.expanded
    | false =>
      obtain ⟨-, -, hle, -, heq, -⟩ := hentry.file hdirectory
      rw [if_neg Bool.false_ne_true, List.map_append, List.sum_append, ← h.expanded.1, heq]
      exact ⟨by simp, hle⟩
  seen := by
    rw [fileContents_append, List.foldlM_append, h.seen]
    cases hdirectory : entry.directory with
    | true =>
      rw [(hentry.directory hdirectory).2.2]
      rfl
    | false =>
      rw [if_neg Bool.false_ne_true, Option.bind_eq_bind, Option.bind_some, List.foldlM_cons,
        (hentry.file hdirectory).2.2.2.2.2]
      rfl
  canonical := by
    intro other hmem
    rcases List.mem_append.mp hmem with hmem | hmem
    · exact h.canonical other hmem
    · rw [List.mem_singleton.mp hmem]
      exact hentry.canonical
  distinct := by
    have hfresh := hentry.fresh
    rw [fst_paths h] at hfresh
    rw [List.map_append, List.map_singleton, List.nodup_append]
    refine ⟨h.distinct, by simp, fun a ha b hb hab => hfresh ?_⟩
    rw [← List.mem_singleton.mp hb, ← hab]
    exact ha
  free := by
    have hnodup : (scan.paths.map Prod.fst).Nodup := by
      rw [fst_paths h]
      exact h.distinct
    have hmem_paths : ∀ e ∈ entries, (e.path, e.directory) ∈ scan.paths := by
      intro e he
      rw [h.paths]
      exact List.mem_map_of_mem he
    intro file hfile hdirectory other hother
    rcases List.mem_append.mp hfile with hfile | hfile <;> rcases List.mem_append.mp hother with hother | hother
    · exact h.free file hfile hdirectory other hother
    · rw [List.mem_singleton.mp hother]
      have hmem := hmem_paths file hfile
      rw [hdirectory] at hmem
      exact not_conflicts_ancestor hnodup hentry.free hmem
    · rw [List.mem_singleton.mp hfile] at hdirectory ⊢
      have hfree := hentry.free
      rw [hdirectory] at hfree
      exact not_conflicts_file hfree (hmem_paths other hother)
    · rw [List.mem_singleton.mp hfile, List.mem_singleton.mp hother]
      exact not_isAncestor_self _
  size := by
    intro file hmem hdirectory
    rcases List.mem_append.mp hmem with hmem | hmem
    · exact h.size file hmem hdirectory
    · rw [List.mem_singleton.mp hmem] at hdirectory ⊢
      obtain ⟨hratio, hsize, -⟩ := hentry.file hdirectory
      exact ⟨hsize, hratio⟩

theorem scanEntries_some {seen : σ} {entries done : List ZipEntry} {scan scan' : Scan σ}
    (h : scanEntries runtime limits archiveSize inspectFile scan entries = some scan')
    (hdone : Scanned runtime limits archiveSize inspectFile seen done scan) :
    Scanned runtime limits archiveSize inspectFile seen (done ++ entries) scan' := by
  unfold scanEntries at h
  induction entries generalizing done scan with
  | nil =>
    cases h
    rw [List.append_nil]
    exact hdone
  | cons entry entries ih =>
    rw [List.foldlM_cons, Option.bind_eq_bind, Option.bind_eq_some_iff] at h
    obtain ⟨scan₁, hentry, hrest⟩ := h
    have hscanned := ih hrest (hdone.step (scanEntry_some hentry))
    rw [List.append_assoc] at hscanned
    exact hscanned

theorem scanned_nil (seen : σ) : Scanned runtime limits archiveSize inspectFile seen [] ⟨[], [], 0, 0, seen⟩ :=
  ⟨⟨rfl, Nat.zero_le _⟩, rfl, rfl, ⟨rfl, Nat.zero_le _⟩, rfl, by simp, by simp, by simp, by simp⟩

/-! ## The archive -/

/-- The chunks of a stream that is not too long are put together. -/
theorem boundedBytes_some {maxBytes consumed : Nat} {fails : Bool} {chunks : List Bytes} {bytes : Bytes}
    (h : boundedBytes maxBytes fails consumed chunks = some bytes) (hconsumed : consumed ≤ maxBytes) :
    bytes = chunks.flatten ∧ consumed + bytes.length ≤ maxBytes := by
  induction chunks generalizing consumed bytes with
  | nil =>
    rw [boundedBytes] at h
    split_ifs at h
    cases h
    exact ⟨rfl, hconsumed⟩
  | cons chunk chunks ih =>
    rw [boundedBytes] at h
    split_ifs at h with hle
    obtain ⟨rest, hrest, rfl⟩ := Option.map_eq_some_iff.mp h
    obtain ⟨hflat, hlength⟩ := ih hrest (not_lt.mp hle)
    rw [List.length_append, List.flatten_cons, hflat]
    rw [hflat] at hlength
    exact ⟨rfl, by omega⟩

/-- The entries of the archive that a stream carries. -/
def listed (runtime : ZipRuntime) (source : ByteSource) : List ZipEntry := (runtime.openZip source.chunks.flatten).entries

theorem scanArchive_some {source : ByteSource} {inspectArchive : σ → Nat → σ} {seen : σ} {result : List BundleZipFile × σ}
    (h : scanArchive runtime limits source inspectFile inspectArchive seen = some result) :
    source.chunks.flatten.length ≤ limits.archiveBytes ∧ ∃ scan,
      Scanned runtime limits source.chunks.flatten.length inspectFile (inspectArchive seen source.chunks.flatten.length)
        (listed runtime source) scan ∧ scan.files ≠ [] ∧ result = (sortFiles scan.files, scan.seen) := by
  unfold scanArchive at h
  simp only [Option.bind_eq_bind, Option.bind_eq_some_iff, guard_some_iff, exists_const] at h
  obtain ⟨archive, harchive, scan, hscan, ⟨-, hne, -⟩, h⟩ := h
  obtain ⟨rfl, hlength⟩ := boundedBytes_some harchive (Nat.zero_le _)
  rw [Nat.zero_add] at hlength
  exact ⟨hlength, scan, scanEntries_some hscan (scanned_nil _), hne, (Option.some.inj h).symm⟩

end UniDocs.Bundles
