import UniDocs.Files.FileSystem
import UniDocs.Theorems.BlobRoundTrip
import Mathlib.Data.List.TakeWhile

/-!
# The entries of a file root

What the calls on a root keep: distinct paths that are well made, files that name a stored blob, and no path below a file.
-/

namespace UniDocs.Files

open Lib UniDocs.Cas UniDocs.Codec UniDocs.Blob

/-! ## Paths -/

/-- A path without its leading slash: segments with a name, and no backslash or control character. -/
structure IsPath (path : JsString) : Prop where
  segments : ∀ segment ∈ path.splitOn slash, isBadSegment segment = false
  units : ∀ u ∈ path, u ≠ 92 ∧ isControl u = false

variable {path : JsString}

theorem IsPath.ne_nil (h : IsPath path) : path ≠ [] := by
  rintro rfl
  exact absurd (h.segments [] (by simp [List.splitOn_nil])) (by decide)

theorem IsPath.head (h : IsPath path) : path.head? ≠ some slash := by
  intro hhead
  cases path with
  | nil => cases hhead
  | cons u rest =>
    cases hhead
    refine absurd (h.segments [] ?_) (by decide)
    have hsplit : (slash :: rest).splitOn slash = List.splitOn slash [] ++ rest.splitOn slash :=
      List.splitOn_append_cons_self [] rest
    rw [hsplit, List.splitOn_nil]
    simp

theorem IsPath.last (h : IsPath path) : path.getLast? ≠ some slash := by
  intro hlast
  obtain ⟨front, rfl⟩ := List.getLast?_eq_some_iff.mp hlast
  refine absurd (h.segments [] ?_) (by decide)
  rw [List.splitOn_append_cons_self, List.splitOn_nil]
  simp

theorem not_contains_backslash : (path.contains 92) = false ↔ ∀ u ∈ path, u ≠ 92 := by
  rw [← Bool.not_eq_true, List.contains_iff_mem]
  exact ⟨fun h u hu heq => h (heq ▸ hu), fun h hmem => h 92 hmem rfl⟩

theorem IsPath.plain (h : IsPath path) :
    path.contains 92 = false ∧ path.any isControl = false ∧ (path.splitOn slash).any isBadSegment = false := by
  refine ⟨not_contains_backslash.mpr fun u hu => (h.units u hu).1, ?_, ?_⟩
  · rw [List.any_eq_false]
    exact fun u hu => by simp [(h.units u hu).2]
  · rw [List.any_eq_false]
    exact fun segment hs => by simp [h.segments segment hs]

theorem validatePath_ok_iff :
    validatePath path = .ok () ↔ IsPath path ∧ pathBytes path ≤ fileManifestMaxPathBytes := by
  constructor
  · intro h
    rw [validatePath] at h
    split at h
    · cases h
    rename_i hlen
    split at h
    · cases h
    rename_i hunits
    split at h
    · cases h
    rename_i hsegments
    simp only [Bool.or_eq_true, decide_eq_true_eq, not_or, Nat.not_lt, Bool.not_eq_true] at hlen hunits hsegments
    refine ⟨⟨?_, ?_⟩, hlen.2⟩
    · intro segment hs
      simpa using (List.any_eq_false.mp hsegments) segment hs
    · intro u hu
      exact ⟨not_contains_backslash.mp hunits.1.2 u hu, by simpa using (List.any_eq_false.mp hunits.2) u hu⟩
  · rintro ⟨h, hlen⟩
    obtain ⟨hbackslash, hcontrol, hsegments⟩ := h.plain
    have hle : ¬ fileManifestMaxPathBytes < pathBytes path := Nat.not_lt.mpr hlen
    have hunits : ¬ (path.head? = some slash || path.getLast? = some slash || path.contains 92 || path.any isControl) = true := by
      rw [hbackslash, hcontrol]
      simp [h.head, h.last]
    rw [validatePath, if_neg (by simp [h.ne_nil, hle]), if_neg hunits, if_neg (by simp [hsegments])]

theorem normalizePath_ok {path normalized : JsString} (h : normalizePath path = .ok normalized) (hne : normalized ≠ []) :
    IsPath normalized := by
  rw [normalizePath] at h
  split at h
  · cases h
    exact absurd rfl hne
  split at h
  · cases h
  rename_i hunits
  split at h
  · cases h
  rename_i hsegments
  cases h
  simp only [Bool.or_eq_true, not_or, Bool.not_eq_true] at hunits hsegments
  refine ⟨?_, ?_⟩
  · intro segment hs
    simpa using (List.any_eq_false.mp hsegments) segment hs
  · intro u hu
    have hmem := List.mem_of_mem_drop hu
    exact ⟨not_contains_backslash.mp hunits.1.2 u hmem, by simpa using (List.any_eq_false.mp hunits.2) u hmem⟩

theorem normalizeMutablePath_ok {path normalized : JsString} (h : normalizeMutablePath path = .ok normalized) :
    IsPath normalized := by
  rw [normalizeMutablePath] at h
  split at h
  · cases h
  · cases h
  · rename_i normalized' hne hok
    cases h
    exact normalizePath_ok hok hne

/-! ## Below a path -/

theorem isBelow_iff {directory path : JsString} : isBelow directory path = true ↔ ∃ tail, path = directory ++ slash :: tail := by
  rw [isBelow, List.isPrefixOf_iff_prefix]
  constructor
  · rintro ⟨tail, rfl⟩
    exact ⟨tail, by simp⟩
  · rintro ⟨tail, rfl⟩
    exact ⟨tail, by simp⟩

theorem isBelow_trans {a b c : JsString} (hab : isBelow a b = true) (hbc : isBelow b c = true) : isBelow a c = true := by
  obtain ⟨t, rfl⟩ := isBelow_iff.mp hab
  obtain ⟨t', rfl⟩ := isBelow_iff.mp hbc
  exact isBelow_iff.mpr ⟨t ++ slash :: t', by simp⟩

theorem isBelow_irrefl (a : JsString) : isBelow a a = false := by
  rw [← Bool.not_eq_true, isBelow_iff]
  rintro ⟨tail, h⟩
  have hlen := congrArg List.length h
  rw [List.length_append, List.length_cons] at hlen
  omega

/-- Of two directories above one path, one is above the other. -/
theorem isBelow_connex {a b c : JsString} (ha : isBelow a c = true) (hb : isBelow b c = true) :
    a = b ∨ isBelow a b = true ∨ isBelow b a = true := by
  obtain ⟨t, rfl⟩ := isBelow_iff.mp ha
  obtain ⟨t', heq⟩ := isBelow_iff.mp hb
  rcases List.append_eq_append_iff.mp heq with ⟨m, rfl, hm⟩ | ⟨m, rfl, hm⟩
  · cases m with
    | nil => exact .inl (by simp)
    | cons u m =>
      rw [List.cons_append, List.cons.injEq] at hm
      obtain ⟨rfl, -⟩ := hm
      exact .inr (.inl (isBelow_iff.mpr ⟨m, rfl⟩))
  · cases m with
    | nil => exact .inl (by simp)
    | cons u m =>
      rw [List.cons_append, List.cons.injEq] at hm
      obtain ⟨rfl, -⟩ := hm
      exact .inr (.inr (isBelow_iff.mpr ⟨m, rfl⟩))

theorem isBelow_append {base a b : JsString} : isBelow (base ++ a) (base ++ b) = isBelow a b := by
  rw [Bool.eq_iff_iff, isBelow_iff, isBelow_iff]
  constructor
  · rintro ⟨tail, h⟩
    rw [List.append_assoc] at h
    exact ⟨tail, List.append_cancel_left h⟩
  · rintro ⟨tail, rfl⟩
    exact ⟨tail, by simp⟩

theorem isBelow_parentPath {directory path : JsString} (h : isBelow directory path = true) :
    directory = parentPath path ∨ isBelow directory (parentPath path) = true := by
  obtain ⟨tail, rfl⟩ := isBelow_iff.mp h
  have hmem : slash ∈ directory ++ slash :: tail := by simp
  -- The parent and the last segment.
  obtain ⟨name, hname, hpath⟩ : ∃ name, slash ∉ name ∧
      directory ++ slash :: tail = parentPath (directory ++ slash :: tail) ++ slash :: name := by
    generalize directory ++ slash :: tail = path at hmem
    have hdrop : ∃ rest, path.reverse.dropWhile (fun u => u != slash) = slash :: rest := by
      cases hcase : path.reverse.dropWhile (fun u => u != slash) with
      | nil =>
        have hall := List.dropWhile_eq_nil_iff.mp hcase
        exact absurd (hall slash (by simpa using hmem)) (by simp)
      | cons u rest =>
        have hhead := List.head?_dropWhile_not (fun u => u != slash) path.reverse
        rw [hcase] at hhead
        simp only [List.head?_cons, bne_eq_false_iff_eq] at hhead
        exact ⟨rest, by rw [hhead]⟩
    obtain ⟨rest, hrest⟩ := hdrop
    have hsplit : path.reverse.takeWhile (fun u => u != slash) ++ slash :: rest = path.reverse := by
      rw [← hrest, List.takeWhile_append_dropWhile]
    refine ⟨(path.reverse.takeWhile fun u => u != slash).reverse, ?_, ?_⟩
    · intro h
      have htake := List.mem_takeWhile_imp (List.mem_reverse.mp h)
      simp at htake
    · have hparent : parentPath path = rest.reverse := by
        rw [parentPath, if_pos (by simpa using hmem), hrest]
        rfl
      have hreverse : path = (path.reverse.takeWhile (fun u => u != slash) ++ slash :: rest).reverse := by
        rw [hsplit, List.reverse_reverse]
      rw [hparent]
      conv_lhs => rw [hreverse]
      simp
  rcases List.append_eq_append_iff.mp hpath with ⟨m, hm, hrest⟩ | ⟨m, hm, hrest⟩
  · cases m with
    | nil => exact .inl (by simpa using hm.symm)
    | cons u m =>
      rw [List.cons_append, List.cons.injEq] at hrest
      obtain ⟨rfl, -⟩ := hrest
      exact .inr (isBelow_iff.mpr ⟨m, hm⟩)
  · cases m with
    | nil => exact .inl (by simpa using hm)
    | cons u m =>
      rw [List.cons_append, List.cons.injEq] at hrest
      obtain ⟨rfl, hrest⟩ := hrest
      exact absurd (by rw [hrest]; simp) hname

/-! ## What the calls keep -/

/-- The value of an entry is a file. -/
def WorkingEntry.isFile : WorkingEntry → Bool
  | directory => false
  | file _ _ _ => true

/-- A file names a blob by its hash, its size and its media type. -/
def ValidEntry : WorkingEntry → Prop
  | .directory => True
  | .file hash size mediaType => IsHash hash ∧ 0 ≤ size ∧ size ≤ maxSafeInteger ∧ IsMediaType mediaType

/-- Entries as the calls leave them. -/
structure Kept (entries : Entries) : Prop where
  nodup : (entries.map Prod.fst).Nodup
  paths : ∀ e ∈ entries, IsPath e.1
  values : ∀ e ∈ entries, ValidEntry e.2
  below : ∀ f ∈ entries, f.2.isFile = true → ∀ e ∈ entries, isBelow f.1 e.1 = false

variable {entries : Entries}

theorem Kept.sublist (h : Kept entries) {entries' : Entries} (hsub : entries'.Sublist entries) : Kept entries' where
  nodup := h.nodup.sublist (hsub.map Prod.fst)
  paths := fun e he => h.paths e (hsub.subset he)
  values := fun e he => h.values e (hsub.subset he)
  below := fun f hf hfile e he => h.below f (hsub.subset hf) hfile e (hsub.subset he)

theorem hasDescendant_iff : hasDescendant entries path = true ↔ ∃ e ∈ entries, isBelow path e.1 = true := by
  rw [hasDescendant, List.any_eq_true]

theorem Kept.free_of_parent (h : Kept entries) (hparent : requireParent entries path = .ok ()) :
    ∀ f ∈ entries, f.2.isFile = true → isBelow f.1 path = false := by
  intro f hf hfile
  rw [← Bool.not_eq_true]
  intro hbelow
  have hfile' : ∃ hash size mediaType, f = (f.1, .file hash size mediaType) := by
    obtain ⟨p, v⟩ := f
    cases v with
    | directory => cases hfile
    | file hash size mediaType => exact ⟨hash, size, mediaType, rfl⟩
  rw [requireParent] at hparent
  rcases isBelow_parentPath hbelow with heq | habove
  · -- The parent is the file itself.
    rw [if_neg (heq ▸ (h.paths f hf).ne_nil)] at hparent
    obtain ⟨hash, size, mediaType, hf'⟩ := hfile'
    have hlookup : entries.lookup (parentPath path) = some (.file hash size mediaType) := by
      rw [JsMap.lookup_iff h.nodup, ← heq, ← hf']
      exact hf
    rw [hlookup] at hparent
    cases hparent
  · have hne : parentPath path ≠ [] := by
      intro hnil
      rw [hnil, isBelow_iff] at habove
      obtain ⟨tail, ht⟩ := habove
      simp at ht
    rw [if_neg hne] at hparent
    split at hparent
    · cases hparent
    · rename_i hlookup
      have hmem := (JsMap.lookup_iff h.nodup).mp hlookup
      rw [h.below f hf hfile _ hmem] at habove
      cases habove
    · split at hparent
      · rename_i hdescendant
        obtain ⟨e, he, hbelow'⟩ := hasDescendant_iff.mp hdescendant
        have hcontra := isBelow_trans habove hbelow'
        rw [h.below f hf hfile e he] at hcontra
        cases hcontra
      · cases hparent

theorem Kept.set (h : Kept entries) {value : WorkingEntry} (hpath : IsPath path) (hvalue : ValidEntry value)
    (hfree : ∀ f ∈ entries, f.2.isFile = true → isBelow f.1 path = false)
    (hleaf : value.isFile = true → hasDescendant entries path = false) : Kept (JsMap.set path value entries) where
  nodup := JsMap.nodup_set value h.nodup
  paths := by
    intro e he
    rcases JsMap.mem_set he with rfl | ⟨hold, -⟩
    · exact hpath
    · exact h.paths e hold
  values := by
    intro e he
    rcases JsMap.mem_set he with rfl | ⟨hold, -⟩
    · exact hvalue
    · exact h.values e hold
  below := by
    intro f hf hfile e he
    rcases JsMap.mem_set hf with rfl | ⟨hfold, -⟩
    · rcases JsMap.mem_set he with rfl | ⟨heold, -⟩
      · exact isBelow_irrefl path
      · rw [← Bool.not_eq_true]
        intro hbelow
        have hdescendant := hasDescendant_iff.mpr ⟨e, heold, hbelow⟩
        rw [hleaf hfile] at hdescendant
        cases hdescendant
    · rcases JsMap.mem_set he with rfl | ⟨heold, -⟩
      · exact hfree f hfold hfile
      · exact h.below f hfold hfile e heold

/-! ## The calls -/

section Calls

variable {cborg : Cborg} {sha256 : Bytes → Bytes} {client : CasBlobClient}

variable {entries' : Entries}

theorem write_kept (hrfc : cborg.Rfc8949) (hsha : ∀ bytes, (sha256 bytes).length = hashSize) (h : Kept entries)
    {path : JsString} {source : List Bytes} {options : CasBlobWriteOptions}
    (hwrite : write cborg sha256 client entries path source options = .ok entries') : Kept entries' := by
  rw [write] at hwrite
  split at hwrite
  · cases hwrite
  rename_i normalized hnormalized
  split at hwrite
  · cases hwrite
  rename_i hparent
  split at hwrite
  · cases hwrite
  rename_i hdirectory
  simp only [Bool.or_eq_true, decide_eq_true_eq, not_or, Bool.not_eq_true] at hdirectory
  have hstore : Outcome (storeBlob cborg sha256 client source options) _ _ := storeBlob_outcome hrfc hsha source
  cases hresult : storeBlob cborg sha256 client source options with
  | error e =>
    rw [hresult] at hwrite
    cases hwrite
  | ok result =>
    rw [hresult] at hwrite hstore
    cases hwrite
    obtain ⟨hadmitted, -, hsize, htype, hhash⟩ := hstore
    refine h.set (normalizeMutablePath_ok hnormalized) ?_ (h.free_of_parent hparent) fun _ => hdirectory.2
    refine ⟨hhash, Int.natCast_nonneg _, ?_, ?_⟩
    · rw [hsize]
      exact_mod_cast hadmitted.size
    · rw [htype]
      exact hadmitted.contentType

theorem mkdir_kept (h : Kept entries) {path : JsString} (hmkdir : mkdir entries path = .ok entries') :
    Kept entries' := by
  rw [mkdir] at hmkdir
  split at hmkdir
  · cases hmkdir
  rename_i normalized hnormalized
  split at hmkdir
  · cases hmkdir
  rename_i hparent
  split at hmkdir
  · cases hmkdir
  · cases hmkdir
    exact h.set (normalizeMutablePath_ok hnormalized) trivial (h.free_of_parent hparent) fun hfile => by cases hfile

theorem remove_kept (h : Kept entries) {path : JsString} (hremove : remove entries path = .ok entries') :
    Kept entries' := by
  rw [remove] at hremove
  split at hremove
  · cases hremove
  split at hremove
  · cases hremove
  · cases hremove
    exact h.sublist (List.filter_sublist.trans List.filter_sublist)

theorem mem_placeAt (h : Kept entries) {source target : JsString} {e : JsString × WorkingEntry}
    (he : e ∈ placeAt source target (entries.lookup source) (descendantsOf entries source) entries) :
    e ∈ entries ∨ ∃ d ∈ entries, ∃ suffix, d.1 = source ++ suffix ∧ (suffix = [] ∨ ∃ tail, suffix = slash :: tail) ∧
      e = (target ++ suffix, d.2) := by
  have hroot : ∀ e ∈ placeEntry target (entries.lookup source) entries, e ∈ entries ∨ ∃ d ∈ entries, ∃ suffix,
      d.1 = source ++ suffix ∧ (suffix = [] ∨ ∃ tail, suffix = slash :: tail) ∧ e = (target ++ suffix, d.2) := by
    intro e he
    cases hlookup : entries.lookup source with
    | some entry =>
      rw [hlookup, placeEntry] at he
      rcases JsMap.mem_set he with rfl | ⟨hold, -⟩
      · exact .inr ⟨(source, entry), (JsMap.lookup_iff h.nodup).mp hlookup, [], by simp, .inl rfl, by simp⟩
      · exact .inl hold
    | none =>
      rw [hlookup] at he
      exact .inl he
  unfold placeAt at he
  rcases JsMap.mem_foldl_set (fun e : JsString × WorkingEntry => target ++ e.1.drop source.length) Prod.snd _ he with hold | ⟨d, hd, rfl⟩
  · exact hroot e hold
  · obtain ⟨hmem, hbelow⟩ := List.mem_filter.mp hd
    obtain ⟨tail, htail⟩ := isBelow_iff.mp hbelow
    exact .inr ⟨d, hmem, slash :: tail, htail, .inr ⟨tail, rfl⟩, by rw [htail, List.drop_left]⟩

theorem placeAt_kept (h : Kept entries) {source target : JsString} (htarget : IsPath target)
    (hfree : ∀ f ∈ entries, f.2.isFile = true → isBelow f.1 target = false) (hnew : JsMap.has target entries = false)
    (hleaf : hasDescendant entries target = false) :
    Kept (placeAt source target (entries.lookup source) (descendantsOf entries source) entries) := by
  -- The images are at the target or below it.
  have himage : ∀ suffix : JsString, (suffix = [] ∨ ∃ tail, suffix = slash :: tail) →
      target ++ suffix = target ∨ isBelow target (target ++ suffix) = true := by
    rintro suffix (rfl | ⟨tail, rfl⟩)
    · exact .inl (List.append_nil _)
    · exact .inr (isBelow_iff.mpr ⟨tail, rfl⟩)
  have hnone : ∀ e ∈ entries, isBelow target e.1 = false := by
    intro e he
    rw [← Bool.not_eq_true]
    intro hbelow
    rw [hasDescendant_iff.mpr ⟨e, he, hbelow⟩] at hleaf
    cases hleaf
  refine ⟨?_, ?_, ?_, ?_⟩
  · refine JsMap.nodup_foldl_set _ _ _ ?_
    cases entries.lookup source with
    | some entry => exact JsMap.nodup_set _ h.nodup
    | none => exact h.nodup
  · intro e he
    rcases mem_placeAt h he with hold | ⟨d, hd, suffix, hpath, hsuffix, rfl⟩
    · exact h.paths e hold
    · rcases hsuffix with rfl | ⟨tail, rfl⟩
      · rw [List.append_nil]
        exact htarget
      · have hdpath := h.paths d hd
        rw [hpath] at hdpath
        refine ⟨?_, ?_⟩
        · intro segment hs
          rw [List.splitOn_append_cons_self, List.mem_append] at hs
          rcases hs with hs | hs
          · exact htarget.segments segment hs
          · refine hdpath.segments segment ?_
            rw [List.splitOn_append_cons_self]
            exact List.mem_append_right _ hs
        · intro u hu
          rcases List.mem_append.mp hu with hu | hu
          · exact htarget.units u hu
          · exact hdpath.units u (List.mem_append_right _ hu)
  · intro e he
    rcases mem_placeAt h he with hold | ⟨d, hd, suffix, -, -, rfl⟩
    · exact h.values e hold
    · exact h.values d hd
  · intro f hf hfile e he
    rcases mem_placeAt h hf with hfold | ⟨df, hdf, sf, hpf, hsf, rfl⟩
    · rcases mem_placeAt h he with heold | ⟨de, hde, se, hpe, hse, rfl⟩
      · exact h.below f hfold hfile e heold
      · rw [← Bool.not_eq_true]
        intro hbelow
        rcases himage se hse with heq | habove
        · rw [heq, hfree f hfold hfile] at hbelow
          cases hbelow
        · rcases isBelow_connex hbelow habove with heq | hup | hdown
          · have hhas : JsMap.has target entries = true :=
              JsMap.has_iff.mpr (List.mem_map.mpr ⟨f, hfold, heq⟩)
            rw [hnew] at hhas
            cases hhas
          · rw [hfree f hfold hfile] at hup
            cases hup
          · rw [hnone f hfold] at hdown
            cases hdown
    · rcases mem_placeAt h he with heold | ⟨de, hde, se, hpe, hse, rfl⟩
      · rw [← Bool.not_eq_true]
        intro hbelow
        rcases himage sf hsf with heq | habove
        · rw [heq, hnone e heold] at hbelow
          cases hbelow
        · have hcontra := isBelow_trans habove hbelow
          rw [hnone e heold] at hcontra
          cases hcontra
      · have horiginal := h.below df hdf hfile de hde
        rw [hpf, hpe, isBelow_append] at horiginal
        rw [isBelow_append]
        exact horiginal

theorem takeAway_sublist (source : JsString) (descendants entries : Entries) :
    (takeAway source descendants entries).Sublist entries := by
  rw [takeAway]
  have hfold : ∀ (ds m : Entries), (ds.foldl (fun map e => JsMap.delete e.1 map) m).Sublist m := by
    intro ds
    induction ds with
    | nil => exact fun m => List.Sublist.refl m
    | cons d ds ih => exact fun m => (ih _).trans List.filter_sublist
  exact (hfold _ _).trans List.filter_sublist

theorem checkPlaces_ok {source target from' to' : JsString} (h : checkPlaces entries source target from' to' = .ok ()) :
    requireParent entries to' = .ok () ∧ JsMap.has to' entries = false ∧ hasDescendant entries to' = false := by
  rw [checkPlaces] at h
  split at h
  · cases h
  split at h
  · cases h
  split at h
  · cases h
  rename_i hparent
  split at h
  · cases h
  rename_i hnew
  simp only [Bool.or_eq_true, not_or, Bool.not_eq_true] at hnew
  exact ⟨hparent, hnew.1, hnew.2⟩

theorem moveOrCopy_kept (h : Kept entries) {source target : JsString} {removeSource : Bool}
    (hmove : moveOrCopy entries source target removeSource = .ok entries') : Kept entries' := by
  rw [moveOrCopy] at hmove
  split at hmove
  · cases hmove
  rename_i from' hfrom
  split at hmove
  · cases hmove
  rename_i to' hto
  split at hmove
  · cases hmove
  rename_i hchecked
  obtain ⟨hparent, hnew, hleaf⟩ := checkPlaces_ok hchecked
  have hplaced := @placeAt_kept _ h from' to' (normalizeMutablePath_ok hto) (h.free_of_parent hparent) hnew hleaf
  cases hmove
  split
  · exact hplaced.sublist (takeAway_sublist _ _ _)
  · exact hplaced

/-- A call keeps the entries well made, whether it fails or not. -/
theorem change_kept (hrfc : cborg.Rfc8949) (hsha : ∀ bytes, (sha256 bytes).length = hashSize) {root : WorkingRoot}
    (h : Kept root.entries) (c : Change) : Kept (change cborg sha256 client root c).entries := by
  rw [change]
  split
  · rename_i entries' happly
    cases c with
    | write path source options => exact write_kept hrfc hsha h happly
    | mkdir path => exact mkdir_kept h happly
    | move source target => exact moveOrCopy_kept h happly
    | copy source target => exact moveOrCopy_kept h happly
    | remove path => exact remove_kept h happly
  · exact h

/-- Calls one after another keep the entries well made. -/
theorem changes_kept (hrfc : cborg.Rfc8949) (hsha : ∀ bytes, (sha256 bytes).length = hashSize) (cs : List Change)
    {root : WorkingRoot} (h : Kept root.entries) : Kept (changes cborg sha256 client root cs).entries := by
  induction cs generalizing root with
  | nil => exact h
  | cons c cs ih => exact ih (change_kept hrfc hsha h c)

theorem changes_frame (cs : List Change) (root : WorkingRoot) :
    changes cborg sha256 client root cs = { root with entries := (changes cborg sha256 client root cs).entries } := by
  induction cs generalizing root with
  | nil => rfl
  | cons c cs ih =>
    have hone : ∃ entries', change cborg sha256 client root c = { root with entries := entries' } := by
      rw [change]
      split
      · exact ⟨_, rfl⟩
      · exact ⟨root.entries, rfl⟩
    obtain ⟨entries', hone⟩ := hone
    have hcons : changes cborg sha256 client root (c :: cs) = changes cborg sha256 client { root with entries := entries' } cs := by
      rw [← hone]
      rfl
    rw [hcons]
    exact ih _

end Calls

end UniDocs.Files
