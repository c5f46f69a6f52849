import UniDocs.Lib.StableSort
import UniDocs.Lemmas.FileEntries

/-!
# The format of a file manifest

What the validator accepts, that a manifest built from sorted entries is accepted, and that it is read back from its
encoding with the strings of its paths made well formed.
-/

namespace UniDocs.Files

open Lib Lib.Cbor UniDocs.Cas UniDocs.Codec UniDocs.Blob

/-! ## The order of paths -/

theorem lt_of_isBelow {a b : JsString} (h : isBelow a b = true) : a < b := by
  obtain ⟨tail, rfl⟩ := isBelow_iff.mp h
  clear h
  induction a with
  | nil => exact List.nil_lt_cons _ _
  | cons u a ih => exact List.cons_lt_cons_iff.mpr (.inr ⟨rfl, ih⟩)

theorem lt_asymm_path {a b : JsString} (h : a < b) : ¬ b < a := fun h' => List.lt_irrefl a (List.lt_trans h h')

theorem lt_or_gt_path {a b : JsString} (h : a ≠ b) : a < b ∨ b < a := by
  by_cases hab : a < b
  · exact .inl hab
  · by_cases hba : b < a
    · exact .inr hba
    · exact absurd (List.le_antisymm hba hab) h

/-! ## What the validator accepts -/

/-- An entry is a file. -/
def TenantFileManifestEntry.isFile : TenantFileManifestEntry → Bool
  | directory _ => false
  | file _ _ _ _ => true

/-- The files are numbered from a position on, and each has a size and a media type. -/
def FilesValid : Nat → List TenantFileManifestEntry → Prop
  | _, [] => True
  | n, .directory _ :: rest => FilesValid n rest
  | n, .file _ ref size mediaType :: rest => validateFile n ref size mediaType = .ok () ∧ FilesValid (n + 1) rest

/-- Entries that follow a path and a list of files in a manifest. -/
structure ValidAfter (previousPath : JsString) (fileCount : Nat) (filePaths : List JsString)
    (entries : List TenantFileManifestEntry) : Prop where
  paths : ∀ e ∈ entries, IsPath e.path ∧ pathBytes e.path ≤ fileManifestMaxPathBytes
  sorted : (previousPath :: entries.map TenantFileManifestEntry.path).Pairwise (· < ·)
  outside : ∀ e ∈ entries, ∀ f ∈ filePaths, isBelow f e.path = false
  below : ∀ f ∈ entries, f.isFile = true → ∀ e ∈ entries, isBelow f.path e.path = false
  files : FilesValid fileCount entries

theorem ValidAfter.nil (previousPath : JsString) (fileCount : Nat) (filePaths : List JsString) :
    ValidAfter previousPath fileCount filePaths [] where
  paths := by simp
  sorted := by simp
  outside := by simp
  below := by simp
  files := trivial

/-- No path is below a path that does not come before it. -/
theorem not_isBelow_of_le {a b : JsString} (h : ¬ a < b) : isBelow a b = false := by
  rw [← Bool.not_eq_true]
  exact fun hbelow => h (lt_of_isBelow hbelow)

theorem validAfter_cons_iff {previousPath : JsString} {fileCount : Nat} {filePaths : List JsString}
    {entry : TenantFileManifestEntry} {rest : List TenantFileManifestEntry} {filePaths' : List JsString} {fileCount' : Nat}
    (hpaths : filePaths' = if entry.isFile then filePaths ++ [entry.path] else filePaths)
    (hfiles : FilesValid fileCount (entry :: rest) ↔ FilesValid fileCount [entry] ∧ FilesValid fileCount' rest) :
    ValidAfter previousPath fileCount filePaths (entry :: rest) ↔
      (IsPath entry.path ∧ pathBytes entry.path ≤ fileManifestMaxPathBytes) ∧ previousPath < entry.path ∧
        (∀ f ∈ filePaths, isBelow f entry.path = false) ∧ FilesValid fileCount [entry] ∧
        ValidAfter entry.path fileCount' filePaths' rest := by
  constructor
  · intro h
    obtain ⟨hfirst, hrest⟩ := List.pairwise_cons.mp h.sorted
    refine ⟨h.paths entry List.mem_cons_self, hfirst _ List.mem_cons_self, h.outside entry List.mem_cons_self,
      (hfiles.mp h.files).1, ?_⟩
    refine ⟨fun e he => h.paths e (List.mem_cons_of_mem _ he), hrest, ?_,
      fun f hf hfile e he => h.below f (List.mem_cons_of_mem _ hf) hfile e (List.mem_cons_of_mem _ he), (hfiles.mp h.files).2⟩
    intro e he f hf
    rw [hpaths] at hf
    split at hf
    · rename_i hfile
      rcases List.mem_append.mp hf with hold | hone
      · exact h.outside e (List.mem_cons_of_mem _ he) f hold
      · rw [List.mem_singleton.mp hone]
        exact h.below entry List.mem_cons_self hfile e (List.mem_cons_of_mem _ he)
    · exact h.outside e (List.mem_cons_of_mem _ he) f hf
  · rintro ⟨hpath, hlt, houtside, hfile, h⟩
    have hsorted : ∀ p ∈ rest.map TenantFileManifestEntry.path, entry.path < p := (List.pairwise_cons.mp h.sorted).1
    have hold : ∀ f ∈ filePaths, f ∈ filePaths' := by
      intro f hf
      rw [hpaths]
      split
      · exact List.mem_append_left _ hf
      · exact hf
    refine ⟨?_, ?_, ?_, ?_, hfiles.mpr ⟨hfile, h.files⟩⟩
    · intro e he
      rcases List.mem_cons.mp he with rfl | hrest
      · exact hpath
      · exact h.paths e hrest
    · refine List.pairwise_cons.mpr ⟨?_, h.sorted⟩
      intro p hp
      rcases List.mem_cons.mp hp with rfl | hrest
      · exact hlt
      · exact List.lt_trans hlt (hsorted p hrest)
    · intro e he f hf
      rcases List.mem_cons.mp he with rfl | hrest
      · exact houtside f hf
      · exact h.outside e hrest f (hold f hf)
    · intro f hf hfile' e he
      rcases List.mem_cons.mp hf with rfl | hfrest
      · rcases List.mem_cons.mp he with rfl | herest
        · exact isBelow_irrefl _
        · refine h.outside e herest _ ?_
          rw [hpaths, if_pos hfile']
          simp
      · rcases List.mem_cons.mp he with rfl | herest
        · exact not_isBelow_of_le (lt_asymm_path (hsorted _ (List.mem_map_of_mem hfrest)))
        · exact h.below f hfrest hfile' e herest

theorem validatePlace_ok_iff {previousPath : JsString} {filePaths : List JsString} {path : JsString} :
    validatePlace previousPath filePaths path = .ok () ↔
      (IsPath path ∧ pathBytes path ≤ fileManifestMaxPathBytes) ∧ previousPath < path ∧
        ∀ f ∈ filePaths, isBelow f path = false := by
  rw [validatePlace, ← validatePath_ok_iff]
  constructor
  · intro h
    split at h
    · cases h
    rename_i hpath
    split at h
    · cases h
    rename_i hlt
    split at h
    · cases h
    rename_i hfind
    exact ⟨hpath, Decidable.not_not.mp hlt, fun f hf => by simpa using List.find?_eq_none.mp hfind f hf⟩
  · rintro ⟨hpath, hlt, houtside⟩
    have hfind : (filePaths.find? fun filePath => isBelow filePath path) = none :=
      List.find?_eq_none.mpr fun f hf => by simp [houtside f hf]
    rw [hpath]
    simp only [hlt, not_true_eq_false, if_false, hfind]

/-- The loop of the validator accepts exactly the entries that are valid where they stand. -/
theorem validateEntries_ok_iff {entries : List TenantFileManifestEntry} : ∀ {previousPath : JsString} {fileCount : Nat}
    {filePaths : List JsString} {total : Nat}, validateEntries previousPath fileCount filePaths entries = .ok total ↔
      ValidAfter previousPath fileCount filePaths entries ∧ total = fileCount + (fileRefsOf entries).length := by
  induction entries with
  | nil =>
    intro previousPath fileCount filePaths total
    rw [validateEntries, fileRefsOf, Except.ok.injEq]
    exact ⟨fun h => ⟨ValidAfter.nil _ _ _, h.symm⟩, fun h => h.2.symm⟩
  | cons entry rest ih =>
    intro previousPath fileCount filePaths total
    cases entry with
    | directory path =>
      have hcons := @validAfter_cons_iff previousPath fileCount filePaths (.directory path) rest filePaths fileCount rfl
        (by simp [FilesValid])
      rw [hcons, validateEntries, fileRefsOf]
      constructor
      · intro h
        split at h
        · cases h
        rename_i hplace
        obtain ⟨hpath, hlt, houtside⟩ := validatePlace_ok_iff.mp hplace
        obtain ⟨hrest, htotal⟩ := ih.mp h
        exact ⟨⟨hpath, hlt, houtside, trivial, hrest⟩, htotal⟩
      · rintro ⟨⟨hpath, hlt, houtside, -, hrest⟩, htotal⟩
        have hplace : validatePlace previousPath filePaths path = .ok () := validatePlace_ok_iff.mpr ⟨hpath, hlt, houtside⟩
        rw [hplace]
        exact ih.mpr ⟨hrest, htotal⟩
    | file path ref size mediaType =>
      have hcons := @validAfter_cons_iff previousPath fileCount filePaths (.file path ref size mediaType) rest
        (filePaths ++ [path]) (fileCount + 1) rfl (by simp [FilesValid])
      rw [hcons, validateEntries, fileRefsOf, List.length_cons]
      constructor
      · intro h
        split at h
        · cases h
        rename_i hplace
        split at h
        · cases h
        rename_i hfile
        obtain ⟨hpath, hlt, houtside⟩ := validatePlace_ok_iff.mp hplace
        obtain ⟨hrest, htotal⟩ := ih.mp h
        exact ⟨⟨hpath, hlt, houtside, ⟨hfile, trivial⟩, hrest⟩, by omega⟩
      · rintro ⟨⟨hpath, hlt, houtside, hfile, hrest⟩, htotal⟩
        have hplace : validatePlace previousPath filePaths path = .ok () := validatePlace_ok_iff.mpr ⟨hpath, hlt, houtside⟩
        rw [hplace, hfile.1]
        exact ih.mpr ⟨hrest, by omega⟩

/-- A manifest that the validator accepts. -/
theorem validateFileManifest_ok_iff {manifest : TenantFileManifestV1} :
    validateFileManifest manifest = .ok () ↔ manifest.version = fileManifestVersion ∧
      manifest.entries.length ≤ fileManifestMaxEntries ∧ ValidAfter [] 0 [] manifest.entries ∧
        (fileRefsOf manifest.entries).length ≤ fileManifestMaxFiles := by
  rw [validateFileManifest]
  constructor
  · intro h
    split at h
    · cases h
    rename_i hversion
    split at h
    · cases h
    rename_i hlen
    split at h
    · cases h
    rename_i fileCount hentries
    split at h
    · cases h
    rename_i hfiles
    obtain ⟨hvalid, rfl⟩ := validateEntries_ok_iff.mp hentries
    exact ⟨Decidable.not_not.mp hversion, Nat.not_lt.mp hlen, hvalid, by omega⟩
  · rintro ⟨hversion, hlen, hvalid, hfiles⟩
    have hentries := validateEntries_ok_iff.mpr ⟨hvalid, rfl⟩
    have hle : ¬ fileManifestMaxEntries < manifest.entries.length := Nat.not_lt.mpr hlen
    have hle' : ¬ fileManifestMaxFiles < 0 + (fileRefsOf manifest.entries).length := by omega
    rw [if_neg (by simp [hversion]), if_neg hle, hentries]
    simp only [hle', if_false]

theorem validateFile_ok_iff {fileCount : Nat} {ref size : Int} {mediaType : String} :
    validateFile fileCount ref size mediaType = .ok () ↔
      ref = fileCount ∧ (0 ≤ size ∧ size ≤ maxSafeInteger) ∧ IsMediaType mediaType := by
  rw [validateFile]
  constructor
  · intro h
    split at h
    · cases h
    rename_i href
    split at h
    · cases h
    rename_i hsize
    split at h
    · cases h
    rename_i hmedia
    simp only [Bool.or_eq_true, decide_eq_true_eq, not_or, Int.not_lt] at hsize
    exact ⟨Decidable.not_not.mp href, ⟨hsize.2, by omega⟩, Decidable.not_not.mp hmedia⟩
  · rintro ⟨rfl, hsize, hmedia⟩
    have hsafe : ¬ (decide ((maxSafeInteger : Int) < size.natAbs) || decide (size < 0)) = true := by
      simp only [Bool.or_eq_true, decide_eq_true_eq, not_or, Int.not_lt]
      omega
    rw [if_neg (by simp), if_neg hsafe, if_neg (by simpa using hmedia)]

/-! ## The manifest of sorted entries -/

section Manifest

variable {l : Entries}

theorem manifestEntries_paths (n : Int) (l : Entries) :
    (manifestEntries n l).map TenantFileManifestEntry.path = l.map Prod.fst := by
  induction l generalizing n with
  | nil => rfl
  | cons e l ih =>
    obtain ⟨path, value⟩ := e
    cases value with
    | directory => exact congrArg (path :: ·) (ih n)
    | file hash size mediaType => exact congrArg (path :: ·) (ih (n + 1))

theorem mem_manifestEntries {n : Int} {e : TenantFileManifestEntry} (he : e ∈ manifestEntries n l) :
    ∃ e' ∈ l, e.path = e'.1 ∧ e.isFile = e'.2.isFile := by
  induction l generalizing n with
  | nil => cases he
  | cons e' l ih =>
    obtain ⟨path, value⟩ := e'
    cases value with
    | directory =>
      rcases List.mem_cons.mp he with rfl | hrest
      · exact ⟨_, List.mem_cons_self, rfl, rfl⟩
      · obtain ⟨e', he', h⟩ := ih hrest
        exact ⟨e', List.mem_cons_of_mem _ he', h⟩
    | file hash size mediaType =>
      rcases List.mem_cons.mp he with rfl | hrest
      · exact ⟨_, List.mem_cons_self, rfl, rfl⟩
      · obtain ⟨e', he', h⟩ := ih hrest
        exact ⟨e', List.mem_cons_of_mem _ he', h⟩

theorem filesValid_manifestEntries (n : Nat) (h : ∀ e ∈ l, ValidEntry e.2) : FilesValid n (manifestEntries n l) := by
  induction l generalizing n with
  | nil => trivial
  | cons e l ih =>
    obtain ⟨path, value⟩ := e
    have hrest : ∀ e ∈ l, ValidEntry e.2 := fun e he => h e (List.mem_cons_of_mem _ he)
    cases value with
    | directory => exact ih n hrest
    | file hash size mediaType =>
      obtain ⟨-, hpos, hle, hmedia⟩ := h _ List.mem_cons_self
      exact ⟨validateFile_ok_iff.mpr ⟨rfl, ⟨hpos, hle⟩, hmedia⟩, ih (n + 1) hrest⟩

theorem renumber_manifestEntries (n m : Int) (l : Entries) : renumber n (manifestEntries m l) = manifestEntries n l := by
  induction l generalizing n m with
  | nil => rfl
  | cons e l ih =>
    obtain ⟨path, value⟩ := e
    cases value with
    | directory => exact congrArg (_ :: ·) (ih n m)
    | file hash size mediaType => exact congrArg (_ :: ·) (ih (n + 1) (m + 1))

theorem length_fileRefsOf (n : Int) (l : Entries) : (fileRefsOf (manifestEntries n l)).length = (fileHashes l).length := by
  induction l generalizing n with
  | nil => rfl
  | cons e l ih =>
    obtain ⟨path, value⟩ := e
    cases value with
    | directory => exact ih n
    | file hash size mediaType => exact congrArg (· + 1) (ih (n + 1))

theorem validAfter_manifestEntries (h : Kept l) (hbytes : ∀ e ∈ l, pathBytes e.1 ≤ fileManifestMaxPathBytes) :
    ValidAfter [] 0 [] (manifestEntries 0 l) ↔ (l.map Prod.fst).Pairwise (· < ·) := by
  constructor
  · intro hvalid
    rw [← manifestEntries_paths 0 l]
    exact (List.pairwise_cons.mp hvalid.sorted).2
  · intro hsorted
    refine ⟨?_, ?_, by simp, ?_, filesValid_manifestEntries 0 h.values⟩
    · intro e he
      obtain ⟨e', he', hpath, -⟩ := mem_manifestEntries he
      rw [hpath]
      exact ⟨h.paths e' he', hbytes e' he'⟩
    · rw [manifestEntries_paths]
      refine List.pairwise_cons.mpr ⟨?_, hsorted⟩
      intro p hp
      obtain ⟨e, he, rfl⟩ := List.mem_map.mp hp
      cases hcase : e.1 with
      | nil => exact absurd hcase (h.paths e he).ne_nil
      | cons u rest => exact List.nil_lt_cons _ _
    · intro f hf hfile e he
      obtain ⟨f', hf', hpathf, hfile'⟩ := mem_manifestEntries hf
      obtain ⟨e', he', hpathe, -⟩ := mem_manifestEntries he
      rw [hpathf, hpathe]
      exact h.below f' hf' (hfile' ▸ hfile) e' he'

/-- The manifest of sorted entries. -/
def manifestOf (l : Entries) : TenantFileManifestV1 := ⟨fileManifestVersion, manifestEntries 0 l⟩

theorem createFileManifest_sorted {localeCompare : JsString → JsString → Int}
    (h : l.Pairwise fun a b => localeCompare a.1 b.1 ≤ 0) {manifest : TenantFileManifestV1} :
    createFileManifest localeCompare (manifestEntries 0 l) = .ok manifest ↔
      validateFileManifest (manifestOf l) = .ok () ∧ manifest = manifestOf l := by
  have hpaths : (manifestEntries 0 l).Pairwise fun a b => localeCompare a.path b.path ≤ 0 := by
    have hmap : ((manifestEntries 0 l).map TenantFileManifestEntry.path).Pairwise fun a b => localeCompare a b ≤ 0 := by
      rw [manifestEntries_paths]
      exact List.pairwise_map.mpr h
    exact List.pairwise_map.mp hmap
  have hsame : (manifestEntries 0 l).insertionSort (fun left right => localeCompare left.path right.path ≤ 0) =
      manifestEntries 0 l := hpaths.insertionSort_eq
  have hmanifest : (⟨fileManifestVersion, renumber 0 (manifestEntries 0 l)⟩ : TenantFileManifestV1) = manifestOf l := by
    rw [renumber_manifestEntries]
    rfl
  rw [createFileManifest]
  simp only [hsame, hmanifest]
  cases validateFileManifest (manifestOf l) with
  | error e => simp
  | ok u => simp [eq_comm]

end Manifest

/-! ## Encoding and decoding -/

/-- An entry whose tokens hold exact numbers. -/
def EntryFits : TenantFileManifestEntry → Prop
  | .directory path => pathBytes path ≤ fileManifestMaxPathBytes
  | .file path ref size mediaType => pathBytes path ≤ fileManifestMaxPathBytes ∧ (0 ≤ ref ∧ ref ≤ maxSafeInteger) ∧
      (0 ≤ size ∧ size ≤ maxSafeInteger) ∧ IsMediaType mediaType

theorem entryFits_of_valid {entries : List TenantFileManifestEntry} {n : Nat} (hpaths : ∀ e ∈ entries, pathBytes e.path ≤ fileManifestMaxPathBytes)
    (hfiles : FilesValid n entries) (hcount : n + (fileRefsOf entries).length ≤ maxSafeInteger) : ∀ e ∈ entries, EntryFits e := by
  induction entries generalizing n with
  | nil => simp
  | cons entry rest ih =>
    have hrest : ∀ e ∈ rest, pathBytes e.path ≤ fileManifestMaxPathBytes := fun e he => hpaths e (List.mem_cons_of_mem _ he)
    have hpath := hpaths entry List.mem_cons_self
    intro e he
    cases entry with
    | directory path =>
      rcases List.mem_cons.mp he with rfl | hmem
      · exact hpath
      · exact ih hrest hfiles hcount e hmem
    | file path ref size mediaType =>
      obtain ⟨hfile, hfiles'⟩ := hfiles
      rw [fileRefsOf, List.length_cons] at hcount
      obtain ⟨rfl, hsize, hmedia⟩ := validateFile_ok_iff.mp hfile
      rcases List.mem_cons.mp he with rfl | hmem
      · exact ⟨hpath, ⟨Int.natCast_nonneg _, by omega⟩, hsize, hmedia⟩
      · exact ih hrest hfiles' (by omega) e hmem

theorem entryFits_of_validated {manifest : TenantFileManifestV1} (h : validateFileManifest manifest = .ok ()) :
    ∀ e ∈ manifest.entries, EntryFits e := by
  obtain ⟨-, -, hvalid, hfiles⟩ := validateFileManifest_ok_iff.mp h
  refine entryFits_of_valid (fun e he => (hvalid.paths e he).2) hvalid.files ?_
  simp only [fileManifestMaxFiles] at hfiles
  simp only [maxSafeInteger]
  omega

theorem tokensOfItems_flatMap (items : List Item) : tokensOfItems items = items.flatMap Item.tokens := by
  induction items with
  | nil => rfl
  | cons item items ih => rw [tokensOfItems, ih, List.flatMap_cons]

/-- The tokens of an entry. -/
def entryTokens (entry : TenantFileManifestEntry) : List Token := (wireEntry entry).tokens

theorem wireManifest_tokens (manifest : TenantFileManifestV1) : (wireManifest manifest).tokens =
    [.map 2, .text "e", .array manifest.entries.length] ++ manifest.entries.flatMap entryTokens ++
      [.text "v", .int manifest.version] := by
  have hitems : tokensOfItems (manifest.entries.map wireEntry) = manifest.entries.flatMap entryTokens := by
    rw [tokensOfItems_flatMap, List.flatMap_map]
    rfl
  simp [wireManifest, Item.tokens, tokensOfEntries, hitems]

theorem entryTokens_valid {entry : TenantFileManifestEntry} (h : EntryFits entry) : ∀ token ∈ entryTokens entry, token.Valid := by
  have hint : ∀ n : Int, 0 ≤ n → n ≤ maxSafeInteger → (Token.int n).Valid := by
    intro n hpos hle
    simp only [maxSafeInteger] at hle
    constructor <;> omega
  have hpath : ∀ path : JsString, pathBytes path ≤ fileManifestMaxPathBytes → (Token.text path.toText).Valid := by
    intro path hle
    simp only [pathBytes, fileManifestMaxPathBytes] at hle
    simp only [Token.Valid]
    omega
  intro token htoken
  cases entry with
  | directory path =>
    simp only [entryTokens, wireEntry, Item.tokens, tokensOfItems, List.mem_cons, List.mem_append, List.not_mem_nil,
      or_false, List.length_cons, List.length_nil] at htoken
    rcases htoken with rfl | rfl | rfl
    · exact (by decide : 0 + 1 + 1 < 2 ^ 53)
    · exact (by decide : (utf8 "d").length < 2 ^ 53)
    · exact hpath path h
  | file path ref size mediaType =>
    obtain ⟨hle, href, hsize, hmedia⟩ := h
    have htext : (Token.text mediaType).Valid := by
      have hlen := hmedia.2.1
      simp only [Token.Valid, hmedia.length_utf8]
      omega
    simp only [entryTokens, wireEntry, Item.tokens, tokensOfItems, List.mem_cons, List.mem_append, List.not_mem_nil,
      or_false, List.length_cons, List.length_nil] at htoken
    rcases htoken with rfl | rfl | rfl | rfl | rfl | rfl
    · exact (by decide : 0 + 1 + 1 + 1 + 1 + 1 < 2 ^ 53)
    · exact (by decide : (utf8 "f").length < 2 ^ 53)
    · exact hpath path hle
    · exact hint ref href.1 href.2
    · exact hint size hsize.1 hsize.2
    · exact htext

theorem wireManifest_valid {manifest : TenantFileManifestV1} (h : validateFileManifest manifest = .ok ()) :
    (wireManifest manifest).Canonical ∧ (∀ token ∈ (wireManifest manifest).tokens, token.Valid) ∧
      ∀ number, Token.tag number ∉ (wireManifest manifest).tokens := by
  obtain ⟨hversion, hlen, -, -⟩ := validateFileManifest_ok_iff.mp h
  simp only [fileManifestMaxEntries] at hlen
  have hitems : canonicalItems (manifest.entries.map wireEntry) := by
    generalize manifest.entries = entries
    induction entries with
    | nil => trivial
    | cons entry entries ih =>
      refine ⟨?_, ih⟩
      cases entry with
      | directory path => exact ⟨trivial, trivial, trivial⟩
      | file path ref size mediaType => exact ⟨trivial, trivial, trivial, trivial, trivial, trivial⟩
  refine ⟨⟨?_, hitems, trivial, trivial⟩, ?_, ?_⟩
  · have hkey : keyLt "e" "v" := by
      rw [keyLt]
      exact Or.inr ⟨rfl, Or.inl (by decide)⟩
    simpa using hkey
  · intro token htoken
    rw [wireManifest_tokens] at htoken
    simp only [List.mem_append, List.mem_cons, List.not_mem_nil, or_false, List.mem_flatMap] at htoken
    rcases htoken with ((rfl | rfl | rfl) | ⟨e, he, htoken⟩) | rfl | rfl
    · exact (by decide : 2 < 2 ^ 53)
    · exact (by decide : (utf8 "e").length < 2 ^ 53)
    · simp only [Token.Valid]
      omega
    · exact entryTokens_valid (entryFits_of_validated h e he) token htoken
    · exact (by decide : (utf8 "v").length < 2 ^ 53)
    · rw [hversion]
      exact (by decide : -(2 ^ 53) < (1 : Int) ∧ (1 : Int) < 2 ^ 53)
  · intro number htag
    rw [wireManifest_tokens] at htag
    simp only [List.mem_append, List.mem_cons, List.not_mem_nil, or_false, List.mem_flatMap, reduceCtorEq, false_or,
      or_false] at htag
    obtain ⟨e, -, htag⟩ := htag
    cases e <;> simp [entryTokens, wireEntry, Item.tokens, tokensOfItems] at htag

/-- An entry takes less than four kilobytes. -/
theorem length_entryTokens_le {entry : TenantFileManifestEntry} (h : EntryFits entry) :
    (encodeTokens (entryTokens entry)).length ≤ 4096 := by
  have hpath : ∀ path : JsString, pathBytes path ≤ fileManifestMaxPathBytes →
      (Token.encode (.text path.toText)).length ≤ 1033 := by
    intro path hle
    have hhead := length_head_le 3 (utf8 path.toText).length
    simp only [pathBytes, fileManifestMaxPathBytes] at hle
    simp only [Token.encode, List.length_append]
    omega
  have hkeys : (Token.encode (.text "d")).length = 2 ∧ (Token.encode (.text "f")).length = 2 ∧
      (Token.encode (.array 2)).length = 1 ∧ (Token.encode (.array 5)).length = 1 := by decide
  obtain ⟨hd, hf, h2, h5⟩ := hkeys
  cases entry with
  | directory path =>
    have hle := hpath path h
    have htokens : entryTokens (.directory path) = [.array 2, .text "d", .text path.toText] := by
      simp [entryTokens, wireEntry, Item.tokens, tokensOfItems]
    rw [htokens]
    simp only [encodeTokens, List.flatMap_cons, List.flatMap_nil, List.length_append, List.length_nil]
    omega
  | file path ref size mediaType =>
    obtain ⟨hle, -, -, hmedia⟩ := h
    have hpath' := hpath path hle
    have href := length_int_le ref
    have hsize := length_int_le size
    have hhead := length_head_le 3 (utf8 mediaType).length
    have hlen := hmedia.2.1
    have hutf8 := hmedia.length_utf8
    have htext : (Token.encode (.text mediaType)).length ≤ 9 + mediaType.length := by
      simp only [Token.encode, List.length_append]
      omega
    have htokens : entryTokens (.file path ref size mediaType) =
        [.array 5, .text "f", .text path.toText, .int ref, .int size, .text mediaType] := by
      simp [entryTokens, wireEntry, Item.tokens, tokensOfItems]
    rw [htokens]
    simp only [encodeTokens, List.flatMap_cons, List.flatMap_nil, List.length_append, List.length_nil]
    omega

/-- A manifest takes less than seventeen megabytes. -/
theorem length_wireManifest_le {manifest : TenantFileManifestV1} (h : validateFileManifest manifest = .ok ()) :
    (encodeTokens (wireManifest manifest).tokens).length ≤ 4096 * 4096 + 64 := by
  obtain ⟨-, hlen, -, -⟩ := validateFileManifest_ok_iff.mp h
  have hfits := entryFits_of_validated h
  simp only [fileManifestMaxEntries] at hlen
  have hentries : (encodeTokens (manifest.entries.flatMap entryTokens)).length ≤ 4096 * manifest.entries.length := by
    clear hlen
    generalize manifest.entries = entries at hfits
    induction entries with
    | nil => simp
    | cons entry entries ih =>
      have hentry := length_entryTokens_le (hfits entry List.mem_cons_self)
      have hrest := ih fun e he => hfits e (List.mem_cons_of_mem _ he)
      rw [List.flatMap_cons, encodeTokens_append, List.length_append, List.length_cons]
      omega
  have hkeys : (Token.encode (.text "e")).length = 2 ∧ (Token.encode (.text "v")).length = 2 ∧
      (Token.encode (.map 2)).length = 1 := by decide
  obtain ⟨he, hv, hmap⟩ := hkeys
  have harray : (Token.encode (.array manifest.entries.length)).length ≤ 9 := length_head_le 4 _
  have hversion := length_int_le manifest.version
  rw [wireManifest_tokens, encodeTokens_append, encodeTokens_append]
  simp only [encodeTokens_cons, encodeTokens_nil, List.length_append, List.length_nil]
  omega

section Codec

variable {cborg : Cborg}

theorem encodeFileManifest_ok (hrfc : cborg.Rfc8949) {manifest : TenantFileManifestV1}
    (h : validateFileManifest manifest = .ok ()) :
    encodeFileManifest cborg manifest = .ok (encodeTokens (wireManifest manifest).tokens) := by
  obtain ⟨hcanonical, hvalid, -⟩ := wireManifest_valid h
  rw [encodeFileManifest, h]
  simp only
  rw [hrfc.encode_canonical _ hcanonical hvalid]

theorem decodeEntry_wireEntry (entry : TenantFileManifestEntry) (h : entry.path.IsWellFormed) :
    decodeEntry (wireEntry entry) = .ok entry := by
  cases entry with
  | directory path =>
    have hpath : JsString.ofString path.toText = path := h
    simp only [wireEntry, decodeEntry, if_true, hpath]
  | file path ref size mediaType =>
    have hpath : JsString.ofString path.toText = path := h
    simp only [wireEntry, decodeEntry, isNumber, wireNumber, decide_true, Bool.and_self, if_true, hpath]

theorem mapM_decodeEntry {entries : List TenantFileManifestEntry} (h : ∀ e ∈ entries, e.path.IsWellFormed) :
    (entries.map wireEntry).mapM decodeEntry = .ok entries := by
  induction entries with
  | nil => rfl
  | cons entry entries ih =>
    rw [List.map_cons, List.mapM_cons, decodeEntry_wireEntry entry (h entry List.mem_cons_self),
      ih fun e he => h e (List.mem_cons_of_mem _ he)]
    rfl

theorem decodeFileManifest_encode (hrfc : cborg.Rfc8949) {manifest : TenantFileManifestV1}
    (h : validateFileManifest manifest = .ok ()) (hpaths : ∀ e ∈ manifest.entries, e.path.IsWellFormed) :
    decodeFileManifest cborg (encodeTokens (wireManifest manifest).tokens) = .ok manifest := by
  obtain ⟨hcanonical, hvalid, htag⟩ := wireManifest_valid h
  have hdecode := hrfc.decode_encode _ hcanonical hvalid htag
  have hencode := encodeFileManifest_ok hrfc h
  obtain ⟨fields, hfields⟩ : ∃ fields, wireManifest manifest = .map fields := ⟨_, rfl⟩
  have hkeys : joinedKeys fields = "e,v" := by
    have hlist : String.intercalate "," (["e", "v"].dedup.insertionSort (· ≤ ·)) = "e,v" := by
      decide
    cases hfields
    exact hlist
  have hproperties : property fields "e" = .array (manifest.entries.map wireEntry) ∧
      property fields "v" = .int manifest.version := by
    cases hfields
    simp [property]
  obtain ⟨he, hv⟩ := hproperties
  rw [decodeFileManifest, hdecode.trans (congrArg Except.ok hfields)]
  simp only [hkeys, ne_eq, not_true_eq_false, if_false, he, hv, mapM_decodeEntry hpaths, wireNumber, h, hencode]

end Codec

end UniDocs.Files
