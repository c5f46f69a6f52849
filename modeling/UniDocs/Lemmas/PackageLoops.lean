import UniDocs.Docx.PackageAdapter

/-!
# The loops over the parts of a package

What the checks of `extractOpenXmlPackage` and `buildOpenXmlPackage` ask of the parts, without the order in which the loops meet
them.
-/

namespace UniDocs.Docx

open Lib

variable {lib : OfficeLibrary} {limits : OpenXmlPackageLimits} {opc : OpcPackage} {archive : ZipArchive} {tally : Tally}

/-! ## Paths -/

theorem canonicalPackagePath_relative {name path : JsString} (h : canonicalPackagePath lib limits false name = .ok path) :
    path = slash :: name ∧ canonicalPackagePath lib limits true path = .ok path := by
  unfold canonicalPackagePath at h
  rw [check_ok_iff, check_ok_iff, check_ok_iff] at h
  obtain ⟨hchars, hrelative, -, h⟩ := h
  have hname : name.head? ≠ some slash := fun hhead => hrelative ⟨rfl, hhead⟩
  dsimp only at h
  rw [if_neg hname, check_ok_iff, bind_ok_iff] at h
  obtain ⟨hlength, u, hvalid, hpath⟩ := h
  have hpath := pure_ok_iff.mp hpath
  subst hpath
  refine ⟨rfl, ?_⟩
  have hchars' : ¬ ((slash :: name).length = 0 ∨ 92 ∈ slash :: name ∨ 63 ∈ slash :: name ∨ 35 ∈ slash :: name) := by
    rw [not_or, not_or, not_or] at hchars ⊢
    have h92 : (92 : UInt16) ≠ slash := by decide
    have h63 : (63 : UInt16) ≠ slash := by decide
    have h35 : (35 : UInt16) ≠ slash := by decide
    simp only [List.length_cons, Nat.succ_ne_zero, not_false_eq_true, List.mem_cons, h92, h63, h35, false_or, true_and]
    exact hchars.2
  have hhead : (slash :: name).head? = some slash := rfl
  unfold canonicalPackagePath
  rw [check_ok_iff, check_ok_iff, check_ok_iff]
  refine ⟨hchars', fun hfalse => Bool.noConfusion hfalse.1, fun hne => hne.2 hhead, ?_⟩
  dsimp only
  rw [if_pos hhead, check_ok_iff, bind_ok_iff]
  exact ⟨hlength, u, hvalid, rfl⟩

/-! ## Sizes and equivalent paths -/

/-- The parts that the checks let through, after those of the tally. -/
structure Fits (limits : OpenXmlPackageLimits) (tally : Tally) (files : PackageFiles) : Prop where
  part : ∀ file ∈ files, file.2.data.length ≤ limits.maxPartBytes
  total : tally.totalBytes + (files.map (·.2.data.length)).sum ≤ limits.maxPackageBytes
  distinct : (files.map fun file => asciiLower file.1).Nodup
  fresh : ∀ file ∈ files, asciiLower file.1 ∉ tally.equivalentPaths

theorem fits_nil : Fits limits tally [] ↔ tally.totalBytes ≤ limits.maxPackageBytes := by
  constructor
  · intro h
    simpa using h.total
  · intro h
    exact ⟨by simp, by simpa using h, by simp, by simp⟩

/-- A part is let through where it is small enough, its path is new and the parts so far are small enough together. -/
theorem admit_ok_iff {path : JsString} {size : Nat} {tally' : Tally} : tally.admit limits path size = .ok tally' ↔
    asciiLower path ∉ tally.equivalentPaths ∧ size ≤ limits.maxPartBytes ∧ tally.totalBytes + size ≤ limits.maxPackageBytes
      ∧ tally' = ⟨tally.equivalentPaths ++ [asciiLower path], tally.totalBytes + size⟩ := by
  have hsafe := limits.maxPackageBytes.property.2
  unfold Tally.admit
  rw [check_ok_iff, check_ok_iff, check_ok_iff, pure_ok_iff]
  constructor
  · rintro ⟨hnew, hsize, htotal, heq⟩
    exact ⟨hnew, by omega, by omega, heq⟩
  · rintro ⟨hnew, hsize, htotal, heq⟩
    exact ⟨hnew, by omega, by omega, heq⟩

theorem fits_cons {file : JsString × PackageFileData} {files : PackageFiles} : Fits limits tally (file :: files) ↔
    ∃ tally', tally.admit limits file.1 file.2.data.length = .ok tally' ∧ Fits limits tally' files := by
  simp only [admit_ok_iff]
  constructor
  · intro h
    have hpart := List.forall_mem_cons.mp h.part
    have hfresh := List.forall_mem_cons.mp h.fresh
    have hdistinct := List.nodup_cons.mp h.distinct
    have htotal := h.total
    rw [List.map_cons, List.sum_cons] at htotal
    refine ⟨_, ⟨hfresh.1, hpart.1, by omega, rfl⟩, hpart.2, by dsimp only; omega, hdistinct.2, fun other hmem => ?_⟩
    rw [List.mem_append, List.mem_singleton, not_or]
    exact ⟨hfresh.2 other hmem, fun heq => hdistinct.1 (List.mem_map.mpr ⟨other, hmem, heq⟩)⟩
  · rintro ⟨_, ⟨hnew, hsize, -, rfl⟩, h⟩
    have htotal := h.total
    have hfresh : ∀ other ∈ files, asciiLower other.1 ∉ tally.equivalentPaths ∧ asciiLower other.1 ≠ asciiLower file.1 := by
      intro other hmem
      have h' := h.fresh other hmem
      rw [List.mem_append, List.mem_singleton, not_or] at h'
      exact h'
    refine ⟨List.forall_mem_cons.mpr ⟨hsize, h.part⟩, ?_, List.nodup_cons.mpr ⟨?_, h.distinct⟩,
      List.forall_mem_cons.mpr ⟨hnew, fun other hmem => (hfresh other hmem).1⟩⟩
    · rw [List.map_cons, List.sum_cons]
      dsimp only at htotal
      omega
    · intro hmem
      obtain ⟨other, hother, heq⟩ := List.mem_map.mp hmem
      exact (hfresh other hother).2 heq

/-- The order of the parts does not matter. -/
theorem Fits.perm {files files' : PackageFiles} (h : Fits limits tally files) (hperm : files.Perm files') :
    Fits limits tally files' where
  part file hmem := h.part file (hperm.mem_iff.mpr hmem)
  total := by
    rw [← (hperm.map (·.2.data.length)).sum_eq]
    exact h.total
  distinct := (hperm.map fun file => asciiLower file.1).nodup_iff.mp h.distinct
  fresh file hmem := h.fresh file (hperm.mem_iff.mpr hmem)

/-! ## The loops -/

/-- A part is what an entry of an archive is read as. -/
structure ReadAs (lib : OfficeLibrary) (limits : OpenXmlPackageLimits) (opc : OpcPackage) (archive : ZipArchive) (entry : ZipEntry)
    (file : JsString × PackageFileData) : Prop where
  path : canonicalPackagePath lib limits false entry.name = .ok file.1
  contentType : contentTypeForPath opc file.1 = .ok file.2.contentType
  data : archive.read entry.name = .ok file.2.data
  size : file.2.data.length = entry.uncompressedSize

/-- The loop of `extractOpenXmlPackage` returns the parts as which the entries are read, where the checks let them through. -/
theorem extractFiles_iff {entries : List ZipEntry} {files : PackageFiles} (htally : tally.totalBytes ≤ limits.maxPackageBytes) :
    extractFiles lib limits opc archive tally entries = .ok files ↔
      List.Forall₂ (ReadAs lib limits opc archive) entries files ∧ Fits limits tally files := by
  induction entries generalizing tally files with
  | nil =>
    rw [extractFiles, pure_ok_iff, List.forall₂_nil_left_iff]
    constructor
    · rintro rfl
      exact ⟨rfl, fits_nil.mpr htally⟩
    · exact fun h => h.1
  | cons entry entries ih =>
    rw [extractFiles]
    simp only [bind_ok_iff, check_ok_iff, pure_ok_iff, not_not]
    constructor
    · rintro ⟨path, hpath, tally', hadmit, contentType, htype, data, hdata, hsize, rest, hrest, rfl⟩
      have htally' : tally'.totalBytes ≤ limits.maxPackageBytes := by
        obtain ⟨-, -, htotal, rfl⟩ := admit_ok_iff.mp hadmit
        exact htotal
      obtain ⟨hread, hfits⟩ := (ih htally').mp hrest
      rw [← hsize] at hadmit
      exact ⟨.cons ⟨hpath, htype, hdata, hsize⟩ hread, fits_cons.mpr ⟨tally', hadmit, hfits⟩⟩
    · rintro ⟨hread, hfits⟩
      obtain ⟨file, rest, hfile, hrest, rfl⟩ := List.forall₂_cons_left_iff.mp hread
      obtain ⟨tally', hadmit, hfits⟩ := fits_cons.mp hfits
      have htally' : tally'.totalBytes ≤ limits.maxPackageBytes := by
        obtain ⟨-, -, htotal, rfl⟩ := admit_ok_iff.mp hadmit
        exact htotal
      refine ⟨file.1, hfile.path, tally', ?_, file.2.contentType, hfile.contentType, file.2.data, hfile.data, hfile.size, rest,
        (ih htally').mpr ⟨hrest, hfits⟩, rfl⟩
      rw [← hfile.size]
      exact hadmit

/-- The loop of `buildOpenXmlPackage` keeps parts under canonical paths that the checks let through. -/
theorem normalizeFiles_ok {files : PackageFiles} (hpaths : ∀ file ∈ files, canonicalPackagePath lib limits true file.1 = .ok file.1)
    (h : Fits limits tally files) : ∃ tally', normalizeFiles lib limits tally files = .ok (tally', files)
      ∧ tally'.equivalentPaths = tally.equivalentPaths ++ files.map fun file => asciiLower file.1 := by
  induction files generalizing tally with
  | nil => exact ⟨tally, rfl, by simp⟩
  | cons file files ih =>
    obtain ⟨hpath, hpaths⟩ := List.forall_mem_cons.mp hpaths
    obtain ⟨tally', hadmit, hfits⟩ := fits_cons.mp h
    obtain ⟨tally'', hrest, hequivalent⟩ := ih hpaths hfits
    refine ⟨tally'', ?_, ?_⟩
    · rw [normalizeFiles, hpath]
      simp only [bind_ok_iff]
      exact ⟨file.1, rfl, tally', hadmit, (tally'', files), hrest, rfl⟩
    · obtain ⟨-, -, -, rfl⟩ := admit_ok_iff.mp hadmit
      rw [hequivalent, List.map_cons, List.append_assoc]
      rfl

theorem checkContentTypes_ok {files : PackageFiles} (h : ∀ file ∈ files, contentTypeForPath opc file.1 = .ok file.2.contentType) :
    checkContentTypes opc files = .ok () := by
  induction files with
  | nil => rfl
  | cons file files ih =>
    obtain ⟨hfile, hfiles⟩ := List.forall_mem_cons.mp h
    rw [checkContentTypes, hfile, bind_ok_iff]
    refine ⟨_, rfl, ?_⟩
    rw [check_ok_iff, not_not]
    exact ⟨rfl, ih hfiles⟩

theorem perm_sortFiles (lib : OfficeLibrary) (files : PackageFiles) : (sortFiles lib files).Perm files :=
  List.perm_insertionSort _ files

theorem validatePackageSize_iff {bytes : List UInt8} : validatePackageSize bytes limits = .ok () ↔
    bytes ≠ [] ∧ bytes.length ≤ limits.maxPackageBytes := by
  unfold validatePackageSize
  rw [check_ok_iff, not_or, not_lt, List.length_eq_zero_iff]
  exact ⟨fun h => h.1, fun h => ⟨h, rfl⟩⟩

end UniDocs.Docx
