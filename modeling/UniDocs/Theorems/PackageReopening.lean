import UniDocs.Blob.BlobClient
import UniDocs.Lemmas.PackageLoops
import UniDocs.Lib.JsMap

/-!
# Stored packages are opened again

A package that was accepted is put together again from its parts, and the archive is accepted as the same parts, exactly if the
parts, packed, are no more bytes than a package may have: the limits on the archive that was read and on the sizes of its parts say
nothing about that.
-/

namespace UniDocs.Docx

open Lib
open UniDocs.Blob (blobIndexContentType)

variable {lib : OfficeLibrary} {contentTypes : List UInt8 → Except PackageError OpcPackage}
  {packedSize : List (JsString × List UInt8) → Nat} {limits : OpenXmlPackageLimits} {overrides : LimitOverrides}
  {files : PackageFiles} {bytes : List UInt8}

/-! ## What the library is relied on for -/

/-- An archive of the parts, as it is read. -/
structure IsArchiveOf (parts : List (JsString × List UInt8)) (archive : ZipArchive) : Prop where
  entries : archive.entries = parts.map fun part => ⟨part.1, part.2.length⟩
  read : ∀ part ∈ parts, archive.read part.1 = .ok part.2

/-- The writer and the reader of archives are inverse, whatever compression ratio the reader asks for, and the content types of a
package are those that its content types part gives. Packed, parts have a size, which need not be that of their contents. -/
structure OfficeLibrary.Lawful (lib : OfficeLibrary) (contentTypes : List UInt8 → Except PackageError OpcPackage)
    (packedSize : List (JsString × List UInt8) → Nat) : Prop where
  packed : ∀ parts, 0 < packedSize parts
  write : ∀ parts, (parts.map Prod.fst).Nodup → ∃ bytes, lib.writeZip parts = .ok bytes ∧ bytes.length = packedSize parts ∧
    ∀ ratio total, (parts.map (·.2.length)).sum ≤ total → ∃ archive, lib.openZip bytes ratio total = .ok archive
      ∧ IsArchiveOf parts archive
  openOpc : ∀ bytes ratio total archive content, lib.openZip bytes ratio total = .ok archive →
    archive.read (contentTypesPath.drop 1) = .ok content → lib.openOpc bytes = contentTypes content

/-- A blob that was made is opened as what it was made of, unless it has the content type that indexes are read by, and so is
each blob of its hash. -/
structure BlobContext.Lawful {Blob : Type} (context : BlobContext Blob) : Prop where
  opened : ∀ data contentType blob, contentType ≠ blobIndexContentType → context.makeSBlob data contentType = .ok blob →
    ∃ handler, context.openSBlob blob = .ok handler ∧ handler.size = data.length ∧ handler.contentType = contentType
      ∧ handler.chunks.flatten = data
  same : ∀ data contentType blob blob', context.makeSBlob data contentType = .ok blob → context.hash blob' = context.hash blob →
    context.openSBlob blob' = context.openSBlob blob

/-! ## What an extraction returns -/

/-- The parts of a package that was accepted. -/
structure Extracted (lib : OfficeLibrary) (contentTypes : List UInt8 → Except PackageError OpcPackage)
    (limits : OpenXmlPackageLimits) (files : PackageFiles) : Prop where
  entry : ∀ file ∈ files, canonicalPackagePath lib limits false (file.1.drop 1) = .ok file.1
    ∧ (file.1.drop 1).getLast? ≠ some slash
  count : files.length ≤ limits.maxEntries
  fits : Fits limits ⟨[], 0⟩ files
  types : ∃ content opc, (contentTypesPath, content) ∈ files ∧ contentTypes content.data = .ok opc
    ∧ ∀ file ∈ files, contentTypeForPath opc file.1 = .ok file.2.contentType

theorem exists_of_forall₂ {α β : Type} {R : α → β → Prop} {as : List α} {bs : List β} (h : List.Forall₂ R as bs) {b : β}
    (hb : b ∈ bs) : ∃ a ∈ as, R a b := by
  induction h with
  | nil => cases hb
  | cons hab _ ih =>
    rcases List.mem_cons.mp hb with rfl | hb
    · exact ⟨_, List.mem_cons_self, hab⟩
    · obtain ⟨a, ha, hR⟩ := ih hb
      exact ⟨a, List.mem_cons_of_mem _ ha, hR⟩

theorem extracted_of_ok (hlawful : lib.Lawful contentTypes packedSize) (h : extractOpenXmlPackage lib bytes overrides = .ok files) :
    ∃ limits, packageLimits overrides = .ok limits ∧ Extracted lib contentTypes limits files := by
  unfold extractOpenXmlPackage at h
  simp only [bind_ok_iff, check_ok_iff, pure_ok_iff, not_not] at h
  obtain ⟨limits, hlimits, _, -, archive, hzip, opc, hopc, hcount, files, hfiles, hmem, rfl⟩ := h
  obtain ⟨hread, hfits⟩ := (extractFiles_iff (Nat.zero_le _)).mp hfiles
  refine ⟨limits, hlimits, fun file hfile => ?_, ?_, hfits, ?_⟩
  · obtain ⟨entry, hentry, hR⟩ := exists_of_forall₂ hread hfile
    have hname : file.1.drop 1 = entry.name := by
      rw [(canonicalPackagePath_relative hR.path).1]
      rfl
    rw [hname]
    exact ⟨hR.path, by simpa using (List.mem_filter.mp hentry).2⟩
  · rw [← hread.length_eq]
    exact (List.length_filter_le _ _).trans (not_lt.mp hcount)
  · obtain ⟨⟨path, content⟩, hcontent, rfl⟩ := List.mem_map.mp hmem
    obtain ⟨entry, -, hR⟩ := exists_of_forall₂ hread hcontent
    have hpath : contentTypesPath = slash :: entry.name := (canonicalPackagePath_relative hR.path).1
    have hname : contentTypesPath.drop 1 = entry.name := by
      rw [hpath]
      rfl
    refine ⟨content, opc, hcontent, ?_, fun file hfile => ?_⟩
    · rw [← hlawful.openOpc bytes _ _ archive content.data hzip (by rw [hname]; exact hR.data)]
      exact hopc
    · obtain ⟨_, -, hR⟩ := exists_of_forall₂ hread hfile
      exact hR.contentType

/-! ## The archive that is written -/

theorem nodup_names (h : Extracted lib contentTypes limits files) : ((zipParts files).map Prod.fst).Nodup := by
  have hlower : files.map (fun file => asciiLower file.1) =
      ((zipParts files).map Prod.fst).map fun name => asciiLower (slash :: name) := by
    unfold zipParts
    rw [List.map_map, List.map_map]
    refine List.map_congr_left fun file hfile => ?_
    rw [(canonicalPackagePath_relative (h.entry file hfile).1).1]
    rfl
  have hdistinct := h.fits.distinct
  rw [hlower] at hdistinct
  exact hdistinct.of_map

/-- The parts are accepted in each order. -/
theorem Extracted.perm {files' : PackageFiles} (h : Extracted lib contentTypes limits files) (hperm : files.Perm files') :
    Extracted lib contentTypes limits files' where
  entry file hfile := h.entry file (hperm.mem_iff.mpr hfile)
  count := by
    rw [← hperm.length_eq]
    exact h.count
  fits := h.fits.perm hperm
  types := by
    obtain ⟨content, opc, hmem, hopc, htypes⟩ := h.types
    exact ⟨content, opc, hperm.mem_iff.mp hmem, hopc, fun file hfile => htypes file (hperm.mem_iff.mpr hfile)⟩

/-- The sizes of the parts of an archive that is written, together. -/
theorem sum_zipParts (files : PackageFiles) :
    ((zipParts files).map (·.2.length)).sum = (files.map (·.2.data.length)).sum := by
  unfold zipParts
  rw [List.map_map]
  rfl

/-- An archive of accepted parts that is not too long is accepted as these parts. -/
theorem extract_of_archive (h : Extracted lib contentTypes limits files) (hlimits : packageLimits overrides = .ok limits)
    (hsize : bytes ≠ [] ∧ bytes.length ≤ limits.maxPackageBytes) {archive : ZipArchive}
    (hzip : lib.openZip bytes limits.maxCompressionRatio limits.maxPackageBytes = .ok archive)
    (harchive : IsArchiveOf (zipParts files) archive) (hlawful : lib.Lawful contentTypes packedSize) :
    extractOpenXmlPackage lib bytes overrides = .ok files := by
  obtain ⟨content, opc, hcontent, hopc, htypes⟩ := h.types
  have hread : ∀ file ∈ files, archive.read (file.1.drop 1) = .ok file.2.data := fun file hfile =>
    harchive.read (file.1.drop 1, file.2.data) (List.mem_map_of_mem hfile)
  have hopen : lib.openOpc bytes = .ok opc := by
    rw [hlawful.openOpc bytes _ _ archive content.data hzip (hread _ hcontent)]
    exact hopc
  have hentries : archive.entries = files.map fun file => ⟨file.1.drop 1, file.2.data.length⟩ := by
    rw [harchive.entries]
    unfold zipParts
    rw [List.map_map]
    rfl
  have hkept : (archive.entries.filter fun entry => entry.name.getLast? ≠ some slash) = archive.entries := by
    refine List.filter_eq_self.mpr fun entry hentry => ?_
    rw [hentries] at hentry
    obtain ⟨file, hfile, rfl⟩ := List.mem_map.mp hentry
    exact decide_eq_true (h.entry file hfile).2
  unfold extractOpenXmlPackage
  simp only [bind_ok_iff, check_ok_iff, pure_ok_iff, not_not]
  refine ⟨limits, hlimits, (), validatePackageSize_iff.mpr hsize, archive, hzip, opc, hopen, ?_, files, ?_,
    List.mem_map_of_mem (f := Prod.fst) hcontent, rfl⟩
  · rw [hentries, List.length_map, not_lt]
    exact h.count
  · rw [hkept, hentries, extractFiles_iff (Nat.zero_le _)]
    refine ⟨?_, h.fits⟩
    rw [List.forall₂_map_left_iff, List.forall₂_same]
    exact fun file hfile => ⟨(h.entry file hfile).1, htypes file hfile, hread file hfile, rfl⟩

/-- The parts are put together where the archive is not too long. -/
theorem build_ok_iff (h : Extracted lib contentTypes limits files) (hlimits : packageLimits overrides = .ok limits)
    (hlawful : lib.Lawful contentTypes packedSize) (hwrite : lib.writeZip (zipParts (sortFiles lib files)) = .ok bytes) (hne : bytes ≠ [])
    {archive : ZipArchive} (hzip : lib.openZip bytes limits.maxCompressionRatio limits.maxPackageBytes = .ok archive)
    (harchive : IsArchiveOf (zipParts (sortFiles lib files)) archive) (built : List UInt8) :
    buildOpenXmlPackage lib files overrides = .ok built ↔ bytes.length ≤ limits.maxPackageBytes ∧ built = bytes := by
  obtain ⟨content, opc, hcontent, hopc, htypes⟩ := h.types
  have hsorted := perm_sortFiles lib files
  obtain ⟨tally, hnormalize, hequivalent⟩ := normalizeFiles_ok
    (fun file hfile => (canonicalPackagePath_relative (h.entry file hfile).1).2) h.fits
  have hlower : asciiLower contentTypesPath ∈ tally.equivalentPaths := by
    rw [hequivalent, List.nil_append]
    exact List.mem_map_of_mem (f := fun file : JsString × PackageFileData => asciiLower file.1) hcontent
  have hread : archive.read (contentTypesPath.drop 1) = .ok content.data :=
    harchive.read (contentTypesPath.drop 1, content.data) (List.mem_map_of_mem (hsorted.mem_iff.mpr hcontent))
  have hopen : lib.openOpc bytes = .ok opc := by
    rw [hlawful.openOpc bytes _ _ archive content.data hzip hread]
    exact hopc
  have hcheck : checkContentTypes opc (sortFiles lib files) = .ok () :=
    checkContentTypes_ok fun file hfile => htypes file (hsorted.mem_iff.mp hfile)
  have hcount : ¬ (files.length = 0 ∨ (limits.maxEntries : Nat) < files.length) := by
    rw [not_or, not_lt, List.length_eq_zero_iff]
    exact ⟨List.ne_nil_of_mem hcontent, h.count⟩
  unfold buildOpenXmlPackage
  simp only [bind_ok_iff, check_ok_iff, pure_ok_iff, not_not]
  constructor
  · rintro ⟨limits', hlimits', -, ⟨tally', normalized⟩, hnormalize', -, bytes', hwrite', u, hsize, opc', -, u', -, rfl⟩
    rw [hlimits] at hlimits'
    cases hlimits'
    rw [hnormalize] at hnormalize'
    cases hnormalize'
    rw [hwrite] at hwrite'
    cases hwrite'
    exact ⟨(validatePackageSize_iff.mp hsize).2, rfl⟩
  · rintro ⟨hsize, rfl⟩
    exact ⟨limits, hlimits, hcount, (tally, files), hnormalize, hlower, built, hwrite, (),
      validatePackageSize_iff.mpr ⟨hne, hsize⟩, opc, hopen, (), hcheck, rfl⟩

/-! ## The condition -/

/-- A package is built and accepted again as the parts. -/
def ReopensAs (lib : OfficeLibrary) (overrides : LimitOverrides) (built : Except PackageError (List UInt8)) (files : PackageFiles) :
    Prop :=
  ∃ bytes, built = .ok bytes ∧ ∃ files', extractOpenXmlPackage lib bytes overrides = .ok files' ∧
    ∀ path, files'.lookup path = files.lookup path

/-- Packed, the parts are no more bytes than a package may have. -/
def PackedFits (lib : OfficeLibrary) (packedSize : List (JsString × List UInt8) → Nat) (overrides : LimitOverrides)
    (files : PackageFiles) : Prop :=
  ∀ limits, packageLimits overrides = .ok limits → packedSize (zipParts (sortFiles lib files)) ≤ limits.maxPackageBytes

/-- A package that was accepted reopens exactly if the archive of its parts is not too long. -/
theorem build_reopens_iff (hlawful : lib.Lawful contentTypes packedSize) (h : extractOpenXmlPackage lib bytes overrides = .ok files) :
    ReopensAs lib overrides (buildOpenXmlPackage lib files overrides) files ↔ PackedFits lib packedSize overrides files := by
  obtain ⟨limits, hlimits, hextracted⟩ := extracted_of_ok hlawful h
  have hsorted := hextracted.perm (perm_sortFiles lib files).symm
  obtain ⟨bytes, hwrite, hlength, hopens⟩ := hlawful.write _ (nodup_names hsorted)
  have hne : bytes ≠ [] := by
    rw [← List.length_pos_iff, hlength]
    exact hlawful.packed _
  obtain ⟨archive, hzip, harchive⟩ := hopens limits.maxCompressionRatio limits.maxPackageBytes (by
    rw [sum_zipParts]
    simpa using hsorted.fits.total)
  have hbuild := build_ok_iff hextracted hlimits hlawful hwrite hne hzip harchive
  constructor
  · rintro ⟨built, hbuilt, -⟩ limits' hlimits'
    rw [hlimits] at hlimits'
    cases hlimits'
    rw [← hlength]
    exact ((hbuild built).mp hbuilt).1
  · intro hfits
    have hsize := hfits limits hlimits
    rw [← hlength] at hsize
    refine ⟨bytes, (hbuild bytes).mpr ⟨hsize, rfl⟩, sortFiles lib files,
      extract_of_archive hsorted hlimits ⟨hne, hsize⟩ hzip harchive hlawful, fun path => ?_⟩
    have hkeys : ((sortFiles lib files).map Prod.fst).Nodup := by
      have hdistinct := hsorted.fits.distinct
      rw [show (fun file : JsString × PackageFileData => asciiLower file.1) = asciiLower ∘ Prod.fst from rfl,
        ← List.map_map] at hdistinct
      exact hdistinct.of_map
    exact JsMap.lookup_perm hkeys (perm_sortFiles lib files) path

/-! ## The stored document -/

variable {Blob : Type} {context : BlobContext Blob}

theorem readChunks_ok {size : Nat} {chunks : List (List UInt8)} {read : List UInt8}
    (h : read.length + chunks.flatten.length ≤ size) : readChunks size read chunks = .ok (read ++ chunks.flatten) := by
  induction chunks generalizing read with
  | nil =>
    rw [readChunks, List.flatten_nil, List.append_nil]
    rfl
  | cons chunk chunks ih =>
    rw [List.flatten_cons, List.length_append] at h
    have hrest : (read ++ chunk).length + chunks.flatten.length ≤ size := by
      rw [List.length_append]
      omega
    rw [readChunks, if_neg (by omega), ih hrest, List.flatten_cons, List.append_assoc]

/-- The handler of a part. -/
structure HandlerOf (handler : BlobHandler) (file : PackageFileData) : Prop where
  size : handler.size = file.data.length
  contentType : handler.contentType = file.contentType
  data : handler.chunks.flatten = file.data

theorem materializeHandler_ok {handler : BlobHandler} {file : PackageFileData} (h : HandlerOf handler file) {maxBytes : Nat}
    (hsize : file.data.length ≤ maxBytes) : materializeHandler handler maxBytes = .ok file.data := by
  unfold materializeHandler
  rw [check_ok_iff, bind_ok_iff, h.size]
  refine ⟨not_lt.mpr hsize, file.data, ?_, ?_⟩
  · rw [readChunks_ok (by rw [h.data]; simp), h.data, List.nil_append]
  · rw [check_ok_iff, not_not]
    exact ⟨rfl, rfl⟩

/-- The blobs of a stored document are opened as its parts. -/
theorem openBlobs_storeState (hcontext : context.Lawful) {previous doc : List (JsString × Blob)}
    (hplain : ∀ file ∈ files, file.2.contentType ≠ blobIndexContentType) (h : storeState context previous files = .ok doc) : ∃ loaded, openBlobs context doc = .ok loaded ∧
      List.Forall₂ (fun (loaded : JsString × BlobHandler) file => loaded.1 = file.1 ∧ HandlerOf loaded.2 file.2) loaded files := by
  induction files generalizing doc with
  | nil =>
    rw [storeState, pure_ok_iff] at h
    subst h
    exact ⟨[], rfl, .nil⟩
  | cons file files ih =>
    rw [storeState, bind_ok_iff] at h
    obtain ⟨blob, hmake, h⟩ := h
    rw [bind_ok_iff] at h
    obtain ⟨stored, hstored, h⟩ := h
    obtain ⟨hfirst, hrest⟩ := List.forall_mem_cons.mp hplain
    obtain ⟨loaded, hloaded, hforall⟩ := ih hrest hstored
    obtain ⟨handler, hopen, hsize, htype, hdata⟩ := hcontext.opened _ _ _ hfirst hmake
    obtain ⟨kept, hkept, rfl⟩ : ∃ kept, context.openSBlob kept = .ok handler ∧ doc = (file.1, kept) :: stored := by
      split at h
      · rename_i prior hprior
        refine ⟨_, ?_, pure_ok_iff.mp h⟩
        split_ifs with hhash
        · rw [hcontext.same _ _ _ _ hmake hhash]
          exact hopen
        · exact hopen
      · exact ⟨blob, hopen, pure_ok_iff.mp h⟩
    refine ⟨(file.1, handler) :: loaded, ?_, .cons ⟨rfl, hsize, htype, hdata⟩ hforall⟩
    rw [openBlobs, bind_ok_iff]
    refine ⟨handler, hkept, ?_⟩
    rw [bind_ok_iff]
    exact ⟨loaded, hloaded, rfl⟩

theorem checkSizes_ok {packageBytes : Nat} {loaded : List (JsString × BlobHandler)}
    (h : List.Forall₂ (fun (loaded : JsString × BlobHandler) file => loaded.1 = file.1 ∧ HandlerOf loaded.2 file.2) loaded files)
    (hpart : ∀ file ∈ files, file.2.data.length ≤ defaultPartBytes)
    (htotal : packageBytes + (files.map (·.2.data.length)).sum ≤ defaultPackageBytes) :
    checkSizes packageBytes loaded = .ok () := by
  induction h generalizing packageBytes with
  | nil => rfl
  | @cons blob file loaded files hfile _ ih =>
    obtain ⟨hsize, hrest⟩ := List.forall_mem_cons.mp hpart
    rw [List.map_cons, List.sum_cons] at htotal
    have hsafe := defaultPackageBytes.property.2
    rw [checkSizes, check_ok_iff, check_ok_iff, hfile.2.size]
    exact ⟨by omega, by omega, ih hrest (by omega)⟩

theorem readFiles_ok {loaded : List (JsString × BlobHandler)}
    (h : List.Forall₂ (fun (loaded : JsString × BlobHandler) file => loaded.1 = file.1 ∧ HandlerOf loaded.2 file.2) loaded files)
    (hpart : ∀ file ∈ files, file.2.data.length ≤ defaultPartBytes) : readFiles loaded = .ok files := by
  induction h with
  | nil => rfl
  | @cons blob file loaded files hfile _ ih =>
    obtain ⟨hsize, hrest⟩ := List.forall_mem_cons.mp hpart
    rw [readFiles, bind_ok_iff]
    refine ⟨_, materializeHandler_ok hfile.2 hsize, ?_⟩
    rw [bind_ok_iff]
    refine ⟨files, ih hrest, ?_⟩
    rw [hfile.1, hfile.2.contentType]
    rfl

/-- A document that was stored part by part is materialized by building its package. -/
theorem materialize_storeState (hlawful : lib.Lawful contentTypes packedSize) (hcontext : context.Lawful)
    (h : extractOpenXmlPackage lib bytes {} = .ok files) {previous doc : List (JsString × Blob)}
    (hplain : ∀ file ∈ files, file.2.contentType ≠ blobIndexContentType) (hstore : storeState context previous files = .ok doc) : materialize lib context doc = buildOpenXmlPackage lib files {} := by
  obtain ⟨limits, hlimits, hextracted⟩ := extracted_of_ok hlawful h
  have hdefault : limits = defaultLimits := by
    rw [show packageLimits {} = .ok defaultLimits from rfl] at hlimits
    exact (Except.ok.inj hlimits).symm
  subst hdefault
  obtain ⟨loaded, hloaded, hforall⟩ := openBlobs_storeState hcontext hplain hstore
  have hsizes : checkSizes 0 loaded = .ok () := checkSizes_ok hforall hextracted.fits.part hextracted.fits.total
  have hfiles : readFiles loaded = .ok files := readFiles_ok hforall hextracted.fits.part
  unfold materialize
  rw [hloaded]
  change (checkSizes 0 loaded >>= fun _ => readFiles loaded >>= fun files => buildOpenXmlPackage lib files {}) = _
  rw [hsizes, hfiles]
  rfl

/-! ## Packages that are packed in two ways -/

/-- A number: a mark for each time that `2 ^ 64` goes into it, and the rest in eight bytes. -/
def packCount (n : Nat) : List UInt8 := List.replicate (n / 2 ^ 64) 1 ++ 0 :: bytesBE 8 (n % 2 ^ 64)

def unpackCount : List UInt8 → Option (Nat × List UInt8)
  | 0 :: rest => some (natBE (rest.take 8), rest.drop 8)
  | 1 :: rest => (unpackCount rest).map fun (n, rest) => (2 ^ 64 + n, rest)
  | _ => none

def packName : JsString → List UInt8
  | [] => []
  | u :: name => UInt8.ofNat (u.toNat / 256) :: UInt8.ofNat u.toNat :: packName name

def unpackName : Nat → List UInt8 → Option (JsString × List UInt8)
  | 0, rest => some ([], rest)
  | n + 1, high :: low :: rest =>
    (unpackName n rest).map fun (name, rest) => (UInt16.ofNat (high.toNat * 256 + low.toNat) :: name, rest)
  | _ + 1, _ => none

/-- An archive in which the contents are as they are. It is as long as a ZIP that stores its entries: one has 76 bytes besides its
content and, two times, its name, and 22 stand at the end. -/
def packParts : List (JsString × List UInt8) → List UInt8
  | [] => List.replicate 22 0
  | (name, content) :: parts =>
    1 :: (packCount name.length ++ (packName name ++ (packCount content.length ++ (content ++ (List.replicate 57 0
      ++ packParts parts)))))

def unpackParts : Nat → List UInt8 → Option (List (JsString × List UInt8))
  | _ + 1, 0 :: _ => some []
  | fuel + 1, 1 :: rest => do
    let (nameLength, rest) ← unpackCount rest
    let (name, rest) ← unpackName nameLength rest
    let (size, rest) ← unpackCount rest
    let parts ← unpackParts fuel (rest.drop (size + 57))
    pure ((name, rest.take size) :: parts)
  | _, _ => none

/-- A content types part without declarations, of 256 bytes. -/
def typesContent : List UInt8 :=
  utf8 "<Types xmlns=\"http://schemas.openxmlformats.org/package/2006/content-types\">" ++ List.replicate 172 32
    ++ utf8 "</Types>"

/-- The ZIP archive of that part, deflated. -/
def shortPackage : List UInt8 :=
  [80, 75, 3, 4, 20, 0, 0, 0, 8, 0, 0, 0, 33, 0, 67, 21, 98, 31, 82, 0, 0, 0, 0, 1, 0, 0, 19, 0, 0, 0, 91, 67, 111, 110,
    116, 101, 110, 116, 95, 84, 121, 112, 101, 115, 93, 46, 120, 109, 108, 179, 9, 169, 44, 72, 45, 86, 168, 200, 205,
    201, 43, 182, 85, 202, 40, 41, 41, 176, 210, 215, 47, 78, 206, 72, 205, 77, 44, 214, 203, 47, 72, 205, 3, 202, 164,
    229, 23, 229, 38, 150, 0, 185, 69, 233, 250, 5, 137, 201, 217, 137, 233, 169, 250, 70, 6, 6, 102, 250, 201, 249, 121,
    37, 169, 121, 37, 186, 37, 32, 51, 148, 236, 20, 134, 16, 176, 209, 7, 123, 220, 14, 0, 80, 75, 1, 2, 20, 3, 20, 0, 0,
    0, 8, 0, 0, 0, 33, 0, 67, 21, 98, 31, 82, 0, 0, 0, 0, 1, 0, 0, 19, 0, 0, 0, 0, 0, 0, 0, 0, 0, 0, 0, 128, 1, 0, 0, 0,
    0, 91, 67, 111, 110, 116, 101, 110, 116, 95, 84, 121, 112, 101, 115, 93, 46, 120, 109, 108, 80, 75, 5, 6, 0, 0, 0, 0,
    1, 0, 1, 0, 65, 0, 0, 0, 131, 0, 0, 0, 0, 0]

/-- The parts of an archive: of the deflated one, or of one that was written. -/
def readParts (bytes : List UInt8) : Option (List (JsString × List UInt8)) :=
  if bytes = shortPackage then some [(contentTypesPath.drop 1, typesContent)] else unpackParts bytes.length bytes

def packArchive (parts : List (JsString × List UInt8)) : ZipArchive where
  entries := parts.map fun part => ⟨part.1, part.2.length⟩
  read name := ((parts.lookup name).map pure).getD (throw (JsString.ofString "ZIP entry is missing"))

/-- A library that reads both forms and writes one of them; the content types part declares no types. -/
def packLibrary : OfficeLibrary where
  openZip bytes _ total :=
    match readParts bytes with
    | none => throw (JsString.ofString "ZIP archive is malformed")
    | some parts =>
      if total < (parts.map (·.2.length)).sum then throw (JsString.ofString "ZIP archive is too large")
      else pure (packArchive parts)
  writeZip parts := pure (packParts parts)
  openOpc _ := pure ⟨fun _ => none⟩
  validatePartName _ := pure ()
  localeLe left right := decide (left ≤ right)

theorem unpackCount_pack (n : Nat) (rest : List UInt8) : unpackCount (packCount n ++ rest) = some (n, rest) := by
  have hmarks : ∀ marks, unpackCount (List.replicate marks 1 ++ 0 :: (bytesBE 8 (n % 2 ^ 64) ++ rest)) =
      some (marks * 2 ^ 64 + n % 2 ^ 64, rest) := by
    intro marks
    induction marks with
    | zero =>
      have hlength := length_bytesBE 8 (n % 2 ^ 64)
      have hlt : n % 2 ^ 64 < 256 ^ 8 := Nat.mod_lt _ (by decide)
      rw [List.replicate_zero, List.nil_append, unpackCount, List.take_left' hlength, List.drop_left' hlength,
        natBE_bytesBE_of_lt hlt, Nat.zero_mul, Nat.zero_add]
    | succ marks ih =>
      rw [List.replicate_succ, List.cons_append, unpackCount, ih, Option.map_some]
      simp only [Option.some.injEq, Prod.mk.injEq, and_true]
      omega
  rw [packCount, List.append_assoc, List.cons_append, hmarks, Nat.div_add_mod']

theorem unpackName_pack (name : JsString) (rest : List UInt8) :
    unpackName name.length (packName name ++ rest) = some (name, rest) := by
  induction name with
  | nil => rfl
  | cons u name ih =>
    have hu : UInt16.ofNat ((UInt8.ofNat (u.toNat / 256)).toNat * 256 + (UInt8.ofNat u.toNat).toNat) = u := by
      have hlt := u.toNat_lt
      rw [UInt8.toNat_ofNat', UInt8.toNat_ofNat', Nat.mod_eq_of_lt (by omega : u.toNat / 256 < 2 ^ 8)]
      conv_rhs => rw [← UInt16.ofNat_toNat (x := u)]
      congr 1
      omega
    rw [packName, List.cons_append, List.cons_append, List.length_cons, unpackName, ih, Option.map_some, hu]

theorem unpackParts_pack (parts : List (JsString × List UInt8)) {fuel : Nat} (h : parts.length < fuel) :
    unpackParts fuel (packParts parts) = some parts := by
  obtain ⟨fuel, rfl⟩ := Nat.exists_eq_add_one_of_ne_zero (Nat.ne_of_gt (Nat.zero_lt_of_lt h))
  induction parts generalizing fuel with
  | nil => rfl
  | cons part parts ih =>
    obtain ⟨name, content⟩ := part
    rw [List.length_cons] at h
    obtain ⟨fuel', rfl⟩ := Nat.exists_eq_add_one_of_ne_zero (show fuel ≠ 0 by omega)
    have hrest : (content ++ (List.replicate 57 0 ++ packParts parts)).drop (content.length + 57) = packParts parts := by
      rw [← List.append_assoc]
      exact List.drop_left' (by simp)
    rw [packParts, unpackParts]
    simp only [unpackCount_pack, unpackName_pack, Option.bind_eq_bind, Option.bind_some, hrest, ih fuel' (by omega),
      List.take_left' rfl]
    rfl

theorem length_packParts (parts : List (JsString × List UInt8)) : parts.length < (packParts parts).length := by
  induction parts with
  | nil => decide
  | cons part parts ih =>
    rw [packParts, List.length_cons, List.length_cons]
    simp only [List.length_append]
    omega

/-- The deflated archive is not written. -/
theorem readParts_pack (parts : List (JsString × List UInt8)) : readParts (packParts parts) = some parts := by
  have hne : packParts parts ≠ shortPackage := by
    intro heq
    have hhead : (packParts parts).head? = some 80 := by rw [heq]; rfl
    cases parts <;> cases hhead
  rw [readParts, if_neg hne, unpackParts_pack parts (length_packParts parts)]

theorem packLibrary_lawful : packLibrary.Lawful (fun _ => .ok ⟨fun _ => none⟩) fun parts => (packParts parts).length where
  packed parts := Nat.zero_lt_of_lt (length_packParts parts)
  openOpc _ _ _ _ _ _ _ := rfl
  write parts hnodup := by
    refine ⟨_, rfl, rfl, fun ratio total htotal => ⟨packArchive parts, ?_, rfl, fun part hpart => ?_⟩⟩
    · unfold packLibrary
      dsimp only
      rw [readParts_pack parts]
      exact if_neg (not_lt.mpr htotal)
    · unfold packArchive
      dsimp only
      rw [(JsMap.lookup_iff hnodup).mpr hpart]
      rfl

/-- The parts of the package. -/
def shortFiles : PackageFiles := [(contentTypesPath, ⟨typesContent, contentTypesContentType⟩)]

/-- A blob store for parts of one content type: a blob is its content. -/
def packBlobs : BlobContext (List UInt8) where
  hash blob := String.ofList (blob.map Char.ofUInt8)
  makeSBlob data contentType :=
    if contentType = contentTypesContentType then pure data else throw (JsString.ofString "SBlob content type is unknown")
  openSBlob blob := pure ⟨blob.length, contentTypesContentType, [blob]⟩

theorem ofUInt8_injective : Function.Injective Char.ofUInt8 := by
  intro a b h
  exact UInt8.toUInt32_inj.mp (congrArg Char.val h)

theorem packBlobs_lawful : packBlobs.Lawful where
  opened data contentType blob _ h := by
    obtain ⟨htype, hblob⟩ : contentType = contentTypesContentType ∧ blob = data := by
      unfold packBlobs at h
      dsimp only at h
      split_ifs at h with htype
      exact ⟨htype, pure_ok_iff.mp h⟩
    subst htype hblob
    exact ⟨_, rfl, rfl, rfl, by simp⟩
  same _ _ blob blob' _ hhash := by
    have hchars := congrArg String.toList hhash
    unfold packBlobs at hchars
    simp only [String.toList_ofList] at hchars
    rw [List.map_injective_iff.mpr ofUInt8_injective hchars]

/-! ## The theorem -/

/-- For every package that was accepted: its parts are put together and accepted again as the same parts, exactly if packed they
are no more bytes than a package may have; and so, under the default limits, is the document that was stored part by part, if none
of the parts has the content type of the indexes of blobs. -/
theorem package_reopens_iff (hlawful : lib.Lawful contentTypes packedSize) (hcontext : context.Lawful) :
    (∀ bytes overrides files, extractOpenXmlPackage lib bytes overrides = .ok files →
      (ReopensAs lib overrides (buildOpenXmlPackage lib files overrides) files ↔ PackedFits lib packedSize overrides files))
    ∧ ∀ bytes files previous doc, extractOpenXmlPackage lib bytes {} = .ok files →
      (∀ file ∈ files, file.2.contentType ≠ blobIndexContentType) → storeState context previous files = .ok doc →
      (ReopensAs lib {} (materialize lib context doc) files ↔ PackedFits lib packedSize {} files) := by
  refine ⟨fun bytes overrides files h => build_reopens_iff hlawful h, fun bytes files previous doc h hplain hstore => ?_⟩
  rw [materialize_storeState hlawful hcontext h hplain hstore]
  exact build_reopens_iff hlawful h

/-- Under the default limits the package reopens, and so does the document that was stored. -/
theorem package_reopens_iff_short :
    ReopensAs packLibrary {} (buildOpenXmlPackage packLibrary shortFiles {}) shortFiles ∧
      ReopensAs packLibrary {} (materialize packLibrary packBlobs [(contentTypesPath, typesContent)]) shortFiles := by
  have hextract : extractOpenXmlPackage packLibrary shortPackage {} = .ok shortFiles := by decide +kernel
  have hstore : storeState packBlobs [] shortFiles = .ok [(contentTypesPath, typesContent)] := by decide +kernel
  have hfits : PackedFits packLibrary (fun parts => (packParts parts).length) {} shortFiles := by
    intro limits hlimits
    rw [show packageLimits {} = .ok defaultLimits from rfl] at hlimits
    cases hlimits
    decide +kernel
  have h := package_reopens_iff packLibrary_lawful packBlobs_lawful
  exact ⟨(h.1 _ _ _ hextract).mpr hfits, (h.2 _ _ _ _ hextract (by decide) hstore).mpr hfits⟩

/-- A limit of three hundred bytes. -/
def threeHundredBytes : LimitOverrides := { maxPackageBytes := some (some 300) }

/-- The package has 218 bytes, its part has 256, and the archive that is written has 392. -/
theorem package_reopens_false : ¬ ∀ (lib : OfficeLibrary) (contentTypes : List UInt8 → Except PackageError OpcPackage)
    (packedSize : List (JsString × List UInt8) → Nat), lib.Lawful contentTypes packedSize →
    ∀ bytes overrides files, extractOpenXmlPackage lib bytes overrides = .ok files →
      ReopensAs lib overrides (buildOpenXmlPackage lib files overrides) files := by
  intro h
  obtain ⟨bytes, hbuilt, -⟩ := h packLibrary _ _ packLibrary_lawful shortPackage threeHundredBytes shortFiles
    (by decide +kernel)
  have herror : buildOpenXmlPackage packLibrary shortFiles threeHundredBytes =
      .error (JsString.ofString "DOCX package must contain 1-300 bytes") := by decide +kernel
  rw [herror] at hbuilt
  cases hbuilt

end UniDocs.Docx
