import UniDocs.Psd.Persistence

/-!
# Documents that are stored and materialized

A document that has been stored is materialized with its layers, masks and fonts, where the properties have gone through JSON
and a buffer has become a reference to a PNG that holds it; and the materialized document is stored as the same state, with no
further blob. PNG is lossless, and the CAS has the bytes that were put.
-/

namespace UniDocs.Psd.Storage

open Lib Lib.RoseTree UniDocs.Codec

/-! ## JSON -/

theorem jsonEntries_cons {value : Value} (h : value ≠ .undefined) (key : String) (entries : Entries) :
    jsonEntries ((key, value) :: entries) = (key, throughJson value) :: jsonEntries entries := by
  cases value <;> first | rfl | exact absurd rfl h

theorem throughJson_ne_undefined (value : Value) : throughJson value ≠ .undefined := by
  cases value with
  | number value => cases value <;> exact nofun
  | _ => exact nofun

theorem jsonEntries_eq {entries : Entries} (h : ∀ e ∈ entries, e.2 ≠ .undefined ∧ throughJson e.2 = e.2) :
    jsonEntries entries = entries := by
  induction entries with
  | nil => rfl
  | cons e entries ih =>
    obtain ⟨hne, he⟩ := h e List.mem_cons_self
    rw [jsonEntries_cons hne, he, ih fun e he => h e (List.mem_cons_of_mem _ he)]

mutual

theorem throughJson_idem : ∀ value : Value, throughJson (throughJson value) = throughJson value
  | .undefined | .null | .bool _ | .string _ => rfl
  | .number (.finite _) | .number (.infinite _) | .number .nan => rfl
  | .bytes bytes => congrArg Value.object <| jsonEntries_eq fun e he => by
    obtain ⟨i, hi, rfl⟩ := List.mem_mapIdx.mp he
    exact ⟨fun h => (by cases h), rfl⟩
  | .array items => congrArg Value.array (jsonItems_idem items)
  | .object entries => congrArg Value.object (jsonEntries_idem entries)

theorem jsonItems_idem : ∀ items : List Value, jsonItems (jsonItems items) = jsonItems items
  | [] => rfl
  | value :: values => by simp only [jsonItems, throughJson_idem value, jsonItems_idem values]

theorem jsonEntries_idem : ∀ entries : Entries, jsonEntries (jsonEntries entries) = jsonEntries entries
  | [] => rfl
  | (key, value) :: entries => by
    have ih := jsonEntries_idem entries
    have hvalue := throughJson_idem value
    by_cases h : value = .undefined
    · rw [h]
      exact ih
    · rw [jsonEntries_cons h, jsonEntries_cons (throughJson_ne_undefined value), hvalue, ih]

end

theorem jsonMask_idem (mask : MaskOf String) : jsonMask (jsonMask mask) = jsonMask mask := by
  simp only [jsonMask, jsonItems_idem, jsonEntries_idem]

theorem jsonLayer_idem (layer : JsonLayer) : jsonLayer (jsonLayer layer) = jsonLayer layer := by
  have hmask : jsonMask ∘ jsonMask = jsonMask := funext jsonMask_idem
  simp only [jsonLayer, jsonItems_idem, jsonEntries_idem, Option.map_map, Option.map_comp_map, hmask]

/-! ## Blobs -/

instance : Preorder Blobs where
  le before after := ∀ hash blob, before.find hash = some blob → after.find hash = some blob
  le_refl _ _ _ h := h
  le_trans _ _ _ h h' hash blob hblob := h' hash blob (h hash blob hblob)

variable (png : Png)

/-- A blob under the hash is a PNG of the pixels. -/
def Holds (blobs : Blobs) (hash : String) (pixels : Pixels) : Prop :=
  ∃ blob, blobs.find hash = some blob ∧ png.decode blob.2 = .ok pixels

/-- It is one that `getBytes` returns. -/
def Readable (blobs : Blobs) (hash : String) (pixels : Pixels) : Prop :=
  ∃ blob, blobs.find hash = some blob ∧ blob.2.length ≤ maxEncodedPngBytes ∧ png.decode blob.2 = .ok pixels

/-- What is under the hash of the PNG of the pixels is that PNG. -/
def Returned (blobs : Blobs) (pixels : Pixels) : Prop :=
  ∀ bytes, png.encode pixels = .ok bytes →
    ∀ blob, blobs.find (png.hash ("image/png", bytes)).val = some blob → blob = ("image/png", bytes)

/-- A layer whose buffers the CAS returns when they are stored, and whose masks, where they have a width, have a current blob
or none, and a PNG that may be read. -/
structure Storable (start final : Blobs) (layer : Layer) : Prop where
  pixels : ∀ pixels, layer.pixels = some (.resident pixels) → Returned png final pixels
  mask : ∀ mask, layer.mask = some (some mask) → mask.pixels.width ≠ 0 → mask.blob = none →
    Returned png final mask.pixels ∧ ∀ bytes, png.encode mask.pixels = .ok bytes → bytes.length ≤ maxEncodedPngBytes
  blob : ∀ mask, layer.mask = some (some mask) → mask.pixels.width ≠ 0 → ∀ blob, mask.blob = some blob →
    Readable png start blob mask.pixels

variable {png}

theorem le_insert (blobs : Blobs) (hash : String) (blob : Blob) : blobs ≤ blobs.insert hash blob := by
  intro other found h
  simp only [Blobs.insert, h, Option.some_or]

variable {s t : Blobs}

theorem storePng_ok {pixels : Pixels} {p : PixelsOf String} (h : storePng png pixels s = .ok (p, t)) :
    s ≤ t ∧ ∃ bytes blob, png.encode pixels = .ok bytes ∧
      p = ⟨pixels.width, pixels.height, some (png.hash ("image/png", bytes)).val⟩ ∧
      t.find (png.hash ("image/png", bytes)).val = some blob := by
  simp only [storePng, run_bind_ok_iff, run_lift_ok_iff, run_pure_ok_iff] at h
  obtain ⟨bytes, s', ⟨hbytes, rfl⟩, hash, _, hput, rfl, rfl⟩ := h
  cases hput
  refine ⟨le_insert _ _ _, bytes, ?_⟩
  simp only [Blobs.insert, if_true]
  cases s'.find (png.hash ("image/png", bytes)).val with
  | none => exact ⟨_, hbytes, trivial, rfl⟩
  | some blob => exact ⟨blob, hbytes, trivial, rfl⟩

/-! ## What is stored -/

variable (png) in
/-- The stored pixels of a layer. -/
def WrittenPixels (blobs : Blobs) : PixelSource → PixelsOf String → Prop
  | .ref ref, pixels => pixels = ⟨ref.width, ref.height, some ref.hash⟩
  | .resident buffer, pixels => ∃ hash, pixels = ⟨buffer.width, buffer.height, some hash⟩ ∧ Holds png blobs hash buffer

variable (png) in
structure WrittenMask (blobs : Blobs) (mask : Mask) (written : MaskOf String) : Prop where
  bounds : written.bounds = jsonItems mask.bounds
  rest : written.rest = jsonEntries mask.rest
  empty : mask.pixels.width = 0 → written.pixels = ⟨0, 0, none⟩
  pixels : mask.pixels.width ≠ 0 →
    ∃ hash, written.pixels = ⟨mask.pixels.width, mask.pixels.height, some hash⟩ ∧ Readable png blobs hash mask.pixels

variable (png) in
structure WrittenLayer (blobs : Blobs) (layer : Layer) (written : JsonLayer) : Prop where
  bounds : written.bounds = jsonItems layer.bounds
  rest : written.rest = jsonEntries layer.rest
  pixels : Option.Rel (WrittenPixels png blobs) layer.pixels written.pixels
  mask : Option.Rel (Option.Rel (WrittenMask png blobs)) layer.mask written.mask

/-- PNG gives back the pixels. -/
def Png.Lossless (png : Png) : Prop := ∀ pixels bytes, png.encode pixels = .ok bytes → png.decode bytes = .ok pixels

theorem serializePixels_ok (hlossless : png.Lossless) {final : Blobs} {source : PixelSource}
    (hreturned : ∀ pixels, source = .resident pixels → Returned png final pixels) {p : PixelsOf String}
    (h : serializePixels png source s = .ok (p, t)) : s ≤ t ∧ (t ≤ final → WrittenPixels png final source p) := by
  cases source with
  | ref ref =>
    obtain ⟨rfl, rfl⟩ := run_pure_ok_iff.mp h
    exact ⟨le_rfl, fun _ => rfl⟩
  | resident pixels =>
    obtain ⟨hle, bytes, blob, hbytes, rfl, hblob⟩ := storePng_ok h
    refine ⟨hle, fun hfinal => ⟨_, rfl, blob, hfinal _ _ hblob, ?_⟩⟩
    rw [hreturned pixels rfl bytes hbytes blob (hfinal _ _ hblob)]
    exact hlossless pixels bytes hbytes

theorem serializeMask_ok (hlossless : png.Lossless) {start final : Blobs} {layer : Layer} (hlayer : Storable png start final layer)
    {mask : Mask} (hmask : layer.mask = some (some mask)) (hs : start ≤ s) {m : MaskOf String}
    (h : serializeMask png mask s = .ok (m, t)) : s ≤ t ∧ (t ≤ final → WrittenMask png final mask (jsonMask m)) := by
  simp only [serializeMask, run_bind_ok_iff, run_pure_ok_iff] at h
  obtain ⟨p, _, hp, rfl, rfl⟩ := h
  unfold maskPixels at hp
  by_cases hwidth : mask.pixels.width = 0
  · rw [if_pos hwidth] at hp
    obtain ⟨rfl, rfl⟩ := run_pure_ok_iff.mp hp
    exact ⟨le_rfl, fun _ => ⟨rfl, rfl, fun _ => rfl, fun h => absurd hwidth h⟩⟩
  · rw [if_neg hwidth] at hp
    cases hblob : mask.blob with
    | some blob =>
      rw [hblob] at hp
      obtain ⟨rfl, rfl⟩ := run_pure_ok_iff.mp hp
      obtain ⟨found, hfound, hreads⟩ := hlayer.blob mask hmask hwidth blob hblob
      exact ⟨le_rfl, fun hfinal => ⟨rfl, rfl, fun h => absurd h hwidth,
        fun _ => ⟨_, rfl, found, hfinal _ _ (hs _ _ hfound), hreads⟩⟩⟩
    | none =>
      rw [hblob] at hp
      obtain ⟨hreturned, hlength⟩ := hlayer.mask mask hmask hwidth hblob
      obtain ⟨hle, bytes, found, hbytes, rfl, hfound⟩ := storePng_ok hp
      refine ⟨hle, fun hfinal => ⟨rfl, rfl, fun h => absurd h hwidth, fun _ => ⟨_, rfl, found, hfinal _ _ hfound, ?_⟩⟩⟩
      rw [hreturned bytes hbytes found (hfinal _ _ hfound)]
      exact ⟨hlength bytes hbytes, hlossless mask.pixels bytes hbytes⟩

theorem serializeLayer_ok (hlossless : png.Lossless) {start final : Blobs} {layer : Layer} (hlayer : Storable png start final layer)
    (hs : start ≤ s) {j : JsonLayer} (h : serializeLayer png layer s = .ok (j, t)) :
    s ≤ t ∧ (t ≤ final → WrittenLayer png final layer (jsonLayer j)) := by
  simp only [serializeLayer, run_bind_ok_iff, run_pure_ok_iff] at h
  obtain ⟨pixels, s₁, hpixels, mask, s₂, hmask, rfl, rfl⟩ := h
  obtain ⟨hle, hrel⟩ := mapM_ok (· ≤ ·) (fun source hsource p t => serializePixels_ok hlossless fun buffer h =>
    hlayer.pixels buffer (hsource.trans (congrArg some h))) hpixels
  obtain ⟨hle', hrel'⟩ := mapM_ok (· ≤ ·) (Q := fun m k => Option.Rel (WrittenMask png final) m (k.map jsonMask)) (u := final)
    (fun m hm k t hk => by
      obtain ⟨h, h'⟩ := mapM_ok (· ≤ ·) (fun a ha b u => serializeMask_ok hlossless hlayer (hm.trans (congrArg some ha)) (hs.trans hle)) hk
      exact ⟨h, fun hfinal => rel_map (h' hfinal)⟩) hmask
  exact ⟨hle.trans hle', fun hfinal => ⟨rfl, rfl, hrel (hle'.trans hfinal), rel_map (hrel' hfinal)⟩⟩

/-! ## The way back -/

theorem createSBlob_val (blob : SBlob) (s : Blobs) : createSBlob blob.val s = .ok (blob, s) := by
  rw [createSBlob, dif_pos blob.property]
  rfl

theorem createSBlob_ok {hash : String} {blob : SBlob} (h : createSBlob hash s = .ok (blob, t)) :
    t = s ∧ blob.val = hash := by
  unfold createSBlob at h
  split at h
  · obtain ⟨rfl, rfl⟩ := run_pure_ok_iff.mp h
    exact ⟨rfl, rfl⟩
  · cases h

theorem makeSBlob_ok {what hash : String} {blob : SBlob} (h : makeSBlob what hash s = .ok (blob, t)) :
    t = s ∧ blob.val = hash := by
  unfold makeSBlob at h
  split at h
  · obtain ⟨blobs, _, hget, h⟩ := run_bind_ok_iff.mp h
    cases hget
    split at h
    · exact createSBlob_ok h
    · cases h
  · split at h <;> cases h

theorem storePixels_ok {p : PixelsOf String} {q : PixelsOf SBlob} (h : storePixels p s = .ok (q, t)) :
    t = s ∧ loadPixels q = p := by
  simp only [storePixels, run_bind_ok_iff, run_pure_ok_iff] at h
  obtain ⟨blob, _, hblob, rfl, rfl⟩ := h
  obtain ⟨rfl, hhash⟩ := mapM_back (l := Subtype.val) (fun hash blob t => makeSBlob_ok) hblob
  exact ⟨rfl, by rw [loadPixels, hhash]⟩

theorem storeMask_ok {m : MaskOf String} {n : MaskOf SBlob} (h : storeMask m s = .ok (n, t)) : t = s ∧ loadMask n = m := by
  simp only [storeMask, run_bind_ok_iff, run_pure_ok_iff] at h
  obtain ⟨p, _, hp, rfl, rfl⟩ := h
  obtain ⟨rfl, hload⟩ := storePixels_ok hp
  exact ⟨rfl, by rw [loadMask, hload]⟩

theorem storeLayer_ok {j : JsonLayer} {stored : PsdStoredLayer} (h : storeLayer j s = .ok (stored, t)) :
    t = s ∧ loadLayer stored = j := by
  simp only [storeLayer, run_bind_ok_iff, run_pure_ok_iff] at h
  obtain ⟨pixels, _, hpixels, mask, _, hmask, rfl, rfl⟩ := h
  obtain ⟨rfl, hp⟩ := mapM_back (fun p q t => storePixels_ok) hpixels
  obtain ⟨rfl, hm⟩ := mapM_back (fun m n t => mapM_back fun a b u => storeMask_ok) hmask
  exact ⟨rfl, by rw [loadLayer, hp, hm]⟩

theorem storeFont_ok {font : FontOf String} {stored : FontOf SBlob} (h : storeFont font s = .ok (stored, t)) :
    t = s ∧ fontText stored = font := by
  simp only [storeFont, run_bind_ok_iff, run_pure_ok_iff] at h
  obtain ⟨blob, _, hblob, rfl, rfl⟩ := h
  obtain ⟨rfl, hhash⟩ := makeSBlob_ok hblob
  exact ⟨rfl, by rw [fontText, hhash]⟩

variable (png) in
/-- A reference is kept, with its blob; a buffer has become a reference to a PNG of it. -/
def SamePixels (blobs : Blobs) : PixelSource → PixelSource → Prop
  | .ref ref, source => ∃ blob : SBlob, blob.val = ref.hash ∧ source = .ref { ref with blob := some blob }
  | .resident pixels, source =>
    ∃ blob : SBlob, source = .ref ⟨pixels.width, pixels.height, blob, some blob⟩ ∧ Holds png blobs blob pixels

variable (png) in
/-- A mask is there with its pixels, or without any where they have no width. -/
structure SameMask (blobs : Blobs) (mask mask' : Mask) : Prop where
  bounds : mask'.bounds = jsonItems mask.bounds
  rest : mask'.rest = jsonEntries mask.rest
  empty : mask.pixels.width = 0 → mask'.pixels = ⟨0, 0, []⟩ ∧ mask'.blob = none
  pixels : mask.pixels.width ≠ 0 → mask'.pixels = mask.pixels ∧ ∃ blob, mask'.blob = some blob ∧ Holds png blobs blob mask.pixels

variable (png) in
/-- A layer is there with its properties, its pixels and its mask. -/
structure SameLayer (blobs : Blobs) (layer layer' : Layer) : Prop where
  bounds : layer'.bounds = jsonItems layer.bounds
  rest : layer'.rest = jsonEntries layer.rest
  pixels : Option.Rel (SamePixels png blobs) layer.pixels layer'.pixels
  mask : Option.Rel (Option.Rel (SameMask png blobs)) layer.mask layer'.mask

theorem deserializePixels_total {s : Blobs} (source : PixelSource) (p : PixelsOf SBlob) (h : WrittenPixels png s source (loadPixels p)) :
    ∃ source', deserializePixels (loadPixels p) s = .ok (source', s) ∧ SamePixels png s source source' ∧
      serializePixels png source' s = .ok (loadPixels p, s) := by
  obtain ⟨width, height, hash⟩ := p
  cases hash with
  | none =>
    cases source with
    | ref ref => cases h
    | resident pixels =>
      obtain ⟨hash, h, _⟩ := h
      cases h
  | some blob =>
    refine ⟨.ref ⟨width, height, blob, some blob⟩, ?_, ?_, rfl⟩
    · simp only [deserializePixels, loadPixels, Option.map_some, Option.getD_some, run_bind_ok_iff, run_pure_ok_iff]
      exact ⟨blob, s, createSBlob_val blob s, rfl, rfl⟩
    · cases source with
      | ref ref =>
        obtain ⟨_, _, hash, _⟩ := ref
        cases h
        exact ⟨blob, rfl, rfl⟩
      | resident pixels =>
        obtain ⟨hash, h, hholds⟩ := h
        cases h
        exact ⟨blob, rfl, hholds⟩

theorem getBytes_ok {s : Blobs} {hash : SBlob} {blob : Blob} (hblob : s.find hash = some blob) (hlength : blob.2.length ≤ maxEncodedPngBytes) :
    getBytes hash s = .ok (some blob.2, s) := by
  simp only [getBytes, run_bind_ok_iff]
  refine ⟨hash, s, createSBlob_val hash s, s, s, rfl, ?_⟩
  simp only [hblob, if_neg (not_lt.mpr hlength)]
  rfl

theorem deserializeMask_total {s : Blobs} (mask : Mask) (n : MaskOf SBlob) (h : WrittenMask png s mask (loadMask n)) :
    ∃ mask', deserializeMask png (loadMask n) s = .ok (mask', s) ∧ SameMask png s mask mask' ∧
      serializeMask png mask' s = .ok (loadMask n, s) := by
  obtain ⟨bounds, rest, width, height, hash⟩ := n
  by_cases hwidth : mask.pixels.width = 0
  · have hpixels := h.empty hwidth
    cases hash with
    | none =>
      cases hpixels
      exact ⟨⟨bounds, rest, ⟨0, 0, []⟩, none⟩, rfl, ⟨h.bounds, h.rest, fun _ => ⟨rfl, rfl⟩, fun h => absurd hwidth h⟩, rfl⟩
    | some blob => cases hpixels
  · obtain ⟨hash', hpixels, blob', hfind, hlength, hdecode⟩ := h.pixels hwidth
    cases hash with
    | none => cases hpixels
    | some blob =>
      cases hpixels
      refine ⟨⟨bounds, rest, mask.pixels, some blob⟩, ?_, ⟨h.bounds, h.rest, fun h => absurd h hwidth,
        fun _ => ⟨rfl, blob, rfl, blob', hfind, hdecode⟩⟩, ?_⟩
      · simp only [deserializeMask, loadMask, loadPixels, Option.map_some, run_bind_ok_iff]
        refine ⟨some blob'.2, s, getBytes_ok hfind hlength, ?_⟩
        simp only [run_bind_ok_iff, run_lift_ok_iff, run_pure_ok_iff]
        exact ⟨mask.pixels, s, ⟨hdecode, rfl⟩, blob, s, createSBlob_val blob s, rfl, rfl⟩
      · simp only [serializeMask, maskPixels, if_neg hwidth]
        rfl

theorem deserializeLayer_total {s : Blobs} {layer : Layer} {stored : PsdStoredLayer} (h : WrittenLayer png s layer (loadLayer stored)) :
    ∃ layer', deserializeLayer png (loadLayer stored) s = .ok (layer', s) ∧ SameLayer png s layer layer' ∧
      serializeLayer png layer' s = .ok (loadLayer stored, s) := by
  obtain ⟨pixels, hpixels, hsame, hagain⟩ := mapM_total deserializePixels_total h.pixels
  obtain ⟨mask, hmask, hsame', hagain'⟩ := mapM_total (l := Option.map loadMask) (fun a d => mapM_total deserializeMask_total) h.mask
  refine ⟨⟨stored.bounds, stored.rest, pixels, mask⟩, ?_, ⟨h.bounds, h.rest, hsame, hsame'⟩, ?_⟩
  · simp only [deserializeLayer, loadLayer, run_bind_ok_iff, run_pure_ok_iff]
    exact ⟨pixels, s, hpixels, mask, s, hmask, rfl, rfl⟩
  · simp only [serializeLayer, loadLayer, run_bind_ok_iff, run_pure_ok_iff]
    exact ⟨_, s, hagain, _, s, hagain', rfl, rfl⟩

/-! ## Whole documents -/

theorem fontText_injective : Function.Injective fontText := by
  rintro ⟨name, blob⟩ ⟨name', blob'⟩ h
  cases congrArg FontOf.postScriptName h
  cases Subtype.ext (congrArg FontOf.blob h)
  rfl

variable (png) in
/-- A stored layer, which JSON keeps and which can be stored again. -/
structure StoredLayer (blobs : Blobs) (layer : Layer) (stored : PsdStoredLayer) : Prop where
  written : WrittenLayer png blobs layer (loadLayer stored)
  json : jsonLayer (loadLayer stored) = loadLayer stored
  there : storeLayer (loadLayer stored) blobs = .ok (stored, blobs)

variable (png) in
/-- A stored document, whose fonts are there. -/
structure Stored (blobs : Blobs) (doc : PsdDoc) (state : PsdStoredDoc) : Prop where
  canvas : state.canvas = jsonEntries doc.canvas
  layers : Related (StoredLayer png blobs) doc.layers state.layers
  fonts : state.fonts = doc.fonts
  there : (doc.fonts.map (List.map fontText)).mapM (List.mapM storeFont) blobs = .ok (doc.fonts, blobs)

theorem storePsdDoc_ok (hlossless : png.Lossless) {doc : PsdDoc} {start final : Blobs}
    (hdoc : ∀ layer ∈ values doc.layers, Storable png start final layer) {state : PsdStoredDoc}
    (h : storePsdDoc png doc start = .ok (state, final)) : start ≤ final ∧ Stored png final doc state := by
  simp only [storePsdDoc, serialize, jsonDoc, run_bind_ok_iff, run_pure_ok_iff] at h
  obtain ⟨_, _, ⟨layers, s₁, hserialize, json, s₂, hjson, rfl, rfl⟩, stored, s₃, hstore, fonts, s₄, hfonts, rfl, rfl⟩ := h
  obtain ⟨hstate, hback⟩ := mapM_back (fun l r t => list_mapM_back fun font stored t => storeFont_ok) hfonts
  obtain rfl := (Option.map_injective fontText_injective.list_map) hback
  subst hstate
  obtain ⟨rfl, hstored⟩ := traverse_read (fun j stored t h => (storeLayer_ok h).1) hstore
  obtain ⟨rfl, hjsons⟩ := traverse_read (fun j k t h => (run_pure_ok_iff.mp h).2) hjson
  obtain ⟨hle, hwritten⟩ := traverse_ok (· ≤ ·) (Q := fun layer j => WrittenLayer png final layer (jsonLayer j))
    (fun layer layer' ⟨heq, hlayer⟩ s hs j t h => by
      subst heq
      exact serializeLayer_ok hlossless hlayer hs h)
    (related_self doc.layers hdoc) le_rfl hserialize
  refine ⟨hle, rfl, ?_, rfl, hfonts⟩
  refine ((hwritten le_rfl).comp hjsons (T := fun layer j => WrittenLayer png final layer j ∧ jsonLayer j = j) ?_).comp hstored ?_
  · intro layer j k hw hj
    obtain ⟨rfl, -⟩ := run_pure_ok_iff.mp hj
    exact ⟨hw, jsonLayer_idem j⟩
  · intro layer j stored ⟨hw, hj⟩ hstore
    obtain ⟨-, rfl⟩ := storeLayer_ok hstore
    exact ⟨hw, hj, hstore⟩

variable (png) in
/-- What goes through JSON for a stored layer. -/
def LoadedFrom (blobs : Blobs) (stored : PsdStoredLayer) (j : JsonLayer) : Prop :=
  j = loadLayer stored ∧ ∃ layer, StoredLayer png blobs layer stored

theorem jsonLayers_total {blobs : Blobs} {ss : List (RoseTree PsdStoredLayer)} {js : List (RoseTree JsonLayer)}
    (h : Related (LoadedFrom png blobs) ss js) :
    ∃ ks, traverse (σ := Blobs) (ε := String) (fun layer => pure (jsonLayer layer)) js blobs = .ok (ks, blobs) ∧
      Related (LoadedFrom png blobs) ss ks :=
  traverse_total (fun stored j ⟨heq, layer, hlayer⟩ => ⟨_, rfl, by rw [heq, hlayer.json], layer, hlayer⟩) h

theorem deserializeFonts_total (blobs : Blobs) (fonts : Option (List (FontOf SBlob))) :
    (fonts.map (List.map loadFont)).mapM (List.mapM deserializeFont) blobs = .ok (fonts, blobs) := by
  have hfont : ∀ font, deserializeFont (loadFont font) blobs = .ok (font, blobs) := fun font => by
    simp only [deserializeFont, loadFont, fontText, run_bind_ok_iff, run_pure_ok_iff]
    exact ⟨font.blob, blobs, createSBlob_val font.blob blobs, rfl, rfl⟩
  cases fonts with
  | none => rfl
  | some fonts =>
    simp only [Option.map_some, Option.mapM_some, map_eq_pure_bind, run_bind_ok_iff, run_pure_ok_iff]
    exact ⟨fonts, blobs, list_mapM_total hfont fonts, rfl, rfl⟩

theorem Stored.materialize {blobs : Blobs} {doc : PsdDoc} {state : PsdStoredDoc} (h : Stored png blobs doc state) :
    ∃ doc', materializePsdDoc png state blobs = .ok (doc', blobs) ∧ doc'.canvas = jsonEntries doc.canvas ∧
      Related (SameLayer png blobs) doc.layers doc'.layers ∧ doc'.fonts = doc.fonts ∧
      storePsdDoc png doc' blobs = .ok (state, blobs) := by
  -- Each stored layer beside what a step has made of it.
  obtain ⟨loaded, hloaded, hrel⟩ := traverse_total (f := fun layer => pure (loadLayer layer)) (s := blobs) (ε := String)
    (S := LoadedFrom png blobs) (fun stored _ ⟨heq, hlayer⟩ => ⟨_, rfl, congrArg loadLayer heq, hlayer⟩) h.layers.diagonal
  obtain ⟨json, hjsons, hrel⟩ := jsonLayers_total hrel
  obtain ⟨layers, hlayers, hrel⟩ := traverse_total (f := deserializeLayer png)
    (S := fun stored layer' => deserializeLayer png (loadLayer stored) blobs = .ok (layer', blobs) ∧
      serializeLayer png layer' blobs = .ok (loadLayer stored, blobs) ∧ ∃ layer, StoredLayer png blobs layer stored)
    (fun stored j ⟨heq, layer, hlayer⟩ => by
      subst heq
      obtain ⟨layer', hdone, -, hagain⟩ := deserializeLayer_total hlayer.written
      exact ⟨layer', hdone, hdone, hagain, layer, hlayer⟩) hrel
  have hsame : Related (SameLayer png blobs) doc.layers layers := h.layers.comp hrel fun layer stored layer' hlayer hdone => by
    obtain ⟨found, hfound, hsame, -⟩ := deserializeLayer_total hlayer.written
    cases hdone.1.symm.trans hfound
    exact hsame
  -- The way back.
  obtain ⟨json', hserialize, hrel'⟩ := traverse_total (f := serializeLayer png) (S := LoadedFrom png blobs)
    (fun stored layer' ⟨_, hagain, hlayer⟩ => ⟨_, hagain, rfl, hlayer⟩) hrel
  obtain ⟨json'', hjsons', hrel'⟩ := jsonLayers_total hrel'
  obtain ⟨stored', hstore, hrel'⟩ := traverse_total (f := storeLayer) (S := fun stored stored' => stored' = stored)
    (fun stored j ⟨heq, layer, hlayer⟩ => ⟨stored, heq ▸ hlayer.there, rfl⟩) hrel'
  refine ⟨⟨jsonEntries state.canvas, layers, state.fonts⟩, ?_, ?_, hsame, h.fonts, ?_⟩
  · simp only [materializePsdDoc, deserialize, jsonDoc, run_bind_ok_iff, run_pure_ok_iff]
    exact ⟨_, _, hloaded, _, _, ⟨_, _, hjsons, rfl, rfl⟩, _, _, hlayers, _, _, deserializeFonts_total blobs _, rfl, rfl⟩
  · rw [h.canvas, jsonEntries_idem]
  · have hcanvas : jsonEntries (jsonEntries state.canvas) = state.canvas := by rw [h.canvas, jsonEntries_idem, jsonEntries_idem]
    simp only [storePsdDoc, serialize, jsonDoc, run_bind_ok_iff, run_pure_ok_iff]
    refine ⟨_, _, ⟨_, _, hserialize, _, _, hjsons', rfl, rfl⟩, _, _, hstore, _, _, h.fonts.symm ▸ h.there, ?_, rfl⟩
    rw [hcanvas, hrel'.eq]

/-- A document that has been stored is materialized with its canvas and fonts and, at every depth, with its layers; no blob goes. -/
theorem materialize_stored (hlossless : png.Lossless) {doc : PsdDoc} {start final : Blobs}
    (hdoc : ∀ layer ∈ values doc.layers, Storable png start final layer) {state : PsdStoredDoc}
    (h : storePsdDoc png doc start = .ok (state, final)) :
    start ≤ final ∧ ∃ doc', materializePsdDoc png state final = .ok (doc', final) ∧ doc'.canvas = jsonEntries doc.canvas ∧
      Related (SameLayer png final) doc.layers doc'.layers ∧ doc'.fonts = doc.fonts := by
  obtain ⟨hle, hstored⟩ := storePsdDoc_ok hlossless hdoc h
  obtain ⟨doc', hdoc', hcanvas, hlayers, hfonts, -⟩ := hstored.materialize
  exact ⟨hle, doc', hdoc', hcanvas, hlayers, hfonts⟩

/-- A materialized document is stored as the state that it comes from, and no blob is added. -/
theorem store_materialized (hlossless : png.Lossless) {doc : PsdDoc} {start final : Blobs}
    (hdoc : ∀ layer ∈ values doc.layers, Storable png start final layer) {state : PsdStoredDoc}
    (h : storePsdDoc png doc start = .ok (state, final)) {doc' : PsdDoc} {after : Blobs}
    (h' : materializePsdDoc png state final = .ok (doc', after)) : storePsdDoc png doc' after = .ok (state, final) := by
  obtain ⟨_, hstored⟩ := storePsdDoc_ok hlossless hdoc h
  obtain ⟨found, hfound, -, -, -, hagain⟩ := hstored.materialize
  cases h'.symm.trans hfound
  exact hagain

/-! ## A document with a group -/

/-- Images of one row, with their bytes as they are, and one hash. -/
def plainPng : Png where
  encode pixels := if pixels.height = 1 ∧ pixels.data.length = pixels.width then .ok pixels.data else .error "not a row"
  decode bytes := .ok ⟨bytes.length, 1, bytes⟩
  hash _ := ⟨"aaaaaaaaaaaaaaaaaaaaaaaaaaaaaaaaaaaaaaaaaaaaaaaaaaaaaaaaaaaaaaaa", by decide⟩

theorem plainPng_lossless : plainPng.Lossless := by
  rintro ⟨width, height, data⟩ bytes h
  simp only [plainPng] at h ⊢
  split at h
  · rename_i hrow
    cases h
    rw [hrow.1, hrow.2]
  · cases h

def row : Pixels := ⟨2, 1, [7, 8]⟩

/-- A group with a mask, and in it a raster layer with an undefined property. -/
def groupDoc : PsdDoc where
  canvas := [("width", .number (.finite 2)), ("height", .number (.finite 1))]
  layers := [.node ⟨[], [("type", .string "group")], none, some (some ⟨[], [("inverted", .bool false)], row, none⟩)⟩
    (some [.node ⟨[], [("type", .string "raster"), ("fillOpacity", .undefined)], some (.resident row), some none⟩ none])]
  fonts := none

theorem groupDoc_storable {final : Blobs} (h : final.find (plainPng.hash ("image/png", row.data)).val = some ("image/png", row.data)) :
    ∀ layer ∈ values groupDoc.layers, Storable plainPng ⟨fun _ => none⟩ final layer := by
  have hreturned : Returned plainPng final row := by
    intro bytes hbytes blob hblob
    cases hbytes
    exact Option.some.inj (hblob.symm.trans h)
  have hlength : ∀ bytes, plainPng.encode row = .ok bytes → bytes.length ≤ maxEncodedPngBytes := by
    intro bytes hbytes
    cases hbytes
    decide
  intro layer hlayer
  simp only [groupDoc, values_cons, values_nil, kids_node, value_node, Option.getD, List.append_nil, List.mem_cons,
    List.not_mem_nil, or_false] at hlayer
  rcases hlayer with rfl | rfl
  · refine ⟨?_, ?_, ?_⟩
    · rintro pixels ⟨⟩
    · rintro mask ⟨⟩ - -
      exact ⟨hreturned, hlength⟩
    · rintro mask ⟨⟩ - blob ⟨⟩
  · refine ⟨?_, ?_, ?_⟩
    · rintro pixels ⟨⟩
      exact hreturned
    · rintro mask ⟨⟩
    · rintro mask ⟨⟩

theorem groupDoc_stored : ∃ state final, storePsdDoc plainPng groupDoc ⟨fun _ => none⟩ = .ok (state, final) ∧
    final.find (plainPng.hash ("image/png", row.data)).val = some ("image/png", row.data) := by
  obtain ⟨⟨state, final⟩, hstore, hfind⟩ := exists_ok (x := storePsdDoc plainPng groupDoc ⟨fun _ => none⟩)
    (fun result => result.2.find (plainPng.hash ("image/png", row.data)).val) (b := some ("image/png", row.data)) (by decide)
  exact ⟨state, final, hstore, hfind⟩

theorem materialize_stored_group : ∃ state final doc', storePsdDoc plainPng groupDoc ⟨fun _ => none⟩ = .ok (state, final) ∧
    materializePsdDoc plainPng state final = .ok (doc', final) ∧ Related (SameLayer plainPng final) groupDoc.layers doc'.layers := by
  obtain ⟨state, final, hstore, hfind⟩ := groupDoc_stored
  obtain ⟨-, doc', hdoc', -, hlayers, -⟩ := materialize_stored plainPng_lossless (groupDoc_storable hfind) hstore
  exact ⟨state, final, doc', hstore, hdoc', hlayers⟩

theorem store_materialized_group : ∃ state final doc', storePsdDoc plainPng groupDoc ⟨fun _ => none⟩ = .ok (state, final) ∧
    materializePsdDoc plainPng state final = .ok (doc', final) ∧ storePsdDoc plainPng doc' final = .ok (state, final) := by
  obtain ⟨state, final, hstore, hfind⟩ := groupDoc_stored
  obtain ⟨doc', hdoc', -⟩ := (storePsdDoc_ok plainPng_lossless (groupDoc_storable hfind) hstore).2.materialize
  exact ⟨state, final, doc', hstore, hdoc', store_materialized plainPng_lossless (groupDoc_storable hfind) hstore hdoc'⟩

end UniDocs.Psd.Storage
