import UniDocs.Lemmas.PixelLayers

/-!
# What a layer can reach

A layer that is well formed changes no pixel of the canvas outside the rectangle that `layerInfluenceBounds` gives for it, and
the layers that a region keeps change its pixels as all layers do.
-/

namespace UniDocs.Psd

open Lib

variable {C N : Type}

/-! ## Rectangles -/

/-- A place lies in a rectangle. -/
def Rect.Has (r : Rect ℚ) (cx cy : Int) : Prop := (r.left ≤ cx ∧ (cx : ℚ) < r.right) ∧ r.top ≤ cy ∧ (cy : ℚ) < r.bottom

namespace Rect

variable {r s : Rect ℚ} {cx cy : Int}

theorem has_union_left (h : r.Has cx cy) : (r.union s).Has cx cy :=
  ⟨⟨le_trans (min_le_left _ _) h.1.1, lt_of_lt_of_le h.1.2 (le_max_left _ _)⟩,
    le_trans (min_le_left _ _) h.2.1, lt_of_lt_of_le h.2.2 (le_max_left _ _)⟩

theorem has_union_right (h : s.Has cx cy) : (r.union s).Has cx cy :=
  ⟨⟨le_trans (min_le_right _ _) h.1.1, lt_of_lt_of_le h.1.2 (le_max_right _ _)⟩,
    le_trans (min_le_right _ _) h.2.1, lt_of_lt_of_le h.2.2 (le_max_right _ _)⟩

/-- A place of the canvas is not lost when a rectangle is clamped to it. -/
theorem has_clamp {w h : Nat} (hcanvas : InWindow cx cy 0 0 w h) (hr : r.Has cx cy) : (r.clamp w h).Has cx cy := by
  obtain ⟨⟨hx, hx'⟩, hy, hy'⟩ := hcanvas
  rw [Int.sub_zero] at hx hx' hy hy'
  refine ⟨⟨max_le (by exact_mod_cast hx) hr.1.1, lt_min (by exact_mod_cast hx') hr.1.2⟩,
    max_le (by exact_mod_cast hy) hr.2.1, lt_min (by exact_mod_cast hy') hr.2.2⟩

/-- Two rectangles with a common place meet. -/
theorem intersects_of_has (hr : r.Has cx cy) (hs : s.Has cx cy) : r.intersects s = true := by
  obtain ⟨⟨hx, hx'⟩, hy, hy'⟩ := hr
  obtain ⟨⟨kx, kx'⟩, ky, ky'⟩ := hs
  rw [intersects, if_neg, decide_eq_true_iff]
  · refine ⟨lt_of_le_of_lt hx kx', lt_of_le_of_lt kx hx', lt_of_le_of_lt hy ky', lt_of_le_of_lt ky hy'⟩
  · rintro (h | h | h | h)
    · exact absurd (lt_of_le_of_lt hy hy') (not_lt.mpr h)
    · exact absurd (lt_of_le_of_lt hx hx') (not_lt.mpr h)
    · exact absurd (lt_of_le_of_lt ky ky') (not_lt.mpr h)
    · exact absurd (lt_of_le_of_lt kx kx') (not_lt.mpr h)

end Rect

/-! ## Well-formed layers -/

/-- The pixels fill the bounds. -/
def Fills (px : Pixels) (bounds : Rect Int) : Prop :=
  (px.width : Int) = bounds.right - bounds.left ∧ (px.height : Int) = bounds.bottom - bounds.top

/-- A mask with pixels has them for all of its bounds. -/
def ExactMask (mask : Mask) : Prop :=
  0 < mask.pixels.width → Fills mask.pixels mask.bounds ∧
    mask.pixels.data.length = mask.pixels.width * mask.pixels.height * 4

/-- The masks and pixel buffers of a layer are exactly as large as their bounds, and the parameters of its shadow are not
negative. -/
def WellFormed (layer : PaintLayer) : Prop :=
  (∀ mask, layer.paint.mask = some mask → ExactMask mask) ∧
    (∀ px, layer.paint.pixels = some px → Fills px layer.paint.bounds) ∧
    ∀ ds, layer.paint.dropShadow = some ds → 0 ≤ ds.size ∧ 0 ≤ ds.choke

variable (A : Arithmetic C N) {cx cy : Int}

theorem ordinary_maskCoverageAt {mask : Mask} (h : ExactMask mask) : A.Ordinary (maskCoverageAt A mask cx cy) := by
  have hbyte : ∀ v : Option UInt8, v ≠ none → A.Ordinary (A.ofByte (if mask.inverted then v.map fun v => 255 - v else v)) := by
    intro v hv
    cases v with
    | none => exact absurd rfl hv
    | some v =>
      cases mask.inverted
      · exact A.ordinary_byte _
      · exact A.ordinary_byte _
  rw [maskCoverageAt]
  refine hbyte _ ?_
  split
  · rename_i hin
    obtain ⟨hwidth, hleft, hright, htop, hbottom⟩ := hin
    obtain ⟨⟨hw, hh⟩, hlength⟩ := h hwidth
    have hwindow : InWindow cx cy mask.bounds.left mask.bounds.top mask.pixels.width mask.pixels.height := by
      rw [InWindow]
      omega
    have hcovers : Covers ⟨mask.bounds.left, mask.bounds.top, mask.pixels.width, mask.pixels.height⟩ cx cy := hwindow
    have hindex := cast_pixelIndex hcovers
    have hlt := pixelIndex_lt hcovers
    simp only at hindex hlt
    have hsome : (((cy - mask.bounds.top) * mask.pixels.width + (cx - mask.bounds.left)) * 4).toNat < mask.pixels.data.length := by
      omega
    rw [List.getElem?_eq_getElem hsome]
    simp
  · simp

theorem isZero_clipped {mask : Option Mask} (hmask : ∀ m, mask = some m → ExactMask m) (clip : Option C) {sa : N}
    (hsa : A.isZero sa = true) : A.isZero (clipped A clip (withMask A mask cx cy sa)) = true := by
  have hmasked : A.isZero (withMask A mask cx cy sa) = true := by
    cases mask with
    | none => exact hsa
    | some m => exact A.isZero_mul hsa (ordinary_maskCoverageAt A (hmask m rfl))
  cases clip with
  | none => exact hmasked
  | some c => exact A.isZero_mul hmasked (A.ordinary_fraction c)

/-- A pixel of a new buffer, whatever its colour has become, is not drawn. -/
theorem paintWhole_clear {layer : Paint} (hmask : ∀ m, layer.mask = some m → ExactMask m) (source : Rgba C)
    (hsource : source.a = A.clear) (clip : Option C) (p : Rgba C) : paintWhole A cx cy source layer clip p = p := by
  have hzero : A.isZero (A.mul (A.fraction source.a) (A.number layer.opacity)) = true := by
    rw [hsource]
    exact A.isZero_mul A.isZero_clear (A.ordinary_number _)
  rw [paintWhole, if_pos (isZero_clipped A hmask clip hzero)]

/-! ## Layers with pixels -/

variable {A}

/-- The rectangle of a layer covers the one it was widened from. -/
theorem has_effectBounds {layer : Paint} {r : Rect ℚ} (h : r.Has cx cy) : (effectBounds A layer r).Has cx cy := by
  have hstroked : ∀ (st : Stroke) (m : ℚ), (if 0 < m then r.union ((Rect.ofInt layer.bounds).grow m) else r).Has cx cy := by
    intro st m
    split
    · exact Rect.has_union_left h
    · exact h
  rw [effectBounds]
  cases layer.stroke with
  | none =>
    cases layer.dropShadow with
    | none => exact h
    | some ds => exact Rect.has_union_left h
  | some st =>
    cases layer.dropShadow with
    | none => exact hstroked st _
    | some ds => exact Rect.has_union_left (hstroked st _)

theorem has_shadowBounds {layer : Paint} {r : Rect ℚ} {ds : DropShadow} (hds : layer.dropShadow = some ds) {dx dy : Int}
    (hoffset : A.shadowOffset ds.angle ds.distance = (dx, dy))
    (h : (((Rect.ofInt layer.bounds).shift dx dy).grow (ds.size + ds.choke)).Has cx cy) :
    (effectBounds A layer r).Has cx cy := by
  rw [effectBounds, hds]
  simp only [hoffset]
  exact Rect.has_union_right h

theorem has_bounds {bounds : Rect Int} {px : Pixels} (hfills : Fills px bounds)
    (h : InWindow cx cy bounds.left bounds.top px.width px.height) : (Rect.ofInt bounds).Has cx cy := by
  obtain ⟨hwidth, hheight⟩ := hfills
  rw [InWindow] at h
  exact ⟨⟨Int.cast_le.mpr (by omega), Int.cast_lt.mpr (by omega)⟩, Int.cast_le.mpr (by omega), Int.cast_lt.mpr (by omega)⟩

theorem has_shadow {bounds : Rect Int} {px : Pixels} (hfills : Fills px bounds) {size choke : ℚ} {m : Nat} (hm : (m : ℚ) ≤ size)
    (hchoke : 0 ≤ choke) {dx dy : Int}
    (h : InWindow cx cy (bounds.left - m + dx) (bounds.top - m + dy) (px.width + 2 * m) (px.height + 2 * m)) :
    (((Rect.ofInt bounds).shift dx dy).grow (size + choke)).Has cx cy := by
  obtain ⟨hwidth, hheight⟩ := hfills
  rw [InWindow] at h
  have hleft : ((bounds.left - m + dx : Int) : ℚ) ≤ cx := by exact_mod_cast (show bounds.left - m + dx ≤ cx by omega)
  have hright : (cx : ℚ) < ((bounds.right + m + dx : Int) : ℚ) := by exact_mod_cast (show cx < bounds.right + m + dx by omega)
  have htop : ((bounds.top - m + dy : Int) : ℚ) ≤ cy := by exact_mod_cast (show bounds.top - m + dy ≤ cy by omega)
  have hbottom : (cy : ℚ) < ((bounds.bottom + m + dy : Int) : ℚ) := by exact_mod_cast (show cy < bounds.bottom + m + dy by omega)
  push_cast at hleft hright htop hbottom
  refine ⟨⟨?_, ?_⟩, ?_, ?_⟩ <;> simp only [Rect.grow, Rect.shift, Rect.ofInt] <;> linarith

theorem paintShadow_outside {layer : Paint} {ds : DropShadow} {px : Pixels} (hfills : Fills px layer.bounds)
    (hds : layer.dropShadow = some ds) (hsize : 0 ≤ ds.size) (hchoke : 0 ≤ ds.choke) (hwhole : ds.size.den = 1)
    {r : Rect ℚ} (hout : ¬ (effectBounds A layer r).Has cx cy) (cw ch : Nat) (clip : Option C) (p : Rgba C) :
    paintShadow A cx cy cw ch layer ds px clip p = p := by
  cases hoffset : A.shadowOffset ds.angle ds.distance with
  | mk dx dy =>
    have hshadow : ∀ m : Nat, (m : ℚ) ≤ ds.size →
        ¬ InWindow cx cy (layer.bounds.left - m + dx) (layer.bounds.top - m + dy) (px.width + 2 * m) (px.height + 2 * m) :=
      fun m hm h => hout (has_shadowBounds hds hoffset (has_shadow hfills hm hchoke h))
    rw [paintShadow, hoffset]
    by_cases hhard : ds.size ≤ 0
    · have hzero := hshadow 0 (by exact_mod_cast hsize)
      simp only [Nat.cast_zero, Int.sub_zero, Nat.mul_zero, Nat.add_zero] at hzero
      simp only [if_pos hhard, if_neg hzero]
    · have hcast : ((ds.size.num.toNat : Nat) : ℚ) = ds.size := by
        have hnum : ((ds.size.num.toNat : Nat) : Int) = ds.size.num := Int.toNat_of_nonneg (Rat.num_nonneg.mpr hsize)
        calc ((ds.size.num.toNat : Nat) : ℚ) = (((ds.size.num.toNat : Nat) : Int) : ℚ) := (Int.cast_natCast _).symm
          _ = (ds.size.num : ℚ) := by rw [hnum]
          _ = ds.size := (Rat.den_eq_one_iff _).mp hwhole
      simp only [if_neg hhard, if_neg (hshadow _ hcast.le)]

theorem paintPixels_outside {layer : Paint} {px : Pixels} (hfills : Fills px layer.bounds)
    (hshadow : ∀ ds, layer.dropShadow = some ds → 0 ≤ ds.size ∧ 0 ≤ ds.choke ∧ ds.size.den = 1)
    (hout : ¬ (effectBounds A layer (Rect.ofInt layer.bounds)).Has cx cy) (cw ch : Nat) (clip : Option C) (p : Rgba C) :
    paintPixels A cx cy cw ch layer px clip p = p := by
  have hwindow : ¬ InWindow cx cy layer.bounds.left layer.bounds.top px.width px.height := fun h =>
    hout (has_effectBounds (has_bounds hfills h))
  have hfill : ∀ source opacity mode mask overlay p, paintBuffer A cx cy source px.width px.height layer.bounds.left
      layer.bounds.top opacity mode mask clip overlay p = p := fun _ _ _ _ _ _ => if_neg hwindow
  have hstroke : ∀ st p, paintStroke A cx cy layer st px clip p = p := fun _ _ => if_neg hwindow
  rw [paintPixels]
  cases hds : layer.dropShadow with
  | none => cases layer.stroke <;> cases layer.colorOverlay <;> simp only [hfill, hstroke, ite_self]
  | some ds =>
    obtain ⟨hsize, hchoke, hwhole⟩ := hshadow ds hds
    have hbehind := paintShadow_outside hfills hds hsize hchoke hwhole hout cw ch clip p
    cases layer.stroke <;> cases layer.colorOverlay <;> simp only [hfill, hstroke, hbehind, ite_self]

/-! ## Layers -/

/-- A layer whose pixels, masks and effects are as the rectangle of its layer expects. -/
def Sound (layer : PaintLayer) : Prop := WellFormed layer ∧ WholeShadow layer

/-- The union of the rectangles of layers covers one that is there, and each of theirs. -/
theorem has_childBounds {w h : Nat} : ∀ (layers : List PaintLayer) (acc : Option (Rect ℚ)),
    ((∃ r, acc = some r ∧ r.Has cx cy) ∨ ∃ layer ∈ layers, (layerInfluenceBounds A w h layer).Has cx cy) →
    ∃ r, childBounds A w h layers acc = some r ∧ r.Has cx cy := by
  intro layers
  induction layers with
  | nil =>
    rintro acc (hacc | ⟨layer, hmem, _⟩)
    · rw [childBounds]
      exact hacc
    · exact absurd hmem List.not_mem_nil
  | cons layer layers ih =>
    intro acc hhas
    cases acc with
    | none =>
      rw [childBounds]
      refine ih _ ?_
      rcases hhas with ⟨r, hr, _⟩ | ⟨other, hmem, hother⟩
      · exact absurd hr (by simp)
      · rcases List.mem_cons.mp hmem with rfl | hmem
        · exact Or.inl ⟨_, rfl, hother⟩
        · exact Or.inr ⟨other, hmem, hother⟩
    | some acc =>
      rw [childBounds]
      refine ih _ ?_
      rcases hhas with ⟨r, hr, hhas⟩ | ⟨other, hmem, hother⟩
      · cases hr
        exact Or.inl ⟨_, rfl, Rect.has_union_left hhas⟩
      · rcases List.mem_cons.mp hmem with rfl | hmem
        · exact Or.inl ⟨_, rfl, Rect.has_union_right hother⟩
        · exact Or.inr ⟨other, hmem, hother⟩

/-- A layer that is no group, and no adjustment, changes nothing outside its rectangle. -/
theorem paintLeaf_outside {w h : Nat} (hcanvas : InWindow cx cy 0 0 w h) {type : LeafType} {layer : Paint}
    (hsound : Drawn Sound (.leaf type layer)) (htype : type ≠ .adjustment)
    (hout : ¬ (layerInfluenceBounds A w h (.leaf type layer)).Has cx cy) (clip : Option C) (p : Rgba C) :
    paintLeaf A cx cy w h type layer clip p = p := by
  have hbounds : ¬ (effectBounds A layer (Rect.ofInt layer.bounds)).Has cx cy := by
    intro hin
    refine hout ?_
    cases type with
    | adjustment => exact absurd rfl htype
    | raster | fill | text | smartObject =>
      rw [layerInfluenceBounds]
      · exact Rect.has_clamp hcanvas hin
      · exact fun h => LeafType.noConfusion h
  cases hvisible : layer.visible with
  | false => cases type <;> simp [paintLeaf, hvisible]
  | true =>
    obtain ⟨⟨_, hfills, hparameters⟩, hwhole⟩ := hsound hvisible
    cases type with
    | adjustment => exact absurd rfl htype
    | raster | fill | text | smartObject =>
      simp only [paintLeaf, hvisible, Bool.not_true, Bool.false_eq_true, if_false]
      cases hpixels : layer.pixels with
      | none => rfl
      | some px =>
        refine paintPixels_outside (hfills px hpixels) ?_ hbounds w h clip p
        intro ds hds
        obtain ⟨hsize, hchoke⟩ := hparameters ds hds
        exact ⟨hsize, hchoke, hwhole (by simp [hpixels]) ds hds⟩

theorem paintLeaf_adjustment_clear {w h : Nat} {layer : Paint} (hsound : Drawn Sound (.leaf .adjustment layer))
    (clip : Option C) : paintLeaf A cx cy w h .adjustment layer clip (clearRgba A) = clearRgba A := by
  cases hvisible : layer.visible with
  | false => simp [paintLeaf, hvisible]
  | true =>
    obtain ⟨⟨hmask, _, _⟩, _⟩ := hsound hvisible
    rw [paintLeaf]
    simp only [hvisible, Bool.not_true, Bool.false_eq_true, if_false]
    cases A.adjust layer.adjustType layer.params with
    | none => rfl
    | some f => exact paintWhole_clear A hmask _ rfl clip _

mutual

theorem paintLayer_outside {w h : Nat} (hcanvas : InWindow cx cy 0 0 w h) : ∀ (layer : PaintLayer), Drawn Sound layer →
    layer.isAdjustment = false → ¬ (layerInfluenceBounds A w h layer).Has cx cy →
    ∀ (clip : Option C) (p : Rgba C), paintLayer A cx cy w h layer clip p = p
  | .leaf type layer, hsound, hadjustment, hout, clip, p => by
    rw [paintLayer]
    refine paintLeaf_outside hcanvas hsound ?_ hout clip p
    rintro rfl
    exact absurd hadjustment (by simp [PaintLayer.isAdjustment])
  | .group layer children, hsound, _, hout, clip, p => by
    rw [paintLayer]
    cases hvisible : layer.visible with
    | false => rfl
    | true =>
      obtain ⟨⟨⟨hmask, _, _⟩, _⟩, hchildren⟩ := hsound hvisible
      have hclear := paintList_clear hcanvas children hchildren (fun child hmem _ hin => hout (by
        obtain ⟨r, hr, hhas⟩ := has_childBounds children none (Or.inr ⟨child, hmem, hin⟩)
        rw [layerInfluenceBounds, hr]
        exact Rect.has_clamp hcanvas (has_effectBounds hhas))) none
      simp only [Bool.not_true, Bool.false_eq_true, if_false]
      rw [hclear]
      exact paintWhole_clear A hmask _ rfl clip p

theorem paintList_clear {w h : Nat} (hcanvas : InWindow cx cy 0 0 w h) : ∀ (layers : List PaintLayer), DrawnAll Sound layers →
    (∀ layer ∈ layers, layer.isAdjustment = false → ¬ (layerInfluenceBounds A w h layer).Has cx cy) →
    ∀ (base : Option C), paintList A cx cy w h layers base (clearRgba A) = clearRgba A
  | [], _, _, _ => by rw [paintList]
  | layer :: layers, hsound, hout, base => by
    have hlayers := paintList_clear hcanvas layers hsound.2 fun other hmem => hout other (List.mem_cons_of_mem _ hmem)
    have hlayer : ∀ clip : Option C, paintLayer A cx cy w h layer clip (clearRgba A) = clearRgba A := by
      intro clip
      cases hadjustment : layer.isAdjustment with
      | false =>
        exact paintLayer_outside hcanvas layer hsound.1 hadjustment (hout layer List.mem_cons_self hadjustment) clip _
      | true =>
        cases layer with
        | group paint children => exact absurd hadjustment (by simp [PaintLayer.isAdjustment])
        | leaf type paint =>
          cases type with
          | adjustment =>
            rw [paintLayer]
            exact paintLeaf_adjustment_clear hsound.1 clip
          | raster | fill | text | smartObject => exact absurd hadjustment (by simp [PaintLayer.isAdjustment])
    rw [paintList]
    simp only [hlayer, hlayers, ite_self]

end

/-! ## The layers that a region keeps -/

variable {w h : Nat} {region : Rect ℚ}

theorem nextClips_cons (layer : PaintLayer) (layers : List PaintLayer) :
    nextClips (layer :: layers) = if layer.paint.visible then layer.paint.clipping else nextClips layers := by
  rw [nextClips, nextVisible, List.find?_cons]
  cases layer.paint.visible <;> rfl

theorem keptLayers_cons (A : Arithmetic C N) (w h : Nat) (region : Rect ℚ) (layer : PaintLayer) (layers : List PaintLayer) :
    keptLayers A w h region (layer :: layers) = layer :: keptLayers A w h region layers ∨
      keptLayers A w h region (layer :: layers) = keptLayers A w h region layers ∧ layer.isAdjustment = false ∧
        nextClips layers = false ∧ (layerInfluenceBounds A w h layer).intersects region = false := by
  rw [keptLayers]
  split
  · exact Or.inl rfl
  · rename_i hdropped
    simp only [Bool.or_eq_true, not_or, Bool.not_eq_true] at hdropped
    exact Or.inr ⟨rfl, hdropped.1.1, hdropped.1.2, hdropped.2⟩

theorem nextClips_kept : ∀ layers : List PaintLayer, nextClips layers = false →
    nextClips (keptLayers A w h region layers) = false := by
  intro layers
  induction layers with
  | nil => exact fun h => h
  | cons layer layers ih =>
    intro hclips
    rw [nextClips_cons] at hclips
    rcases keptLayers_cons A w h region layer layers with hkept | ⟨hkept, _, hnext, _⟩
    · rw [hkept, nextClips_cons]
      cases hvisible : layer.paint.visible with
      | true =>
        rw [hvisible, if_pos rfl] at hclips
        rw [if_pos rfl, hclips]
      | false =>
        rw [hvisible, if_neg Bool.false_ne_true] at hclips
        rw [if_neg Bool.false_ne_true]
        exact ih hclips
    · rw [hkept]
      exact ih hnext

theorem drawnAll_kept {P : PaintLayer → Prop} : ∀ layers : List PaintLayer, DrawnAll P layers →
    DrawnAll P (keptLayers A w h region layers) := by
  intro layers
  induction layers with
  | nil => exact fun h => h
  | cons layer layers ih =>
    intro hdrawn
    rcases keptLayers_cons A w h region layer layers with hkept | ⟨hkept, _⟩
    · rw [hkept]
      exact ⟨hdrawn.1, ih hdrawn.2⟩
    · rw [hkept]
      exact ih hdrawn.2

theorem paintList_kept (hcanvas : InWindow cx cy 0 0 w h) (hregion : region.Has cx cy) : ∀ layers : List PaintLayer,
    DrawnAll Sound layers → ∀ (base base' : Option C) (p : Rgba C),
    (nextClips (keptLayers A w h region layers) = true → base' = base) →
    paintList A cx cy w h (keptLayers A w h region layers) base' p = paintList A cx cy w h layers base p := by
  intro layers
  induction layers with
  | nil =>
    intro _ base base' p _
    rw [keptLayers, paintList, paintList]
  | cons layer layers ih =>
    intro hsound base base' p hbase
    rcases keptLayers_cons A w h region layer layers with hkept | hkept
    · rw [hkept, nextClips_cons] at hbase
      rw [hkept, paintList, paintList]
      cases hvisible : layer.paint.visible with
      | false =>
        rw [hvisible, if_neg Bool.false_ne_true] at hbase
        simp only [Bool.not_false, if_true]
        refine ih hsound.2 _ _ p fun hnext => ?_
        rw [hbase hnext]
      | true =>
        rw [hvisible, if_pos rfl] at hbase
        simp only [Bool.not_true, Bool.false_eq_true, if_false]
        -- the base of the next layers is the same where one of them is clipped
        have hnext : nextClips (keptLayers A w h region layers) = true → nextClips layers = true := by
          intro hkeptNext
          by_contra hnot
          rw [nextClips_kept layers (by simpa using hnot)] at hkeptNext
          exact Bool.false_ne_true hkeptNext
        cases hclipping : layer.paint.clipping with
        | false =>
          simp only [Bool.false_and, Bool.false_eq_true, if_false]
          refine ih hsound.2 _ _ _ fun hkeptNext => ?_
          rw [hkeptNext, hnext hkeptNext]
        | true =>
          rw [hbase hclipping]
          simp only [Bool.true_and]
          split
          · exact ih hsound.2 _ _ _ fun _ => rfl
          · refine ih hsound.2 _ _ _ fun hkeptNext => ?_
            rw [hkeptNext, hnext hkeptNext]
    · obtain ⟨hkept, hadjustment, hnext, hmisses⟩ := hkept
      have hout : ¬ (layerInfluenceBounds A w h layer).Has cx cy := by
        intro hin
        rw [Rect.intersects_of_has hin hregion] at hmisses
        exact Bool.false_ne_true hmisses.symm
      have hunused : ∀ base'' : Option C, nextClips (keptLayers A w h region layers) = true → base' = base'' := by
        intro base'' hkeptNext
        rw [nextClips_kept layers hnext] at hkeptNext
        exact absurd hkeptNext Bool.false_ne_true
      have hlayer := paintLayer_outside hcanvas layer hsound.1 hadjustment hout
      rw [hkept, paintList]
      simp only [hlayer]
      split
      · exact ih hsound.2 _ _ p (hunused _)
      · split
        · exact ih hsound.2 _ _ p (hunused _)
        · exact ih hsound.2 _ _ p (hunused _)

end UniDocs.Psd
