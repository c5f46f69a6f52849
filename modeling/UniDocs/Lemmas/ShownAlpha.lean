import UniDocs.Lemmas.PixelLayers
import UniDocs.Psd.HitTest

/-!
# Whether a list of layers shows at a point

The alpha that layers leave at one pixel of the canvas, in exact arithmetic, as far as it is zero or not. A layer shows where
its fill, its stroke or its shadow has alpha, a group where its mask, its opacity and one of its layers let something through,
and a clipping layer only where its clip base has a shape. No buffer is rendered for it.
-/

namespace UniDocs.Psd

open Lib

section Shown

variable (colours : Colours) (cx cy : Int) (cw ch : Nat)

/-! ## What shows -/

/-- The fill of a layer shows; under a colour overlay the fill opacity does not count. -/
def fillShows (layer : Paint) (px : Pixels) : Bool :=
  decide (InWindow cx cy layer.bounds.left layer.bounds.top px.width px.height ∧
    0 < withMask (exactArithmetic colours) layer.mask cx cy
      (pixelSource (exactArithmetic colours) px ((((cy - layer.bounds.top) * px.width + (cx - layer.bounds.left)) * 4).toNat + 3)
        * (if layer.colorOverlay.isSome then layer.opacity else layer.opacity * layer.fillOpacity.getD 1)))

/-- A stroke shows. -/
def strokeShows (layer : Paint) (px : Pixels) (st : Stroke) : Bool :=
  decide ((InWindow cx cy layer.bounds.left layer.bounds.top px.width px.height ∧
      strokeHit st px ((cy - layer.bounds.top) * px.width + (cx - layer.bounds.left)).toNat = true) ∧
    0 < withMask (exactArithmetic colours) layer.mask cx cy (layer.opacity * st.opacity))

/-- The sample of a shadow, hard or blurred by whole pixels. -/
def shadowSample (layer : Paint) (px : Pixels) (ds : DropShadow) : ℚ :=
  let (dx, dy) := (exactArithmetic colours).shadowOffset ds.angle ds.distance
  let m := if ds.size ≤ 0 then 0 else ds.size.num.toNat
  let ox := layer.bounds.left - m + dx
  let oy := layer.bounds.top - m + dy
  let bw := px.width + 2 * m
  if InWindow cx cy ox oy bw (px.height + 2 * m) then
    if ds.size ≤ 0 then
      if (exactArithmetic colours).notPositive
          ((exactArithmetic colours).ofByte px.data[(((cy - oy) * bw + (cx - ox)) * 4 + 3).toNat]?) then 0
      else shadowAlpha (exactArithmetic colours) cw ch layer px (cx - ox) (cy - oy)
    else
      readElement (exactArithmetic colours) (blurredShadow (exactArithmetic colours) cw ch layer ds px).1
        (blurredShadow (exactArithmetic colours) cw ch layer ds px).2 (((cy - oy) * bw + (cx - ox) : Int) : ℚ)
  else 0

/-- A shadow shows. -/
def shadowShows (layer : Paint) (px : Pixels) (ds : DropShadow) : Bool :=
  decide (0 < shadowSample colours cx cy cw ch layer px ds ∧
    0 < shadowSample colours cx cy cw ch layer px ds * (layer.opacity * ds.opacity))

/-- The pixels of a layer show, or one of its effects. -/
def leafShows (layer : Paint) : Bool :=
  match layer.pixels with
  | none => false
  | some px =>
    layer.dropShadow.any (shadowShows colours cx cy cw ch layer px) || fillShows colours cx cy layer px
      || layer.stroke.any (strokeShows colours cx cy layer px)

/-- The shape of a layer with pixels, as a clip base. -/
def shapeShows (layer : Paint) (px : Pixels) : Bool :=
  decide (InWindow cx cy layer.bounds.left layer.bounds.top px.width px.height ∧
    0 < withMask (exactArithmetic colours) layer.mask cx cy
      ((exactArithmetic colours).ofByte
        px.data[(((cy - layer.bounds.top) * px.width + (cx - layer.bounds.left)) * 4 + 3).toNat]?))

mutual

/-- A visible layer shows where nothing confines it. -/
def layerShows : PaintLayer → Bool
  | .leaf type layer => type ≠ .adjustment && leafShows colours cx cy cw ch layer
  | .group layer children =>
    decide (0 < withMask (exactArithmetic colours) layer.mask cx cy layer.opacity) && listShows children none

/-- A layer has a shape at the point, as a clip base; a layer without pixels is none. -/
def baseShows : PaintLayer → Option Bool
  | .leaf _ layer => layer.pixels.map (shapeShows colours cx cy layer)
  | .group layer children =>
    some (decide (0 < withMask (exactArithmetic colours) layer.mask cx cy 1) && listShows children none)

/-- One of the layers of a list shows, above a clip base. -/
def listShows : List PaintLayer → Option Bool → Bool
  | [], _ => false
  | layer :: layers, base =>
    if !layer.paint.visible then listShows layers (if layer.paint.clipping then base else none)
    else if layer.paint.clipping && base.isSome then (base.getD true && layerShows layer) || listShows layers base
    else
      layerShows layer ||
        listShows layers (if !layer.isAdjustment && nextClips layers then baseShows layer else none)

end

/-- A layer whose shadow is hard or blurred by whole pixels, with opacities that are not negative. -/
def Regular (layer : PaintLayer) : Prop :=
  WholeShadow layer ∧ 0 ≤ layer.paint.opacity ∧ ∀ st, layer.paint.stroke = some st → 0 ≤ st.opacity

/-! ## Alpha of a pixel -/

/-- The alpha of a pixel is one that a buffer holds, and is not zero exactly where something shows. -/
def HasAlpha (p : Rgba ℚ) (shown : Bool) : Prop := (0 ≤ p.a ∧ p.a ≤ 1) ∧ (0 < p.a ↔ shown = true)

/-- The channel of a clip, and whether it lets something through. -/
def Lets : Option ℚ → Option Bool → Prop := Option.Rel fun clip shown => 0 ≤ clip ∧ (0 < clip ↔ shown = true)

variable {colours cx cy cw ch} {p : Rgba ℚ} {shown : Bool} {clip : Option ℚ} {base : Option Bool}

theorem ofByte_nonneg (byte : Option UInt8) : 0 ≤ (exactArithmetic colours).ofByte byte := by
  cases byte with
  | none => exact le_refl (0 : ℚ)
  | some byte => exact div_nonneg (Nat.cast_nonneg _) (by norm_num)

theorem withMask_nonneg {mask : Option Mask} {sa : ℚ} (h : 0 ≤ sa) : 0 ≤ withMask (exactArithmetic colours) mask cx cy sa := by
  cases mask with
  | none => exact h
  | some mask => exact mul_nonneg h (ofByte_nonneg _)

theorem withMask_mul (mask : Option Mask) (sa : ℚ) :
    withMask (exactArithmetic colours) mask cx cy sa = sa * withMask (exactArithmetic colours) mask cx cy 1 := by
  cases mask with
  | none => exact (mul_one sa).symm
  | some mask =>
    change sa * _ = sa * (1 * _)
    rw [one_mul]

theorem pos_mul_iff {a b : ℚ} (ha : 0 ≤ a) : 0 < a * b ↔ 0 < a ∧ 0 < b := by
  rw [mul_pos_iff]
  constructor
  · rintro (h | h)
    · exact h
    · exact absurd h.1 (not_lt.mpr ha)
  · exact Or.inl

theorem clipped_pos (h : Lets clip base) {sa : ℚ} :
    0 < clipped (exactArithmetic colours) clip sa ↔ base.getD true = true ∧ 0 < sa := by
  cases h with
  | none => simp [clipped]
  | @some c b hc =>
    change 0 < sa * c ↔ b = true ∧ 0 < sa
    rw [← hc.2, mul_comm, pos_mul_iff hc.1]

theorem clipped_nonneg (h : Lets clip base) {sa : ℚ} (hsa : 0 ≤ sa) : 0 ≤ clipped (exactArithmetic colours) clip sa := by
  cases h with
  | none => exact hsa
  | some hc => exact mul_nonneg hsa hc.1

theorem overPixel_a (mode : String) (source : Rgb ℚ) (sa : ℚ) (p : Rgba ℚ) :
    (overPixel (exactArithmetic colours) mode source sa p).a = max 0 (min 1 (sa + p.a * (1 - sa))) := by
  change max 0 (min 1 (exactOver (colours.blend mode) ⟨p.r, p.g, p.b, p.a⟩ ⟨source.r, source.g, source.b, sa⟩).a) = _
  rw [exactOver]
  split
  · rename_i hzero
    rw [hzero]
  · rfl

theorem hasAlpha_clear : HasAlpha (clearRgba (exactArithmetic colours)) false :=
  ⟨⟨le_refl (0 : ℚ), zero_le_one⟩, fun h => absurd h (lt_irrefl (0 : ℚ)), fun h => (by cases h)⟩

theorem HasAlpha.over (h : HasAlpha p shown) {sa : ℚ} (hsa : 0 < sa) (mode : String) (source : Rgb ℚ) :
    HasAlpha (overPixel (exactArithmetic colours) mode source sa p) true := by
  obtain ⟨⟨h0, h1⟩, _⟩ := h
  have hpos : 0 < sa + p.a * (1 - sa) := by
    have heq : sa + p.a * (1 - sa) = p.a + sa * (1 - p.a) := by ring
    rw [heq]
    rcases lt_or_eq_of_le h1 with hlt | hone
    · have hprod := mul_pos hsa (sub_pos.mpr hlt)
      linarith
    · rw [hone]
      norm_num
  rw [HasAlpha, overPixel_a]
  exact ⟨⟨le_max_left _ _, max_le zero_le_one (min_le_left _ _)⟩, fun _ => rfl, fun _ => lt_max_of_lt_right (lt_min one_pos hpos)⟩

theorem HasAlpha.draw (h : HasAlpha p shown) (hclip : Lets clip base) {sa : ℚ} (hsa : 0 ≤ sa) (mode : String) (source : Rgb ℚ) :
    HasAlpha
      (if (exactArithmetic colours).isZero (clipped (exactArithmetic colours) clip sa) = true then p
        else overPixel (exactArithmetic colours) mode source (clipped (exactArithmetic colours) clip sa) p)
      (shown || base.getD true && decide (0 < sa)) := by
  have hdecide : (base.getD true && decide (0 < sa)) = decide (0 < clipped (exactArithmetic colours) clip sa) := by
    rw [Bool.eq_iff_iff, Bool.and_eq_true, decide_eq_true_eq, decide_eq_true_eq, clipped_pos hclip]
  rw [hdecide]
  by_cases hzero : clipped (exactArithmetic colours) clip sa = 0
  · have hskip : (exactArithmetic colours).isZero (clipped (exactArithmetic colours) clip sa) = true := decide_eq_true hzero
    rw [if_pos hskip, hzero, decide_eq_false (lt_irrefl _), Bool.or_false]
    exact h
  · have hdraw : ¬ (exactArithmetic colours).isZero (clipped (exactArithmetic colours) clip sa) = true :=
      fun h => hzero (of_decide_eq_true h)
    have hpos := lt_of_le_of_ne (clipped_nonneg hclip hsa) (Ne.symm hzero)
    rw [if_neg hdraw, decide_eq_true hpos, Bool.or_true]
    exact h.over hpos mode source

theorem HasAlpha.buffer (h : HasAlpha p shown) (hclip : Lets clip base) (layer : Paint) (px : Pixels) {opacity : ℚ}
    (hopacity : 0 ≤ opacity) (mode : String) (overlay : Option ColorOverlay) :
    HasAlpha
      (paintBuffer (exactArithmetic colours) cx cy (pixelSource (exactArithmetic colours) px) px.width px.height layer.bounds.left
        layer.bounds.top opacity mode layer.mask clip overlay p)
      (shown || base.getD true && decide (InWindow cx cy layer.bounds.left layer.bounds.top px.width px.height ∧
        0 < withMask (exactArithmetic colours) layer.mask cx cy
          (pixelSource (exactArithmetic colours) px ((((cy - layer.bounds.top) * px.width + (cx - layer.bounds.left)) * 4).toNat + 3)
            * opacity))) := by
  rw [paintBuffer]
  by_cases hwindow : InWindow cx cy layer.bounds.left layer.bounds.top px.width px.height
  · rw [if_pos hwindow]
    simp only [hwindow, true_and]
    exact h.draw hclip (withMask_nonneg (mul_nonneg (ofByte_nonneg _) hopacity)) _ _
  · rw [if_neg hwindow]
    simp only [hwindow, false_and, decide_false, Bool.and_false, Bool.or_false]
    exact h

theorem fillShows_eq_false {layer : Paint} (hoverlay : layer.colorOverlay = none)
    (hfill : layer.opacity * layer.fillOpacity.getD 1 ≤ 0) (px : Pixels) : fillShows colours cx cy layer px = false := by
  refine decide_eq_false fun h => ?_
  have hpos := h.2
  rw [hoverlay, withMask_mul] at hpos
  have hmask : 0 ≤ withMask (exactArithmetic colours) layer.mask cx cy 1 := withMask_nonneg zero_le_one
  exact absurd hpos (not_lt.mpr (mul_nonpos_of_nonpos_of_nonneg (mul_nonpos_of_nonneg_of_nonpos (ofByte_nonneg _) hfill) hmask))

theorem HasAlpha.stroke (h : HasAlpha p shown) (hclip : Lets clip base) {layer : Paint} (hopacity : 0 ≤ layer.opacity) {st : Stroke}
    (hst : 0 ≤ st.opacity) (px : Pixels) :
    HasAlpha (paintStroke (exactArithmetic colours) cx cy layer st px clip p)
      (shown || base.getD true && strokeShows colours cx cy layer px st) := by
  have hnonneg : 0 ≤ withMask (exactArithmetic colours) layer.mask cx cy (layer.opacity * st.opacity) :=
    withMask_nonneg (mul_nonneg hopacity hst)
  rw [paintStroke, strokeShows, ← ite_and]
  split
  · rename_i hplace
    simp only [hplace, and_self, true_and]
    exact h.draw hclip hnonneg _ _
  · rename_i hplace
    simpa [hplace] using h

theorem HasAlpha.sample (h : HasAlpha p shown) (hclip : Lets clip base) (ds : DropShadow) (opacity a : ℚ) :
    HasAlpha (paintSample (exactArithmetic colours) ds opacity clip a p)
      (shown || base.getD true && decide (0 < a ∧ 0 < a * opacity)) := by
  have hpositive : ∀ v : ℚ, ((exactArithmetic colours).notPositive v = true) = (v ≤ 0) := fun v => decide_eq_true_eq
  have hcover : (base.getD true && decide (0 < a ∧ 0 < a * opacity))
      = decide (0 < a ∧ 0 < clipped (exactArithmetic colours) clip (a * opacity)) := by
    rw [Bool.eq_iff_iff, Bool.and_eq_true, decide_eq_true_eq, decide_eq_true_eq, clipped_pos hclip]
    tauto
  rw [paintSample, hcover]
  simp only [hpositive]
  split
  · rename_i hnone
    rw [decide_eq_false fun h => not_lt.mpr hnone h.1, Bool.or_false]
    exact h
  · rename_i ha
    split
    · rename_i hnone
      rw [decide_eq_false fun h => not_lt.mpr hnone h.2, Bool.or_false]
      exact h
    · rename_i hsa
      rw [decide_eq_true ⟨not_le.mp ha, not_le.mp hsa⟩, Bool.or_true]
      exact h.over (not_le.mp hsa) _ _

theorem paintShadow_eq (layer : Paint) (px : Pixels) (ds : DropShadow) (clip : Option ℚ) (p : Rgba ℚ) :
    paintShadow (exactArithmetic colours) cx cy cw ch layer ds px clip p
      = paintSample (exactArithmetic colours) ds (layer.opacity * ds.opacity) clip (shadowSample colours cx cy cw ch layer px ds) p := by
  have hzero : paintSample (exactArithmetic colours) ds (layer.opacity * ds.opacity) clip 0 p = p := rfl
  rw [paintShadow, shadowSample]
  by_cases hhard : ds.size ≤ 0
  · simp only [if_pos hhard, Nat.mul_zero, Nat.add_zero, Nat.cast_zero, Int.sub_zero]
    split
    · split
      · exact hzero.symm
      · rfl
    · exact hzero.symm
  · simp only [if_neg hhard]
    split
    · rfl
    · exact hzero.symm

theorem HasAlpha.behind (h : HasAlpha p shown) (hclip : Lets clip base) (layer : Paint) (px : Pixels) :
    HasAlpha
      (match layer.dropShadow with
        | some ds => paintShadow (exactArithmetic colours) cx cy cw ch layer ds px clip p
        | none => p)
      (shown || base.getD true && layer.dropShadow.any (shadowShows colours cx cy cw ch layer px)) := by
  cases layer.dropShadow with
  | none => simpa using h
  | some ds =>
    simp only [paintShadow_eq]
    exact h.sample hclip ds _ _

theorem HasAlpha.fill (h : HasAlpha p shown) (hclip : Lets clip base) {layer : Paint} (hopacity : 0 ≤ layer.opacity) (px : Pixels) :
    HasAlpha
      (match layer.colorOverlay with
        | some _ => paintBuffer (exactArithmetic colours) cx cy (pixelSource (exactArithmetic colours) px) px.width px.height
          layer.bounds.left layer.bounds.top layer.opacity layer.blendMode layer.mask clip layer.colorOverlay p
        | none =>
          if (exactArithmetic colours).notPositive (layer.opacity * layer.fillOpacity.getD 1) then p
          else paintBuffer (exactArithmetic colours) cx cy (pixelSource (exactArithmetic colours) px) px.width px.height
            layer.bounds.left layer.bounds.top (layer.opacity * layer.fillOpacity.getD 1) layer.blendMode layer.mask clip
            layer.colorOverlay p)
      (shown || base.getD true && fillShows colours cx cy layer px) := by
  cases hoverlay : layer.colorOverlay with
  | some overlay =>
    rw [fillShows, hoverlay]
    exact h.buffer hclip layer px hopacity _ _
  | none =>
    by_cases hfill : layer.opacity * layer.fillOpacity.getD 1 ≤ 0
    · have hskip : (exactArithmetic colours).notPositive (layer.opacity * layer.fillOpacity.getD 1) = true := decide_eq_true hfill
      simp only [hskip, if_true, fillShows_eq_false hoverlay hfill, Bool.and_false, Bool.or_false]
      exact h
    · have hdraw : (exactArithmetic colours).notPositive (layer.opacity * layer.fillOpacity.getD 1) = false := decide_eq_false hfill
      simp only [hdraw, Bool.false_eq_true, if_false]
      rw [fillShows, hoverlay]
      exact h.buffer hclip layer px (le_of_not_ge hfill) _ _

theorem HasAlpha.pixels (h : HasAlpha p shown) (hclip : Lets clip base) {layer : Paint} {px : Pixels} (hpx : layer.pixels = some px)
    (hopacity : 0 ≤ layer.opacity) (hst : ∀ st, layer.stroke = some st → 0 ≤ st.opacity) :
    HasAlpha (paintPixels (exactArithmetic colours) cx cy cw ch layer px clip p)
      (shown || base.getD true && leafShows colours cx cy cw ch layer) := by
  have hassoc : ∀ b x y z : Bool, (shown || b && (x || y || z)) = (shown || b && x || b && y || b && z) := by
    intro b x y z
    rw [Bool.and_or_distrib_left, Bool.and_or_distrib_left, ← Bool.or_assoc, ← Bool.or_assoc]
  rw [leafShows, hpx, paintPixels]
  simp only [hassoc]
  cases hstroke : layer.stroke with
  | none =>
    simp only [Option.any_none, Bool.and_false, Bool.or_false]
    exact (h.behind hclip layer px).fill hclip hopacity px
  | some st => exact ((h.behind hclip layer px).fill hclip hopacity px).stroke hclip hopacity (hst st hstroke) px

/-- A pixel that is drawn over itself with other colours shows if and only if it did. -/
theorem HasAlpha.whole (h : HasAlpha p shown) (hclip : Lets clip base) {layer : Paint} (hopacity : 0 ≤ layer.opacity)
    {source : Rgba ℚ} {inner : Bool} (hsource : HasAlpha source inner) :
    HasAlpha (paintWhole (exactArithmetic colours) cx cy source layer clip p)
      (shown || base.getD true && (decide (0 < withMask (exactArithmetic colours) layer.mask cx cy layer.opacity) && inner)) := by
  have hnonneg : 0 ≤ withMask (exactArithmetic colours) layer.mask cx cy (source.a * layer.opacity) :=
    withMask_nonneg (mul_nonneg hsource.1.1 hopacity)
  have hcover : (decide (0 < withMask (exactArithmetic colours) layer.mask cx cy layer.opacity) && inner)
      = decide (0 < withMask (exactArithmetic colours) layer.mask cx cy (source.a * layer.opacity)) := by
    rw [Bool.eq_iff_iff, Bool.and_eq_true, decide_eq_true_eq, decide_eq_true_eq, ← hsource.2, withMask_mul,
      withMask_mul _ (source.a * _), mul_assoc]
    rw [and_comm, pos_mul_iff hsource.1.1]
  rw [paintWhole, hcover]
  exact h.draw hclip hnonneg _ _

theorem HasAlpha.leaf (h : HasAlpha p shown) (hclip : Lets clip base) {type : LeafType} {layer : Paint}
    (hregular : Regular (.leaf type layer)) (hvisible : layer.visible = true) :
    HasAlpha (paintLeaf (exactArithmetic colours) cx cy cw ch type layer clip p)
      (shown || base.getD true && layerShows colours cx cy cw ch (.leaf type layer)) := by
  cases type with
  | adjustment =>
    simp only [paintLeaf, layerShows, hvisible, Bool.not_true, Bool.false_eq_true, if_false, ne_eq, not_true_eq_false, decide_false,
      Bool.false_and, Bool.and_false, Bool.or_false]
    cases hadjust : (exactArithmetic colours).adjust layer.adjustType layer.params with
    | none => exact h
    | some f =>
      -- the adjusted pixel has the alpha of the one below it, so it shows only where that one does
      have hadjusted : HasAlpha
          (paintWhole (exactArithmetic colours) cx cy
            ⟨(f ⟨p.r, p.g, p.b⟩).r, (f ⟨p.r, p.g, p.b⟩).g, (f ⟨p.r, p.g, p.b⟩).b, p.a⟩ layer clip p)
          (shown || base.getD true && (decide (0 < withMask (exactArithmetic colours) layer.mask cx cy layer.opacity) && shown)) :=
        h.whole hclip hregular.2.1 h
      have hsame : ∀ b x : Bool, (shown || b && (x && shown)) = shown := by
        intro b x
        cases shown <;> simp
      rw [hsame] at hadjusted
      exact hadjusted
  | raster | fill | text | smartObject =>
    simp only [paintLeaf, layerShows, hvisible, Bool.not_true, Bool.false_eq_true, if_false, ne_eq, reduceCtorEq, not_false_eq_true,
      decide_true, Bool.true_and]
    cases hpx : layer.pixels with
    | none => simpa [leafShows, hpx] using h
    | some px => exact h.pixels hclip hpx hregular.2.1 hregular.2.2

theorem lets_coverage (layer : Paint) {alpha : ℚ} {shown : Bool}
    (h : 0 < withMask (exactArithmetic colours) layer.mask cx cy alpha ↔ shown = true) :
    Lets (some (coverage (exactArithmetic colours) layer cx cy alpha)) (some shown) := by
  refine .some ⟨le_max_left _ _, ?_⟩
  change 0 < max 0 (min 1 (withMask (exactArithmetic colours) layer.mask cx cy alpha)) ↔ _
  rw [lt_max_iff, lt_min_iff, h]
  simp

mutual

theorem HasAlpha.layer : ∀ (layer : PaintLayer), Drawn Regular layer → layer.paint.visible = true →
    ∀ {p : Rgba ℚ} {shown : Bool} {clip : Option ℚ} {base : Option Bool}, HasAlpha p shown → Lets clip base →
      HasAlpha (paintLayer (exactArithmetic colours) cx cy cw ch layer clip p)
        (shown || base.getD true && layerShows colours cx cy cw ch layer)
  | .leaf type layer, hdrawn, hvisible, _, _, _, _, h, hclip => by
    rw [paintLayer]
    exact h.leaf hclip (hdrawn hvisible) hvisible
  | .group layer children, hdrawn, hvisible, _, _, _, _, h, hclip => by
    have hchildren : HasAlpha (paintList (exactArithmetic colours) cx cy cw ch children none (clearRgba (exactArithmetic colours)))
        (listShows colours cx cy cw ch children none) :=
      HasAlpha.list children (hdrawn hvisible).2 hasAlpha_clear .none
    have hshown : layer.visible = true := hvisible
    rw [paintLayer, layerShows]
    simp only [hshown, Bool.not_true, Bool.false_eq_true, if_false]
    exact h.whole hclip (hdrawn hvisible).1.2.1 hchildren

theorem lets_base : ∀ (layer : PaintLayer), Drawn Regular layer → layer.paint.visible = true →
    Lets (baseAt (exactArithmetic colours) cx cy cw ch layer) (baseShows colours cx cy cw ch layer)
  | .leaf type layer, _, _ => by
    rw [baseAt, baseShows]
    cases layer.pixels with
    | none => exact .none
    | some px =>
      rw [Option.map_some, Option.map_some, pixelsCoverage, shapeShows]
      by_cases hwindow : InWindow cx cy layer.bounds.left layer.bounds.top px.width px.height
      · simp only [hwindow, if_true, true_and]
        exact lets_coverage layer decide_eq_true_iff.symm
      · simp only [hwindow, if_false, false_and, decide_false]
        exact .some ⟨le_refl (0 : ℚ), fun h => absurd h (lt_irrefl (0 : ℚ)), fun h => (by cases h)⟩
  | .group layer children, hdrawn, hvisible => by
    have hchildren : HasAlpha (paintList (exactArithmetic colours) cx cy cw ch children none (clearRgba (exactArithmetic colours)))
        (listShows colours cx cy cw ch children none) :=
      HasAlpha.list children (hdrawn hvisible).2 hasAlpha_clear .none
    rw [baseAt, baseShows]
    refine lets_coverage layer ?_
    rw [withMask_mul, Bool.and_eq_true, decide_eq_true_eq, ← hchildren.2, and_comm]
    exact pos_mul_iff hchildren.1.1

theorem HasAlpha.list : ∀ (layers : List PaintLayer), DrawnAll Regular layers →
    ∀ {p : Rgba ℚ} {shown : Bool} {clip : Option ℚ} {base : Option Bool}, HasAlpha p shown → Lets clip base →
      HasAlpha (paintList (exactArithmetic colours) cx cy cw ch layers clip p)
        (shown || listShows colours cx cy cw ch layers base)
  | [], _, p, shown, clip, base, h, hclip => by
    rw [paintList, listShows, Bool.or_false]
    exact h
  | layer :: layers, hdrawn, p, shown, clip, base, h, hclip => by
    have hsome : clip.isSome = base.isSome := by
      cases hclip <;> rfl
    have habove : ∀ {p shown clip base}, HasAlpha p shown → Lets clip base →
        HasAlpha (paintList (exactArithmetic colours) cx cy cw ch layers clip p)
          (shown || listShows colours cx cy cw ch layers base) := HasAlpha.list layers hdrawn.2
    rw [paintList, listShows, hsome]
    cases hvisible : layer.paint.visible with
    | false =>
      simp only [Bool.not_false, if_true]
      refine habove h ?_
      cases layer.paint.clipping with
      | true => exact hclip
      | false => exact .none
    | true =>
      simp only [Bool.not_true, Bool.false_eq_true, if_false]
      have hlayer : ∀ {clip base}, Lets clip base → HasAlpha (paintLayer (exactArithmetic colours) cx cy cw ch layer clip p)
          (shown || base.getD true && layerShows colours cx cy cw ch layer) := HasAlpha.layer layer hdrawn.1 hvisible h
      by_cases hclipped : (layer.paint.clipping && base.isSome) = true
      · rw [if_pos hclipped, if_pos hclipped, ← Bool.or_assoc]
        exact habove (hlayer hclip) hclip
      · rw [if_neg hclipped, if_neg hclipped, ← Bool.or_assoc]
        refine habove (hlayer .none) ?_
        by_cases hnext : (!layer.isAdjustment && nextClips layers) = true
        · rw [if_pos hnext, if_pos hnext]
          exact lets_base layer hdrawn.1 hvisible
        · rw [if_neg hnext, if_neg hnext]
          exact .none

end

/-! ## Clip bases in the canvas -/

mutual

theorem Drawn.mono {P Q : PaintLayer → Prop} (h : ∀ layer, P layer → Q layer) : ∀ layer, Drawn P layer → Drawn Q layer
  | .leaf _ _, hdrawn => fun hvisible => h _ (hdrawn hvisible)
  | .group _ children, hdrawn => fun hvisible => ⟨h _ (hdrawn hvisible).1, DrawnAll.mono h children (hdrawn hvisible).2⟩

theorem DrawnAll.mono {P Q : PaintLayer → Prop} (h : ∀ layer, P layer → Q layer) : ∀ layers, DrawnAll P layers → DrawnAll Q layers
  | [], _ => trivial
  | layer :: layers, hdrawn => ⟨Drawn.mono h layer hdrawn.1, DrawnAll.mono h layers hdrawn.2⟩

end

end Shown

end UniDocs.Psd
