import UniDocs.Lemmas.Influence

/-!
# Rendering a region

`renderRegionDirect` leaves out the layers that cannot reach a region and renders its rectangle only; `renderRegion` renders the
whole document and crops the image. The two agree where every shadow that is drawn is hard or blurred by whole pixels. A blur by
a fraction of a pixel starts its loops at a fraction that depends on the rectangle, and what it reads between the elements of its
buffer is not a number.
-/

namespace UniDocs.Psd

open Lib

/-! ## Numbers with NaN -/

/-- An operation on numbers of which one may be `NaN`. -/
def lift2 (op : ℚ → ℚ → ℚ) (a b : Option ℚ) : Option ℚ :=
  match a, b with
  | some a, some b => some (op a b)
  | _, _ => none

/-- `compositeOverInto` in the mode `normal`. -/
def normalOver (dst src : Rgba (Option ℚ)) : Rgba (Option ℚ) :=
  let keep := lift2 (· * ·) dst.a (lift2 (· - ·) (some 1) src.a)
  let ao := lift2 (· + ·) src.a keep
  if ao = some 0 then ⟨some 0, some 0, some 0, some 0⟩
  else
    let channel (cb cs : Option ℚ) := lift2 (· / ·) (lift2 (· + ·) (lift2 (· * ·) src.a cs) (lift2 (· * ·) keep cb)) ao
    ⟨channel dst.r src.r, channel dst.g src.g, channel dst.b src.b, ao⟩

/-- The byte that a clamped array stores; `NaN` is stored as 0. -/
def storeByte : Option ℚ → UInt8
  | none => 0
  | some v => UInt8.ofNat (min 255 ⌊max 0 v * 255 + 1 / 2⌋.toNat)

/-- Rational numbers with a `NaN`, bytes as channels, and one blend mode. -/
def nanArithmetic : Arithmetic UInt8 (Option ℚ) where
  clear := 0
  fraction v := some (v.toNat / 255)
  byte v := some (v.toNat / 255)
  store := storeByte
  number := some
  shadowOffset _ _ := (0, 0)
  nan := none
  mul := lift2 (· * ·)
  add := lift2 (· + ·)
  sub := lift2 (· - ·)
  div := lift2 (· / ·)
  single := id
  isZero v := decide (v = some 0)
  notPositive v := v.any fun v => decide (v ≤ 0)
  compositeOver _ := normalOver
  overlay _ color := color
  adjust _ _ := none
  Ordinary v := v.isSome = true
  ordinary_fraction _ := rfl
  ordinary_byte _ := rfl
  ordinary_number _ := rfl
  ordinary_mul := by
    intro a b ha hb
    cases a with
    | none => cases ha
    | some a =>
      cases b with
      | none => cases hb
      | some b => rfl
  isZero_clear := by with_unfolding_all decide
  isZero_mul := by
    intro a b ha hb
    rw [decide_eq_true_eq] at ha ⊢
    cases b with
    | none => cases hb
    | some b => rw [ha, lift2, zero_mul]

/-- A rectangle of opaque black. -/
def blackRect (w h : Nat) : Pixels := ⟨w, h, (List.range (w * h)).flatMap fun _ => [0, 0, 0, 255]⟩

/-- A raster layer of opaque black in the first row. -/
def blackLayer (id : String) (left : Int) (w : Nat) (fillOpacity : Option ℚ) (dropShadow : Option DropShadow) : PaintLayer :=
  .leaf .raster
    { id, bounds := ⟨0, left, 1, left + w⟩, opacity := 1, fillOpacity, blendMode := "normal", visible := true,
      clipping := false, pixels := some (blackRect w 1), mask := none, adjustType := none, params := [], colorOverlay := none,
      stroke := none, dropShadow }

/-- A black background under a pixel of which only the shadow is seen, blurred by some pixels. -/
def shadowDoc (size : ℚ) : PaintDoc :=
  ⟨2, 1, [blackLayer "background" 0 2 none none,
    blackLayer "pixel" 1 1 (some 0) (some ⟨⟨0, 0, 0⟩, 1, "normal", 0, 0, size, 0⟩)]⟩

/-! ## The theorem -/

theorem channel_eq {C : Type} {target target' : Target} {cx cy : Int} {acc acc' : Buffer C}
    (h : view target cx cy acc = view target' cx cy acc') {k : Nat} (hk : k < 4) :
    acc (4 * pixelIndex target cx cy + k) = acc' (4 * pixelIndex target' cx cy + k) := by
  simp only [view, Rgba.mk.injEq] at h
  obtain ⟨hr, hg, hb, ha⟩ := h
  obtain rfl | rfl | rfl | rfl : k = 0 ∨ k = 1 ∨ k = 2 ∨ k = 3 := by omega
  · exact hr
  · exact hg
  · exact hb
  · exact ha

theorem channel_place {w h i : Nat} (hi : i < w * h * 4) :
    i / 4 % w < w ∧ i / 4 / w < h ∧ (i / 4 / w * w + i / 4 % w) * 4 + i % 4 = i := by
  have hpixel : i / 4 < w * h := by omega
  have hwpos : 0 < w := by
    rcases Nat.eq_zero_or_pos w with rfl | hpos
    · rw [Nat.zero_mul] at hpixel
      exact absurd hpixel (Nat.not_lt_zero _)
    · exact hpos
  have hdiv : i / 4 / w * w + i / 4 % w = i / 4 := Nat.div_add_mod' _ _
  exact ⟨Nat.mod_lt _ hwpos, Nat.div_lt_of_lt_mul hpixel, by omega⟩

theorem pixelIndex_offset {target : Target} {cx cy : Int} {x y : Nat} (hx : cx = target.originX + x)
    (hy : cy = target.originY + y) : pixelIndex target cx cy = y * target.width + x := by
  rw [pixelIndex, hx, hy, add_sub_cancel_left, add_sub_cancel_left]
  exact_mod_cast Int.toNat_natCast _

/-- A rectangle is inside the canvas. -/
def Rect.Inside (rect : Rect Int) (doc : PaintDoc) : Prop :=
  0 ≤ rect.top ∧ 0 ≤ rect.left ∧ rect.bottom ≤ doc.height ∧ rect.right ≤ doc.width

/-- A buffer with the pixels of the whole image in a rectangle is the crop of it. -/
theorem crop_eq {C : Type} {doc : PaintDoc} {rect : Rect Int} {acc full : Buffer C}
    (hinside : rect.Inside doc) (hview : ∀ cx cy, Covers rect.target cx cy → InWindow cx cy 0 0 doc.width doc.height →
      view rect.target cx cy acc = view (fullTarget doc.width doc.height) cx cy full) {i : Nat}
    (hi : i < rect.target.width * rect.target.height * 4) :
    acc i = full (((rect.top.toNat + i / 4 / rect.target.width) * doc.width + (rect.left.toNat + i / 4 % rect.target.width)) * 4
      + i % 4) := by
  simp only [Rect.target] at hview hi ⊢
  obtain ⟨htop, hleft, hbottom, hright⟩ := hinside
  generalize hw : (rect.right - rect.left).toNat = w at hview hi ⊢
  generalize hh : (rect.bottom - rect.top).toNat = h at hview hi ⊢
  obtain ⟨hx, hy, hi⟩ := channel_place hi
  generalize i / 4 % w = x at hx hi ⊢
  generalize i / 4 / w = y at hy hi ⊢
  have hk : i % 4 < 4 := Nat.mod_lt _ (by omega)
  have hcovers : InWindow (rect.left + x) (rect.top + y) rect.left rect.top w h := by
    rw [InWindow]
    omega
  have hcanvas : InWindow (rect.left + x) (rect.top + y) 0 0 doc.width doc.height := by
    rw [InWindow]
    omega
  have hchannel := channel_eq (hview _ _ hcovers hcanvas) hk
  have hfullX : rect.left + (x : Int) = 0 + ((rect.left.toNat + x : Nat) : Int) := by omega
  have hfullY : rect.top + (y : Int) = 0 + ((rect.top.toNat + y : Nat) : Int) := by omega
  have hdirect : pixelIndex ⟨rect.left, rect.top, w, h⟩ (rect.left + x) (rect.top + y) = y * w + x :=
    pixelIndex_offset rfl rfl
  have hfull : pixelIndex (fullTarget doc.width doc.height) (rect.left + x) (rect.top + y)
      = (rect.top.toNat + y) * doc.width + (rect.left.toNat + x) := pixelIndex_offset hfullX hfullY
  rw [hdirect, hfull, Nat.mul_comm 4, Nat.mul_comm 4, hi] at hchannel
  exact hchannel

theorem view_kept {C N : Type} (A : Arithmetic C N) {cw ch w h : Nat} {layers : List PaintLayer} {rect : Rect Int} {cx cy : Int}
    (hformed : DrawnAll WellFormed layers) (hwhole : DrawnAll WholeShadow layers)
    (hcovers : InWindow cx cy rect.left rect.top w h) (hcanvas : InWindow cx cy 0 0 cw ch)
    (hrect : 0 ≤ rect.left ∧ 0 ≤ rect.top) (hregion : (Rect.ofInt rect).Has cx cy) :
    view ⟨rect.left, rect.top, w, h⟩ cx cy (renderList A ⟨rect.left, rect.top, w, h⟩ cw ch
        (keptLayers A cw ch (Rect.ofInt rect) layers) none fun _ => A.clear)
      = view (fullTarget cw ch) cx cy (renderList A (fullTarget cw ch) cw ch layers none fun _ => A.clear) := by
  have hdirect : Covers ⟨rect.left, rect.top, w, h⟩ cx cy := hcovers
  have hfull : Covers (fullTarget cw ch) cx cy := hcanvas
  have hkept := paintList_kept (A := A) hcanvas hregion layers (drawnAll_and layers hformed hwhole) none none (clearRgba A)
    fun _ => rfl
  rw [view_renderList hdirect hrect hcanvas _ (drawnAll_kept layers hwhole) none,
    view_renderList hfull ⟨le_refl _, le_refl _⟩ hcanvas layers hwhole none, view_clear, view_clear]
  exact hkept

/-- For every arithmetic of pixels, every well-formed document and every region, the image of the region alone is the image of
the document cropped to the region, if the shadows that are drawn are hard or blurred by whole pixels. -/
theorem region_parity {C N : Type} (A : Arithmetic C N) (doc : PaintDoc) (region : Rect ℚ)
    (hformed : DrawnAll WellFormed doc.layers) (hwhole : DrawnAll WholeShadow doc.layers) :
    (renderRegionDirect A doc region).width = (renderRegion A doc region).width ∧
      (renderRegionDirect A doc region).height = (renderRegion A doc region).height ∧
      ∀ i < (renderRegion A doc region).width * (renderRegion A doc region).height * 4,
        (renderRegionDirect A doc region).data i = (renderRegion A doc region).data i := by
  refine ⟨rfl, rfl, fun i hi => ?_⟩
  have hinside : (clampRegion doc.width doc.height region).Inside doc :=
    ⟨le_max_left _ _, le_max_left _ _, min_le_left _ _, min_le_left _ _⟩
  refine crop_eq hinside (fun cx cy hcovers hcanvas => ?_) hi
  refine view_kept A hformed hwhole hcovers hcanvas ⟨hinside.2.1, hinside.1⟩ ?_
  simp only [Covers, Rect.target, InWindow] at hcovers
  exact ⟨⟨Int.cast_le.mpr (by omega), Int.cast_lt.mpr (by omega)⟩, Int.cast_le.mpr (by omega), Int.cast_lt.mpr (by omega)⟩

theorem shadowDoc_wellFormed {size : ℚ} (hsize : 0 ≤ size) : DrawnAll WellFormed (shadowDoc size).layers := by
  have hmask : ∀ mask : Mask, (none : Option Mask) = some mask → ExactMask mask := by
    intro mask h
    cases h
  refine ⟨fun _ => ⟨hmask, ?_, ?_⟩, fun _ => ⟨hmask, ?_, ?_⟩, trivial⟩
  · rintro px ⟨⟩
    exact ⟨rfl, rfl⟩
  · rintro ds ⟨⟩
  · rintro px ⟨⟩
    exact ⟨rfl, rfl⟩
  · rintro ds ⟨⟩
    exact ⟨hsize, le_refl _⟩

theorem shadowDoc_wholeShadow : DrawnAll WholeShadow (shadowDoc 1).layers := by
  refine ⟨fun _ _ ds hds => ?_, fun _ _ ds hds => ?_, trivial⟩
  · cases hds
  · cases hds
    rfl

/-- A shadow of one pixel is the same in the region. -/
theorem region_parity_whole :
    (renderRegionDirect nanArithmetic (shadowDoc 1) ⟨0, 1, 1, 2⟩).data 3
      = (renderRegion nanArithmetic (shadowDoc 1) ⟨0, 1, 1, 2⟩).data 3 :=
  (region_parity nanArithmetic (shadowDoc 1) ⟨0, 1, 1, 2⟩ (shadowDoc_wellFormed zero_le_one) shadowDoc_wholeShadow).2.2 3
    (by decide)

/-- A shadow blurred by half a pixel clears a pixel of the region that the image of the document keeps. -/
theorem region_parity_false : DrawnAll WellFormed (shadowDoc (1 / 2)).layers ∧
    (renderRegionDirect nanArithmetic (shadowDoc (1 / 2)) ⟨0, 1, 1, 2⟩).data 3 = 0 ∧
    (renderRegion nanArithmetic (shadowDoc (1 / 2)) ⟨0, 1, 1, 2⟩).data 3 = 255 :=
  ⟨shadowDoc_wellFormed (by norm_num), by with_unfolding_all decide, by with_unfolding_all decide⟩

end UniDocs.Psd
