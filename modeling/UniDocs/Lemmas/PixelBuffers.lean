import UniDocs.Psd.PixelSemantics

/-!
# Buffers seen pixel by pixel

What an operation of the compositor leaves at a pixel that its target covers: the pixel semantics of the operation, applied to
the pixel that was there.
-/

namespace UniDocs.Psd

open Lib

variable {C N : Type} (A : Arithmetic C N)

/-- The target covers a place of the canvas. -/
def Covers (target : Target) (cx cy : Int) : Prop := InWindow cx cy target.originX target.originY target.width target.height

/-- The number of a pixel in a buffer. -/
def pixelIndex (target : Target) (cx cy : Int) : Nat :=
  ((cy - target.originY) * target.width + (cx - target.originX)).toNat

/-- The pixel of a buffer at a place of the canvas. -/
def view (target : Target) (cx cy : Int) (acc : Buffer C) : Rgba C :=
  let i := 4 * pixelIndex target cx cy
  ⟨acc i, acc (i + 1), acc (i + 2), acc (i + 3)⟩

/-- The clip at a place of the canvas. -/
def clipAt (cw : Nat) (cx cy : Int) (clip : Option (Buffer C)) : Option C := clip.map fun clip => clip (cy * cw + cx).toNat

@[simp]
theorem view_clear (target : Target) (cx cy : Int) : view target cx cy (fun _ => A.clear) = clearRgba A := rfl

/-! ## Places -/

variable {target : Target} {cx cy : Int}

theorem cast_pixelIndex (h : Covers target cx cy) :
    (pixelIndex target cx cy : Int) = (cy - target.originY) * target.width + (cx - target.originX) := by
  obtain ⟨⟨hx, _⟩, hy, _⟩ := h
  have hmul : 0 ≤ (cy - target.originY) * target.width := mul_nonneg hy (by omega)
  rw [pixelIndex, Int.toNat_of_nonneg (by omega)]

theorem pixelIndex_lt (h : Covers target cx cy) :
    pixelIndex target cx cy < target.width * target.height := by
  have hindex := cast_pixelIndex h
  obtain ⟨⟨hx, hx'⟩, hy, hy'⟩ := h
  have hrow : (cy - target.originY + 1) * target.width ≤ target.height * target.width :=
    mul_le_mul_of_nonneg_right (by omega) (by omega)
  rw [add_mul, one_mul, mul_comm (target.height : Int)] at hrow
  have hlt : (pixelIndex target cx cy : Int) < ((target.width * target.height : Nat) : Int) := by
    push_cast
    omega
  exact Int.ofNat_lt.mp hlt

theorem pixelIndex_inj {cx cy px py : Int} (h : Covers target cx cy) (h' : Covers target px py)
    (heq : pixelIndex target cx cy = pixelIndex target px py) : cx = px ∧ cy = py := by
  obtain ⟨hx, hy, _⟩ := h
  obtain ⟨hx', hy', _⟩ := h'
  obtain ⟨hrow, hcolumn⟩ := rowMajor_toNat_inj hy hy' hx hx' heq
  omega

/-! ## Compositing at a pixel -/

/-- Compositing at an index of the buffer writes the four channels of one pixel. -/
theorem compositeAt_eq {q : Nat} (hq : q < target.width * target.height) (mode : String) (source : Rgb N)
    (sa : N) (acc : Buffer C) : compositeAt A target.size mode source sa ((q : Int) * 4) acc = fun i =>
      let p := overPixel A mode source sa ⟨acc (4 * q), acc (4 * q + 1), acc (4 * q + 2), acc (4 * q + 3)⟩
      if i = 4 * q + 3 then p.a else if i = 4 * q + 2 then p.b else if i = 4 * q + 1 then p.g
      else if i = 4 * q then p.r else acc i := by
  have hsize : (target.size : Int) = ((target.width * target.height : Nat) : Int) * 4 := by
    rw [Target.size]
    push_cast
    rfl
  have hread : ∀ k : Nat, k < 4 → readChannel A target.size acc ((q : Int) * 4 + k) = A.fraction (acc (4 * q + k)) := by
    intro k hk
    rw [readChannel, if_pos (by omega)]
    congr 2
    omega
  have hwrite : ∀ (k : Nat) (v : N) (acc : Buffer C), k < 4 →
      writeChannel A target.size acc ((q : Int) * 4 + k) v = fun i => if i = 4 * q + k then A.store v else acc i := by
    intro k v acc hk
    rw [writeChannel, if_pos (by omega)]
    funext i
    have htoNat : ((q : Int) * 4 + k).toNat = 4 * q + k := by omega
    rw [htoNat]
  have hread0 := hread 0 (by omega)
  have hread1 := hread 1 (by omega)
  have hread2 := hread 2 (by omega)
  have hread3 := hread 3 (by omega)
  simp only [Nat.cast_zero, Nat.cast_one, Nat.cast_ofNat, add_zero] at hread0 hread1 hread2 hread3
  have hwrite0 := fun v acc => hwrite 0 v acc (by omega)
  have hwrite1 := fun v acc => hwrite 1 v acc (by omega)
  have hwrite2 := fun v acc => hwrite 2 v acc (by omega)
  have hwrite3 := fun v acc => hwrite 3 v acc (by omega)
  simp only [Nat.cast_zero, Nat.cast_one, Nat.cast_ofNat, add_zero] at hwrite0 hwrite1 hwrite2 hwrite3
  funext i
  simp only [compositeAt, hread0, hread1, hread2, hread3, hwrite0, hwrite1, hwrite2, hwrite3, overPixel]

theorem view_compositeAt {cx cy px py : Int} (h : Covers target cx cy) (h' : Covers target px py)
    (mode : String) (source : Rgb N) (sa : N) (acc : Buffer C) :
    view target cx cy (compositeAt A target.size mode source sa
        (((py - target.originY) * target.width + (px - target.originX)) * 4) acc)
      = if px = cx ∧ py = cy then overPixel A mode source sa (view target cx cy acc) else view target cx cy acc := by
  rw [← cast_pixelIndex h', compositeAt_eq A (pixelIndex_lt h')]
  by_cases hplace : px = cx ∧ py = cy
  · obtain ⟨rfl, rfl⟩ := hplace
    rw [if_pos ⟨rfl, rfl⟩]
    simp [view]
  · rw [if_neg hplace]
    have hne : pixelIndex target cx cy ≠ pixelIndex target px py := fun heq =>
      hplace ⟨(pixelIndex_inj h h' heq).1.symm, (pixelIndex_inj h h' heq).2.symm⟩
    simp only [view]
    congr 1
    all_goals
      repeat rw [if_neg (by omega)]

/-! ## Loops of the compositor -/

theorem withClip_eq (cw : Nat) (clip : Option (Buffer C)) (cx cy : Int) (sa : N) :
    withClip A cw clip cx cy sa = clipped A (clipAt cw cx cy clip) sa := by
  cases clip <;> rfl

/-- The loops over the places of a rectangle that the target covers: a covered pixel in the rectangle is changed by its own
round, any other pixel by none. -/
theorem view_window (h : Covers target cx cy) (w h' : Nat) (ox oy : Int)
    {body : Int → Int → Buffer C → Buffer C} (change : Rgba C → Rgba C)
    (hround : ∀ acc, view target cx cy (body (cy - oy) (cx - ox) acc) = change (view target cx cy acc))
    (hother : ∀ y x acc, Covers target (ox + x) (oy + y) → ¬ (x = cx - ox ∧ y = cy - oy) →
      view target cx cy (body y x acc) = view target cx cy acc) (acc : Buffer C) :
    view target cx cy (forRange (max 0 (target.originY - oy)) (min h' (target.originY - oy + target.height)) (fun y =>
        forRange (max 0 (target.originX - ox)) (min w (target.originX - ox + target.width)) (body y)) acc)
      = if InWindow cx cy ox oy w h' then change (view target cx cy acc) else view target cx cy acc := by
  refine (forRange_once_once (view target cx cy) change (cx - ox) (cy - oy) ?_ acc).trans ?_
  · intro y x acc hy0 hy1 hx0 hx1
    by_cases hplace : x = cx - ox ∧ y = cy - oy
    · rw [if_pos hplace, hplace.1, hplace.2]
      exact hround acc
    · rw [if_neg hplace]
      refine hother y x acc ?_ hplace
      rw [Covers, InWindow]
      omega
  · obtain ⟨hx, hy⟩ := h
    by_cases hwindow : InWindow cx cy ox oy w h'
    · rw [if_pos hwindow]
      refine if_pos ?_
      rw [InWindow] at hwindow
      omega
    · rw [if_neg hwindow]
      refine if_neg fun hrange => hwindow ?_
      rw [InWindow]
      omega

/-- A buffer is drawn at the pixels of its rectangle. -/
theorem view_compositeBuffer (h : Covers target cx cy) (cw : Nat) (source : Source N)
    (sw sh : Nat) (ox oy : Int) (opacity : N) (mode : String) (mask : Option Mask) (clip : Option (Buffer C))
    (overlay : Option ColorOverlay) (acc : Buffer C) :
    view target cx cy (compositeBuffer A target cw source sw sh ox oy opacity mode mask clip overlay acc)
      = paintBuffer A cx cy source sw sh ox oy opacity mode mask (clipAt cw cx cy clip) overlay (view target cx cy acc) := by
  refine view_window h sw sh ox oy (fun p =>
    let si := (((cy - oy) * sw + (cx - ox)) * 4).toNat
    let sa := clipped A (clipAt cw cx cy clip) (withMask A mask cx cy (A.mul (source (si + 3)) opacity))
    if A.isZero sa then p else overPixel A mode (sourceColor A source si overlay) sa p) ?_ ?_ acc
  · intro acc
    simp only [withClip_eq, show ox + (cx - ox) = cx by omega, show oy + (cy - oy) = cy by omega]
    split
    · rfl
    · rw [view_compositeAt A h h, if_pos ⟨rfl, rfl⟩]
  · intro y x acc hcovers hplace
    simp only
    split
    · rfl
    · rw [view_compositeAt A h hcovers]
      exact if_neg (by omega)

theorem view_strokeEffect (h : Covers target cx cy) (cw : Nat) (layer : Paint) (st : Stroke)
    (px : Pixels) (clip : Option (Buffer C)) (acc : Buffer C) :
    view target cx cy (strokeEffect A target cw layer st px clip acc)
      = paintStroke A cx cy layer st px (clipAt cw cx cy clip) (view target cx cy acc) := by
  rw [strokeEffect, paintStroke]
  refine view_window h px.width px.height layer.bounds.left layer.bounds.top (fun p =>
    if strokeHit st px ((cy - layer.bounds.top) * px.width + (cx - layer.bounds.left)).toNat then
      let sa := clipped A (clipAt cw cx cy clip)
        (withMask A layer.mask cx cy (A.mul (A.number layer.opacity) (A.number st.opacity)))
      if A.isZero sa then p else overPixel A st.blendMode (effectColor A st.color) sa p
    else p) ?_ ?_ acc
  · intro acc
    simp only [withClip_eq, show layer.bounds.left + (cx - layer.bounds.left) = cx by omega,
      show layer.bounds.top + (cy - layer.bounds.top) = cy by omega]
    split
    · split
      · rfl
      · rw [view_compositeAt A h h, if_pos ⟨rfl, rfl⟩]
    · rfl
  · intro y x acc hcovers hplace
    simp only
    split
    · split
      · rfl
      · rw [view_compositeAt A h hcovers]
        exact if_neg (by omega)
    · rfl

/-! ## Shadows -/

theorem view_sample {cx cy px py : Int} (h : Covers target cx cy) (h' : Covers target px py)
    (ds : DropShadow) (a sa : N) (acc : Buffer C) :
    view target cx cy (if A.notPositive a then acc else if A.notPositive sa then acc
        else compositeAt A target.size ds.blendMode (effectColor A ds.color) sa
          (((py - target.originY) * target.width + (px - target.originX)) * 4) acc)
      = if px = cx ∧ py = cy then
          if A.notPositive a then view target cx cy acc else if A.notPositive sa then view target cx cy acc
          else overPixel A ds.blendMode (effectColor A ds.color) sa (view target cx cy acc)
        else view target cx cy acc := by
  cases A.notPositive a with
  | true => simp only [if_true, ite_self]
  | false =>
    cases A.notPositive sa with
    | true => simp only [if_true, Bool.false_eq_true, ite_self]
    | false =>
      simp only [Bool.false_eq_true, if_false]
      exact view_compositeAt A h h' _ _ _ _

variable {cw ch : Nat}

/-- The clip read for a sample at a whole place of the canvas. -/
theorem readElement_clip (hcanvas : InWindow cx cy 0 0 cw ch) (clip : Buffer C) :
    readElement A (cw * ch) (fun i => A.fraction (clip i)) ((cy : ℚ) * (cw : ℚ) + (cx : ℚ))
      = A.fraction (clip (cy * cw + cx).toNat) := by
  have hcast : (cy : ℚ) * (cw : ℚ) + (cx : ℚ) = ((cy * cw + cx : Int) : ℚ) := by push_cast; rfl
  have hlt := pixelIndex_lt (show Covers ⟨0, 0, cw, ch⟩ cx cy from hcanvas)
  have hcell := cast_pixelIndex (show Covers ⟨0, 0, cw, ch⟩ cx cy from hcanvas)
  simp only [Int.sub_zero] at hlt hcell
  rw [hcast, readElement, if_pos]
  · rfl
  · refine ⟨rfl, ?_, ?_⟩
    · rw [← hcell]
      exact_mod_cast Nat.zero_le _
    · rw [← hcell]
      exact_mod_cast hlt

/-- A sample of a shadow at a whole place changes the pixel there and no other. -/
theorem view_putShadow (px py : Int) (h : Covers target cx cy)
    (hcanvas : InWindow cx cy 0 0 cw ch) (ds : DropShadow) (base : N) (clip : Option (Buffer C)) (a : N) (acc : Buffer C) :
    view target cx cy (putShadow A target cw ch ds base clip (px : ℚ) (py : ℚ) a acc)
      = if px = cx ∧ py = cy then paintSample A ds base (clipAt cw cx cy clip) a (view target cx cy acc)
        else view target cx cy acc := by
  have hcolumn : (px : ℚ) - (target.originX : ℚ) = ((px - target.originX : Int) : ℚ) := by push_cast; rfl
  have hrow : (py : ℚ) - (target.originY : ℚ) = ((py - target.originY : Int) : ℚ) := by push_cast; rfl
  have hindex : (((py - target.originY : Int) : ℚ) * (target.width : ℚ) + ((px - target.originX : Int) : ℚ)) * 4
      = ((((py - target.originY) * target.width + (px - target.originX)) * 4 : Int) : ℚ) := by push_cast; ring
  by_cases hcovers : Covers target px py
  · have hcond : ¬ (((px - target.originX : Int) : ℚ) < 0 ∨ (target.width : ℚ) ≤ ((px - target.originX : Int) : ℚ) ∨
        ((py - target.originY : Int) : ℚ) < 0 ∨ (target.height : ℚ) ≤ ((py - target.originY : Int) : ℚ)) := by
      obtain ⟨⟨hx, hx'⟩, hy, hy'⟩ := hcovers
      norm_cast
      omega
    simp only [putShadow, hcolumn, hrow, hindex, Rat.den_intCast, Rat.num_intCast, if_true, hcond, or_false]
    rw [view_sample A h hcovers]
    by_cases hplace : px = cx ∧ py = cy
    · rw [if_pos hplace, if_pos hplace, paintSample, hplace.1, hplace.2]
      cases clip with
      | none => rfl
      | some clip =>
        simp only [readElement_clip A hcanvas]
        rfl
    · rw [if_neg hplace, if_neg hplace]
  · have hcond : ((px - target.originX : Int) : ℚ) < 0 ∨ (target.width : ℚ) ≤ ((px - target.originX : Int) : ℚ) ∨
        ((py - target.originY : Int) : ℚ) < 0 ∨ (target.height : ℚ) ≤ ((py - target.originY : Int) : ℚ) := by
      rw [Covers, InWindow] at hcovers
      norm_cast
      omega
    have hplace : ¬ (px = cx ∧ py = cy) := by
      rintro ⟨rfl, rfl⟩
      exact hcovers h
    rw [if_neg hplace]
    simp only [putShadow, hcolumn, hrow, hcond, or_true, if_true]

theorem view_hardShadow (h : Covers target cx cy)
    (hcanvas : InWindow cx cy 0 0 cw ch) (layer : Paint) (ds : DropShadow) (px : Pixels) (clip : Option (Buffer C))
    (hsize : ds.size ≤ 0) (acc : Buffer C) :
    view target cx cy (dropShadowEffect A target cw ch layer ds px clip acc)
      = paintShadow A cx cy cw ch layer ds px (clipAt cw cx cy clip) (view target cx cy acc) := by
  rw [dropShadowEffect, paintShadow]
  generalize A.shadowOffset ds.angle ds.distance = offset
  obtain ⟨dx, dy⟩ := offset
  simp only [if_pos hsize, Int.sub_sub]
  refine (view_window h px.width px.height (layer.bounds.left + dx) (layer.bounds.top + dy) (fun p =>
    if A.notPositive (A.ofByte px.data[(((cy - (layer.bounds.top + dy)) * px.width + (cx - (layer.bounds.left + dx))) * 4
        + 3).toNat]?) then p
    else paintSample A ds (A.mul (A.number layer.opacity) (A.number ds.opacity)) (clipAt cw cx cy clip)
      (shadowAlpha A cw ch layer px (cx - (layer.bounds.left + dx)) (cy - (layer.bounds.top + dy))) p) ?_ ?_ acc)
  · intro acc
    have hx : ((layer.bounds.left : ℚ) + ((cx - (layer.bounds.left + dx) : Int) : ℚ) + (dx : ℚ)) = (cx : ℚ) := by
      push_cast
      ring
    have hy : ((layer.bounds.top : ℚ) + ((cy - (layer.bounds.top + dy) : Int) : ℚ) + (dy : ℚ)) = (cy : ℚ) := by
      push_cast
      ring
    simp only [hx, hy]
    split
    · rfl
    · rw [view_putShadow A cx cy h hcanvas, if_pos ⟨rfl, rfl⟩]
  · intro y x acc _ hplace
    have hx : ((layer.bounds.left : ℚ) + (x : ℚ) + (dx : ℚ)) = ((layer.bounds.left + x + dx : Int) : ℚ) := by push_cast; rfl
    have hy : ((layer.bounds.top : ℚ) + (y : ℚ) + (dy : ℚ)) = ((layer.bounds.top + y + dy : Int) : ℚ) := by push_cast; rfl
    simp only [hx, hy]
    split
    · rfl
    · rw [view_putShadow A _ _ h hcanvas]
      exact if_neg (by omega)

theorem blurredShadow_loops {layer : Paint} {ds : DropShadow} {px : Pixels}
    {clip : Option (Buffer C)} {k : Nat} {dx dy : Int} (hsize : ds.size = k) (hpos : 0 < k)
    (hoffset : A.shadowOffset ds.angle ds.distance = (dx, dy)) (acc : Buffer C) :
    dropShadowEffect A target cw ch layer ds px clip acc =
      forRange (max 0 (target.originY - (layer.bounds.top - k + dy)))
        (min (px.height + 2 * k : Nat) (target.originY - (layer.bounds.top - k + dy) + target.height)) (fun y =>
        forRange (max 0 (target.originX - (layer.bounds.left - k + dx)))
          (min (px.width + 2 * k : Nat) (target.originX - (layer.bounds.left - k + dx) + target.width)) fun x acc =>
          let a := readElement A (blurredShadow A cw ch layer ds px).1 (blurredShadow A cw ch layer ds px).2
            ((y * (px.width + 2 * k : Nat) + x : Int) : ℚ)
          if A.notPositive a then acc
          else putShadow A target cw ch ds (A.mul (A.number layer.opacity) (A.number ds.opacity)) clip
            ((layer.bounds.left - k + x + dx : Int) : ℚ) ((layer.bounds.top - k + y + dy : Int) : ℚ) a acc) acc := by
  have hnot : ¬ ((k : Nat) : ℚ) ≤ 0 := not_le.mpr (Nat.cast_pos.mpr hpos)
  have hstart : ∀ a b c : Int, max 0 ((a : ℚ) - (b : ℚ) + (k : ℚ) - (c : ℚ)) = ((max 0 (a - (b - k + c)) : Int) : ℚ) := by
    intro a b c
    push_cast
    congr 1
    ring
  have hstop : ∀ (w n : Nat) (a b c : Int), min ((w : ℚ) + 2 * (k : ℚ)) ((a : ℚ) - (b : ℚ) + (k : ℚ) - (c : ℚ) + (n : ℚ))
      = ((min ((w + 2 * k : Nat) : Int) (a - (b - k + c) + n) : Int) : ℚ) := by
    intro w n a b c
    push_cast
    congr 1
    ring
  rw [dropShadowEffect, hoffset]
  generalize blurredShadow A cw ch layer ds px = blur
  obtain ⟨length, blurred⟩ := blur
  simp only [hsize, if_neg hnot, hstart, hstop, forFrom_int]
  refine congrArg (fun body => forRange _ _ body acc) (funext fun y => ?_)
  refine (funext (forFrom_int _ _ _)).trans (congrArg (forRange _ _) (funext fun x => funext fun acc => ?_))
  have hindex : (y : ℚ) * ((px.width : ℚ) + 2 * (k : ℚ)) + (x : ℚ) = ((y * (px.width + 2 * k : Nat) + x : Int) : ℚ) := by
    push_cast
    rfl
  have hcolumn : (layer.bounds.left : ℚ) - (k : ℚ) + (x : ℚ) + (dx : ℚ) = ((layer.bounds.left - k + x + dx : Int) : ℚ) := by
    push_cast
    rfl
  have hrow : (layer.bounds.top : ℚ) - (k : ℚ) + (y : ℚ) + (dy : ℚ) = ((layer.bounds.top - k + y + dy : Int) : ℚ) := by
    push_cast
    rfl
  rw [hindex, hcolumn, hrow]

theorem view_blurredShadow (h : Covers target cx cy)
    (hcanvas : InWindow cx cy 0 0 cw ch) (layer : Paint) (ds : DropShadow) (px : Pixels) (clip : Option (Buffer C))
    (hpos : ¬ ds.size ≤ 0) (hwhole : ds.size.den = 1) (acc : Buffer C) :
    view target cx cy (dropShadowEffect A target cw ch layer ds px clip acc)
      = paintShadow A cx cy cw ch layer ds px (clipAt cw cx cy clip) (view target cx cy acc) := by
  have hnum : 0 < ds.size.num := Rat.num_pos.mpr (not_le.mp hpos)
  have hsize : ds.size = ((ds.size.num.toNat : Nat) : ℚ) := by
    have hint : ds.size = (ds.size.num : ℚ) := ((Rat.den_eq_one_iff _).mp hwhole).symm
    have hcast : ((ds.size.num.toNat : Nat) : Int) = ds.size.num := Int.toNat_of_nonneg (le_of_lt hnum)
    calc ds.size = (ds.size.num : ℚ) := hint
      _ = (((ds.size.num.toNat : Nat) : Int) : ℚ) := by rw [hcast]
      _ = ((ds.size.num.toNat : Nat) : ℚ) := Int.cast_natCast _
  cases hoffset : A.shadowOffset ds.angle ds.distance with
  | mk dx dy =>
    rw [blurredShadow_loops A hsize (by omega) hoffset, paintShadow, hoffset]
    generalize ds.size.num.toNat = k at *
    simp only [if_neg hpos]
    refine (view_window h (px.width + 2 * k) (px.height + 2 * k) (layer.bounds.left - k + dx) (layer.bounds.top - k + dy)
      (fun p => paintSample A ds (A.mul (A.number layer.opacity) (A.number ds.opacity)) (clipAt cw cx cy clip)
        (readElement A (blurredShadow A cw ch layer ds px).1 (blurredShadow A cw ch layer ds px).2
          (((cy - (layer.bounds.top - k + dy)) * (px.width + 2 * k : Nat) + (cx - (layer.bounds.left - k + dx)) : Int) : ℚ)) p)
      ?_ ?_ acc)
    · intro acc
      simp only [show layer.bounds.left - (k : Int) + (cx - (layer.bounds.left - k + dx)) + dx = cx by omega,
        show layer.bounds.top - (k : Int) + (cy - (layer.bounds.top - k + dy)) + dy = cy by omega]
      split
      · rename_i hzero
        rw [paintSample, if_pos hzero]
      · rw [view_putShadow A cx cy h hcanvas, if_pos ⟨rfl, rfl⟩]
    · intro y x acc _ hplace
      split
      · rfl
      · rw [view_putShadow A _ _ h hcanvas]
        exact if_neg (by omega)

theorem view_dropShadowEffect (h : Covers target cx cy)
    (hcanvas : InWindow cx cy 0 0 cw ch) (layer : Paint) (ds : DropShadow) (px : Pixels) (clip : Option (Buffer C))
    (hwhole : ds.size.den = 1) (acc : Buffer C) :
    view target cx cy (dropShadowEffect A target cw ch layer ds px clip acc)
      = paintShadow A cx cy cw ch layer ds px (clipAt cw cx cy clip) (view target cx cy acc) := by
  by_cases hsize : ds.size ≤ 0
  · exact view_hardShadow A h hcanvas layer ds px clip hsize acc
  · exact view_blurredShadow A h hcanvas layer ds px clip hsize hwhole acc

end UniDocs.Psd
