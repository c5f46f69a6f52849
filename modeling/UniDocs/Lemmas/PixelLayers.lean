import UniDocs.Lemmas.PixelBuffers

/-!
# Layers seen pixel by pixel

The stack of layers leaves at a covered pixel of the canvas what the pixel semantics of its layers say, whatever rectangle is
rendered, where the shadows that are drawn are of whole pixels.
-/

namespace UniDocs.Psd

open Lib

variable {C N : Type} (A : Arithmetic C N)

/-! ## The layers that are drawn -/

mutual

/-- A property of a layer that is drawn, and of the layers in it that are. -/
def Drawn (P : PaintLayer → Prop) : PaintLayer → Prop
  | .leaf type layer => layer.visible = true → P (.leaf type layer)
  | .group layer children => layer.visible = true → P (.group layer children) ∧ DrawnAll P children

/-- A property of all layers of a list that are drawn. -/
def DrawnAll (P : PaintLayer → Prop) : List PaintLayer → Prop
  | [] => True
  | layer :: layers => Drawn P layer ∧ DrawnAll P layers

end

mutual

theorem drawn_and {P Q : PaintLayer → Prop} : ∀ layer, Drawn P layer → Drawn Q layer → Drawn (fun layer => P layer ∧ Q layer) layer
  | .leaf _ _, h, h' => fun hvisible => ⟨h hvisible, h' hvisible⟩
  | .group _ children, h, h' => fun hvisible =>
    ⟨⟨(h hvisible).1, (h' hvisible).1⟩, drawnAll_and children (h hvisible).2 (h' hvisible).2⟩

theorem drawnAll_and {P Q : PaintLayer → Prop} : ∀ layers, DrawnAll P layers → DrawnAll Q layers →
    DrawnAll (fun layer => P layer ∧ Q layer) layers
  | [], _, _ => trivial
  | layer :: layers, h, h' => ⟨drawn_and layer h.1 h'.1, drawnAll_and layers h.2 h'.2⟩

end

/-- The shadow of a layer with pixels is hard, or blurred by whole pixels. -/
def WholeShadow : PaintLayer → Prop
  | .leaf .adjustment _ => True
  | .leaf _ layer => layer.pixels ≠ none → ∀ ds, layer.dropShadow = some ds → ds.size.den = 1
  | .group _ _ => True

/-! ## One layer -/

variable {A}

variable {target : Target} {cx cy : Int}

theorem view_applyPixels (h : Covers target cx cy) {cw ch : Nat}
    (hcanvas : InWindow cx cy 0 0 cw ch) {layer : Paint} (px : Pixels)
    (hwhole : ∀ ds, layer.dropShadow = some ds → ds.size.den = 1) (clip : Option (Buffer C)) (acc : Buffer C) :
    view target cx cy (applyPixels A target cw ch layer px clip acc)
      = paintPixels A cx cy cw ch layer px (clipAt cw cx cy clip) (view target cx cy acc) := by
  have hfill := view_compositeBuffer A h cw (pixelSource A px) px.width px.height layer.bounds.left layer.bounds.top
  have hstroke := fun st => view_strokeEffect A h cw layer st px clip
  rw [applyPixels, paintPixels]
  cases hshadow : layer.dropShadow with
  | none =>
    cases layer.stroke <;> cases layer.colorOverlay <;> simp only [hstroke, hfill, apply_ite (view target cx cy)]
  | some ds =>
    have hbehind := view_dropShadowEffect A h hcanvas layer ds px clip (hwhole ds hshadow) acc
    cases layer.stroke <;> cases layer.colorOverlay <;>
      simp only [hstroke, hfill, hbehind, apply_ite (view target cx cy)]

theorem view_compositeWhole (h : Covers target cx cy) (cw : Nat) (source : Buffer C)
    (layer : Paint) (clip : Option (Buffer C)) (acc : Buffer C) :
    view target cx cy (compositeWhole A target cw source layer clip acc)
      = paintWhole A cx cy (view target cx cy source) layer (clipAt cw cx cy clip) (view target cx cy acc) := by
  have hwindow : InWindow cx cy target.originX target.originY target.width target.height := h
  have hindex : (((cy - target.originY) * target.width + (cx - target.originX)) * 4).toNat = 4 * pixelIndex target cx cy := by
    have hcast := cast_pixelIndex h
    omega
  rw [compositeWhole, view_compositeBuffer A h, paintBuffer, if_pos hwindow]
  simp only [hindex]
  rfl

/-- An adjustment maps the colour of every pixel. -/
theorem view_applyAdjustment {adjustType : Option String} {params : List (String × Value)} {f : Rgb C → Rgb C}
    (hf : A.adjust adjustType params = some f) (acc : Buffer C) :
    ∃ adjusted, applyAdjustment A adjustType params acc = some adjusted ∧
      ∀ (target : Target) (cx cy : Int), view target cx cy adjusted =
        let p := view target cx cy acc
        let out := f ⟨p.r, p.g, p.b⟩
        ⟨out.r, out.g, out.b, p.a⟩ := by
  rw [applyAdjustment, hf]
  refine ⟨_, rfl, fun target cx cy => ?_⟩
  have hdiv : ∀ q : Nat, 4 * q / 4 * 4 = 4 * q ∧ (4 * q + 1) / 4 * 4 = 4 * q ∧ (4 * q + 2) / 4 * 4 = 4 * q := by
    intro q
    omega
  have hmod : ∀ q : Nat, 4 * q % 4 = 0 ∧ (4 * q + 1) % 4 = 1 ∧ (4 * q + 2) % 4 = 2 ∧ (4 * q + 3) % 4 = 3 := by
    intro q
    omega
  simp only [view, (hdiv _).1, (hdiv _).2.1, (hdiv _).2.2, (hmod _).1, (hmod _).2.1, (hmod _).2.2.1, (hmod _).2.2.2,
    if_true, if_false, OfNat.ofNat_ne_zero, OfNat.ofNat_ne_one, Nat.succ_ne_self]

theorem view_pixels (h : Covers target cx cy) {cw ch : Nat}
    (hcanvas : InWindow cx cy 0 0 cw ch) {layer : Paint}
    (hwhole : layer.pixels ≠ none → ∀ ds, layer.dropShadow = some ds → ds.size.den = 1) (clip : Option (Buffer C))
    (acc : Buffer C) :
    view target cx cy (match layer.pixels with
        | some px => applyPixels A target cw ch layer px clip acc
        | none => acc)
      = match layer.pixels with
        | some px => paintPixels A cx cy cw ch layer px (clipAt cw cx cy clip) (view target cx cy acc)
        | none => view target cx cy acc := by
  cases hpixels : layer.pixels with
  | none => rfl
  | some px => exact view_applyPixels h hcanvas px (hwhole (by simp [hpixels])) clip acc

theorem view_applyLeaf (h : Covers target cx cy) {cw ch : Nat}
    (hcanvas : InWindow cx cy 0 0 cw ch) {type : LeafType} {layer : Paint} (hdrawn : Drawn WholeShadow (.leaf type layer))
    (clip : Option (Buffer C)) (acc : Buffer C) :
    view target cx cy (applyLeaf A target cw ch type layer clip acc)
      = paintLeaf A cx cy cw ch type layer (clipAt cw cx cy clip) (view target cx cy acc) := by
  cases hvisible : layer.visible with
  | false => cases type <;> simp [applyLeaf, paintLeaf, hvisible]
  | true =>
    have hwhole := hdrawn hvisible
    cases type with
    | adjustment =>
      rw [applyLeaf, paintLeaf]
      simp only [hvisible, Bool.not_true, Bool.false_eq_true, if_false]
      cases hf : A.adjust layer.adjustType layer.params with
      | none => simp only [applyAdjustment, hf, Option.map_none]
      | some f =>
        obtain ⟨adjusted, hadjusted, hview⟩ := view_applyAdjustment hf acc
        simp only [hadjusted, view_compositeWhole h, hview]
    | raster | fill | text | smartObject =>
      simp only [applyLeaf, paintLeaf, hvisible, Bool.not_true, Bool.false_eq_true, if_false]
      exact view_pixels h hcanvas hwhole clip acc

/-! ## Clip bases -/

/-- The channel of a clip is written at a place of the canvas. -/
theorem clip_write {cx cy px py : Int} {w h : Nat} (hcanvas : InWindow cx cy 0 0 w h) (hplace : InWindow px py 0 0 w h) (v : C)
    (cov : Buffer C) :
    (fun j => if j = (py * w + px).toNat then v else cov j) (cy * w + cx).toNat
      = if px = cx ∧ py = cy then v else cov (cy * w + cx).toNat := by
  have hiff : (cy * w + cx).toNat = (py * w + px).toNat ↔ px = cx ∧ py = cy := by
    obtain ⟨hx, hy, _⟩ := hcanvas
    obtain ⟨hx', hy', _⟩ := hplace
    simp only [Int.sub_zero] at hx hy hx' hy'
    constructor
    · intro heq
      obtain ⟨hrow, hcolumn⟩ := rowMajor_toNat_inj hy hy' hx hx' heq
      exact ⟨hcolumn.symm, hrow.symm⟩
    · rintro ⟨rfl, rfl⟩
      rfl
  simp only [hiff]

/-- The clip base of a group at a covered place of the canvas. -/
theorem groupAlpha_eq (h : Covers target cx cy) {w h' : Nat}
    (hcanvas : InWindow cx cy 0 0 w h') (layer : Paint) (sub : Buffer C) :
    groupAlpha A target w h' layer sub (cy * w + cx).toNat
      = coverage A layer cx cy (A.fraction (view target cx cy sub).a) := by
  refine (forRange_once_once (fun cov : Buffer C => cov (cy * w + cx).toNat)
    (fun _ => coverage A layer cx cy (A.fraction (view target cx cy sub).a)) (cx - target.originX) (cy - target.originY)
    ?_ _).trans ?_
  · intro y x cov hy hy' hx hx'
    have hindex := cast_pixelIndex h
    by_cases hplace : InWindow (target.originX + x) (target.originY + y) 0 0 w h'
    · have hin : 0 ≤ target.originX + x ∧ target.originX + x < w ∧ 0 ≤ target.originY + y ∧ target.originY + y < h' := by
        rw [InWindow] at hplace
        omega
      simp only [if_pos hin]
      refine (clip_write hcanvas hplace _ cov).trans ?_
      by_cases heq : x = cx - target.originX ∧ y = cy - target.originY
      · obtain ⟨rfl, rfl⟩ := heq
        have hchannel : (((cy - target.originY) * target.width + (cx - target.originX)) * 4 + 3).toNat
            = 4 * pixelIndex target cx cy + 3 := by omega
        rw [if_pos (by omega), if_pos ⟨rfl, rfl⟩, hchannel]
        simp only [show target.originX + (cx - target.originX) = cx by omega,
          show target.originY + (cy - target.originY) = cy by omega]
        rfl
      · rw [if_neg heq, if_neg (by omega)]
    · have hout : ¬ (0 ≤ target.originX + x ∧ target.originX + x < w ∧ 0 ≤ target.originY + y ∧ target.originY + y < h') := by
        rw [InWindow] at hplace
        omega
      rw [InWindow] at hcanvas hplace
      simp only [if_neg hout]
      rw [if_neg (by omega)]
  · refine if_pos ?_
    rw [Covers, InWindow] at h
    omega

/-- The clip base of a layer with pixels at a covered place of the canvas. -/
theorem pixelsAlpha_eq (h : Covers target cx cy)
    (horigin : 0 ≤ target.originX ∧ 0 ≤ target.originY) {w h' : Nat} (hcanvas : InWindow cx cy 0 0 w h') (layer : Paint) (px : Pixels) :
    pixelsAlpha A target w h' layer px (cy * w + cx).toNat = pixelsCoverage A cx cy layer px := by
  rw [pixelsAlpha]
  refine (forRange_once_once (fun cov : Buffer C => cov (cy * w + cx).toNat)
    (fun _ => coverage A layer cx cy
      (A.ofByte px.data[(((cy - layer.bounds.top) * px.width + (cx - layer.bounds.left)) * 4 + 3).toNat]?))
    (cx - layer.bounds.left) (cy - layer.bounds.top) ?_ _).trans ?_
  · intro y x cov hy hy' hx hx'
    have hplace : InWindow (layer.bounds.left + x) (layer.bounds.top + y) 0 0 w h' := by
      rw [InWindow]
      omega
    refine (clip_write hcanvas hplace _ cov).trans ?_
    by_cases heq : x = cx - layer.bounds.left ∧ y = cy - layer.bounds.top
    · obtain ⟨rfl, rfl⟩ := heq
      rw [if_pos (by omega), if_pos ⟨rfl, rfl⟩]
      simp only [show layer.bounds.left + (cx - layer.bounds.left) = cx by omega,
        show layer.bounds.top + (cy - layer.bounds.top) = cy by omega]
    · rw [if_neg heq, if_neg (by omega)]
  · rw [pixelsCoverage]
    rw [Covers, InWindow] at h
    rw [InWindow] at hcanvas
    by_cases hwindow : InWindow cx cy layer.bounds.left layer.bounds.top px.width px.height
    · rw [if_pos hwindow]
      refine if_pos ?_
      rw [InWindow] at hwindow
      omega
    · rw [if_neg hwindow]
      refine if_neg fun hrange => hwindow ?_
      rw [InWindow]
      omega

/-! ## The stack -/

mutual

theorem view_applyLayer {target : Target} {cx cy : Int} (h : Covers target cx cy)
    (horigin : 0 ≤ target.originX ∧ 0 ≤ target.originY) {cw ch : Nat} (hcanvas : InWindow cx cy 0 0 cw ch) : ∀ (layer : PaintLayer), Drawn WholeShadow layer →
      ∀ (clip : Option (Buffer C)) (acc : Buffer C), view target cx cy (applyLayer A target cw ch layer clip acc)
        = paintLayer A cx cy cw ch layer (clipAt cw cx cy clip) (view target cx cy acc)
  | .leaf type layer, hdrawn, clip, acc => by
    rw [applyLayer, paintLayer]
    exact view_applyLeaf h hcanvas hdrawn clip acc
  | .group layer children, hdrawn, clip, acc => by
    rw [applyLayer, paintLayer]
    cases hvisible : layer.visible with
    | false => rfl
    | true =>
      have hsub := view_renderList h horigin hcanvas children (hdrawn hvisible).2 none fun _ => A.clear
      simp only [Bool.not_true, Bool.false_eq_true, if_false, view_compositeWhole h]
      rw [hsub]
      rfl

theorem clipAt_layerAlpha {target : Target} {cx cy : Int} (h : Covers target cx cy)
    (horigin : 0 ≤ target.originX ∧ 0 ≤ target.originY) {cw ch : Nat} (hcanvas : InWindow cx cy 0 0 cw ch) : ∀ (layer : PaintLayer), layer.paint.visible = true → Drawn WholeShadow layer →
      clipAt cw cx cy (layerAlpha A target cw ch layer) = baseAt A cx cy cw ch layer
  | .leaf _ layer, _, _ => by
    rw [layerAlpha, baseAt, clipAt, Option.map_map]
    cases layer.pixels with
    | none => rfl
    | some px => exact congrArg some (pixelsAlpha_eq h horigin hcanvas layer px)
  | .group layer children, hvisible, hdrawn => by
    have hsub := view_renderList h horigin hcanvas children (hdrawn hvisible).2 none fun _ => A.clear
    rw [layerAlpha, baseAt, clipAt, Option.map_some, groupAlpha_eq h hcanvas, hsub]
    rfl

theorem view_renderList {target : Target} {cx cy : Int} (h : Covers target cx cy)
    (horigin : 0 ≤ target.originX ∧ 0 ≤ target.originY) {cw ch : Nat} (hcanvas : InWindow cx cy 0 0 cw ch) : ∀ (layers : List PaintLayer), DrawnAll WholeShadow layers →
      ∀ (base : Option (Buffer C)) (acc : Buffer C), view target cx cy (renderList A target cw ch layers base acc)
        = paintList A cx cy cw ch layers (clipAt cw cx cy base) (view target cx cy acc)
  | [], _, _, _ => by rw [renderList, paintList]
  | layer :: layers, hdrawn, base, acc => by
    have hlayer := view_applyLayer h horigin hcanvas layer hdrawn.1
    have hlayers := view_renderList h horigin hcanvas layers hdrawn.2
    have hbase : (clipAt cw cx cy base).isSome = base.isSome := by
      cases base <;> rfl
    rw [renderList, paintList, hbase]
    cases hvisible : layer.paint.visible with
    | false =>
      simp only [Bool.not_false, if_true, hlayers]
      cases layer.paint.clipping <;> rfl
    | true =>
      simp only [Bool.not_true, Bool.false_eq_true, if_false]
      by_cases hclip : (layer.paint.clipping && base.isSome) = true
      · simp only [hclip, if_true, hlayers, hlayer]
      · simp only [if_neg hclip, hlayers, hlayer, apply_ite (clipAt cw cx cy),
          clipAt_layerAlpha h horigin hcanvas layer hvisible hdrawn.1]
        rfl

end

end UniDocs.Psd
