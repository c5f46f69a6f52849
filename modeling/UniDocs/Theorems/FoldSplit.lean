import UniDocs.Psd.Render
import UniDocs.Theorems.RegionParity

/-!
# Folding layers in parts

Folding the layers of a document up to a first index and then from there up to a second one leaves what folding them at once
leaves, wherever the first index lies: between a clip base and the layers clipped to it, among hidden layers, or above a
clipping layer that was drawn without a base and became the base of the next ones. The renderer looks ahead inside the layers
it is given, the replay of the layers below looks ahead in the whole document; the two differ only where no visible layer is
left to be drawn.
-/

namespace UniDocs.Psd

section Stack

variable {C N : Type} {A : Arithmetic C N} {target : Target} {cw ch : Nat}

/-! ## Looking ahead -/

theorem nextVisible_append {xs : List PaintLayer} (h : (nextVisible xs).isSome = true) (ys : List PaintLayer) :
    nextVisible (xs ++ ys) = nextVisible xs := by
  unfold nextVisible at h ⊢
  rw [List.find?_append]
  obtain ⟨layer, hlayer⟩ := Option.isSome_iff_exists.mp h
  rw [hlayer]
  rfl

theorem nextClips_append {xs : List PaintLayer} (h : (nextVisible xs).isSome = true) (ys : List PaintLayer) :
    nextClips (xs ++ ys) = nextClips xs := by
  unfold nextClips
  rw [nextVisible_append h]

theorem nextVisible_isSome_append {ys : List PaintLayer} (h : (nextVisible ys).isSome = true) (xs : List PaintLayer) :
    (nextVisible (xs ++ ys)).isSome = true := by
  unfold nextVisible at h ⊢
  rw [List.find?_isSome] at h ⊢
  obtain ⟨layer, hmem, hvisible⟩ := h
  exact ⟨layer, List.mem_append_right _ hmem, hvisible⟩

theorem renderList_hidden {layers : List PaintLayer} (h : nextVisible layers = none) (base : Option (Buffer C))
    (acc : Buffer C) : renderList A target cw ch layers base acc = acc := by
  induction layers generalizing base with
  | nil => rw [renderList]
  | cons layer layers ih =>
    unfold nextVisible at h
    rw [List.find?_cons] at h
    split at h
    · cases h
    · rename_i hhidden
      rw [renderList, hhidden, Bool.not_false, if_pos rfl]
      exact ih h _

theorem renderList_congr_base {layers : List PaintLayer} {base base' : Option (Buffer C)}
    (h : (nextVisible layers).isSome = true → base = base') (acc : Buffer C) :
    renderList A target cw ch layers base acc = renderList A target cw ch layers base' acc := by
  cases hnext : nextVisible layers with
  | none => rw [renderList_hidden hnext, renderList_hidden hnext]
  | some layer => rw [h (by rw [hnext]; rfl)]

/-! ## One fold after another -/

/-- Layers above others are drawn as if the clip base below them had been replayed. -/
theorem renderList_append (xs ys : List PaintLayer) (base : Option (Buffer C)) (acc : Buffer C) :
    renderList A target cw ch (xs ++ ys) base acc =
      renderList A target cw ch ys (replayBase A target cw ch xs.length (xs ++ ys) base)
        (renderList A target cw ch xs base acc) := by
  induction xs generalizing base acc with
  | nil => rw [List.nil_append, List.length_nil, replayBase, renderList]
  | cons layer xs ih =>
    rw [List.cons_append, List.length_cons, replayBase, renderList, renderList]
    split
    · exact ih _ _
    · split
      · exact ih _ _
      · rw [ih]
        -- What the layers inside the first fold see ahead is what they see in the document, unless none is left to be drawn.
        congr 1
        refine renderList_congr_base (fun hvisible => ?_) _
        rw [nextClips_append hvisible]

/-- What stands above the layers to be drawn does not change their clip base. -/
theorem replayBase_append {ys : List PaintLayer} (h : (nextVisible ys).isSome = true) (xs zs : List PaintLayer)
    (base : Option (Buffer C)) :
    replayBase A target cw ch xs.length (xs ++ ys ++ zs) base = replayBase A target cw ch xs.length (xs ++ ys) base := by
  induction xs generalizing base with
  | nil => rw [List.length_nil, replayBase, replayBase]
  | cons layer xs ih =>
    rw [List.length_cons, List.cons_append, List.cons_append, replayBase, replayBase,
      nextClips_append (nextVisible_isSome_append h xs)]
    simp only [ih]

theorem renderList_resumed (layers : List PaintLayer) {a b : Nat} (hab : a ≤ b) (hb : b ≤ layers.length) (acc : Buffer C) :
    renderList A target cw ch ((layers.take b).drop a) (replayBase A target cw ch a layers none)
        (renderList A target cw ch (layers.take a) none acc) =
      renderList A target cw ch (layers.take b) none acc := by
  have hbelow : layers.take a ++ (layers.take b).drop a = layers.take b := by
    have hcut := List.take_append_drop a (layers.take b)
    rw [List.take_take, min_eq_left hab] at hcut
    exact hcut
  have hlength : (layers.take a).length = a := by
    rw [List.length_take]
    omega
  have hall : layers.take a ++ (layers.take b).drop a ++ layers.drop b = layers := by
    rw [hbelow, List.take_append_drop]
  have hjoin : renderList A target cw ch (layers.take a ++ (layers.take b).drop a) none acc = _ := renderList_append _ _ none acc
  rw [hbelow, hlength] at hjoin
  rw [hjoin]
  refine renderList_congr_base (fun hvisible => ?_) _
  have hreplay : replayBase A target cw ch (layers.take a).length (layers.take a ++ (layers.take b).drop a ++ layers.drop b)
      none = _ := replayBase_append hvisible _ _ none
  rw [hall, hlength, hbelow] at hreplay
  exact hreplay

end Stack

/-! ## The theorem -/

variable {C N : Type} (A : Arithmetic C N)

/-- From the lowest layer on, there is no clip base to replay. -/
theorem foldRange_zero (doc : PaintDoc) (target : Target) (b : Nat) (acc : Buffer C) :
    foldRange A doc target 0 b acc = renderList A target doc.width doc.height (doc.layers.take b) none acc := by
  rw [foldRange, List.drop_zero, replayBase]

/-- For every arithmetic of pixels, every document, every target and every accumulator, folding the layers up to an index and
then from that index up to another one leaves what folding them up to the other one leaves. -/
theorem foldRange_split (doc : PaintDoc) (target : Target) (acc : Buffer C) {a b : Nat} (hab : a ≤ b)
    (hb : b ≤ doc.layers.length) :
    foldRange A doc target a b (foldRange A doc target 0 a acc) = foldRange A doc target 0 b acc := by
  rw [foldRange_zero, foldRange_zero, foldRange]
  exact renderList_resumed doc.layers hab hb acc

/-! ## A clipping layer that became the base -/

/-- A raster layer of opaque black in the first row. -/
def stripe (id : String) (w : Nat) (visible clipping : Bool) : PaintLayer :=
  .leaf .raster
    { id, bounds := ⟨0, 0, 1, w⟩, opacity := 1, fillOpacity := none, blendMode := "normal", visible, clipping,
      pixels := some (blackRect w 1), mask := none, adjustType := none, params := [], colorOverlay := none, stroke := none,
      dropShadow := none }

/-- Above a hidden layer a clipping one without a base, which is drawn unconfined, and another one, which is clipped to it. -/
def promotedDoc : PaintDoc :=
  ⟨2, 1, [stripe "hidden" 2 false false, stripe "promoted" 1 true true, stripe "clipped" 2 true true]⟩

/-- The upper layer, folded on its own, stays clipped: the second pixel is clear. -/
theorem foldRange_split_promoted :
    foldRange nanArithmetic promotedDoc (fullTarget 2 1) 2 3
        (foldRange nanArithmetic promotedDoc (fullTarget 2 1) 0 2 fun _ => 0)
      = foldRange nanArithmetic promotedDoc (fullTarget 2 1) 0 3 (fun _ => 0) ∧
    foldRange nanArithmetic promotedDoc (fullTarget 2 1) 0 3 (fun _ => 0) 3 = 255 ∧
    foldRange nanArithmetic promotedDoc (fullTarget 2 1) 0 3 (fun _ => 0) 7 = 0 :=
  ⟨foldRange_split nanArithmetic promotedDoc (fullTarget 2 1) (fun _ => 0) (by decide) (by decide), by with_unfolding_all decide,
    by with_unfolding_all decide⟩

/-! ## Tiles -/

/-- A tile that is rendered from the active layer on is the crop of the image to its region, wherever the active layer lies. -/
theorem readTile_eq (doc : PaintDoc) (tileSize : Nat) (activeIndex : Int) (tx ty : Nat)
    (hwhole : DrawnAll WholeShadow doc.layers) :
    let tile := readTile A doc tileSize activeIndex tx ty
    let crop := renderRegion A doc (Rect.ofInt (tileRegion doc tileSize tx ty))
    tile.width = crop.width ∧ tile.height = crop.height ∧ ∀ i < tile.width * tile.height * 4, tile.data i = crop.data i := by
  have hinside : (tileRegion doc tileSize tx ty).Inside doc :=
    ⟨Int.natCast_nonneg _, Int.natCast_nonneg _, min_le_left _ _, min_le_left _ _⟩
  have ha : (max 0 (min activeIndex doc.layers.length)).toNat ≤ doc.layers.length := by omega
  unfold readTile renderRegion render
  generalize tileRegion doc tileSize tx ty = rect at hinside ⊢
  obtain ⟨htop, hleft, hbottom, hright⟩ := hinside
  simp only [clampRegion, Rect.ofInt, Int.floor_intCast, Int.ceil_intCast, max_eq_right htop, max_eq_right hleft,
    min_eq_right hbottom, min_eq_right hright]
  refine ⟨rfl, rfl, fun i hi => ?_⟩
  rw [foldRange_zero, foldRange, renderList_resumed doc.layers ha le_rfl, List.take_length]
  refine crop_eq ⟨htop, hleft, hbottom, hright⟩ (fun cx cy hcovers hcanvas => ?_) hi
  have hfull : Covers (fullTarget doc.width doc.height) cx cy := hcanvas
  rw [view_renderList hcovers ⟨hleft, htop⟩ hcanvas _ hwhole, view_renderList hfull ⟨le_refl _, le_refl _⟩ hcanvas _ hwhole]
  rfl

/-- The tile of the shadow, above a checkpoint that holds the background. -/
theorem readTile_eq_shadow :
    (readTile nanArithmetic (shadowDoc 1) 1 1 1 0).data 3
      = (renderRegion nanArithmetic (shadowDoc 1) (Rect.ofInt (tileRegion (shadowDoc 1) 1 1 0))).data 3 :=
  (readTile_eq nanArithmetic (shadowDoc 1) 1 1 1 0 shadowDoc_wholeShadow).2.2 3 (by decide)

end UniDocs.Psd
