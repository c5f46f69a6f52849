import UniDocs.Psd.Render

/-!
# Pointing at layers

`layer-alpha.ts`: which layers are under a point of the canvas, judged from the alpha of their pixels without rendering. The
arithmetic of alpha is exact here. A candidate carries, besides its path of identifiers, its place in the tree, which nothing
reads.
-/

namespace UniDocs.Psd

open Lib

/-! ## Exact arithmetic -/

/-- The parts of an arithmetic that concern colours and the offset of a shadow. -/
structure Colours where
  blend : String → ℚ → ℚ → ℚ
  overlay : ColorOverlay → Rgb ℚ → Rgb ℚ
  adjust : Option String → List (String × Value) → Option (Rgb ℚ → Rgb ℚ)
  shadowOffset : ℚ → ℚ → Int × Int

/-- `compositeOverInto`. -/
def exactOver (blend : ℚ → ℚ → ℚ) (dst src : Rgba ℚ) : Rgba ℚ :=
  let ao := src.a + dst.a * (1 - src.a)
  if ao = 0 then ⟨0, 0, 0, 0⟩
  else
    let channel (cb cs : ℚ) := (src.a * ((1 - dst.a) * cs + dst.a * blend cb cs) + (1 - src.a) * dst.a * cb) / ao
    ⟨channel dst.r src.r, channel dst.g src.g, channel dst.b src.b, ao⟩

/-- Exact numbers, and channels that are clamped but not rounded. -/
def exactArithmetic (colours : Colours) : Arithmetic ℚ ℚ where
  clear := 0
  fraction := id
  byte v := v.toNat / 255
  store v := max 0 (min 1 v)
  number := id
  shadowOffset := colours.shadowOffset
  nan := 0
  mul := (· * ·)
  add := (· + ·)
  sub := (· - ·)
  div := (· / ·)
  single := id
  isZero v := decide (v = 0)
  notPositive v := decide (v ≤ 0)
  compositeOver mode := exactOver (colours.blend mode)
  overlay := colours.overlay
  adjust := colours.adjust
  Ordinary _ := True
  ordinary_fraction _ := trivial
  ordinary_byte _ := trivial
  ordinary_number _ := trivial
  ordinary_mul _ _ := trivial
  isZero_clear := rfl
  isZero_mul := by
    intro a b ha _
    rw [decide_eq_true_eq] at ha ⊢
    rw [ha, zero_mul]

/-! ## Alpha at a point -/

variable (A : Arithmetic ℚ ℚ) (resident : Paint → Option Pixels)

/-- The alpha of the pixels of a layer at a place of the canvas. -/
def pixelAlphaAt (layer : Paint) (cx cy : Int) : ℚ :=
  if cx < layer.bounds.left ∨ layer.bounds.right ≤ cx ∨ cy < layer.bounds.top ∨ layer.bounds.bottom ≤ cy then 0
  else match resident layer with
    | some px =>
      let ix := cx - layer.bounds.left
      let iy := cy - layer.bounds.top
      if ix < 0 ∨ iy < 0 ∨ px.width ≤ ix ∨ px.height ≤ iy then 0
      else A.ofByte px.data[((iy * px.width + ix) * 4 + 3).toNat]?
    | none => 0

/-- The alpha of a layer under its mask, and under its opacities unless only its shape counts. -/
def maskedAlpha (layer : Paint) (cx cy : Int) (shapeOnly : Bool) (a : ℚ) : ℚ :=
  if a ≤ 0 then 0
  else
    let a := withMask A layer.mask cx cy a
    if shapeOnly then a else a * layer.opacity * layer.fillOpacity.getD 1

mutual

/-- `alphaAt`, at a place of the canvas. -/
def alphaAt (cx cy : Int) : PaintLayer → Bool → ℚ
  | .leaf type layer, shapeOnly =>
    if type = .adjustment then 0 else maskedAlpha A layer cx cy shapeOnly (pixelAlphaAt A resident layer cx cy)
  | .group layer children, shapeOnly => maskedAlpha A layer cx cy shapeOnly (childAlpha cx cy children 0)

/-- The greatest alpha of the visible layers of a list, once it is 1 without looking further. -/
def childAlpha (cx cy : Int) : List PaintLayer → ℚ → ℚ
  | [], a => a
  | child :: children, a =>
    if !child.paint.visible then childAlpha cx cy children a
    else
      let a := max a (alphaAt cx cy child false)
      if 1 ≤ a then a else childAlpha cx cy children a

end

/-- `maxAlpha`, from the best alpha so far. -/
def maxAlpha (layer : PaintLayer) (shapeOnly : Bool) : List (ℚ × ℚ) → ℚ → ℚ
  | [], best => best
  | (x, y) :: points, best =>
    let best := max best (alphaAt A resident ⌊x⌋ ⌊y⌋ layer shapeOnly)
    if 1 ≤ best then best else maxAlpha layer shapeOnly points best

/-! ## Clip bases -/

/-- One round of `clipBaseFor`. -/
def clipBaseStep (base : Option PaintLayer) (layer : PaintLayer) : Option PaintLayer :=
  if !layer.paint.visible then if layer.paint.clipping then base else none
  else if layer.paint.clipping && base.isSome then base
  else if layer.isAdjustment then none else some layer

def clipBaseFor (layers : List PaintLayer) (i : Nat) : Option PaintLayer := (layers.take i).foldl clipBaseStep none

/-! ## Candidates -/

/-- `HitCandidate`, with its place in the tree. -/
structure HitCandidate where
  layerId : String
  path : List String
  place : List Nat
  deriving DecidableEq, Repr

def maxCandidates : Nat := 8

/-- The alpha of the clip base of a layer where it has one; a layer whose base shows nothing is passed over. -/
def confinement (points : List (ℚ × ℚ)) (layers : List PaintLayer) (i : Nat) (layer : PaintLayer) : Option ℚ :=
  if layer.paint.clipping then
    match clipBaseFor layers i with
    | some base =>
      let confine := maxAlpha A resident base true points 0
      if confine ≤ 0 then none else some confine
    | none => some 1
  else some 1

/-- The layer at an index of a list of siblings is one of those pointed at. -/
def isHit (points : List (ℚ × ℚ)) (threshold : ℚ) (layers : List PaintLayer) (i : Nat) (layer : PaintLayer) : Bool :=
  if !layer.paint.visible || layer.isAdjustment then false
  else match confinement A resident points layers i layer with
    | some confine => decide (threshold ≤ maxAlpha A resident layer false points 0 * confine)
    | none => false

mutual

/-- A layer that is pointed at is put on the list, or the layers of a group. -/
def hitLayer (points : List (ℚ × ℚ)) (threshold : ℚ) : PaintLayer → List String → List Nat → List HitCandidate →
    List HitCandidate
  | .leaf _ layer, path, place, out => out ++ [⟨layer.id, path ++ [layer.id], place⟩]
  | .group layer children, path, place, out => hitSiblings points threshold children children 0 (path ++ [layer.id]) place out

/-- The loop of `hitInList` over the layers from an index on, the topmost first. -/
def hitSiblings (points : List (ℚ × ℚ)) (threshold : ℚ) (layers : List PaintLayer) : List PaintLayer → Nat → List String →
    List Nat → List HitCandidate → List HitCandidate
  | [], _, _, _, out => out
  | layer :: above, i, path, place, out =>
    let out := hitSiblings points threshold layers above (i + 1) path place out
    if out.length < maxCandidates && isHit A resident points threshold layers i layer then
      hitLayer points threshold layer path (place ++ [i]) out
    else out

end

end UniDocs.Psd
