import UniDocs.Psd.Composite

/-!
# Rendering a document

The stack of `render/composite.ts`, with its clip bases, and the rendering of a region by `render/region.ts`, which leaves out
the layers that cannot reach it.
-/

/-!
## Layer effects

The stroke and the drop shadow of `render/composite.ts`. A stroke paints the places of the pixel buffer that are near the edge
of its shape, by a distance transform of the buffer; a shadow paints the shape at an offset, blurred by a box. Neither
transform depends on the rectangle that is rendered.
-/

namespace UniDocs.Psd

open Lib

variable {C N : Type} (A : Arithmetic C N)

def round (x : ℚ) : Int := ⌊x + 1 / 2⌋

/-! ## Stroke -/

/-- The distance at a place, and beyond the buffer. -/
def distanceAt (w h : Nat) (oob : Int) (d : Nat → Int) (x y : Int) : Int :=
  if 0 ≤ x ∧ x < w ∧ 0 ≤ y ∧ y < h then d (y * w + x).toNat else oob

/-- The distance at a place is lowered to what its neighbours on one side allow. -/
def relax (w h : Nat) (oob : Int) (side : Int) (x y : Int) (d : Nat → Int) : Nat → Int :=
  let i := (y * w + x).toNat
  let near := distanceAt w h oob d
  let v := min (d i) (min (near (x - side) y + 3) (min (near x (y - side) + 3)
    (min (near (x - side) (y - side) + 4) (near (x + side) (y - side) + 4))))
  fun j => if j = i then v else d j

/-- `chamferDist`: for each pixel, three times the distance to the nearest one that is zero. -/
def chamferDist (w h : Nat) (isZero : Nat → Bool) (oobIsZero : Bool) : Nat → Int :=
  let oob : Int := if oobIsZero then 0 else 2 ^ 29
  let start : Nat → Int := fun i => if isZero i then 0 else 2 ^ 29
  let forward := forRange 0 h (fun y => forRange 0 w fun x => relax w h oob 1 x y) start
  forRange 0 h (fun y => forRange 0 w fun x => relax w h oob (-1) (w - 1 - x) (h - 1 - y)) forward

/-- A pixel belongs to the shape of a layer. -/
def solid (px : Pixels) (i : Nat) : Bool := (px.data[i * 4 + 3]?).any fun v => 128 ≤ v

/-- The pixel lies in the band of a stroke. -/
def strokeHit (st : Stroke) (px : Pixels) (i : Nat) : Bool :=
  let inside := chamferDist px.width px.height (fun i => !solid px i) true
  let outside := chamferDist px.width px.height (fun i => solid px i) false
  let band : ℚ := match st.position with
    | .center => max 1 (round (st.size / 2)) * 3
    | _ => st.size * 3
  match st.position with
  | .inside => solid px i && decide ((inside i : ℚ) ≤ band)
  | .outside => !solid px i && decide ((outside i : ℚ) ≤ band)
  | .center => if solid px i then decide ((inside i : ℚ) ≤ band) else decide ((outside i : ℚ) ≤ band)

/-- The colour of an effect. -/
def effectColor (color : Rgb ℚ) : Rgb N := ⟨A.number (color.r / 255), A.number (color.g / 255), A.number (color.b / 255)⟩

def strokeEffect (target : Target) (cw : Nat) (layer : Paint) (st : Stroke) (px : Pixels) (clip : Option (Buffer C))
    (acc : Buffer C) : Buffer C :=
  let top := layer.bounds.top
  let left := layer.bounds.left
  let base := A.mul (A.number layer.opacity) (A.number st.opacity)
  forRange (max 0 (target.originY - top)) (min px.height (target.originY - top + target.height)) (fun y =>
    forRange (max 0 (target.originX - left)) (min px.width (target.originX - left + target.width)) fun x acc =>
      let cy := top + y
      let cx := left + x
      if strokeHit st px (y * px.width + x).toNat then
        let sa := withClip A cw clip cx cy (withMask A layer.mask cx cy base)
        if A.isZero sa then acc
        else compositeAt A target.size st.blendMode (effectColor A st.color) sa
          (((cy - target.originY) * target.width + (cx - target.originX)) * 4) acc
      else acc) acc

/-! ## Typed arrays of numbers -/

/-- An element of a `Float32Array`; there is none between two elements or beyond them. -/
def readElement (length : Nat) (values : Nat → N) (i : ℚ) : N :=
  if i.den = 1 ∧ 0 ≤ i ∧ i < length then values i.num.toNat else A.nan

/-- An element of a `Float32Array` is written, if there is one. -/
def writeElement (length : Nat) (values : Nat → N) (i : ℚ) (v : N) : Nat → N :=
  if i.den = 1 ∧ 0 ≤ i ∧ i < length then fun j => if j = i.num.toNat then A.single v else values j else values

/-! ## Box blur -/

/-- One direction of the box blur: the lines are numbered by the first argument of `place`. -/
def blurLines (length : Nat) (outer inner : ℚ) (place : ℚ → ℚ → ℚ) (rad : Int) (a : Nat → N) : Nat → N :=
  let read := readElement A length a
  forRange 0 ⌈outer⌉ (fun line out =>
    let sum := forRange (-rad) (rad + 1) (fun x sum => A.add sum (read (place line (min (inner - 1) (max 0 x)))))
      (A.number 0)
    (forRange 0 ⌈inner⌉ (fun x (state : N × (Nat → N)) =>
      let out := writeElement A length state.2 (place line x) (A.div state.1 (A.number (2 * rad + 1)))
      let add := read (place line (min (inner - 1) (x + rad + 1)))
      let rem := read (place line (max 0 (x - rad)))
      (A.add state.1 (A.sub add rem), out)) (sum, out)).2) fun _ => A.number 0

/-- One pass over the rows and one over the columns. -/
def blurPass (length : Nat) (w h : ℚ) (rad : Int) (a : Nat → N) : Nat → N :=
  blurLines A length w h (fun x y => y * w + x) rad (blurLines A length h w (fun y x => y * w + x) rad a)

def boxBlurAlpha (length : Nat) (src : Nat → N) (w h r : ℚ) : Nat → N :=
  let rad := max 1 (round r)
  blurPass A length w h rad (blurPass A length w h rad src)

/-! ## Drop shadow -/

/-- `put`: a sample of a shadow is composited at a place of the canvas. -/
def putShadow (target : Target) (cw ch : Nat) (ds : DropShadow) (base : N) (clip : Option (Buffer C)) (tx ty : ℚ) (a : N)
    (acc : Buffer C) : Buffer C :=
  let column := tx - target.originX
  let row := ty - target.originY
  if A.notPositive a ∨ column < 0 ∨ (target.width : ℚ) ≤ column ∨ row < 0 ∨ (target.height : ℚ) ≤ row then acc
  else
    let sa := match clip with
      | some clip => A.mul (A.mul a base) (readElement A (cw * ch) (fun i => A.fraction (clip i)) (ty * cw + tx))
      | none => A.mul a base
    if A.notPositive sa then acc
    else
      let di := (row * target.width + column) * 4
      -- between two channels nothing is read and nothing is written
      if di.den = 1 then compositeAt A target.size ds.blendMode (effectColor A ds.color) sa di.num acc else acc

/-- The coverage of a pixel of the layer that casts a shadow. -/
def shadowAlpha (cw ch : Nat) (layer : Paint) (px : Pixels) (x y : Int) : N :=
  let cx := layer.bounds.left + x
  let cy := layer.bounds.top + y
  let a := A.ofByte px.data[((y * px.width + x) * 4 + 3).toNat]?
  if 0 ≤ cx ∧ cx < cw ∧ 0 ≤ cy ∧ cy < ch then withMask A layer.mask cx cy a else a

/-- The coverage of the layer in a buffer with a margin, blurred. -/
def blurredShadow (cw ch : Nat) (layer : Paint) (ds : DropShadow) (px : Pixels) : Nat × (Nat → N) :=
  let m := ds.size
  let bw := px.width + 2 * m
  let bh := px.height + 2 * m
  let length := ⌊bw * bh⌋.toNat
  let alpha := forRange 0 px.height (fun y => forRange 0 px.width fun x (alpha : Nat → N) =>
    if A.notPositive (A.ofByte px.data[((y * px.width + x) * 4 + 3).toNat]?) then alpha
    else writeElement A length alpha ((y + m) * bw + (x + m)) (shadowAlpha A cw ch layer px x y)) fun _ => A.number 0
  (length, boxBlurAlpha A length alpha bw bh m)

def dropShadowEffect (target : Target) (cw ch : Nat) (layer : Paint) (ds : DropShadow) (px : Pixels)
    (clip : Option (Buffer C)) (acc : Buffer C) : Buffer C :=
  let top := layer.bounds.top
  let left := layer.bounds.left
  let (dx, dy) := A.shadowOffset ds.angle ds.distance
  let base := A.mul (A.number layer.opacity) (A.number ds.opacity)
  if ds.size ≤ 0 then
    forRange (max 0 (target.originY - top - dy)) (min px.height (target.originY - top - dy + target.height)) (fun y =>
      forRange (max 0 (target.originX - left - dx)) (min px.width (target.originX - left - dx + target.width)) fun x acc =>
        if A.notPositive (A.ofByte px.data[((y * px.width + x) * 4 + 3).toNat]?) then acc
        else putShadow A target cw ch ds base clip (left + x + dx) (top + y + dy) (shadowAlpha A cw ch layer px x y) acc) acc
  else
    let m := ds.size
    let bw := px.width + 2 * m
    let bh := px.height + 2 * m
    let (length, blurred) := blurredShadow A cw ch layer ds px
    forFrom (max 0 (target.originY - top + m - dy)) (min bh (target.originY - top + m - dy + target.height)) (fun ly =>
      forFrom (max 0 (target.originX - left + m - dx)) (min bw (target.originX - left + m - dx + target.width)) fun lx acc =>
        let a := readElement A length blurred (ly * bw + lx)
        if A.notPositive a then acc
        else putShadow A target cw ch ds base clip (left - m + lx + dx) (top - m + ly + dy) a acc) acc

end UniDocs.Psd

namespace UniDocs.Psd

open Lib

variable {C N : Type} (A : Arithmetic C N)

/-! ## The stack -/

/-- `nextVisible`, in the layers that follow. -/
def nextVisible (layers : List PaintLayer) : Option PaintLayer := layers.find? fun layer => layer.paint.visible

/-- The next visible layer is a clipping one. -/
def nextClips (layers : List PaintLayer) : Bool := (nextVisible layers).any fun layer => layer.paint.clipping

/-- The pixels of a layer with its effects: the shadow behind the fill, the stroke over it. -/
def applyPixels (target : Target) (cw ch : Nat) (layer : Paint) (px : Pixels) (clip : Option (Buffer C)) (acc : Buffer C) :
    Buffer C :=
  let behind := match layer.dropShadow with
    | some ds => dropShadowEffect A target cw ch layer ds px clip acc
    | none => acc
  let draw (opacity : N) := compositeBuffer A target cw (pixelSource A px) px.width px.height layer.bounds.left
    layer.bounds.top opacity layer.blendMode layer.mask clip layer.colorOverlay behind
  let filled := match layer.colorOverlay with
    | some _ => draw (A.number layer.opacity)
    | none =>
      let fill := A.mul (A.number layer.opacity) (A.number (layer.fillOpacity.getD 1))
      if A.notPositive fill then behind else draw fill
  match layer.stroke with
  | some st => strokeEffect A target cw layer st px clip filled
  | none => filled

/-- A buffer of the target's size is composited over the target. -/
def compositeWhole (target : Target) (cw : Nat) (source : Buffer C) (layer : Paint) (clip : Option (Buffer C))
    (acc : Buffer C) : Buffer C :=
  compositeBuffer A target cw (bufferSource A source) target.width target.height target.originX target.originY
    (A.number layer.opacity) layer.blendMode layer.mask clip none acc

/-- `applyLayer` for a layer that is no group. -/
def applyLeaf (target : Target) (cw ch : Nat) (type : LeafType) (layer : Paint) (clip : Option (Buffer C)) (acc : Buffer C) :
    Buffer C :=
  if !layer.visible then acc
  else match type with
    | .adjustment =>
      match applyAdjustment A layer.adjustType layer.params acc with
      | some adjusted => compositeWhole A target cw adjusted layer clip acc
      | none => acc
    | _ =>
      match layer.pixels with
      | some px => applyPixels A target cw ch layer px clip acc
      | none => acc

/-- The clip coverage of one place: the alpha of a layer under its mask. -/
def coverage (layer : Paint) (cx cy : Int) (alpha : N) : C := A.store (withMask A layer.mask cx cy alpha)

/-- `layerAlpha` for a group, from what its children render to. -/
def groupAlpha (target : Target) (w h : Nat) (layer : Paint) (sub : Buffer C) : Buffer C :=
  forRange 0 target.height (fun y => forRange 0 target.width fun x cov =>
    let cy := target.originY + y
    let cx := target.originX + x
    if 0 ≤ cx ∧ cx < w ∧ 0 ≤ cy ∧ cy < h then
      fun j => if j = (cy * w + cx).toNat then
        coverage A layer cx cy (A.fraction (sub ((y * target.width + x) * 4 + 3).toNat)) else cov j
    else cov) fun _ => A.clear

/-- `layerAlpha` for a layer with pixels. -/
def pixelsAlpha (target : Target) (w h : Nat) (layer : Paint) (px : Pixels) : Buffer C :=
  let top := layer.bounds.top
  let left := layer.bounds.left
  forRange (max 0 (target.originY - top)) (min px.height (min (h - top) (target.originY + target.height - top))) (fun y =>
    forRange (max 0 (target.originX - left)) (min px.width (min (w - left) (target.originX + target.width - left))) fun x cov =>
      fun j => if j = ((top + y) * w + (left + x)).toNat then
        coverage A layer (left + x) (top + y) (A.ofByte px.data[((y * px.width + x) * 4 + 3).toNat]?) else cov j)
    fun _ => A.clear

mutual

def applyLayer (target : Target) (cw ch : Nat) : PaintLayer → Option (Buffer C) → Buffer C → Buffer C
  | .leaf type layer, clip, acc => applyLeaf A target cw ch type layer clip acc
  | .group layer children, clip, acc =>
    if !layer.visible then acc
    else compositeWhole A target cw (renderList target cw ch children none fun _ => A.clear) layer clip acc

/-- `layerAlpha`; a layer without pixels has none. -/
def layerAlpha (target : Target) (cw ch : Nat) : PaintLayer → Option (Buffer C)
  | .leaf _ layer => layer.pixels.map fun px => pixelsAlpha A target cw ch layer px
  | .group layer children => some (groupAlpha A target cw ch layer (renderList target cw ch children none fun _ => A.clear))

/-- `renderList`, with the coverage of the clip base. -/
def renderList (target : Target) (cw ch : Nat) : List PaintLayer → Option (Buffer C) → Buffer C → Buffer C
  | [], _, acc => acc
  | layer :: layers, base, acc =>
    if !layer.paint.visible then renderList target cw ch layers (if layer.paint.clipping then base else none) acc
    else if layer.paint.clipping && base.isSome then
      renderList target cw ch layers base (applyLayer target cw ch layer base acc)
    else
      renderList target cw ch layers
        (if !layer.isAdjustment && nextClips layers then layerAlpha target cw ch layer else none)
        (applyLayer target cw ch layer none acc)

end

/-- A document: the size of its canvas, and its layers. -/
structure PaintDoc where
  width : Nat
  height : Nat
  layers : List PaintLayer

/-- An image. -/
structure Image (C : Type) where
  width : Nat
  height : Nat
  data : Buffer C

def render (doc : PaintDoc) : Image C where
  width := doc.width
  height := doc.height
  data := renderList A (fullTarget doc.width doc.height) doc.width doc.height doc.layers none fun _ => A.clear

/-- The rectangle of the canvas that a region covers. -/
def clampRegion (width height : Nat) (region : Rect ℚ) : Rect Int :=
  ⟨max 0 ⌊region.top⌋, max 0 ⌊region.left⌋, min height ⌈region.bottom⌉, min width ⌈region.right⌉⟩

/-- `renderRegion`: the image of the whole document is cropped. -/
def renderRegion (doc : PaintDoc) (region : Rect ℚ) : Image C :=
  let full := render A doc
  let rect := clampRegion full.width full.height region
  let w := (rect.right - rect.left).toNat
  let h := (rect.bottom - rect.top).toNat
  { width := w, height := h
    data := fun i => full.data (((rect.top.toNat + i / 4 / w) * full.width + (rect.left.toNat + i / 4 % w)) * 4 + i % 4) }

/-! ## Influence -/

namespace Rect

def union (a b : Rect ℚ) : Rect ℚ := ⟨min a.top b.top, min a.left b.left, max a.bottom b.bottom, max a.right b.right⟩

def grow (r : Rect ℚ) (m : ℚ) : Rect ℚ := ⟨r.top - m, r.left - m, r.bottom + m, r.right + m⟩

def shift (r : Rect ℚ) (dx dy : ℚ) : Rect ℚ := ⟨r.top + dy, r.left + dx, r.bottom + dy, r.right + dx⟩

def clamp (r : Rect ℚ) (w h : Nat) : Rect ℚ := ⟨max 0 r.top, max 0 r.left, min h r.bottom, min w r.right⟩

def ofInt (r : Rect Int) : Rect ℚ := ⟨r.top, r.left, r.bottom, r.right⟩

/-- Two rectangles meet; one without a place meets none. -/
def intersects (a b : Rect ℚ) : Bool :=
  if a.bottom ≤ a.top ∨ a.right ≤ a.left ∨ b.bottom ≤ b.top ∨ b.right ≤ b.left then false
  else decide (a.left < b.right ∧ b.left < a.right ∧ a.top < b.bottom ∧ b.top < a.bottom)

end Rect

/-- The rectangle of an adjustment: the bounds of a mask that hides what is outside them, or the canvas. -/
def adjustmentBounds (layer : Paint) (width height : Nat) : Rect ℚ :=
  match layer.mask with
  | some mask => if (mask.defaultColor = 0) ≠ (mask.inverted = true) then Rect.ofInt mask.bounds else ⟨0, 0, height, width⟩
  | none => ⟨0, 0, height, width⟩

/-- The rectangle of a layer, widened by its effects. -/
def effectBounds (layer : Paint) (r : Rect ℚ) : Rect ℚ :=
  let bounds := Rect.ofInt layer.bounds
  let stroked := match layer.stroke with
    | some st =>
      let m : ℚ := match st.position with
        | .outside => st.size
        | .center => ⌈st.size / 2⌉
        | .inside => 0
      if 0 < m then r.union (bounds.grow m) else r
    | none => r
  match layer.dropShadow with
  | some ds =>
    let (dx, dy) := A.shadowOffset ds.angle ds.distance
    stroked.union ((bounds.shift dx dy).grow (ds.size + ds.choke))
  | none => stroked

mutual

def layerInfluenceBounds (width height : Nat) : PaintLayer → Rect ℚ
  | .leaf .adjustment layer => (adjustmentBounds layer width height).clamp width height
  | .leaf _ layer => (effectBounds A layer (Rect.ofInt layer.bounds)).clamp width height
  | .group layer children =>
    (effectBounds A layer ((childBounds width height children none).getD (Rect.ofInt layer.bounds))).clamp width height

/-- The union of the rectangles of a list of layers with one that is there. -/
def childBounds (width height : Nat) : List PaintLayer → Option (Rect ℚ) → Option (Rect ℚ)
  | [], acc => acc
  | layer :: layers, acc =>
    let bounds := layerInfluenceBounds width height layer
    childBounds width height layers (some (match acc with
      | some acc => acc.union bounds
      | none => bounds))

end

/-! ## Regions -/

/-- The layers that `compositeInto` keeps. -/
def keptLayers (width height : Nat) (clipRegion : Rect ℚ) : List PaintLayer → List PaintLayer
  | [] => []
  | layer :: layers =>
    if layer.isAdjustment || nextClips layers || (layerInfluenceBounds A width height layer).intersects clipRegion then
      layer :: keptLayers width height clipRegion layers
    else keptLayers width height clipRegion layers

/-- `compositeInto`, into a new buffer. -/
def compositeInto (target : Target) (doc : PaintDoc) (clipRegion : Rect ℚ) : Buffer C :=
  renderList A target doc.width doc.height (keptLayers A doc.width doc.height clipRegion doc.layers) none fun _ => A.clear

def renderRegionDirect (doc : PaintDoc) (region : Rect ℚ) : Image C :=
  let rect := clampRegion doc.width doc.height region
  let w := (rect.right - rect.left).toNat
  let h := (rect.bottom - rect.top).toNat
  { width := w, height := h
    data := compositeInto A ⟨rect.left, rect.top, w, h⟩ doc (Rect.ofInt rect) }

end UniDocs.Psd

/-!
## Folding a range of layers

`foldRange`, `render/composite.ts`: the top-level layers between two indices are rendered over a running accumulator, which the
caller has filled with what the layers below them leave. The clip base of the first of them may be one of the layers below; it
is found by going through these layers as the renderer does, without drawing.
-/

namespace UniDocs.Psd

variable {C N : Type} (A : Arithmetic C N)

/-- The loop of `foldRange` over the layers below an index, each with the layers above it in the document: the coverage of the
clip base that they leave. -/
def replayBase (target : Target) (cw ch : Nat) : Nat → List PaintLayer → Option (Buffer C) → Option (Buffer C)
  | 0, _, base => base
  | _ + 1, [], base => base
  | below + 1, layer :: layers, base =>
    if !layer.paint.visible then replayBase target cw ch below layers (if layer.paint.clipping then base else none)
    else if layer.paint.clipping && base.isSome then replayBase target cw ch below layers base
    else
      replayBase target cw ch below layers
        (if !layer.isAdjustment && nextClips layers then layerAlpha A target cw ch layer else none)

/-- `foldRange`, for indices in their order that are not beyond the layers. -/
def foldRange (doc : PaintDoc) (target : Target) (fromIndex toIndex : Nat) (acc : Buffer C) : Buffer C :=
  renderList A target doc.width doc.height ((doc.layers.take toIndex).drop fromIndex)
    (replayBase A target doc.width doc.height fromIndex doc.layers none) acc

/-! ## Tiles -/

/-- The window of a rectangle. -/
def Rect.target (rect : Rect Int) : Target :=
  ⟨rect.left, rect.top, (rect.right - rect.left).toNat, (rect.bottom - rect.top).toNat⟩

/-- `tileRegion`, clipped to the canvas. -/
def tileRegion (doc : PaintDoc) (tileSize tx ty : Nat) : Rect Int :=
  ⟨ty * tileSize, tx * tileSize, min doc.height (ty * tileSize + tileSize), min doc.width (tx * tileSize + tileSize)⟩

/-- `readTile` where nothing is cached: the layers from the active one on are folded over those below it. -/
def readTile (doc : PaintDoc) (tileSize : Nat) (activeIndex : Int) (tx ty : Nat) : Image C :=
  let target := (tileRegion doc tileSize tx ty).target
  let a := (max 0 (min activeIndex doc.layers.length)).toNat
  { width := target.width, height := target.height
    data := foldRange A doc target a doc.layers.length (foldRange A doc target 0 a fun _ => A.clear) }

end UniDocs.Psd
