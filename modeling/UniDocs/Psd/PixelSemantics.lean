import UniDocs.Psd.Render

/-!
# What a layer does to a pixel

The compositor seen at one pixel of the canvas: each layer maps the pixel below it to a new one, whatever rectangle is being
rendered. A clip is known by its channel at the pixel.
-/

namespace UniDocs.Psd

variable {C N : Type} (A : Arithmetic C N)

/-- The pixel of a new buffer. -/
def clearRgba : Rgba C := ⟨A.clear, A.clear, A.clear, A.clear⟩

/-- A source with its coverage over a pixel. -/
def overPixel (mode : String) (source : Rgb N) (sa : N) (p : Rgba C) : Rgba C :=
  let out := A.compositeOver mode ⟨A.fraction p.r, A.fraction p.g, A.fraction p.b, A.fraction p.a⟩
    ⟨source.r, source.g, source.b, sa⟩
  ⟨A.store out.r, A.store out.g, A.store out.b, A.store out.a⟩

/-- The coverage under a clip, where there is one. -/
def clipped (clip : Option C) (sa : N) : N :=
  match clip with
  | some clip => A.mul sa (A.fraction clip)
  | none => sa

/-- A place of a rectangle of pixels that starts at an offset. -/
def InWindow (cx cy ox oy : Int) (w h : Nat) : Prop := (0 ≤ cx - ox ∧ cx - ox < w) ∧ 0 ≤ cy - oy ∧ cy - oy < h

instance (cx cy ox oy : Int) (w h : Nat) : Decidable (InWindow cx cy ox oy w h) := inferInstanceAs (Decidable (_ ∧ _))

variable (cx cy : Int)

/-- `compositeBuffer` at a pixel. -/
def paintBuffer (source : Source N) (sw sh : Nat) (ox oy : Int) (opacity : N) (mode : String) (mask : Option Mask)
    (clip : Option C) (overlay : Option ColorOverlay) (p : Rgba C) : Rgba C :=
  if InWindow cx cy ox oy sw sh then
    let si := (((cy - oy) * sw + (cx - ox)) * 4).toNat
    let sa := clipped A clip (withMask A mask cx cy (A.mul (source (si + 3)) opacity))
    if A.isZero sa then p else overPixel A mode (sourceColor A source si overlay) sa p
  else p

/-- `strokeEffect` at a pixel. -/
def paintStroke (layer : Paint) (st : Stroke) (px : Pixels) (clip : Option C) (p : Rgba C) : Rgba C :=
  if InWindow cx cy layer.bounds.left layer.bounds.top px.width px.height then
    if strokeHit st px ((cy - layer.bounds.top) * px.width + (cx - layer.bounds.left)).toNat then
      let sa := clipped A clip (withMask A layer.mask cx cy (A.mul (A.number layer.opacity) (A.number st.opacity)))
      if A.isZero sa then p else overPixel A st.blendMode (effectColor A st.color) sa p
    else p
  else p

/-- A sample of a shadow over a pixel. -/
def paintSample (ds : DropShadow) (base : N) (clip : Option C) (a : N) (p : Rgba C) : Rgba C :=
  if A.notPositive a then p
  else
    let sa := clipped A clip (A.mul a base)
    if A.notPositive sa then p else overPixel A ds.blendMode (effectColor A ds.color) sa p

/-- `dropShadowEffect` at a pixel, for a blur of whole pixels. -/
def paintShadow (cw ch : Nat) (layer : Paint) (ds : DropShadow) (px : Pixels) (clip : Option C) (p : Rgba C) : Rgba C :=
  let (dx, dy) := A.shadowOffset ds.angle ds.distance
  let base := A.mul (A.number layer.opacity) (A.number ds.opacity)
  if ds.size ≤ 0 then
    let ox := layer.bounds.left + dx
    let oy := layer.bounds.top + dy
    if InWindow cx cy ox oy px.width px.height then
      if A.notPositive (A.ofByte px.data[(((cy - oy) * px.width + (cx - ox)) * 4 + 3).toNat]?) then p
      else paintSample A ds base clip (shadowAlpha A cw ch layer px (cx - ox) (cy - oy)) p
    else p
  else
    let m := ds.size.num.toNat
    let ox := layer.bounds.left - m + dx
    let oy := layer.bounds.top - m + dy
    let bw := px.width + 2 * m
    if InWindow cx cy ox oy bw (px.height + 2 * m) then
      let (length, blurred) := blurredShadow A cw ch layer ds px
      paintSample A ds base clip (readElement A length blurred (((cy - oy) * bw + (cx - ox) : Int) : ℚ)) p
    else p

/-- The pixels of a layer with its effects, at a pixel. -/
def paintPixels (cw ch : Nat) (layer : Paint) (px : Pixels) (clip : Option C) (p : Rgba C) : Rgba C :=
  let behind := match layer.dropShadow with
    | some ds => paintShadow A cx cy cw ch layer ds px clip p
    | none => p
  let draw (opacity : N) := paintBuffer A cx cy (pixelSource A px) px.width px.height layer.bounds.left layer.bounds.top
    opacity layer.blendMode layer.mask clip layer.colorOverlay behind
  let filled := match layer.colorOverlay with
    | some _ => draw (A.number layer.opacity)
    | none =>
      let fill := A.mul (A.number layer.opacity) (A.number (layer.fillOpacity.getD 1))
      if A.notPositive fill then behind else draw fill
  match layer.stroke with
  | some st => paintStroke A cx cy layer st px clip filled
  | none => filled

/-- A pixel of a buffer of the same size over a pixel. -/
def paintWhole (source : Rgba C) (layer : Paint) (clip : Option C) (p : Rgba C) : Rgba C :=
  let sa := clipped A clip (withMask A layer.mask cx cy (A.mul (A.fraction source.a) (A.number layer.opacity)))
  if A.isZero sa then p
  else overPixel A layer.blendMode ⟨A.fraction source.r, A.fraction source.g, A.fraction source.b⟩ sa p

/-- A layer that is no group, at a pixel. -/
def paintLeaf (cw ch : Nat) (type : LeafType) (layer : Paint) (clip : Option C) (p : Rgba C) : Rgba C :=
  if !layer.visible then p
  else match type with
    | .adjustment =>
      match A.adjust layer.adjustType layer.params with
      | some f =>
        let out := f ⟨p.r, p.g, p.b⟩
        paintWhole A cx cy ⟨out.r, out.g, out.b, p.a⟩ layer clip p
      | none => p
    | _ =>
      match layer.pixels with
      | some px => paintPixels A cx cy cw ch layer px clip p
      | none => p

/-- The clip coverage of a layer with pixels. -/
def pixelsCoverage (layer : Paint) (px : Pixels) : C :=
  if InWindow cx cy layer.bounds.left layer.bounds.top px.width px.height then
    coverage A layer cx cy
      (A.ofByte px.data[(((cy - layer.bounds.top) * px.width + (cx - layer.bounds.left)) * 4 + 3).toNat]?)
  else A.clear

mutual

/-- A layer, at a pixel. -/
def paintLayer (cw ch : Nat) : PaintLayer → Option C → Rgba C → Rgba C
  | .leaf type layer, clip, p => paintLeaf A cx cy cw ch type layer clip p
  | .group layer children, clip, p =>
    if !layer.visible then p else paintWhole A cx cy (paintList cw ch children none (clearRgba A)) layer clip p

/-- The coverage of a layer as a clip base, at a pixel. -/
def baseAt (cw ch : Nat) : PaintLayer → Option C
  | .leaf _ layer => layer.pixels.map fun px => pixelsCoverage A cx cy layer px
  | .group layer children => some (coverage A layer cx cy (A.fraction (paintList cw ch children none (clearRgba A)).a))

/-- A list of layers, at a pixel. -/
def paintList (cw ch : Nat) : List PaintLayer → Option C → Rgba C → Rgba C
  | [], _, p => p
  | layer :: layers, base, p =>
    if !layer.paint.visible then paintList cw ch layers (if layer.paint.clipping then base else none) p
    else if layer.paint.clipping && base.isSome then paintList cw ch layers base (paintLayer cw ch layer base p)
    else
      paintList cw ch layers (if !layer.isAdjustment && nextClips layers then baseAt cw ch layer else none)
        (paintLayer cw ch layer none p)

end

end UniDocs.Psd
