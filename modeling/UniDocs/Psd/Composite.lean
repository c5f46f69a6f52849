import UniDocs.Lib.Loops
import UniDocs.Lib.Tree
import UniDocs.Psd.Layer

/-!
# Compositing layers

`render/composite.ts`: the layers of a document are folded, from the bottom to the top, into a buffer that covers a rectangle
of the canvas. The numbers of the compositor and the channels of its buffers are those of an arithmetic; a typed array that is
read beyond its elements, or between them, gives `undefined`, and a write there is dropped.
-/

namespace UniDocs.Psd

open Lib

/-! ## What is rendered of a layer -/

/-- Three channels of a colour. -/
structure Rgb (α : Type) where
  r : α
  g : α
  b : α
  deriving DecidableEq, Repr

/-- The channels of a pixel. -/
structure Rgba (α : Type) where
  r : α
  g : α
  b : α
  a : α
  deriving DecidableEq, Repr

/-- `[top, left, bottom, right]`. -/
structure Rect (α : Type) where
  top : α
  left : α
  bottom : α
  right : α
  deriving DecidableEq, Repr

/-- `Pixels`, once they are in memory. -/
structure Pixels where
  width : Nat
  height : Nat
  data : List UInt8
  deriving DecidableEq, Repr

structure Mask where
  pixels : Pixels
  bounds : Rect Int
  defaultColor : UInt8
  inverted : Bool
  deriving DecidableEq, Repr

inductive StrokePosition where
  | inside
  | outside
  | center
  deriving DecidableEq, Repr

structure Stroke where
  color : Rgb ℚ
  opacity : ℚ
  size : ℚ
  position : StrokePosition
  blendMode : String
  deriving DecidableEq, Repr

structure DropShadow where
  color : Rgb ℚ
  opacity : ℚ
  blendMode : String
  angle : ℚ
  distance : ℚ
  size : ℚ
  choke : ℚ
  deriving DecidableEq, Repr

/-- The colour overlay of a layer. -/
structure ColorOverlay where
  color : Rgb ℚ
  opacity : ℚ
  deriving DecidableEq, Repr

/-- The type of a layer that is no group. -/
inductive LeafType where
  | raster
  | adjustment
  | fill
  | text
  | smartObject
  deriving DecidableEq, Repr

/-- The properties of a layer that rendering and pointing at it read; its bounds, and those of its mask, are whole numbers. -/
structure Paint where
  id : String
  bounds : Rect Int
  opacity : ℚ
  fillOpacity : Option ℚ
  blendMode : String
  visible : Bool
  clipping : Bool
  pixels : Option Pixels
  mask : Option Mask
  adjustType : Option String
  params : List (String × Value)
  colorOverlay : Option ColorOverlay
  stroke : Option Stroke
  dropShadow : Option DropShadow

/-- A layer: a group of layers, or a layer of another type. -/
inductive PaintLayer where
  | leaf (type : LeafType) (paint : Paint)
  | group (paint : Paint) (children : List PaintLayer)

namespace PaintLayer

def paint : PaintLayer → Paint
  | leaf _ paint => paint
  | group paint _ => paint

/-- The layer transforms what is below it. -/
def isAdjustment : PaintLayer → Bool
  | leaf .adjustment _ => true
  | _ => false

end PaintLayer

/-! ## Arithmetic -/

/-- The arithmetic of a compositor: numbers, and the channels that its clamped buffers store. A number that is zero makes a
product with any ordinary number zero. -/
structure Arithmetic (C N : Type) where
  /-- The channel of a new buffer. -/
  clear : C
  /-- `v / 255` of a stored channel. -/
  fraction : C → N
  /-- `v / 255` of a byte. -/
  byte : UInt8 → N
  /-- Storing `v * 255`. -/
  store : N → C
  number : ℚ → N
  /-- The offset of a shadow to the right and down, from its angle and its distance, each rounded. -/
  shadowOffset : ℚ → ℚ → Int × Int
  /-- The number that `undefined` becomes. -/
  nan : N
  mul : N → N → N
  add : N → N → N
  sub : N → N → N
  div : N → N → N
  /-- Storing a number in a `Float32Array`. -/
  single : N → N
  /-- `v === 0`. -/
  isZero : N → Bool
  /-- `v <= 0`. -/
  notPositive : N → Bool
  /-- A blend mode, the backdrop and the source. -/
  compositeOver : String → Rgba N → Rgba N → Rgba N
  /-- The colour of a source under a colour overlay. -/
  overlay : ColorOverlay → Rgb N → Rgb N
  /-- An adjustment of the colour of a pixel, where its type is supported. -/
  adjust : Option String → List (String × Value) → Option (Rgb C → Rgb C)
  Ordinary : N → Prop
  ordinary_fraction : ∀ v, Ordinary (fraction v)
  ordinary_byte : ∀ v, Ordinary (byte v)
  ordinary_number : ∀ v, Ordinary (number v)
  ordinary_mul : ∀ {a b}, Ordinary a → Ordinary b → Ordinary (mul a b)
  isZero_clear : isZero (fraction clear) = true
  isZero_mul : ∀ {a b}, isZero a = true → Ordinary b → isZero (mul a b) = true

variable {C N : Type} (A : Arithmetic C N)

/-- A byte of a document, read as a number between 0 and 1. -/
def Arithmetic.ofByte (v : Option UInt8) : N := (v.map A.byte).getD A.nan

/-! ## Buffers -/

/-- The channels of a buffer by their index. -/
abbrev Buffer (C : Type) : Type := Nat → C

/-- The rectangle of the canvas that a buffer covers. -/
structure Target where
  originX : Int
  originY : Int
  width : Nat
  height : Nat
  deriving DecidableEq, Repr

/-- The number of channels of a buffer. -/
def Target.size (target : Target) : Nat := target.width * target.height * 4

def fullTarget (cw ch : Nat) : Target := ⟨0, 0, cw, ch⟩

/-- A channel of a buffer as a number. -/
def readChannel (size : Nat) (acc : Buffer C) (i : Int) : N :=
  if 0 ≤ i ∧ i < size then A.fraction (acc i.toNat) else A.nan

/-- A channel of a buffer is written. -/
def writeChannel (size : Nat) (acc : Buffer C) (i : Int) (v : N) : Buffer C :=
  if 0 ≤ i ∧ i < size then fun j => if j = i.toNat then A.store v else acc j else acc

/-- A source with its coverage is composited over the four channels from an index on. -/
def compositeAt (size : Nat) (mode : String) (source : Rgb N) (sa : N) (di : Int) (acc : Buffer C) : Buffer C :=
  let out := A.compositeOver mode
    ⟨readChannel A size acc di, readChannel A size acc (di + 1), readChannel A size acc (di + 2),
      readChannel A size acc (di + 3)⟩
    ⟨source.r, source.g, source.b, sa⟩
  writeChannel A size (writeChannel A size (writeChannel A size (writeChannel A size acc di out.r) (di + 1) out.g)
    (di + 2) out.b) (di + 3) out.a

/-! ## Masks and clips -/

def maskCoverageAt (mask : Mask) (cx cy : Int) : N :=
  let v := if 0 < mask.pixels.width ∧ mask.bounds.left ≤ cx ∧ cx < mask.bounds.right ∧ mask.bounds.top ≤ cy
      ∧ cy < mask.bounds.bottom then
    mask.pixels.data[(((cy - mask.bounds.top) * mask.pixels.width + (cx - mask.bounds.left)) * 4).toNat]?
  else some mask.defaultColor
  A.ofByte (if mask.inverted then v.map fun v => 255 - v else v)

/-- The coverage under a mask, where there is one. -/
def withMask (mask : Option Mask) (cx cy : Int) (sa : N) : N :=
  match mask with
  | some mask => A.mul sa (maskCoverageAt A mask cx cy)
  | none => sa

/-- The coverage under a clip, a buffer over the canvas, where there is one. -/
def withClip (cw : Nat) (clip : Option (Buffer C)) (cx cy : Int) (sa : N) : N :=
  match clip with
  | some clip => A.mul sa (A.fraction (clip (cy * cw + cx).toNat))
  | none => sa

/-! ## Drawing a buffer -/

/-- A source of pixels: its channels by their index. -/
abbrev Source (N : Type) : Type := Nat → N

def pixelSource (px : Pixels) : Source N := fun i => A.ofByte px.data[i]?

def bufferSource (acc : Buffer C) : Source N := fun i => A.fraction (acc i)

/-- The colour of a source pixel, under an overlay if there is one. -/
def sourceColor (source : Source N) (si : Nat) (overlay : Option ColorOverlay) : Rgb N :=
  let color : Rgb N := ⟨source si, source (si + 1), source (si + 2)⟩
  match overlay with
  | some overlay => A.overlay overlay color
  | none => color

def compositeBuffer (target : Target) (cw : Nat) (source : Source N) (sw sh : Nat) (ox oy : Int) (opacity : N)
    (mode : String) (mask : Option Mask) (clip : Option (Buffer C)) (overlay : Option ColorOverlay) (acc : Buffer C) :
    Buffer C :=
  forRange (max 0 (target.originY - oy)) (min sh (target.originY - oy + target.height)) (fun y =>
    forRange (max 0 (target.originX - ox)) (min sw (target.originX - ox + target.width)) fun x acc =>
      let cy := oy + y
      let cx := ox + x
      let si := ((y * sw + x) * 4).toNat
      let sa := withClip A cw clip cx cy (withMask A mask cx cy (A.mul (source (si + 3)) opacity))
      if A.isZero sa then acc
      else compositeAt A target.size mode (sourceColor A source si overlay) sa
        (((cy - target.originY) * target.width + (cx - target.originX)) * 4) acc) acc

/-! ## Adjustments -/

/-- `applyAdjustment`: the colours of all pixels of a copy, where the type is supported. -/
def applyAdjustment (adjustType : Option String) (params : List (String × Value)) (acc : Buffer C) : Option (Buffer C) :=
  (A.adjust adjustType params).map fun f i =>
    let out := f ⟨acc (i / 4 * 4), acc (i / 4 * 4 + 1), acc (i / 4 * 4 + 2)⟩
    if i % 4 = 0 then out.r else if i % 4 = 1 then out.g else if i % 4 = 2 then out.b else acc i

end UniDocs.Psd
