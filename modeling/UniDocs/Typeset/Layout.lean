import Mathlib.Data.Rat.Defs
import UniDocs.Lib.Utf16

/-!
# The layout of a text layer

`text/layout.ts`, `text/font.ts` and the text of `model/types.ts`: the style of every code point, the lines with upper case
expanded, and the placed glyphs with the code points that no face has. Offsets and the lengths of runs count UTF-16 units.
The numbers are a parameter, so that nothing depends on how they round; a face is an object, told apart by the name it was
loaded under.
-/

namespace UniDocs.Typeset

open Lib (JsString)
open Lib.JsString (codePoints codePointsFrom fromCodePoint toUpperCase)

/-! ## Numbers -/

/-- What `ToIntegerOrInfinity` gives. -/
inductive IntegerOrInfinity where
  | integer (value : Int)
  | infinity (negative : Bool)
  deriving DecidableEq, Repr

/-- The numbers of the language, with the operations that the layout uses. -/
class Arithmetic (N : Type) extends Add N, Sub N, Mul N, Div N, Neg N where
  literal : ℚ → N
  lt : N → N → Bool
  eq : N → N → Bool
  toInteger : N → IntegerOrInfinity
  toText : N → String

open Arithmetic (literal lt)

variable {N : Type}

/-! ## The text of a layer -/

structure Rgb (N : Type) where
  r : N
  g : N
  b : N
  deriving DecidableEq, Repr

inductive Caps where
  | none
  | small
  | all
  deriving DecidableEq, Repr

structure LayerTextStyle (N : Type) where
  font : Option String := none
  size : Option N := none
  color : Option (Rgb N) := none
  tracking : Option N := none
  leading : Option N := none
  caps : Option Caps := none
  fauxBold : Option Bool := none
  fauxItalic : Option Bool := none
  horizontalScale : Option N := none
  verticalScale : Option N := none
  autoKerning : Option Bool := none
  kerning : Option N := none
  baselineShift : Option N := none
  underline : Option Bool := none
  strikethrough : Option Bool := none
  ligatures : Option Bool := none
  strokeColor : Option (Rgb N) := none
  strokeWidth : Option N := none
  deriving DecidableEq, Repr

inductive LayerJustification where
  | left
  | right
  | center
  | justifyLeft
  | justifyRight
  | justifyCenter
  | justifyAll
  deriving DecidableEq, Repr

structure LayerParagraphStyle (N : Type) where
  justification : Option LayerJustification := none
  firstLineIndent : Option N := none
  startIndent : Option N := none
  endIndent : Option N := none
  spaceBefore : Option N := none
  spaceAfter : Option N := none
  deriving DecidableEq, Repr

/-- `LayerTextRun` and `LayerParagraphRun`: a style for the next units. -/
structure LayerRun (N S : Type) where
  length : N
  style : S
  deriving DecidableEq, Repr

inductive TextUneditableReason where
  | warp
  | textPath
  | grid
  deriving DecidableEq, Repr

def TextUneditableReason.toText : TextUneditableReason → String
  | warp => "warp"
  | textPath => "text-path"
  | grid => "grid"

inductive Orientation where
  | horizontal
  | vertical
  deriving DecidableEq, Repr

structure LayerText (N : Type) where
  content : JsString
  style : Option (LayerTextStyle N) := none
  runs : Option (List (LayerRun N (LayerTextStyle N))) := none
  paragraphStyle : Option (LayerParagraphStyle N) := none
  paragraphRuns : Option (List (LayerRun N (LayerParagraphStyle N))) := none
  transform : Option (List N) := none
  boxBounds : Option (List N) := none
  orientation : Option Orientation := none
  uneditable : Option (List TextUneditableReason) := none
  deriving DecidableEq, Repr

/-- What is defined in a style, over another style. -/
def LayerTextStyle.over (run base : LayerTextStyle N) : LayerTextStyle N where
  font := run.font.or base.font
  size := run.size.or base.size
  color := run.color.or base.color
  tracking := run.tracking.or base.tracking
  leading := run.leading.or base.leading
  caps := run.caps.or base.caps
  fauxBold := run.fauxBold.or base.fauxBold
  fauxItalic := run.fauxItalic.or base.fauxItalic
  horizontalScale := run.horizontalScale.or base.horizontalScale
  verticalScale := run.verticalScale.or base.verticalScale
  autoKerning := run.autoKerning.or base.autoKerning
  kerning := run.kerning.or base.kerning
  baselineShift := run.baselineShift.or base.baselineShift
  underline := run.underline.or base.underline
  strikethrough := run.strikethrough.or base.strikethrough
  ligatures := run.ligatures.or base.ligatures
  strokeColor := run.strokeColor.or base.strokeColor
  strokeWidth := run.strokeWidth.or base.strokeWidth

def effectiveStyle : Option (LayerTextStyle N) → Option (LayerTextStyle N) → LayerTextStyle N
  | none, run => run.getD {}
  | some base, none => base
  | some base, some run => run.over base

/-! ## Faces -/

inductive PathCommand (N : Type) where
  | M (x y : N)
  | L (x y : N)
  | Q (x1 y1 x y : N)
  | C (x1 y1 x2 y2 x y : N)
  | Z

/-- `FontFace`, as far as the layout reads it. -/
structure FontFace (N : Type) where
  unitsPerEm : N
  has : Nat → Bool
  advance : Nat → N
  kerning : Nat → Nat → N
  outline : Nat → List (PathCommand N)

/-- A face that is loaded, with the name it was loaded under. -/
structure LoadedFace (N : Type) where
  name : String
  face : FontFace N

abbrev FaceResolver (N : Type) := Nat → Option String → Option (LoadedFace N)

structure PlacedGlyph (N : Type) where
  codePoint : Nat
  face : LoadedFace N
  x : N
  y : N
  size : N
  horizontalScale : N
  verticalScale : N
  color : Rgb N

structure InkBounds (N : Type) where
  left : N
  top : N
  right : N
  bottom : N

/-- `LayoutResult` of a text that is laid out. -/
structure Layout (N : Type) where
  glyphs : List (PlacedGlyph N)
  inkBounds : InkBounds N
  ignored : List String
  missing : List Nat

variable [Arithmetic N]

/-! ## Texts that are refused -/

def nonIdentityTransform : Option (List N) → Option (List N)
  | none => none
  | some transform =>
    match transform with
    | a :: b :: c :: d :: _ =>
      if Arithmetic.eq a (literal 1) && Arithmetic.eq b (literal 0) && Arithmetic.eq c (literal 0) &&
        Arithmetic.eq d (literal 1) then none else some transform
    | _ => some transform

def typesetRejection (text : LayerText N) : Option String :=
  if (text.uneditable.getD []).length > 0 then
    some ("text.uneditable is non-empty (" ++ ", ".intercalate ((text.uneditable.getD []).map TextUneditableReason.toText) ++
      ") — this layer uses a PSD text feature this typesetter cannot reproduce, so its words can only be repainted, " ++
      "not retyped")
  else if text.boxBounds.isSome then
    some ("text.boxBounds is present (paragraph text that re-flows inside a box) — this typesetter does not implement " ++
      "line breaking, so it cannot re-flow the paragraph")
  else if text.orientation = some .vertical then
    some "orientation is \"vertical\" — this typesetter lays out horizontally only"
  else
    match nonIdentityTransform text.transform with
    | some transform =>
      some ("text.transform has a non-identity linear part [" ++ ", ".intercalate (transform.map Arithmetic.toText) ++
        "] — the text is scaled, rotated or skewed. The typesetter lays text out at 1:1 and does not apply that matrix, " ++
        "so re-typesetting would silently resize or rotate the whole layer")
    | none => none

/-! ## The style of every character -/

structure CharStyle (N : Type) where
  codePoint : Nat
  style : LayerTextStyle N
  utf16Start : Nat

/-- The loop that gives the style of a run to units, as long as there are some left. -/
def fillRun (length : N) (style : LayerTextStyle N) : (left k : Nat) → List (LayerTextStyle N)
  | 0, _ => []
  | left + 1, k => if lt (literal k) length then style :: fillRun length style left (k + 1) else []

/-- The loop over the runs; the units behind them have the style of the layer. -/
def fillRuns (base : Option (LayerTextStyle N)) : (left : Nat) → List (LayerRun N (LayerTextStyle N)) → List (LayerTextStyle N)
  | left, [] => List.replicate left (base.getD {})
  | left, run :: runs =>
    let filled := fillRun run.length (effectiveStyle base (some run.style)) left 0
    filled ++ fillRuns base (left - filled.length) runs

def perUnit (text : LayerText N) : List (LayerTextStyle N) :=
  match text.runs with
  | some (run :: runs) => fillRuns text.style text.content.length (run :: runs)
  | _ => List.replicate text.content.length (text.style.getD {})

def resolveCharStyles (text : LayerText N) : List (CharStyle N) :=
  (codePointsFrom 0 text.content).map fun (codePoint, i) => ⟨codePoint, (perUnit text).getD i {}, i⟩

/-! ## Lines -/

def NEWLINE : Nat := 10

structure GlyphUnit (N : Type) where
  codePoint : Nat
  style : LayerTextStyle N
  effectiveSize : N

structure Line (N : Type) where
  units : List (GlyphUnit N)
  startOffset : Nat

/-- The style has its text in upper case. -/
def LayerTextStyle.changesCase (style : LayerTextStyle N) : Bool := style.caps = some .all || style.caps = some .small

/-- The units of a character that is not a line break. -/
def glyphUnits (upper : Char → List Char) (char : CharStyle N) : List (GlyphUnit N) :=
  let baseSize := char.style.size.getD (literal 12)
  if char.style.changesCase then
    let original := fromCodePoint char.codePoint
    let raised := toUpperCase upper original
    let effectiveSize := if char.style.caps = some .small && original ≠ raised then baseSize * literal (7 / 10) else baseSize
    (codePoints raised).map fun codePoint => ⟨codePoint, char.style, effectiveSize⟩
  else [⟨char.codePoint, char.style, baseSize⟩]

/-- One step of the loop that splits into lines, on the lines that are closed and the one that is open. -/
def addChar (upper : Char → List Char) (lines : List (Line N) × Line N) (char : CharStyle N) : List (Line N) × Line N :=
  if char.codePoint = NEWLINE then (lines.1 ++ [lines.2], ⟨[], char.utf16Start + 1⟩)
  else (lines.1, { lines.2 with units := lines.2.units ++ glyphUnits upper char })

def splitIntoLines (upper : Char → List Char) (chars : List (CharStyle N)) : List (Line N) :=
  let lines := chars.foldl (addChar upper) ([], ⟨[], (chars.head?.map CharStyle.utf16Start).getD 0⟩)
  lines.1 ++ [lines.2]

def lineLeading : List (GlyphUnit N) → N
  | [] => literal 12 * literal (6 / 5)
  | units =>
    units.foldl (fun max unit =>
      let leading := unit.style.leading.getD (unit.style.size.getD (literal 12) * literal (6 / 5))
      if lt max leading then leading else max) (literal 0)

/-! ## Justification -/

inductive Justification where
  | left
  | right
  | center
  deriving DecidableEq, Repr

def normalizeJustification (raw : Option LayerJustification) : Justification :=
  match raw.getD .left with
  | .left | .justifyLeft | .justifyAll => .left
  | .right | .justifyRight => .right
  | .center | .justifyCenter => .center

/-- The loop that looks for the paragraph run over an offset. -/
def paragraphRunAt (startOffset : Nat) : N → List (LayerRun N (LayerParagraphStyle N)) → Option (LayerParagraphStyle N)
  | _, [] => none
  | position, run :: runs =>
    if lt (literal startOffset) (position + run.length) then some run.style
    else paragraphRunAt startOffset (position + run.length) runs

def resolveLineJustification (startOffset : Nat) (text : LayerText N) : Justification :=
  match text.paragraphRuns with
  | some (run :: runs) =>
    normalizeJustification (((paragraphRunAt startOffset (literal 0) (run :: runs)).or
      ((run :: runs).getLast?.map LayerRun.style)).bind LayerParagraphStyle.justification)
  | _ => normalizeJustification (text.paragraphStyle.bind LayerParagraphStyle.justification)

def justificationOffset (justification : Justification) (lineWidth : N) : N :=
  match justification with
  | .left => literal 0
  | .right => -lineWidth
  | .center => -lineWidth / literal 2

/-! ## What is ignored -/

/-- `add` of a set of names. -/
def addName (names : List String) (name : String) : List String := if name ∈ names then names else names ++ [name]

/-- `collectIgnored`: a value counts unless it is missing or `false`. -/
def collectIgnored (style : LayerTextStyle N) (into : List String) : List String :=
  ([("underline", style.underline = some true), ("strikethrough", style.strikethrough = some true),
    ("strokeWidth", style.strokeWidth.isSome = true), ("fauxBold", style.fauxBold = some true),
    ("fauxItalic", style.fauxItalic = some true), ("ligatures", style.ligatures = some true)] : List (String × Bool)).foldl
    (fun names entry => if entry.2 then addName names entry.1 else names) into

def collectParagraphIgnored (style : LayerParagraphStyle N) (into : List String) : List String :=
  [("firstLineIndent", style.firstLineIndent), ("startIndent", style.startIndent), ("endIndent", style.endIndent),
    ("spaceBefore", style.spaceBefore), ("spaceAfter", style.spaceAfter)].foldl
    (fun names entry => if entry.2.isSome then addName names entry.1 else names) into

/-- The names that `layoutText` collects. -/
def ignoredNames (text : LayerText N) : List String :=
  let names := (resolveCharStyles text).foldl (fun names char => collectIgnored char.style names) []
  match text.paragraphRuns with
  | some (run :: runs) => (run :: runs).foldl (fun names run => collectParagraphIgnored run.style names) names
  | _ =>
    match text.paragraphStyle with
    | some style => collectParagraphIgnored style names
    | none => names

/-! ## Placing -/

/-- A line while its units are placed: `lineGlyphs`, `missing`, `cursorX`, and `prevFace` with `prevCodePoint`. -/
structure LineState (N : Type) where
  glyphs : List (PlacedGlyph N)
  missing : List Nat
  cursorX : N
  previous : Option (LoadedFace N × Nat)

/-- `cursorX` moved by the kerning before a glyph: of the face between two glyphs of one face, or by hand. -/
def kernedX (line : LineState N) (face : LoadedFace N) (unit : GlyphUnit N) : N :=
  match line.previous with
  | none => line.cursorX
  | some (prevFace, prevCodePoint) =>
    if unit.style.autoKerning ≠ some false then
      if prevFace.name = face.name then
        line.cursorX + face.face.kerning prevCodePoint unit.codePoint / face.face.unitsPerEm * unit.effectiveSize *
          unit.style.horizontalScale.getD (literal 1)
      else line.cursorX
    else line.cursorX + unit.style.kerning.getD (literal 0) / literal 1000 * unit.effectiveSize

/-- One step of the loop over the units of a line. -/
def placeUnit (resolveFace : FaceResolver N) (cursorY : N) (line : LineState N) (unit : GlyphUnit N) : LineState N :=
  match resolveFace unit.codePoint unit.style.font with
  | none => { line with missing := line.missing ++ [unit.codePoint] }
  | some face =>
    let horizontalScale := unit.style.horizontalScale.getD (literal 1)
    let cursorX := kernedX line face unit
    { glyphs := line.glyphs ++ [{
        codePoint := unit.codePoint
        face
        x := cursorX
        y := cursorY - unit.style.baselineShift.getD (literal 0)
        size := unit.effectiveSize
        horizontalScale
        verticalScale := unit.style.verticalScale.getD (literal 1)
        color := unit.style.color.getD ⟨literal 0, literal 0, literal 0⟩ }]
      missing := line.missing
      cursorX := cursorX + face.face.advance unit.codePoint / face.face.unitsPerEm * unit.effectiveSize * horizontalScale +
        unit.style.tracking.getD (literal 0) / literal 1000 * unit.effectiveSize
      previous := some (face, unit.codePoint) }

/-- The text while its lines are placed: `glyphs`, `missing` and `cursorY`. -/
structure TextState (N : Type) where
  glyphs : List (PlacedGlyph N)
  missing : List Nat
  cursorY : N

/-- One step of the loop over the lines. -/
def placeLine (text : LayerText N) (resolveFace : FaceResolver N) (state : TextState N) (line : Line N) : TextState N :=
  let placed := line.units.foldl (placeUnit resolveFace state.cursorY) ⟨[], state.missing, literal 0, none⟩
  let offset := justificationOffset (resolveLineJustification line.startOffset text) placed.cursorX
  { glyphs := state.glyphs ++ placed.glyphs.map fun glyph => { glyph with x := glyph.x + offset }
    missing := placed.missing
    cursorY := state.cursorY + lineLeading line.units }

/-! ## The ink -/

def pathCommandPoints : PathCommand N → List (N × N)
  | .M x y | .L x y => [(x, y)]
  | .Q x1 y1 x y => [(x1, y1), (x, y)]
  | .C x1 y1 x2 y2 x y => [(x1, y1), (x2, y2), (x, y)]
  | .Z => []

/-- The bounds with one more point; there are none before the first. -/
def InkBounds.extend (bounds : Option (InkBounds N)) (px py : N) : InkBounds N :=
  match bounds with
  | none => ⟨px, py, px, py⟩
  | some bounds => {
      left := if lt px bounds.left then px else bounds.left
      top := if lt py bounds.top then py else bounds.top
      right := if lt bounds.right px then px else bounds.right
      bottom := if lt bounds.bottom py then py else bounds.bottom }

def computeInkBounds (glyphs : List (PlacedGlyph N)) : InkBounds N :=
  let points := glyphs.flatMap fun glyph => (glyph.face.face.outline glyph.codePoint).flatMap fun command =>
    (pathCommandPoints command).map fun (fx, fy) =>
      (glyph.x + fx / glyph.face.face.unitsPerEm * glyph.size * glyph.horizontalScale,
        glyph.y - fy / glyph.face.face.unitsPerEm * glyph.size * glyph.verticalScale)
  let bounds := points.foldl (fun bounds (px, py) => some (InkBounds.extend bounds px py)) none
  bounds.getD ⟨literal 0, literal 0, literal 0, literal 0⟩

def layoutText (upper : Char → List Char) (text : LayerText N) (resolveFace : FaceResolver N) : Except String (Layout N) :=
  match typesetRejection text with
  | some reason => .error reason
  | none =>
    let placed := (splitIntoLines upper (resolveCharStyles text)).foldl (placeLine text resolveFace) ⟨[], [], literal 0⟩
    .ok { glyphs := placed.glyphs, inkBounds := computeInkBounds placed.glyphs, ignored := ignoredNames text,
          missing := placed.missing }

end UniDocs.Typeset
