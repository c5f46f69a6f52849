import UniDocs.Psd.Operations
import UniDocs.Psd.TextRuns

/-!
# The effect that changes the words of a text layer

`createSetTextTool`, `text/set-text.ts`: the description of the layer is copied with its new content, the run lists that are
not empty are split again, the text is laid out and rasterised, and the result is one `set_text` operation. Fonts, layout,
rasteriser and blob store are parameters. A refusal carries its reason without the text shown to the model.
-/

namespace UniDocs.Psd

open Lib

/-! ## Numbers -/

namespace Number

/-- A function of finite numbers; what is not finite stays. -/
def map (f : Rat → Rat) : Number → Number
  | finite value => finite (f value)
  | other => other

def half (n : Number) : Number := n.map (· / 2)

def floor (n : Number) : Number := n.map fun value => (value.floor : Rat)

def ceil (n : Number) : Number := n.map fun value => (value.ceil : Rat)

/-- `n > 0`. -/
def isPositive : Number → Bool
  | finite value => 0 < value
  | infinite negative => !negative
  | nan => false

/-- `n <= 0`. -/
def isNonPositive : Number → Bool
  | finite value => value ≤ 0
  | infinite negative => negative
  | nan => false

end Number

/-! ## The environment -/

/-- What `layoutText` returns: the number of glyphs and the ink box around the anchor, or the reason of a refusal. -/
inductive Layout where
  | placed (glyphs : Nat) (left top right bottom : Number)
  | refused (reason : String)

/-- A blob that was written: its hash and its handle. -/
structure WrittenBlob where
  hash : String
  handle : Value

/-- The fonts, the typesetter, and the rasteriser with the PNG encoder and the blob store; each but the layout may throw. -/
structure SetTextEnv where
  loadFonts : Value → Option (List FontRef)
  layoutText : Value → Layout
  writePng : Value → (width height : Number) → Option WrittenBlob

/-- Why no operation comes out. -/
inductive Refusal where
  | emptyText
  | layerNotFound
  | unexpectedShape
  | notTextLayer
  | noDescription
  | transformed
  | runs (list : String) (error : SpliceError)
  | runsNotFinite (list : String)
  | threw
  | layout (reason : String)
  | noGlyphs
  | noInk

/-! ## The description -/

/-- `nonIdentityTransform` returns `null`. -/
def isIdentityTransform : Value → Bool
  | .undefined => true
  | .array (.number a :: .number b :: .number c :: .number d :: _) =>
    a = .finite 1 && b = .finite 0 && c = .finite 0 && d = .finite 1
  | _ => false

/-- A run with a finite length. -/
def finiteRun (run : Value) : Option (Run ℚ Value) :=
  match runLength run with
  | .finite length => some ⟨length, run.get "style"⟩
  | _ => none

def runValue (run : Run ℚ Value) : Value := .object [("length", .number (.finite run.length)), ("style", run.style)]

/-- `spliceTextRuns` and `spliceParagraphRuns`; lengths that are not finite do not add up to the length of a text. -/
def spliceValues (list : String) (items : List Value) (range : Replacement) (contentLength : Nat) :
    Except Refusal (List Value) :=
  match items.mapM finiteRun with
  | none => .error (.runsNotFinite list)
  | some runs =>
    match spliceRuns runs range contentLength with
    | .error error => .error (.runs list error)
    | .ok new => .ok (new.map runValue)

/-- One run list of the new description; a list that is missing or empty is left as it was copied, and what is no list but
has a length cannot be split. -/
def spliceEntry (list : String) (old : Value) (range : Replacement) (contentLength : Nat) (next : List (String × Value)) :
    Except Refusal (List (String × Value)) :=
  match old.get list with
  | .array (item :: items) =>
    match spliceValues list (item :: items) range contentLength with
    | .error error => .error error
    | .ok new => .ok (setEntry list (.array new) next)
  | .bytes (_ :: _) => .error (.runsNotFinite list)
  | value => if (runLength value).isPositive then .error .threw else .ok next

def nextText (old : Value) (oldContent newContent : String) : Except Refusal Value :=
  let range := diffRange (JsString.ofString oldContent) (JsString.ofString newContent)
  let contentLength := (JsString.ofString oldContent).length
  match spliceEntry "runs" old range contentLength (setEntry "content" (.string newContent) (entriesOf old)) with
  | .error error => .error error
  | .ok next =>
    match spliceEntry "paragraphRuns" old range contentLength next with
    | .error error => .error error
    | .ok next => .ok (.object next)

/-! ## The new box -/

inductive Justification where
  | left
  | right
  | center
  deriving DecidableEq, Repr

def normalizeJustification : Value → Justification
  | .string "right" | .string "justify-right" => .right
  | .string "center" | .string "justify-center" => .center
  | _ => .left

/-- The style of the first paragraph, as far as there is one. -/
def firstParagraph (text : Value) : Value :=
  match text.get "paragraphRuns" with
  | .array (run :: _) => if (run.get "style").nullish then text.get "paragraphStyle" else run.get "style"
  | _ => text.get "paragraphStyle"

def anchorEdge (text : Value) : Justification := normalizeJustification ((firstParagraph text).get "justification")

/-- `layer.bounds` of `asTextLayer`: four numbers. -/
def fourNumbers : Value → Option (Number × Number × Number × Number)
  | .array [.number top, .number left, .number bottom, .number right] => some (top, left, bottom, right)
  | _ => none

/-- The left edge of the ink, from the old left and right edges. -/
def inkLeft (anchor : Justification) (oldLeft oldRight inkWidth : Number) : Number :=
  match anchor with
  | .right => oldRight.sub inkWidth
  | .center => (oldLeft.add oldRight).half.sub inkWidth.half
  | .left => oldLeft

/-! ## The effect -/

def textRenderer : String := "unidocs-text-layout"

/-- From the new description on: fonts, layout, the new box, the pixels and the operation. -/
def typeset (env : SetTextEnv) (layerId newContent : String) (next : Value) (oldTop oldLeft oldRight : Number) :
    Except Refusal SetTextPayload :=
  match env.loadFonts next with
  | none => .error .threw
  | some fonts =>
    match env.layoutText next with
    | .refused reason => .error (.layout reason)
    | .placed glyphs inkL inkT inkR inkB =>
      if glyphs = 0 then .error .noGlyphs
      else
        let inkWidth := inkR.sub inkL
        let inkHeight := inkB.sub inkT
        let left := inkLeft (anchorEdge next) oldLeft oldRight inkWidth
        let boundsLeft := left.floor
        let boundsTop := oldTop.floor
        let boundsRight := (left.add inkWidth).ceil
        let boundsBottom := (oldTop.add inkHeight).ceil
        let width := boundsRight.sub boundsLeft
        let height := boundsBottom.sub boundsTop
        if width.isNonPositive || height.isNonPositive then .error .noInk
        else
          match env.writePng next width height with
          | none => .error .threw
          | some blob => .ok {
              layerId
              text := next
              pixels := .object [("width", .number width), ("height", .number height), ("hash", .string blob.hash),
                ("blob", blob.handle)]
              bounds := .array [.number boundsTop, .number boundsLeft, .number boundsBottom, .number boundsRight]
              provenance := .object [("model", .string textRenderer), ("prompt", .string newContent)]
              fonts := some fonts }

/-- `run` of the tool, from the layer that `getDoc` returns. -/
def retype (env : SetTextEnv) (layerId newContent : String) (layer : LayerFields) : Except Refusal SetTextPayload :=
  match fourNumbers (layer.get "bounds") with
  | none => .error .unexpectedShape
  | some (oldTop, oldLeft, _, oldRight) =>
    if layer.type ≠ .text then .error .notTextLayer
    else
      match (layer.get "text").get "content" with
      | .string oldContent =>
        if !isIdentityTransform ((layer.get "text").get "transform") then .error .transformed
        else
          match nextText (layer.get "text") oldContent newContent with
          | .error error => .error error
          | .ok next => typeset env layerId newContent next oldTop oldLeft oldRight
      | _ => .error .noDescription

/-- `run` of the tool `setText`, with a layer identifier that is not empty. -/
def setTextTool (env : SetTextEnv) (doc : PsdDoc) (layerId newContent : String) : Except Refusal SetTextPayload :=
  if (JsString.ofString newContent).length = 0 then .error .emptyText
  else
    match findLayer doc.layers layerId with
    | none => .error .layerNotFound
    | some (_, layer) => retype env layerId newContent layer.value

end UniDocs.Psd
