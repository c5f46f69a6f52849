import UniDocs.Lib.JsMap
import UniDocs.Typeset.Layout

/-!
# Fonts of a text

`text/registry.ts`, and the choice of fonts of `text/set-text.ts`: which fonts a text needs is found from the coverage in the
index, before a font is read, and the resolver of the layout looks at the faces that were loaded. What reading and parsing the
bytes of a font gives is part of its entry. The report of code points that fall back to another font, which the resolver of
`loadFonts` writes beside its answers, is left out.
-/

namespace UniDocs.Typeset

open Lib (JsString JsMap.set)
open Lib.JsString (codePoints toUpperCase)
open Arithmetic (literal lt)

/-! ## The index -/

/-- `FontCoverage`: ranges of code points, ascending and apart from each other. -/
structure FontCoverage where
  ranges : List (Nat × Nat)
  ordered : ∀ range ∈ ranges, range.1 ≤ range.2
  ascending : ranges.Pairwise fun before after => before.2 < after.1

/-- `RegisteredFont`: the coverage of its entry, the face that its bytes parse to, and the blob that `blobFor` pins. -/
structure RegisteredFont (N : Type) where
  coverage : FontCoverage
  face : FontFace N
  blob : Option String := none

/-- `FontIndex`, in insertion order. -/
abbrev FontIndex (N : Type) := List (String × RegisteredFont N)

/-- A code point lies in one of the ranges. -/
def FontCoverage.Holds (coverage : FontCoverage) (codePoint : Nat) : Prop :=
  ∃ range ∈ coverage.ranges, range.1 ≤ codePoint ∧ codePoint ≤ range.2

/-- The loop of the binary search, with the place behind the source's `hi`, which may be -1. -/
def searchRanges (ranges : List (Nat × Nat)) (codePoint : Nat) : (steps lo stop : Nat) → Bool
  | 0, _, _ => false
  | steps + 1, lo, stop =>
    if lo < stop then
      let mid := (lo + (stop - 1)) / 2
      match ranges[mid]? with
      | none => false
      | some (first, last) =>
        if codePoint < first then searchRanges ranges codePoint steps lo mid
        else if last < codePoint then searchRanges ranges codePoint steps (mid + 1) stop
        else true
    else false

/-- `coversCodePoint`; the interval that is left shrinks in every step. -/
def coversCodePoint (coverage : FontCoverage) (codePoint : Nat) : Bool :=
  searchRanges coverage.ranges codePoint coverage.ranges.length 0 coverage.ranges.length

/-! ## Candidates -/

def pick {T : Type} (candidates : List T) (codePoint : Nat) (knows : T → Nat → Bool) : Option T :=
  candidates.find? fun candidate => knows candidate codePoint

/-- `candidates`: the requested font, then the fallbacks. -/
def candidates (requested : Option String) (fallbacks : List String) : List String :=
  match requested with
  | some font => font :: fallbacks
  | none => fallbacks

variable {N : Type}

/-- The test of the faces that are loaded. -/
def loadedKnows (loaded : List (String × FontFace N)) (postScriptName : String) (codePoint : Nat) : Bool :=
  match loaded.lookup postScriptName with
  | some face => face.has codePoint
  | none => false

/-- The test of the index. -/
def indexKnows (index : FontIndex N) (postScriptName : String) (codePoint : Nat) : Bool :=
  match index.lookup postScriptName with
  | some found => coversCodePoint found.coverage codePoint
  | none => false

def resolveFaceChain (loaded : List (String × FontFace N)) (fallbacks : List String) : FaceResolver N :=
  fun codePoint requestedFont =>
    match pick (candidates requestedFont fallbacks) codePoint (loadedKnows loaded) with
    | none => none
    | some name => (loaded.lookup name).map (LoadedFace.mk name)

/-- The font that the index offers first for a code point. -/
def firstCovering (index : FontIndex N) (fallbacks : List String) (requested : Option String) (codePoint : Nat) : Option String :=
  pick (candidates requested fallbacks) codePoint (indexKnows index)

/-- A set of names with one more, if it was found. -/
def addFound (names : List String) : Option String → List String
  | some name => addName names name
  | none => names

/-- `selectFonts`: the fonts that are offered for some code point, in the order of the candidates and each once. -/
def selectFonts (index : FontIndex N) (requested : Option String) (fallbacks : List String) (content : JsString) : List String :=
  let needed := (codePoints content).foldl (fun needed codePoint =>
    addFound needed (firstCovering index fallbacks requested codePoint)) []
  (candidates requested fallbacks).foldl (fun result name => if name ∈ needed then addName result name else result) []

variable [Arithmetic N]

/-! ## The text of every font -/

/-- An argument of `slice`, as a position of a string. -/
def relativeIndex (length : Nat) : IntegerOrInfinity → Nat
  | .integer value => if value < 0 then (length + value).toNat else min value.toNat length
  | .infinity negative => if negative then 0 else length

/-- A slice of the content with the style it is requested in. -/
structure Stretch (N : Type) where
  style : LayerTextStyle N
  start : Nat
  stop : Nat

/-- The loop over the runs that slices the content; what lies behind them has the style of the layer. -/
def stretchesFrom (text : LayerText N) : N → List (LayerRun N (LayerTextStyle N)) → List (Stretch N)
  | position, [] =>
    if lt position (literal text.content.length) then
      [⟨text.style.getD {}, relativeIndex text.content.length (Arithmetic.toInteger position), text.content.length⟩]
    else []
  | position, run :: runs =>
    let next := position + run.length
    ⟨effectiveStyle text.style (some run.style), relativeIndex text.content.length (Arithmetic.toInteger position),
      relativeIndex text.content.length (Arithmetic.toInteger next)⟩ :: stretchesFrom text next runs

/-- The slices that `charsByRequestedFont` pushes. -/
def stretches (text : LayerText N) : List (Stretch N) :=
  match text.runs with
  | some (run :: runs) => stretchesFrom text (literal 0) (run :: runs)
  | _ => [⟨text.style.getD {}, 0, text.content.length⟩]

def expandCaps (upper : Char → List Char) (string : JsString) (style : LayerTextStyle N) : JsString :=
  if style.changesCase then toUpperCase upper string else string

/-- The characters of a stretch. -/
def Stretch.chars (upper : Char → List Char) (content : JsString) (stretch : Stretch N) : JsString :=
  expandCaps upper ((content.take stretch.stop).drop stretch.start) stretch.style

/-- `push`. -/
def pushChars (out : List (Option String × JsString)) (font : Option String) (string : JsString) :
    List (Option String × JsString) :=
  if string.length > 0 then JsMap.set font ((out.lookup font).getD [] ++ string) out else out

def charsByRequestedFont (upper : Char → List Char) (text : LayerText N) : List (Option String × JsString) :=
  (stretches text).foldl (fun out stretch => pushChars out stretch.style.font (stretch.chars upper text.content)) []

/-! ## Loading -/

structure FontSubstitution where
  requested : String
  usedInstead : List String
  deriving DecidableEq, Repr

/-- `LoadedFonts`: the faces that were loaded, the fonts that are pinned, and the requested fonts that are not indexed. -/
structure LoadedFonts (N : Type) where
  loaded : List (String × FontFace N)
  resolveFace : FaceResolver N
  fonts : List (String × String)
  substitutions : List FontSubstitution

/-- `needed` of `loadFonts`. -/
def neededFonts (upper : Char → List Char) (text : LayerText N) (index : FontIndex N) (fallbacks : List String) : List String :=
  (charsByRequestedFont upper text).foldl (fun needed entry =>
    (selectFonts index entry.1 fallbacks entry.2).foldl addName needed) []

def loadFonts (upper : Char → List Char) (text : LayerText N) (index : FontIndex N) (fallbacks : List String) : LoadedFonts N :=
  let needed := neededFonts upper text index fallbacks
  let loaded := needed.filterMap fun name => (index.lookup name).map fun found => (name, found.face)
  { loaded
    resolveFace := resolveFaceChain loaded fallbacks
    fonts := needed.filterMap fun name => (index.lookup name).bind fun found => found.blob.map fun blob => (name, blob)
    substitutions := (charsByRequestedFont upper text).filterMap fun (requested, chars) =>
      match requested with
      | some requested =>
        if (index.lookup requested).isNone then
          some ⟨requested, selectFonts index (some requested) fallbacks chars⟩ else none
      | none => none }

/-- Every face of the index. -/
def indexedFaces (index : FontIndex N) : List (String × FontFace N) := index.map fun entry => (entry.1, entry.2.face)

/-- The coverage of every entry holds exactly the code points that its face has. -/
def FontIndex.Faithful (index : FontIndex N) : Prop :=
  ∀ entry ∈ index, ∀ codePoint, entry.2.face.has codePoint = true ↔ entry.2.coverage.Holds codePoint

end UniDocs.Typeset
