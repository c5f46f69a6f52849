import Mathlib.Algebra.Order.Ring.Rat
import UniDocs.Lemmas.TextWalk

/-!
# Laying out with the selected fonts

`loadFonts` loads only the fonts that it selects from the coverage in the index, and `layoutText` then asks for a face for one
glyph unit after the other. The layout is the one with every indexed face loaded exactly if each character that is torn, by
the end of a run between its units or between the two ways to count the units of a run, is drawn with fonts that are selected
for some other text.
-/

namespace UniDocs.Typeset

open Lib.JsString

variable {N : Type} [Arithmetic N]

/-- Every font that is offered first for what a torn character is drawn as is also offered first for a code point of the text
that is requested in some font. -/
def TornFontsRequested (upper : Char → List Char) (text : LayerText N) (index : FontIndex N) (fallbacks : List String) : Prop :=
  ∀ char ∈ resolveCharStyles text, char.codePoint ≠ NEWLINE → ¬ char.Whole text → ∀ unit ∈ glyphUnits upper char,
    ∀ name, firstCovering index fallbacks unit.style.font unit.codePoint = some name →
      ∃ font, ∃ codePoint ∈ codePoints (requestedText upper text font),
        firstCovering index fallbacks font codePoint = some name

theorem resolveFace_loadFonts (upper : Char → List Char) (text : LayerText N) (index : FontIndex N) (fallbacks : List String) :
    (loadFonts upper text index fallbacks).resolveFace =
      resolveFaceChain (neededFaces (neededFonts upper text index fallbacks) index) fallbacks := rfl

theorem answer_loadFonts_iff {index : FontIndex N} (hindex : index.Faithful) (upper : Char → List Char) (text : LayerText N)
    (fallbacks : List String) (unit : GlyphUnit N) :
    (loadFonts upper text index fallbacks).resolveFace.answer unit =
        (resolveFaceChain (indexedFaces index) fallbacks).answer unit ↔
      ∀ name, firstCovering index fallbacks unit.style.font unit.codePoint = some name →
        ∃ font, ∃ codePoint ∈ codePoints (requestedText upper text font),
          firstCovering index fallbacks font codePoint = some name := by
  rw [resolveFace_loadFonts, FaceResolver.answer, FaceResolver.answer, resolveFace_eq_iff hindex]
  simp only [mem_neededFonts]

theorem answer_loadFonts_of_whole {index : FontIndex N} (hindex : index.Faithful) {upper : Char → List Char} {text : LayerText N}
    (fallbacks : List String) {char : CharStyle N} (hchar : char ∈ resolveCharStyles text) (hwhole : char.Whole text)
    {unit : GlyphUnit N} (hunit : unit ∈ glyphUnits upper char) :
    (loadFonts upper text index fallbacks).resolveFace.answer unit =
      (resolveFaceChain (indexedFaces index) fallbacks).answer unit := by
  rw [answer_loadFonts_iff hindex]
  intro name hname
  exact ⟨unit.style.font, unit.codePoint, hwhole.requested hchar hunit, hname⟩

/-- The layout with the selected fonts is the one with every indexed face exactly if the fonts of torn characters are requested
elsewhere. -/
theorem selectedFonts_iff (upper : Char → List Char) (text : LayerText N) (index : FontIndex N) (fallbacks : List String)
    (hindex : index.Faithful) (htext : typesetRejection text = none) :
    ∃ every selected, layoutText upper text (resolveFaceChain (indexedFaces index) fallbacks) = .ok every ∧
      layoutText upper text (loadFonts upper text index fallbacks).resolveFace = .ok selected ∧
      ((selected.glyphs = every.glyphs ∧ selected.missing = every.missing) ↔ TornFontsRequested upper text index fallbacks) := by
  obtain ⟨every, hevery, hfaces⟩ := layoutText_faces upper htext (resolveFaceChain (indexedFaces index) fallbacks)
  obtain ⟨selected, hselected, hfaces'⟩ := layoutText_faces upper htext (loadFonts upper text index fallbacks).resolveFace
  refine ⟨every, selected, hevery, hselected, ?_, ?_⟩
  · rintro ⟨hglyphs, _⟩ char hchar hbreak _ unit hunit
    have hnone : ∀ unit ∈ drawnUnits upper text, (resolveFaceChain (indexedFaces index) fallbacks).answer unit = none →
        (loadFonts upper text index fallbacks).resolveFace.answer unit = none :=
      fun unit _ h => resolveFace_eq_none hindex _ h
    have hsame : (drawnUnits upper text).filterMap (loadFonts upper text index fallbacks).resolveFace.answer =
        (drawnUnits upper text).filterMap (resolveFaceChain (indexedFaces index) fallbacks).answer := by
      rw [← hfaces', ← hfaces, hglyphs]
    have hmem : unit ∈ drawnUnits upper text :=
      List.mem_flatMap.mpr ⟨char, List.mem_filter.mpr ⟨hchar, decide_eq_true hbreak⟩, hunit⟩
    exact (answer_loadFonts_iff hindex upper text fallbacks unit).mp (eq_of_filterMap_eq _ hnone hsame unit hmem)
  · intro htorn
    have hall : ∀ unit ∈ drawnUnits upper text, (loadFonts upper text index fallbacks).resolveFace.answer unit =
        (resolveFaceChain (indexedFaces index) fallbacks).answer unit := by
      intro unit hmem
      obtain ⟨char, hfilter, hunit⟩ := List.mem_flatMap.mp hmem
      obtain ⟨hchar, hbreak⟩ := List.mem_filter.mp hfilter
      by_cases hwhole : char.Whole text
      · exact answer_loadFonts_of_whole hindex fallbacks hchar hwhole hunit
      · exact (answer_loadFonts_iff hindex upper text fallbacks unit).mpr
          (htorn char hchar (of_decide_eq_true hbreak) hwhole unit hunit)
    have heq := layoutText_congr upper hall
    rw [hselected, hevery] at heq
    cases heq
    exact ⟨rfl, rfl⟩

/-! ## A torn character -/

/-- Exact numbers. -/
instance exactNumbers : Arithmetic ℚ where
  literal value := value
  lt a b := a < b
  eq a b := a = b
  toInteger value := .integer (if value < 0 then value.ceil else value.floor)
  toText value := toString value

/-- An index with one font, which has one character behind the first 65536. -/
def smileIndex : FontIndex ℚ :=
  [("A", {
    coverage := ⟨[(0x1f601, 0x1f601)], by simp, by simp⟩
    face := { unitsPerEm := 1000, has := fun codePoint => codePoint = 0x1f601, advance := fun _ => 500, kerning := fun _ _ => 0,
              outline := fun _ => [] } })]

/-- That character, its first unit in the font and its second unit in another. -/
def tornSmile : LayerText ℚ where
  content := [0xd83d, 0xde01]
  runs := some [⟨1, { font := some "A" }⟩, ⟨1, { font := some "B" }⟩]

theorem smileIndex_faithful : smileIndex.Faithful := by
  intro entry hentry codePoint
  cases List.mem_singleton.mp hentry
  show decide (codePoint = 0x1f601) = true ↔ ∃ range ∈ [(0x1f601, 0x1f601)], range.1 ≤ codePoint ∧ codePoint ≤ range.2
  simp only [decide_eq_true_eq, List.mem_singleton, exists_eq_left]
  omega

theorem selectedFonts_iff_torn : ∃ every selected,
    layoutText (fun c => [c.toUpper]) tornSmile (resolveFaceChain (indexedFaces smileIndex) []) = .ok every ∧
      layoutText (fun c => [c.toUpper]) tornSmile (loadFonts (fun c => [c.toUpper]) tornSmile smileIndex []).resolveFace =
        .ok selected ∧
      ((selected.glyphs = every.glyphs ∧ selected.missing = every.missing) ↔
        TornFontsRequested (fun c => [c.toUpper]) tornSmile smileIndex []) :=
  selectedFonts_iff (fun c => [c.toUpper]) tornSmile smileIndex [] smileIndex_faithful rfl

/-- With every font loaded the torn character is placed; the selection looks for its halves, loads nothing and loses it. -/
theorem selectedFonts_false : ¬ ∀ (upper : Char → List Char) (text : LayerText ℚ) (index : FontIndex ℚ) (fallbacks : List String),
    index.Faithful → typesetRejection text = none → ∀ every selected,
      layoutText upper text (resolveFaceChain (indexedFaces index) fallbacks) = .ok every →
      layoutText upper text (loadFonts upper text index fallbacks).resolveFace = .ok selected →
      selected.glyphs = every.glyphs ∧ selected.missing = every.missing := by
  intro hclaim
  have hall : (layoutText (fun c => [c.toUpper]) tornSmile (resolveFaceChain (indexedFaces smileIndex) [])).toOption.map
      Layout.missing = some [] := by decide
  have hloaded : (layoutText (fun c => [c.toUpper]) tornSmile
      (loadFonts (fun c => [c.toUpper]) tornSmile smileIndex []).resolveFace).toOption.map Layout.missing = some [0x1f601] := by
    with_unfolding_all decide
  obtain ⟨every, hevery, _⟩ := layoutText_faces (fun c => [c.toUpper]) (show typesetRejection tornSmile = none from rfl)
    (resolveFaceChain (indexedFaces smileIndex) [])
  obtain ⟨selected, hselected, _⟩ := layoutText_faces (fun c => [c.toUpper]) (show typesetRejection tornSmile = none from rfl)
    (loadFonts (fun c => [c.toUpper]) tornSmile smileIndex []).resolveFace
  have hmissing := (hclaim _ tornSmile smileIndex [] smileIndex_faithful rfl every selected hevery hselected).2
  rw [hevery] at hall
  rw [hselected] at hloaded
  have heq : selected.missing = [0x1f601] := Option.some.inj hloaded
  have heq' : every.missing = [] := Option.some.inj hall
  rw [heq, heq'] at hmissing
  cases hmissing

end UniDocs.Typeset
