import Mathlib.Data.List.GetD
import UniDocs.Lemmas.FontSelection

/-!
# Two walks over a text

The layout asks the resolver about one glyph unit after the other, and what it places is what the resolver answers. A character
that lies whole inside a stretch cut for its font and casing is read in the text requested in that font as the layout reads it,
whatever is cut or joined around it.
-/

namespace UniDocs.Typeset

open Lib (JsString)
open Lib.JsString

/-! ## What the layout asks -/

/-- Two readings of a list that agree wherever the first finds nothing find the same where they find as much. -/
theorem eq_of_filterMap_eq {α β : Type} {f g : α → Option β} (items : List α) (hnone : ∀ item ∈ items, f item = none → g item = none)
    (h : items.filterMap g = items.filterMap f) : ∀ item ∈ items, g item = f item := by
  -- the second never finds more than the first, so it finds less as soon as it misses one
  have hshort : ∀ l : List α, (∀ item ∈ l, f item = none → g item = none) → (l.filterMap g).length ≤ (l.filterMap f).length := by
    intro l
    induction l with
    | nil => exact fun _ => Nat.le_refl _
    | cons item l ih =>
      intro hl
      have hrest := ih fun other hother => hl other (List.mem_cons_of_mem _ hother)
      rw [List.filterMap_cons, List.filterMap_cons]
      cases hf : f item with
      | none =>
        rw [hl item List.mem_cons_self hf]
        exact hrest
      | some found =>
        cases g item with
        | none => exact Nat.le_succ_of_le hrest
        | some other => exact Nat.succ_le_succ hrest
  induction items with
  | nil => exact fun item hitem => absurd hitem List.not_mem_nil
  | cons first items ih =>
    have hnone' : ∀ item ∈ items, f item = none → g item = none := fun item hitem => hnone item (List.mem_cons_of_mem _ hitem)
    rw [List.filterMap_cons, List.filterMap_cons] at h
    have hfirst : g first = f first ∧ items.filterMap g = items.filterMap f := by
      cases hf : f first with
      | none =>
        rw [hf, hnone first List.mem_cons_self hf] at h
        exact ⟨hnone first List.mem_cons_self hf, h⟩
      | some found =>
        cases hg : g first with
        | none =>
          rw [hf, hg] at h
          have hlength := congrArg List.length h
          have hle := hshort items hnone'
          simp only [List.length_cons] at hlength
          omega
        | some other =>
          rw [hf, hg] at h
          exact ⟨congrArg some (List.cons.inj h).1, (List.cons.inj h).2⟩
    intro item hitem
    rcases List.mem_cons.mp hitem with rfl | hrest
    · exact hfirst.1
    · exact ih hnone' hfirst.2 item hrest

variable {N : Type} [Arithmetic N]

/-- The answer to a glyph unit. -/
def FaceResolver.answer (resolveFace : FaceResolver N) (unit : GlyphUnit N) : Option (LoadedFace N) :=
  resolveFace unit.codePoint unit.style.font

/-- The glyph units of a text. -/
def drawnUnits (upper : Char → List Char) (text : LayerText N) : List (GlyphUnit N) :=
  ((resolveCharStyles text).filter fun char => char.codePoint ≠ NEWLINE).flatMap (glyphUnits upper)

theorem units_foldl_addChar (upper : Char → List Char) (chars : List (CharStyle N)) : ∀ lines : List (Line N) × Line N,
    ((chars.foldl (addChar upper) lines).1 ++ [(chars.foldl (addChar upper) lines).2]).flatMap Line.units =
      (lines.1 ++ [lines.2]).flatMap Line.units ++ (chars.filter fun char => char.codePoint ≠ NEWLINE).flatMap (glyphUnits upper) := by
  induction chars with
  | nil =>
    intro lines
    exact (List.append_nil _).symm
  | cons char chars ih =>
    intro lines
    rw [List.foldl_cons, ih]
    unfold addChar
    split
    · rename_i hbreak
      rw [List.filter_cons_of_neg (by simp [hbreak])]
      simp
    · rename_i hbreak
      rw [List.filter_cons_of_pos (by simpa using hbreak)]
      simp

theorem units_splitIntoLines (upper : Char → List Char) (text : LayerText N) :
    (splitIntoLines upper (resolveCharStyles text)).flatMap Line.units = drawnUnits upper text := by
  unfold splitIntoLines
  rw [units_foldl_addChar]
  rfl

theorem faces_placeUnit (resolveFace : FaceResolver N) (cursorY : N) (line : LineState N) (unit : GlyphUnit N) :
    (placeUnit resolveFace cursorY line unit).glyphs.map PlacedGlyph.face =
      line.glyphs.map PlacedGlyph.face ++ (resolveFace.answer unit).toList := by
  unfold placeUnit FaceResolver.answer
  cases resolveFace unit.codePoint unit.style.font with
  | none => exact (List.append_nil _).symm
  | some face => simp

theorem faces_placeUnits (resolveFace : FaceResolver N) (cursorY : N) (units : List (GlyphUnit N)) : ∀ line : LineState N,
    (units.foldl (placeUnit resolveFace cursorY) line).glyphs.map PlacedGlyph.face =
      line.glyphs.map PlacedGlyph.face ++ units.filterMap resolveFace.answer := by
  induction units with
  | nil =>
    intro line
    exact (List.append_nil _).symm
  | cons unit units ih =>
    intro line
    rw [List.foldl_cons, ih, faces_placeUnit, List.filterMap_cons, List.append_assoc]
    cases resolveFace.answer unit <;> rfl

theorem faces_placeLines (text : LayerText N) (resolveFace : FaceResolver N) (lines : List (Line N)) : ∀ state : TextState N,
    (lines.foldl (placeLine text resolveFace) state).glyphs.map PlacedGlyph.face =
      state.glyphs.map PlacedGlyph.face ++ (lines.flatMap Line.units).filterMap resolveFace.answer := by
  induction lines with
  | nil =>
    intro state
    exact (List.append_nil _).symm
  | cons line lines ih =>
    intro state
    have hline : (placeLine text resolveFace state line).glyphs.map PlacedGlyph.face =
        state.glyphs.map PlacedGlyph.face ++ line.units.filterMap resolveFace.answer := by
      unfold placeLine
      dsimp only
      rw [List.map_append, List.map_map]
      congr 1
      exact faces_placeUnits resolveFace state.cursorY line.units ⟨[], state.missing, Arithmetic.literal 0, none⟩
    rw [List.foldl_cons, ih, hline, List.flatMap_cons, List.filterMap_append, List.append_assoc]

theorem layoutText_faces (upper : Char → List Char) {text : LayerText N} (h : typesetRejection text = none)
    (resolveFace : FaceResolver N) : ∃ layout, layoutText upper text resolveFace = .ok layout ∧
      layout.glyphs.map PlacedGlyph.face = (drawnUnits upper text).filterMap resolveFace.answer := by
  unfold layoutText
  rw [h]
  refine ⟨_, rfl, ?_⟩
  rw [faces_placeLines, units_splitIntoLines]
  rfl

theorem layoutText_congr (upper : Char → List Char) {text : LayerText N} {first second : FaceResolver N}
    (h : ∀ unit ∈ drawnUnits upper text, first.answer unit = second.answer unit) :
    layoutText upper text first = layoutText upper text second := by
  have hunit : ∀ (cursorY : N) (line : LineState N), ∀ unit ∈ drawnUnits upper text,
      placeUnit first cursorY line unit = placeUnit second cursorY line unit := by
    intro cursorY line unit hunit
    have hanswer := h unit hunit
    unfold FaceResolver.answer at hanswer
    rw [placeUnit, placeUnit, hanswer]
  have hline : ∀ (state : TextState N), ∀ line ∈ splitIntoLines upper (resolveCharStyles text),
      placeLine text first state line = placeLine text second state line := by
    intro state line hline
    have hunits : line.units.foldl (placeUnit first state.cursorY) ⟨[], state.missing, Arithmetic.literal 0, none⟩ =
        line.units.foldl (placeUnit second state.cursorY) ⟨[], state.missing, Arithmetic.literal 0, none⟩ := by
      refine List.foldl_ext _ _ _ fun state' unit hmem => hunit state.cursorY state' unit ?_
      rw [← units_splitIntoLines]
      exact List.mem_flatMap.mpr ⟨line, hline, hmem⟩
    rw [placeLine, placeLine, hunits]
  rw [layoutText, layoutText, List.foldl_ext _ _ _ hline]

/-! ## Characters that are cut whole -/

/-- A character lies whole in a stretch that is cut for its font and casing; a surrogate without its partner never does. -/
def CharStyle.Whole (char : CharStyle N) (text : LayerText N) : Prop :=
  (∃ c : Char, char.codePoint = c.toNat) ∧ ∃ stretch ∈ stretches text, stretch.style.font = char.style.font ∧
    stretch.style.changesCase = char.style.changesCase ∧ stretch.start ≤ char.utf16Start ∧
    char.utf16Start + (fromCodePoint char.codePoint).length ≤ stretch.stop

/-- The characters that stand for a character in a style. -/
def casedChars (upper : Char → List Char) (style : LayerTextStyle N) (c : Char) : List Char :=
  if style.changesCase then upper c else [c]

theorem glyphUnits_spec {upper : Char → List Char} {char : CharStyle N} {c : Char} (hc : char.codePoint = c.toNat)
    {unit : GlyphUnit N} (h : unit ∈ glyphUnits upper char) :
    unit.style = char.style ∧ ∃ d ∈ casedChars upper char.style c, unit.codePoint = d.toNat := by
  unfold glyphUnits at h
  unfold casedChars
  split at h
  · rename_i hcase
    obtain ⟨codePoint, hpoint, rfl⟩ := List.mem_map.mp h
    rw [hc, fromCodePoint_toNat, toUpperCase_charUnits, codePoints_flatMap_charUnits] at hpoint
    obtain ⟨d, hd, rfl⟩ := List.mem_map.mp hpoint
    rw [if_pos hcase]
    exact ⟨rfl, d, hd, rfl⟩
  · rename_i hcase
    rw [List.mem_singleton.mp h, if_neg hcase]
    exact ⟨rfl, c, List.mem_singleton_self c, hc⟩

omit [Arithmetic N] in
theorem expandCaps_append (upper : Char → List Char) (style : LayerTextStyle N) (c : Char) (before after : JsString) :
    ∃ before' after', expandCaps upper (before ++ (charUnits c ++ after)) style =
      before' ++ ((casedChars upper style c).flatMap charUnits ++ after') := by
  unfold expandCaps casedChars
  split
  · exact ⟨_, _, toUpperCase_append_charUnits upper before c after⟩
  · refine ⟨before, after, ?_⟩
    rw [List.flatMap_cons, List.flatMap_nil, List.append_nil]

/-- A slice around a middle part. -/
theorem drop_take_middle {α : Type} {before middle after : List α} {start stop : Nat} (hstart : start ≤ before.length)
    (hstop : before.length + middle.length ≤ stop) : ((before ++ (middle ++ after)).take stop).drop start =
      before.drop start ++ (middle ++ after.take (stop - before.length - middle.length)) := by
  rw [List.take_append, List.take_of_length_le (by omega), List.take_append, List.take_of_length_le (by omega),
    List.drop_append_of_le_length hstart]

theorem CharStyle.Whole.requested {upper : Char → List Char} {text : LayerText N} {char : CharStyle N} (h : char.Whole text)
    (hchar : char ∈ resolveCharStyles text) {unit : GlyphUnit N} (hunit : unit ∈ glyphUnits upper char) :
    unit.codePoint ∈ codePoints (requestedText upper text unit.style.font) := by
  obtain ⟨⟨c, hc⟩, stretch, hstretch, hfont, hcase, hstart, hstop⟩ := h
  obtain ⟨hstyle, d, hd, hpoint⟩ := glyphUnits_spec hc hunit
  -- where the character stands in the content
  obtain ⟨⟨codePoint, position⟩, hwalk, rfl⟩ := List.mem_map.mp hchar
  obtain ⟨before, after, hcontent, hposition⟩ := exists_append_of_mem_codePointsFrom hwalk
  dsimp only at hc hfont hcase hstart hstop hd hstyle
  rw [hc, fromCodePoint_toNat] at hcontent hstop
  rw [Nat.zero_add] at hposition
  subst hposition
  -- the stretch around it, then the text around the stretch
  obtain ⟨front, back, hcased⟩ := expandCaps_append upper stretch.style c (before.drop stretch.start)
    (after.take (stretch.stop - before.length - (charUnits c).length))
  have hchars : stretch.chars upper text.content = front ++ ((casedChars upper stretch.style c).flatMap charUnits ++ back) := by
    rw [Stretch.chars, hcontent, drop_take_middle hstart hstop, hcased]
  have hmem : stretch ∈ (stretches text).filter fun stretch => stretch.style.font = unit.style.font := by
    rw [List.mem_filter, decide_eq_true_eq, hstyle]
    exact ⟨hstretch, hfont⟩
  obtain ⟨earlier, later, hsplit⟩ := List.append_of_mem hmem
  have htext : requestedText upper text unit.style.font = (earlier.flatMap (Stretch.chars upper text.content) ++ front) ++
      ((casedChars upper stretch.style c).flatMap charUnits ++ (back ++ later.flatMap (Stretch.chars upper text.content))) := by
    rw [requestedText, hsplit, List.flatMap_append, List.flatMap_cons, hchars]
    simp only [List.append_assoc]
  have hd' : d ∈ casedChars upper stretch.style c := by
    unfold casedChars at hd ⊢
    rw [hcase]
    exact hd
  rw [hpoint, htext]
  exact mem_codePoints_flatMap hd' _ _

end UniDocs.Typeset
