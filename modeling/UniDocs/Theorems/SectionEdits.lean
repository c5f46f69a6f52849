import UniDocs.Markdown.Markdown

/-!
# Section edits

A section occupies one interval of the text: the lines before it, each with its line feed, stand before the interval, the
lines after it, each with the line feed in front, behind it. An edit looks for the text of the section from the start of
the document and replaces what it finds first.
-/

namespace UniDocs.Markdown

open Lib

/-! ## The interval of a section -/

/-- The text before a line. -/
def textBefore (lines : List JsString) (i : Nat) : JsString := (lines.take i).flatMap (· ++ [lineFeed])

/-- The text of the lines from one line to before another. -/
def textOf (lines : List JsString) (i j : Nat) : JsString := [lineFeed].intercalate ((lines.take j).drop i)

/-- The text from a line on, with the line feed before it. -/
def textAfter (lines : List JsString) (j : Nat) : JsString := (lines.drop j).flatMap ([lineFeed] ++ ·)

theorem intercalate_eq_append_flatMap (line : JsString) (rest : List JsString) :
    [lineFeed].intercalate (line :: rest) = line ++ rest.flatMap ([lineFeed] ++ ·) := by
  induction rest generalizing line with
  | nil => simp
  | cons line' rest ih =>
    rw [List.intercalate_cons_cons, ih line']
    simp

theorem intercalate_append {l₁ l₂ : List JsString} (h : l₂ ≠ []) :
    [lineFeed].intercalate (l₁ ++ l₂) = l₁.flatMap (· ++ [lineFeed]) ++ [lineFeed].intercalate l₂ := by
  induction l₁ with
  | nil => rfl
  | cons line rest ih =>
    rw [List.cons_append, List.intercalate_cons_of_ne_nil (by simp [h]), ih]
    simp

theorem text_of_lines {lines : List JsString} {i j : Nat} (hij : i < j) (hj : j ≤ lines.length) :
    [lineFeed].intercalate lines = textBefore lines i ++ textOf lines i j ++ textAfter lines j := by
  have hcut : lines = lines.take i ++ ((lines.take j).drop i ++ lines.drop j) := by
    have htake : lines.take i = (lines.take j).take i := by
      rw [List.take_take, Nat.min_eq_left (by omega)]
    rw [← List.append_assoc, htake, List.take_append_drop, List.take_append_drop]
  have hne : (lines.take j).drop i ≠ [] := by
    intro hnil
    rw [List.drop_eq_nil_iff, List.length_take] at hnil
    omega
  obtain ⟨line, rest, hsec⟩ := List.exists_cons_of_ne_nil hne
  conv_lhs => rw [hcut]
  rw [intercalate_append (by simp [hne]), textBefore, textOf, textAfter, hsec, List.cons_append, intercalate_eq_append_flatMap,
    intercalate_eq_append_flatMap]
  simp

section Edits

variable {canonicalize : UInt16 → UInt16} {heading : JsString}

theorem findStart_bounds {lines : List JsString} : ∀ {k i level : Nat},
    findStart canonicalize heading lines k = some (i, level) →
      k ≤ i ∧ ∃ h : i - k < lines.length, lines[i - k] ≠ [] := by
  induction lines with
  | nil =>
    intro k i level h
    cases h
  | cons line rest ih =>
    intro k i level h
    have hrest : findStart canonicalize heading rest (k + 1) = some (i, level) →
        k ≤ i ∧ ∃ h : i - k < (line :: rest).length, (line :: rest)[i - k] ≠ [] := by
      intro hr
      obtain ⟨hle, hlt, hne⟩ := ih hr
      have hsub : i - k = i - (k + 1) + 1 := by omega
      refine ⟨by omega, by simp only [List.length_cons]; omega, ?_⟩
      simp only [hsub, List.getElem_cons_succ]
      exact hne
    simp only [findStart] at h
    split at h
    · rename_i level' hlevel
      split at h
      · cases h
        refine ⟨Nat.le_refl _, by simp, ?_⟩
        simp only [Nat.sub_self, List.getElem_cons_zero]
        rintro rfl
        cases hlevel
      · exact hrest h
    · exact hrest h

theorem findEnd_bounds {startLevel : Nat} {lines : List JsString} : ∀ {k : Nat},
    k ≤ findEnd startLevel lines k ∧ findEnd startLevel lines k ≤ k + lines.length := by
  induction lines with
  | nil => exact fun {k} => ⟨Nat.le_refl _, Nat.le_refl _⟩
  | cons line rest ih =>
    intro k
    have hrest := @ih (k + 1)
    simp only [findEnd, List.length_cons]
    split
    · split
      · omega
      · omega
    · omega

/-- A section has a first line, which is not empty, and ends within the document. -/
theorem sectionLines_bounds {lines : List JsString} {i j : Nat} (h : sectionLines canonicalize heading lines = some (i, j)) :
    i < j ∧ j ≤ lines.length ∧ ∃ h : i < lines.length, lines[i] ≠ [] := by
  simp only [sectionLines] at h
  split at h
  · rename_i startIdx startLevel hstart
    cases h
    obtain ⟨-, hlt, hne⟩ := findStart_bounds hstart
    obtain ⟨h1, h2⟩ := @findEnd_bounds startLevel (lines.drop (i + 1)) (i + 1)
    rw [List.length_drop] at h2
    exact ⟨by omega, by omega, hlt, hne⟩
  · cases h

theorem getSection_some {content : JsString} {i j : Nat}
    (h : sectionLines canonicalize heading (content.splitOn lineFeed) = some (i, j)) :
    ∃ u rest, textOf (content.splitOn lineFeed) i j = u :: rest ∧ getSection canonicalize content heading = some (u :: rest) := by
  obtain ⟨hij, hj, hi, hne⟩ := sectionLines_bounds h
  have hget : getSection canonicalize content heading = some (textOf (content.splitOn lineFeed) i j) := by
    simp only [getSection, h, Option.map_some, textOf]
  have hsec : textOf (content.splitOn lineFeed) i j ≠ [] := by
    have hfirst : ((content.splitOn lineFeed).take j).drop i =
        (content.splitOn lineFeed)[i] :: ((content.splitOn lineFeed).take j).drop (i + 1) := by
      rw [List.drop_eq_getElem_cons (by rw [List.length_take]; omega), List.getElem_take]
    rw [textOf, hfirst, intercalate_eq_append_flatMap]
    simp [hne]
  obtain ⟨u, rest, hcons⟩ := List.exists_cons_of_ne_nil hsec
  exact ⟨u, rest, hcons, by rw [hget, hcons]⟩

/-! ## Edits -/

/-- What follows the first place where the section's text occurs, as far as the section stands behind that place, is what
stands between that place and the section. It is so when the section itself is the first such place. -/
def FirstOccurrence (content matched : JsString) (place : Nat) : Prop :=
  ∃ first, JsString.indexOf matched content = some first ∧
    (content.drop (first + matched.length)).take (place - first) = (content.drop first).take (place - first)

/-- The same with the new text in the two places, as `replace` expands it and as it is. When the section is the first place
where its text occurs, this says that the expansion of the new text is the new text. -/
def ExpandsInPlace (content matched replacement : JsString) (place : Nat) : Prop :=
  ∃ first, JsString.indexOf matched content = some first ∧
    JsString.getSubstitution matched (content.take first) (content.drop (first + matched.length)) replacement ++
        (content.drop (first + matched.length)).take (place - first) =
      (content.drop first).take (place - first) ++ replacement

/-- Replacement at the first occurrence compared with replacement at a later one. -/
theorem replace_eq_iff {before matched after replacement : JsString} :
    JsString.replace (before ++ matched ++ after) matched replacement = before ++ replacement ++ after ↔
      ExpandsInPlace (before ++ matched ++ after) matched replacement before.length := by
  have hpre : matched <+: (before ++ matched ++ after).drop before.length := by
    rw [List.append_assoc, List.drop_left]
    exact List.prefix_append _ _
  obtain ⟨first, hle, hfirst⟩ := JsString.indexOf_of_prefix (by simp) hpre
  -- What stands before the section, cut at the first place.
  obtain ⟨a, b, rfl, rfl⟩ : ∃ a b, before = a ++ b ∧ a.length = first :=
    ⟨before.take first, before.drop first, (List.take_append_drop first before).symm, by simp [hle]⟩
  have htake : (a ++ b ++ matched ++ after).take a.length = a := by simp
  have hbetween : ((a ++ b ++ matched ++ after).drop a.length).take ((a ++ b).length - a.length) = b := by simp
  have hafter : (a ++ b ++ matched ++ after).drop (a.length + matched.length) =
      ((a ++ b ++ matched ++ after).drop (a.length + matched.length)).take ((a ++ b).length - a.length) ++ after := by
    have hdrop : ((a ++ b ++ matched ++ after).drop (a.length + matched.length)).drop ((a ++ b).length - a.length) = after := by
      rw [List.drop_drop]
      have hsum : a.length + matched.length + ((a ++ b).length - a.length) = (a ++ b ++ matched).length := by
        simp only [List.length_append]
        omega
      rw [hsum, List.drop_left]
    conv_lhs =>
      rw [← List.take_append_drop ((a ++ b).length - a.length) ((a ++ b ++ matched ++ after).drop (a.length + matched.length)), hdrop]
  have hsome : ExpandsInPlace (a ++ b ++ matched ++ after) matched replacement (a ++ b).length ↔
      JsString.getSubstitution matched a ((a ++ b ++ matched ++ after).drop (a.length + matched.length)) replacement ++
          ((a ++ b ++ matched ++ after).drop (a.length + matched.length)).take ((a ++ b).length - a.length) =
        b ++ replacement := by
    constructor
    · rintro ⟨first', hfirst', heq⟩
      rw [hfirst] at hfirst'
      cases hfirst'
      rwa [htake, hbetween] at heq
    · intro heq
      exact ⟨a.length, hfirst, by rwa [htake, hbetween]⟩
  rw [hsome, JsString.replace, hfirst]
  simp only [htake]
  generalize JsString.getSubstitution matched a ((a ++ b ++ matched ++ after).drop (a.length + matched.length)) replacement = new
  generalize ((a ++ b ++ matched ++ after).drop (a.length + matched.length)).take ((a ++ b).length - a.length) = following
    at hafter ⊢
  rw [hafter]
  have hleft : a ++ new ++ (following ++ after) = a ++ ((new ++ following) ++ after) := by simp only [List.append_assoc]
  have hright : a ++ b ++ replacement ++ after = a ++ ((b ++ replacement) ++ after) := by simp only [List.append_assoc]
  rw [hleft, hright, List.append_cancel_left_eq, List.append_cancel_right_eq]

/-- A deletion is the replacement by nothing. -/
theorem expandsInPlace_nil {content matched : JsString} {place : Nat} :
    ExpandsInPlace content matched [] place ↔ FirstOccurrence content matched place := by
  simp only [ExpandsInPlace, FirstOccurrence, JsString.getSubstitution_nil, List.nil_append, List.append_nil]

/-- `deleteSection` removes exactly the section when the first place with its text is the section's, or removing that place
leaves the same text; `replaceSection` puts the new text exactly in the section's place when, besides, the new text is not
expanded, or the two places come out the same with it. -/
theorem edits_only_section {content text : JsString} {i j : Nat}
    (h : sectionLines canonicalize heading (content.splitOn lineFeed) = some (i, j)) :
    (applyOp canonicalize content (.deleteSection heading) =
        .ok (textBefore (content.splitOn lineFeed) i ++ textAfter (content.splitOn lineFeed) j) ↔
      FirstOccurrence content (textOf (content.splitOn lineFeed) i j) (textBefore (content.splitOn lineFeed) i).length) ∧
    (applyOp canonicalize content (.replaceSection heading text) =
        .ok (textBefore (content.splitOn lineFeed) i ++ sectionText heading text ++ textAfter (content.splitOn lineFeed) j) ↔
      ExpandsInPlace content (textOf (content.splitOn lineFeed) i j) (sectionText heading text)
        (textBefore (content.splitOn lineFeed) i).length) := by
  obtain ⟨hij, hj, -⟩ := sectionLines_bounds h
  obtain ⟨u, rest, hsec, hget⟩ := getSection_some h
  have hcontent : content = textBefore (content.splitOn lineFeed) i ++ textOf (content.splitOn lineFeed) i j ++
      textAfter (content.splitOn lineFeed) j := by
    have hlines : [lineFeed].intercalate (content.splitOn lineFeed) = content := List.intercalate_splitOn lineFeed
    conv_lhs => rw [← hlines]
    exact text_of_lines hij hj
  simp only [applyOp, hget, Except.ok.injEq]
  rw [← hsec]
  generalize textBefore (content.splitOn lineFeed) i = before at *
  generalize textOf (content.splitOn lineFeed) i j = matched at *
  generalize textAfter (content.splitOn lineFeed) j = after at *
  subst hcontent
  refine ⟨?_, replace_eq_iff⟩
  have hdelete := @replace_eq_iff before matched after []
  rw [List.append_nil] at hdelete
  exact hdelete.trans expandsInPlace_nil

end Edits

/-! ## Runs of the edits -/

/-- A section whose text stands nowhere before it, with another one after it. -/
def twoSections : JsString := JsString.ofString "intro\n# A\nfirst\n# B\nlast"

/-- A section whose text is quoted before it, in a line that is no heading. -/
def quotedSection : JsString := JsString.ofString "see # A\nfirst\n# A\nfirst"

theorem edits_only_section_twoSections :
    (applyOp id twoSections (.deleteSection (JsString.ofString "A")) =
        .ok (textBefore (twoSections.splitOn lineFeed) 1 ++ textAfter (twoSections.splitOn lineFeed) 3) ↔
      FirstOccurrence twoSections (textOf (twoSections.splitOn lineFeed) 1 3) (textBefore (twoSections.splitOn lineFeed) 1).length) ∧
    (applyOp id twoSections (.replaceSection (JsString.ofString "A") (JsString.ofString "new")) =
        .ok (textBefore (twoSections.splitOn lineFeed) 1 ++ sectionText (JsString.ofString "A") (JsString.ofString "new") ++
          textAfter (twoSections.splitOn lineFeed) 3) ↔
      ExpandsInPlace twoSections (textOf (twoSections.splitOn lineFeed) 1 3)
        (sectionText (JsString.ofString "A") (JsString.ofString "new")) (textBefore (twoSections.splitOn lineFeed) 1).length) :=
  edits_only_section (by decide)

/-- The deletion of the section takes the quotation and leaves the section. -/
theorem edits_only_section_false :
    ¬ ∀ (content heading text : JsString) (i j : Nat),
      sectionLines id heading (content.splitOn lineFeed) = some (i, j) →
        applyOp id content (.deleteSection heading) =
          .ok (textBefore (content.splitOn lineFeed) i ++ textAfter (content.splitOn lineFeed) j) ∧
        applyOp id content (.replaceSection heading text) =
          .ok (textBefore (content.splitOn lineFeed) i ++ sectionText heading text ++ textAfter (content.splitOn lineFeed) j) := by
  intro hall
  obtain ⟨hdelete, -⟩ := hall quotedSection (JsString.ofString "A") [] 2 4 (by decide)
  have hleft : applyOp id quotedSection (.deleteSection (JsString.ofString "A")) = .ok (JsString.ofString "see \n# A\nfirst") := by
    have hget : getSection id quotedSection (JsString.ofString "A") = some (JsString.ofString "# A\nfirst") := by decide
    have hreplace : JsString.replace quotedSection (JsString.ofString "# A\nfirst") [] = JsString.ofString "see \n# A\nfirst" := by
      decide
    simp only [applyOp, hget]
    exact congrArg Except.ok hreplace
  rw [hleft, Except.ok.injEq] at hdelete
  revert hdelete
  decide

end UniDocs.Markdown
