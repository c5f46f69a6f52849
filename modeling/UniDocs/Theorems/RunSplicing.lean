import UniDocs.Lemmas.RunCutting

/-!
# Style run splicing

Of the runs of a text, whose lengths are natural numbers, `spliceRuns` makes runs of the text after a replacement: what is not
replaced keeps its style, the inserted text takes the style of the run at the start of the interval, and no run is empty or
could be merged. It refuses runs that do not cover the text and intervals that meet two styles, and nothing else. Without runs there is
no style for an inserted text to take, and the result stays without runs.
-/

namespace UniDocs.Psd

open Lib Lib.Runs

/-- The style at a position, up to the comparison of styles. -/
def styleKeyAt (runs : List (Run ℚ Value)) (x : ℚ) : Option JsString := (styleAt runs x).map stableJson

/-- The runs of the text after a replacement. The unit `i` of a text covers the positions from `i` to before `i + 1`. -/
structure Splices (range : Replacement) (newLength : Nat) (runs new : List (Run ℚ Value)) : Prop where
  total : total new = newLength
  covered : ∀ x : ℚ, 0 ≤ x → x < newLength → (styleKeyAt new x).isSome = true
  kept_before : ∀ x : ℚ, 0 ≤ x → x < range.start → styleKeyAt new x = styleKeyAt runs x
  inserted : ∀ x : ℚ, range.start ≤ x → x < range.start + range.insert →
    styleKeyAt new x = (startStyle runs range.start).map stableJson
  kept_behind : ∀ x : ℚ, range.start + range.insert ≤ x → x < newLength →
    styleKeyAt new x = styleKeyAt runs (x - range.insert + (range.stop - range.start))
  merged : Merged stableJson new

theorem spliceRuns_splices {range : Replacement} {contentLength newLength : Nat} (hrange : range.start ≤ range.stop)
    (hstop : range.stop ≤ contentLength) (hlength : newLength + range.stop = contentLength + range.start + range.insert)
    {runs new : List (Run ℚ Value)} (hruns : NonNeg runs) (hne : runs ≠ [] ∨ range.insert = 0)
    (h : spliceRuns runs range contentLength = .ok new) : Splices range newLength runs new := by
  rw [spliceRuns] at h
  split at h
  · cases h
  · rename_i htotal
    rw [not_not] at htotal
    split at h
    · cases h
    · set cut := cutFrom range (touched range runs).head? 0 0 runs with hcut
      have hpos : ∀ run ∈ cut, 0 < run.length := cutFrom_pos range _ runs 0 0
      have hnew : mergeAdjacent cut = new := by simpa using h
      have hkey : ∀ x, 0 ≤ x → styleKeyAt new x = styleKeyAt cut x := fun x hx => by
        rw [← hnew]
        exact styleAt_merge hpos hx
      have hmerged : Merged stableJson new := hnew ▸ merged_merge hpos
      have hsame : Runs.total new = Runs.total cut := by
        rw [← hnew]
        exact total_merge cut
      have hlengthQ : (newLength : ℚ) + range.stop = contentLength + range.start + range.insert := by exact_mod_cast hlength
      have hstart0 : (0 : ℚ) ≤ range.start := Nat.cast_nonneg _
      have hinsert0 : (0 : ℚ) ≤ range.insert := Nat.cast_nonneg _
      have hcovered : Runs.total new = newLength → ∀ x : ℚ, 0 ≤ x → x < newLength → (styleKeyAt new x).isSome = true := by
        intro heq x hx hlt
        have hsome := styleAt_isSome (fun run hrun => le_of_lt (hmerged.pos run hrun)) hx (by rw [heq]; exact hlt)
        rw [styleKeyAt, Option.isSome_map]
        exact hsome
      rcases eq_or_ne runs [] with rfl | hsome
      · have hinsert : range.insert = 0 := hne.resolve_left fun hne => hne rfl
        rw [total_nil] at htotal
        have hzero : contentLength = 0 := by exact_mod_cast htotal.symm
        have hempty : new = [] := by rw [← hnew]; rfl
        have hnil : newLength = 0 := by omega
        subst hempty
        refine ⟨by simp [hnil], hcovered (by simp [hnil]), fun _ _ _ => rfl, fun x hx hlt => ?_, fun _ _ _ => rfl, hmerged⟩
        rw [hinsert, Nat.cast_zero, add_zero] at hlt
        exact absurd hlt (not_lt.mpr hx)
      · have hstopQ : (range.stop : ℚ) ≤ Runs.total runs := by
          rw [htotal]
          exact_mod_cast hstop
        obtain ⟨before, run, after, rfl, hhead, hlow, hhigh, hstyle⟩ := touched_head hrange hruns hsome hstopQ
        rw [hhead] at hcut
        obtain ⟨hsum, hbefore, hin, hbehind⟩ := cutFrom_styles hrange hruns hlow hhigh hstopQ
        rw [← hcut] at hsum hbefore hin hbehind
        have htotalNew : Runs.total new = newLength := by linarith
        refine ⟨htotalNew, hcovered htotalNew, fun x hx hlt => ?_, fun x hx hlt => ?_, fun x hx _ => ?_, hmerged⟩
        · rw [hkey x hx, styleKeyAt, styleKeyAt, hbefore x hx hlt]
        · rw [hkey x (by linarith), styleKeyAt, hin x hx hlt, hstyle]
        · rw [hkey x (by linarith), styleKeyAt, styleKeyAt, hbehind x hx]

theorem spliceRuns_error_iff {range : Replacement} {contentLength : Nat} (hrange : range.start ≤ range.stop)
    {runs : List (Run ℚ Value)} (hruns : NonNeg runs) :
    (∃ error, spliceRuns runs range contentLength = .error error) ↔
      total runs ≠ contentLength ∨ MeetsTwoStyles range runs := by
  rw [spliceRuns]
  by_cases htotal : total runs ≠ contentLength
  · simp [htotal]
  · rw [if_neg htotal]
    by_cases hstyles : 1 < (distinctStyles runs (touched range runs)).length
    · rw [if_pos hstyles]
      simp [(one_lt_distinct hrange hruns).mp hstyles]
    · rw [if_neg hstyles]
      have hnone : ¬ MeetsTwoStyles range runs := fun hmeets => hstyles ((one_lt_distinct hrange hruns).mpr hmeets)
      simp [htotal, hnone]

/-- Splicing the runs of a text, of lengths that are natural numbers, for the replacement between two texts, unless text is
inserted where there are no runs. -/
theorem runs_spliced (before after : JsString) (runs : List (Run ℚ Value)) (hwhole : ∀ run ∈ runs, ∃ n : Nat, run.length = n)
    (hne : runs ≠ [] ∨ (diffRange before after).insert = 0) :
    (∀ new, spliceRuns runs (diffRange before after) before.length = .ok new →
        Splices (diffRange before after) after.length runs new) ∧
      ∀ error, spliceRuns runs (diffRange before after) before.length = .error error →
        total runs ≠ before.length ∨ MeetsTwoStyles (diffRange before after) runs := by
  have hdiff := diffRange_diff before after
  have hruns : NonNeg runs := by
    intro run hrun
    obtain ⟨n, hn⟩ := hwhole run hrun
    rw [hn]
    exact Nat.cast_nonneg n
  refine ⟨fun new h => ?_, fun error h => ?_⟩
  · exact spliceRuns_splices hdiff.start_le hdiff.stop_le hdiff.lengths hruns hne h
  · exact (spliceRuns_error_iff hdiff.start_le hruns).mp ⟨error, h⟩

/-! ## Texts, and texts without runs -/

/-- A style with one entry. -/
def colour (name : String) : Value := .object [("color", .string name)]

/-- The second of two lines gets a shorter text, and the first keeps its style. -/
theorem runs_spliced_line :
    (∃ new, spliceRuns [⟨3, colour "black"⟩, ⟨4, colour "red"⟩] ⟨4, 7, 1⟩ 7 = .ok new ∧ new.map Run.length = [3, 2]) ∧
      ∀ new, spliceRuns [⟨3, colour "black"⟩, ⟨4, colour "red"⟩]
        (diffRange (JsString.ofString "ab\nwxyz") (JsString.ofString "ab\nwv")) 7 = .ok new →
          Splices (diffRange (JsString.ofString "ab\nwxyz") (JsString.ofString "ab\nwv")) 5
            [⟨3, colour "black"⟩, ⟨4, colour "red"⟩] new :=
  ⟨exists_ok (List.map Run.length) (by with_unfolding_all decide),
    (runs_spliced (JsString.ofString "ab\nwxyz") (JsString.ofString "ab\nwv") [⟨3, colour "black"⟩, ⟨4, colour "red"⟩]
      (by simpa using ⟨⟨3, by norm_num⟩, ⟨4, by norm_num⟩⟩) (Or.inl (by simp))).1⟩

/-- Text inserted where there are no runs stays without one; a run that goes backwards is lost, and the others cover too much;
an empty run inside the interval is met, although no unit has its style. -/
theorem runs_spliced_false :
    (¬ ∀ (before after : JsString) (runs : List (Run ℚ Value)), total runs = before.length →
      ∀ new, spliceRuns runs (diffRange before after) before.length = .ok new →
        Splices (diffRange before after) after.length runs new) ∧
      (∃ new, spliceRuns [⟨5, colour "black"⟩, ⟨-2, colour "black"⟩]
        (diffRange (JsString.ofString "abc") (JsString.ofString "abcd")) 3 = .ok new ∧ total new = 6) ∧
      (∃ error, spliceRuns [⟨1, colour "black"⟩, ⟨0, colour "red"⟩, ⟨1, colour "black"⟩]
        (diffRange (JsString.ofString "ab") (JsString.ofString "c")) 2 = .error error) ∧
      ∀ x : ℚ, 0 ≤ x → x < 2 →
        styleAt [⟨1, colour "black"⟩, ⟨0, colour "red"⟩, ⟨1, colour "black"⟩] x = some (colour "black") := by
  refine ⟨fun hall => ?_, exists_ok total (by with_unfolding_all decide), exists_error (by with_unfolding_all decide),
    fun x hx hlt => ?_⟩
  · have hempty : spliceRuns [] (diffRange [] (JsString.ofString "abc")) 0 = .ok [] := rfl
    have htotal := (hall [] (JsString.ofString "abc") [] rfl [] hempty).total
    exact absurd htotal (by decide)
  · rw [styleAt, styleAt, styleAt]
    split
    · rfl
    · rw [if_neg (by linarith), if_pos (by linarith)]

end UniDocs.Psd
