import Mathlib.Algebra.Order.Archimedean.Basic
import UniDocs.Theorems.RunSplicing

/-!
# Ambiguous replacements

Where a text can be changed into another by replacements at several places, `diffRange` takes the last one. Units are replaced
at one place only when some are deleted and some are inserted. For a pure insertion or a pure deletion the other places give
the same styles exactly where the units between them and the chosen place have the style at the chosen place. A pure insertion
is never refused, so nothing keeps it from lying on the other side of a boundary between styles.
-/

namespace UniDocs.Psd

open Lib Lib.Runs

/-- The replacement of some units by others turns one text into the other. -/
def Turns (before after : JsString) (range : Replacement) : Prop :=
  range.start ≤ range.stop ∧ range.stop ≤ before.length ∧
    ∃ text : JsString, text.length = range.insert ∧ after = before.take range.start ++ text ++ before.drop range.stop

/-- Another replacement deletes and inserts as many units and gives the same text. -/
def Alternative (before after : JsString) (other : Replacement) : Prop :=
  Turns before after other ∧
    other.stop - other.start = (diffRange before after).stop - (diffRange before after).start ∧
    other.insert = (diffRange before after).insert

/-- Every replacement that is accepted in the place of the chosen one gives every unit the same style. -/
def StyledAlike (before after : JsString) (runs : List (Run ℚ Value)) : Prop :=
  ∀ new, spliceRuns runs (diffRange before after) before.length = .ok new →
    ∀ other, Alternative before after other → ∀ new', spliceRuns runs other before.length = .ok new' →
      ∀ x : ℚ, 0 ≤ x → x < after.length → styleKeyAt new' x = styleKeyAt new x

/-- From every other place where the interval meets one style up to the chosen place, the units have the style at the chosen
place. -/
def OneStyleBetween (before after : JsString) (runs : List (Run ℚ Value)) : Prop :=
  ∀ other, Alternative before after other → ¬ MeetsTwoStyles other runs →
    ∀ x : ℚ, other.start ≤ x → x < (diffRange before after).start →
      styleKeyAt runs x = (startStyle runs (diffRange before after).start).map stableJson

/-! ## The places of a replacement -/

variable {before after : JsString} {other : Replacement}

theorem Turns.same_before (h : Turns before after other) {i : Nat} (hi : i < other.start) : before[i]? = after[i]? := by
  obtain ⟨h1, h2, text, _, rfl⟩ := h
  rw [List.append_assoc, List.getElem?_append_left (by rw [List.length_take]; omega), List.getElem?_take, if_pos hi]

theorem Turns.length_eq (h : Turns before after other) :
    after.length + other.stop = before.length + other.start + other.insert := by
  obtain ⟨h1, h2, text, htext, rfl⟩ := h
  rw [List.length_append, List.length_append, List.length_take, List.length_drop]
  omega

theorem Turns.same_behind (h : Turns before after other) {i : Nat} (hi : other.stop ≤ i) :
    before[i]? = after[i - other.stop + (other.start + other.insert)]? := by
  obtain ⟨h1, h2, text, htext, rfl⟩ := h
  have hfront : (before.take other.start ++ text).length = other.start + other.insert := by
    rw [List.length_append, List.length_take]
    omega
  rw [List.getElem?_append_right (by rw [hfront]; omega), hfront, List.getElem?_drop]
  congr 1
  omega

/-- The chosen place is the last one. -/
theorem Turns.start_le (h : Turns before after other) : other.start ≤ (diffRange before after).start := by
  have hdiff := diffRange_diff before after
  have hlength := h.length_eq
  obtain ⟨h1, h2, _⟩ := id h
  by_contra hlt
  exact hdiff.differ_start (by omega) (by omega) (h.same_before (by omega))

/-- Where units are deleted and others inserted there is no other place. -/
theorem Alternative.eq_of_both (h : Alternative before after other)
    (hdelete : (diffRange before after).start < (diffRange before after).stop) (hinsert : 0 < (diffRange before after).insert) :
    other = diffRange before after := by
  obtain ⟨hturns, hwidth, hsame⟩ := h
  have hdiff := diffRange_diff before after
  have hle := hturns.start_le
  have hstop := hdiff.stop_le
  have hstart : other.start = (diffRange before after).start := by
    by_contra hne
    have hbehind := hturns.same_behind (i := (diffRange before after).stop - 1) (by omega)
    have hindex : (diffRange before after).stop - 1 - other.stop + (other.start + other.insert) =
        (diffRange before after).start + (diffRange before after).insert - 1 := by
      have := hturns.1
      omega
    rw [hindex] at hbehind
    exact hdiff.differ_stop hdelete hinsert hbehind
  have hend : other.stop = (diffRange before after).stop := by
    have := hturns.1
    omega
  cases other
  simp only at hstart hend hsame
  rw [hstart, hend, hsame]

/-- Nothing is replaced exactly where the texts are the same. -/
theorem diffRange_self (before : JsString) : (diffRange before before).start = before.length ∧
    (diffRange before before).stop = before.length ∧ (diffRange before before).insert = 0 := by
  have hdiff := diffRange_diff before before
  have hstart : before.length ≤ (diffRange before before).start := by
    by_contra hlt
    exact hdiff.differ_start (by omega) (by omega) rfl
  have h1 := hdiff.start_le
  have h2 := hdiff.stop_le
  have h3 := hdiff.lengths
  omega

theorem eq_of_nothing (hstop : (diffRange before after).stop = (diffRange before after).start)
    (hinsert : (diffRange before after).insert = 0) : before = after := by
  have hdiff := diffRange_diff before after
  have hlength := hdiff.lengths
  refine List.ext_getElem? fun i => ?_
  rcases lt_or_ge i (diffRange before after).start with hi | hi
  · exact hdiff.same_before i hi
  · rcases lt_or_ge i before.length with hlt | hge
    · have hbehind := hdiff.same_behind i (by omega) hlt
      rwa [show i - (diffRange before after).stop + ((diffRange before after).start + (diffRange before after).insert) = i by
        omega] at hbehind
    · rw [List.getElem?_eq_none hge, List.getElem?_eq_none (by omega)]

/-! ## Styles that repeat -/

/-- A function that repeats below a bound with a period and is constant on the period from the bound on is constant. -/
theorem constant_of_periodic {α : Type*} {f : ℚ → α} {z : α} {low high : ℚ} {period : Nat} (hperiod : 0 < period)
    (hrepeat : ∀ x, low ≤ x → x < high → f x = f (x + period))
    (hlast : ∀ x, high ≤ x → x < high + period → f x = z) : ∀ x, low ≤ x → x < high → f x = z := by
  have hone : (1 : ℚ) ≤ period := by exact_mod_cast hperiod
  have hall : ∀ n : Nat, ∀ x, low ≤ x → high ≤ x + n → x < high + period → f x = z := by
    intro n
    induction n with
    | zero => exact fun x _ hx hlt => hlast x (by simpa using hx) hlt
    | succ n ih =>
      intro x hlow hx hlt
      rcases lt_or_ge x high with hin | hout
      · rw [hrepeat x hlow hin]
        push_cast at hx
        exact ih (x + period) (by linarith) (by linarith) (by linarith)
      · exact hlast x hout hlt
  intro x hlow hlt
  obtain ⟨n, hn⟩ := exists_nat_ge (high - x)
  exact hall n x hlow (by linarith) (by linarith)

variable {p s t n : Nat} {runs new new' : List (Run ℚ Value)}

/-- Two places of an insertion give the same styles exactly where the units between them have the style of the later place. -/
theorem insertion_iff (hs : s ≤ p) (ht : 0 < t) (hn : p + t ≤ n) (h : Splices ⟨p, p, t⟩ n runs new)
    (h' : Splices ⟨s, s, t⟩ n runs new')
    (hstart : s < p → (startStyle runs s).map stableJson = styleKeyAt runs s) :
    (∀ x : ℚ, 0 ≤ x → x < n → styleKeyAt new' x = styleKeyAt new x) ↔
      ∀ x : ℚ, s ≤ x → x < p → styleKeyAt runs x = (startStyle runs p).map stableJson := by
  have hsp : (s : ℚ) ≤ p := by exact_mod_cast hs
  have hpn : (p : ℚ) + t ≤ n := by exact_mod_cast hn
  have ht0 : (0 : ℚ) < t := by exact_mod_cast ht
  have hs0 : (0 : ℚ) ≤ s := Nat.cast_nonneg _
  have hbehind : ∀ x : ℚ, (p : ℚ) + t ≤ x → x < n → styleKeyAt new x = styleKeyAt runs (x - t) := fun x hx hlt => by
    rw [h.kept_behind x hx hlt, sub_self, add_zero]
  have hbehind' : ∀ x : ℚ, (s : ℚ) + t ≤ x → x < n → styleKeyAt new' x = styleKeyAt runs (x - t) := fun x hx hlt => by
    rw [h'.kept_behind x hx hlt, sub_self, add_zero]
  constructor
  · intro hsame x hlow hlt
    set f : ℚ → Option JsString := fun x => if x < p then styleKeyAt runs x else (startStyle runs p).map stableJson with hf
    have hconstant : ∀ x : ℚ, s ≤ x → x < p → f x = (startStyle runs p).map stableJson := by
      refine constant_of_periodic ht (fun x hlow hlt => ?_) fun x hx _ => by rw [hf]; exact if_neg (not_lt.mpr hx)
      -- the unit at `x` stands at `x + t` in the one text, and in the other the unit there or an inserted one
      have hother := hbehind' (x + t) (by linarith) (by linarith)
      rw [add_sub_cancel_right] at hother
      rw [hf]
      dsimp only
      rw [if_pos hlt, ← hother, hsame _ (by linarith) (by linarith)]
      split
      · rename_i hin
        exact h.kept_before _ (by linarith) hin
      · rename_i hin
        exact h.inserted _ (not_lt.mp hin) (by linarith)
    have hfx := hconstant x hlow hlt
    rw [hf] at hfx
    dsimp only at hfx
    rwa [if_pos hlt] at hfx
  · intro hbetween x hx hlt
    rcases hs.eq_or_lt with rfl | hlts
    · rcases lt_or_ge x s with hin | hin
      · rw [h'.kept_before x hx hin, h.kept_before x hx hin]
      · rcases lt_or_ge x (s + t) with hin' | hin'
        · rw [h'.inserted x hin hin', h.inserted x hin hin']
        · rw [hbehind' x hin' hlt, hbehind x hin' hlt]
    · have hsp' : (s : ℚ) < p := by exact_mod_cast hlts
      have hfirst : (startStyle runs s).map stableJson = (startStyle runs p).map stableJson := by
        rw [hstart hlts, hbetween s (le_refl _) hsp']
      have hother : ∀ y : ℚ, (s : ℚ) ≤ y → y < p + t → y < n → styleKeyAt new' y = (startStyle runs p).map stableJson := by
        intro y hy hyt hyn
        rcases lt_or_ge y (s + t) with hin | hin
        · rw [h'.inserted y hy hin, hfirst]
        · rw [hbehind' y hin hyn, hbetween _ (by linarith) (by linarith)]
      rcases lt_or_ge x s with hin | hin
      · rw [h'.kept_before x hx hin, h.kept_before x hx (lt_trans hin hsp')]
      · rcases lt_or_ge x p with hin' | hin'
        · rw [hother x hin (by linarith) hlt, h.kept_before x hx hin', hbetween x hin hin']
        · rcases lt_or_ge x (p + t) with hin'' | hin''
          · rw [hother x hin hin'' hlt, h.inserted x hin' hin'']
          · rw [hbehind' x (by linarith) hlt, hbehind x hin'' hlt]

/-- Two places of a deletion give the same styles exactly where the units between them have the style of the later place. -/
theorem deletion_iff (hs : s ≤ p) (ht : 0 < t) (hn : p ≤ n) (h : Splices ⟨p, p + t, 0⟩ n runs new)
    (h' : Splices ⟨s, s + t, 0⟩ n runs new') {z : Option JsString}
    (hdeleted : ∀ x : ℚ, p ≤ x → x < p + t → styleKeyAt runs x = z) :
    (∀ x : ℚ, 0 ≤ x → x < n → styleKeyAt new' x = styleKeyAt new x) ↔
      ∀ x : ℚ, s ≤ x → x < p → styleKeyAt runs x = z := by
  have hsp : (s : ℚ) ≤ p := by exact_mod_cast hs
  have hpn : (p : ℚ) ≤ n := by exact_mod_cast hn
  have ht0 : (0 : ℚ) < t := by exact_mod_cast ht
  have hs0 : (0 : ℚ) ≤ s := Nat.cast_nonneg _
  have hbehind : ∀ x : ℚ, (p : ℚ) ≤ x → x < n → styleKeyAt new x = styleKeyAt runs (x + t) := fun x hx hlt => by
    rw [h.kept_behind x (by simpa using hx) hlt]
    congr 1
    push_cast
    ring
  have hbehind' : ∀ x : ℚ, (s : ℚ) ≤ x → x < n → styleKeyAt new' x = styleKeyAt runs (x + t) := fun x hx hlt => by
    rw [h'.kept_behind x (by simpa using hx) hlt]
    congr 1
    push_cast
    ring
  constructor
  · intro hsame
    refine constant_of_periodic ht (fun x hlow hlt => ?_) hdeleted
    rw [← hbehind' x hlow (by linarith), hsame x (by linarith) (by linarith)]
    exact (h.kept_before x (by linarith) hlt).symm
  · intro hbetween x hx hlt
    rcases lt_or_ge x s with hin | hin
    · rw [h'.kept_before x hx hin, h.kept_before x hx (lt_of_lt_of_le hin hsp)]
    · rcases lt_or_ge x p with hin' | hin'
      · rw [hbehind' x hin hlt, h.kept_before x hx hin', hbetween x hin hin']
        rcases lt_or_ge (x + t) p with hnext | hnext
        · exact hbetween _ (by linarith) hnext
        · exact hdeleted _ hnext (by linarith)
      · rw [hbehind' x hin hlt, hbehind x hin' hlt]

/-! ## The places that are accepted -/

variable {range : Replacement} {contentLength : Nat}

theorem startStyle_of_lt (hruns : NonNeg runs) {x : ℚ} (hx : 0 ≤ x) (hlt : x < total runs) :
    (startStyle runs x).map stableJson = styleKeyAt runs x := by
  obtain ⟨style, hstyle⟩ := Option.isSome_iff_exists.mp (styleAt_isSome hruns hx hlt)
  rw [startStyle, styleKeyAt, hstyle]
  rfl

/-- The units of an interval that is accepted have one style. -/
theorem replaced_style (hruns : NonNeg runs) (hlt : range.start < range.stop) (hstop : (range.stop : ℚ) ≤ total runs)
    (hone : ¬ MeetsTwoStyles range runs) {x : ℚ} (hlow : range.start ≤ x) (hhigh : x < range.stop) :
    styleKeyAt runs x = (startStyle runs range.start).map stableJson := by
  have hltQ : (range.start : ℚ) < range.stop := by exact_mod_cast hlt
  have hstart0 : (0 : ℚ) ≤ range.start := Nat.cast_nonneg _
  have hmeets : ∀ y : ℚ, range.start ≤ y → y < range.stop →
      ∃ run, Meets range runs run ∧ styleKeyAt runs y = some (stableJson run.style) := by
    intro y hy hys
    obtain ⟨before, run, after, heq, h1, h2⟩ := exists_run (by linarith : (0 : ℚ) ≤ y) (by linarith : y < total runs)
    refine ⟨run, ⟨before, after, heq, by linarith, by linarith⟩, ?_⟩
    rw [styleKeyAt, heq, styleAt_inside (NonNeg.append.mp (heq ▸ hruns)).1 h1 h2]
    rfl
  obtain ⟨a, ha, hstyle⟩ := hmeets x hlow hhigh
  obtain ⟨b, hb, hfirst⟩ := hmeets range.start (le_refl _) hltQ
  rw [startStyle_of_lt hruns hstart0 (by linarith), hstyle, hfirst]
  by_contra hne
  exact hone ⟨hlt, a, b, ha, hb, fun heq => hne (by rw [heq])⟩

theorem accepted_of_one (hrange : range.start ≤ range.stop) (hruns : NonNeg runs) (hcover : total runs = contentLength)
    (hone : ¬ MeetsTwoStyles range runs) : ∃ new, spliceRuns runs range contentLength = .ok new := by
  cases h : spliceRuns runs range contentLength with
  | ok new => exact ⟨new, rfl⟩
  | error error =>
    rcases (spliceRuns_error_iff hrange hruns).mp ⟨error, h⟩ with hne | htwo
    · exact absurd hcover hne
    · exact absurd htwo hone

theorem one_of_accepted (hrange : range.start ≤ range.stop) (hruns : NonNeg runs)
    (h : spliceRuns runs range contentLength = .ok new) : ¬ MeetsTwoStyles range runs := by
  intro htwo
  obtain ⟨error, herror⟩ := (spliceRuns_error_iff hrange hruns).mpr (Or.inr htwo)
  rw [h] at herror
  cases herror

/-! ## When the place does not matter -/

/-- The same text has the styles it had. -/
theorem styledAlike_self (hruns : NonNeg runs) : StyledAlike before before runs := by
  intro new hnew other ⟨hturns, hwidth, hinsert⟩ new' hnew' x hx hlt
  obtain ⟨hstart, hstop, hnone⟩ := diffRange_self before
  have hdiff := diffRange_diff before before
  have hsplice := spliceRuns_splices hdiff.start_le hdiff.stop_le hdiff.lengths hruns (Or.inr hnone) hnew
  have hother := spliceRuns_splices hturns.1 hturns.2.1 hturns.length_eq hruns (Or.inr (by omega)) hnew'
  have hsame : other.stop = other.start := by
    have := hturns.1
    omega
  rw [hsplice.kept_before x hx (by rw [hstart]; exact hlt)]
  rcases lt_or_ge x other.start with hin | hin
  · exact hother.kept_before x hx hin
  · rw [hother.kept_behind x (by rw [hinsert, hnone]; simpa using hin) hlt, hinsert, hnone, hsame]
    congr 1
    simp

/-- Which replacement is taken does not matter to the styles, of runs that cover the text, exactly where nothing changes, where
the chosen one is refused, or where from every other accepted place up to the chosen one the units have the style there. -/
theorem styledAlike_iff (before after : JsString) (runs : List (Run ℚ Value)) (hruns : NonNeg runs)
    (hcover : total runs = before.length) :
    StyledAlike before after runs ↔
      before = after ∨ MeetsTwoStyles (diffRange before after) runs ∨ OneStyleBetween before after runs := by
  have hdiff := diffRange_diff before after
  by_cases hsame : before = after
  · subst hsame
    simp [styledAlike_self hruns]
  by_cases htwo : MeetsTwoStyles (diffRange before after) runs
  · have hvacuous : StyledAlike before after runs :=
      fun new hnew => absurd htwo (one_of_accepted hdiff.start_le hruns hnew)
    simp [htwo, hvacuous]
  obtain ⟨new, hnew⟩ := accepted_of_one hdiff.start_le hruns hcover htwo
  -- the equivalence for one other place
  suffices hplace : ∀ other, Alternative before after other → ∀ new', spliceRuns runs other before.length = .ok new' →
      ((∀ x : ℚ, 0 ≤ x → x < after.length → styleKeyAt new' x = styleKeyAt new x) ↔
        ∀ x : ℚ, other.start ≤ x → x < (diffRange before after).start →
          styleKeyAt runs x = (startStyle runs (diffRange before after).start).map stableJson) by
    simp only [hsame, htwo, false_or]
    constructor
    · intro halike other hother hone
      obtain ⟨new', hnew'⟩ := accepted_of_one hother.1.1 hruns hcover hone
      exact (hplace other hother new' hnew').mp (halike new hnew other hother new' hnew')
    · intro hbetween chosen hchosen other hother new' hnew'
      rw [hnew] at hchosen
      cases hchosen
      exact (hplace other hother new' hnew').mpr (hbetween other hother (one_of_accepted hother.1.1 hruns hnew'))
  intro other hother new' hnew'
  by_cases heq : other = diffRange before after
  · subst heq
    rw [hnew] at hnew'
    cases hnew'
    exact ⟨fun _ x hlow hlt => absurd hlow (not_le.mpr hlt), fun _ _ _ _ => rfl⟩
  have hle := hother.1.start_le
  obtain ⟨hturns, hwidth, hinsert⟩ := id hother
  have hstopQ : ((diffRange before after).stop : ℚ) ≤ total runs := by
    rw [hcover]
    exact_mod_cast hdiff.stop_le
  have hturnsLe := hturns.1
  have hturnsStop := hturns.2.1
  have hstopLe := hdiff.stop_le
  have hstartLe := hdiff.start_le
  have hne : runs ≠ [] := by
    rintro rfl
    have hzero : (before.length : ℚ) = 0 := by rw [← hcover, total_nil]
    have hnone : before.length = 0 := by exact_mod_cast hzero
    exact heq (Replacement.ext (by omega) (by omega) hinsert)
  have hchosen := spliceRuns_splices hdiff.start_le hdiff.stop_le hdiff.lengths hruns (Or.inl hne) hnew
  have hsplice := spliceRuns_splices hturns.1 hturns.2.1 hturns.length_eq hruns (Or.inl hne) hnew'
  have hlengths := hdiff.lengths
  rcases Nat.eq_zero_or_pos (diffRange before after).insert with hnone | hsome
  · have hdelete : (diffRange before after).start < (diffRange before after).stop :=
      lt_of_le_of_ne hstartLe fun hpoint => hsame (eq_of_nothing hpoint.symm hnone)
    have hdeleted : ∀ x : ℚ, (diffRange before after).start ≤ x → x < (diffRange before after).stop → styleKeyAt runs x =
        (startStyle runs (diffRange before after).start).map stableJson :=
      fun x hlow hhigh => replaced_style hruns hdelete hstopQ htwo hlow hhigh
    generalize diffRange before after = chosen at *
    obtain ⟨p, q, t⟩ := chosen
    obtain ⟨s, e, t'⟩ := other
    simp only at *
    obtain rfl : t = 0 := hnone
    obtain rfl : t' = 0 := hinsert
    obtain ⟨d, rfl⟩ : ∃ d, q = p + d := ⟨q - p, by omega⟩
    obtain rfl : e = s + d := by omega
    push_cast at hdeleted
    exact deletion_iff hle (by omega) (by omega) hchosen hsplice hdeleted
  · have hpoint : (diffRange before after).stop = (diffRange before after).start := by
      by_contra hne
      exact heq (hother.eq_of_both (by omega) hsome)
    have hstart : other.start < (diffRange before after).start →
        (startStyle runs other.start).map stableJson = styleKeyAt runs other.start := by
      intro hlt
      refine startStyle_of_lt hruns (Nat.cast_nonneg _) (lt_of_lt_of_le ?_ hstopQ)
      exact_mod_cast lt_of_lt_of_le hlt hstartLe
    generalize diffRange before after = chosen at *
    obtain ⟨p, q, t⟩ := chosen
    obtain ⟨s, e, t'⟩ := other
    simp only at *
    obtain rfl : t' = t := hinsert
    obtain rfl : q = p := hpoint
    obtain rfl : e = s := by omega
    exact insertion_iff hle hsome (by omega) hchosen hsplice hstart

/-- A repeated letter in one style: it does not matter where the third one is added. -/
theorem styledAlike_letters : StyledAlike (JsString.ofString "aa") (JsString.ofString "aaa") [⟨2, colour "black"⟩] := by
  refine (styledAlike_iff _ _ _ (by simp [NonNeg]) (by rw [total_cons, total_nil, add_zero]; rfl)).mpr
    (Or.inr (Or.inr fun other _ _ x hlow hlt => ?_))
  have hchosen : diffRange (JsString.ofString "aa") (JsString.ofString "aaa") = ⟨2, 2, 1⟩ := by decide
  rw [hchosen] at hlt ⊢
  have hstyle : styleKeyAt [⟨2, colour "black"⟩] x = some (stableJson (colour "black")) := by
    rw [styleKeyAt, styleAt, if_pos (by simpa using hlt)]
    rfl
  rw [hstyle]
  simp [startStyle, styleAt]

/-- The letters have two styles: the chosen insertion behind the last takes the second style, and the one in front of the first
takes the first style, so that the second letter has another style. -/
theorem styledAlike_false : ¬ ∀ (before after : JsString) (runs : List (Run ℚ Value)), NonNeg runs →
    total runs = before.length → StyledAlike before after runs := by
  intro hall
  have halike := hall (JsString.ofString "aa") (JsString.ofString "aaa") [⟨1, colour "black"⟩, ⟨1, colour "red"⟩]
    (by simp [NonNeg]) (by with_unfolding_all decide)
  obtain ⟨new, hnew, hred⟩ : ∃ new, spliceRuns [⟨1, colour "black"⟩, ⟨1, colour "red"⟩]
      (diffRange (JsString.ofString "aa") (JsString.ofString "aaa")) 2 = .ok new ∧
      styleKeyAt new 1 = some (stableJson (colour "red")) := exists_ok (styleKeyAt · 1) (by with_unfolding_all decide)
  obtain ⟨new', hnew', hblack⟩ : ∃ new, spliceRuns [⟨1, colour "black"⟩, ⟨1, colour "red"⟩] ⟨0, 0, 1⟩ 2 = .ok new ∧
      styleKeyAt new 1 = some (stableJson (colour "black")) := exists_ok (styleKeyAt · 1) (by with_unfolding_all decide)
  have hother : Alternative (JsString.ofString "aa") (JsString.ofString "aaa") ⟨0, 0, 1⟩ :=
    ⟨⟨le_refl _, Nat.zero_le _, JsString.ofString "a", rfl, by decide⟩, by decide, by decide⟩
  have hsame := halike new hnew ⟨0, 0, 1⟩ hother new' hnew' 1 (by norm_num) (by decide)
  rw [hred, hblack] at hsame
  exact absurd hsame (by decide)

end UniDocs.Psd
