import Mathlib.Data.List.Dedup
import Mathlib.Tactic.Linarith
import UniDocs.Lib.Result
import UniDocs.Psd.TextRuns

/-!
# Cutting runs

What the loops of `diffRange` and `spliceRuns` do: the interval they find, the runs it meets, and the new runs position by
position. Before the run that takes the inserted text everything stays; behind it the replaced interval is left out.
-/

namespace UniDocs.Psd

open Lib Lib.Runs

/-! ## The replaced interval -/

/-- The loop stops at its bound or at the first count that fails the test. -/
theorem countWhile_spec (test : Nat → Bool) (left count : Nat) :
    count ≤ countWhile test left count ∧ countWhile test left count ≤ count + left ∧
      (∀ i, count ≤ i → i < countWhile test left count → test i = true) ∧
      (countWhile test left count < count + left → test (countWhile test left count) = false) := by
  induction left generalizing count with
  | zero =>
    refine ⟨le_refl _, le_refl _, fun i hlow hhigh => ?_, fun hlt => ?_⟩
    · rw [countWhile] at hhigh
      omega
    · rw [countWhile] at hlt
      omega
  | succ left ih =>
    rw [countWhile]
    by_cases htest : test count = true
    · rw [if_pos htest]
      obtain ⟨hlow, hhigh, hall, hstop⟩ := ih (count + 1)
      refine ⟨by omega, by omega, fun i hi hlt => ?_, fun hlt => hstop (by omega)⟩
      rcases Nat.eq_or_lt_of_le hi with rfl | hi
      · exact htest
      · exact hall i hi hlt
    · rw [if_neg htest]
      refine ⟨le_refl _, by omega, fun i hlow hhigh => by omega, fun _ => ?_⟩
      exact Bool.eq_false_iff.mpr htest

/-- The texts agree before and behind the interval, and next to it they differ where both have units left. -/
structure Diff (before after : JsString) (range : Replacement) : Prop where
  start_le : range.start ≤ range.stop
  stop_le : range.stop ≤ before.length
  lengths : after.length + range.stop = before.length + range.start + range.insert
  same_before : ∀ i < range.start, before[i]? = after[i]?
  same_behind : ∀ i, range.stop ≤ i → i < before.length → before[i]? = after[i - range.stop + (range.start + range.insert)]?
  differ_start : range.start < before.length → range.start < after.length → before[range.start]? ≠ after[range.start]?
  differ_stop : range.start < range.stop → 0 < range.insert →
    before[range.stop - 1]? ≠ after[range.start + range.insert - 1]?

theorem diffRange_diff (before after : JsString) : Diff before after (diffRange before after) := by
  set most := min before.length after.length with hmost
  obtain ⟨_, hprefix, hbefore, hstart⟩ := countWhile_spec (fun i => before[i]? == after[i]?) most 0
  set p := countWhile (fun i => before[i]? == after[i]?) most 0 with hp
  obtain ⟨_, hsuffix, hbehind, hstop⟩ :=
    countWhile_spec (fun i => before[before.length - 1 - i]? == after[after.length - 1 - i]?) (most - p) 0
  set s := countWhile (fun i => before[before.length - 1 - i]? == after[after.length - 1 - i]?) (most - p) 0 with hs
  have hrange : diffRange before after = ⟨p, before.length - s, after.length - p - s⟩ := rfl
  have hleft : most ≤ before.length := min_le_left _ _
  have hright : most ≤ after.length := min_le_right _ _
  rw [hrange]
  refine ⟨by dsimp only; omega, by dsimp only; omega, by dsimp only; omega, fun i hi => ?_, fun i hlow hhigh => ?_,
    fun h1 h2 => ?_, fun h1 h2 => ?_⟩
  · exact eq_of_beq (hbefore i (Nat.zero_le i) hi)
  · dsimp only at hlow
    have hindex := eq_of_beq (hbehind (before.length - 1 - i) (Nat.zero_le _) (by omega))
    have h1 : before.length - 1 - (before.length - 1 - i) = i := by omega
    have h2 : after.length - 1 - (before.length - 1 - i) = i - (before.length - s) + (p + (after.length - p - s)) := by omega
    rwa [h1, h2] at hindex
  · dsimp only at h1 h2 ⊢
    have hlt : p < 0 + most := by
      rw [hmost]
      omega
    exact fun heq => by simpa [heq] using hstart hlt
  · dsimp only at h1 h2 ⊢
    have hlt : s < 0 + (most - p) := by omega
    have h3 : before.length - 1 - s = before.length - s - 1 := by omega
    have h4 : after.length - 1 - s = p + (after.length - p - s) - 1 := by omega
    intro heq
    have hfalse := hstop hlt
    rw [h3, h4, heq] at hfalse
    simp at hfalse

/-! ## The units of a run that are left -/

variable {range : Replacement} {position : ℚ} {run : Run ℚ Value}

theorem kept_before (hrange : range.start ≤ range.stop) (hrun : 0 ≤ run.length) (h : position + run.length ≤ range.start) :
    range.kept position run = run.length := by
  have hle : (range.start : ℚ) ≤ range.stop := by exact_mod_cast hrange
  have hmax : (range.stop : ℚ) ≤ max (range.stop : ℚ) position := le_max_left _ _
  rw [Replacement.kept, min_eq_left (by linarith), max_eq_right hrun, max_eq_left (by linarith), add_zero]

theorem kept_inside (hrange : range.start ≤ range.stop) (hlow : position ≤ range.start)
    (hhigh : (range.start : ℚ) ≤ position + run.length) :
    range.kept position run = range.start - position + max 0 (position + run.length - range.stop) := by
  have hle : (range.start : ℚ) ≤ range.stop := by exact_mod_cast hrange
  rw [Replacement.kept, min_eq_right (by linarith), max_eq_right (by linarith),
    max_eq_left (by linarith : position ≤ (range.stop : ℚ))]

theorem kept_behind (h : (range.start : ℚ) ≤ position) :
    range.kept position run = max 0 (position + run.length - max (range.stop : ℚ) position) := by
  have hmin : min run.length (range.start - position) ≤ 0 := le_trans (min_le_right _ _) (by linarith)
  rw [Replacement.kept, max_eq_left hmin, zero_add]

theorem kept_nonneg (range : Replacement) (position : ℚ) (run : Run ℚ Value) : 0 ≤ range.kept position run :=
  add_nonneg (le_max_left _ _) (le_max_left _ _)

/-! ## The new runs -/

theorem cutFrom_pos (range : Replacement) (insertAt : Option Nat) (runs : List (Run ℚ Value)) :
    ∀ position i, ∀ run ∈ cutFrom range insertAt position i runs, 0 < run.length := by
  induction runs with
  | nil => simp [cutFrom]
  | cons run runs ih =>
    intro position i other hother
    rw [cutFrom] at hother
    generalize range.kept position run + _ = length at hother
    split at hother
    · rename_i hpos
      rcases List.mem_cons.mp hother with rfl | hother
      · exact hpos
      · exact ih _ _ other hother
    · exact ih _ _ other hother

/-- The runs in front of the replaced interval stay, but for the empty ones. -/
theorem cutFrom_before (hrange : range.start ≤ range.stop) {before : List (Run ℚ Value)} (hbefore : NonNeg before)
    (rest : List (Run ℚ Value)) {j i : Nat} (hj : i + before.length ≤ j) (h : position + total before ≤ range.start) :
    cutFrom range (some j) position i (before ++ rest) =
      dropEmpty before ++ cutFrom range (some j) (position + total before) (i + before.length) rest := by
  induction before generalizing position i with
  | nil => simp [dropEmpty]
  | cons run before ih =>
    obtain ⟨hrun, hbefore⟩ := NonNeg.cons.mp hbefore
    rw [total_cons] at h
    rw [List.length_cons] at hj
    have hkept : range.kept position run = run.length :=
      kept_before hrange hrun (by linarith [hbefore.total_nonneg])
    have hne : ¬ some j = some i := fun heq => by
      cases heq
      omega
    rw [List.cons_append, cutFrom, hkept, if_neg hne, add_zero, ih hbefore (by omega) (by linarith), total_cons, List.length_cons, ← add_assoc,
      show i + 1 + before.length = i + (before.length + 1) by omega, dropEmpty, dropEmpty]
    by_cases hpos : 0 < run.length
    · rw [if_pos hpos, List.filter_cons_of_pos (by simpa using hpos), List.cons_append]
    · rw [if_neg hpos, List.filter_cons_of_neg (by simpa using hpos)]

variable {runs : List (Run ℚ Value)}

/-- Behind the start of the interval, what is left of it is left out. -/
theorem cutFrom_behind (hruns : NonNeg runs) {j i : Nat} (hj : j < i)
    (hstart : (range.start : ℚ) ≤ position) (hstop : (range.stop : ℚ) ≤ position + total runs) :
    total (cutFrom range (some j) position i runs) = total runs - max 0 (range.stop - position) ∧
      ∀ x, 0 ≤ x → styleAt (cutFrom range (some j) position i runs) x = styleAt runs (x + max 0 (range.stop - position)) := by
  induction runs generalizing position i with
  | nil =>
    rw [total_nil, add_zero] at hstop
    refine ⟨?_, fun x _ => by simp [cutFrom, styleAt]⟩
    rw [cutFrom, total_nil, max_eq_left (by linarith), sub_zero]
  | cons run runs ih =>
    obtain ⟨hrun, hruns⟩ := NonNeg.cons.mp hruns
    rw [total_cons] at hstop
    obtain ⟨htotal, hstyle⟩ := @ih (position + run.length) hruns (i + 1) (by omega) (by linarith) (by linarith)
    have hne : ¬ some j = some i := fun heq => by
      cases heq
      omega
    have hkept : range.kept position run = run.length - min run.length (max 0 (range.stop - position)) ∧
        max 0 ((range.stop : ℚ) - (position + run.length)) =
          max 0 (range.stop - position) - min run.length (max 0 (range.stop - position)) := by
      rw [kept_behind hstart]
      rcases le_total (range.stop : ℚ) position with hle | hle
      · rw [max_eq_right hle, max_eq_left (by linarith : (range.stop : ℚ) - position ≤ 0), min_eq_right hrun,
          max_eq_right (by linarith : 0 ≤ position + run.length - position),
          max_eq_left (by linarith : (range.stop : ℚ) - (position + run.length) ≤ 0)]
        constructor <;> ring
      · rw [max_eq_left hle, max_eq_right (by linarith : 0 ≤ (range.stop : ℚ) - position)]
        rcases le_total (range.stop : ℚ) (position + run.length) with hin | hin
        · rw [min_eq_right (by linarith), max_eq_right (by linarith : 0 ≤ position + run.length - range.stop),
            max_eq_left (by linarith : (range.stop : ℚ) - (position + run.length) ≤ 0)]
          constructor <;> ring
        · rw [min_eq_left (by linarith), max_eq_left (by linarith : position + run.length - range.stop ≤ 0),
            max_eq_right (by linarith : 0 ≤ (range.stop : ℚ) - (position + run.length))]
          constructor <;> ring
    obtain ⟨hkept, hnext⟩ := hkept
    set gap := max 0 ((range.stop : ℚ) - position) with hgap
    have hgap0 : 0 ≤ gap := le_max_left _ _
    have hmin := min_le_left run.length gap
    have hmin' := min_le_right run.length gap
    rw [cutFrom, hkept, if_neg hne, add_zero]
    rw [hnext] at htotal hstyle
    split
    · rename_i hpos
      have hlt : gap < run.length := by
        by_contra hle
        rw [min_eq_left (not_lt.mp hle), sub_self] at hpos
        exact lt_irrefl _ hpos
      rw [min_eq_right (le_of_lt hlt), sub_self] at htotal hstyle
      rw [min_eq_right (le_of_lt hlt)]
      refine ⟨by rw [total_cons, htotal, total_cons]; ring, fun x hx => ?_⟩
      rw [styleAt, styleAt]
      by_cases hin : x < run.length - gap
      · rw [if_pos hin, if_pos (by linarith)]
      · rw [if_neg hin, if_neg (by linarith), hstyle _ (by linarith), add_zero]
        congr 1
        ring
    · rename_i hpos
      have hle : run.length ≤ gap := by
        by_contra hlt
        rw [min_eq_right (le_of_lt (not_le.mp hlt))] at hpos
        exact hpos (by linarith)
      rw [min_eq_left hle] at htotal hstyle
      refine ⟨by rw [htotal, total_cons]; ring, fun x hx => ?_⟩
      rw [hstyle x hx, styleAt, if_neg (by linarith)]
      congr 1
      ring

/-- The new runs where the inserted text goes to a run that the start of the interval lies in or next to. -/
theorem cutFrom_styles (hrange : range.start ≤ range.stop) {before after : List (Run ℚ Value)}
    (hruns : NonNeg (before ++ run :: after)) (hlow : total before ≤ range.start)
    (hhigh : (range.start : ℚ) ≤ total before + run.length) (hstop : (range.stop : ℚ) ≤ total (before ++ run :: after)) :
    let cut := cutFrom range (some before.length) 0 0 (before ++ run :: after)
    total cut + range.stop = total (before ++ run :: after) + range.start + range.insert ∧
      (∀ x : ℚ, 0 ≤ x → x < range.start → styleAt cut x = styleAt (before ++ run :: after) x) ∧
      (∀ x : ℚ, range.start ≤ x → x < range.start + range.insert → styleAt cut x = some run.style) ∧
      ∀ x : ℚ, range.start + range.insert ≤ x →
        styleAt cut x = styleAt (before ++ run :: after) (x - range.insert + (range.stop - range.start)) := by
  obtain ⟨hbefore, hrest⟩ := NonNeg.append.mp hruns
  obtain ⟨hrun, hafter⟩ := NonNeg.cons.mp hrest
  have hle : (range.start : ℚ) ≤ range.stop := by exact_mod_cast hrange
  have hinsert : (0 : ℚ) ≤ range.insert := Nat.cast_nonneg _
  have hstart0 : (0 : ℚ) ≤ range.start := Nat.cast_nonneg _
  rw [total_append, total_cons] at hstop
  set length : ℚ := range.start - total before + max 0 (total before + run.length - range.stop) + range.insert with hlength
  have hpart : 0 ≤ max 0 (total before + run.length - range.stop) := le_max_left _ _
  have hlength0 : 0 ≤ length := by linarith
  set front := before ++ [⟨length, run.style⟩] with hfront
  have hnonneg : NonNeg front := NonNeg.append.mpr ⟨hbefore, fun other hother => by
    rw [List.mem_singleton.mp hother]
    exact hlength0⟩
  set rest := cutFrom range (some before.length) (total before + run.length) (before.length + 1) after with hrestdef
  obtain ⟨htotal, hstyle⟩ := cutFrom_behind hafter (j := before.length) (i := before.length + 1)
    (by omega) hhigh (by linarith)
  have hcut : cutFrom range (some before.length) 0 0 (before ++ run :: after) = dropEmpty front ++ rest := by
    rw [cutFrom_before hrange hbefore _ (by omega) (by linarith), zero_add, zero_add, cutFrom, if_pos rfl,
      kept_inside hrange hlow hhigh, hfront, dropEmpty, dropEmpty, List.filter_append, List.append_assoc]
    by_cases hpos : 0 < length
    · rw [if_pos hpos, List.filter_cons_of_pos (by simpa using hpos)]
      rfl
    · rw [if_neg hpos, List.filter_cons_of_neg (by simpa using hpos)]
      rfl
  have htotalFront : total front = total before + length := by simp [hfront]
  have hat : ∀ x, 0 ≤ x → styleAt (dropEmpty front ++ rest) x =
      if x < total before + length then styleAt front x else styleAt rest (x - (total before + length)) := by
    intro x hx
    rw [styleAt_append (nonNeg_dropEmpty front) _ hx, total_dropEmpty hnonneg, styleAt_dropEmpty hnonneg hx, htotalFront]
  have hinside : ∀ x, total before ≤ x → x < total before + length → styleAt front x = some run.style :=
    fun x h1 h2 => styleAt_inside hbefore h1 h2
  intro cut
  have hcutEq : cut = dropEmpty front ++ rest := hcut
  rw [hcutEq]
  refine ⟨?_, fun x hx hlt => ?_, fun x hx hlt => ?_, fun x hx => ?_⟩
  · rw [total_append, total_dropEmpty hnonneg, htotalFront, htotal, total_append, total_cons]
    rcases le_total (range.stop : ℚ) (total before + run.length) with hin | hin
    · rw [hlength, max_eq_right (by linarith : 0 ≤ total before + run.length - range.stop),
        max_eq_left (by linarith : (range.stop : ℚ) - (total before + run.length) ≤ 0)]
      ring
    · rw [hlength, max_eq_left (by linarith : total before + run.length - range.stop ≤ 0),
        max_eq_right (by linarith : 0 ≤ (range.stop : ℚ) - (total before + run.length))]
      ring
  · rw [hat x hx, if_pos (by linarith), styleAt_append hbefore (run :: after) hx]
    by_cases hb : x < total before
    · rw [if_pos hb, hfront, styleAt_append hbefore [⟨length, run.style⟩] hx, if_pos hb]
    · rw [if_neg hb, hinside x (not_lt.mp hb) (by linarith), styleAt, if_pos (by linarith)]
  · rw [hat x (by linarith), if_pos (by linarith), hinside x (by linarith) (by linarith)]
  · have hright : styleAt (before ++ run :: after) (x - range.insert + (range.stop - range.start)) =
        styleAt (run :: after) (x - range.insert + (range.stop - range.start) - total before) := by
      rw [styleAt_append hbefore _ (by linarith), if_neg (by linarith)]
    rw [hat x (by linarith), hright, styleAt]
    rcases le_total (range.stop : ℚ) (total before + run.length) with hin | hin
    · have hl : length = total before + run.length - range.stop + (range.start - total before) + range.insert := by
        rw [hlength, max_eq_right (by linarith : 0 ≤ total before + run.length - range.stop)]
        ring
      by_cases hb : x < total before + length
      · rw [if_pos hb, hinside x (by linarith) hb, if_pos (by linarith)]
      · rw [if_neg hb, hstyle _ (by linarith), if_neg (by linarith),
          max_eq_left (by linarith : (range.stop : ℚ) - (total before + run.length) ≤ 0), hl]
        congr 1
        ring
    · have hl : length = range.start - total before + range.insert := by
        rw [hlength, max_eq_left (by linarith : total before + run.length - range.stop ≤ 0), add_zero]
      rw [if_neg (by linarith), hstyle _ (by linarith), if_neg (by linarith),
        max_eq_right (by linarith : 0 ≤ (range.stop : ℚ) - (total before + run.length)), hl]
      congr 1
      ring

/-! ## The runs that the interval meets -/

theorem intersects_iff (range : Replacement) (low high : ℚ) : range.intersects low high = true ↔
    if range.start = range.stop then low ≤ range.start ∧ (range.start : ℚ) < high
    else (range.start : ℚ) < high ∧ low < range.stop := by
  rw [Replacement.intersects]
  split <;> simp

/-- The indices of the runs that are met. -/
theorem mem_touchedFrom (range : Replacement) (runs : List (Run ℚ Value)) (position : ℚ) (i k : Nat) :
    k ∈ touchedFrom range position i runs ↔ ∃ before run after, runs = before ++ run :: after ∧ k = i + before.length ∧
      range.intersects (position + total before) (position + total before + run.length) = true := by
  induction runs generalizing position i with
  | nil => simp [touchedFrom]
  | cons first runs ih =>
    have hrest : k ∈ touchedFrom range (position + first.length) (i + 1) runs ↔
        ∃ before run after, first :: runs = first :: before ++ run :: after ∧ k = i + (first :: before).length ∧
          range.intersects (position + total (first :: before)) (position + total (first :: before) + run.length) = true := by
      rw [ih]
      simp only [List.cons_append, List.cons.injEq, true_and, total_cons, List.length_cons, add_assoc, zero_add,
        show ∀ n, i + (n + 1) = i + (1 + n) by omega]
    have hsplit : (∃ before run after, first :: runs = before ++ run :: after ∧ k = i + before.length ∧
        range.intersects (position + total before) (position + total before + run.length) = true) ↔
        (k = i ∧ range.intersects position (position + first.length) = true) ∨
          k ∈ touchedFrom range (position + first.length) (i + 1) runs := by
      rw [hrest]
      constructor
      · rintro ⟨before, run, after, heq, hk, hmet⟩
        cases before with
        | nil =>
          cases heq
          exact Or.inl ⟨by simpa using hk, by simpa using hmet⟩
        | cons other before =>
          cases heq
          exact Or.inr ⟨before, run, after, rfl, hk, hmet⟩
      · rintro (⟨hk, hmet⟩ | ⟨before, run, after, heq, hk, hmet⟩)
        · exact ⟨[], first, runs, rfl, by simpa using hk, by simpa using hmet⟩
        · exact ⟨first :: before, run, after, heq, hk, hmet⟩
    rw [hsplit, touchedFrom]
    by_cases hmet : range.intersects position (position + first.length) = true
    · rw [if_pos hmet, List.mem_cons]
      simp [hmet]
    · rw [if_neg hmet]
      simp [hmet]

/-- The first run that is met, and where the runs end if none is. -/
theorem touchedFrom_cases (hrange : range.start ≤ range.stop) (hruns : NonNeg runs) (i : Nat)
    (h : position ≤ range.start) :
    (touchedFrom range position i runs = [] ∧ position + total runs ≤ range.start) ∨
      ∃ before run after rest, touchedFrom range position i runs = (i + before.length) :: rest ∧
        runs = before ++ run :: after ∧ position + total before ≤ range.start ∧
        (range.start : ℚ) < position + total before + run.length := by
  induction runs generalizing position i with
  | nil => exact Or.inl ⟨rfl, by simpa using h⟩
  | cons first runs ih =>
    obtain ⟨_, hruns⟩ := NonNeg.cons.mp hruns
    rw [touchedFrom]
    by_cases hmet : range.intersects position (position + first.length) = true
    · rw [if_pos hmet]
      refine Or.inr ⟨[], first, runs, _, rfl, rfl, by simpa using h, ?_⟩
      have hboth := (intersects_iff _ _ _).mp hmet
      rw [total_nil, add_zero]
      split at hboth
      · exact hboth.2
      · exact hboth.1
    · rw [if_neg hmet]
      -- a run that starts no later than the interval and is not met ends no later than the interval starts
      have hend : position + first.length ≤ range.start := by
        by_contra hlt
        refine hmet ((intersects_iff _ _ _).mpr ?_)
        split
        · exact ⟨h, not_le.mp hlt⟩
        · rename_i hne
          have hstrict : (range.start : ℚ) < range.stop := by exact_mod_cast lt_of_le_of_ne hrange hne
          exact ⟨not_le.mp hlt, lt_of_le_of_lt h hstrict⟩
      rcases ih hruns (i + 1) hend with ⟨hnil, htotal⟩ | ⟨before, run, after, rest, htouched, heq, hlow, hhigh⟩
      · exact Or.inl ⟨hnil, by rw [total_cons]; linarith⟩
      · refine Or.inr ⟨first :: before, run, after, rest, ?_, by rw [heq]; rfl, ?_, ?_⟩
        · rw [htouched, List.length_cons, show i + 1 + before.length = i + (before.length + 1) by omega]
        · rw [total_cons]
          linarith
        · rw [total_cons]
          linarith

/-- The style of the run that contains a position, and of the last run at the end of the text. -/
def startStyle (runs : List (Run ℚ Value)) (start : ℚ) : Option Value :=
  (styleAt runs start).or (runs.getLast?.map Run.style)

/-- The run that takes the inserted text. -/
theorem touched_head (hrange : range.start ≤ range.stop) (hruns : NonNeg runs) (hne : runs ≠ [])
    (hstop : (range.stop : ℚ) ≤ total runs) :
    ∃ (before : List (Run ℚ Value)) (run : Run ℚ Value) (after : List (Run ℚ Value)), runs = before ++ run :: after ∧
      (touched range runs).head? = some before.length ∧ total before ≤ range.start ∧ (range.start : ℚ) ≤ total before + run.length ∧
      startStyle runs range.start = some run.style := by
  have hle : (range.start : ℚ) ≤ range.stop := by exact_mod_cast hrange
  rcases touchedFrom_cases hrange hruns 0 (show (0 : ℚ) ≤ range.start from Nat.cast_nonneg _) with
    ⟨hnil, htotal⟩ | ⟨before, run, after, rest, htouched, heq, hlow, hhigh⟩
  · obtain ⟨before, run, heq⟩ := (List.eq_nil_or_concat runs).resolve_left hne
    rw [List.concat_eq_append] at heq
    subst heq
    obtain ⟨hbefore, hrun⟩ := NonNeg.append.mp hruns
    have hrun0 : 0 ≤ run.length := hrun run (List.mem_singleton_self _)
    simp only [total_append, total_cons, total_nil, add_zero, zero_add] at htotal hstop
    refine ⟨before, run, [], rfl, ?_, by linarith, by linarith, ?_⟩
    · rw [touched, hnil, if_pos (by simp)]
      simp
    · rw [startStyle, styleAt_of_total_le hruns (by simp; linarith)]
      simp
  · rw [zero_add] at hlow hhigh
    refine ⟨before, run, after, heq, ?_, hlow, le_of_lt hhigh, ?_⟩
    · rw [touched, htouched, zero_add]
      rfl
    · subst heq
      rw [startStyle, styleAt_inside (NonNeg.append.mp hruns).1 hlow hhigh]
      rfl

/-- The interval meets a run: it starts before the run ends and ends after the run starts. An empty run strictly inside the
interval is met. -/
def Meets (range : Replacement) (runs : List (Run ℚ Value)) (run : Run ℚ Value) : Prop :=
  ∃ before after, runs = before ++ run :: after ∧ (range.start : ℚ) < total before + run.length ∧ total before < range.stop

/-- Units are replaced, and the interval meets runs with different styles. -/
def MeetsTwoStyles (range : Replacement) (runs : List (Run ℚ Value)) : Prop :=
  range.start < range.stop ∧
    ∃ a b, Meets range runs a ∧ Meets range runs b ∧ stableJson a.style ≠ stableJson b.style

theorem one_lt_dedup {α : Type*} [DecidableEq α] (l : List α) : 1 < l.dedup.length ↔ ∃ a ∈ l, ∃ b ∈ l, a ≠ b := by
  constructor
  · intro h
    obtain ⟨a, b, rest, heq⟩ : ∃ a b rest, l.dedup = a :: b :: rest := by
      match hl : l.dedup with
      | [] | [_] => simp [hl] at h
      | a :: b :: rest => exact ⟨a, b, rest, rfl⟩
    have hnodup := List.nodup_dedup l
    rw [heq, List.nodup_cons, List.mem_cons, not_or] at hnodup
    refine ⟨a, List.mem_dedup.mp (by simp [heq]), b, List.mem_dedup.mp (by simp [heq]), hnodup.1.1⟩
  · rintro ⟨a, ha, b, hb, hne⟩
    have hsub : [a, b].Subperm l.dedup := List.subperm_of_subset (by simpa using hne) (by
      intro x hx
      rcases List.mem_pair.mp hx with rfl | rfl
      · exact List.mem_dedup.mpr ha
      · exact List.mem_dedup.mpr hb)
    exact hsub.length_le

theorem mem_distinct {indices : List Nat} {text : JsString} :
    (∃ i ∈ indices, ∃ run, runs[i]? = some run ∧ stableJson run.style = text) ↔
      text ∈ indices.filterMap fun i => runs[i]?.map fun run => stableJson run.style := by
  simp [List.mem_filterMap, Option.map_eq_some_iff]

theorem one_lt_distinct (hrange : range.start ≤ range.stop) (hruns : NonNeg runs) :
    1 < (distinctStyles runs (touched range runs)).length ↔ MeetsTwoStyles range runs := by
  have hindex : ∀ {before run after k}, runs = before ++ run :: after → k = 0 + before.length → runs[k]? = some run := by
    rintro before run after k rfl rfl
    simp
  rw [distinctStyles, one_lt_dedup]
  simp only [← mem_distinct]
  constructor
  · rintro ⟨_, ⟨i, hi, a, ha, rfl⟩, _, ⟨j, hj, b, hb, rfl⟩, hne⟩
    rw [touched] at hi hj
    split at hi
    · rename_i hnil
      rw [hnil] at hj
      split at hi
      · dsimp only at hj
        rw [if_pos ‹_›, List.mem_singleton] at hj
        rw [List.mem_singleton.mp hi, ← hj, hb] at ha
        exact absurd (by rw [Option.some.inj ha]) hne
      · cases hi
    · rename_i hfound
      have hj' : j ∈ touchedFrom range 0 0 runs := by
        split at hj
        · exact absurd ‹_› hfound
        · exact hj
      obtain ⟨before, run, after, heq, hk, hmet⟩ := (mem_touchedFrom range runs 0 0 i).mp hi
      obtain ⟨before', run', after', heq', hk', hmet'⟩ := (mem_touchedFrom range runs 0 0 j).mp hj'
      rw [hindex heq hk] at ha
      rw [hindex heq' hk'] at hb
      cases ha
      cases hb
      rw [intersects_iff, zero_add] at hmet hmet'
      by_cases hpoint : range.start = range.stop
      · -- a point lies inside one run only
        rw [if_pos hpoint] at hmet hmet'
        have hstyle : styleAt runs range.start = some a.style := by
          rw [heq]
          exact styleAt_inside (NonNeg.append.mp (heq ▸ hruns)).1 hmet.1 hmet.2
        have hstyle' : styleAt runs range.start = some b.style := by
          rw [heq']
          exact styleAt_inside (NonNeg.append.mp (heq' ▸ hruns)).1 hmet'.1 hmet'.2
        rw [hstyle] at hstyle'
        exact absurd (by rw [Option.some.inj hstyle']) hne
      · rw [if_neg hpoint] at hmet hmet'
        exact ⟨lt_of_le_of_ne hrange hpoint, a, b, ⟨before, after, heq, hmet⟩, ⟨before', after', heq', hmet'⟩, hne⟩
  · rintro ⟨hlt, a, b, ⟨before, after, heq, hmet⟩, ⟨before', after', heq', hmet'⟩, hne⟩
    have hmem : ∀ {before run after}, runs = before ++ run :: after →
        ((range.start : ℚ) < total before + run.length ∧ total before < range.stop) →
        before.length ∈ touchedFrom range 0 0 runs := by
      intro before run after heq hmet
      refine (mem_touchedFrom range runs 0 0 _).mpr ⟨before, run, after, heq, by rw [zero_add], ?_⟩
      rw [intersects_iff, zero_add, if_neg (by omega)]
      exact hmet
    have htouched : touched range runs = touchedFrom range 0 0 runs := by
      rw [touched]
      split
      · rename_i hnil
        have hin := hmem heq hmet
        rw [hnil] at hin
        cases hin
      · rfl
    rw [htouched]
    exact ⟨_, ⟨_, hmem heq hmet, a, hindex heq (by rw [zero_add]), rfl⟩, _,
      ⟨_, hmem heq' hmet', b, hindex heq' (by rw [zero_add]), rfl⟩, hne⟩

/-! ## The sum of the new lengths -/

/-- The units up to a position that are not replaced. -/
def Replacement.outside (range : Replacement) (x : ℚ) : ℚ := min x range.start + max 0 (x - range.stop)

theorem outside_low (hrange : range.start ≤ range.stop) {x : ℚ} (h : x ≤ range.start) : range.outside x = x := by
  have hle : (range.start : ℚ) ≤ range.stop := by exact_mod_cast hrange
  rw [Replacement.outside, min_eq_left h, max_eq_left (by linarith), add_zero]

theorem outside_high {x : ℚ} (h : (range.start : ℚ) ≤ x) : range.outside x = range.start + max 0 (x - range.stop) := by
  rw [Replacement.outside, min_eq_right h]

theorem outside_mono (range : Replacement) {low high : ℚ} (hle : low ≤ high) : range.outside low ≤ range.outside high :=
  add_le_add (min_le_min_right _ hle) (max_le_max_left _ (sub_le_sub_right hle _))

/-- A run that goes backwards takes nothing back exactly where it stays in the interval. -/
theorem outside_le_iff (hrange : range.start ≤ range.stop) {low high : ℚ} (hlt : low < high) :
    range.outside high ≤ range.outside low ↔ (range.start : ℚ) ≤ low ∧ high ≤ range.stop := by
  have hle : (range.start : ℚ) ≤ range.stop := by exact_mod_cast hrange
  constructor
  · intro h
    have hlow : (range.start : ℚ) ≤ low := by
      by_contra hnot
      rw [outside_low hrange (le_of_lt (not_le.mp hnot))] at h
      rcases le_total high range.start with hhigh | hhigh
      · rw [outside_low hrange hhigh] at h
        linarith
      · rw [outside_high hhigh] at h
        have hpart : 0 ≤ max 0 (high - range.stop) := le_max_left _ _
        linarith
    refine ⟨hlow, ?_⟩
    by_contra hnot
    rw [outside_high hlow, outside_high (by linarith), max_eq_right (by linarith : 0 ≤ high - range.stop)] at h
    have hsmall : max 0 (low - range.stop) < high - range.stop := max_lt (by linarith) (by linarith)
    linarith
  · rintro ⟨h1, h2⟩
    rw [outside_high h1, outside_high (by linarith), max_eq_left (by linarith : high - range.stop ≤ 0),
      max_eq_left (by linarith : low - range.stop ≤ 0)]

theorem kept_eq (hrange : range.start ≤ range.stop) (position : ℚ) (run : Run ℚ Value) :
    range.kept position run = max 0 (range.outside (position + run.length) - range.outside position) := by
  have hle : (range.start : ℚ) ≤ range.stop := by exact_mod_cast hrange
  rcases lt_or_ge run.length 0 with hneg | hpos
  · have hback : range.outside (position + run.length) ≤ range.outside position := outside_mono range (by linarith)
    have hmax : position ≤ max (range.stop : ℚ) position := le_max_right _ _
    have hmin : min run.length (range.start - position) ≤ 0 := le_trans (min_le_left _ _) (le_of_lt hneg)
    rw [max_eq_left (by linarith), Replacement.kept, max_eq_left hmin, max_eq_left (by linarith), add_zero]
  · have hforward : range.outside position ≤ range.outside (position + run.length) := outside_mono range (by linarith)
    rw [max_eq_right (by linarith)]
    rcases le_total (position + run.length) range.start with hbefore | hend
    · rw [kept_before hrange hpos hbefore, outside_low hrange hbefore, outside_low hrange (by linarith)]
      ring
    · rcases le_total position range.start with hlow | hlow
      · rw [kept_inside hrange hlow hend, outside_high hend, outside_low hrange hlow]
        ring
      · rw [kept_behind hlow, outside_high hend, outside_high hlow]
        rcases le_total (range.stop : ℚ) position with hstop | hstop
        · rw [max_eq_right hstop, max_eq_right (by linarith : 0 ≤ position + run.length - position),
            max_eq_right (by linarith : 0 ≤ position + run.length - range.stop),
            max_eq_right (by linarith : 0 ≤ position - range.stop)]
          ring
        · rw [max_eq_left hstop, max_eq_left (by linarith : position - range.stop ≤ 0)]
          ring

/-- What is left of all the runs. -/
def keptTotal (range : Replacement) : ℚ → List (Run ℚ Value) → ℚ
  | _, [] => 0
  | position, run :: runs => range.kept position run + keptTotal range (position + run.length) runs

/-- Every run of negative length stays in the replaced interval. -/
def BackwardInside (range : Replacement) (runs : List (Run ℚ Value)) : Prop :=
  ∀ before run after, runs = before ++ run :: after → run.length < 0 →
    (range.start : ℚ) ≤ total before + run.length ∧ total before ≤ range.stop

theorem backwardInside_of_nonNeg (h : NonNeg runs) : BackwardInside range runs :=
  fun before run after heq hneg => absurd (h run (by rw [heq]; simp)) (not_le.mpr hneg)

/-- At least the units outside the interval are left, and no more exactly where no run goes backwards outside of it. -/
theorem keptTotal_spec (hrange : range.start ≤ range.stop) (runs : List (Run ℚ Value)) (position : ℚ) :
    range.outside (position + total runs) - range.outside position ≤ keptTotal range position runs ∧
      (keptTotal range position runs = range.outside (position + total runs) - range.outside position ↔
        ∀ before run after, runs = before ++ run :: after → run.length < 0 →
          range.start ≤ position + total before + run.length ∧ position + total before ≤ range.stop) := by
  induction runs generalizing position with
  | nil => simp [keptTotal]
  | cons run runs ih =>
    obtain ⟨hle, hiff⟩ := ih (position + run.length)
    rw [keptTotal, kept_eq hrange, total_cons, ← add_assoc]
    have hfirst : range.outside (position + run.length) - range.outside position ≤
        max 0 (range.outside (position + run.length) - range.outside position) := le_max_right _ _
    refine ⟨by linarith, ?_⟩
    have hsplit : (∀ before other after, run :: runs = before ++ other :: after → other.length < 0 →
        (range.start : ℚ) ≤ position + total before + other.length ∧ position + total before ≤ range.stop) ↔
        (run.length < 0 → (range.start : ℚ) ≤ position + run.length ∧ position ≤ range.stop) ∧
          ∀ before other after, runs = before ++ other :: after → other.length < 0 →
            (range.start : ℚ) ≤ position + run.length + total before + other.length ∧
              position + run.length + total before ≤ range.stop := by
      constructor
      · refine fun hall => ⟨fun hneg => ?_, fun before other after heq hneg => ?_⟩
        · simpa using hall [] run runs rfl hneg
        · have hback := hall (run :: before) other after (by rw [heq]; rfl) hneg
          rwa [total_cons, ← add_assoc] at hback
      · rintro ⟨hrun, hrest⟩ before other after heq hneg
        cases before with
        | nil =>
          cases heq
          simpa using hrun hneg
        | cons first before =>
          cases heq
          rw [total_cons, ← add_assoc]
          exact hrest before other after rfl hneg
    rw [hsplit, ← hiff]
    have hone : max 0 (range.outside (position + run.length) - range.outside position) =
        range.outside (position + run.length) - range.outside position ↔
        (run.length < 0 → (range.start : ℚ) ≤ position + run.length ∧ position ≤ range.stop) := by
      rw [max_eq_right_iff, sub_nonneg]
      rcases lt_or_ge run.length 0 with hneg | hpos
      · rw [outside_le_iff hrange (by linarith)]
        exact ⟨fun h _ => h, fun h => h hneg⟩
      · exact ⟨fun _ hneg => absurd hpos (not_le.mpr hneg), fun _ => outside_mono range (by linarith)⟩
    rw [← hone]
    constructor
    · intro heq
      exact ⟨by linarith, by linarith⟩
    · rintro ⟨h1, h2⟩
      linarith

theorem total_cutFrom (range : Replacement) (k : Nat) (runs : List (Run ℚ Value)) (position : ℚ) (i : Nat) :
    total (cutFrom range (some k) position i runs) =
      keptTotal range position runs + if i ≤ k ∧ k < i + runs.length then (range.insert : ℚ) else 0 := by
  induction runs generalizing position i with
  | nil =>
    rw [cutFrom, keptTotal, total_nil, if_neg (by rw [List.length_nil]; omega), add_zero]
  | cons run runs ih =>
    have hpiece : ∀ length : ℚ, 0 ≤ length → total (if 0 < length then ⟨length, run.style⟩ ::
        cutFrom range (some k) (position + run.length) (i + 1) runs else
        cutFrom range (some k) (position + run.length) (i + 1) runs) =
        length + total (cutFrom range (some k) (position + run.length) (i + 1) runs) := by
      intro length hlength
      split
      · rw [total_cons]
      · rename_i hnot
        rw [le_antisymm (not_lt.mp hnot) hlength, zero_add]
    have hkept := kept_nonneg range position run
    have hinsert : (0 : ℚ) ≤ range.insert := Nat.cast_nonneg _
    rw [cutFrom, hpiece _ (by split <;> linarith), ih, keptTotal, List.length_cons]
    simp only [Option.some.injEq]
    by_cases hk : k = i
    · rw [if_pos hk, if_neg (by omega), if_pos (by omega)]
      ring
    · rw [if_neg hk]
      by_cases hin : i + 1 ≤ k ∧ k < i + 1 + runs.length
      · rw [if_pos hin, if_pos (by omega)]
        ring
      · rw [if_neg hin, if_neg (by omega)]
        ring

theorem touched_some (range : Replacement) (hne : runs ≠ []) :
    ∃ k, (touched range runs).head? = some k ∧ k < runs.length := by
  have hpos : 0 < runs.length := List.length_pos_iff.mpr hne
  rw [touched]
  split
  · rw [if_pos hpos]
    exact ⟨_, rfl, by omega⟩
  · cases hfound : touchedFrom range 0 0 runs with
    | nil => exact absurd hfound ‹_›
    | cons k rest =>
      obtain ⟨before, run, after, rfl, hk, _⟩ := (mem_touchedFrom range runs 0 0 k).mp (by simp [hfound])
      refine ⟨k, rfl, ?_⟩
      rw [List.length_append, List.length_cons]
      omega

theorem spliced_total {contentLength newLength : Nat} (hrange : range.start ≤ range.stop) (hstop : range.stop ≤ contentLength)
    (hlength : newLength + range.stop = contentLength + range.start + range.insert) {runs new : List (Run ℚ Value)}
    (hne : runs ≠ []) (h : spliceRuns runs range contentLength = .ok new) :
    total new = newLength ↔ BackwardInside range runs := by
  rw [spliceRuns] at h
  split at h
  · cases h
  · rename_i htotal
    rw [not_not] at htotal
    split at h
    · cases h
    · obtain ⟨k, hhead, hk⟩ := touched_some range hne
      have hnew : total new = keptTotal range 0 runs + range.insert := by
        have heq : mergeAdjacent (cutFrom range (touched range runs).head? 0 0 runs) = new := by simpa using h
        rw [← heq, mergeAdjacent, total_merge, hhead, total_cutFrom, if_pos (by omega)]
      have hlengthQ : (newLength : ℚ) + range.stop = contentLength + range.start + range.insert := by exact_mod_cast hlength
      have hstopQ : (range.stop : ℚ) ≤ contentLength := by exact_mod_cast hstop
      have hrangeQ : (range.start : ℚ) ≤ range.stop := by exact_mod_cast hrange
      have hend : range.outside contentLength - range.outside 0 = range.start + (contentLength - range.stop) := by
        have hstart0 : (0 : ℚ) ≤ range.start := Nat.cast_nonneg _
        have hstop0 : (0 : ℚ) ≤ range.stop := Nat.cast_nonneg _
        rw [Replacement.outside, Replacement.outside, min_eq_right (by linarith), max_eq_right (by linarith),
          min_eq_left hstart0, max_eq_left (by linarith)]
        ring
      obtain ⟨_, hiff⟩ := keptTotal_spec hrange runs 0
      simp only [zero_add, htotal, hend] at hiff
      rw [BackwardInside, ← hiff, hnew]
      constructor <;> intro heq <;> linarith

end UniDocs.Psd
