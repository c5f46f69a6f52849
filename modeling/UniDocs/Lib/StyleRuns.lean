import Mathlib.Algebra.Order.BigOperators.Group.List
import Mathlib.Algebra.Order.Group.Unbundled.Basic
import Mathlib.Data.List.Chain

/-!
# Runs of styles

A sequence of runs covers the positions from zero to the sum of its lengths; each run gives its style to the positions it
covers. Styles are compared by a key. Merging neighbours whose styles have the same key changes the style of no position up to
its key.
-/

namespace Lib

/-- A stretch of positions with one style. -/
structure Run (N S : Type*) where
  length : N
  style : S
  deriving DecidableEq, Repr

namespace Runs

variable {N S K : Type*} [AddCommGroup N] [LinearOrder N] [IsOrderedAddMonoid N]

/-! ## Positions -/

/-- The sum of the lengths. -/
def total (runs : List (Run N S)) : N := (runs.map Run.length).sum

/-- The style at a position, counted from zero. -/
def styleAt : List (Run N S) → N → Option S
  | [], _ => none
  | run :: runs, x => if x < run.length then some run.style else styleAt runs (x - run.length)

/-- No run has a negative length. -/
def NonNeg (runs : List (Run N S)) : Prop := ∀ run ∈ runs, 0 ≤ run.length

section Totals

omit [LinearOrder N] [IsOrderedAddMonoid N]

@[simp] theorem total_nil : total ([] : List (Run N S)) = 0 := rfl

@[simp] theorem total_cons (run : Run N S) (runs : List (Run N S)) : total (run :: runs) = run.length + total runs := by
  simp [total]

@[simp] theorem total_append (xs ys : List (Run N S)) : total (xs ++ ys) = total xs + total ys := by
  simp [total]

end Totals

variable {runs : List (Run N S)}

omit [IsOrderedAddMonoid N] in
theorem NonNeg.cons {run : Run N S} :
    NonNeg (run :: runs) ↔ 0 ≤ run.length ∧ NonNeg runs := List.forall_mem_cons

omit [IsOrderedAddMonoid N] in
theorem NonNeg.append {xs ys : List (Run N S)} : NonNeg (xs ++ ys) ↔ NonNeg xs ∧ NonNeg ys := List.forall_mem_append

theorem NonNeg.total_nonneg (h : NonNeg runs) : 0 ≤ total runs := by
  refine List.sum_nonneg fun n hn => ?_
  obtain ⟨run, hrun, rfl⟩ := List.mem_map.mp hn
  exact h run hrun

/-- The style at a position of two sequences, one behind the other. -/
theorem styleAt_append {xs : List (Run N S)} (h : NonNeg xs) (ys : List (Run N S)) {x : N} (hx : 0 ≤ x) :
    styleAt (xs ++ ys) x = if x < total xs then styleAt xs x else styleAt ys (x - total xs) := by
  induction xs generalizing x with
  | nil => simp [not_lt.mpr hx]
  | cons run xs ih =>
    obtain ⟨hrun, hxs⟩ := NonNeg.cons.mp h
    simp only [List.cons_append, styleAt, total_cons]
    by_cases hlt : x < run.length
    · have hall : x < run.length + total xs := lt_of_lt_of_le hlt (le_add_of_nonneg_right hxs.total_nonneg)
      rw [if_pos hlt, if_pos hall, if_pos hlt]
    · rw [if_neg hlt, ih hxs (sub_nonneg.mpr (not_lt.mp hlt)), sub_sub, if_neg hlt]
      simp only [sub_lt_iff_lt_add']

theorem styleAt_inside {before after : List (Run N S)} {run : Run N S} (h : NonNeg before) {x : N} (hlow : total before ≤ x)
    (hhigh : x < total before + run.length) : styleAt (before ++ run :: after) x = some run.style := by
  rw [styleAt_append h _ (le_trans h.total_nonneg hlow), if_neg (not_lt.mpr hlow), styleAt,
    if_pos (sub_lt_iff_lt_add'.mpr hhigh)]

/-- A position that is covered lies inside a run. -/
theorem exists_run {x : N} (hx : 0 ≤ x) (hlt : x < total runs) :
    ∃ before run after, runs = before ++ run :: after ∧ total before ≤ x ∧ x < total before + run.length := by
  induction runs generalizing x with
  | nil => exact absurd hlt (not_lt.mpr hx)
  | cons run runs ih =>
    by_cases hrun : x < run.length
    · exact ⟨[], run, runs, rfl, by simpa using hx, by simpa using hrun⟩
    · have hrest : x - run.length < total runs := by
        rw [total_cons] at hlt
        exact sub_lt_iff_lt_add'.mpr hlt
      obtain ⟨before, found, after, rfl, hlow, hhigh⟩ := ih (sub_nonneg.mpr (not_lt.mp hrun)) hrest
      refine ⟨run :: before, found, after, rfl, ?_, ?_⟩
      · rw [total_cons]
        exact le_sub_iff_add_le'.mp hlow
      · rw [total_cons, add_assoc]
        exact sub_lt_iff_lt_add'.mp hhigh

theorem styleAt_isSome (h : NonNeg runs) {x : N} (hx : 0 ≤ x) (hlt : x < total runs) :
    (styleAt runs x).isSome = true := by
  obtain ⟨before, run, after, rfl, hlow, hhigh⟩ := exists_run hx hlt
  rw [styleAt_inside (NonNeg.append.mp h).1 hlow hhigh]
  rfl

theorem styleAt_of_total_le (h : NonNeg runs) {x : N} (hle : total runs ≤ x) : styleAt runs x = none := by
  induction runs generalizing x with
  | nil => rfl
  | cons run runs ih =>
    obtain ⟨_, hruns⟩ := NonNeg.cons.mp h
    rw [total_cons] at hle
    have hrun : run.length ≤ x := le_trans (le_add_of_nonneg_right hruns.total_nonneg) hle
    rw [styleAt, if_neg (not_lt.mpr hrun), ih hruns (le_sub_iff_add_le'.mpr hle)]

/-! ## Empty runs -/

/-- A sequence without its empty runs. -/
def dropEmpty (runs : List (Run N S)) : List (Run N S) := runs.filter fun run => 0 < run.length

omit [IsOrderedAddMonoid N] in
theorem total_dropEmpty (h : NonNeg runs) : total (dropEmpty runs) = total runs := by
  induction runs with
  | nil => rfl
  | cons run runs ih =>
    obtain ⟨hrun, hruns⟩ := NonNeg.cons.mp h
    have hrest := ih hruns
    rw [dropEmpty] at hrest
    rcases hrun.eq_or_lt with hzero | hpos
    · rw [dropEmpty, List.filter_cons_of_neg (by simp [← hzero]), hrest, total_cons, ← hzero, zero_add]
    · rw [dropEmpty, List.filter_cons_of_pos (by simpa using hpos), total_cons, total_cons, hrest]

theorem styleAt_dropEmpty (h : NonNeg runs) {x : N} (hx : 0 ≤ x) :
    styleAt (dropEmpty runs) x = styleAt runs x := by
  induction runs generalizing x with
  | nil => rfl
  | cons run runs ih =>
    obtain ⟨hrun, hruns⟩ := NonNeg.cons.mp h
    rw [dropEmpty] at ih ⊢
    rcases hrun.eq_or_lt with hzero | hpos
    · rw [List.filter_cons_of_neg (by simp [← hzero]), ih hruns hx, styleAt, ← hzero, if_neg (not_lt.mpr hx), sub_zero]
    · rw [List.filter_cons_of_pos (by simpa using hpos), styleAt, styleAt]
      by_cases hlt : x < run.length
      · rw [if_pos hlt, if_pos hlt]
      · rw [if_neg hlt, if_neg hlt, ih hruns (sub_nonneg.mpr (not_lt.mp hlt))]

omit [IsOrderedAddMonoid N] in
theorem nonNeg_dropEmpty (runs : List (Run N S)) : NonNeg (dropEmpty runs) :=
  fun _ hrun => le_of_lt (of_decide_eq_true (List.mem_filter.mp hrun).2)

/-! ## Merging neighbours -/

variable [DecidableEq K] (key : S → K)

/-- A run behind others, as a part of the last of them if their styles have the same key. -/
def push (out : List (Run N S)) (run : Run N S) : List (Run N S) :=
  match out.getLast? with
  | some last =>
    if key last.style = key run.style then out.dropLast ++ [⟨last.length + run.length, last.style⟩] else out ++ [run]
  | none => out ++ [run]

/-- Neighbours whose styles have the same key become one run. -/
def merge (runs : List (Run N S)) : List (Run N S) := runs.foldl (push key) []

/-- No run is empty, and neighbours have different styles. -/
structure Merged (runs : List (Run N S)) : Prop where
  pos : ∀ run ∈ runs, 0 < run.length
  differ : runs.IsChain fun a b => key a.style ≠ key b.style

omit [IsOrderedAddMonoid N] [LinearOrder N] in
theorem push_cases (out : List (Run N S)) (run : Run N S) :
    (push key out run = out ++ [run] ∧ ∀ last, out.getLast? = some last → key last.style ≠ key run.style) ∨
      ∃ front last, out = front ++ [last] ∧ key last.style = key run.style ∧
        push key out run = front ++ [⟨last.length + run.length, last.style⟩] := by
  rw [push]
  split
  · rename_i last hlast
    split
    · rename_i hkey
      obtain ⟨front, rfl⟩ := List.getLast?_eq_some_iff.mp hlast
      exact Or.inr ⟨front, last, rfl, hkey, by rw [List.dropLast_concat]⟩
    · rename_i hkey
      refine Or.inl ⟨rfl, fun other hother => ?_⟩
      rw [hlast] at hother
      rw [← Option.some.inj hother]
      exact hkey
  · rename_i hnone
    exact Or.inl ⟨rfl, fun last hlast => by rw [hnone] at hlast; cases hlast⟩

variable {key}

omit [IsOrderedAddMonoid N] [LinearOrder N] in
theorem total_push (out : List (Run N S)) (run : Run N S) : total (push key out run) = total out + run.length := by
  rcases push_cases key out run with ⟨heq, _⟩ | ⟨front, last, rfl, _, heq⟩
  · simp [heq]
  · simp [heq, add_assoc]

theorem Merged.push {out : List (Run N S)} (h : Merged key out) {run : Run N S} (hrun : 0 < run.length) :
    Merged key (push key out run) := by
  rcases push_cases key out run with ⟨heq, hdiffer⟩ | ⟨front, last, rfl, _, heq⟩
  · rw [heq]
    refine ⟨fun other hother => ?_, List.IsChain.append h.differ (List.isChain_singleton _) ?_⟩
    · rcases List.mem_append.mp hother with hother | hother
      · exact h.pos other hother
      · rw [List.mem_singleton.mp hother]
        exact hrun
    · intro last hlast first hfirst
      cases Option.mem_some_iff.mp hfirst
      exact hdiffer last hlast
  · rw [heq]
    have hlast : 0 < last.length := h.pos last (List.mem_append_right _ (List.mem_singleton_self _))
    obtain ⟨hfront, _, hjoin⟩ := List.isChain_append.mp h.differ
    refine ⟨fun other hother => ?_, List.IsChain.append hfront (List.isChain_singleton _) ?_⟩
    · rcases List.mem_append.mp hother with hother | hother
      · exact h.pos other (List.mem_append_left _ hother)
      · rw [List.mem_singleton.mp hother]
        exact add_pos hlast hrun
    · intro before hbefore first hfirst
      cases Option.mem_some_iff.mp hfirst
      exact hjoin before hbefore last rfl

theorem styleAt_push {out : List (Run N S)} (h : NonNeg out) {run : Run N S} (hrun : 0 ≤ run.length) {x : N} (hx : 0 ≤ x) :
    (styleAt (push key out run) x).map key = (styleAt (out ++ [run]) x).map key := by
  rcases push_cases key out run with ⟨heq, _⟩ | ⟨front, last, rfl, hkey, heq⟩
  · rw [heq]
  · obtain ⟨hfront, hlast⟩ := NonNeg.append.mp h
    have hlast0 : 0 ≤ last.length := hlast last (List.mem_singleton_self _)
    rw [heq, List.append_assoc, styleAt_append hfront _ hx, styleAt_append hfront _ hx]
    by_cases hlt : x < total front
    · rw [if_pos hlt, if_pos hlt]
    · rw [if_neg hlt, if_neg hlt]
      simp only [List.singleton_append, styleAt]
      by_cases hin : x - total front < last.length
      · rw [if_pos (lt_of_lt_of_le hin (le_add_of_nonneg_right hrun)), if_pos hin]
      · rw [if_neg hin]
        by_cases hnext : x - total front < last.length + run.length
        · rw [if_pos hnext, if_pos (sub_lt_iff_lt_add'.mpr hnext), Option.map_some, Option.map_some, hkey]
        · rw [if_neg hnext, if_neg fun hlt => hnext (sub_lt_iff_lt_add'.mp hlt)]

theorem merged_foldl {out runs : List (Run N S)} (h : Merged key out) (hruns : ∀ run ∈ runs, 0 < run.length) :
    Merged key (runs.foldl (push key) out) := by
  induction runs generalizing out with
  | nil => exact h
  | cons run runs ih =>
    obtain ⟨hrun, hruns⟩ := List.forall_mem_cons.mp hruns
    exact ih (h.push hrun) hruns

/-- Merging sequences without empty runs leaves no empty run and no equal neighbours. -/
theorem merged_merge (hruns : ∀ run ∈ runs, 0 < run.length) : Merged key (merge key runs) :=
  merged_foldl ⟨by simp, List.IsChain.nil⟩ hruns

omit [IsOrderedAddMonoid N] [LinearOrder N] in
theorem total_merge (runs : List (Run N S)) : total (merge key runs) = total runs := by
  have hall : ∀ out, total (runs.foldl (push key) out) = total out + total runs := by
    induction runs with
    | nil => simp
    | cons run runs ih => exact fun out => by rw [List.foldl_cons, ih, total_push, total_cons, add_assoc]
  rw [merge, hall, total_nil, zero_add]

theorem styleAt_foldl {out runs : List (Run N S)} (h : Merged key out) (hruns : ∀ run ∈ runs, 0 < run.length) {x : N}
    (hx : 0 ≤ x) : (styleAt (runs.foldl (push key) out) x).map key = (styleAt (out ++ runs) x).map key := by
  induction runs generalizing out with
  | nil => simp
  | cons run runs ih =>
    obtain ⟨hrun, hruns⟩ := List.forall_mem_cons.mp hruns
    have hout : NonNeg out := fun other hother => le_of_lt (h.pos other hother)
    have hnew : NonNeg (push key out run) := fun other hother => le_of_lt ((h.push hrun).pos other hother)
    have hone : NonNeg (out ++ [run]) := NonNeg.append.mpr ⟨hout, fun other hother => by
      rw [List.mem_singleton.mp hother]
      exact le_of_lt hrun⟩
    have htotal : total (push key out run) = total (out ++ [run]) := by
      rw [total_push]
      simp
    rw [List.foldl_cons, ih (h.push hrun) hruns, styleAt_append hnew _ hx, htotal,
      show out ++ run :: runs = (out ++ [run]) ++ runs by simp, styleAt_append hone _ hx]
    by_cases hlt : x < total (out ++ [run])
    · rw [if_pos hlt, if_pos hlt, styleAt_push hout (le_of_lt hrun) hx]
    · rw [if_neg hlt, if_neg hlt]

theorem styleAt_merge (hruns : ∀ run ∈ runs, 0 < run.length) {x : N} (hx : 0 ≤ x) :
    (styleAt (merge key runs) x).map key = (styleAt runs x).map key :=
  styleAt_foldl ⟨by simp, List.IsChain.nil⟩ hruns hx

end Runs

end Lib
