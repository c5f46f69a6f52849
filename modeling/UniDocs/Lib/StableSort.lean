import Mathlib.Data.List.Sort
import Mathlib.Data.List.TakeWhile

/-!
# Sorting by a comparator

A stable sort by a total preorder, compared with a strict order on the same elements: the sorted list is strictly increasing
exactly when the comparator keeps each pair of elements in place that the strict order has in place.
-/

namespace Lib.StableSort

variable {α : Type} {r s : α → α → Prop} [DecidableRel r]

/-- Inserting puts an element behind the ones that it does not come before, and in front of the others. -/
theorem pairwise_orderedInsert_iff (htrans : ∀ a b c, r a b → r b c → r a c) {a : α} {l : List α} (hl : l.Pairwise r)
    (hasymm : ∀ b ∈ l, s a b → ¬ s b a) (htri : ∀ b ∈ l, s a b ∨ s b a) :
    (l.orderedInsert r a).Pairwise s ↔ l.Pairwise s ∧ ∀ b ∈ l, (r a b ↔ s a b) := by
  rw [List.orderedInsert_eq_take_drop]
  have hsplit : l.takeWhile (fun b => decide ¬ r a b) ++ l.dropWhile (fun b => decide ¬ r a b) = l :=
    List.takeWhile_append_dropWhile
  have htake : ∀ b ∈ l.takeWhile (fun b => decide ¬ r a b), ¬ r a b := fun b hb => by
    simpa using List.mem_takeWhile_imp hb
  -- Everything behind the first element that `a` comes before is one that `a` comes before.
  have hdrop : ∀ b ∈ l.dropWhile (fun b => decide ¬ r a b), r a b := by
    intro b hb
    have hsorted : (l.dropWhile (fun b => decide ¬ r a b)).Pairwise r := hl.sublist (List.dropWhile_sublist _)
    cases hcase : l.dropWhile (fun b => decide ¬ r a b) with
    | nil =>
      rw [hcase] at hb
      cases hb
    | cons c rest =>
      have hc : r a c := by
        have hhead := List.head?_dropWhile_not (fun b => decide ¬ r a b) l
        rw [hcase] at hhead
        simpa using hhead
      rw [hcase] at hb hsorted
      rcases List.mem_cons.mp hb with rfl | hrest
      · exact hc
      · exact htrans _ _ _ hc ((List.pairwise_cons.mp hsorted).1 b hrest)
  generalize l.takeWhile (fun b => decide ¬ r a b) = front at hsplit htake
  generalize l.dropWhile (fun b => decide ¬ r a b) = back at hsplit hdrop
  subst hsplit
  simp only [List.pairwise_append, List.pairwise_cons, List.mem_cons, List.mem_append]
  constructor
  · rintro ⟨hfront, ⟨hback, hbacks⟩, hcross⟩
    refine ⟨⟨hfront, hbacks, fun x hx y hy => hcross x hx y (.inr hy)⟩, ?_⟩
    rintro b (hb | hb)
    · have hba : s b a := hcross b hb a (.inl rfl)
      exact ⟨fun h => absurd h (htake b hb), fun h => absurd hba (hasymm b (List.mem_append_left _ hb) h)⟩
    · exact ⟨fun _ => hback b hb, fun _ => hdrop b hb⟩
  · rintro ⟨⟨hfront, hbacks, hcross⟩, hagree⟩
    refine ⟨hfront, ⟨fun b hb => (hagree b (.inr hb)).mp (hdrop b hb), hbacks⟩, ?_⟩
    rintro x hx y (rfl | hy)
    · rcases htri x (List.mem_append_left _ hx) with h | h
      · exact absurd ((hagree x (.inl hx)).mpr h) (htake x hx)
      · exact h
    · exact hcross x hx y hy

/-- A stable sort by a comparator is strictly increasing in an order exactly when the comparator says of each earlier element
and each later one what the order says of them. -/
theorem pairwise_insertionSort_iff (htotal : ∀ a b, r a b ∨ r b a) (htrans : ∀ a b c, r a b → r b c → r a c) {l : List α}
    (hasymm : ∀ a b, s a b → ¬ s b a) (htri : l.Pairwise fun a b => s a b ∨ s b a) :
    (l.insertionSort r).Pairwise s ↔ l.Pairwise fun a b => r a b ↔ s a b := by
  have := Std.Total.mk htotal
  have : IsTrans α r := ⟨htrans⟩
  induction l with
  | nil => simp
  | cons a l ih =>
    rw [List.pairwise_cons] at htri
    have hsorted := ih htri.2
    have hinsert := pairwise_orderedInsert_iff htrans (List.pairwise_insertionSort r l) (fun b _ => hasymm a b)
      (fun b hb => htri.1 b ((List.perm_insertionSort r l).mem_iff.mp hb))
    simp only [(List.perm_insertionSort r l).mem_iff] at hinsert
    rw [List.insertionSort_cons, hinsert, List.pairwise_cons, and_comm]
    exact and_congr_right fun _ => hsorted

end Lib.StableSort
