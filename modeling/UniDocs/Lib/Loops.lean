import Mathlib.Data.Rat.Floor
import Mathlib.Tactic.Linarith

/-!
# Counting loops

A loop over the integers of a range, as a fold over its state. Where each round changes one place of the state and no two
rounds change the same, what the loop leaves at a place is what its one round made of it.
-/

namespace Lib

variable {S P : Type}

/-- `for (let i = lo; i < hi; i++)`. -/
def forRange (lo hi : Int) (body : Int → S → S) (s : S) : S :=
  (List.range (hi - lo).toNat).foldl (fun s (k : Nat) => body (lo + (k : Int)) s) s

/-- A loop that no round of changes what is observed. -/
theorem forRange_same {lo hi : Int} {body : Int → S → S} (view : S → P)
    (h : ∀ i s, lo ≤ i → i < hi → view (body i s) = view s) (s : S) : view (forRange lo hi body s) = view s := by
  have hfold : ∀ (n : Nat), (n : Int) ≤ (hi - lo).toNat →
      view ((List.range n).foldl (fun s (k : Nat) => body (lo + (k : Int)) s) s) = view s := by
    intro n
    induction n with
    | zero => exact fun _ => rfl
    | succ n ih =>
      intro hn
      rw [List.range_succ, List.foldl_append, List.foldl_cons, List.foldl_nil, h _ _ (by omega) (by omega)]
      exact ih (by omega)
  exact hfold _ (le_refl _)

/-- A loop of which one round, if any, changes what is observed. -/
theorem forRange_once {lo hi : Int} {body : Int → S → S} (view : S → P) (change : P → P) (place : Int)
    (h : ∀ i s, lo ≤ i → i < hi → view (body i s) = if i = place then change (view s) else view s) (s : S) :
    view (forRange lo hi body s) = if lo ≤ place ∧ place < hi then change (view s) else view s := by
  have hfold : ∀ (n : Nat), (n : Int) ≤ (hi - lo).toNat →
      view ((List.range n).foldl (fun s (k : Nat) => body (lo + (k : Int)) s) s)
        = if lo ≤ place ∧ place < lo + n then change (view s) else view s := by
    intro n
    induction n with
    | zero => exact fun _ => (if_neg (by omega)).symm
    | succ n ih =>
      intro hn
      rw [List.range_succ, List.foldl_append, List.foldl_cons, List.foldl_nil, h _ _ (by omega) (by omega), ih (by omega)]
      by_cases hplace : lo + (n : Int) = place
      · rw [if_pos hplace, if_neg (by omega), if_pos (by omega)]
      · rw [if_neg hplace]
        by_cases hbefore : lo ≤ place ∧ place < lo + n
        · rw [if_pos hbefore, if_pos (by omega)]
        · rw [if_neg hbefore, if_neg (by omega)]
  rw [forRange, hfold _ (le_refl _)]
  by_cases hrange : lo ≤ place ∧ place < hi
  · rw [if_pos hrange, if_pos (by omega)]
  · rw [if_neg hrange, if_neg (by omega)]

/-- Two nested loops of which one round, if any, changes what is observed. -/
theorem forRange_once_once {ylo yhi xlo xhi : Int} {body : Int → Int → S → S} (view : S → P) (change : P → P) (x y : Int)
    (h : ∀ j i s, ylo ≤ j → j < yhi → xlo ≤ i → i < xhi →
      view (body j i s) = if i = x ∧ j = y then change (view s) else view s) (s : S) :
    view (forRange ylo yhi (fun j => forRange xlo xhi (body j)) s)
      = if (xlo ≤ x ∧ x < xhi) ∧ ylo ≤ y ∧ y < yhi then change (view s) else view s := by
  rw [forRange_once view (fun p => if xlo ≤ x ∧ x < xhi then change p else p) y]
  · by_cases hx : xlo ≤ x ∧ x < xhi
    · by_cases hy : ylo ≤ y ∧ y < yhi
      · rw [if_pos hy, if_pos hx, if_pos ⟨hx, hy⟩]
      · rw [if_neg hy, if_neg fun h => hy h.2]
    · simp only [hx, false_and, if_false, ite_self]
  · intro j s hj hj'
    by_cases hy : j = y
    · rw [if_pos hy]
      refine forRange_once view change x ?_ s
      intro i s hi hi'
      rw [h j i s hj hj' hi hi']
      by_cases hx : i = x
      · rw [if_pos ⟨hx, hy⟩, if_pos hx]
      · rw [if_neg fun h => hx h.1, if_neg hx]
    · rw [if_neg hy]
      refine forRange_same view ?_ s
      intro i s hi hi'
      rw [h j i s hj hj' hi hi', if_neg fun h => hy h.2]

/-! ## Places of a grid -/

/-- The index of a place, row by row, determines the place. -/
theorem rowMajor_inj {w a b c d : Int} (hb : 0 ≤ b ∧ b < w) (hd : 0 ≤ d ∧ d < w) (h : a * w + b = c * w + d) :
    a = c ∧ b = d := by
  have hmod : b = d := by
    have hleft : (a * w + b) % w = b := by rw [Int.mul_add_emod_self_right, Int.emod_eq_of_lt hb.1 hb.2]
    have hright : (c * w + d) % w = d := by rw [Int.mul_add_emod_self_right, Int.emod_eq_of_lt hd.1 hd.2]
    rw [← hleft, h, hright]
  refine ⟨?_, hmod⟩
  have hw : w ≠ 0 := by omega
  have hmul : a * w = c * w := by omega
  exact Int.eq_of_mul_eq_mul_right hw hmul

/-- The index of a place with coordinates that are not negative. -/
theorem rowMajor_toNat_inj {w a b c d : Int} (ha : 0 ≤ a) (hc : 0 ≤ c) (hb : 0 ≤ b ∧ b < w) (hd : 0 ≤ d ∧ d < w)
    (h : (a * w + b).toNat = (c * w + d).toNat) : a = c ∧ b = d := by
  have hw : 0 ≤ w := by omega
  have hleft : 0 ≤ a * w := mul_nonneg ha hw
  have hright : 0 ≤ c * w := mul_nonneg hc hw
  exact rowMajor_inj hb hd (by omega)

/-! ## Loops that start at a fraction -/

/-- `for (let i = lo; i < hi; i++)` from any number. -/
def forFrom (lo hi : Rat) (body : Rat → S → S) (s : S) : S :=
  forRange 0 ⌈hi - lo⌉ (fun k => body (lo + k)) s

/-- From an integer to an integer the loop is one over the integers between. -/
theorem forFrom_int (lo hi : Int) (body : Rat → S → S) (s : S) :
    forFrom (lo : Rat) (hi : Rat) body s = forRange lo hi (fun i => body (i : Rat)) s := by
  have hceil : ⌈(hi : Rat) - (lo : Rat)⌉ = hi - lo := by
    rw [← Int.cast_sub, Int.ceil_intCast]
  rw [forFrom, hceil, forRange, forRange, Int.sub_zero]
  congr 1
  funext s k
  push_cast
  rw [zero_add]

end Lib
