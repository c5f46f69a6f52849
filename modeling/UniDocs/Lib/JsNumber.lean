import Mathlib.Data.Int.Log
import Mathlib.Data.List.TakeWhile
import Mathlib.Data.Rat.Floor
import Mathlib.Tactic.Linarith
import UniDocs.Lib.JsonText

/-!
# Numbers of a JSON text

A number text stands for the double next to its exact value, with ties to an even significand. An integer that is written in
decimal digits stands for itself as long as it is a safe integer.
-/

namespace Lib.JsNumber

open Lib Lib.JsonText

/-! ## Values of texts -/

/-- The integer with these decimal digits. -/
def digitsValue (ds : JsString) : Nat := ds.foldl (fun n u => 10 * n + (u.toNat - 48)) 0

/-- The exponent that ends a number text. -/
def exponentValue : JsString → Int
  | _ :: 45 :: ds => -digitsValue ds
  | _ :: 43 :: ds => digitsValue ds
  | _ :: ds => digitsValue ds
  | [] => 0

/-- The exact value of a number text. -/
def exactValue (text : JsString) : ℚ :=
  let negative := text.head? = some 45
  let unsigned := if negative then text.drop 1 else text
  let whole := unsigned.takeWhile isDigit
  let rest := unsigned.dropWhile isDigit
  let part := if rest.head? = some 46 then (rest.drop 1).takeWhile isDigit else []
  let power := exponentValue (rest.dropWhile fun u => isDigit u || u == 46)
  (if negative then -1 else 1) * digitsValue (whole ++ part) * (10 : ℚ) ^ (power - part.length)

/-- The nearest integer, and of two the even one. -/
def roundHalfEven (x : ℚ) : Int :=
  if x - ⌊x⌋ < 1 / 2 then ⌊x⌋ else if 1 / 2 < x - ⌊x⌋ then ⌊x⌋ + 1 else if ⌊x⌋ % 2 = 0 then ⌊x⌋ else ⌊x⌋ + 1

/-- The binary exponent of the last place of a double. -/
def lastPlace (x : ℚ) : Int := max (Int.log 2 |x|) (-1022) - 52

/-- The double next to a number, up to an overflow. -/
def toDouble (x : ℚ) : ℚ := roundHalfEven (x / (2 : ℚ) ^ lastPlace x) * (2 : ℚ) ^ lastPlace x

def maxSafeInteger : Int := 2 ^ 53 - 1

/-- The safe integer that a number text stands for, if it is one. -/
def safeInteger (text : JsString) : Option Int :=
  let x := toDouble (exactValue text)
  if x.den = 1 ∧ |x.num| ≤ maxSafeInteger then some x.num else none

/-! ## Safe integers -/

theorem roundHalfEven_int (n : Int) : roundHalfEven n = n := by
  rw [roundHalfEven, Int.floor_intCast, sub_self, if_pos (by norm_num)]

theorem toDouble_safe {n : Int} (h : |n| ≤ maxSafeInteger) : toDouble n = n := by
  have hplace : lastPlace n ≤ 0 := by
    have hlog : Int.log 2 |(n : ℚ)| ≤ 52 := by
      rcases eq_or_ne n 0 with rfl | hne
      · simp
      · have hpos : (0 : ℚ) < |(n : ℚ)| := abs_pos.mpr (Int.cast_ne_zero.mpr hne)
        have hlt : |(n : ℚ)| < ((2 : ℕ) : ℚ) ^ (53 : Int) := by
          rw [← Int.cast_abs]
          have hcast : ((|n| : Int) : ℚ) ≤ ((2 ^ 53 - 1 : Int) : ℚ) := Int.cast_le.mpr h
          refine lt_of_le_of_lt hcast ?_
          norm_num
        have hlog := (Int.lt_zpow_iff_log_lt (by norm_num : 1 < 2) hpos).mp hlt
        omega
    rw [lastPlace]
    omega
  obtain ⟨k, hk⟩ := Int.exists_eq_neg_ofNat hplace
  have hscale : (n : ℚ) / (2 : ℚ) ^ lastPlace n = ((n * 2 ^ k : Int) : ℚ) := by
    rw [hk, zpow_neg, div_inv_eq_mul, zpow_natCast]
    push_cast
    ring
  rw [toDouble, hscale, roundHalfEven_int, hk, zpow_neg, zpow_natCast]
  push_cast
  field_simp

theorem floor_le_roundHalfEven (x : ℚ) : ⌊x⌋ ≤ roundHalfEven x := by
  rw [roundHalfEven]
  split
  · exact le_refl _
  · split
    · omega
    · split
      · exact le_refl _
      · omega

theorem toDouble_large {n : Int} (h : maxSafeInteger < n) : ((2 ^ 53 : Int) : ℚ) ≤ toDouble n := by
  have hcast : ((2 ^ 53 : Int) : ℚ) ≤ (n : ℚ) := Int.cast_le.mpr h
  have hpos : (0 : ℚ) < (n : ℚ) := lt_of_lt_of_le (by norm_num) hcast
  have hlog : 53 ≤ Int.log 2 |(n : ℚ)| := by
    rw [abs_of_pos hpos]
    refine (Int.zpow_le_iff_le_log (by norm_num : 1 < 2) hpos).mp ?_
    exact le_trans (by norm_num) hcast
  have hplace : lastPlace n = Int.log 2 (n : ℚ) - 52 := by
    rw [abs_of_pos hpos] at hlog
    rw [lastPlace, abs_of_pos hpos]
    omega
  rw [abs_of_pos hpos] at hlog
  have hunit : (0 : ℚ) < (2 : ℚ) ^ lastPlace n := zpow_pos (by norm_num) _
  have hlow : ((2 ^ 52 : Int) : ℚ) ≤ (n : ℚ) / (2 : ℚ) ^ lastPlace n := by
    rw [le_div_iff₀ hunit, hplace]
    have hpower : ((2 ^ 52 : Int) : ℚ) * (2 : ℚ) ^ (Int.log 2 (n : ℚ) - 52) = (2 : ℚ) ^ Int.log 2 (n : ℚ) := by
      rw [zpow_sub₀ (by norm_num)]
      norm_num
      ring
    rw [hpower]
    exact Int.zpow_log_le_self (by norm_num : 1 < 2) hpos
  have hround : (2 ^ 52 : Int) ≤ roundHalfEven ((n : ℚ) / (2 : ℚ) ^ lastPlace n) :=
    le_trans (Int.le_floor.mpr hlow) (floor_le_roundHalfEven _)
  have htwo : (2 : ℚ) ≤ (2 : ℚ) ^ lastPlace n := by
    have hmono : (2 : ℚ) ^ (1 : Int) ≤ (2 : ℚ) ^ lastPlace n := zpow_le_zpow_right₀ (by norm_num) (by omega)
    rwa [zpow_one] at hmono
  calc ((2 ^ 53 : Int) : ℚ) = ((2 ^ 52 : Int) : ℚ) * 2 := by norm_num
    _ ≤ (roundHalfEven ((n : ℚ) / (2 : ℚ) ^ lastPlace n) : ℚ) * (2 : ℚ) ^ lastPlace n :=
      mul_le_mul (Int.cast_le.mpr hround) htwo (by norm_num) (le_trans (by norm_num) (Int.cast_le.mpr hround))

/-! ## Decimal digits -/

/-- The decimal digits of a natural number, as `String` writes them below 10^21. -/
def decimal (n : Nat) : JsString := (Nat.toDigits 10 n).map fun c => c.toNat.toUInt16

theorem digit_unit {c : Char} (h : c.isDigit = true) : (c.toNat.toUInt16).toNat = c.toNat ∧ isDigit c.toNat.toUInt16 = true := by
  have hrange : 48 ≤ c.toNat ∧ c.toNat ≤ 57 := by
    rw [Char.isDigit, Bool.and_eq_true, decide_eq_true_eq, decide_eq_true_eq] at h
    exact h
  have hunit : (c.toNat.toUInt16).toNat = c.toNat := by
    rw [Nat.toUInt16_eq, UInt16.toNat_ofNat']
    omega
  refine ⟨hunit, ?_⟩
  rw [isDigit, Bool.and_eq_true, decide_eq_true_eq, decide_eq_true_eq, UInt16.le_iff_toNat_le, UInt16.le_iff_toNat_le, hunit]
  exact hrange

theorem decimal_digits {n : Nat} : ∀ u ∈ decimal n, isDigit u = true := by
  intro u hu
  obtain ⟨c, hc, rfl⟩ := List.mem_map.mp hu
  exact (digit_unit (Nat.isDigit_of_mem_toDigits (by norm_num) (by norm_num) hc)).2

theorem decimal_ne_nil {n : Nat} : decimal n ≠ [] := fun h => Nat.toDigits_ne_nil (List.map_eq_nil_iff.mp h)

theorem digitsValue_decimal (n : Nat) : digitsValue (decimal n) = n := by
  have hfold : ∀ (cs : List Char) (m : Nat), (∀ c ∈ cs, c.isDigit = true) →
      (cs.map fun c => c.toNat.toUInt16).foldl (fun n u => 10 * n + (u.toNat - 48)) m = Nat.ofDigitChars 10 cs m := by
    intro cs
    induction cs with
    | nil => exact fun m _ => Nat.ofDigitChars_nil.symm
    | cons c cs ih =>
      intro m h
      rw [List.map_cons, List.foldl_cons, (digit_unit (h c List.mem_cons_self)).1, Nat.ofDigitChars_cons,
        ih _ fun c hc => h c (List.mem_cons_of_mem _ hc)]
      rfl
  rw [digitsValue, decimal, hfold _ _ fun c hc => Nat.isDigit_of_mem_toDigits (by norm_num) (by norm_num) hc]
  exact Nat.ofDigitChars_ten_toDigits

theorem exactValue_digits {ds : JsString} (h : ∀ u ∈ ds, isDigit u = true) : exactValue ds = digitsValue ds := by
  have hall : ds.takeWhile isDigit = ds := List.takeWhile_eq_self_iff.mpr h
  have hnone : ds.dropWhile isDigit = [] := List.dropWhile_eq_nil_iff.mpr h
  have hsign : ds.head? ≠ some 45 := by
    intro hhead
    have hdigit := h _ (List.mem_of_head? hhead)
    exact absurd hdigit (by decide)
  simp only [exactValue, if_neg hsign, hall, hnone, List.head?_nil, List.dropWhile_nil, exponentValue]
  simp

theorem safeInteger_digits {ds : JsString} (h : ∀ u ∈ ds, isDigit u = true) (hsafe : (digitsValue ds : Int) ≤ maxSafeInteger) :
    safeInteger ds = some (digitsValue ds : Int) := by
  have habs : |(digitsValue ds : Int)| ≤ maxSafeInteger := by
    rw [Nat.abs_cast]
    exact hsafe
  have hdouble : toDouble (exactValue ds) = ((digitsValue ds : Int) : ℚ) := by
    rw [exactValue_digits h, ← toDouble_safe habs]
    rfl
  rw [safeInteger]
  simp only [hdouble, Rat.den_intCast, Rat.num_intCast, if_pos (And.intro trivial habs)]

theorem safeInteger_digits_none {ds : JsString} (h : ∀ u ∈ ds, isDigit u = true)
    (hlarge : maxSafeInteger < (digitsValue ds : Int)) : safeInteger ds = none := by
  have hlarge := toDouble_large hlarge
  rw [Int.cast_natCast, ← exactValue_digits h] at hlarge
  rw [safeInteger]
  refine if_neg ?_
  rintro ⟨hden, hnum⟩
  generalize toDouble (exactValue ds) = x at hlarge hden hnum
  have hint : x = (x.num : ℚ) := (Rat.den_eq_one_iff x).mp hden |>.symm
  rw [hint, Int.cast_le] at hlarge
  have hle := le_trans hlarge (le_trans (le_abs_self _) hnum)
  exact absurd hle (by decide)

theorem safeInteger_decimal {n : Nat} (h : (n : Int) ≤ maxSafeInteger) : safeInteger (decimal n) = some (n : Int) := by
  have hvalue := digitsValue_decimal n
  rw [safeInteger_digits decimal_digits (by rw [hvalue]; exact h), hvalue]

theorem safeInteger_decimal_none {n : Nat} (h : maxSafeInteger < (n : Int)) : safeInteger (decimal n) = none :=
  safeInteger_digits_none decimal_digits (by rw [digitsValue_decimal]; exact h)

end Lib.JsNumber

/-!
## Texts of numbers

`Number::toString`: a double is written with the fewest decimal digits that stand for it, and of these with the ones closest
to it.
-/

namespace Lib.JsNumber

open Lib Lib.JsonText

/-- The significands with `digits` decimal digits next to a number, the closer one first, and their decimal exponent. -/
def significands (x : ℚ) (digits : Nat) : List (Int × Int) :=
  let exponent := Int.log 10 x + 1 - digits
  let scaled := x / (10 : ℚ) ^ exponent
  let near := roundHalfEven scaled
  [(near, exponent), (if near ≤ scaled then near + 1 else near - 1, exponent)]

/-- The shortest significand that stands for the double, with its decimal exponent; seventeen digits are always enough. -/
def shortest (x : ℚ) : Int × Int :=
  (((List.range 17).flatMap fun k => significands x (k + 1)).find? fun candidate =>
    toDouble (candidate.1 * (10 : ℚ) ^ candidate.2) = toDouble x).getD (0, 0)

/-- `Number::toString` of a positive number. -/
def positiveText (x : ℚ) : JsString :=
  let (significand, exponent) := shortest x
  let all := decimal significand.toNat
  let digits := (all.reverse.dropWhile fun u => u == 48).reverse
  let point := all.length + exponent
  if digits.length ≤ point ∧ point ≤ 21 then digits ++ List.replicate (point - digits.length).toNat 48
  else if 0 < point ∧ point ≤ 21 then digits.take point.toNat ++ 46 :: digits.drop point.toNat
  else if -6 < point ∧ point ≤ 0 then [48, 46] ++ List.replicate (-point).toNat 48 ++ digits
  else
    let power := (if 0 < point - 1 then [101, 43] else [101, 45]) ++ decimal (point - 1).natAbs
    if digits.length = 1 then digits ++ power else digits.take 1 ++ 46 :: digits.drop 1 ++ power

/-- `Number::toString` of a finite number. -/
def numberText (x : ℚ) : JsString :=
  if x = 0 then [48] else if x < 0 then 45 :: positiveText (-x) else positiveText x

example : numberText (-5 / 4) = [45, 49, 46, 50, 53] := by with_unfolding_all decide

end Lib.JsNumber
