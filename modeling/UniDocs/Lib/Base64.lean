import UniDocs.Lib.JsString

/-!
# Base64

`btoa` and `atob` over strings of code units: a string whose units are bytes is written with six bits a character, and what
was written is read back. The reader takes no notice of white space, and of padding at the end of a whole number of groups.
-/

namespace Lib.Base64

open Lib

/-! ## The alphabet -/

/-- The character of six bits. -/
def digit (n : Nat) : UInt16 :=
  if n < 26 then (65 + n).toUInt16
  else if n < 52 then (71 + n).toUInt16
  else if n < 62 then (n - 4).toUInt16
  else if n = 62 then 43
  else 47

/-- The six bits of a character. -/
def sextet (u : UInt16) : Option Nat :=
  if 65 ≤ u && u ≤ 90 then some (u.toNat - 65)
  else if 97 ≤ u && u ≤ 122 then some (u.toNat - 71)
  else if 48 ≤ u && u ≤ 57 then some (u.toNat + 4)
  else if u = 43 then some 62
  else if u = 47 then some 63
  else none

/-- White space that the reader skips. -/
def isSpace (u : UInt16) : Bool := u == 9 || u == 10 || u == 12 || u == 13 || u == 32

theorem sextet_digit : ∀ n : Fin 64, sextet (digit n) = some n.val := by decide

theorem digit_spec : ∀ n : Fin 64, isSpace (digit n) = false ∧ digit n ≠ 61 := by decide

/-! ## Writing -/

/-- The groups of six bits of a string of bytes. -/
def sextets : JsString → List Nat
  | [] => []
  | [a] => [a.toNat / 4, a.toNat % 4 * 16]
  | [a, b] => [a.toNat / 4, a.toNat % 4 * 16 + b.toNat / 16, b.toNat % 16 * 4]
  | a :: b :: c :: rest =>
    a.toNat / 4 :: (a.toNat % 4 * 16 + b.toNat / 16) :: (b.toNat % 16 * 4 + c.toNat / 64) :: c.toNat % 64 :: sextets rest

/-- The padding that fills the last group of four characters. -/
def padding (text : JsString) : JsString := List.replicate ((3 - text.length % 3) % 3) 61

/-- `btoa`: it throws when a unit is not a byte. -/
def btoa (text : JsString) : Option JsString :=
  if text.all (· ≤ 255) then some ((sextets text).map digit ++ padding text) else none

/-! ## Reading -/

/-- The bytes of groups of six bits; bits that do not make a byte are dropped. -/
def bytes : List Nat → JsString
  | a :: b :: c :: d :: rest =>
    (a * 4 + b / 16).toUInt16 :: (b % 16 * 16 + c / 4).toUInt16 :: (c % 4 * 64 + d).toUInt16 :: bytes rest
  | [a, b, c] => [(a * 4 + b / 16).toUInt16, (b % 16 * 16 + c / 4).toUInt16]
  | [a, b] => [(a * 4 + b / 16).toUInt16]
  | _ => []

/-- A text of whole groups without the one or two equals signs at its end. -/
def stripPadding (text : JsString) : JsString :=
  if text.length % 4 = 0 then
    match text.reverse with
    | 61 :: 61 :: rest => rest.reverse
    | 61 :: rest => rest.reverse
    | _ => text
  else text

/-- `atob`: it throws when a character is none of the alphabet, or one character is left over. -/
def atob (text : JsString) : Option JsString :=
  let data := stripPadding (text.filter fun u => !isSpace u)
  if data.length % 4 = 1 then none else (data.mapM sextet).map bytes

/-! ## Round trip -/

/-- Three more characters are four more groups. -/
theorem sextets_length : ∀ text : JsString, (sextets text).length = (4 * text.length + 2) / 3
  | [] => rfl
  | [_] => by simp [sextets]
  | [_, _] => by simp [sextets]
  | a :: b :: c :: rest => by
    have ih := sextets_length rest
    simp only [sextets, List.length_cons, ih]
    omega

theorem sextets_lt : ∀ {text : JsString}, (∀ u ∈ text, u.toNat ≤ 255) → ∀ n ∈ sextets text, n < 64
  | [], _ => fun n hn => by cases hn
  | [a], h => fun n hn => by
    have ha := h a (by simp)
    simp only [sextets, List.mem_cons, List.not_mem_nil, or_false] at hn
    omega
  | [a, b], h => fun n hn => by
    have ha := h a (by simp)
    have hb := h b (by simp)
    simp only [sextets, List.mem_cons, List.not_mem_nil, or_false] at hn
    omega
  | a :: b :: c :: rest, h => fun n hn => by
    have ha := h a (by simp)
    have hb := h b (by simp)
    have hc := h c (by simp)
    simp only [sextets, List.mem_cons] at hn
    rcases hn with rfl | rfl | rfl | rfl | hn
    · omega
    · omega
    · omega
    · omega
    · exact sextets_lt (fun u hu => h u (by simp [hu])) n hn

/-- A byte that is put together from its parts. -/
theorem toUInt16_eq {u : UInt16} {n : Nat} (h : n = u.toNat) : n.toUInt16 = u := by
  rw [h]
  exact UInt16.ofNat_toNat

theorem bytes_sextets : ∀ {text : JsString}, (∀ u ∈ text, u.toNat ≤ 255) → bytes (sextets text) = text
  | [], _ => rfl
  | [a], h => by
    have ha := h a (by simp)
    rw [sextets, bytes, toUInt16_eq (u := a) (by omega)]
  | [a, b], h => by
    have ha := h a (by simp)
    have hb := h b (by simp)
    rw [sextets, bytes, toUInt16_eq (u := a) (by omega), toUInt16_eq (u := b) (by omega)]
  | a :: b :: c :: rest, h => by
    have ha := h a (by simp)
    have hb := h b (by simp)
    have hc := h c (by simp)
    rw [sextets, bytes, toUInt16_eq (u := a) (by omega), toUInt16_eq (u := b) (by omega), toUInt16_eq (u := c) (by omega),
      bytes_sextets fun u hu => h u (by simp [hu])]

theorem mapM_sextet {groups : List Nat} (h : ∀ n ∈ groups, n < 64) : (groups.map digit).mapM sextet = some groups := by
  induction groups with
  | nil => rfl
  | cons n groups ih =>
    have hn := sextet_digit ⟨n, h n List.mem_cons_self⟩
    rw [List.map_cons, List.mapM_cons, hn, ih fun m hm => h m (List.mem_cons_of_mem _ hm)]
    rfl

theorem stripPadding_digits {groups : List Nat} (h : ∀ n ∈ groups, n < 64) {k : Nat} (hk : k ≤ 2)
    (hlen : (groups.length + k) % 4 = 0) : stripPadding (groups.map digit ++ List.replicate k 61) = groups.map digit := by
  have hlength : (groups.map digit ++ List.replicate k 61).length % 4 = 0 := by
    rw [List.length_append, List.length_map, List.length_replicate]
    exact hlen
  have hhead : ∀ rest, (groups.map digit).reverse ≠ 61 :: rest := by
    intro rest heq
    have hmem : (61 : UInt16) ∈ groups.map digit := by
      rw [← List.mem_reverse, heq]
      exact List.mem_cons_self
    obtain ⟨n, hn, heq⟩ := List.mem_map.mp hmem
    exact (digit_spec ⟨n, h n hn⟩).2 heq
  rw [stripPadding, if_pos hlength]
  rcases Nat.lt_or_ge k 1 with hzero | hone
  · obtain rfl : k = 0 := by omega
    rw [List.replicate_zero, List.append_nil]
    split
    · rename_i rest heq
      exact absurd heq (hhead _)
    · rename_i rest _ heq
      exact absurd heq (hhead _)
    · rfl
  · rcases Nat.lt_or_ge k 2 with hone' | htwo
    · obtain rfl : k = 1 := by omega
      rw [List.replicate_one, List.reverse_append, List.reverse_singleton, List.singleton_append]
      split
      · rename_i rest heq
        exact absurd (List.cons.inj heq).2 (hhead _)
      · rename_i rest _ heq
        rw [← (List.cons.inj heq).2, List.reverse_reverse]
      · rename_i hother
        exact (hother _ rfl).elim
    · obtain rfl : k = 2 := by omega
      have hreverse : (groups.map digit ++ List.replicate 2 61).reverse = 61 :: 61 :: (groups.map digit).reverse := by
        rw [List.reverse_append]
        rfl
      rw [hreverse]
      exact List.reverse_reverse _

/-- What was written is read back. -/
theorem atob_btoa {text written : JsString} (h : btoa text = some written) : atob written = some text := by
  rw [btoa] at h
  split at h
  · rename_i hbytes
    cases h
    have hall : ∀ u ∈ text, u.toNat ≤ 255 := by
      intro u hu
      have hle := of_decide_eq_true (List.all_eq_true.mp hbytes u hu)
      exact UInt16.le_iff_toNat_le.mp hle
    have hlt := sextets_lt hall
    have hlen := sextets_length text
    have hclean : ((sextets text).map digit ++ padding text).filter (fun u => !isSpace u) =
        (sextets text).map digit ++ padding text := by
      refine List.filter_eq_self.mpr fun u hu => ?_
      rcases List.mem_append.mp hu with hdigit | hpad
      · obtain ⟨n, hn, rfl⟩ := List.mem_map.mp hdigit
        rw [(digit_spec ⟨n, hlt n hn⟩).1]
        rfl
      · rw [List.eq_of_mem_replicate hpad]
        rfl
    have hwhole : ((sextets text).length + (3 - text.length % 3) % 3) % 4 = 0 := by
      rw [hlen]
      have hcases : text.length % 3 = 0 ∨ text.length % 3 = 1 ∨ text.length % 3 = 2 := by omega
      rcases hcases with hmod | hmod | hmod
      · rw [hmod]
        omega
      · rw [hmod]
        omega
      · rw [hmod]
        omega
    have hstrip := stripPadding_digits hlt (by omega : (3 - text.length % 3) % 3 ≤ 2) hwhole
    rw [atob, hclean, padding, hstrip]
    simp only [List.length_map]
    rw [if_neg (by omega), mapM_sextet hlt, Option.map_some, bytes_sextets hall]
  · cases h

theorem btoa_eq_none_iff {text : JsString} : btoa text = none ↔ ∃ u ∈ text, 255 < u.toNat := by
  rw [btoa]
  constructor
  · intro h
    split at h
    · cases h
    · rename_i hall
      by_contra hnone
      refine hall (List.all_eq_true.mpr fun u hu => decide_eq_true (UInt16.le_iff_toNat_le.mpr ?_))
      exact Nat.le_of_not_lt fun hlarge => hnone ⟨u, hu, hlarge⟩
  · rintro ⟨u, hu, hlarge⟩
    rw [if_neg]
    intro hall
    have hle := of_decide_eq_true (List.all_eq_true.mp hall u hu)
    rw [UInt16.le_iff_toNat_le] at hle
    exact absurd hle (Nat.not_le_of_lt hlarge)

end Lib.Base64
