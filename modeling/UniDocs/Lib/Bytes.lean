import Mathlib.Data.List.Basic
import Mathlib.Tactic.Linarith

/-!
# Bytes

Fixed-width integers in both byte orders and lowercase hex, over lists of bytes. Reading back what was written gives the
value modulo the width, and writing back what was read gives the same bytes, so that a format built from these fields can
be inverted field by field.
-/

namespace Lib

/-! ## Fixed-width integers -/

/-- The `k` low bytes of a number, least significant first. -/
def bytesLE : Nat → Nat → List UInt8
  | 0, _ => []
  | k + 1, n => UInt8.ofNat n :: bytesLE k (n / 256)

/-- The number that bytes spell, least significant first. -/
def natLE : List UInt8 → Nat
  | [] => 0
  | b :: bs => b.toNat + 256 * natLE bs

/-- The `k` low bytes of a number, most significant first. -/
def bytesBE (k n : Nat) : List UInt8 := (bytesLE k n).reverse

/-- The number that bytes spell, most significant first. -/
def natBE (bs : List UInt8) : Nat := natLE bs.reverse

@[simp] theorem length_bytesLE (k n : Nat) : (bytesLE k n).length = k := by
  induction k generalizing n with
  | zero => rfl
  | succ k ih => simp [bytesLE, ih]

@[simp] theorem length_bytesBE (k n : Nat) : (bytesBE k n).length = k := by
  simp [bytesBE]

/-- Reading back what was written gives the value modulo the width. -/
theorem natLE_bytesLE (k n : Nat) : natLE (bytesLE k n) = n % 256 ^ k := by
  induction k generalizing n with
  | zero => simp [bytesLE, natLE, Nat.mod_one]
  | succ k ih =>
    have hb : (UInt8.ofNat n).toNat = n % 256 := by simp
    rw [bytesLE, natLE, ih, hb, Nat.pow_succ, Nat.mul_comm (256 ^ k), Nat.mod_mul]

/-- Writing back what was read gives the same bytes. -/
theorem bytesLE_natLE (bs : List UInt8) : bytesLE bs.length (natLE bs) = bs := by
  induction bs with
  | nil => rfl
  | cons b bs ih =>
    have hb := b.toNat_lt
    have hlow : UInt8.ofNat (b.toNat + 256 * natLE bs) = b := by
      apply UInt8.toNat.inj
      have hmod : (UInt8.ofNat (b.toNat + 256 * natLE bs)).toNat = (b.toNat + 256 * natLE bs) % 256 := by simp
      omega
    have hhigh : (b.toNat + 256 * natLE bs) / 256 = natLE bs := by omega
    rw [List.length_cons, natLE, bytesLE, hlow, hhigh, ih]

/-- A value that fits its field is read back as it was written. -/
theorem natLE_bytesLE_of_lt {k n : Nat} (h : n < 256 ^ k) : natLE (bytesLE k n) = n := by
  rw [natLE_bytesLE, Nat.mod_eq_of_lt h]

/-- Writing back a field of the width it was read with gives the same bytes. -/
theorem bytesLE_natLE_of_length {bs : List UInt8} {k : Nat} (h : bs.length = k) : bytesLE k (natLE bs) = bs := by
  rw [← h, bytesLE_natLE]

/-- A value that fits its field is read back as it was written. -/
theorem natBE_bytesBE_of_lt {k n : Nat} (h : n < 256 ^ k) : natBE (bytesBE k n) = n := by
  rw [natBE, bytesBE, List.reverse_reverse, natLE_bytesLE_of_lt h]

/-! ## Texts -/

/-- The UTF-8 bytes of a text. -/
def utf8 (text : String) : List UInt8 := text.toList.flatMap String.utf8EncodeChar

/-! ## Hex -/

/-- The lowercase digit of a value below sixteen. -/
def hexChar (n : Nat) : Char := if n < 10 then Char.ofNat (48 + n) else Char.ofNat (87 + n)

/-- The value of a hex digit, in either case. -/
def hexValue (c : Char) : Option Nat :=
  if 48 ≤ c.toNat ∧ c.toNat ≤ 57 then some (c.toNat - 48)
  else if 97 ≤ c.toNat ∧ c.toNat ≤ 102 then some (c.toNat - 87)
  else if 65 ≤ c.toNat ∧ c.toNat ≤ 70 then some (c.toNat - 55)
  else none

/-- A lowercase hex digit. -/
def IsLowerHex (c : Char) : Prop := (48 ≤ c.toNat ∧ c.toNat ≤ 57) ∨ (97 ≤ c.toNat ∧ c.toNat ≤ 102)

instance (c : Char) : Decidable (IsLowerHex c) := inferInstanceAs (Decidable (_ ∨ _))

instance (cs : List Char) : Decidable (∀ c ∈ cs, IsLowerHex c) := List.decidableBAll _ cs

theorem hexChar_spec : ∀ n < 16, IsLowerHex (hexChar n) ∧ hexValue (hexChar n) = some n := by decide

/-- A lowercase digit has a value below sixteen, and is the digit of it. -/
theorem IsLowerHex.value {c : Char} (h : IsLowerHex c) : ∃ n < 16, hexValue c = some n ∧ hexChar n = c := by
  have hof : ∀ m, m = c.toNat → Char.ofNat m = c := by
    rintro m rfl
    exact Char.ofNat_toNat c
  rcases h with ⟨h1, h2⟩ | ⟨h1, h2⟩
  · refine ⟨c.toNat - 48, by omega, by simp [hexValue, h1, h2], ?_⟩
    rw [hexChar, if_pos (by omega)]
    exact hof _ (by omega)
  · refine ⟨c.toNat - 87, by omega, ?_, ?_⟩
    · rw [hexValue, if_neg (by omega), if_pos ⟨h1, h2⟩]
    · rw [hexChar, if_neg (by omega)]
      exact hof _ (by omega)

/-- The two lowercase digits of a byte. -/
def byteHex (b : UInt8) : List Char := [hexChar (b.toNat / 16), hexChar (b.toNat % 16)]

/-- The byte of two digits; what is not a digit ends the number, as `parseInt(text, 16)` reads it. -/
def hexByte (c d : Char) : UInt8 :=
  match hexValue c, hexValue d with
  | some m, some n => UInt8.ofNat (16 * m + n)
  | some m, none => UInt8.ofNat m
  | none, _ => 0

/-- The bytes of a text, two digits each. -/
def hexBytes : List Char → List UInt8
  | c :: d :: cs => hexByte c d :: hexBytes cs
  | _ => []

theorem byteHex_lower (b : UInt8) : ∀ c ∈ byteHex b, IsLowerHex c := by
  have hb := b.toNat_lt
  intro c hc
  simp only [byteHex, List.mem_cons, List.not_mem_nil, or_false] at hc
  rcases hc with rfl | rfl
  · exact (hexChar_spec _ (by omega)).1
  · exact (hexChar_spec _ (by omega)).1

theorem hexByte_byteHex (b : UInt8) : hexByte (hexChar (b.toNat / 16)) (hexChar (b.toNat % 16)) = b := by
  have hb := b.toNat_lt
  have h1 := (hexChar_spec (b.toNat / 16) (by omega)).2
  have h2 := (hexChar_spec (b.toNat % 16) (by omega)).2
  have hsum : 16 * (b.toNat / 16) + b.toNat % 16 = b.toNat := by omega
  simp only [hexByte, h1, h2, hsum, UInt8.ofNat_toNat]

/-- The digits of the byte that two lowercase digits spell are those digits. -/
theorem byteHex_hexByte {c d : Char} (hc : IsLowerHex c) (hd : IsLowerHex d) : byteHex (hexByte c d) = [c, d] := by
  obtain ⟨m, hm, hvc, hcm⟩ := hc.value
  obtain ⟨n, hn, hvd, hdn⟩ := hd.value
  have hnat : (hexByte c d).toNat = 16 * m + n := by
    have hmod : (UInt8.ofNat (16 * m + n)).toNat = (16 * m + n) % 256 := by simp
    simp only [hexByte, hvc, hvd, hmod]
    omega
  have h1 : (16 * m + n) / 16 = m := by omega
  have h2 : (16 * m + n) % 16 = n := by omega
  rw [byteHex, hnat, h1, h2, hcm, hdn]

theorem hexBytes_flatMap_byteHex (bs : List UInt8) : hexBytes (bs.flatMap byteHex) = bs := by
  induction bs with
  | nil => rfl
  | cons b bs ih =>
    rw [List.flatMap_cons, byteHex, List.cons_append, List.cons_append, List.nil_append, hexBytes, hexByte_byteHex, ih]

theorem length_flatMap_byteHex (bs : List UInt8) : (bs.flatMap byteHex).length = 2 * bs.length := by
  induction bs with
  | nil => rfl
  | cons b bs ih =>
    rw [List.flatMap_cons, List.length_append, ih, List.length_cons, byteHex]
    simp only [List.length_cons, List.length_nil]
    omega

theorem length_hexBytes (k : Nat) : ∀ cs : List Char, cs.length = 2 * k → (hexBytes cs).length = k := by
  induction k with
  | zero =>
    intro cs h
    have hnil : cs = [] := List.length_eq_zero_iff.mp (by omega)
    rw [hnil]
    rfl
  | succ k ih =>
    intro cs h
    match cs, h with
    | c :: d :: cs, h =>
      have hlen : cs.length = 2 * k := by simp only [List.length_cons] at h; omega
      rw [hexBytes, List.length_cons, ih cs hlen]
    | [_], h => simp only [List.length_cons, List.length_nil] at h; omega
    | [], h => simp only [List.length_nil] at h; omega

/-- An even number of lowercase digits is spelled by the bytes it spells. -/
theorem flatMap_byteHex_hexBytes (k : Nat) :
    ∀ cs : List Char, cs.length = 2 * k → (∀ c ∈ cs, IsLowerHex c) → (hexBytes cs).flatMap byteHex = cs := by
  induction k with
  | zero =>
    intro cs h _
    have hnil : cs = [] := List.length_eq_zero_iff.mp (by omega)
    rw [hnil]
    rfl
  | succ k ih =>
    intro cs h hl
    match cs, h, hl with
    | c :: d :: cs, h, hl =>
      have hlen : cs.length = 2 * k := by simp only [List.length_cons] at h; omega
      have hrest := ih cs hlen fun x hx => hl x (by simp [hx])
      rw [hexBytes, List.flatMap_cons, byteHex_hexByte (hl c (by simp)) (hl d (by simp)), hrest]
      rfl
    | [_], h, _ => simp only [List.length_cons, List.length_nil] at h; omega
    | [], h, _ => simp only [List.length_nil] at h; omega

end Lib

/-!
## Length-prefixed fields

A field is framed by its length in decimal and a colon. A sequence of framed fields can be taken apart in one way only,
whatever bytes the fields hold.
-/

namespace Lib

/-- A sequence is split at the first of its separators in one way. -/
theorem split_inj {α : Type} {a : α} {start start' rest rest' : List α} (h : a ∉ start) (h' : a ∉ start')
    (heq : start ++ a :: rest = start' ++ a :: rest') : start = start' ∧ rest = rest' := by
  induction start generalizing start' with
  | nil =>
    cases start' with
    | nil => exact ⟨rfl, (List.cons.inj heq).2⟩
    | cons b start' => exact absurd ((List.cons.inj heq).1 ▸ List.mem_cons_self) h'
  | cons b start ih =>
    cases start' with
    | nil => exact absurd ((List.cons.inj heq).1 ▸ List.mem_cons_self) h
    | cons b' start' =>
      obtain ⟨hb, htail⟩ := List.cons.inj heq
      obtain ⟨hstart, hrest⟩ := ih (fun hc => h (List.mem_cons_of_mem _ hc)) (fun hc => h' (List.mem_cons_of_mem _ hc)) htail
      exact ⟨by rw [hb, hstart], hrest⟩

theorem toDigits_injective {n m : Nat} (h : Nat.toDigits 10 n = Nat.toDigits 10 m) : n = m := by
  rw [← Nat.ofDigitChars_toDigits (b := 10) (n := n) (by decide) (by decide), h,
    Nat.ofDigitChars_toDigits (by decide) (by decide)]

theorem toDigits_head_ne_zero (n : Nat) (hn : 0 < n) : (Nat.toDigits 10 n).head? ≠ some '0' := by
  induction n using Nat.strongRecOn with
  | ind n ih =>
    by_cases hlt : n < 10
    · rw [Nat.toDigits_of_lt_base hlt]
      simp only [List.head?_cons, ne_eq, Option.some.injEq, Nat.digitChar_eq_zero]
      omega
    · rw [Nat.toDigits_of_base_le (by decide) (by omega)]
      have hprefix := ih (n / 10) (by omega) (by omega)
      cases hdigits : Nat.toDigits 10 (n / 10) with
      | nil => exact absurd hdigits Nat.toDigits_ne_nil
      | cons c cs =>
        rw [hdigits] at hprefix
        simpa using hprefix

theorem digit_toNat {c : Char} (h : c.isDigit = true) : 48 ≤ c.toNat ∧ c.toNat ≤ 57 := by
  simpa [Char.isDigit, UInt32.le_iff_toNat_le] using h

/-- A digit is one byte, below the colon. -/
theorem utf8EncodeChar_digit {c : Char} (h : c.isDigit = true) :
    String.utf8EncodeChar c = [c.toNat.toUInt8] ∧ c.toNat.toUInt8 ≠ 0x3a := by
  obtain ⟨hlow, hhigh⟩ := digit_toNat h
  constructor
  · simp only [String.utf8EncodeChar]
    rw [if_pos (show c.val.toNat ≤ 0x7f from Nat.le_trans hhigh (by decide))]
    rfl
  · intro heq
    have hnat := congrArg UInt8.toNat heq
    simp at hnat
    omega

/-- The decimal digits of a number, as bytes. -/
def decimalBytes (n : Nat) : List UInt8 := (Nat.toDigits 10 n).flatMap String.utf8EncodeChar

theorem mem_toDigits_isDigit {n : Nat} {c : Char} (h : c ∈ Nat.toDigits 10 n) : c.isDigit = true :=
  Nat.isDigit_of_mem_toDigits (by decide) (by decide) h

theorem decimalBytes_eq (n : Nat) : decimalBytes n = (Nat.toDigits 10 n).map fun c => c.toNat.toUInt8 := by
  rw [decimalBytes, List.map_eq_flatMap]
  exact List.flatMap_congr fun c hc => (utf8EncodeChar_digit (mem_toDigits_isDigit hc)).1

theorem colon_not_mem_decimalBytes (n : Nat) : (0x3a : UInt8) ∉ decimalBytes n := by
  rw [decimalBytes_eq, List.mem_map]
  rintro ⟨c, hc, heq⟩
  exact (utf8EncodeChar_digit (mem_toDigits_isDigit hc)).2 heq

theorem map_decimalBytes (n : Nat) : (decimalBytes n).map (fun b => Char.ofNat b.toNat) = Nat.toDigits 10 n := by
  rw [decimalBytes_eq, List.map_map]
  refine (List.map_congr_left ?_).trans (List.map_id _)
  intro c hc
  obtain ⟨hlow, hhigh⟩ := digit_toNat (mem_toDigits_isDigit hc)
  have hbyte : c.toNat.toUInt8.toNat = c.toNat := by
    simp only [Nat.toUInt8_eq, UInt8.toNat_ofNat']
    omega
  rw [Function.comp, hbyte, Char.ofNat_toNat, id]

theorem decimalBytes_injective {n m : Nat} (h : decimalBytes n = decimalBytes m) : n = m := by
  apply toDigits_injective
  rw [← map_decimalBytes, h, map_decimalBytes]

/-- A field behind its length and a colon. -/
def frame (field : List UInt8) : List UInt8 := decimalBytes field.length ++ 0x3a :: field

/-- A framed field is told from what follows it. -/
theorem frame_append_inj {field field' rest rest' : List UInt8} (h : frame field ++ rest = frame field' ++ rest') :
    field = field' ∧ rest = rest' := by
  rw [frame, frame, List.append_assoc, List.append_assoc, List.cons_append, List.cons_append] at h
  obtain ⟨hlength, hrest⟩ := split_inj (colon_not_mem_decimalBytes _) (colon_not_mem_decimalBytes _) h
  exact List.append_inj hrest (decimalBytes_injective hlength)

theorem frames_inj : ∀ {fields fields' : List (List UInt8)}, fields.length = fields'.length →
    fields.flatMap frame = fields'.flatMap frame → fields = fields'
  | [], [], _, _ => rfl
  | field :: fields, field' :: fields', hlength, h => by
    rw [List.flatMap_cons, List.flatMap_cons] at h
    obtain ⟨hfield, hrest⟩ := frame_append_inj h
    rw [hfield, frames_inj (Nat.succ.inj hlength) hrest]

end Lib
