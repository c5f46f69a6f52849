import UniDocs.Lib.JsString

/-!
# Strings and texts

A string of code units read as a text: surrogate pairs are characters, and a surrogate without its partner is read as the
replacement character. The strings that stand for a text are the ones that this changes nothing about.
-/

namespace Lib.JsString

/-- The first half of a surrogate pair. -/
def isHighSurrogate (u : UInt16) : Bool := 0xd800 ≤ u && u ≤ 0xdbff

/-- The second half of a surrogate pair. -/
def isLowSurrogate (u : UInt16) : Bool := 0xdc00 ≤ u && u ≤ 0xdfff

/-- The character of a unit on its own. -/
def unitChar (u : UInt16) : Char := if isHighSurrogate u || isLowSurrogate u then Char.ofNat 0xfffd else Char.ofNat u.toNat

/-- The character of a surrogate pair. -/
def pairChar (u v : UInt16) : Char := Char.ofNat (0x10000 + ((u.toNat - 0xd800) * 0x400 + (v.toNat - 0xdc00)))

/-- The characters of a string. -/
def toChars : JsString → List Char
  | [] => []
  | [u] => [unitChar u]
  | u :: v :: rest =>
    if isHighSurrogate u && isLowSurrogate v then pairChar u v :: toChars rest else unitChar u :: toChars (v :: rest)

/-- A string as a text. -/
def toText (string : JsString) : String := String.ofList (toChars string)

def toWellFormed (string : JsString) : JsString := ofString (toText string)

/-- `isWellFormed`: no surrogate is without its partner. -/
def IsWellFormed (string : JsString) : Prop := toWellFormed string = string

instance (string : JsString) : Decidable (IsWellFormed string) := inferInstanceAs (Decidable (_ = _))

/-! ## A text as a string and back -/

theorem isHighSurrogate_iff {u : UInt16} : isHighSurrogate u = true ↔ 0xd800 ≤ u.toNat ∧ u.toNat ≤ 0xdbff := by
  simp [isHighSurrogate, UInt16.le_iff_toNat_le]

theorem isLowSurrogate_iff {u : UInt16} : isLowSurrogate u = true ↔ 0xdc00 ≤ u.toNat ∧ u.toNat ≤ 0xdfff := by
  simp [isLowSurrogate, UInt16.le_iff_toNat_le]

theorem charUnits_cases (c : Char) :
    (∃ u, charUnits c = [u] ∧ u.toNat = c.toNat ∧ isHighSurrogate u = false ∧ isLowSurrogate u = false) ∨
      ∃ u v, charUnits c = [u, v] ∧ isHighSurrogate u = true ∧ isLowSurrogate v = true ∧
        0x10000 + ((u.toNat - 0xd800) * 0x400 + (v.toNat - 0xdc00)) = c.toNat := by
  have hvalid : c.toNat < 0xd800 ∨ (0xdfff < c.toNat ∧ c.toNat < 0x110000) := c.valid
  unfold charUnits
  split
  · rename_i hsmall
    have hunit : (c.toNat.toUInt16).toNat = c.toNat := by
      rw [Nat.toUInt16_eq, UInt16.toNat_ofNat']
      omega
    refine Or.inl ⟨_, rfl, hunit, ?_, ?_⟩
    · rw [← Bool.not_eq_true, isHighSurrogate_iff, hunit]
      omega
    · rw [← Bool.not_eq_true, isLowSurrogate_iff, hunit]
      omega
  · rename_i hlarge
    have hu : ((0xd800 + (c.toNat - 0x10000) / 0x400).toUInt16).toNat = 0xd800 + (c.toNat - 0x10000) / 0x400 := by
      rw [Nat.toUInt16_eq, UInt16.toNat_ofNat']
      omega
    have hv : ((0xdc00 + (c.toNat - 0x10000) % 0x400).toUInt16).toNat = 0xdc00 + (c.toNat - 0x10000) % 0x400 := by
      rw [Nat.toUInt16_eq, UInt16.toNat_ofNat']
      omega
    refine Or.inr ⟨_, _, rfl, ?_, ?_, ?_⟩
    · rw [isHighSurrogate_iff, hu]
      omega
    · rw [isLowSurrogate_iff, hv]
      omega
    · rw [hu, hv]
      omega

/-- The units of a character are read as that character. -/
theorem toChars_charUnits (c : Char) (rest : JsString) : toChars (charUnits c ++ rest) = c :: toChars rest := by
  rcases charUnits_cases c with ⟨u, hunits, hnat, hhigh, hlow⟩ | ⟨u, v, hunits, hhigh, hlow, hnat⟩
  · have hchar : unitChar u = c := by
      rw [unitChar, hhigh, hlow, hnat]
      exact Char.ofNat_toNat c
    rw [hunits]
    cases rest with
    | nil =>
      show [unitChar u] = [c]
      rw [hchar]
    | cons v rest => rw [List.singleton_append, toChars, hhigh, hchar]; rfl
  · have hchar : pairChar u v = c := by rw [pairChar, hnat, Char.ofNat_toNat]
    rw [hunits, List.cons_append, List.singleton_append, toChars, hhigh, hlow, hchar]
    rfl

theorem toText_ofString (text : String) : toText (ofString text) = text := by
  have hchars : ∀ chars : List Char, toChars (chars.flatMap charUnits) = chars := by
    intro chars
    induction chars with
    | nil => rfl
    | cons c chars ih => rw [List.flatMap_cons, toChars_charUnits, ih]
  rw [toText, ofString, hchars, String.ofList_toList]

theorem isWellFormed_iff {string : JsString} : IsWellFormed string ↔ ∃ text, string = ofString text := by
  constructor
  · intro h
    exact ⟨toText string, h.symm⟩
  · rintro ⟨text, rfl⟩
    rw [IsWellFormed, toWellFormed, toText_ofString]

end Lib.JsString

/-!
## Code points

A string of code units read from its start: a surrogate pair is one code point, and a surrogate without its partner is one of
its own. Upper case is taken code point by code point, from the upper case of characters. A character inside a string is read
as itself, whatever stands around it.
-/

namespace Lib.JsString

/-- The code point of a surrogate pair. -/
def pairPoint (u v : UInt16) : Nat := 0x10000 + ((u.toNat - 0xd800) * 0x400 + (v.toNat - 0xdc00))

/-- The loop over the code points of a string, each with the position of its first unit. -/
def codePointsFrom : Nat → JsString → List (Nat × Nat)
  | _, [] => []
  | position, [u] => [(u.toNat, position)]
  | position, u :: v :: rest =>
    if isHighSurrogate u && isLowSurrogate v then (pairPoint u v, position) :: codePointsFrom (position + 2) rest
    else (u.toNat, position) :: codePointsFrom (position + 1) (v :: rest)

/-- The code points of a string. -/
def codePoints (string : JsString) : List Nat := (codePointsFrom 0 string).map Prod.fst

def fromCodePoint (codePoint : Nat) : JsString :=
  if codePoint < 0x10000 then [codePoint.toUInt16]
  else [(0xd800 + (codePoint - 0x10000) / 0x400).toUInt16, (0xdc00 + (codePoint - 0x10000) % 0x400).toUInt16]

/-- The upper case of a code point, from the upper case of characters; a surrogate has none. -/
def upperPoint (upper : Char → List Char) (codePoint : Nat) : JsString :=
  if codePoint.isValidChar then (upper (Char.ofNat codePoint)).flatMap charUnits else fromCodePoint codePoint

def toUpperCase (upper : Char → List Char) (string : JsString) : JsString := (codePoints string).flatMap (upperPoint upper)

/-! ## Reading a character -/

theorem fromCodePoint_toNat (c : Char) : fromCodePoint c.toNat = charUnits c := rfl

theorem codePointsFrom_charUnits (c : Char) (position : Nat) (rest : JsString) :
    codePointsFrom position (charUnits c ++ rest) =
      (c.toNat, position) :: codePointsFrom (position + (charUnits c).length) rest := by
  rcases charUnits_cases c with ⟨u, hunits, hnat, hhigh, _⟩ | ⟨u, v, hunits, hhigh, hlow, hnat⟩
  · rw [hunits]
    cases rest with
    | nil =>
      show [(u.toNat, position)] = [(c.toNat, position)]
      rw [hnat]
    | cons v rest =>
      rw [List.singleton_append, codePointsFrom, hhigh, hnat]
      rfl
  · have hpair : (isHighSurrogate u && isLowSurrogate v) = true := by rw [hhigh, hlow, Bool.and_self]
    have hpoint : pairPoint u v = c.toNat := hnat
    rw [hunits, List.cons_append, List.singleton_append, codePointsFrom, if_pos hpair, hpoint]
    rfl

/-- What stands before a character is read apart from it. -/
theorem codePointsFrom_append_charUnits (before : JsString) (c : Char) (position : Nat) (after : JsString) :
    codePointsFrom position (before ++ (charUnits c ++ after)) =
      codePointsFrom position before ++ codePointsFrom (position + before.length) (charUnits c ++ after) := by
  induction position, before using codePointsFrom.induct with
  | case1 position => rfl
  | case2 position u =>
    -- a surrogate at the end finds no partner in the character, which does not begin with the second half of a pair
    have hfirst : ∃ w more, charUnits c = w :: more ∧ isLowSurrogate w = false := by
      rcases charUnits_cases c with ⟨w, hunits, _, _, hlow⟩ | ⟨w, v, hunits, hhigh, _, _⟩
      · exact ⟨w, [], hunits, hlow⟩
      · refine ⟨w, [v], hunits, ?_⟩
        rw [isHighSurrogate_iff] at hhigh
        rw [← Bool.not_eq_true, isLowSurrogate_iff]
        omega
    obtain ⟨w, more, hunits, hlow⟩ := hfirst
    rw [hunits]
    simp only [List.cons_append, List.nil_append, codePointsFrom, hlow, Bool.and_false, Bool.false_eq_true, if_false,
      List.length_cons, List.length_nil, Nat.zero_add]
  | case3 position u v rest hpair ih =>
    simp only [List.cons_append] at ih ⊢
    rw [codePointsFrom, if_pos hpair, codePointsFrom, if_pos hpair, ih, List.length_cons, List.length_cons,
      List.cons_append, Nat.add_assoc, Nat.add_comm 2, Nat.add_assoc]
  | case4 position u v rest hpair ih =>
    simp only [List.cons_append] at ih ⊢
    rw [codePointsFrom, if_neg hpair, codePointsFrom, if_neg hpair, ih, List.length_cons (a := u), List.cons_append,
      Nat.add_assoc, Nat.add_comm 1]

/-- The positions do not change what is read. -/
theorem map_fst_codePointsFrom (position : Nat) (string : JsString) :
    (codePointsFrom position string).map Prod.fst = codePoints string := by
  have hshift : ∀ first second : Nat, (codePointsFrom first string).map Prod.fst = (codePointsFrom second string).map Prod.fst := by
    intro first
    induction first, string using codePointsFrom.induct with
    | case1 first => exact fun _ => rfl
    | case2 first u => exact fun _ => rfl
    | case3 first u v rest hpair ih =>
      intro second
      rw [codePointsFrom, if_pos hpair, codePointsFrom, if_pos hpair, List.map_cons, List.map_cons, ih]
    | case4 first u v rest hpair ih =>
      intro second
      rw [codePointsFrom, if_neg hpair, codePointsFrom, if_neg hpair, List.map_cons, List.map_cons, ih]
  exact hshift position 0

/-- A character inside a string is read as itself, and what stands around it as without it. -/
theorem codePoints_append_charUnits (before : JsString) (c : Char) (after : JsString) :
    codePoints (before ++ (charUnits c ++ after)) = codePoints before ++ c.toNat :: codePoints after := by
  rw [codePoints, codePointsFrom_append_charUnits, codePointsFrom_charUnits, List.map_append, List.map_cons,
    map_fst_codePointsFrom, map_fst_codePointsFrom]

/-- A text is read as its characters. -/
theorem codePoints_flatMap_charUnits (chars : List Char) : codePoints (chars.flatMap charUnits) = chars.map Char.toNat := by
  induction chars with
  | nil => rfl
  | cons c chars ih => rw [List.flatMap_cons, ← List.nil_append (charUnits c ++ _), codePoints_append_charUnits, ih]; rfl

theorem fromCodePoint_pairPoint {u v : UInt16} (hhigh : isHighSurrogate u = true) (hlow : isLowSurrogate v = true) :
    fromCodePoint (pairPoint u v) = [u, v] := by
  rw [isHighSurrogate_iff] at hhigh
  rw [isLowSurrogate_iff] at hlow
  have hu : 0xd800 + (pairPoint u v - 0x10000) / 0x400 = u.toNat := by
    unfold pairPoint
    omega
  have hv : 0xdc00 + (pairPoint u v - 0x10000) % 0x400 = v.toNat := by
    unfold pairPoint
    omega
  have hlarge : ¬ pairPoint u v < 0x10000 := by
    unfold pairPoint
    omega
  rw [fromCodePoint, if_neg hlarge, hu, hv, Nat.toUInt16_eq, Nat.toUInt16_eq, UInt16.ofNat_toNat, UInt16.ofNat_toNat]

theorem fromCodePoint_unit (u : UInt16) : fromCodePoint u.toNat = [u] := by
  have hsmall : u.toNat < 0x10000 := u.toNat_lt
  rw [fromCodePoint, if_pos hsmall, Nat.toUInt16_eq, UInt16.ofNat_toNat]

theorem exists_append_of_mem_codePointsFrom {start codePoint position : Nat} {string : JsString}
    (h : (codePoint, position) ∈ codePointsFrom start string) :
    ∃ before after, string = before ++ (fromCodePoint codePoint ++ after) ∧ position = start + before.length := by
  induction start, string using codePointsFrom.induct with
  | case1 start => exact absurd h List.not_mem_nil
  | case2 start u =>
    obtain ⟨rfl, rfl⟩ := Prod.mk.inj (List.mem_singleton.mp h)
    exact ⟨[], [], by rw [fromCodePoint_unit]; rfl, rfl⟩
  | case3 start u v rest hpair ih =>
    rw [codePointsFrom, if_pos hpair] at h
    rcases List.mem_cons.mp h with heq | hrest
    · obtain ⟨hpoint, hposition⟩ := Prod.mk.inj heq
      obtain ⟨hhigh, hlow⟩ := Bool.and_eq_true_iff.mp hpair
      exact ⟨[], rest, by rw [hpoint, fromCodePoint_pairPoint hhigh hlow]; rfl, hposition⟩
    · obtain ⟨before, after, rfl, rfl⟩ := ih hrest
      exact ⟨u :: v :: before, after, rfl, by rw [List.length_cons, List.length_cons]; omega⟩
  | case4 start u v rest hpair ih =>
    rw [codePointsFrom, if_neg hpair] at h
    rcases List.mem_cons.mp h with heq | hrest
    · obtain ⟨rfl, rfl⟩ := Prod.mk.inj heq
      exact ⟨[], v :: rest, by rw [fromCodePoint_unit]; rfl, rfl⟩
    · obtain ⟨before, after, hstring, rfl⟩ := ih hrest
      exact ⟨u :: before, after, by rw [hstring]; rfl, by rw [List.length_cons]; omega⟩

/-- A character of a text is read inside any string around the text. -/
theorem mem_codePoints_flatMap {c : Char} {chars : List Char} (h : c ∈ chars) (before after : JsString) :
    c.toNat ∈ codePoints (before ++ (chars.flatMap charUnits ++ after)) := by
  obtain ⟨front, back, rfl⟩ := List.append_of_mem h
  have hstring : before ++ ((front ++ c :: back).flatMap charUnits ++ after) =
      (before ++ front.flatMap charUnits) ++ (charUnits c ++ (back.flatMap charUnits ++ after)) := by
    rw [List.flatMap_append, List.flatMap_cons]
    simp only [List.append_assoc]
  rw [hstring, codePoints_append_charUnits]
  exact List.mem_append_right _ List.mem_cons_self

/-! ## Upper case -/

theorem upperPoint_toNat (upper : Char → List Char) (c : Char) : upperPoint upper c.toNat = (upper c).flatMap charUnits := by
  rw [upperPoint, if_pos (show c.toNat.isValidChar from c.valid), Char.ofNat_toNat]

theorem toUpperCase_charUnits (upper : Char → List Char) (c : Char) :
    toUpperCase upper (charUnits c) = (upper c).flatMap charUnits := by
  have hpoints := codePoints_flatMap_charUnits [c]
  rw [List.flatMap_cons, List.flatMap_nil, List.append_nil] at hpoints
  rw [toUpperCase, hpoints, List.map_singleton, List.flatMap_cons, List.flatMap_nil, List.append_nil, upperPoint_toNat]

theorem toUpperCase_append_charUnits (upper : Char → List Char) (before : JsString) (c : Char) (after : JsString) :
    toUpperCase upper (before ++ (charUnits c ++ after)) =
      toUpperCase upper before ++ ((upper c).flatMap charUnits ++ toUpperCase upper after) := by
  rw [toUpperCase, codePoints_append_charUnits, List.flatMap_append, List.flatMap_cons, upperPoint_toNat]
  rfl

end Lib.JsString
