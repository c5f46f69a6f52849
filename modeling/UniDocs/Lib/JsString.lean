import Mathlib.Data.List.Basic

/-!
# Strings of code units

Strings as ECMAScript has them, any sequence of 16-bit code units, with the search for a string in another and the
replacement of its first occurrence, whose replacement text may name the match and the text around it.
-/

namespace Lib

/-- A string of UTF-16 code units, well formed or not. -/
abbrev JsString := List UInt16

instance : LawfulBEq JsString := inferInstance

namespace JsString

/-- The code units of a character. -/
def charUnits (c : Char) : JsString :=
  if c.toNat < 0x10000 then [c.toNat.toUInt16]
  else [(0xd800 + (c.toNat - 0x10000) / 0x400).toUInt16, (0xdc00 + (c.toNat - 0x10000) % 0x400).toUInt16]

/-- The code units of a text. -/
def ofString (text : String) : JsString := text.toList.flatMap charUnits

/-- White space, as `\s` matches it. -/
def isSpace (u : UInt16) : Bool :=
  (9 ≤ u && u ≤ 13) || (0x2000 ≤ u && u ≤ 0x200a) ||
    [0x20, 0xa0, 0x1680, 0x2028, 0x2029, 0x202f, 0x205f, 0x3000, 0xfeff].contains u

/-! ## The first occurrence of a string -/

/-- `indexOf`: the first place where a string occurs. -/
def indexOf (needle : JsString) : JsString → Option Nat
  | [] => if needle = [] then some 0 else none
  | u :: rest => if needle.isPrefixOf (u :: rest) then some 0 else (indexOf needle rest).map (· + 1)

/-- A string that occurs somewhere has a first place, no later than that one. -/
theorem indexOf_of_prefix {needle : JsString} : ∀ {text : JsString} {i : Nat}, i ≤ text.length → needle <+: text.drop i →
    ∃ j ≤ i, indexOf needle text = some j := by
  intro text
  induction text with
  | nil =>
    intro i _ h
    refine ⟨0, by omega, ?_⟩
    rw [List.drop_nil, List.prefix_nil] at h
    simp [indexOf, h]
  | cons u rest ih =>
    intro i hi h
    simp only [indexOf]
    by_cases hp : needle.isPrefixOf (u :: rest) = true
    · exact ⟨0, by omega, by rw [if_pos hp]⟩
    · rw [if_neg hp]
      cases i with
      | zero => exact absurd (List.isPrefixOf_iff_prefix.mpr (by simpa using h)) hp
      | succ i =>
        obtain ⟨j, hj, hfound⟩ := ih (by simpa using hi) (by simpa using h)
        exact ⟨j + 1, by omega, by rw [hfound]; rfl⟩

/-! ## Replacement -/

/-- `GetSubstitution` of a match without captures: `$$` stands for a dollar sign, `$&` for the match, and `$` before a
grave accent or an apostrophe for the text before or after it. -/
def getSubstitution (matched before after : JsString) : JsString → JsString
  | [] => []
  | [u] => [u]
  | u :: v :: rest =>
    if u = 36 then
      if v = 36 then 36 :: getSubstitution matched before after rest
      else if v = 38 then matched ++ getSubstitution matched before after rest
      else if v = 96 then before ++ getSubstitution matched before after rest
      else if v = 39 then after ++ getSubstitution matched before after rest
      else u :: getSubstitution matched before after (v :: rest)
    else u :: getSubstitution matched before after (v :: rest)

/-- `replace` with a string to look for: its first occurrence is replaced. -/
def replace (text needle replacement : JsString) : JsString :=
  match indexOf needle text with
  | some i =>
    text.take i ++ getSubstitution needle (text.take i) (text.drop (i + needle.length)) replacement ++
      text.drop (i + needle.length)
  | none => text

@[simp] theorem getSubstitution_nil (matched before after : JsString) : getSubstitution matched before after [] = [] := rfl

end JsString

end Lib

/-!
## Texts

The length of a text, and the white space and line terminators that ECMAScript strips from both ends of it.
-/

namespace Lib.Text

/-- `length`: the code units of a text. -/
def unitLength (text : String) : Nat := (JsString.ofString text).length

/-- White space as `trim` strips it. -/
def isSpace (c : Char) : Bool :=
  (9 ≤ c.toNat && c.toNat ≤ 13) || (0x2000 ≤ c.toNat && c.toNat ≤ 0x200a) ||
    [0x20, 0xa0, 0x1680, 0x2028, 0x2029, 0x202f, 0x205f, 0x3000, 0xfeff].contains c.toNat

/-- Without the characters at both ends that meet a condition. -/
def strip (p : Char → Bool) (text : List Char) : List Char := ((text.dropWhile p).reverse.dropWhile p).reverse

@[irreducible] def trim (text : String) : String := String.ofList (strip isSpace text.toList)

end Lib.Text
