import UniDocs.Lib.Bytes
import UniDocs.Lib.JsNumber

/-!
# Writing JSON

The spelling that `JSON.stringify` gives to a string and to a natural number, and the object texts that are written without
gaps: what is written is parsed back to what it stands for.
-/

namespace Lib.JsonText

open Lib Lib.JsNumber

/-! ## Strings -/

/-- A hexadecimal digit, in lower case. -/
def hexUnit (n : Nat) : UInt16 := if n < 10 then (48 + n).toUInt16 else (87 + n).toUInt16

theorem hexUnit_spec : ∀ n : Fin 16, isHexDigit (hexUnit n) = true ∧ hexValue (hexUnit n) = n.val := by decide

/-- The letter of a short escape. -/
def shortEscape (u : UInt16) : Option { letter // isShortEscape letter = true } :=
  if u = 34 then some ⟨34, rfl⟩
  else if u = 92 then some ⟨92, rfl⟩
  else if u = 8 then some ⟨98, rfl⟩
  else if u = 12 then some ⟨102, rfl⟩
  else if u = 10 then some ⟨110, rfl⟩
  else if u = 13 then some ⟨114, rfl⟩
  else if u = 9 then some ⟨116, rfl⟩
  else none

/-- The last two digits of an escaped control character. -/
theorem controlDigits_ok (u : UInt16) :
    [48, 48, hexUnit (u.toNat / 16 % 16), hexUnit (u.toNat % 16)].all isHexDigit = true := by
  have hhigh := (hexUnit_spec ⟨u.toNat / 16 % 16, by omega⟩).1
  have hlow := (hexUnit_spec ⟨u.toNat % 16, by omega⟩).1
  simp only [List.all_cons, List.all_nil, hhigh, hlow]
  rfl

/-- A unit of a well-formed string as it is quoted. -/
def quoteUnit (u : UInt16) : Piece :=
  if hplain : isPlain u = true then .plain u hplain
  else
    match shortEscape u with
    | some ⟨letter, h⟩ => .escape letter h
    | none => .unicode 48 48 (hexUnit (u.toNat / 16 % 16)) (hexUnit (u.toNat % 16)) (controlDigits_ok u)

/-- `JSON.stringify` of a well-formed string. -/
def quote (text : JsString) : JsString := renderString (text.map quoteUnit)

theorem quoteUnit_small : ∀ n : Fin 32, (quoteUnit n.val.toUInt16).unit = n.val.toUInt16 := by decide

/-- A quoted unit stands for itself. -/
theorem quoteUnit_unit (u : UInt16) : (quoteUnit u).unit = u := by
  by_cases hplain : isPlain u = true
  · rw [quoteUnit, dif_pos hplain]
    rfl
  · have hcases : u.toNat < 32 ∨ u = 34 ∨ u = 92 := by
      simp only [isPlain, Bool.and_eq_true, decide_eq_true_eq, bne_iff_ne, ne_eq, UInt16.le_iff_toNat_le] at hplain
      by_contra hnone
      push Not at hnone
      exact hplain ⟨⟨hnone.1, hnone.2.1⟩, hnone.2.2⟩
    rcases hcases with hsmall | rfl | rfl
    · have hu := quoteUnit_small ⟨u.toNat, hsmall⟩
      simp only [Nat.toUInt16_eq, UInt16.ofNat_toNat] at hu
      exact hu
    · decide
    · decide

theorem decode_quote (text : JsString) : decode (text.map quoteUnit) = text := by
  rw [decode, List.map_map]
  conv_rhs => rw [← List.map_id text]
  exact List.map_congr_left fun u _ => quoteUnit_unit u

/-- A string is parsed as it is spelled. -/
theorem parsePieces_complete (pieces : List Piece) (rest : JsString) :
    parsePieces (renderPieces pieces ++ 34 :: rest) = some (pieces, rest) := by
  induction pieces with
  | nil =>
    show parsePieces (34 :: rest) = _
    rw [parsePieces.eq_def]
    simp
  | cons piece pieces ih =>
    have hcons : renderPieces (piece :: pieces) ++ 34 :: rest = piece.render ++ (renderPieces pieces ++ 34 :: rest) := by
      rw [renderPieces, List.flatMap_cons, List.append_assoc]
      rfl
    rw [hcons]
    generalize renderPieces pieces ++ 34 :: rest = tail at ih ⊢
    rw [parsePieces.eq_def]
    cases piece with
    | plain u h =>
      have hne : u ≠ 34 ∧ u ≠ 92 := by
        have hparts := h
        simp only [isPlain, Bool.and_eq_true, bne_iff_ne, ne_eq] at hparts
        exact ⟨hparts.1.2, hparts.2⟩
      simp only [Piece.render, List.singleton_append, if_neg hne.1, if_neg hne.2, dif_pos h, ih, Option.map_some]
    | escape u h =>
      simp only [Piece.render, List.cons_append, List.nil_append]
      rw [if_neg (by decide), if_pos trivial, dif_pos h, ih, Option.map_some]
    | unicode a b c d h =>
      simp only [Piece.render, List.cons_append, List.nil_append]
      rw [if_neg (by decide), if_pos trivial, dif_neg (by decide), if_pos trivial, dif_pos h, ih, Option.map_some]

/-! ## Numbers -/

theorem isNumberUnit_of_isDigit {u : UInt16} (h : isDigit u = true) : isNumberUnit u = true := by
  rw [isNumberUnit, Bool.or_eq_true]
  exact .inl h

theorem wholePart_decimal (n : Nat) {u : UInt16} {rest : JsString} (hu : isDigit u = false) :
    wholePart (decimal n ++ u :: rest) = some (decimal n, u :: rest) := by
  rcases Nat.eq_zero_or_pos n with rfl | hn
  · rfl
  · have hhead : ∀ tail, decimal n ++ u :: rest ≠ 48 :: tail := by
      intro tail heq
      have hzero := toDigits_head_ne_zero n hn
      have hchars : ∀ c ∈ Nat.toDigits 10 n, c.isDigit = true := fun c hc =>
        Nat.isDigit_of_mem_toDigits (by decide) (by decide) hc
      rw [decimal] at heq
      cases hdigits : Nat.toDigits 10 n with
      | nil => exact Nat.toDigits_ne_nil hdigits
      | cons c cs =>
        rw [hdigits] at heq hzero hchars
        have hunit := (digit_unit (hchars c List.mem_cons_self)).1
        rw [List.map_cons, List.cons_append] at heq
        rw [(List.cons.inj heq).1] at hunit
        have hc : c = '0' := Char.toNat_inj.mp hunit.symm
        exact hzero (congrArg some hc)
    have htake : (decimal n ++ u :: rest).takeWhile isDigit = decimal n := by
      rw [List.takeWhile_append_of_pos decimal_digits, List.takeWhile_cons_of_neg (by rw [hu]; exact Bool.false_ne_true),
        List.append_nil]
    have hdrop : (decimal n ++ u :: rest).dropWhile isDigit = u :: rest := by
      rw [List.dropWhile_append_of_pos decimal_digits, List.dropWhile_cons_of_neg (by rw [hu]; exact Bool.false_ne_true)]
    unfold wholePart
    split
    · rename_i tail heq
      exact absurd heq (hhead tail)
    · rw [digits, htake, hdrop, if_neg]
      rw [List.isEmpty_iff]
      exact decimal_ne_nil

theorem parseNumber_decimal (n : Nat) {u : UInt16} (rest : JsString) (hu : isNumberUnit u = false) :
    ∃ token : NumberToken, token.1 = decimal n ∧ parseNumber (decimal n ++ u :: rest) = some (token, u :: rest) := by
  have hne : ∀ v : UInt16, isNumberUnit v = true → u ≠ v := by
    rintro v hv rfl
    rw [hu] at hv
    cases hv
  have hdigit : isDigit u = false := by
    cases hd : isDigit u with
    | false => rfl
    | true => exact absurd rfl (hne u (isNumberUnit_of_isDigit hd))
  have hall : (decimal n).all isNumberUnit = true :=
    List.all_eq_true.mpr fun v hv => isNumberUnit_of_isDigit (decimal_digits v hv)
  have hsign : (decimal n ++ u :: rest).head? ≠ some 45 := by
    cases hdigits : decimal n with
    | nil => exact absurd hdigits decimal_ne_nil
    | cons v vs =>
      have hv : isDigit v = true := decimal_digits (n := n) v (hdigits ▸ List.mem_cons_self)
      intro hhead
      cases hhead
      exact absurd hv (by decide)
  have hfraction : fraction (u :: rest) = some ([], u :: rest) := by
    unfold fraction
    split
    · rename_i tail heq
      exact absurd (List.cons.inj heq).1 (hne 46 (by decide))
    · rfl
  have hexponent : exponent (u :: rest) = some ([], u :: rest) := by
    rw [exponent.eq_def]
    dsimp only
    rw [if_neg]
    rw [Bool.or_eq_true, decide_eq_true_eq, decide_eq_true_eq]
    rintro (heq | heq)
    · exact hne 69 (by decide) heq
    · exact hne 101 (by decide) heq
  refine ⟨⟨decimal n, hall⟩, rfl, ?_⟩
  rw [parseNumber]
  simp only [if_neg hsign, List.length_nil, List.drop_zero, wholePart_decimal n hdigit, hfraction, hexponent,
    Option.bind_eq_bind, Option.bind_some, List.nil_append, List.append_nil, dif_pos hall]

/-! ## Values in an object -/

/-- The text begins with this value, whatever follows that is no unit of a number. -/
def Spells (text : JsString) (value : Value) : Prop :=
  (∀ rest, skipGap (text ++ rest) = text ++ rest) ∧ ∀ u rest, isNumberUnit u = false →
    ∃ tree : Tree, tree.value = value ∧ ∀ fuel, parseValue (fuel + 1) (text ++ u :: rest) = some (tree, u :: rest)

theorem quote_append (text rest : JsString) : quote text ++ rest = 34 :: (renderPieces (text.map quoteUnit) ++ 34 :: rest) := by
  rw [quote, renderString, List.cons_append, List.cons_append, List.append_assoc, List.singleton_append]

theorem spells_quote (text : JsString) : Spells (quote text) (.string text) := by
  refine ⟨fun rest => rfl, fun u rest _ => ⟨.string (text.map quoteUnit), ?_, fun fuel => ?_⟩⟩
  · rw [Tree.value, decode_quote]
  · rw [quote_append, parseValue, if_pos rfl, parsePieces_complete]
    rfl

theorem spells_decimal (n : Nat) : Spells (decimal n) (.number (decimal n)) := by
  have hhead : ∃ v vs, decimal n = v :: vs ∧ isDigit v = true := by
    cases hdigits : decimal n with
    | nil => exact absurd hdigits decimal_ne_nil
    | cons v vs => exact ⟨v, vs, rfl, decimal_digits (n := n) v (hdigits ▸ List.mem_cons_self)⟩
  obtain ⟨v, vs, hcons, hv⟩ := hhead
  have hne : ∀ w : UInt16, isDigit w = false → v ≠ w := by
    rintro w hw rfl
    rw [hv] at hw
    cases hw
  refine ⟨fun rest => ?_, fun u rest hu => ?_⟩
  · rw [hcons, skipGap, List.cons_append]
    refine List.dropWhile_cons_of_neg ?_
    simp only [isGap, Bool.or_eq_true, beq_iff_eq, not_or]
    exact ⟨⟨⟨hne 32 (by decide), hne 9 (by decide)⟩, hne 10 (by decide)⟩, hne 13 (by decide)⟩
  · obtain ⟨token, htoken, hparse⟩ := parseNumber_decimal n rest hu
    refine ⟨.number token, by rw [Tree.value, htoken], fun fuel => ?_⟩
    rw [hcons, List.cons_append] at hparse ⊢
    rw [parseValue, if_neg (hne 34 (by decide)), if_neg (hne 91 (by decide)), if_neg (hne 123 (by decide)),
      if_neg (hne 110 (by decide)), if_neg (hne 116 (by decide)), if_neg (hne 102 (by decide)), hparse]
    rfl

/-- The text of a list of members without gaps. -/
def writeMembers : List (JsString × JsString) → JsString
  | [] => []
  | [(key, value)] => quote key ++ 58 :: value
  | (key, value) :: rest => quote key ++ 58 :: value ++ 44 :: writeMembers rest

/-- The text of an object without gaps. -/
def writeObject (members : List (JsString × JsString)) : JsString := 123 :: writeMembers members ++ [125]

theorem gapOf_eq {text : JsString} (h : skipGap text = text) : gapOf text = ⟨[], rfl⟩ := by
  have happend := gapOf_append text
  rw [h] at happend
  exact Subtype.ext (List.append_left_eq_self.mp happend)

theorem skipGap_of_head {u : UInt16} {rest : JsString} (h : isGap u = false) : skipGap (u :: rest) = u :: rest := by
  rw [skipGap]
  exact List.dropWhile_cons_of_neg (by rw [h]; exact Bool.false_ne_true)

theorem parseMembers_member (key : JsString) {valueText : JsString} {value : Value} (hspells : Spells valueText value) (rest : JsString) :
    (∃ tree : Tree, tree.value = value ∧ ∀ fuel, parseMembers (fuel + 2) (quote key ++ 58 :: valueText ++ 44 :: rest) =
      (parseMembers (fuel + 1) rest).map fun r =>
        (.cons ⟨[], rfl⟩ (key.map quoteUnit) ⟨[], rfl⟩ ⟨[], rfl⟩ tree ⟨[], rfl⟩ r.1, r.2)) ∧
    ∃ tree : Tree, tree.value = value ∧ ∀ fuel, parseMembers (fuel + 2) (quote key ++ 58 :: valueText ++ 125 :: rest) =
      some (.cons ⟨[], rfl⟩ (key.map quoteUnit) ⟨[], rfl⟩ ⟨[], rfl⟩ tree ⟨[], rfl⟩ .nil, rest) := by
  obtain ⟨hgap, hparse⟩ := hspells
  have htext : ∀ tail, quote key ++ 58 :: valueText ++ tail =
      34 :: (renderPieces (key.map quoteUnit) ++ 34 :: 58 :: (valueText ++ tail)) := by
    intro tail
    rw [List.append_assoc, quote_append, List.cons_append]
  have hquote : ∀ tail : JsString, skipGap (34 :: tail) = 34 :: tail := fun tail => skipGap_of_head (by decide)
  have hcolon : ∀ tail : JsString, skipGap (58 :: tail) = 58 :: tail := fun tail => skipGap_of_head (by decide)
  have hcomma : skipGap (44 :: rest) = 44 :: rest := skipGap_of_head (by decide)
  have hbrace : skipGap (125 :: rest) = 125 :: rest := skipGap_of_head (by decide)
  constructor
  · obtain ⟨tree, hvalue, htree⟩ := hparse 44 rest (by decide)
    refine ⟨tree, hvalue, fun fuel => ?_⟩
    rw [htext, parseMembers, hquote]
    simp only [parsePieces_complete, Option.bind_eq_bind, Option.bind_some, hcolon, hgap, htree fuel, hcomma, gapOf_eq (hquote _),
      gapOf_eq (hcolon _), gapOf_eq (hgap _), gapOf_eq hcomma]
  · obtain ⟨tree, hvalue, htree⟩ := hparse 125 rest (by decide)
    refine ⟨tree, hvalue, fun fuel => ?_⟩
    rw [htext, parseMembers, hquote]
    simp only [parsePieces_complete, Option.bind_eq_bind, Option.bind_some, hcolon, hgap, htree fuel, hbrace, gapOf_eq (hquote _),
      gapOf_eq (hcolon _), gapOf_eq (hgap _), gapOf_eq hbrace]

theorem parseMembers_write {members : List (JsString × JsString)} {fields : List (JsString × Value)}
    (h : List.Forall₂ (fun m f => m.1 = f.1 ∧ Spells m.2 f.2) members fields) (hne : members ≠ []) (rest : JsString) :
    ∃ tree : Members, tree.fields = fields ∧
      parseMembers (members.length + 1) (writeMembers members ++ 125 :: rest) = some (tree, rest) := by
  induction h with
  | nil => exact absurd rfl hne
  | @cons m f members fields hm hrest ih =>
    obtain ⟨key, valueText⟩ := m
    obtain ⟨key', value⟩ := f
    obtain ⟨rfl, hspells⟩ := hm
    cases hrest with
    | nil =>
      obtain ⟨tree, hvalue, hparse⟩ := (parseMembers_member key hspells rest).2
      refine ⟨_, ?_, hparse 0⟩
      rw [Members.fields, Members.fields, decode_quote, hvalue]
    | @cons m' f' members fields hm' hrest' =>
      obtain ⟨more, hfields, hmore⟩ := ih (List.cons_ne_nil _ _)
      obtain ⟨tree, hvalue, hparse⟩ := (parseMembers_member key hspells
        (writeMembers (m' :: members) ++ 125 :: rest)).1
      have hwrite : writeMembers ((key, valueText) :: m' :: members) ++ 125 :: rest =
          quote key ++ 58 :: valueText ++ 44 :: (writeMembers (m' :: members) ++ 125 :: rest) := by
        rw [writeMembers.eq_3 _ _ _ (List.cons_ne_nil _ _), List.append_assoc, List.cons_append]
      refine ⟨.cons ⟨[], rfl⟩ (key.map quoteUnit) ⟨[], rfl⟩ ⟨[], rfl⟩ tree ⟨[], rfl⟩ more, ?_, ?_⟩
      · rw [Members.fields, decode_quote, hvalue, hfields]
      · rw [hwrite, List.length_cons, List.length_cons]
        refine (hparse (members.length + 1)).trans ?_
        rw [List.length_cons] at hmore
        rw [hmore]
        rfl

theorem parse_writeObject {members : List (JsString × JsString)} {fields : List (JsString × Value)}
    (h : List.Forall₂ (fun m f => m.1 = f.1 ∧ Spells m.2 f.2) members fields) (hne : members ≠ []) :
    ∃ before tree after, parse (writeObject members) = some (before, tree, after) ∧
      tree.value = .object (fields.foldl (fun fields f => define f.1 f.2 fields) []) := by
  obtain ⟨tree, hfields, hparse⟩ := parseMembers_write h hne []
  have hstart : ∃ tail, writeMembers members ++ [125] = 34 :: tail := by
    cases members with
    | nil => exact absurd rfl hne
    | cons m members =>
      obtain ⟨key, valueText⟩ := m
      cases members with
      | nil => exact ⟨_, by rw [writeMembers, List.append_assoc, quote_append]⟩
      | cons m' members =>
        refine ⟨renderPieces (key.map quoteUnit) ++ 34 :: (58 :: valueText ++ 44 :: writeMembers (m' :: members) ++ [125]), ?_⟩
        rw [writeMembers.eq_3 _ _ _ (List.cons_ne_nil _ _), ← quote_append]
        simp only [List.append_assoc, List.cons_append]
  obtain ⟨tail, htail⟩ := hstart
  have hskip : skipGap (writeObject members) = writeObject members := skipGap_of_head (by decide)
  have hvalue : parseValue (members.length + 2) (writeObject members) = some (.object ⟨[], rfl⟩ tree, []) := by
    have hinner : skipGap (writeMembers members ++ [125]) = 34 :: tail := by
      rw [htail]
      exact skipGap_of_head (by decide)
    have hopen : parseValue (members.length + 2) (123 :: (writeMembers members ++ [125])) =
        (parseMembers (members.length + 1) (writeMembers members ++ [125])).map fun r => (.object ⟨[], rfl⟩ r.1, r.2) := by
      rw [parseValue, if_neg (by decide), if_neg (by decide), if_pos rfl, hinner]
      split
      · rename_i t heq
        exact absurd (List.cons.inj heq).1 (by decide)
      · rfl
    rw [writeObject, List.cons_append, hopen, hparse]
    rfl
  rw [← hskip] at hvalue
  refine ⟨_, .object ⟨[], rfl⟩ tree, ⟨[], rfl⟩, parse_complete hvalue, ?_⟩
  rw [Tree.value, hfields]

end Lib.JsonText
