import UniDocs.Control.Listings

/-!
# Cursors of the control plane

A cursor can be made of a string whose characters are all below 256, and it is read again when that string is not empty and
the snapshot is a safe integer.
-/

namespace UniDocs.Control

open Lib Lib.JsonText Lib.JsNumber

/-- Every character is one that `btoa` takes. -/
def IsLatin1 (text : String) : Prop := ∀ c ∈ text.toList, c.toNat ≤ 255

/-- A cursor with this snapshot and this string can be made and read again. -/
def CursorReadable (snapshot : Nat) (last : String) : Prop :=
  last ≠ "" ∧ IsLatin1 last ∧ (snapshot : Int) ≤ maxSafeInteger

/-! ## Units of a quoted string -/

theorem hexUnit_le : ∀ n : Fin 16, (hexUnit n).toNat ≤ 255 := by decide

/-- A piece of a quoted string has a large unit only when it stands for one. -/
theorem render_quoteUnit (u : UInt16) : (∀ v ∈ (quoteUnit u).render, v.toNat ≤ 255) ↔ u.toNat ≤ 255 := by
  by_cases hplain : isPlain u = true
  · rw [quoteUnit, dif_pos hplain, Piece.render]
    simp
  · have hsmall : u.toNat ≤ 255 := by
      by_contra hlarge
      refine hplain ?_
      simp only [isPlain, Bool.and_eq_true, decide_eq_true_eq, bne_iff_ne, ne_eq, UInt16.le_iff_toNat_le]
      refine ⟨⟨Nat.le_trans (by decide) (Nat.le_of_not_le hlarge), ?_⟩, ?_⟩
      · rintro rfl
        exact hlarge (by decide)
      · rintro rfl
        exact hlarge (by decide)
    refine ⟨fun _ => hsmall, fun _ v hv => ?_⟩
    rw [quoteUnit, dif_neg hplain] at hv
    split at hv
    · rename_i letter hletter _
      rw [Piece.render, List.mem_cons, List.mem_singleton] at hv
      rcases hv with rfl | rfl
      · decide
      · have hmem : v ∈ [34, 92, 47, 98, 102, 110, 114, 116] := List.contains_iff_mem.mp hletter
        simp only [List.mem_cons, List.not_mem_nil, or_false] at hmem
        rcases hmem with rfl | rfl | rfl | rfl | rfl | rfl | rfl | rfl <;> decide
    · simp only [Piece.render, List.mem_cons, List.not_mem_nil, or_false] at hv
      rcases hv with rfl | rfl | rfl | rfl | rfl | rfl
      · decide
      · decide
      · decide
      · decide
      · exact hexUnit_le ⟨u.toNat / 16 % 16, by omega⟩
      · exact hexUnit_le ⟨u.toNat % 16, by omega⟩

theorem quote_small (text : JsString) : (∀ v ∈ quote text, v.toNat ≤ 255) ↔ ∀ u ∈ text, u.toNat ≤ 255 := by
  have hpieces : (∀ v ∈ renderPieces (text.map quoteUnit), v.toNat ≤ 255) ↔ ∀ u ∈ text, u.toNat ≤ 255 := by
    simp only [renderPieces, List.mem_flatMap, List.mem_map, forall_exists_index, and_imp, forall_apply_eq_imp_iff₂]
    constructor
    · intro h u hu
      exact (render_quoteUnit u).mp fun v hv => h v u hu hv
    · intro h v u hu hv
      exact (render_quoteUnit u).mpr (h u hu) v hv
  rw [← hpieces, quote, renderString]
  simp only [List.cons_append, List.mem_cons, List.mem_append, List.not_mem_nil, or_false]
  constructor
  · exact fun h v hv => h v (.inr (.inl hv))
  · rintro h v (rfl | hv | rfl)
    · decide
    · exact h v hv
    · decide

theorem charUnits_small (c : Char) : (∀ u ∈ JsString.charUnits c, u.toNat ≤ 255) ↔ c.toNat ≤ 255 := by
  have hvalid : c.toNat < 0x110000 := by
    have h := c.valid
    have hnat : c.toNat < 0xd800 ∨ (0xdfff < c.toNat ∧ c.toNat < 0x110000) := h
    omega
  rw [JsString.charUnits]
  split
  · rename_i hsmall
    rw [List.forall_mem_singleton, Nat.toUInt16_eq, UInt16.toNat_ofNat', Nat.mod_eq_of_lt (by omega)]
  · rename_i hlarge
    refine ⟨fun h => ?_, fun h => absurd h (by omega)⟩
    have hfirst := h _ List.mem_cons_self
    rw [Nat.toUInt16_eq, UInt16.toNat_ofNat'] at hfirst
    omega

theorem ofString_small (text : String) : (∀ u ∈ JsString.ofString text, u.toNat ≤ 255) ↔ IsLatin1 text := by
  simp only [JsString.ofString, List.mem_flatMap, forall_exists_index, and_imp, IsLatin1]
  constructor
  · intro h c hc
    exact (charUnits_small c).mp fun u hu => h u c hc hu
  · intro h u c hc hu
    exact (charUnits_small c).mpr (h c hc) u hu

/-! ## Cursors -/

theorem decimal_small (n : Nat) : ∀ u ∈ decimal n, u.toNat ≤ 255 := by
  intro u hu
  have hdigit := decimal_digits u hu
  rw [isDigit, Bool.and_eq_true, decide_eq_true_eq, decide_eq_true_eq, UInt16.le_iff_toNat_le, UInt16.le_iff_toNat_le] at hdigit
  exact Nat.le_trans hdigit.2 (by decide)

/-- The text of a cursor. -/
def cursorText (snapshot : Nat) (last : String) : JsString :=
  writeObject [(JsString.ofString "version", decimal 1), (JsString.ofString "snapshot", decimal snapshot),
    (JsString.ofString "last", quote (JsString.ofString last))]

theorem keyText_small (key : String) (h : (key.toList.all fun c => c.toNat ≤ 255) = true) :
    ∀ u ∈ quote (JsString.ofString key), u.toNat ≤ 255 := by
  refine (quote_small _).mpr ((ofString_small key).mpr fun c hc => ?_)
  exact of_decide_eq_true (List.all_eq_true.mp h c hc)

theorem cursorText_small (snapshot : Nat) (last : String) :
    (∀ u ∈ cursorText snapshot last, u.toNat ≤ 255) ↔ IsLatin1 last := by
  have hversion := keyText_small "version" (by decide)
  have hsnapshot := keyText_small "snapshot" (by decide)
  have hlast := keyText_small "last" (by decide)
  have hone := decimal_small 1
  have hdigits := decimal_small snapshot
  refine Iff.trans ?_ ((quote_small (JsString.ofString last)).trans (ofString_small last))
  simp only [cursorText, writeObject, writeMembers, List.cons_append, List.append_assoc, List.mem_cons, List.mem_append,
    List.not_mem_nil, or_false]
  constructor
  · intro h u hu
    exact h u (by simp only [hu, true_or, or_true])
  · rintro h u (rfl | hu | rfl | hu | rfl | hu | rfl | hu | rfl | hu | rfl | hu | rfl)
    all_goals first
      | exact hversion _ hu
      | exact hone _ hu
      | exact hsnapshot _ hu
      | exact hdigits _ hu
      | exact hlast _ hu
      | exact h _ hu
      | decide

theorem parse_cursorText (snapshot : Nat) (last : String) : ∃ before tree after,
    parse (cursorText snapshot last) = some (before, tree, after) ∧
      tree.value = .object [(JsString.ofString "version", .number (decimal 1)),
        (JsString.ofString "snapshot", .number (decimal snapshot)),
        (JsString.ofString "last", .string (JsString.ofString last))] := by
  obtain ⟨before, tree, after, hparse, hvalue⟩ := parse_writeObject
    (.cons ⟨rfl, spells_decimal 1⟩ (.cons ⟨rfl, spells_decimal snapshot⟩
      (.cons ⟨rfl, spells_quote (JsString.ofString last)⟩ .nil)) :
      List.Forall₂ (fun (m : JsString × JsString) (f : JsString × Value) => m.1 = f.1 ∧ Spells m.2 f.2)
        [(JsString.ofString "version", decimal 1), (JsString.ofString "snapshot", decimal snapshot),
          (JsString.ofString "last", quote (JsString.ofString last))]
        [(JsString.ofString "version", .number (decimal 1)), (JsString.ofString "snapshot", .number (decimal snapshot)),
          (JsString.ofString "last", .string (JsString.ofString last))]) (List.cons_ne_nil _ _)
  exact ⟨before, tree, after, hparse, hvalue⟩

theorem ofString_eq_nil {text : String} : (JsString.ofString text).length = 0 ↔ text = "" := by
  constructor
  · intro h
    have hempty : JsString.ofString text = JsString.ofString "" := List.length_eq_zero_iff.mp h
    rw [← JsString.toText_ofString text, hempty, JsString.toText_ofString]
  · rintro rfl
    rfl

theorem encodeControlListCursor_eq_none_iff {snapshot : Nat} {last : String} :
    encodeControlListCursor snapshot last = none ↔ ¬ IsLatin1 last := by
  rw [← cursorText_small snapshot last]
  refine Base64.btoa_eq_none_iff.trans ?_
  push Not
  rfl

/-- A cursor that was made is read as what it was made of, unless the string is empty or the snapshot too large. -/
theorem readCursor_encode {snapshot : Nat} {last : String} {cursor : JsString}
    (h : encodeControlListCursor snapshot last = some cursor) :
    (CursorReadable snapshot last → readCursor (some cursor) = .ok (some ⟨snapshot, JsString.ofString last⟩)) ∧
      (¬ CursorReadable snapshot last → readCursor (some cursor) = .error (.invalidCursor "malformed cursor")) := by
  have hlatin : IsLatin1 last := by
    by_contra hnot
    rw [encodeControlListCursor_eq_none_iff.mpr hnot] at h
    cases h
  obtain ⟨before, tree, after, hparse, hvalue⟩ := parse_cursorText snapshot last
  have hdecode : decodeControlListCursor cursor = checkCursorFields
      [(JsString.ofString "version", .number (decimal 1)), (JsString.ofString "snapshot", .number (decimal snapshot)),
        (JsString.ofString "last", .string (JsString.ofString last))] := by
    rw [cursorText] at hparse
    rw [decodeControlListCursor, Base64.atob_btoa h]
    dsimp only
    rw [hparse]
    dsimp only
    rw [hvalue]
  have hone : safeInteger (decimal 1) = some 1 := safeInteger_decimal (by decide)
  have hfields : checkCursorFields
      [(JsString.ofString "version", .number (decimal 1)), (JsString.ofString "snapshot", .number (decimal snapshot)),
        (JsString.ofString "last", .string (JsString.ofString last))] =
      (safeInteger (decimal snapshot)).bind fun snapshot =>
        if (JsString.ofString last).length = 0 then none else some ⟨snapshot, JsString.ofString last⟩ := by
    have hsecond : (JsString.ofString "snapshot" == JsString.ofString "version") = false := by decide
    have hthird : (JsString.ofString "last" == JsString.ofString "version") = false := by decide
    have hfourth : (JsString.ofString "last" == JsString.ofString "snapshot") = false := by decide
    rw [checkCursorFields]
    simp only [List.lookup_cons, beq_self_eq_true, hsecond, hthird, hfourth, hone, ne_eq, not_true_eq_false, if_false]
    cases safeInteger (decimal snapshot) <;> rfl
  rw [hfields] at hdecode
  constructor
  · rintro ⟨hne, _, hsafe⟩
    rw [safeInteger_decimal hsafe, Option.bind_some] at hdecode
    rw [if_neg (mt ofString_eq_nil.mp hne)] at hdecode
    rw [readCursor, hdecode]
  · intro hnot
    have hnone : decodeControlListCursor cursor = none := by
      rw [hdecode]
      rcases Int.lt_or_le maxSafeInteger snapshot with hlarge | hsafe
      · rw [safeInteger_decimal_none hlarge, Option.bind_none]
      · rw [safeInteger_decimal hsafe, Option.bind_some]
        rw [if_pos]
        by_contra hlast
        exact hnot ⟨mt ofString_eq_nil.mpr hlast, hlatin, hsafe⟩
    rw [readCursor, hnone]

end UniDocs.Control
