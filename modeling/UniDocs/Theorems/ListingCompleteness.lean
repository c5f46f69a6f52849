import Mathlib.Data.Bool.AllAny
import UniDocs.Lemmas.ListCursors

/-!
# Completeness of the control plane listings

On a database that does not change, the pages of a listing show every row once and in order exactly when the cursor at the end
of each page can be made and read, and no row with the key of the last one is left for the next page. Stacks and audit events
have their ids as keys; members are shown by their subjects, which two members of different issuers may have in common.
-/

namespace UniDocs.Control

open Lib Lib.Keyset

variable {options : ListOptions} {orders : RowOrders} {d : Db} {identity : IdentityKey} {stackId : String}
  {requested : Option Int} {limit : Nat}

/-! ## The three listings -/

/-- The cursor that a page ends with. -/
def cursorToken {ρ : Type} (snapshot : Nat) (last : ρ → String) (row : ρ) : Except ListError JsString :=
  match encodeControlListCursor snapshot (last row) with
  | some cursor => .ok cursor
  | none => .error (.serviceUnavailable "control plane operation failed")

theorem cursorToken_ok {ρ : Type} {snapshot : Nat} {last : ρ → String} {row : ρ} {cursor : JsString}
    (h : cursorToken snapshot last row = .ok cursor) : encodeControlListCursor snapshot (last row) = some cursor := by
  rw [cursorToken] at h
  split at h
  · rename_i cursor' hencode
    cases h
    exact hencode
  · cases h

theorem cursorToken_readable {ρ : Type} {snapshot : Nat} (last : ρ → String) {row : ρ}
    (h : CursorReadable snapshot (last row)) : ∃ cursor, cursorToken snapshot last row = .ok cursor ∧
      readCursor (some cursor) = .ok (some ⟨snapshot, JsString.ofString (last row)⟩) := by
  cases hencode : encodeControlListCursor snapshot (last row) with
  | none => exact absurd h.2.1 (encodeControlListCursor_eq_none_iff.mp hencode)
  | some cursor =>
    refine ⟨cursor, ?_, (readCursor_encode hencode).1 h⟩
    rw [cursorToken, hencode]

theorem cursorToken_unreadable {ρ : Type} {snapshot : Nat} (last : ρ → String) {row : ρ} {cursor : JsString}
    (hnot : ¬ CursorReadable snapshot (last row)) (h : cursorToken snapshot last row = .ok cursor) :
    readCursor (some cursor) = .error (.invalidCursor "malformed cursor") :=
  (readCursor_encode (cursorToken_ok h)).2 hnot

theorem listing_members (hmember : d.hasMembership identity stackId = true) (hlimit : listLimit options requested = .ok limit) :
    Listing orders.members limit "" (cursorToken d.snapshot fun member => member.identity.subject) (CursorReadable d.snapshot)
      (d.stackMembers stackId) (listMembers options orders (fun _ => d) identity stackId requested) where
  first := by
    simp only [listMembers, hmember, hlimit, readCursor, checkSnapshot, Bool.not_true, Bool.false_eq_true, if_false,
      ne_eq, not_true_eq_false]
    rfl
  next r _ hreadable := by
    obtain ⟨cursor, htoken, hread⟩ := cursorToken_readable (fun member : Member => member.identity.subject) hreadable
    refine ⟨cursor, htoken, ?_⟩
    simp only [listMembers, hmember, hlimit, hread, checkSnapshot, Bool.not_true, Bool.false_eq_true, if_false,
      ne_eq, not_true_eq_false]
    simp only [bind, Except.bind, Option.map_some, Option.getD_some, JsString.toText_ofString]
    rfl
  unreadable r _ hnot cursor htoken := by
    have hread := cursorToken_unreadable (fun member : Member => member.identity.subject) hnot htoken
    refine ⟨.invalidCursor "malformed cursor", ?_⟩
    simp only [listMembers, hmember, hlimit, hread, Bool.not_true, Bool.false_eq_true, if_false]
    rfl

theorem listing_stacks (hlimit : listLimit options requested = .ok limit) :
    Listing orders.stackRows limit "" (cursorToken d.snapshot Stack.stackId) (CursorReadable d.snapshot)
      (d.identityStacks identity) (listStacks options orders (fun _ => d) identity requested) where
  first := by
    simp only [listStacks, hlimit, readCursor, checkSnapshot, ne_eq, not_true_eq_false, if_false]
    rfl
  next r _ hreadable := by
    obtain ⟨cursor, htoken, hread⟩ := cursorToken_readable Stack.stackId hreadable
    refine ⟨cursor, htoken, ?_⟩
    simp only [listStacks, hlimit, hread, checkSnapshot, ne_eq, not_true_eq_false, if_false]
    simp only [bind, Except.bind, Option.map_some, Option.getD_some, JsString.toText_ofString]
    rfl
  unreadable r _ hnot cursor htoken := by
    have hread := cursorToken_unreadable Stack.stackId hnot htoken
    refine ⟨.invalidCursor "malformed cursor", ?_⟩
    simp only [listStacks, hlimit, hread]
    rfl

theorem getAuditEventCreatedAt_row {r : AuditRecord} (hr : r ∈ d.stackAudits stackId) :
    d.getAuditEventCreatedAt stackId r.eventId = some r.createdAt := by
  obtain ⟨⟨eventId, record⟩, hrow, rfl⟩ := List.mem_map.mp hr
  obtain ⟨hlookup, hstack⟩ := AList.mem_rows.mp hrow
  rw [Db.getAuditEventCreatedAt, hlookup, Option.filter_some, if_pos hstack]
  rfl

theorem listing_audits (hmember : d.hasMembership identity stackId = true) (hlimit : listLimit options requested = .ok limit) :
    Listing orders.audits limit (toLex (0, "")) (cursorToken d.snapshot AuditRecord.eventId)
      (fun key => CursorReadable d.snapshot (ofLex key).2) (d.stackAudits stackId)
      (listControlAuditEvents options orders (fun _ => d) identity stackId none requested) where
  first := by
    simp only [listControlAuditEvents, hmember, hlimit, readCursor, checkSnapshot, Bool.not_true, Bool.false_eq_true, if_false,
      ne_eq, not_true_eq_false]
    rfl
  next r hr hreadable := by
    obtain ⟨cursor, htoken, hread⟩ := cursorToken_readable AuditRecord.eventId hreadable
    refine ⟨cursor, htoken, ?_⟩
    have hstart : auditStart d stackId none (some ⟨d.snapshot, JsString.ofString r.eventId⟩) = .ok (r.createdAt, r.eventId) := by
      have hlen : r.eventId.length ≠ 0 := fun hzero => hreadable.1 (String.length_eq_zero_iff.mp hzero)
      rw [auditStart]
      simp only [Option.map_some, Option.getD_some, JsString.toText_ofString, if_neg hlen, getAuditEventCreatedAt_row hr]
    simp only [listControlAuditEvents, hmember, hlimit, hread, checkSnapshot, Bool.not_true, Bool.false_eq_true, if_false,
      ne_eq, not_true_eq_false]
    simp only [bind, Except.bind, Option.isSome_none, Bool.false_eq_true, false_and, if_false, hstart]
    rfl
  unreadable r _ hnot cursor htoken := by
    have hread := cursorToken_unreadable AuditRecord.eventId hnot htoken
    refine ⟨.invalidCursor "malformed cursor", ?_⟩
    simp only [listControlAuditEvents, hmember, hlimit, hread, Bool.not_true, Bool.false_eq_true, if_false]
    rfl

/-! ## The theorem -/

/-- The pages of some rows can be followed: no row is at the bound where the first page starts, and each page that is not the
last one ends with a key that is smaller than the next one and that a cursor can be made of and read again. -/
def Pageable {ρ κ : Type} [LinearOrder κ] (key : ρ → κ) (start : κ) (readable : κ → Prop) (limit : Nat) (rows : List ρ) : Prop :=
  (∀ r ∈ rows, start < key r) ∧ Boundaries limit readable (sortedKeys key rows)

/-- An accepted limit is positive. -/
theorem listLimit_pos (h : listLimit options requested = .ok limit) : 1 ≤ limit := by
  rw [listLimit.eq_def] at h
  split at h
  · cases h
    exact options.positive
  · split at h
    · cases h
    · rename_i parsed hparse
      split at h
      · cases h
      · cases h
        rw [parseControlListLimit] at hparse
        split at hparse
        · cases hparse
        · rename_i hrange
          cases hparse
          omega

/-- Each of the three listings is complete exactly when its rows are pageable. -/
theorem listings_complete_iff (hmember : d.hasMembership identity stackId = true)
    (hlimit : listLimit options requested = .ok limit) :
    (Complete memberKey (listMembers options orders (fun _ => d) identity stackId requested) (d.stackMembers stackId) ↔
      Pageable memberKey "" (CursorReadable d.snapshot) limit (d.stackMembers stackId)) ∧
    (Complete stackKey (listStacks options orders (fun _ => d) identity requested) (d.identityStacks identity) ↔
      Pageable stackKey "" (CursorReadable d.snapshot) limit (d.identityStacks identity)) ∧
    (Complete auditKey (listControlAuditEvents options orders (fun _ => d) identity stackId none requested)
        (d.stackAudits stackId) ↔
      Pageable auditKey (toLex (0, "")) (fun key => CursorReadable d.snapshot (ofLex key).2) limit (d.stackAudits stackId)) := by
  have hpos := listLimit_pos hlimit
  refine ⟨?_, ?_, ?_⟩
  · exact complete_iff hpos (listing_members hmember hlimit)
  · exact complete_iff hpos (listing_stacks hlimit)
  · exact complete_iff hpos (listing_audits hmember hlimit)

/-! ## Two members with one subject -/

/-- Rows in the order of their keys, equal keys as they stand. -/
def stableOrder {ρ κ : Type} [LinearOrder κ] (key : ρ → κ) : OrderBy key where
  sort rows := rows.insertionSort fun a b => key a ≤ key b
  perm rows := List.perm_insertionSort _ _
  sorted rows := by
    have htrans : IsTrans ρ fun a b => key a ≤ key b := ⟨fun _ _ _ => le_trans⟩
    have htotal : Std.Total fun (a b : ρ) => key a ≤ key b := ⟨fun a b => le_total (key a) (key b)⟩
    exact List.pairwise_insertionSort _ _

/-- The orders of a database that keeps equal keys as they stand. -/
def stableOrders : RowOrders := ⟨stableOrder memberKey, stableOrder stackKey, stableOrder auditKey⟩

/-- The default limits. -/
def defaultListOptions : ListOptions := ⟨50, 200, by decide⟩

/-- An operator of an issuer. -/
def operatorOf (issuer : String) : IdentityKey := ⟨issuer, "alice"⟩

/-- A stack with two members of one issuer. -/
def twoSubjects : Db :=
  { Db.empty with members := AList.insert ("s", ⟨"i", "bob"⟩) 0 (AList.insert ("s", operatorOf "i") 0 ∅) }

/-- A stack with two members whose issuers have given them one subject. -/
def twoMembers : Db :=
  { Db.empty with members := AList.insert ("s", operatorOf "j") 0 (AList.insert ("s", operatorOf "i") 0 ∅) }

theorem twoSubjects_rows :
    twoSubjects.stackMembers "s" = [⟨"s", ⟨"i", "bob"⟩, none, none⟩, ⟨"s", operatorOf "i", none, none⟩] := by
  rfl

theorem twoMembers_rows :
    twoMembers.stackMembers "s" = [⟨"s", operatorOf "j", none, none⟩, ⟨"s", operatorOf "i", none, none⟩] := by
  rfl

/-- With pages of one member, two members with their own subjects are shown, the second one behind the cursor of the first. -/
theorem listings_complete_twoSubjects :
    Complete memberKey (listMembers defaultListOptions stableOrders (fun _ => twoSubjects) (operatorOf "i") "s" (some 1))
      (twoSubjects.stackMembers "s") := by
  have hlimit : listLimit defaultListOptions (some 1) = .ok 1 := rfl
  have hmember : twoSubjects.hasMembership (operatorOf "i") "s" = true := by decide
  have hkeys : sortedKeys memberKey (twoSubjects.stackMembers "s") = ["alice", "bob"] := by
    rw [twoSubjects_rows]
    exact eq_of_sorted (List.pairwise_insertionSort _ _) (by decide) ((List.perm_insertionSort _ _).trans (List.Perm.swap _ _ _))
  obtain ⟨hiff, _, _⟩ := listings_complete_iff hmember hlimit
  refine hiff.mpr ⟨?_, ?_⟩
  · rw [twoSubjects_rows]
    decide
  · rw [hkeys]
    refine (boundaries_drop (Nat.le_refl 1)).mpr ⟨?_, boundaries_short (Nat.le_refl 1)⟩
    rintro a b ha hb
    cases ha
    cases hb
    exact ⟨by decide, by decide, List.all_iff_forall_prop.mp (by decide), by decide⟩

/-- With pages of one member, the second of two members with one subject is never shown. -/
theorem listings_complete_false :
    twoMembers.hasMembership (operatorOf "i") "s" = true ∧ listLimit defaultListOptions (some 1) = .ok 1 ∧
      (∀ member ∈ twoMembers.stackMembers "s", member.identity.subject ≠ "") ∧
      ¬ Complete memberKey (listMembers defaultListOptions stableOrders (fun _ => twoMembers) (operatorOf "i") "s" (some 1))
        (twoMembers.stackMembers "s") := by
  refine ⟨by decide, rfl, by rw [twoMembers_rows]; decide, ?_⟩
  have hlisting : Listing stableOrders.members 1 "" (cursorToken twoMembers.snapshot fun member => member.identity.subject)
      (CursorReadable twoMembers.snapshot) (twoMembers.stackMembers "s")
      (listMembers defaultListOptions stableOrders (fun _ => twoMembers) (operatorOf "i") "s" (some 1)) :=
    listing_members (by decide) rfl
  intro hcomplete
  obtain ⟨_, hboundaries⟩ := (complete_iff (Nat.le_refl 1) hlisting).mp hcomplete
  have hkeys : sortedKeys memberKey (twoMembers.stackMembers "s") = ["alice", "alice"] := by
    rw [twoMembers_rows]
    exact eq_of_sorted (List.pairwise_insertionSort _ _) (by simp) (List.perm_insertionSort _ _)
  rw [hkeys] at hboundaries
  exact absurd (hboundaries 1 (Nat.le_refl 1) "alice" "alice" rfl rfl).1 (lt_irrefl _)

end UniDocs.Control
