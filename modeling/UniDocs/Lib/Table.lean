import Mathlib.Algebra.BigOperators.Group.List.Basic
import Mathlib.Data.List.AList
import Mathlib.Data.List.Perm.Subperm
import Mathlib.Data.List.Sort
import Mathlib.Logic.Function.Basic
import Mathlib.Tactic.Ring
import UniDocs.Lib.Result

/-!
# Keyed tables

A table is a finite map from primary keys to rows. The statements of a relational store are functions on it: an `INSERT`
that fails on a taken key, an upsert, an `UPDATE` with a check, a `DELETE` by key or by condition. `total` adds up an
integer over the rows, so a `COUNT` and a balance are both totals, and the lemmas say how each statement moves a total.
-/

/-- Rows of type `ρ` under primary keys of type `κ`. -/
abbrev Lib.Table (κ ρ : Type) : Type := AList fun _ : κ => ρ

namespace AList

open Lib

variable {κ ρ : Type} [DecidableEq κ]

/-- `INSERT`: fails when the key is taken. -/
def insertNew (k : κ) (r : ρ) (t : Table κ ρ) : Option (Table κ ρ) :=
  if k ∈ t then none else some (t.insert k r)

/-- `UPDATE … WHERE key`: no effect without the row, and a failure when the new row breaks a check. -/
def update (k : κ) (f : ρ → Option ρ) (t : Table κ ρ) : Option (Table κ ρ) :=
  match t.lookup k with
  | none => some t
  | some r => (f r).map fun r' => t.insert k r'

/-- `DELETE … WHERE` a condition: the rows that stay. -/
def keep (p : κ → ρ → Bool) (t : Table κ ρ) : Table κ ρ where
  entries := t.entries.filter fun e => p e.1 e.2
  nodupKeys := t.nodupKeys.sublist List.filter_sublist

/-- `UPDATE` of all rows. -/
def updateAll (f : κ → ρ → ρ) (t : Table κ ρ) : Table κ ρ where
  entries := t.entries.map fun e => ⟨e.1, f e.1 e.2⟩
  nodupKeys := by
    have hkeys : (t.entries.map fun e => (⟨e.1, f e.1 e.2⟩ : Sigma fun _ : κ => ρ)).keys = t.entries.keys := by
      simp [List.keys, Function.comp_def]
    rw [List.NodupKeys, hkeys]
    exact t.nodupKeys

/-- `EXISTS` a row under a condition. -/
def has (p : κ → ρ → Bool) (t : Table κ ρ) : Bool := t.entries.any fun e => p e.1 e.2

/-- `SELECT` of the rows under a condition. -/
def rows (p : κ → ρ → Bool) (t : Table κ ρ) : List (κ × ρ) :=
  (t.entries.filter fun e => p e.1 e.2).map fun e => (e.1, e.2)

/-- The sum of an integer over all rows. -/
def total (g : κ → ρ → Int) (t : Table κ ρ) : Int :=
  (t.entries.map fun e => g e.1 e.2).sum

/-- What one key contributes to a total. -/
def part (g : κ → ρ → Int) (k : κ) (t : Table κ ρ) : Int :=
  match t.lookup k with
  | some r => g k r
  | none => 0

/-- `COUNT` of the rows under a condition. -/
def count (p : κ → ρ → Bool) (t : Table κ ρ) : Int :=
  t.total fun k r => if p k r then 1 else 0

/-! ## Lookups -/

theorem lookup_insert_eq (k k' : κ) (r : ρ) (t : Table κ ρ) :
    (t.insert k r).lookup k' = if k' = k then some r else t.lookup k' := by
  by_cases h : k' = k
  · subst h; simp [AList.lookup_insert]
  · simp [h, AList.lookup_insert_ne h]

theorem lookup_insert_update (t : Table κ ρ) (k : κ) (r : ρ) :
    (t.insert k r).lookup = Function.update t.lookup k (some r) := by
  funext k'
  rw [lookup_insert_eq, Function.update_apply]

theorem lookup_erase_eq (k k' : κ) (t : Table κ ρ) :
    (t.erase k).lookup k' = if k' = k then none else t.lookup k' := by
  by_cases h : k' = k
  · subst h; simp [AList.lookup_erase]
  · simp [h, AList.lookup_erase_ne h]

variable {t : Table κ ρ} {k : κ}

theorem mem_iff_lookup : k ∈ t ↔ ∃ r, t.lookup k = some r := by
  rw [← AList.lookup_isSome, Option.isSome_iff_exists]

theorem mem_of_lookup {r : ρ} (h : t.lookup k = some r) : k ∈ t :=
  mem_iff_lookup.mpr ⟨r, h⟩

theorem mem_entries_iff {r : ρ} : (⟨k, r⟩ : Sigma fun _ : κ => ρ) ∈ t.entries ↔ t.lookup k = some r :=
  AList.mem_lookup_iff.symm

theorem mem_rows {p : κ → ρ → Bool} {r : ρ} :
    (k, r) ∈ t.rows p ↔ t.lookup k = some r ∧ p k r = true := by
  simp only [rows, List.mem_map, List.mem_filter, Prod.mk.injEq]
  constructor
  · rintro ⟨⟨k', r'⟩, ⟨hm, hp⟩, rfl, rfl⟩
    exact ⟨mem_entries_iff.mp hm, hp⟩
  · rintro ⟨hl, hp⟩
    exact ⟨⟨k, r⟩, ⟨mem_entries_iff.mpr hl, hp⟩, rfl, rfl⟩

omit [DecidableEq κ] in
/-- No key is in two rows. -/
theorem nodup_rows (p : κ → ρ → Bool) (t : Table κ ρ) : ((t.rows p).map Prod.fst).Nodup := by
  rw [rows, List.map_map]
  exact (t.keep p).nodupKeys

theorem lookup_keep (p : κ → ρ → Bool) (t : Table κ ρ) (k : κ) :
    (t.keep p).lookup k = (t.lookup k).filter (p k) := by
  ext r
  have h1 : (t.keep p).lookup k = some r ↔ t.lookup k = some r ∧ p k r = true := by
    rw [← mem_entries_iff, ← mem_entries_iff]
    simp [keep, List.mem_filter]
  simpa [Option.filter_eq_some_iff] using h1

theorem lookup_updateAll (f : κ → ρ → ρ) (t : Table κ ρ) (k : κ) :
    (t.updateAll f).lookup k = (t.lookup k).map (f k) := by
  ext r
  have h1 : (t.updateAll f).lookup k = some r ↔ ∃ r', t.lookup k = some r' ∧ f k r' = r := by
    rw [← mem_entries_iff]
    simp only [updateAll, List.mem_map, Sigma.mk.injEq]
    constructor
    · rintro ⟨⟨k', r'⟩, hm, rfl, hr⟩
      exact ⟨r', mem_entries_iff.mp hm, eq_of_heq hr⟩
    · rintro ⟨r', hl, rfl⟩
      exact ⟨⟨k, r'⟩, mem_entries_iff.mpr hl, rfl, HEq.rfl⟩
  simpa [Option.map_eq_some_iff] using h1

theorem has_iff {p : κ → ρ → Bool} : t.has p = true ↔ ∃ k r, t.lookup k = some r ∧ p k r = true := by
  simp only [has, List.any_eq_true]
  constructor
  · rintro ⟨⟨k, r⟩, hm, hp⟩
    exact ⟨k, r, mem_entries_iff.mp hm, hp⟩
  · rintro ⟨k, r, hl, hp⟩
    exact ⟨⟨k, r⟩, mem_entries_iff.mpr hl, hp⟩

theorem lookup_insertNew {r : ρ} {t t' : Table κ ρ} (h : t.insertNew k r = some t') :
    t.lookup k = none ∧ t' = t.insert k r := by
  unfold insertNew at h
  split at h
  · cases h
  · rename_i hk
    cases h
    exact ⟨AList.lookup_eq_none.mpr hk, rfl⟩

theorem lookup_update {f : ρ → Option ρ} {t t' : Table κ ρ} (h : t.update k f = some t') (k' : κ) :
    t'.lookup k' = if k' = k then (t.lookup k).bind f else t.lookup k' := by
  unfold update at h
  split at h
  · rename_i hn
    cases h
    by_cases hk : k' = k
    · subst hk; simp [hn]
    · simp [hk]
  · rename_i r hr
    obtain ⟨r', hf, rfl⟩ := Option.map_eq_some_iff.mp h
    rw [lookup_insert_eq]
    by_cases hk : k' = k
    · subst hk; simp [hr, hf]
    · simp [hk]

/-- An update whose check passes on the row there is one that succeeds. -/
theorem update_isSome {f : ρ → Option ρ} (h : ∀ r, t.lookup k = some r → ∃ r', f r = some r') :
    ∃ t', t.update k f = some t' := by
  unfold update
  split
  · exact ⟨t, rfl⟩
  · rename_i r hr
    obtain ⟨r', hf⟩ := h r hr
    exact ⟨t.insert k r', by simp [hf]⟩

/-! ## Totals -/

theorem total_insert_erase (g : κ → ρ → Int) (k : κ) (r : ρ) (t : Table κ ρ) :
    (t.insert k r).total g = g k r + (t.erase k).total g := by
  simp only [total, AList.entries_insert, List.map_cons, List.sum_cons]
  rfl

theorem total_eq_part (g : κ → ρ → Int) (k : κ) (t : Table κ ρ) :
    t.total g = t.part g k + (t.erase k).total g := by
  unfold part
  split
  · rename_i r h
    have hperm : t.entries.Perm (t.insert k r).entries := by
      refine (List.perm_ext_iff_of_nodup t.nodupKeys.nodup (t.insert k r).nodupKeys.nodup).mpr ?_
      rintro ⟨k', r'⟩
      rw [mem_entries_iff, mem_entries_iff, lookup_insert_eq]
      by_cases hk : k' = k
      · subst hk; simp [h]
      · simp [hk]
    rw [← total_insert_erase]
    exact (hperm.map _).sum_eq
  · rename_i h
    have : t.erase k = t := AList.ext (List.kerase_of_notMem_keys (AList.lookup_eq_none.mp h))
    rw [this, zero_add]

theorem total_insert (g : κ → ρ → Int) (k : κ) (r : ρ) (t : Table κ ρ) :
    (t.insert k r).total g = t.total g - t.part g k + g k r := by
  rw [total_insert_erase, total_eq_part g k t]
  ring

theorem total_erase (g : κ → ρ → Int) (k : κ) (t : Table κ ρ) : (t.erase k).total g = t.total g - t.part g k := by
  rw [total_eq_part g k t]
  ring

theorem part_of_lookup {g : κ → ρ → Int} {r : ρ} (h : t.lookup k = some r) :
    t.part g k = g k r := by
  simp [part, h]

theorem part_of_none {g : κ → ρ → Int} (h : t.lookup k = none) : t.part g k = 0 := by
  simp [part, h]

theorem total_congr {g g' : κ → ρ → Int} (h : ∀ k r, t.lookup k = some r → g k r = g' k r) :
    t.total g = t.total g' := by
  unfold total
  congr 1
  refine List.map_congr_left ?_
  rintro ⟨k, r⟩ hm
  exact h k r (mem_entries_iff.mp hm)

omit [DecidableEq κ] in
@[simp] theorem total_empty (g : κ → ρ → Int) : (∅ : Table κ ρ).total g = 0 := rfl

omit [DecidableEq κ] in
/-- Deleting by condition drops the parts of the rows that go. -/
theorem total_keep (g : κ → ρ → Int) (q : κ → ρ → Bool) (t : Table κ ρ) :
    (t.keep q).total g = t.total fun k r => if q k r then g k r else 0 := by
  have hlist : ∀ es : List (Sigma fun _ : κ => ρ), ((es.filter fun e => q e.1 e.2).map fun e => g e.1 e.2).sum =
      (es.map fun e => if q e.1 e.2 then g e.1 e.2 else 0).sum := by
    intro es
    induction es with
    | nil => rfl
    | cons e es ih => by_cases hq : q e.1 e.2 = true <;> simp [hq, ih]
  exact hlist t.entries

omit [DecidableEq κ] in
theorem total_sub (g g' : κ → ρ → Int) (t : Table κ ρ) :
    (t.total fun k r => g k r - g' k r) = t.total g - t.total g' := by
  have hlist : ∀ es : List (Sigma fun _ : κ => ρ), (es.map fun e => g e.1 e.2 - g' e.1 e.2).sum =
      (es.map fun e => g e.1 e.2).sum - (es.map fun e => g' e.1 e.2).sum := by
    intro es
    induction es with
    | nil => rfl
    | cons e es ih =>
      simp only [List.map_cons, List.sum_cons, ih]
      ring
  exact hlist t.entries

omit [DecidableEq κ] in
theorem count_eq_length (p : κ → ρ → Bool) (t : Table κ ρ) : t.count p = (t.rows p).length := by
  have hlist : ∀ es : List (Sigma fun _ : κ => ρ), (es.map fun e => if p e.1 e.2 then (1 : Int) else 0).sum =
      (es.filter fun e => p e.1 e.2).length := by
    intro es
    induction es with
    | nil => rfl
    | cons e es ih =>
      by_cases hp : p e.1 e.2 = true
      · simp [hp, ih, add_comm]
      · simp [hp, ih]
  simpa [count, total, rows] using hlist t.entries

omit [DecidableEq κ] in
theorem count_nonneg (p : κ → ρ → Bool) (t : Table κ ρ) : 0 ≤ t.count p := by
  rw [count_eq_length]
  exact Int.natCast_nonneg _

/-- No row is counted exactly when no row meets the condition. -/
theorem count_eq_zero {p : κ → ρ → Bool} :
    t.count p = 0 ↔ ∀ k r, t.lookup k = some r → p k r = false := by
  rw [count_eq_length, Int.natCast_eq_zero, List.length_eq_zero_iff]
  constructor
  · intro h k r hl
    by_contra hp
    have : (k, r) ∈ t.rows p := mem_rows.mpr ⟨hl, by simpa using hp⟩
    simp [h] at this
  · intro h
    refine List.eq_nil_iff_forall_not_mem.mpr ?_
    rintro ⟨k, r⟩ hm
    obtain ⟨hl, hp⟩ := mem_rows.mp hm
    simp [h k r hl] at hp

/-- Deleting by condition splits a count into what stays and what goes. -/
theorem count_keep (p q : κ → ρ → Bool) (t : Table κ ρ) :
    (t.keep q).count p = t.count p - t.count fun k r => p k r && !q k r := by
  simp only [count, total_keep, ← total_sub]
  refine total_congr fun k r _ => ?_
  by_cases hp : p k r = true <;> by_cases hq : q k r = true <;> simp [hp, hq]

end AList

/-!
## Statements of a batch

The statements that batches are made of: a row that a guard table accepts or not, an insertion that a key may forbid, and the
rows that come first in an order. A statement that fails ends the batch, with an error that the database gives.
-/

namespace Lib.Sql

variable {ε κ ρ : Type} [DecidableEq κ]

/-- `INSERT INTO` a table of guards, which accepts one value only. -/
def guardRow (violation : ε) (condition : Bool) : Except ε Unit := if condition then .ok () else .error violation

/-- `INSERT INTO` a table. -/
def insertInto (violation : ε) (k : κ) (row : ρ) (table : Table κ ρ) : Except ε (Table κ ρ) :=
  match table.insertNew k row with
  | some table => .ok table
  | none => .error violation

/-- The keys of `SELECT … WHERE … ORDER BY … LIMIT n`. -/
def firstKeys (p : κ → ρ → Bool) (before : κ × ρ → κ × ρ → Bool) (n : Nat) (table : Table κ ρ) : List κ :=
  (((table.rows p).insertionSort fun a b => before a b = true).take n).map (·.1)

/-- `DELETE … WHERE p AND key NOT IN` some keys. -/
def keepKeys (p : κ → ρ → Bool) (keys : List κ) (table : Table κ ρ) : Table κ ρ :=
  table.keep fun k row => !p k row || decide (k ∈ keys)

theorem guardRow_ok {violation : ε} {condition : Bool} {u : Unit} (h : guardRow violation condition = .ok u) :
    condition = true := by
  cases condition with
  | true => rfl
  | false => cases h

theorem insertInto_ok {violation : ε} {k : κ} {row : ρ} {t t' : Table κ ρ} (h : insertInto violation k row t = .ok t') :
    t.lookup k = none ∧ t' = t.insert k row := by
  unfold insertInto at h
  split at h
  · rename_i t₁ ht
    cases h
    exact AList.lookup_insertNew ht
  · cases h

omit [DecidableEq κ] in
theorem length_firstKeys (p : κ → ρ → Bool) (before : κ × ρ → κ × ρ → Bool) (n : Nat) (t : Table κ ρ) :
    (firstKeys p before n t).length ≤ n := by
  rw [firstKeys, List.length_map]
  exact List.length_take_le ..

/-- Rows that may only have certain keys are no more than these. -/
theorem count_keepKeys (p : κ → ρ → Bool) (keys : List κ) (t : Table κ ρ) : (keepKeys p keys t).count p ≤ keys.length := by
  rw [AList.count_eq_length]
  have hnodup : (((keepKeys p keys t).rows p).map (·.1)).Nodup := by
    have hkeys : ((keepKeys p keys t).rows p).map (·.1)
        = ((keepKeys p keys t).entries.filter fun e => p e.1 e.2).keys := by
      simp [AList.rows, List.keys, Function.comp_def]
    rw [hkeys]
    exact (keepKeys p keys t).nodupKeys.sublist List.filter_sublist
  have hsubset : ((keepKeys p keys t).rows p).map (·.1) ⊆ keys := by
    intro k hk
    obtain ⟨⟨k', row⟩, hrow, rfl⟩ := List.mem_map.mp hk
    obtain ⟨hlookup, hp⟩ := AList.mem_rows.mp hrow
    rw [keepKeys, AList.lookup_keep, Option.filter_eq_some_iff] at hlookup
    simpa [hp] using hlookup.2
  have hlength := (List.subperm_of_subset hnodup hsubset).length_le
  rw [List.length_map] at hlength
  exact_mod_cast hlength

/-! ## Counts -/

/-- Deleting rows makes no count larger. -/
theorem count_keep_le (p q : κ → ρ → Bool) (t : Table κ ρ) : (t.keep q).count p ≤ t.count p := by
  have hgone := AList.count_nonneg (fun k r => p k r && !q k r) t
  have hsplit := AList.count_keep p q t
  omega

theorem count_erase_le (p : κ → ρ → Bool) (k : κ) (t : Table κ ρ) : (t.erase k).count p ≤ t.count p := by
  unfold AList.count
  rw [AList.total_erase]
  have hpart : 0 ≤ t.part (fun k r => if p k r then (1 : Int) else 0) k := by
    unfold AList.part
    split
    · dsimp only
      split <;> decide
    · exact le_refl _
  omega

theorem count_insert_new {p : κ → ρ → Bool} {k : κ} {r : ρ} {t : Table κ ρ} (h : t.lookup k = none) :
    (t.insert k r).count p = t.count p + if p k r then 1 else 0 := by
  unfold AList.count
  rw [AList.total_insert, AList.part_of_none h]
  omega

end Lib.Sql

/-!
## Tickets

A ticket is put into a table under its key, and taken at most once: a row has a mark that it was taken. Rows may be deleted,
and keys are not used again. `Tickets` relates the table to who has put and who has taken, and holds through every statement
of such a table.
-/

namespace Lib

variable {κ ρ : Type} [DecidableEq κ]

/-- What a table of tickets is like, given which of them some have put and some have taken. -/
structure Tickets (key : ρ → κ) (put took : Nat → ρ → Prop) (table : Table κ (ρ × Bool)) : Prop where
  row : ∀ k r used, table.lookup k = some (r, used) → key r = k ∧ ∃ i, put i r
  free : ∀ k r, table.lookup k = some (r, false) → ∀ i r', took i r' → key r' ≠ k
  known : ∀ i r, took i r → ∃ j, put j r
  once : ∀ i j r r', took i r → took j r' → key r = key r' → i = j

namespace Tickets

variable {key : ρ → κ} {put took put' took' : Nat → ρ → Prop} {table : Table κ (ρ × Bool)} {i : Nat} {k : κ} {r : ρ}

theorem empty (hput : ∀ i r, ¬ took i r) : Tickets key put took (∅ : Table κ (ρ × Bool)) where
  row k r used h := by cases h
  free k r h := by cases h
  known i r h := absurd h (hput i r)
  once i j r r' h := absurd h (hput i r)

theorem congr (h : Tickets key put took table) (hput : ∀ i r, put i r ↔ put' i r) (htook : ∀ i r, took i r ↔ took' i r) :
    Tickets key put' took' table := by
  have h1 : put = put' := funext fun i => funext fun r => propext (hput i r)
  have h2 : took = took' := funext fun i => funext fun r => propext (htook i r)
  exact h1 ▸ h2 ▸ h

theorem insert (h : Tickets key put took table) (hfresh : ∀ j r', put j r' → key r' ≠ key r) :
    Tickets key (fun j r' => put j r' ∨ (j = i ∧ r' = r)) took (table.insert (key r) (r, false)) where
  row k r' used hrow := by
    rw [AList.lookup_insert_eq] at hrow
    split at hrow
    · cases hrow
      rename_i hk
      exact ⟨hk.symm, i, .inr ⟨rfl, rfl⟩⟩
    · obtain ⟨hk, j, hj⟩ := h.row k r' used hrow
      exact ⟨hk, j, .inl hj⟩
  free k r' hrow j r'' htook := by
    rw [AList.lookup_insert_eq] at hrow
    split at hrow
    · rename_i hk
      obtain ⟨l, hl⟩ := h.known j r'' htook
      rw [hk]
      exact hfresh l r'' hl
    · exact h.free k r' hrow j r'' htook
  known j r' htook := by
    obtain ⟨l, hl⟩ := h.known j r' htook
    exact ⟨l, .inl hl⟩
  once := h.once

/-- A ticket that is free is taken. -/
theorem take (h : Tickets key put took table) (hrow : table.lookup k = some (r, false)) :
    Tickets key put (fun j r' => took j r' ∨ (j = i ∧ r' = r)) (table.insert k (r, true)) := by
  obtain ⟨hkey, l, hl⟩ := h.row k r false hrow
  have hfree := h.free k r hrow
  constructor
  · intro k' r' used hrow'
    rw [AList.lookup_insert_eq] at hrow'
    split at hrow'
    · cases hrow'
      rename_i hk
      exact ⟨by rw [hk]; exact hkey, l, hl⟩
    · exact h.row k' r' used hrow'
  · intro k' r' hrow' j r'' htook
    rw [AList.lookup_insert_eq] at hrow'
    split at hrow'
    · cases hrow'
    · rename_i hk
      rcases htook with htook | ⟨rfl, rfl⟩
      · exact h.free k' r' hrow' j r'' htook
      · rw [hkey]
        exact fun heq => hk heq.symm
  · rintro j r' (htook | ⟨rfl, rfl⟩)
    · exact h.known j r' htook
    · exact ⟨l, hl⟩
  · rintro j j' r' r'' (htook | ⟨rfl, rfl⟩) (htook' | ⟨rfl, rfl⟩) heq
    · exact h.once j j' r' r'' htook htook' heq
    · exact absurd (heq.trans hkey) (hfree j r' htook)
    · exact absurd (heq.symm.trans hkey) (hfree j' r'' htook')
    · rfl

/-- Rows are deleted. -/
theorem keep (h : Tickets key put took table) (p : κ → ρ × Bool → Bool) : Tickets key put took (table.keep p) := by
  have hsub : ∀ k x, (table.keep p).lookup k = some x → table.lookup k = some x := by
    intro k x hx
    rw [AList.lookup_keep] at hx
    exact (Option.filter_eq_some_iff.mp hx).1
  constructor
  · exact fun k r used hrow => h.row k r used (hsub k _ hrow)
  · exact fun k r hrow => h.free k r (hsub k _ hrow)
  · exact h.known
  · exact h.once

end Tickets

end Lib
