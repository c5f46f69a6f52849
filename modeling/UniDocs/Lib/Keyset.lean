import Mathlib.Data.List.Perm.Basic
import Mathlib.Data.List.Sort
import Mathlib.Order.Lattice

/-!
# Keyset pages

A list of rows is shown page by page: each query selects the rows behind a key, in the order of the keys, and the cursor of the
next page is made of the last row of this one. The pages are complete exactly when every row is behind the key at which the
first one starts, the last row of a page has a smaller key than the next row, and its cursor can be read again.
-/

namespace Lib.Keyset

variable {ρ κ τ ε : Type} [LinearOrder κ] {key : ρ → κ}

/-! ## Queries and pages -/

/-- `ORDER BY` a key. Rows with one key stand in an order that the store picks. -/
structure OrderBy (key : ρ → κ) where
  sort : List ρ → List ρ
  perm : ∀ rows, (sort rows).Perm rows
  sorted : ∀ rows, (sort rows).Pairwise fun a b => key a ≤ key b

/-- The rows whose key is greater than a bound. -/
def behind (key : ρ → κ) (after : κ) (rows : List ρ) : List ρ := rows.filter fun r => after < key r

/-- `WHERE key > after ORDER BY key LIMIT limit`. -/
def OrderBy.select (order : OrderBy key) (after : κ) (limit : Nat) (rows : List ρ) : List ρ :=
  (order.sort (behind key after rows)).take limit

/-- A page of rows that were selected with one more than the limit: when there is one more, the cursor of the next page is
made of the last row of this one. -/
def page (limit : Nat) (token : ρ → Except ε τ) (rows : List ρ) : Except ε (List ρ × Option τ) :=
  if limit < rows.length then
    match (rows.take limit).getLast? with
    | some last => (token last).map fun cursor => (rows.take limit, some cursor)
    | none => .ok (rows.take limit, none)
  else .ok (rows.take limit, none)

/-- The cursors are followed to the last page: the rows of the pages, one page behind the other. -/
inductive Pages (fetch : Option τ → Except ε (List ρ × Option τ)) : Except ε (List ρ × Option τ) → List ρ → Prop
  | last (items : List ρ) : Pages fetch (.ok (items, none)) items
  | next (items rest : List ρ) (cursor : τ) (h : Pages fetch (fetch (some cursor)) rest) :
    Pages fetch (.ok (items, some cursor)) (items ++ rest)

/-- Following the cursors from the first page comes to an end, and shows every row once, in order. -/
def Complete (key : ρ → κ) (fetch : Option τ → Except ε (List ρ × Option τ)) (rows : List ρ) : Prop :=
  ∃ items, Pages fetch (fetch none) items ∧ items.Perm rows ∧ items.Pairwise fun a b => key a ≤ key b

/-- The keys of some rows, in order. -/
def sortedKeys (key : ρ → κ) (rows : List ρ) : List κ := (rows.map key).insertionSort (· ≤ ·)

/-- Where a page ends before the last key, its last key is smaller than the next one, and its cursor can be read. -/
def Boundaries (limit : Nat) (readable : κ → Prop) (keys : List κ) : Prop :=
  ∀ k, 1 ≤ k → ∀ a b, keys[k * limit - 1]? = some a → keys[k * limit]? = some b → a < b ∧ readable a

/-- A function shows pages of rows: the first one starts at a bound, a readable cursor continues behind the row it was made
of, and no other one is read. -/
structure Listing (order : OrderBy key) (limit : Nat) (start : κ) (token : ρ → Except ε τ) (readable : κ → Prop)
    (rows : List ρ) (fetch : Option τ → Except ε (List ρ × Option τ)) : Prop where
  first : fetch none = page limit token (order.select start (limit + 1) rows)
  next : ∀ r ∈ rows, readable (key r) →
    ∃ cursor, token r = .ok cursor ∧ fetch (some cursor) = page limit token (order.select (key r) (limit + 1) rows)
  unreadable : ∀ r ∈ rows, ¬ readable (key r) → ∀ cursor, token r = .ok cursor → ∃ e, fetch (some cursor) = .error e

/-! ## Keys in order -/

/-- Keys that stand in order are determined by what they are. -/
theorem eq_of_sorted {keys keys' : List κ} (h : keys.Pairwise (· ≤ ·)) (h' : keys'.Pairwise (· ≤ ·)) (hp : keys.Perm keys') :
    keys = keys' := hp.eq_of_pairwise (fun _ _ _ _ => le_antisymm) h h'

theorem sort_keys (order : OrderBy key) (rows : List ρ) : (order.sort rows).map key = sortedKeys key rows := by
  refine eq_of_sorted ?_ ?_ ?_
  · exact List.pairwise_map.mpr (order.sorted rows)
  · exact List.pairwise_insertionSort _ _
  · exact ((order.perm rows).map key).trans (List.perm_insertionSort _ _).symm

theorem sortedKeys_perm {rows rows' : List ρ} (h : rows.Perm rows') : sortedKeys key rows = sortedKeys key rows' := by
  refine eq_of_sorted (List.pairwise_insertionSort _ _) (List.pairwise_insertionSort _ _) ?_
  exact (List.perm_insertionSort _ _).trans ((h.map key).trans (List.perm_insertionSort _ _).symm)

/-- The boundaries are the first one and those of what follows it. -/
theorem boundaries_drop {limit : Nat} (hlimit : 1 ≤ limit) {readable : κ → Prop} {keys : List κ} :
    Boundaries limit readable keys ↔
      (∀ a b, keys[limit - 1]? = some a → keys[limit]? = some b → a < b ∧ readable a) ∧
        Boundaries limit readable (keys.drop limit) := by
  have hshift : ∀ k, 1 ≤ k → (keys.drop limit)[k * limit - 1]? = keys[(k + 1) * limit - 1]? ∧
      (keys.drop limit)[k * limit]? = keys[(k + 1) * limit]? := by
    intro k hk
    have hpos : 1 ≤ k * limit := Nat.mul_le_mul hk hlimit
    have hmul : (k + 1) * limit = k * limit + limit := Nat.succ_mul k limit
    rw [List.getElem?_drop, List.getElem?_drop, hmul]
    constructor
    · congr 1
      omega
    · congr 1
      omega
  constructor
  · intro h
    refine ⟨fun a b ha hb => h 1 (Nat.le_refl 1) a b ?_ ?_, fun k hk a b ha hb => ?_⟩
    · rw [Nat.one_mul]
      exact ha
    · rw [Nat.one_mul]
      exact hb
    · obtain ⟨hlast, hnext⟩ := hshift k hk
      rw [hlast] at ha
      rw [hnext] at hb
      exact h (k + 1) (by omega) a b ha hb
  · rintro ⟨hfirst, hrest⟩ k hk a b ha hb
    obtain ⟨j, rfl⟩ := Nat.exists_eq_add_of_le' hk
    rcases Nat.eq_zero_or_pos j with rfl | hj
    · rw [Nat.zero_add, Nat.one_mul] at ha hb
      exact hfirst a b ha hb
    · obtain ⟨hlast, hnext⟩ := hshift j hj
      exact hrest j hj a b (hlast.trans ha) (hnext.trans hb)

/-- A list that is no longer than a page has no boundary. -/
theorem boundaries_short {limit : Nat} {readable : κ → Prop} {keys : List κ} (h : keys.length ≤ limit) :
    Boundaries limit readable keys := by
  intro k hk a b _ hb
  have hmul : limit ≤ k * limit := Nat.le_mul_of_pos_left limit hk
  rw [List.getElem?_eq_none (by omega)] at hb
  cases hb

/-! ## One page -/

section Steps

variable {order : OrderBy key} {limit : Nat} {start after : κ} {token : ρ → Except ε τ} {readable : κ → Prop}
  {rows items : List ρ} {fetch : Option τ → Except ε (List ρ × Option τ)}

theorem pages_error {e : ε} (h : Pages fetch (.error e) items) : False := by
  cases h

theorem page_short (h : (order.sort (behind key after rows)).length ≤ limit) :
    page limit token (order.select after (limit + 1) rows) = .ok (order.sort (behind key after rows), none) := by
  rw [OrderBy.select, List.take_of_length_le (by omega), page, if_neg (by omega), List.take_of_length_le h]

theorem page_long (hlimit : 1 ≤ limit) {last next : ρ} (hlast : (order.sort (behind key after rows))[limit - 1]? = some last)
    (hnext : (order.sort (behind key after rows))[limit]? = some next) :
    page limit token (order.select after (limit + 1) rows) =
      (token last).map fun cursor => ((order.sort (behind key after rows)).take limit, some cursor) := by
  obtain ⟨hlong, _⟩ := List.getElem?_eq_some_iff.mp hnext
  have hgetLast : ((order.sort (behind key after rows)).take limit).getLast? = some last := by
    rw [List.getLast?_take, if_neg (by omega), hlast]
    rfl
  rw [OrderBy.select, page, if_pos (by rw [List.length_take]; omega), List.take_take, Nat.min_eq_left (by omega), hgetLast]

theorem behind_last {last next : ρ} (hlast : (order.sort (behind key after rows))[limit - 1]? = some last)
    (hnext : (order.sort (behind key after rows))[limit]? = some next) (hlimit : 1 ≤ limit) (hlt : key last < key next) :
    ((order.sort (behind key after rows)).drop limit).Perm (behind key (key last) rows) ∧
      ∀ r ∈ (order.sort (behind key after rows)).take limit, key r ≤ key last := by
  have hperm := order.perm (behind key after rows)
  have hsorted := order.sorted (behind key after rows)
  generalize order.sort (behind key after rows) = found at hlast hnext hperm hsorted ⊢
  obtain ⟨hlong, rfl⟩ := List.getElem?_eq_some_iff.mp hnext
  obtain ⟨_, rfl⟩ := List.getElem?_eq_some_iff.mp hlast
  rw [List.pairwise_iff_getElem] at hsorted
  have htake : ∀ r ∈ found.take limit, key r ≤ key found[limit - 1] := by
    intro r hr
    obtain ⟨i, hi, rfl⟩ := List.getElem_of_mem hr
    rw [List.length_take] at hi
    rw [List.getElem_take]
    rcases Nat.lt_or_ge i (limit - 1) with hlt | hge
    · exact hsorted i (limit - 1) (by omega) (by omega) hlt
    · have heq : i = limit - 1 := by omega
      subst heq
      exact le_refl _
  have hdrop : ∀ r ∈ found.drop limit, key found[limit - 1] < key r := by
    intro r hr
    obtain ⟨i, hi, rfl⟩ := List.getElem_of_mem hr
    rw [List.length_drop] at hi
    rw [List.getElem_drop]
    rcases Nat.eq_zero_or_pos i with rfl | hpos
    · exact hlt
    · exact lt_of_lt_of_le hlt (hsorted limit (limit + i) (by omega) (by omega) (by omega))
  refine ⟨?_, htake⟩
  have hafter : after < key found[limit - 1] := by
    have hmem : found[limit - 1] ∈ behind key after rows := hperm.mem_iff.mp (List.getElem_mem _)
    exact of_decide_eq_true (List.mem_filter.mp hmem).2
  have hbehind : behind key (key found[limit - 1]) rows =
      (behind key after rows).filter fun r => key found[limit - 1] < key r := by
    rw [behind, behind, List.filter_filter]
    refine List.filter_congr fun r _ => ?_
    rw [Bool.eq_iff_iff, Bool.and_eq_true, decide_eq_true_eq, decide_eq_true_eq]
    exact ⟨fun h => ⟨h, lt_trans hafter h⟩, fun h => h.1⟩
  have hfilter := hperm.filter fun r => decide (key found[limit - 1] < key r)
  rw [← hbehind] at hfilter
  generalize key found[limit - 1] = bound at htake hdrop hfilter ⊢
  have hnone : (found.take limit).filter (fun r => decide (bound < key r)) = [] :=
    List.filter_eq_nil_iff.mpr fun r hr hcontra => absurd (of_decide_eq_true hcontra) (not_lt.mpr (htake r hr))
  have hall : (found.drop limit).filter (fun r => decide (bound < key r)) = found.drop limit :=
    List.filter_eq_self.mpr fun r hr => decide_eq_true (hdrop r hr)
  have hsplit : found.filter (fun r => decide (bound < key r)) = found.drop limit := by
    rw [← List.take_append_drop limit found, List.filter_append, hnone, List.nil_append, List.take_append_drop, hall]
  rw [← hsplit]
  exact hfilter

/-- Whatever is shown from a bound on is behind it. -/
theorem pages_behind (hlimit : 1 ≤ limit) (hlisting : Listing order limit start token readable rows fetch)
    {result : Except ε (List ρ × Option τ)} (h : Pages fetch result items) :
    ∀ after, result = page limit token (order.select after (limit + 1) rows) → ∀ r ∈ items, after < key r := by
  have hfound : ∀ after, ∀ r ∈ order.sort (behind key after rows), r ∈ rows ∧ after < key r := by
    intro after r hr
    have hmem := (order.perm (behind key after rows)).mem_iff.mp hr
    exact ⟨(List.mem_filter.mp hmem).1, of_decide_eq_true (List.mem_filter.mp hmem).2⟩
  induction h with
  | last items =>
    intro after heq r hr
    rcases Nat.lt_or_ge limit (order.sort (behind key after rows)).length with hlong | hshort
    · rw [page_long hlimit (List.getElem?_eq_getElem (by omega)) (List.getElem?_eq_getElem hlong)] at heq
      cases htoken : token (order.sort (behind key after rows))[limit - 1] with
      | error e =>
        rw [htoken] at heq
        cases heq
      | ok cursor =>
        rw [htoken] at heq
        cases heq
    · rw [page_short hshort] at heq
      cases heq
      exact (hfound after r hr).2
  | next items rest cursor hrest ih =>
    intro after heq r hr
    rcases Nat.lt_or_ge limit (order.sort (behind key after rows)).length with hlong | hshort
    · rw [page_long hlimit (List.getElem?_eq_getElem (by omega)) (List.getElem?_eq_getElem hlong)] at heq
      obtain ⟨hin, hlast⟩ := hfound after _ (List.getElem_mem (by omega : limit - 1 < (order.sort (behind key after rows)).length))
      generalize (order.sort (behind key after rows))[limit - 1] = last at heq hin hlast
      cases htoken : token last with
      | error e =>
        rw [htoken] at heq
        cases heq
      | ok cursor' =>
        rw [htoken] at heq
        cases heq
        rcases List.mem_append.mp hr with hr | hr
        · exact (hfound after r (List.mem_of_mem_take hr)).2
        · by_cases hreadable : readable (key last)
          · obtain ⟨cursor'', htoken', hfetch⟩ := hlisting.next last hin hreadable
            rw [htoken] at htoken'
            cases htoken'
            exact lt_trans hlast (ih (key last) hfetch r hr)
          · obtain ⟨e, hfetch⟩ := hlisting.unreadable last hin hreadable cursor htoken
            rw [hfetch] at hrest
            exact (pages_error hrest).elim
    · rw [page_short hshort] at heq
      cases heq

/-! ## All pages -/

/-- From any bound on, the pages show what is behind it, once and in order, exactly when every boundary is good. -/
theorem pages_iff (hlimit : 1 ≤ limit) (hlisting : Listing order limit start token readable rows fetch) :
    ∀ n after, (behind key after rows).length = n →
      ((∃ items, Pages fetch (page limit token (order.select after (limit + 1) rows)) items ∧
          items.Perm (behind key after rows) ∧ items.Pairwise fun a b => key a ≤ key b) ↔
        Boundaries limit readable (sortedKeys key (behind key after rows))) := by
  intro n
  induction n using Nat.strong_induction_on with
  | _ n ih =>
    intro after hn
    have hperm := order.perm (behind key after rows)
    have hsorted := order.sorted (behind key after rows)
    have hlength := hperm.length_eq
    rcases Nat.lt_or_ge limit (order.sort (behind key after rows)).length with hlong | hshort
    swap
    · refine ⟨fun _ => boundaries_short ?_, fun _ => ⟨_, ?_, hperm, hsorted⟩⟩
      · rw [← sort_keys order, List.length_map]
        exact hshort
      · rw [page_short hshort]
        exact Pages.last _
    have hnext : (order.sort (behind key after rows))[limit]? = some _ := List.getElem?_eq_getElem hlong
    have hlast : (order.sort (behind key after rows))[limit - 1]? = some _ := List.getElem?_eq_getElem (by omega)
    generalize (order.sort (behind key after rows))[limit] = next at hnext
    generalize (order.sort (behind key after rows))[limit - 1] = last at hlast
    have hin : last ∈ rows := (List.mem_filter.mp (hperm.mem_iff.mp (List.mem_of_getElem? hlast))).1
    have hkeys : ∀ a b, (sortedKeys key (behind key after rows))[limit - 1]? = some a →
        (sortedKeys key (behind key after rows))[limit]? = some b → a = key last ∧ b = key next := by
      intro a b ha hb
      rw [← sort_keys order, List.getElem?_map, hlast] at ha
      rw [← sort_keys order, List.getElem?_map, hnext] at hb
      exact ⟨(Option.some.inj ha).symm, (Option.some.inj hb).symm⟩
    have hhere : Boundaries limit readable (sortedKeys key (behind key after rows)) → key last < key next ∧ readable (key last) := by
      intro h
      refine (boundaries_drop hlimit |>.mp h).1 _ _ ?_ ?_
      · rw [← sort_keys order, List.getElem?_map, hlast]
        rfl
      · rw [← sort_keys order, List.getElem?_map, hnext]
        rfl
    rw [page_long hlimit hlast hnext]
    by_cases hreadable : readable (key last)
    swap
    · -- The cursor is not made, or not read.
      refine ⟨?_, fun h => absurd (hhere h).2 hreadable⟩
      rintro ⟨items, hpages, _, _⟩
      cases htoken : token last with
      | error e =>
        rw [htoken] at hpages
        exact (pages_error hpages).elim
      | ok cursor =>
        obtain ⟨e, hfetch⟩ := hlisting.unreadable last hin hreadable cursor htoken
        rw [htoken] at hpages
        cases hpages with
        | next _ rest _ hrest =>
          rw [hfetch] at hrest
          exact (pages_error hrest).elim
    obtain ⟨cursor, htoken, hfetch⟩ := hlisting.next last hin hreadable
    rw [htoken]
    have hcut : ∀ rest, ((order.sort (behind key after rows)).take limit ++ rest).Perm (behind key after rows) →
        rest.Perm ((order.sort (behind key after rows)).drop limit) := by
      intro rest hrest
      have hwhole := hrest.trans hperm.symm
      conv at hwhole => rhs; rw [← List.take_append_drop limit (order.sort (behind key after rows))]
      exact (List.perm_append_left_iff _).mp hwhole
    by_cases hlt : key last < key next
    swap
    · -- The next row has the key of the last one: it is behind no cursor.
      refine ⟨?_, fun h => absurd (hhere h).1 hlt⟩
      rintro ⟨items, hpages, hitems, _⟩
      cases hpages with
      | next _ rest _ hrest =>
        have hmem : next ∈ rest := by
          refine (hcut rest hitems).mem_iff.mpr (List.mem_of_getElem? (i := 0) ?_)
          rw [List.getElem?_drop]
          exact hnext
        exact absurd (pages_behind hlimit hlisting hrest (key last) hfetch next hmem) hlt
    obtain ⟨hdrop, htake⟩ := behind_last hlast hnext hlimit hlt
    have hrestKeys : sortedKeys key (behind key (key last) rows) = (sortedKeys key (behind key after rows)).drop limit := by
      rw [← sortedKeys_perm hdrop, ← sort_keys order (behind key after rows), ← List.map_drop]
      refine eq_of_sorted (List.pairwise_insertionSort _ _) ?_ (List.perm_insertionSort _ _)
      exact List.pairwise_map.mpr (hsorted.sublist (List.drop_sublist _ _))
    have hsmaller : (behind key (key last) rows).length < n := by
      have hdropped := hdrop.length_eq
      rw [List.length_drop] at hdropped
      omega
    have hrest := ih _ hsmaller (key last) rfl
    rw [hrestKeys] at hrest
    rw [boundaries_drop hlimit, ← hrest]
    constructor
    · rintro ⟨items, hpages, hitems, hordered⟩
      cases hpages with
      | next _ rest _ hpages =>
        rw [hfetch] at hpages
        refine ⟨fun a b ha hb => ?_, rest, hpages, (hcut rest hitems).trans hdrop, ?_⟩
        · obtain ⟨rfl, rfl⟩ := hkeys a b ha hb
          exact ⟨hlt, hreadable⟩
        · exact (List.pairwise_append.mp hordered).2.1
    · rintro ⟨_, rest, hpages, hitems, hordered⟩
      rw [← hfetch] at hpages
      refine ⟨_, Pages.next _ rest cursor hpages, ?_, ?_⟩
      · have hwhole := (hitems.trans hdrop.symm).append_left ((order.sort (behind key after rows)).take limit)
        rw [List.take_append_drop] at hwhole
        exact hwhole.trans hperm
      · refine List.pairwise_append.mpr ⟨hsorted.sublist (List.take_sublist _ _), hordered, fun a ha b hb => ?_⟩
        have hbehind := List.mem_filter.mp (hitems.mem_iff.mp hb)
        exact le_trans (htake a ha) (le_of_lt (of_decide_eq_true hbehind.2))

/-- The pages are complete exactly when every row is behind the start and every boundary is good. -/
theorem complete_iff (hlimit : 1 ≤ limit) (hlisting : Listing order limit start token readable rows fetch) :
    Complete key fetch rows ↔ (∀ r ∈ rows, start < key r) ∧ Boundaries limit readable (sortedKeys key rows) := by
  have hall := pages_iff hlimit hlisting _ start rfl
  rw [Complete, hlisting.first]
  constructor
  · rintro ⟨items, hpages, hitems, hordered⟩
    have hstart : ∀ r ∈ rows, start < key r := fun r hr =>
      pages_behind hlimit hlisting hpages start rfl r (hitems.mem_iff.mpr hr)
    have hbehind : behind key start rows = rows := List.filter_eq_self.mpr fun r hr => decide_eq_true (hstart r hr)
    rw [hbehind] at hall
    exact ⟨hstart, hall.mp ⟨items, hpages, hitems, hordered⟩⟩
  · rintro ⟨hstart, hboundaries⟩
    have hbehind : behind key start rows = rows := List.filter_eq_self.mpr fun r hr => decide_eq_true (hstart r hr)
    rw [hbehind] at hall
    exact hall.mpr hboundaries

end Steps

end Lib.Keyset
