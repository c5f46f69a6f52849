import Mathlib.Data.List.Basic
import Mathlib.Data.List.Perm.Basic

/-!
# Maps in insertion order

`Map` of ECMAScript: entries in the order in which their keys were first set, with each key once.
-/

namespace Lib.JsMap

variable {κ ρ : Type} [BEq κ] [LawfulBEq κ]

/-- `set`: an existing key keeps its place. -/
def set (key : κ) (value : ρ) (entries : List (κ × ρ)) : List (κ × ρ) :=
  if entries.any (fun e => e.1 == key) then entries.map fun e => if e.1 == key then (key, value) else e
  else entries ++ [(key, value)]

def delete (key : κ) (entries : List (κ × ρ)) : List (κ × ρ) := entries.filter fun e => !(e.1 == key)

def has (key : κ) (entries : List (κ × ρ)) : Bool := entries.any fun e => e.1 == key

/-- `new Map(entries)`. -/
def ofList (entries : List (κ × ρ)) : List (κ × ρ) := entries.foldl (fun map e => set e.1 e.2 map) []

variable {entries : List (κ × ρ)}

theorem has_iff {key : κ} : has key entries = true ↔ key ∈ entries.map Prod.fst := by
  simp only [has, List.any_eq_true, beq_iff_eq, List.mem_map]

theorem keys_set (key : κ) (value : ρ) (entries : List (κ × ρ)) : (set key value entries).map Prod.fst =
    if key ∈ entries.map Prod.fst then entries.map Prod.fst else entries.map Prod.fst ++ [key] := by
  rw [set]
  by_cases h : entries.any (fun e => e.1 == key) = true
  · rw [if_pos h, if_pos (has_iff.mp h), List.map_map]
    refine List.map_congr_left ?_
    intro e _
    simp only [Function.comp]
    split
    · rename_i he
      exact (beq_iff_eq.mp he).symm
    · rfl
  · rw [if_neg h, if_neg (fun hmem => h (has_iff.mpr hmem)), List.map_append]
    rfl

theorem nodup_set {key : κ} (value : ρ) (h : (entries.map Prod.fst).Nodup) :
    ((set key value entries).map Prod.fst).Nodup := by
  rw [keys_set]
  split
  · exact h
  · rename_i hnew
    exact List.nodup_append.mpr ⟨h, by simp, fun a ha b hb hab => hnew (by
      rw [List.mem_singleton] at hb
      rw [← hb, ← hab]
      exact ha)⟩

theorem mem_set {key : κ} {value : ρ} {e : κ × ρ} (h : e ∈ set key value entries) :
    e = (key, value) ∨ (e ∈ entries ∧ e.1 ≠ key) := by
  rw [set] at h
  split at h
  · obtain ⟨e', he', rfl⟩ := List.mem_map.mp h
    split
    · exact .inl rfl
    · rename_i hne
      exact .inr ⟨he', by simpa using hne⟩
  · rename_i hnew
    rcases List.mem_append.mp h with hold | hone
    · refine .inr ⟨hold, ?_⟩
      rintro rfl
      exact hnew (has_iff.mpr (List.mem_map.mpr ⟨e, hold, rfl⟩))
    · exact .inl (List.mem_singleton.mp hone)

omit [LawfulBEq κ] in
/-- A new key comes last. -/
theorem set_of_not_has {key : κ} (h : has key entries = false) (value : ρ) :
    set key value entries = entries ++ [(key, value)] := by
  have hnone : ¬ entries.any (fun e => e.1 == key) = true := by
    rw [show entries.any (fun e => e.1 == key) = has key entries from rfl, h]
    exact Bool.false_ne_true
  rw [set, if_neg hnone]

theorem set_of_mem {key : κ} {old : ρ} (hnodup : (entries.map Prod.fst).Nodup)
    (h : (key, old) ∈ entries) (value : ρ) :
    ∃ before after, entries = before ++ (key, old) :: after ∧ set key value entries = before ++ (key, value) :: after := by
  obtain ⟨before, after, rfl⟩ := List.append_of_mem h
  refine ⟨before, after, rfl, ?_⟩
  rw [List.map_append, List.map_cons, List.nodup_append, List.nodup_cons] at hnodup
  obtain ⟨_, ⟨hafter, _⟩, hbefore⟩ := hnodup
  have hother : ∀ l : List (κ × ρ), key ∉ l.map Prod.fst → l.map (fun e => if e.1 == key then (key, value) else e) = l := by
    intro l hl
    conv_rhs => rw [← List.map_id l]
    refine List.map_congr_left fun e he => ?_
    have hne : (e.1 == key) = false := by
      rw [beq_eq_false_iff_ne]
      rintro rfl
      exact hl (List.mem_map.mpr ⟨e, he, rfl⟩)
    rw [hne]
    rfl
  have hany : (before ++ (key, old) :: after).any (fun e => e.1 == key) = true := by simp
  rw [set, if_pos hany, List.map_append, List.map_cons, hother after hafter,
    hother before fun hmem => hbefore key hmem key List.mem_cons_self rfl]
  simp

/-- Setting several keys. -/
theorem mem_foldl_set {δ : Type} (k : δ → κ) (v : δ → ρ) (l : List δ) {e : κ × ρ}
    (h : e ∈ l.foldl (fun map d => set (k d) (v d) map) entries) : e ∈ entries ∨ ∃ d ∈ l, e = (k d, v d) := by
  induction l generalizing entries with
  | nil => exact .inl h
  | cons d l ih =>
    rcases ih h with hset | ⟨d', hd', he⟩
    · rcases mem_set hset with he | ⟨hold, -⟩
      · exact .inr ⟨d, List.mem_cons_self, he⟩
      · exact .inl hold
    · exact .inr ⟨d', List.mem_cons_of_mem _ hd', he⟩

theorem nodup_foldl_set {δ : Type} (k : δ → κ) (v : δ → ρ) (l : List δ)
    (h : (entries.map Prod.fst).Nodup) : ((l.foldl (fun map d => set (k d) (v d) map) entries).map Prod.fst).Nodup := by
  induction l generalizing entries with
  | nil => exact h
  | cons d l ih => exact ih (nodup_set _ h)

/-- Setting the keys of a list with distinct keys that are new appends the list. -/
theorem foldl_set_append (l : List (κ × ρ)) (h : ((entries ++ l).map Prod.fst).Nodup) :
    l.foldl (fun map e => set e.1 e.2 map) entries = entries ++ l := by
  induction l generalizing entries with
  | nil => rw [List.append_nil]; rfl
  | cons e l ih =>
    have hnew : e.1 ∉ entries.map Prod.fst := by
      rw [List.map_append, List.map_cons, List.nodup_append] at h
      exact fun hmem => h.2.2 _ hmem _ List.mem_cons_self rfl
    have hset : set e.1 e.2 entries = entries ++ [e] := by
      have hnone : ¬ entries.any (fun e' => e'.1 == e.1) = true := fun hany => hnew (has_iff.mp hany)
      rw [set, if_neg hnone]
    rw [List.foldl_cons, hset, ih (by simpa using h)]
    simp

theorem ofList_eq (h : (entries.map Prod.fst).Nodup) : ofList entries = entries := by
  rw [ofList, foldl_set_append entries (by simpa using h)]
  rfl

theorem lookup_iff (h : (entries.map Prod.fst).Nodup) {key : κ} {value : ρ} :
    entries.lookup key = some value ↔ (key, value) ∈ entries := by
  induction entries with
  | nil => simp
  | cons e rest ih =>
    obtain ⟨k, v⟩ := e
    rw [List.map_cons, List.nodup_cons] at h
    by_cases hk : key = k
    · subst hk
      rw [List.lookup_cons_self]
      constructor
      · intro heq
        cases heq
        exact List.mem_cons_self
      · intro hmem
        rcases List.mem_cons.mp hmem with heq | hrest
        · cases heq
          rfl
        · exact absurd (List.mem_map.mpr ⟨_, hrest, rfl⟩) h.1
    · have hne : (key == k) = false := by simpa using hk
      rw [List.lookup_cons, hne, ih h.2]
      constructor
      · exact List.mem_cons_of_mem _
      · intro hmem
        rcases List.mem_cons.mp hmem with heq | hrest
        · cases heq
          exact absurd rfl hk
        · exact hrest

theorem lookup_perm {entries entries' : List (κ × ρ)} (h : (entries.map Prod.fst).Nodup) (hperm : entries.Perm entries') (key : κ) :
    entries.lookup key = entries'.lookup key := by
  have h' : (entries'.map Prod.fst).Nodup := (hperm.map Prod.fst).nodup_iff.mp h
  refine Option.ext fun value => ?_
  rw [lookup_iff h, lookup_iff h', hperm.mem_iff]

theorem lookup_replace (key key' : κ) (value : ρ) (entries : List (κ × ρ)) :
    (entries.map fun e => if e.1 == key then (key, value) else e).lookup key' =
      if key' == key then (entries.lookup key).map fun _ => value else entries.lookup key' := by
  induction entries with
  | nil => simp
  | cons e rest ih =>
    obtain ⟨k, v⟩ := e
    rw [List.map_cons]
    by_cases hk : k = key
    · subst hk
      by_cases hk' : key' = k
      · simp [hk']
      · have hne' : (key' == k) = false := by simpa using hk'
        simp [List.lookup_cons, hne', ih]
    · have hne : (k == key) = false := by simpa using hk
      rw [hne, if_neg Bool.false_ne_true, List.lookup_cons, List.lookup_cons, List.lookup_cons, ih]
      by_cases hk' : key' = k
      · subst hk'
        simp [hk]
      · have hkey : (key == k) = false := by simpa using fun heq => hk (Eq.symm heq)
        have hkey' : (key' == k) = false := by simpa using hk'
        simp [hkey, hkey']

theorem lookup_set (key key' : κ) (value : ρ) (entries : List (κ × ρ)) :
    (set key value entries).lookup key' = if key' == key then some value else entries.lookup key' := by
  unfold set
  split
  · rename_i hany
    obtain ⟨e, he, hkey⟩ := List.any_eq_true.mp hany
    obtain ⟨old, hold⟩ := Option.isSome_iff_exists.mp (List.lookup_isSome_iff.mpr ⟨e, he, by simpa using (Eq.symm (beq_iff_eq.mp hkey))⟩)
    rw [lookup_replace, hold]
    rfl
  · rename_i hnone
    have hfree : entries.lookup key = none := by
      rw [List.lookup_eq_none_iff]
      intro e he
      rw [bne_iff_ne]
      exact fun heq => hnone (List.any_eq_true.mpr ⟨e, he, by simp [heq]⟩)
    rw [List.lookup_append]
    by_cases hkey : key' = key
    · subst hkey
      simp [hfree]
    · have hne : (key' == key) = false := by simpa using hkey
      simp [hne, List.lookup_cons]

end Lib.JsMap
