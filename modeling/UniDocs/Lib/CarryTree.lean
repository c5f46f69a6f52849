import Mathlib.Algebra.GroupWithZero.Nat
import Mathlib.Data.List.Forall2
import UniDocs.Lib.Result

/-!
# Trees built by carry propagation

Leaves arrive one by one. A group of siblings is kept for every height; a group that is full is combined into a parent,
which is appended to the group above. When no leaf is left, the lowest group is combined again and again until one node
remains. The tree that results holds the leaves in their order, every leaf at the same depth, and no parent has more than
`fanout` children. What a node is and where it is kept is left open: `combine` may fail and may change a state.
-/

namespace Lib.CarryTree

/-! ## The construction -/

section Construction

variable {ν σ ε : Type} (fanout : Nat) (slot : ν → Nat) (combine : σ → List ν → Except ε (σ × ν)) (stuck : ε)

/-- Replaces the group at an index; the groups that are missing below it are empty. -/
def setGroup (groups : List (List ν)) (index : Nat) (group : List ν) : List (List ν) :=
  if index < groups.length then groups.set index group
  else groups ++ List.replicate (index - groups.length) [] ++ [group]

/-- Adds a node to the group of its slot and carries while a group is full. -/
def append : Nat → σ → List (List ν) → ν → Except ε (σ × List (List ν))
  | 0, _, _, _ => .error stuck
  | fuel + 1, s, groups, node =>
    let group := groups.getD (slot node) [] ++ [node]
    if group.length = fanout then do
      let (s, parent) ← combine s group
      append fuel s (setGroup groups (slot node) []) parent
    else .ok (s, setGroup groups (slot node) group)

/-- The groups that are not empty, with their indexes. -/
def populated (groups : List (List ν)) : List (List ν × Nat) := groups.zipIdx.filter fun entry => 0 < entry.1.length

/-- Combines the lowest group until one node is left. -/
def finish : Nat → σ → List (List ν) → Except ε (σ × ν)
  | 0, _, _ => .error stuck
  | fuel + 1, s, groups =>
    match populated groups with
    | (node :: group, index) :: rest =>
      if (((node :: group, index) :: rest).map fun entry => entry.1.length).sum = 1 then .ok (s, node)
      else do
        let (s, parent) ← combine s (node :: group)
        let (s, groups) ← append fanout slot combine stuck (groups.length + 1) s (setGroup groups index []) parent
        finish fuel s groups
    | _ => .error stuck

end Construction

/-! ## Groups of siblings -/

section Law

variable {α ν σ ε : Type} (fanout : Nat) (slot : ν → Nat) (combine : σ → List ν → Except ε (σ × ν))

/-- What the construction asks of its nodes: `Holds s h node items` says that in state `s` the node is the root of a tree of
height `h` over these items, and `Fits h items` that a parent of nodes of this height can be made over these items. -/
structure Law (Ext : σ → σ → Prop) (Holds : σ → Nat → ν → List α → Prop) (Fits : Nat → List α → Prop) : Prop where
  refl : ∀ s, Ext s s
  trans : ∀ {s s' s''}, Ext s s' → Ext s' s'' → Ext s s''
  mono : ∀ {s s' h node items}, Ext s s' → Holds s h node items → Holds s' h node items
  slot_eq : ∀ {s h node items}, Holds s h node items → slot node = h
  fits : ∀ {h h' front back}, h ≤ h' → Fits h' (front ++ back) → Fits h back
  combine : ∀ {s h nodes parts}, nodes ≠ [] → nodes.length ≤ fanout → List.Forall₂ (Holds s h) nodes parts →
    Outcome (combine s nodes) (fun result => Ext s result.1 ∧ Holds result.1 (h + 1) result.2 parts.flatten)
      (¬ Fits h parts.flatten)

/-- The groups from a height on hold these items: the higher a group, the earlier its items. -/
def Forest (Holds : σ → Nat → ν → List α → Prop) (s : σ) : Nat → List (List ν) → List α → Prop
  | _, [], items => items = []
  | h, group :: groups, items =>
    group.length < fanout ∧ ∃ high parts, Forest Holds s (h + 1) groups high ∧ List.Forall₂ (Holds s h) group parts
      ∧ items = high ++ parts.flatten

variable {fanout slot combine} {Ext : σ → σ → Prop} {Holds : σ → Nat → ν → List α → Prop} {Fits : Nat → List α → Prop}
  (stuck : ε)

theorem Forest.mono (law : Law fanout slot combine Ext Holds Fits) {s s' : σ} (hext : Ext s s') {h : Nat}
    {groups : List (List ν)} {items : List α} (hf : Forest fanout Holds s h groups items) :
    Forest fanout Holds s' h groups items := by
  induction groups generalizing h items with
  | nil => exact hf
  | cons group groups ih =>
    obtain ⟨hlen, high, parts, hhigh, hparts, hitems⟩ := hf
    exact ⟨hlen, high, parts, ih hhigh, hparts.imp fun _ _ => law.mono hext, hitems⟩

/-- An empty group adds nothing. -/
theorem forest_nil_cons {s : σ} {h : Nat} {groups : List (List ν)} {items : List α} (hfan : 0 < fanout) :
    Forest fanout Holds s h ([] :: groups) items ↔ Forest fanout Holds s (h + 1) groups items := by
  constructor
  · rintro ⟨_, high, parts, hhigh, hparts, rfl⟩
    cases hparts
    simpa using hhigh
  · intro hf
    exact ⟨hfan, items, [], hf, List.Forall₂.nil, by simp⟩

theorem forest_replicate {s : σ} {h k : Nat} {groups : List (List ν)} {items : List α} (hfan : 0 < fanout) :
    Forest fanout Holds s h (List.replicate k [] ++ groups) items ↔ Forest fanout Holds s (h + k) groups items := by
  induction k generalizing h with
  | zero => rfl
  | succ k ih =>
    rw [List.replicate_succ, List.cons_append, forest_nil_cons hfan, ih, Nat.add_assoc, Nat.add_comm 1 k]

theorem Forest.eq_nil {s : σ} {h : Nat} {groups : List (List ν)} {items : List α}
    (hf : Forest fanout Holds s h groups items) (hempty : ∀ group ∈ groups, group = []) : items = [] := by
  induction groups generalizing h items with
  | nil => exact hf
  | cons group groups ih =>
    obtain ⟨_, high, parts, hhigh, hparts, rfl⟩ := hf
    have hgroup := hempty group (by simp)
    subst hgroup
    cases hparts
    rw [ih hhigh fun g hg => hempty g (by simp [hg])]
    rfl

/-! ## Appending -/

theorem getD_append_length (pre rest : List (List ν)) : (pre ++ rest).getD pre.length [] = rest.headD [] := by
  cases rest <;> simp

theorem setGroup_append_nil (pre : List (List ν)) (group : List ν) :
    setGroup pre pre.length group = pre ++ [group] := by
  simp [setGroup]

theorem setGroup_append_cons (pre rest : List (List ν)) (old group : List ν) :
    setGroup (pre ++ old :: rest) pre.length group = pre ++ group :: rest := by
  simp [setGroup]

/-- Appending a node at the lowest height that is in use keeps the groups: its items come last. Either no group is added, or
the carry has emptied all the groups and one node is left above them. -/
theorem append_outcome (law : Law fanout slot combine Ext Holds Fits) (hfan : 2 ≤ fanout) (rest : List (List ν)) :
    ∀ (pre : List (List ν)) (fuel : Nat) (s : σ) (node : ν) (items added : List α), rest.length < fuel →
      Forest fanout Holds s pre.length rest items → Holds s pre.length node added →
      Outcome (append fanout slot combine stuck fuel s (pre ++ rest) node)
        (fun result => ∃ rest', result.2 = pre ++ rest' ∧ Ext s result.1
          ∧ Forest fanout Holds result.1 pre.length rest' (items ++ added) ∧ (∃ group ∈ rest', group ≠ [])
          ∧ (rest'.length = rest.length ∨ ∃ top, rest' = List.replicate rest.length [] ++ [[top]]))
        (¬ Fits (pre.length + rest.length) (items ++ added)) := by
  induction rest with
  | nil =>
    intro pre fuel s node items added hfuel hforest hnode
    obtain ⟨fuel, rfl⟩ : ∃ n, fuel = n + 1 := ⟨fuel - 1, by simp at hfuel; omega⟩
    have hslot := law.slot_eq hnode
    have hone : ¬ ([node].length = fanout) := by simp; omega
    have hitems : items = [] := hforest
    have hget : (pre ++ []).getD (slot node) [] ++ [node] = [node] := by simp [hslot]
    rw [append]
    simp only [hget, if_neg hone, Outcome]
    refine ⟨[[node]], ?_, law.refl s, ?_, ⟨[node], by simp, by simp⟩, Or.inr ⟨node, rfl⟩⟩
    · rw [List.append_nil, hslot, setGroup_append_nil]
    · refine ⟨by simp; omega, [], [added], rfl, ?_, by simp [hitems]⟩
      exact List.Forall₂.cons hnode List.Forall₂.nil
  | cons group groups ih =>
    intro pre fuel s node items added hfuel hforest hnode
    obtain ⟨fuel, rfl⟩ : ∃ n, fuel = n + 1 := ⟨fuel - 1, by simp at hfuel; omega⟩
    have hslot := law.slot_eq hnode
    obtain ⟨hlen, high, parts, hhigh, hparts, rfl⟩ := hforest
    have hall : List.Forall₂ (Holds s pre.length) (group ++ [node]) (parts ++ [added]) :=
      List.rel_append hparts (List.Forall₂.cons hnode List.Forall₂.nil)
    have hflat : (parts ++ [added]).flatten = parts.flatten ++ added := by simp
    have hget : (pre ++ group :: groups).getD (slot node) [] ++ [node] = group ++ [node] := by
      rw [hslot, getD_append_length]
      rfl
    rw [append]
    simp only [hget]
    split_ifs with hfull
    · -- the group is full: its parent goes to the groups above
      have hcombine := law.combine (by simp) (Nat.le_of_eq hfull) hall
      rw [hflat] at hcombine
      refine hcombine.bind ?_ ?_
      · intro hno hfits
        rw [List.append_assoc] at hfits
        exact hno (law.fits (by omega) hfits)
      · rintro ⟨s', parent⟩ ⟨hext, hparent⟩
        have hparent' : Holds s' (pre ++ [[]]).length parent (parts.flatten ++ added) := by simpa using hparent
        have hforest' : Forest fanout Holds s' (pre ++ [[]]).length groups high := by
          simpa using Forest.mono law hext hhigh
        have hnext := ih (pre ++ [[]]) fuel s' parent high _ (by simp at hfuel; omega) hforest' hparent'
        rw [hslot, setGroup_append_cons]
        rw [List.append_assoc, List.singleton_append] at hnext
        refine hnext.imp ?_ ?_
        · rintro ⟨s'', groups'⟩ ⟨rest', hgroups, hext', hforest'', ⟨kept, hkept, hne⟩, hshape⟩
          have hgroups' : groups' = pre ++ [[]] ++ rest' := hgroups
          refine ⟨[] :: rest', by simp [hgroups'], law.trans hext hext', ?_, ⟨kept, by simp [hkept], hne⟩, ?_⟩
          · rw [forest_nil_cons (by omega)]
            simpa using hforest''
          · rcases hshape with hlength | ⟨top, rfl⟩
            · exact Or.inl (by simp [hlength])
            · exact Or.inr ⟨top, by simp [List.replicate_succ]⟩
        · intro hno
          have hheight : (pre ++ [[]]).length + groups.length = pre.length + (group :: groups).length := by
            simp only [List.length_append, List.length_cons, List.length_nil]
            omega
          rwa [List.append_assoc, ← hheight]
    · refine ⟨(group ++ [node]) :: groups, ?_, law.refl s, ?_, ⟨group ++ [node], by simp, by simp⟩, Or.inl (by simp)⟩
      · rw [hslot, setGroup_append_cons]
      · refine ⟨?_, high, parts ++ [added], hhigh, hall, by rw [hflat, List.append_assoc]⟩
        simp only [List.length_append, List.length_singleton] at hfull ⊢
        omega

/-! ## Finishing -/

/-- The first group that is not empty. -/
theorem exists_lowest {groups : List (List ν)} (h : ∃ group ∈ groups, group ≠ []) :
    ∃ k group rest, group ≠ [] ∧ groups = List.replicate k [] ++ group :: rest := by
  induction groups with
  | nil => simp at h
  | cons group groups ih =>
    by_cases hgroup : group = []
    · subst hgroup
      have hrest : ∃ group ∈ groups, group ≠ [] := by simpa using h
      obtain ⟨k, lowest, rest, hne, rfl⟩ := ih hrest
      exact ⟨k + 1, lowest, rest, hne, by simp [List.replicate_succ]⟩
    · exact ⟨0, group, groups, hgroup, rfl⟩

theorem populated_replicate (k : Nat) (node : ν) (group : List ν) (rest : List (List ν)) :
    populated (List.replicate k [] ++ (node :: group) :: rest)
      = (node :: group, k) :: (rest.zipIdx (k + 1)).filter fun entry => 0 < entry.1.length := by
  have hskip : ∀ start : Nat, ((List.replicate k ([] : List ν)).zipIdx start).filter (fun entry => 0 < entry.1.length) = [] := by
    intro start
    rw [List.filter_eq_nil_iff]
    intro entry hentry
    have hmem : entry.1 ∈ List.replicate k ([] : List ν) := List.fst_mem_of_mem_zipIdx hentry
    rw [List.eq_of_mem_replicate hmem]
    simp
  rw [populated, List.zipIdx_append, List.filter_append, hskip, List.nil_append, List.zipIdx_cons]
  simp

/-- Groups without members are all empty. -/
theorem eq_nil_of_sum_zero {rest : List (List ν)} {start : Nat}
    (h : (((rest.zipIdx start).filter fun entry => 0 < entry.1.length).map fun entry => entry.1.length).sum = 0) :
    ∀ group ∈ rest, group = [] := by
  intro group hgroup
  by_contra hne
  obtain ⟨i, hi, rfl⟩ := List.mem_iff_getElem.mp hgroup
  have hmem : (rest[i], start + i) ∈ (rest.zipIdx start).filter fun entry => 0 < entry.1.length := by
    rw [List.mem_filter]
    refine ⟨?_, by simpa [List.length_pos_iff] using hne⟩
    rw [List.mem_iff_getElem]
    exact ⟨i, by simpa using hi, by simp⟩
  have hzero := List.sum_eq_zero_iff_forall_eq_nat.mp h rest[i].length (List.mem_map.mpr ⟨_, hmem, rfl⟩)
  exact hne (List.length_eq_zero_iff.mp hzero)

theorem finish_single {fuel k : Nat} {s : σ} {top : ν} :
    finish fanout slot combine stuck (fuel + 1) s (List.replicate k [] ++ [[top]]) = .ok (s, top) := by
  rw [finish, populated_replicate]
  simp

/-- The lowest group of a lone node is the node's. -/
theorem lowest_of_single {k j : Nat} {top : ν} {lowest : List ν} {tail : List (List ν)} (hne : lowest ≠ [])
    (h : List.replicate j [] ++ lowest :: tail = List.replicate k [] ++ [[top]]) : j = k ∧ lowest = [top] ∧ tail = [] := by
  induction k generalizing j with
  | zero =>
    cases j with
    | zero => simpa using h
    | succ j => simp [List.replicate_succ] at h
  | succ k ih =>
    cases j with
    | zero => exact absurd (by simpa [List.replicate_succ] using (List.cons.inj h).1) hne
    | succ j =>
      rw [List.replicate_succ, List.replicate_succ, List.cons_append, List.cons_append] at h
      obtain ⟨rfl, hrest⟩ := ih (List.cons.inj h).2
      exact ⟨rfl, hrest⟩

/-- The closing loop ends with the root of a tree over all the items; it fails only where they do not fit. -/
theorem finish_outcome (law : Law fanout slot combine Ext Holds Fits) (hfan : 2 ≤ fanout) (n : Nat) :
    ∀ (rest : List (List ν)) (k fuel : Nat) (group : List ν) (s : σ) (items : List α), rest.length = n →
      rest.length + 1 < fuel → group ≠ [] → Forest fanout Holds s k (group :: rest) items →
      Outcome (finish fanout slot combine stuck fuel s (List.replicate k [] ++ group :: rest))
        (fun result => Ext s result.1 ∧ ∃ h, Holds result.1 h result.2 items) (¬ Fits (k + 1 + rest.length) items) := by
  induction n using Nat.strongRecOn with
  | ind n ih =>
    intro rest k fuel group s items hn hfuel hne hforest
    obtain ⟨fuel, rfl⟩ : ∃ m, fuel = m + 1 := ⟨fuel - 1, by omega⟩
    obtain ⟨node, group, rfl⟩ := List.exists_cons_of_ne_nil hne
    obtain ⟨hlen, high, parts, hhigh, hparts, rfl⟩ := hforest
    rw [finish, populated_replicate]
    simp only
    split_ifs with hone
    · -- one node is left: it holds everything
      simp only [List.map_cons, List.sum_cons, List.length_cons] at hone
      have hgroup : group = [] := List.length_eq_zero_iff.mp (by omega)
      have hzero : (((rest.zipIdx (k + 1)).filter fun entry => 0 < entry.1.length).map fun entry => entry.1.length).sum = 0 := by
        omega
      have hhigh' : high = [] := hhigh.eq_nil (eq_nil_of_sum_zero hzero)
      subst hgroup hhigh'
      cases hparts with
      | cons hnode htail =>
        cases htail
        exact ⟨law.refl s, k, by simpa using hnode⟩
    · have hcombine := law.combine (by simp) (Nat.le_of_lt hlen) hparts
      refine hcombine.bind (fun hno hfits => hno (law.fits (by omega) hfits)) ?_
      rintro ⟨s', parent⟩ ⟨hext, hparent⟩
      have hset : setGroup (List.replicate k [] ++ (node :: group) :: rest) k [] = List.replicate (k + 1) [] ++ rest := by
        have hset' := setGroup_append_cons (List.replicate k []) rest (node :: group) []
        rw [List.length_replicate] at hset'
        rw [hset', List.replicate_succ', List.append_assoc, List.singleton_append]
      have happend := append_outcome stuck law hfan rest (List.replicate (k + 1) [])
        ((List.replicate k [] ++ (node :: group) :: rest).length + 1) s' parent high parts.flatten (by simp; omega)
        (by simpa using Forest.mono law hext hhigh) (by simpa using hparent)
      rw [← hset] at happend
      rw [List.length_replicate] at happend
      refine happend.bind id ?_
      rintro ⟨s'', groups'⟩ ⟨rest', hgroups, hext', hforest', hkept, hshape⟩
      simp only at hgroups hext' hforest' ⊢
      have hdone := law.trans hext hext'
      obtain ⟨j, lowest, tail, hlowest, rfl⟩ := exists_lowest hkept
      rw [forest_replicate (by omega)] at hforest'
      have hjoin : List.replicate (k + 1) ([] : List ν) ++ (List.replicate j [] ++ lowest :: tail)
          = List.replicate (k + 1 + j) [] ++ lowest :: tail := by
        rw [← List.append_assoc, ← List.replicate_add]
      rw [hgroups, hjoin]
      rcases hshape with hlength | ⟨top, htop⟩
      · simp only [List.length_append, List.length_replicate, List.length_cons] at hlength
        have hheight : k + 1 + j + 1 + tail.length = k + 1 + rest.length := by omega
        refine (ih tail.length (by omega) tail _ fuel lowest s'' _ rfl (by omega) hlowest hforest').imp ?_ ?_
        · rintro ⟨s₃, root⟩ ⟨hext₃, hroot⟩
          exact ⟨law.trans hdone hext₃, hroot⟩
        · rw [hheight]
          exact id
      · obtain ⟨rfl, rfl, rfl⟩ := lowest_of_single hlowest htop
        obtain ⟨fuel, rfl⟩ : ∃ m, fuel = m + 1 := ⟨fuel - 1, by omega⟩
        obtain ⟨_, high', parts', hhigh', hparts', hitems⟩ := hforest'
        rw [finish_single]
        have hnil : high' = [] := hhigh'
        subst hnil
        cases hparts' with
        | cons hnode htail =>
          cases htail
          exact ⟨hdone, _, by simpa [hitems] using hnode⟩

end Law

end Lib.CarryTree
