import UniDocs.Psd.Operations

/-!
# Lookups and edits in the tree of layers

Each lookup finds a layer with the identifier, and finds none only where no layer has it; where identifiers are distinct the
lookups agree. An edit is described by what it does to the layers of the tree, up to their order.
-/

namespace UniDocs.Psd

open Lib Lib.RoseTree

@[simp]
theorem ids_nil : ids [] = [] := by rw [ids, values_nil, List.map_nil]

@[simp]
theorem ids_cons (layer : Layer) (layers : List Layer) :
    ids (layer :: layers) = layer.value.id :: (ids layer.kids ++ ids layers) := by
  rw [ids, values_cons, List.map_cons, List.map_append]
  rfl

/-! ## Lookups -/

theorem findLayer_cons (layer : Layer) (layers : List Layer) (id : String) :
    findLayer (layer :: layers) id =
      if layer.value.id = id then some (⟨[], 0⟩, layer)
      else match findLayer layer.kids id with
        | some found => some (found.1.inFirst, found.2)
        | none => (findLayer layers id).map fun found => (found.1.inRest, found.2) := by
  obtain ⟨fields, children⟩ := layer
  cases children <;> rfl

variable {layers : List Layer} {id : String}

theorem findLayer_sound : ∀ {position : Position} {layer : Layer},
    findLayer layers id = some (position, layer) → get? layers position = some layer ∧ layer.value.id = id := by
  induction layers using forest_induction with
  | nil =>
    intro position layer h
    rw [findLayer] at h
    cases h
  | cons fields children rest ihc ihr =>
    intro position layer h
    rw [findLayer_cons] at h
    split at h
    · rename_i hid
      cases h
      exact ⟨get?_first _ _, hid⟩
    · split at h
      · rename_i found hfound
        cases h
        exact ihc hfound
      · obtain ⟨⟨p, l⟩, hfound, heq⟩ := Option.map_eq_some_iff.mp h
        cases heq
        rw [get?_inRest]
        exact ihr hfound

/-- A layer that replaces the one found is found in its place. -/
theorem findLayer_modifyAt {layer' : Layer} (hid : layer'.value.id = id) :
    ∀ {position : Position} {layer : Layer}, findLayer layers id = some (position, layer) →
      findLayer (modifyAt (fun _ => layer') position layers) id = some (position, layer') := by
  induction layers using forest_induction with
  | nil =>
    intro position layer h
    rw [findLayer] at h
    cases h
  | cons fields children rest ihc ihr =>
    intro position layer h
    rw [findLayer_cons] at h
    split at h
    · cases h
      rw [modifyAt_first, findLayer_cons, if_pos hid]
    · rename_i hne
      split at h
      · rename_i found hfound
        cases h
        rw [modifyAt_inFirst, findLayer_cons, if_neg (by simpa using hne), kids_node, Option.getD_some]
        rw [kids_node] at hfound ⊢
        rw [ihc hfound]
      · rename_i hnone
        obtain ⟨⟨p, l⟩, hfound, heq⟩ := Option.map_eq_some_iff.mp h
        cases heq
        rw [modifyAt_inRest, findLayer_cons, if_neg (by simpa using hne), hnone, ihr hfound]
        rfl

theorem findLayer_eq_none : findLayer layers id = none ↔ id ∉ ids layers := by
  induction layers using forest_induction with
  | nil => simp [findLayer]
  | cons fields children rest ihc ihr =>
    rw [findLayer_cons, ids_cons, List.mem_cons, List.mem_append, not_or, not_or]
    rw [← kids_node fields children] at ihc
    by_cases hid : fields.id = id
    · simp [hid]
    · rw [value_node, if_neg hid, ← ihc, ← ihr]
      cases findLayer (node fields children).kids id with
      | some found => simp
      | none => simp [Ne.symm hid]

theorem indexIn_sound {index : Nat} (h : indexIn layers id = some index) :
    ∃ layer, layers[index]? = some layer ∧ layer.value.id = id := by
  obtain ⟨hlt, hid, _⟩ := List.findIdx?_eq_some_iff_getElem.mp h
  exact ⟨layers[index], List.getElem?_eq_getElem hlt, of_decide_eq_true hid⟩

theorem indexIn_eq_none (h : indexIn layers id = none) :
    ∀ layer ∈ layers, layer.value.id ≠ id := by
  intro layer hmem heq
  have hnot := List.findIdx?_eq_none_iff.mp h layer hmem
  simp [heq] at hnot

theorem findInChildren_cons (layer : Layer) (layers : List Layer) (id : String) :
    findInChildren (layer :: layers) id =
      match findParentList layer.kids id with
      | some found => some found.inFirst
      | none => (findInChildren layers id).map Position.inRest := by
  obtain ⟨fields, children⟩ := layer
  cases children <;> rfl

theorem findParentList_sound_of
    (hloop : ∀ {p}, findInChildren layers id = some p → ∃ layer, get? layers p = some layer ∧ layer.value.id = id)
    {position : Position} (h : findParentList layers id = some position) :
    ∃ layer, get? layers position = some layer ∧ layer.value.id = id := by
  rw [findParentList] at h
  split at h
  · rename_i index hindex
    cases h
    exact indexIn_sound hindex
  · exact hloop h

theorem findInChildren_sound : ∀ {position : Position},
    findInChildren layers id = some position → ∃ layer, get? layers position = some layer ∧ layer.value.id = id := by
  induction layers using forest_induction with
  | nil =>
    intro position h
    rw [findInChildren] at h
    cases h
  | cons fields children rest ihc ihr =>
    intro position h
    rw [findInChildren_cons] at h
    split at h
    · rename_i found hfound
      cases h
      exact findParentList_sound_of ihc hfound
    · obtain ⟨p, hfound, heq⟩ := Option.map_eq_some_iff.mp h
      cases heq
      rw [get?_inRest]
      exact ihr hfound

theorem findParentList_sound {position : Position}
    (h : findParentList layers id = some position) : ∃ layer, get? layers position = some layer ∧ layer.value.id = id :=
  findParentList_sound_of findInChildren_sound h

/-- Where neither a list nor the loop below it finds the identifier, no layer has it. -/
theorem not_mem_ids_of_findInChildren :
    (∀ layer ∈ layers, layer.value.id ≠ id) → findInChildren layers id = none → id ∉ ids layers := by
  induction layers using forest_induction with
  | nil => simp
  | cons fields children rest ihc ihr =>
    intro hlist hnone
    rw [findInChildren_cons] at hnone
    split at hnone
    · cases hnone
    · rename_i hkids
      rw [findParentList] at hkids
      split at hkids
      · cases hkids
      · rename_i hindex
        rw [ids_cons, List.mem_cons, List.mem_append, not_or, not_or]
        refine ⟨fun heq => hlist _ List.mem_cons_self heq.symm, ihc (indexIn_eq_none hindex) hkids, ?_⟩
        exact ihr (fun layer hmem => hlist layer (List.mem_cons_of_mem _ hmem)) (Option.map_eq_none_iff.mp hnone)

theorem not_mem_ids_of_findParentList (h : findParentList layers id = none) :
    id ∉ ids layers := by
  rw [findParentList] at h
  split at h
  · cases h
  · rename_i hindex
    exact not_mem_ids_of_findInChildren (indexIn_eq_none hindex) h

/-- A position of a tree carries one of its identifiers. -/
theorem id_mem_ids {position : Position} {layer : Layer} (h : get? layers position = some layer) :
    layer.value.id ∈ ids layers :=
  List.mem_map_of_mem (value_mem_values h)

theorem hasId_eq (layers : List Layer) (id : String) : hasId layers id = decide (id ∈ ids layers) := by
  induction layers using forest_induction with
  | nil => simp [hasId]
  | cons fields children rest ihc ihr =>
    rw [ids_cons]
    cases children with
    | none => simp [hasId, isDescendant, ihr, eq_comm]
    | some children =>
      rw [Option.getD_some] at ihc
      simp [hasId, isDescendant, ihc, ihr, eq_comm, Bool.or_assoc]

/-- A top-level layer is, or holds, the layer with an identifier. -/
theorem owns_iff (layer : Layer) (id : String) :
    (decide (layer.value.id = id) || isDescendant layer id) = (findLayer [layer] id).isSome := by
  have hsome : (findLayer [layer] id).isSome = decide (id ∈ ids [layer]) := by
    rw [Bool.eq_iff_iff, decide_eq_true_eq, Option.isSome_iff_ne_none, ne_eq, findLayer_eq_none, not_not]
  rw [hsome, ids_cons, ids_nil, List.append_nil]
  obtain ⟨fields, children⟩ := layer
  cases children with
  | none => simp [isDescendant, eq_comm]
  | some children => simp [isDescendant, hasId_eq, eq_comm]

theorem topIndexOf_eq (layers : List Layer) (id : String) :
    topIndexOf layers id = (findLayer layers id).map fun found => found.1.top := by
  induction layers with
  | nil => rfl
  | cons layer layers ih =>
    rw [topIndexOf, List.findIdx?_cons, owns_iff, findLayer_cons, findLayer_cons]
    rw [topIndexOf] at ih
    by_cases hid : layer.value.id = id
    · simp [hid, Position.top]
    · rw [if_neg hid, if_neg hid]
      cases findLayer layer.kids id with
      | some found => simp
      | none =>
        rw [ih]
        cases findLayer layers id <;> simp [findLayer]

end UniDocs.Psd
