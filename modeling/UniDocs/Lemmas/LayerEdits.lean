import Mathlib.Algebra.Order.Ring.Unbundled.Rat
import UniDocs.Lib.Result
import UniDocs.Lemmas.LayerTree

/-!
# What the operations do to the tree of layers

An insertion adds the layers of the inserted subtree and a removal takes those of the removed one, up to their order. The
operations on properties change no identifier.
-/

namespace UniDocs.Psd

open Lib Lib.RoseTree

theorem ids_perm {layers layers' : List Layer} (h : (values layers).Perm (values layers')) : (ids layers).Perm (ids layers') :=
  h.map _

theorem ids_append (layers layers' : List Layer) : ids (layers ++ layers') = ids layers ++ ids layers' := by
  rw [ids, values_append, List.map_append]
  rfl

theorem require_ok {condition : Bool} {message : String} {u : Unit} (h : require condition message = .ok u) :
    condition = true := by
  rw [require] at h
  split at h
  · assumption
  · cases h

/-! ## Insertion and removal -/

theorem insertAt_eq (list : List Layer) (layer : Layer) (index : Option Rat) :
    ∃ k ≤ list.length, insertAt list layer index = list.insertIdx k layer := by
  have hpush : list ++ [layer] = list.insertIdx list.length layer := by rw [List.insertIdx_length_self]
  cases index with
  | none => exact ⟨list.length, le_rfl, hpush⟩
  | some index =>
    rw [insertAt]
    split
    · exact ⟨list.length, le_rfl, hpush⟩
    · rename_i hlt
      refine ⟨_, ?_, rfl⟩
      have hmax : max 0 index ≤ (list.length : Rat) := max_le (Rat.natCast_nonneg) (le_of_not_ge hlt)
      have hfloor : (max 0 index).floor ≤ (((list.length : Int) : Rat)).floor := Rat.floor_monotone hmax
      rw [Rat.floor_intCast] at hfloor
      omega

theorem targetList_ok {layers : List Layer} {parentId : Option String} {path : List Nat}
    (h : targetList layers parentId = .ok path) : ∃ list, list? layers path = some list := by
  cases parentId with
  | none =>
    cases h
    exact ⟨layers, rfl⟩
  | some parentId =>
    rw [targetList] at h
    split at h
    · cases h
    · rename_i position parent hfound
      split at h
      · cases h
      · cases h
        exact ⟨parent.kids, by rw [list?_childList, (findLayer_sound hfound).1, Option.map_some]⟩

theorem insertLayer_cases {layers layers' : List Layer} {layer : Layer} {parentId : Option String} {index : Option Rat}
    (h : insertLayer layers layer parentId index = .ok layers') :
    ∃ path list, targetList layers parentId = .ok path ∧ list? layers path = some list
      ∧ layers' = modifyList (fun list => insertAt list layer index) path layers := by
  obtain ⟨path, hpath, hrest⟩ := bind_ok_iff.mp h
  obtain ⟨list, hlist⟩ := targetList_ok hpath
  exact ⟨path, list, hpath, hlist, pure_ok_iff.mp hrest⟩

theorem insertLayer_values {layers layers' : List Layer} {layer : Layer} {parentId : Option String} {index : Option Rat}
    (h : insertLayer layers layer parentId index = .ok layers') :
    (values layers').Perm (values [layer] ++ values layers) := by
  obtain ⟨path, list, _, hlist, rfl⟩ := insertLayer_cases h
  have hforest : ([] ++ values (modifyList (fun list => insertAt list layer index) path layers)).Perm
      (values [layer] ++ values layers) := by
    refine values_modifyList hlist ?_
    obtain ⟨k, hk, heq⟩ := insertAt_eq list layer index
    rw [heq, List.nil_append, ← values_append]
    exact values_perm (List.perm_insertIdx layer list hk)
  exact hforest

theorem removeById_cases {layers rest : List Layer} {id : String} {layer : Layer}
    (h : removeById layers id = some (layer, rest)) :
    ∃ position, findParentList layers id = some position ∧ get? layers position = some layer
      ∧ rest = remove layers position := by
  obtain ⟨position, hposition, hmap⟩ := Option.bind_eq_some_iff.mp h
  obtain ⟨found, hfound, heq⟩ := Option.map_eq_some_iff.mp hmap
  cases heq
  exact ⟨position, hposition, hfound, rfl⟩

/-- A removal takes the layers of the removed subtree. -/
theorem removeById_values {layers rest : List Layer} {id : String} {layer : Layer}
    (h : removeById layers id = some (layer, rest)) : (values [layer] ++ values rest).Perm (values layers) := by
  obtain ⟨position, _, hget, rfl⟩ := removeById_cases h
  exact values_remove hget

/-- Normalizing a layer keeps the identifiers of the subtree. -/
theorem normalizeFields_id {fields out : LayerFields} (h : normalizeFields fields = .ok out) : out.id = fields.id := by
  have hdefault : ∀ key value (f : LayerFields), (f.default key value).id = f.id := by
    intro key value f
    rw [LayerFields.default]
    split <;> rfl
  obtain ⟨_, _, hrest⟩ := bind_ok_iff.mp h
  obtain ⟨_, _, hrest⟩ := bind_ok_iff.mp hrest
  obtain ⟨_, _, hrest⟩ := bind_ok_iff.mp hrest
  rw [pure_ok_iff.mp hrest, withDefaults, hdefault, hdefault, hdefault]

mutual

theorem validateAndNormalizeLayer_ids : ∀ (layer : Layer) {out : Layer},
    validateAndNormalizeLayer layer = .ok out → ids [out] = ids [layer]
  | .node fields none, out, h => by
    obtain ⟨normal, hnormal, hrest⟩ := bind_ok_iff.mp h
    rw [pure_ok_iff.mp hrest]
    simp [normalizeFields_id hnormal]
  | .node fields (some children), out, h => by
    rw [validateAndNormalizeLayer] at h
    obtain ⟨normal, hnormal, hrest⟩ := bind_ok_iff.mp h
    split at hrest
    · obtain ⟨normalChildren, hchildren, hlast⟩ := bind_ok_iff.mp hrest
      rw [pure_ok_iff.mp hlast]
      simp [normalizeFields_id hnormal, validateAndNormalizeLayers_ids children hchildren]
    · rw [pure_ok_iff.mp hrest]
      simp [normalizeFields_id hnormal]

theorem validateAndNormalizeLayers_ids : ∀ (layers : List Layer) {out : List Layer},
    validateAndNormalizeLayers layers = .ok out → ids out = ids layers
  | [], out, h => by
    rw [validateAndNormalizeLayers] at h
    rw [pure_ok_iff.mp h]
  | layer :: layers, out, h => by
    rw [validateAndNormalizeLayers] at h
    obtain ⟨first, hfirst, hrest⟩ := bind_ok_iff.mp h
    obtain ⟨others, hothers, hlast⟩ := bind_ok_iff.mp hrest
    have hhead := validateAndNormalizeLayer_ids layer hfirst
    have htail := validateAndNormalizeLayers_ids layers hothers
    calc ids out = ids ([first] ++ others) := by rw [pure_ok_iff.mp hlast, List.singleton_append]
      _ = ids [layer] ++ ids layers := by rw [ids_append, hhead, htail]
      _ = ids (layer :: layers) := by rw [← ids_append, List.singleton_append]

end

/-- What `addLayer` does to the identifiers when it does not throw: those of the subtree are added, and that of its root was
not there before. -/
theorem addLayer_ids {doc doc' : PsdDoc} {layer : Layer} {parentId : Option String} {index : Option Rat}
    (h : addLayer doc layer parentId index = .ok doc') :
    (ids doc'.layers).Perm (ids [layer] ++ ids doc.layers) ∧ layer.value.id ∉ ids doc.layers := by
  obtain ⟨out, hout, hrest⟩ := bind_ok_iff.mp h
  obtain ⟨_, hcheck, hrest⟩ := bind_ok_iff.mp hrest
  obtain ⟨layers, hinsert, hlast⟩ := bind_ok_iff.mp hrest
  have hids := validateAndNormalizeLayer_ids layer hout
  have hroot : out.value.id = layer.value.id := by
    rw [ids_cons, ids_cons] at hids
    exact (List.cons.inj hids).1
  constructor
  · rw [pure_ok_iff.mp hlast, ← hids, ← ids_append]
    refine ids_perm ?_
    rw [values_append]
    exact insertLayer_values hinsert
  · rw [← hroot, ← findLayer_eq_none]
    exact Option.isNone_iff_eq_none.mp (require_ok hcheck)

/-! ## Operations on properties -/

/-- Writing to a layer without changing the identifiers of its subtree changes none of the document. -/
theorem editLayer_ids {doc doc' : PsdDoc} {layerId notFound : String} {edit : Layer → Except Failure Layer}
    (hedit : ∀ {layer layer' : Layer}, edit layer = .ok layer' → ids [layer'] = ids [layer])
    (h : editLayer doc layerId notFound edit = .ok doc') : (ids doc'.layers).Perm (ids doc.layers) := by
  rw [editLayer] at h
  split at h
  · cases h
  · rename_i position layer hfound
    obtain ⟨layer', hlayer, hlast⟩ := bind_ok_iff.mp h
    rw [pure_ok_iff.mp hlast]
    have hvalues : (ids [layer] ++ ids (modifyAt (fun _ => layer') position doc.layers)).Perm
        (ids [layer'] ++ ids doc.layers) := by
      rw [← ids_append, ← ids_append]
      refine ids_perm ?_
      rw [values_append, values_append]
      exact values_modifyAt (findLayer_sound hfound).1
    rw [hedit hlayer] at hvalues
    exact (List.perm_append_left_iff _).mp hvalues

/-- Writing properties of one layer keeps the identifiers of its subtree. -/
theorem editFields_ids {edit : LayerFields → Except Failure LayerFields}
    (hedit : ∀ {fields fields' : LayerFields}, edit fields = .ok fields' → fields'.id = fields.id) {layer layer' : Layer}
    (h : editFields edit layer = .ok layer') : ids [layer'] = ids [layer] := by
  obtain ⟨fields, children⟩ := layer
  obtain ⟨fields', hfields, hlast⟩ := bind_ok_iff.mp h
  rw [pure_ok_iff.mp hlast]
  simp [hedit hfields]

theorem setProp_id {fields fields' : LayerFields} {entry : String × Value} (h : setProp fields entry = .ok fields') :
    fields'.id = fields.id := by
  rw [setProp] at h
  split at h
  · cases h
  · split at h
    · cases h
      rfl
    · obtain ⟨_, _, hlast⟩ := bind_ok_iff.mp h
      rw [pure_ok_iff.mp hlast]
      rfl

theorem foldlM_setProp_id {props : List (String × Value)} {fields fields' : LayerFields}
    (h : props.foldlM setProp fields = .ok fields') : fields'.id = fields.id := by
  induction props generalizing fields with
  | nil => rw [pure_ok_iff.mp h]
  | cons entry props ih =>
    rw [List.foldlM_cons] at h
    obtain ⟨next, hnext, hrest⟩ := bind_ok_iff.mp h
    rw [ih hrest, setProp_id hnext]

theorem shiftFields_id (dx dy : Number) (fields : LayerFields) : (shiftFields dx dy fields).id = fields.id := by
  rw [shiftFields]
  split <;> rfl

mutual

theorem shiftLayer_ids (dx dy : Number) : ∀ layer : Layer, ids [shiftLayer dx dy layer] = ids [layer]
  | .node fields none => by simp [shiftLayer, shiftFields_id]
  | .node fields (some children) => by simp [shiftLayer, shiftFields_id, shiftLayers_ids dx dy children]

theorem shiftLayers_ids (dx dy : Number) : ∀ layers : List Layer, ids (shiftLayers dx dy layers) = ids layers
  | [] => by rw [shiftLayers]
  | layer :: layers => by
    calc ids (shiftLayers dx dy (layer :: layers)) = ids ([shiftLayer dx dy layer] ++ shiftLayers dx dy layers) := by
          rw [shiftLayers, List.singleton_append]
      _ = ids [layer] ++ ids layers := by rw [ids_append, shiftLayer_ids dx dy layer, shiftLayers_ids dx dy layers]
      _ = ids (layer :: layers) := by rw [← ids_append, List.singleton_append]

end

theorem flipFields_id {flip : Value} {fields fields' : LayerFields} (h : flipFields flip fields = .ok fields') :
    fields'.id = fields.id := by
  rw [flipFields] at h
  split at h
  · cases h
    rfl
  · split at h
    · cases h
    · split at h <;> cases h <;> rfl

theorem dropBakedText_id (fields : LayerFields) : (dropBakedText fields).id = fields.id := by
  rw [dropBakedText]
  split
  · dsimp only
    split <;> rfl
  · rfl

theorem setTextFields_id {p : SetTextPayload} {fields fields' : LayerFields} (h : setTextFields p fields = .ok fields') :
    fields'.id = fields.id := by
  obtain ⟨_, _, hrest⟩ := bind_ok_iff.mp h
  obtain ⟨_, _, hrest⟩ := bind_ok_iff.mp hrest
  obtain ⟨_, _, hrest⟩ := bind_ok_iff.mp hrest
  obtain ⟨_, _, hrest⟩ := bind_ok_iff.mp hrest
  obtain ⟨_, _, hrest⟩ := bind_ok_iff.mp hrest
  rw [pure_ok_iff.mp hrest, dropBakedText_id]
  rfl

end UniDocs.Psd
