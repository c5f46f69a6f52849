import UniDocs.Lib.Bytes
import UniDocs.Lib.Machine
import UniDocs.Psd.Layer
import UniDocs.Lemmas.LayerEdits

/-!
# Layer identity

Where the names of a loaded file tell its layers apart and every layer that is inserted brings identifiers of its own, the
identifiers of a document are distinct in every state of a run. The lookups then denote one layer, and `reorder` moves the
subtree it names and nothing else.
-/

namespace UniDocs.Psd

open Lib Lib.RoseTree

/-- The layers an insertion with a parent goes to. -/
def listOf (layers : List Layer) : Option String → Option (List Layer)
  | none => some layers
  | some parentId => (findLayer layers parentId).map fun found => found.2.kids

/-- The lookups denote one layer: either none of them finds the identifier, or they find the same layer at the same place. -/
def LookupsAgree (layers : List Layer) (id : String) : Prop :=
  (findLayer layers id = none ∧ findParentList layers id = none ∧ topIndexOf layers id = none) ∨
    ∃ position layer, findLayer layers id = some (position, layer) ∧ get? layers position = some layer ∧ layer.value.id = id
      ∧ findParentList layers id = some position ∧ topIndexOf layers id = some position.top

/-- `reorder` has moved the subtree that `findLayer` denotes: taken out of either document it leaves the same layers, where
the list it was inserted to is now there; it stands in that list where `insertAt` puts it; and no layer was lost or added. -/
def MovesSubtree (doc doc' : PsdDoc) (layerId : String) (parentId : Option String) (index : Option Rat) : Prop :=
  ∃ position layer rest path list, findLayer doc.layers layerId = some (position, layer)
    ∧ removeById doc.layers layerId = some (layer, rest)
    ∧ targetList rest parentId = .ok path
    ∧ removeById doc'.layers layerId = some (layer, modifyList id path rest)
    ∧ listOf rest parentId = some list ∧ listOf doc'.layers parentId = some (insertAt list layer index)
    ∧ (values doc'.layers).Perm (values doc.layers)

/-- The claim about one document. -/
structure LayerIdentity (doc : PsdDoc) : Prop where
  distinct : (ids doc.layers).Nodup
  lookups : ∀ id, LookupsAgree doc.layers id
  reorder : ∀ layerId parentId index doc', reorder doc layerId parentId index = .ok doc' →
    MovesSubtree doc doc' layerId parentId index

/-! ## Documents with distinct identifiers -/

variable {layers : List Layer} {layer : Layer}

theorem findLayer_of_get? (hdistinct : (ids layers).Nodup) {position : Position}
    (h : get? layers position = some layer) : findLayer layers layer.value.id = some (position, layer) := by
  cases hfind : findLayer layers layer.value.id with
  | none => exact absurd (id_mem_ids h) (findLayer_eq_none.mp hfind)
  | some found =>
    obtain ⟨p, l⟩ := found
    obtain ⟨hget, hid⟩ := findLayer_sound hfind
    have hposition : p = position := position_unique hdistinct hget h hid
    subst hposition
    rw [h, Option.some.injEq] at hget
    rw [hget]

theorem findParentList_of_get? (hdistinct : (ids layers).Nodup) {position : Position}
    (h : get? layers position = some layer) : findParentList layers layer.value.id = some position := by
  cases hfind : findParentList layers layer.value.id with
  | none => exact absurd (id_mem_ids h) (not_mem_ids_of_findParentList hfind)
  | some p =>
    obtain ⟨l, hget, hid⟩ := findParentList_sound hfind
    rw [position_unique hdistinct hget h hid]

theorem removeById_of_get? (hdistinct : (ids layers).Nodup) {position : Position}
    (h : get? layers position = some layer) :
    removeById layers layer.value.id = some (layer, remove layers position) := by
  rw [removeById, findParentList_of_get? hdistinct h, Option.bind_some, h, Option.map_some]

theorem lookupsAgree_of_distinct (hdistinct : (ids layers).Nodup) (id : String) :
    LookupsAgree layers id := by
  cases hfind : findLayer layers id with
  | none =>
    left
    refine ⟨hfind, ?_, by rw [topIndexOf_eq, hfind, Option.map_none]⟩
    cases hlist : findParentList layers id with
    | none => rfl
    | some p =>
      obtain ⟨l, hget, hid⟩ := findParentList_sound hlist
      exact absurd (hid ▸ id_mem_ids hget) (findLayer_eq_none.mp hfind)
  | some found =>
    obtain ⟨position, layer⟩ := found
    obtain ⟨hget, hid⟩ := findLayer_sound hfind
    right
    refine ⟨position, layer, hfind, hget, hid, ?_, by rw [topIndexOf_eq, hfind, Option.map_some]⟩
    rw [← hid]
    exact findParentList_of_get? hdistinct hget

variable {parentId : Option String} {index : Option Rat}

/-- An insertion into a document whose identifiers stay distinct: the layer is found where it was put, and the list it was
put to is found under the parent. -/
theorem inserted_found {rest layers' : List Layer}
    (hinsert : insertLayer rest layer parentId index = .ok layers') (hdistinct : (ids layers').Nodup) :
    ∃ path list, targetList rest parentId = .ok path
      ∧ removeById layers' layer.value.id = some (layer, modifyList id path rest)
      ∧ listOf rest parentId = some list ∧ listOf layers' parentId = some (insertAt list layer index) := by
  obtain ⟨path, list, hpath, hlist, rfl⟩ := insertLayer_cases hinsert
  obtain ⟨k, hk, hinsertAt⟩ := insertAt_eq list layer index
  have hthere := list?_modifyList (fun list => insertAt list layer index) hlist
  have hget : get? (modifyList (fun list => insertAt list layer index) path rest) ⟨path, k⟩ = some layer := by
    rw [get?, hthere, Option.bind_some, hinsertAt, List.getElem?_insertIdx_self, if_pos hk]
  have hremove : remove (modifyList (fun list => insertAt list layer index) path rest) ⟨path, k⟩ = modifyList id path rest := by
    rw [remove, modifyList_modifyList]
    refine modifyList_congr hlist ?_
    rw [hinsertAt, List.eraseIdx_insertIdx_self, id]
  refine ⟨path, ?_⟩
  rw [removeById_of_get? hdistinct hget, hremove]
  cases parentId with
  | none =>
    cases hpath
    exact ⟨rest, rfl, rfl, rfl, rfl⟩
  | some parentId =>
    have htarget := hpath
    rw [targetList] at hpath
    split at hpath
    · cases hpath
    · rename_i position parent hfound
      split at hpath
      · cases hpath
      · cases hpath
        obtain ⟨hparent, hid⟩ := findLayer_sound hfound
        have hparent' := get?_modifyList_childList (fun list => insertAt list layer index) hparent
        have hfound' := findLayer_of_get? hdistinct hparent'
        rw [value_node, hid] at hfound'
        refine ⟨parent.kids, htarget, rfl, ?_, ?_⟩
        · rw [listOf, hfound, Option.map_some]
        · rw [listOf, hfound', Option.map_some, kids_node, Option.getD_some]

variable {doc doc' : PsdDoc}

/-- What `reorder` does when it does not throw. -/
theorem reorder_cases {layerId : String}
    (hdistinct : (ids doc.layers).Nodup) (h : reorder doc layerId parentId index = .ok doc') :
    ∃ position layer rest, findLayer doc.layers layerId = some (position, layer) ∧ layer.value.id = layerId
      ∧ removeById doc.layers layerId = some (layer, rest)
      ∧ insertLayer rest layer parentId index = .ok doc'.layers := by
  rw [reorder] at h
  split at h
  · cases h
  · rename_i position layer hfound
    obtain ⟨hget, hid⟩ := findLayer_sound hfound
    have hremove := removeById_of_get? hdistinct hget
    rw [hid] at hremove
    obtain ⟨_, _, hrest⟩ := bind_ok_iff.mp h
    rw [hremove] at hrest
    obtain ⟨layers, hinsert, hlast⟩ := bind_ok_iff.mp hrest
    rw [pure_ok_iff.mp hlast]
    exact ⟨position, layer, _, hfound, hid, hremove, hinsert⟩

theorem reorder_values {layerId : String}
    (hdistinct : (ids doc.layers).Nodup) (h : reorder doc layerId parentId index = .ok doc') :
    (values doc'.layers).Perm (values doc.layers) := by
  obtain ⟨position, layer, rest, _, _, hremove, hinsert⟩ := reorder_cases hdistinct h
  exact (insertLayer_values hinsert).trans (removeById_values hremove)

theorem movesSubtree_of_distinct {layerId : String}
    (hdistinct : (ids doc.layers).Nodup) (h : reorder doc layerId parentId index = .ok doc') :
    MovesSubtree doc doc' layerId parentId index := by
  have hvalues := reorder_values hdistinct h
  have hdistinct' : (ids doc'.layers).Nodup := (ids_perm hvalues).nodup_iff.mpr hdistinct
  obtain ⟨position, layer, rest, hfound, hid, hremove, hinsert⟩ := reorder_cases hdistinct h
  obtain ⟨path, list, hpath, hremove', hlist, hlist'⟩ := inserted_found hinsert hdistinct'
  rw [hid] at hremove'
  exact ⟨position, layer, rest, path, list, hfound, hremove, hpath, hremove', hlist, hlist', hvalues⟩

theorem layerIdentity_of_distinct {doc : PsdDoc} (hdistinct : (ids doc.layers).Nodup) : LayerIdentity doc where
  distinct := hdistinct
  lookups := lookupsAgree_of_distinct hdistinct
  reorder := fun _ _ _ _ h => movesSubtree_of_distinct hdistinct h

/-! ## Loaded documents -/

/-- The name of a layer as its identifier shows it. -/
def shownName (name : Option String) : List Char := replaceWhitespace false (name.getD "layer").toList

mutual

/-- What tells the layers below a layer apart. -/
def namesBelow {Extra : Type} : AgLayer Extra → List (Nat × List Char)
  | .node _ none => []
  | .node _ (some children) => layerNames children 0

/-- What tells the layers of a file apart: for each its index among its siblings, and its name. -/
def layerNames {Extra : Type} : List (AgLayer Extra) → Nat → List (Nat × List Char)
  | [], _ => []
  | layer :: layers, i => (i, shownName layer.value.name) :: (namesBelow layer ++ layerNames layers (i + 1))

end

theorem replaceWhitespace_append {start : List Char} (h : ∀ c ∈ start, isWhitespace c = false) (rest : List Char) :
    replaceWhitespace false (start ++ rest) = start ++ replaceWhitespace false rest := by
  induction start with
  | nil => rfl
  | cons c start ih =>
    have hc : isWhitespace c = false := h c List.mem_cons_self
    rw [List.cons_append, replaceWhitespace, hc, if_neg Bool.false_ne_true, List.cons_append,
      ih fun d hd => h d (List.mem_cons_of_mem _ hd)]

/-- The identifier that is made of an index and a name. -/
def idOf (key : Nat × List Char) : String := String.ofList ('l' :: (Nat.toDigits 10 key.1 ++ '_' :: key.2))

theorem not_whitespace_of_digit {c : Char} (h : c.isDigit = true) : isWhitespace c = false := by
  obtain ⟨hlow, hhigh⟩ := digit_toNat h
  simp only [isWhitespace, List.contains_cons, List.contains_nil, Bool.or_eq_false_iff, beq_eq_false_iff_ne,
    Bool.and_eq_false_iff, decide_eq_false_iff_not, and_true]
  omega

theorem layerId_eq (i : Nat) (name : Option String) : layerId i name = idOf (i, shownName name) := by
  have hstart : ∀ c ∈ 'l' :: (Nat.toDigits 10 i ++ ['_']), isWhitespace c = false := by
    intro c hc
    simp only [List.mem_cons, List.mem_append, List.not_mem_nil, or_false] at hc
    rcases hc with rfl | hc | rfl
    · decide
    · exact not_whitespace_of_digit (mem_toDigits_isDigit hc)
    · decide
  have htext : ("l" ++ toString i ++ "_" ++ name.getD "layer").toList =
      ('l' :: (Nat.toDigits 10 i ++ ['_'])) ++ (name.getD "layer").toList := by
    simp [Nat.toString_eq_repr, Nat.toList_repr]
  rw [layerId, htext, replaceWhitespace_append hstart, idOf, shownName]
  simp

theorem idOf_injective : Function.Injective idOf := by
  intro key key' h
  have hlist := String.ofList_injective h
  have hdigit : ∀ n, '_' ∉ Nat.toDigits 10 n := by
    intro n hmem
    exact absurd (mem_toDigits_isDigit hmem) (by decide)
  obtain ⟨hindex, hname⟩ := split_inj (hdigit _) (hdigit _) (List.cons.inj hlist).2
  exact Prod.ext (toDigits_injective hindex) hname

mutual

theorem ids_mapLayer {Extra : Type} (mapping : PropertyMapping Extra) (cw ch : Nat) : ∀ (layer : AgLayer Extra) (i : Nat),
    ids [mapLayer mapping cw ch layer i] = ((i, shownName layer.value.name) :: namesBelow layer).map idOf
  | .node a none, i => by simp [mapLayer, mapFields, layerId_eq, namesBelow]
  | .node a (some children), i => by
    simp [mapLayer, mapFields, layerId_eq, namesBelow, ids_mapLayers mapping cw ch children 0]

theorem ids_mapLayers {Extra : Type} (mapping : PropertyMapping Extra) (cw ch : Nat) :
    ∀ (layers : List (AgLayer Extra)) (i : Nat), ids (mapLayers mapping cw ch layers i) = (layerNames layers i).map idOf
  | [], i => by simp [mapLayers, layerNames]
  | layer :: layers, i => by
    calc ids (mapLayers mapping cw ch (layer :: layers) i) =
          ids ([mapLayer mapping cw ch layer i] ++ mapLayers mapping cw ch layers (i + 1)) := by
          rw [mapLayers, List.singleton_append]
      _ = ((i, shownName layer.value.name) :: namesBelow layer).map idOf ++ (layerNames layers (i + 1)).map idOf := by
          rw [ids_append, ids_mapLayer mapping cw ch layer i, ids_mapLayers mapping cw ch layers (i + 1)]
      _ = (layerNames (layer :: layers) i).map idOf := by rw [← List.map_append, layerNames, List.cons_append]

end

/-- A loaded document has distinct identifiers exactly when the layers of the file are told apart. -/
theorem distinct_load_iff {Extra : Type} {mapping : PropertyMapping Extra} {psd : AgPsd Extra} {doc : PsdDoc}
    (h : load mapping psd = .ok doc) : (ids doc.layers).Nodup ↔ (layerNames (psd.children.getD []) 0).Nodup := by
  rw [load] at h
  split at h
  · cases h
  · split at h
    · cases h
    · cases h
      rw [ids_mapLayers]
      exact List.nodup_map_iff idOf_injective

/-! ## Runs -/

/-- An inserted subtree brings identifiers that are distinct and, below its root, new to the document. -/
def FreshSubtree (doc : PsdDoc) (layer : Layer) : Prop :=
  (ids [layer]).Nodup ∧ ∀ id ∈ ids layer.kids, id ∉ ids doc.layers

instance (doc : PsdDoc) (layer : Layer) : Decidable (FreshSubtree doc layer) := inferInstanceAs (Decidable (_ ∧ _))

/-- An operation that inserts layers brings identifiers of their own, and one that replaces the document distinct ones. -/
def FreshOp (doc : PsdDoc) : PsdOp → Prop
  | .init _ (.array layers) => (ids layers).Nodup
  | .addLayer layer _ _ => FreshSubtree doc layer
  | .generativeFill layer _ _ _ => FreshSubtree doc layer
  | _ => True

instance (doc : PsdDoc) : (op : PsdOp) → Decidable (FreshOp doc op)
  | .init _ (.array layers) => inferInstanceAs (Decidable (ids layers).Nodup)
  | .addLayer layer _ _ => inferInstanceAs (Decidable (FreshSubtree doc layer))
  | .generativeFill layer _ _ _ => inferInstanceAs (Decidable (FreshSubtree doc layer))
  | .init _ .absent | .init _ .notArray | .removeLayer _ | .reorder _ _ _ | .setProps _ _ | .crop _ _ _ _ | .transform _ _
  | .adjust _ _ | .maskEdit _ _ | .setText _ | .unknown _ => inferInstanceAs (Decidable True)

/-- An operation that does not throw brings such identifiers. -/
def FreshStep (doc : PsdDoc) (op : PsdOp) : Prop := (applyOne doc op).toOption.isSome → FreshOp doc op

instance (doc : PsdDoc) (op : PsdOp) : Decidable (FreshStep doc op) := inferInstanceAs (Decidable (_ → _))

theorem distinct_addLayer
    (hdistinct : (ids doc.layers).Nodup) (hfresh : FreshSubtree doc layer)
    (h : addLayer doc layer parentId index = .ok doc') : (ids doc'.layers).Nodup := by
  obtain ⟨hperm, hroot⟩ := addLayer_ids h
  rw [hperm.nodup_iff, List.nodup_append]
  refine ⟨hfresh.1, hdistinct, ?_⟩
  intro id hid id' hid' heq
  subst heq
  rw [ids_cons, ids_nil, List.append_nil, List.mem_cons] at hid
  rcases hid with rfl | hbelow
  · exact hroot hid'
  · exact hfresh.2 id hbelow hid'

/-- An operation that does not throw keeps the identifiers distinct. -/
theorem distinct_applyOne {op : PsdOp} (hdistinct : (ids doc.layers).Nodup) (hfresh : FreshOp doc op)
    (h : applyOne doc op = .ok doc') : (ids doc'.layers).Nodup := by
  have keep : (ids doc'.layers).Perm (ids doc.layers) → (ids doc'.layers).Nodup := fun hperm => hperm.nodup_iff.mpr hdistinct
  cases op with
  | init canvas layers =>
    obtain ⟨_, _, hrest⟩ := bind_ok_iff.mp h
    obtain ⟨_, _, hrest⟩ := bind_ok_iff.mp hrest
    obtain ⟨_, _, hrest⟩ := bind_ok_iff.mp hrest
    cases layers with
    | absent =>
      cases hrest
      simp
    | notArray => cases hrest
    | array layers =>
      cases hrest
      exact hfresh
  | addLayer layer parentId index => exact distinct_addLayer hdistinct hfresh h
  | removeLayer layerId =>
    rw [applyOne, removeLayer] at h
    split at h
    · cases h
    · rename_i layer layers hremove
      cases h
      have hperm : (ids ([layer] ++ layers)).Perm (ids doc.layers) := by
        refine ids_perm ?_
        rw [values_append]
        exact removeById_values hremove
      have hall := hperm.nodup_iff.mpr hdistinct
      rw [ids_append] at hall
      exact (List.nodup_append.mp hall).2.1
  | reorder layerId parentId index => exact keep (ids_perm (reorder_values hdistinct h))
  | setProps layerId props => exact keep (editLayer_ids (editFields_ids foldlM_setProp_id) h)
  | crop top left bottom right =>
    cases h
    refine keep ?_
    rw [crop, shiftLayers_ids]
  | transform layerId op =>
    refine keep (editLayer_ids ?_ h)
    intro layer layer' hedit
    obtain ⟨_, _, hrest⟩ := bind_ok_iff.mp hedit
    rw [editFields_ids flipFields_id hrest]
    split
    · exact shiftLayer_ids _ _ layer
    · rfl
  | adjust layerId params =>
    refine keep (editLayer_ids (editFields_ids ?_) h)
    intro fields fields' hedit
    obtain ⟨_, _, hlast⟩ := bind_ok_iff.mp hedit
    rw [pure_ok_iff.mp hlast]
    rfl
  | maskEdit layerId mask =>
    refine keep (editLayer_ids (editFields_ids ?_) h)
    intro fields fields' hedit
    cases hedit
    rfl
  | generativeFill layer parentId index provenance =>
    obtain ⟨_, _, hadd⟩ := bind_ok_iff.mp h
    refine distinct_addLayer hdistinct ?_ hadd
    obtain ⟨fields, children⟩ := layer
    simpa [FreshSubtree, FreshOp, LayerFields.set] using hfresh
  | setText payload =>
    obtain ⟨edited, hedit, hlast⟩ := bind_ok_iff.mp h
    refine keep ?_
    have hlayers : doc'.layers = edited.layers := by
      rw [pure_ok_iff.mp hlast]
      split <;> rfl
    rw [hlayers]
    exact editLayer_ids (editFields_ids setTextFields_id) hedit
  | unknown kind => cases h

theorem distinct_step (doc : PsdDoc) (op : PsdOp) (hdistinct : (ids doc.layers).Nodup) (hfresh : FreshStep doc op) :
    (ids (step doc op).layers).Nodup := by
  rw [step]
  split
  · rename_i doc' h
    exact distinct_applyOne hdistinct (hfresh (by rw [h]; rfl)) h
  · exact hdistinct

/-- In every run from a loaded file whose layers are told apart by their index among their siblings and their name, in which
every subtree that is inserted brings identifiers of its own, the identifiers of every document are distinct, the lookups
denote one layer, and `reorder` moves the subtree it names. -/
theorem layer_identity_of_fresh {Extra : Type} (mapping : PropertyMapping Extra) (psd : AgPsd Extra) (doc : PsdDoc)
    (hload : load mapping psd = .ok doc) (hnames : (layerNames (psd.children.getD []) 0).Nodup) (ops : List PsdOp)
    (hfresh : Machine.Guarded step FreshStep doc ops) : ∀ d ∈ Machine.states step doc ops, LayerIdentity d := by
  intro d hd
  have hstart := (distinct_load_iff hload).mpr hnames
  exact layerIdentity_of_distinct (Machine.invariant_rule distinct_step hstart hfresh d hd)

/-- A mapping that keeps no property. -/
def plainMapping : PropertyMapping Unit where
  type := fun _ => .raster
  props := fun _ _ _ _ => []

/-- A file with the given layers. -/
def plainFile (children : List (AgLayer Unit)) : AgPsd Unit where
  width := 1
  height := 1
  bitsPerChannel := some 8
  colorMode := some 3
  children := some children

/-- A layer of a file. -/
def plainLayer (name : String) (children : Option (List (AgLayer Unit))) : AgLayer Unit := .node ⟨some name, ()⟩ children

/-- The properties of a group that can be inserted. -/
def plainGroup (id : String) : LayerFields where
  id := id
  type := .group
  props := [("bounds", .array [natValue 0, natValue 0, natValue 1, natValue 1])]

/-- A group with a child is inserted into the group of a file, and moved to the front of the document. -/
theorem layer_identity_of_fresh_moved_group : ∃ doc,
    load plainMapping (plainFile [plainLayer "a" (some [plainLayer "b" none])]) = .ok doc ∧
      ∀ d ∈ Machine.states step doc
        [.addLayer (.node (plainGroup "g") (some [.node (plainGroup "h") none])) (some "l0_a") none, .reorder "g" none (some 0)],
        LayerIdentity d := by
  refine ⟨_, rfl, ?_⟩
  apply layer_identity_of_fresh plainMapping (plainFile [plainLayer "a" (some [plainLayer "b" none])]) _ rfl
  · decide
  · decide

/-- Two groups that each hold a first layer of one name give a document with two layers of one identifier. -/
theorem layer_identity_false : ¬ ∀ (mapping : PropertyMapping Unit) (psd : AgPsd Unit) (doc : PsdDoc) (ops : List PsdOp),
    load mapping psd = .ok doc → ∀ d ∈ Machine.states step doc ops, LayerIdentity d := by
  intro h
  let psd := plainFile [plainLayer "a" (some [plainLayer "c" none]), plainLayer "b" (some [plainLayer "c" none])]
  have hload : load plainMapping psd = .ok ⟨_, mapLayers plainMapping 1 1 (psd.children.getD []) 0, none⟩ := rfl
  have hdistinct := (h plainMapping psd _ [] hload _ (List.mem_singleton.mpr rfl)).distinct
  rw [distinct_load_iff hload] at hdistinct
  revert hdistinct
  decide

end UniDocs.Psd
