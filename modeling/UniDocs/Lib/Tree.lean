import Mathlib.Data.List.Perm.Basic
import Mathlib.Data.List.Nodup

/-!
# Trees with optional child lists

A forest is a list of trees whose nodes may have a list of children. A place in a forest is named as by a pointer to a list
and an index in it: the list by the indices of the nodes that lead to it. What is known of a forest after an edit of one of
its lists is said through the values of its nodes, in preorder and up to their order.
-/

namespace Lib

/-- A node with its value; the list of children may be missing, which is not the same as an empty one. -/
inductive RoseTree (α : Type) where
  | node (value : α) (children : Option (List (RoseTree α)))

/-- A place in a forest: the way to a list, and an index in that list. -/
structure Position where
  list : List Nat
  index : Nat
  deriving DecidableEq, Repr

namespace Position

/-- The position of a node that is found among the children of the first tree. -/
def inFirst (position : Position) : Position := ⟨0 :: position.list, position.index⟩

/-- The position of a node that is found in the trees after the first. -/
def inRest : Position → Position
  | ⟨[], index⟩ => ⟨[], index + 1⟩
  | ⟨i :: path, index⟩ => ⟨(i + 1) :: path, index⟩

/-- The index of the tree of the forest that holds the position. -/
def top (position : Position) : Nat := position.list.headD position.index

/-- The way to the list of children of the node at the position. -/
def childList (position : Position) : List Nat := position.list ++ [position.index]

theorem cases_on (position : Position) :
    position = ⟨[], 0⟩ ∨ (∃ p, position = inFirst p) ∨ ∃ p, position = inRest p := by
  obtain ⟨list, index⟩ := position
  cases list with
  | nil =>
    cases index with
    | zero => exact .inl rfl
    | succ index => exact .inr (.inr ⟨⟨[], index⟩, rfl⟩)
  | cons i path =>
    cases i with
    | zero => exact .inr (.inl ⟨⟨path, index⟩, rfl⟩)
    | succ i => exact .inr (.inr ⟨⟨i :: path, index⟩, rfl⟩)

@[simp]
theorem top_inFirst (position : Position) : position.inFirst.top = 0 := rfl

@[simp]
theorem top_inRest (position : Position) : position.inRest.top = position.top + 1 := by
  obtain ⟨list, index⟩ := position
  cases list <;> rfl

end Position

namespace RoseTree

variable {α β : Type}

def value : RoseTree α → α
  | node value _ => value

def children : RoseTree α → Option (List (RoseTree α))
  | node _ children => children

/-- The children of a node, none where there is no list. -/
def kids (t : RoseTree α) : List (RoseTree α) := t.children.getD []

@[simp]
theorem value_node (value : α) (children : Option (List (RoseTree α))) : (node value children).value = value := rfl

@[simp]
theorem children_node (value : α) (children : Option (List (RoseTree α))) : (node value children).children = children := rfl

@[simp]
theorem kids_node (value : α) (children : Option (List (RoseTree α))) : (node value children).kids = children.getD [] := rfl

mutual

/-- The values of the nodes below a node in preorder. -/
def valuesBelow : RoseTree α → List α
  | node _ none => []
  | node _ (some children) => values children

/-- The values of the nodes of a forest in preorder. -/
def values : List (RoseTree α) → List α
  | [] => []
  | t :: ts => t.value :: (valuesBelow t ++ values ts)

end

theorem forest_induction {P : List (RoseTree α) → Prop} (nil : P [])
    (cons : ∀ value children rest, P (children.getD []) → P rest → P (node value children :: rest)) : ∀ ts, P ts
  | [] => nil
  | node value none :: rest => cons value none rest nil (forest_induction nil cons rest)
  | node value (some children) :: rest =>
    cons value (some children) rest (forest_induction nil cons children) (forest_induction nil cons rest)

@[simp]
theorem values_nil : values ([] : List (RoseTree α)) = [] := by rw [values]

theorem valuesBelow_eq (t : RoseTree α) : valuesBelow t = values t.kids := by
  obtain ⟨value, children⟩ := t
  cases children with
  | none => rw [valuesBelow, kids_node, Option.getD_none, values_nil]
  | some children => rw [valuesBelow, kids_node, Option.getD_some]

@[simp]
theorem values_cons (t : RoseTree α) (ts : List (RoseTree α)) : values (t :: ts) = t.value :: (values t.kids ++ values ts) := by
  rw [values, valuesBelow_eq]

@[simp]
theorem values_append (ts us : List (RoseTree α)) : values (ts ++ us) = values ts ++ values us := by
  induction ts with
  | nil => rw [List.nil_append, values_nil, List.nil_append]
  | cons t ts ih => rw [List.cons_append, values_cons, values_cons, ih, List.cons_append, List.append_assoc]

/-! ## Places -/

/-- The list of trees a path leads to. -/
def list? : List (RoseTree α) → List Nat → Option (List (RoseTree α))
  | ts, [] => some ts
  | ts, i :: path => ts[i]?.bind fun t => list? t.kids path

/-- The tree at a position. -/
def get? (ts : List (RoseTree α)) (position : Position) : Option (RoseTree α) :=
  (list? ts position.list).bind fun us => us[position.index]?

@[simp]
theorem get?_first (t : RoseTree α) (ts : List (RoseTree α)) : get? (t :: ts) ⟨[], 0⟩ = some t := rfl

@[simp]
theorem get?_inFirst (t : RoseTree α) (ts : List (RoseTree α)) (p : Position) : get? (t :: ts) p.inFirst = get? t.kids p := rfl

@[simp]
theorem get?_inRest (t : RoseTree α) (ts : List (RoseTree α)) (p : Position) : get? (t :: ts) p.inRest = get? ts p := by
  obtain ⟨list, index⟩ := p
  cases list <;> rfl

@[simp]
theorem get?_nil (p : Position) : get? ([] : List (RoseTree α)) p = none := by
  obtain ⟨list, index⟩ := p
  cases list <;> rfl

theorem list?_childList (ts : List (RoseTree α)) (p : Position) : list? ts p.childList = (get? ts p).map kids := by
  obtain ⟨list, index⟩ := p
  rw [Position.childList]
  induction list generalizing ts with
  | nil =>
    show ts[index]?.bind (fun t => some t.kids) = (get? ts ⟨[], index⟩).map kids
    cases h : ts[index]? with
    | none => simp [get?, list?, h]
    | some t => simp [get?, list?, h]
  | cons i path ih =>
    show ts[i]?.bind (fun t => list? t.kids (path ++ [index])) = (get? ts ⟨i :: path, index⟩).map kids
    cases h : ts[i]? with
    | none => simp [get?, list?, h]
    | some t =>
      have hnext := ih t.kids
      simpa [get?, list?, h] using hnext

/-- The value of a node that is found in a forest is one of the forest's. -/
theorem value_mem_values {ts : List (RoseTree α)} : ∀ {p : Position} {t : RoseTree α}, get? ts p = some t → t.value ∈ values ts := by
  induction ts using forest_induction with
  | nil =>
    intro p t h
    rw [get?_nil] at h
    cases h
  | cons value children rest ihc ihr =>
    intro p t h
    rw [values_cons]
    rcases p.cases_on with rfl | ⟨q, rfl⟩ | ⟨q, rfl⟩
    · rw [get?_first, Option.some.injEq] at h
      subst h
      exact List.mem_cons_self
    · rw [get?_inFirst] at h
      exact List.mem_cons_of_mem _ (List.mem_append_left _ (ihc h))
    · rw [get?_inRest] at h
      exact List.mem_cons_of_mem _ (List.mem_append_right _ (ihr h))

theorem position_unique {key : α → β} {ts : List (RoseTree α)} : ∀ {p q : Position} {t u : RoseTree α},
    ((values ts).map key).Nodup → get? ts p = some t → get? ts q = some u → key t.value = key u.value → p = q := by
  induction ts using forest_induction with
  | nil =>
    intro p q t u _ h
    rw [get?_nil] at h
    cases h
  | cons value children rest ihc ihr =>
    intro p q t u hnodup hp hq hkey
    rw [values_cons, List.map_cons, List.map_append, List.nodup_cons, List.nodup_append] at hnodup
    obtain ⟨hfirst, hkids, hrest, hdisjoint⟩ := hnodup
    have notBelow : ∀ {r v}, get? (node value children).kids r = some v → key v.value ≠ key value := by
      intro r v hv heq
      exact hfirst (heq ▸ List.mem_append_left _ (List.mem_map_of_mem (value_mem_values hv)))
    have notAfter : ∀ {r v}, get? rest r = some v → key v.value ≠ key value := by
      intro r v hv heq
      exact hfirst (heq ▸ List.mem_append_right _ (List.mem_map_of_mem (value_mem_values hv)))
    have apart : ∀ {r v r' v'}, get? (node value children).kids r = some v → get? rest r' = some v' →
        key v.value ≠ key v'.value := by
      intro r v r' v' hv hv'
      exact hdisjoint _ (List.mem_map_of_mem (value_mem_values hv)) _ (List.mem_map_of_mem (value_mem_values hv'))
    rcases p.cases_on with rfl | ⟨p, rfl⟩ | ⟨p, rfl⟩ <;> rcases q.cases_on with rfl | ⟨q, rfl⟩ | ⟨q, rfl⟩ <;>
      simp only [get?_first, get?_inFirst, get?_inRest, Option.some.injEq] at hp hq
    · rfl
    · subst hp
      exact absurd hkey.symm (notBelow hq)
    · subst hp
      exact absurd hkey.symm (notAfter hq)
    · subst hq
      exact absurd hkey (notBelow hp)
    · rw [ihc hkids hp hq hkey]
    · exact absurd hkey (apart hp hq)
    · subst hq
      exact absurd hkey (notAfter hp)
    · exact absurd hkey.symm (apart hq hp)
    · rw [ihr hrest hp hq hkey]

/-! ## Edits of one list -/

/-- Replaces the list a path leads to; a node on the way has a list of children afterwards. -/
def modifyList (f : List (RoseTree α) → List (RoseTree α)) : List Nat → List (RoseTree α) → List (RoseTree α)
  | [], ts => f ts
  | i :: path, ts => ts.modify i fun t => node t.value (some (modifyList f path t.kids))

/-- Takes the tree at a position out. -/
def remove (ts : List (RoseTree α)) (position : Position) : List (RoseTree α) :=
  modifyList (fun us => us.eraseIdx position.index) position.list ts

/-- Replaces the tree at a position. -/
def modifyAt (f : RoseTree α → RoseTree α) (position : Position) (ts : List (RoseTree α)) : List (RoseTree α) :=
  modifyList (fun us => us.modify position.index f) position.list ts

theorem modifyAt_first (f : RoseTree α → RoseTree α) (t : RoseTree α) (ts : List (RoseTree α)) :
    modifyAt f ⟨[], 0⟩ (t :: ts) = f t :: ts := rfl

theorem modifyAt_inFirst (f : RoseTree α → RoseTree α) (t : RoseTree α) (ts : List (RoseTree α)) (p : Position) :
    modifyAt f p.inFirst (t :: ts) = node t.value (some (modifyAt f p t.kids)) :: ts := rfl

theorem modifyAt_inRest (f : RoseTree α → RoseTree α) (t : RoseTree α) (ts : List (RoseTree α)) (p : Position) :
    modifyAt f p.inRest (t :: ts) = t :: modifyAt f p ts := by
  obtain ⟨list, index⟩ := p
  cases list <;> rfl

theorem list?_modifyList (f : List (RoseTree α) → List (RoseTree α)) {ts us : List (RoseTree α)} {path : List Nat}
    (h : list? ts path = some us) : list? (modifyList f path ts) path = some (f us) := by
  induction path generalizing ts with
  | nil =>
    rw [list?, Option.some.injEq] at h
    rw [modifyList, list?, h]
  | cons i path ih =>
    rw [list?, Option.bind_eq_some_iff] at h
    obtain ⟨t, ht, hlist⟩ := h
    rw [modifyList, list?, List.getElem?_modify_eq, ht]
    exact ih hlist

/-- Only the list that is there matters to an edit. -/
theorem modifyList_congr {f g : List (RoseTree α) → List (RoseTree α)} {ts us : List (RoseTree α)} {path : List Nat}
    (h : list? ts path = some us) (hfg : f us = g us) : modifyList f path ts = modifyList g path ts := by
  induction path generalizing ts with
  | nil =>
    rw [list?, Option.some.injEq] at h
    rw [modifyList, modifyList, h, hfg]
  | cons i path ih =>
    rw [list?, Option.bind_eq_some_iff] at h
    obtain ⟨t, ht, hlist⟩ := h
    rw [modifyList, modifyList]
    apply List.ext_getElem?
    intro j
    rw [List.getElem?_modify, List.getElem?_modify]
    by_cases hij : i = j
    · subst hij
      simp [ht, ih hlist]
    · simp [hij]

/-- Two edits of one list are one edit. -/
theorem modifyList_modifyList (f g : List (RoseTree α) → List (RoseTree α)) (path : List Nat) (ts : List (RoseTree α)) :
    modifyList f path (modifyList g path ts) = modifyList (fun us => f (g us)) path ts := by
  induction path generalizing ts with
  | nil => rfl
  | cons i path ih =>
    rw [modifyList, modifyList, modifyList, List.modify_modify_eq]
    congr 1
    funext t
    simp only [Function.comp, value_node, kids_node, Option.getD_some, ih]

theorem values_modifyList {f : List (RoseTree α) → List (RoseTree α)} {ts us : List (RoseTree α)} {path : List Nat} {old new : List α}
    (h : list? ts path = some us) (hf : (old ++ values (f us)).Perm (new ++ values us)) :
    (old ++ values (modifyList f path ts)).Perm (new ++ values ts) := by
  induction path generalizing ts with
  | nil =>
    rw [list?, Option.some.injEq] at h
    rw [modifyList, h]
    exact hf
  | cons i path ih =>
    rw [list?, Option.bind_eq_some_iff] at h
    obtain ⟨t, ht, hlist⟩ := h
    obtain ⟨hi, hget⟩ := List.getElem?_eq_some_iff.mp ht
    have hsplit : ts = ts.take i ++ t :: ts.drop (i + 1) := by
      rw [← hget, List.getElem_cons_drop, List.take_append_drop]
    have hkids := ih hlist
    classical
    rw [List.perm_iff_count] at hkids ⊢
    intro a
    have hcount := hkids a
    have hvalues := congrArg (fun l => List.count a (values l)) hsplit
    rw [modifyList, List.modify_eq_take_cons_drop hi, hget]
    simp only [values_append, values_cons, value_node, kids_node, Option.getD_some, List.count_append, List.count_cons]
      at hcount hvalues ⊢
    omega

/-- The order of the trees does not matter to the values, up to their order. -/
theorem values_perm {ts us : List (RoseTree α)} (h : ts.Perm us) : (values ts).Perm (values us) := by
  have hflat : ∀ l : List (RoseTree α), values l = l.flatMap fun t => t.value :: values t.kids := by
    intro l
    induction l with
    | nil => rw [values_nil, List.flatMap_nil]
    | cons t l ih => rw [values_cons, List.flatMap_cons, ih, List.cons_append]
  rw [hflat, hflat]
  exact h.flatMap_right _

theorem values_remove {ts : List (RoseTree α)} {position : Position} {t : RoseTree α} (h : get? ts position = some t) :
    (values [t] ++ values (remove ts position)).Perm (values ts) := by
  obtain ⟨us, hlist, hget⟩ := Option.bind_eq_some_iff.mp h
  obtain ⟨hlt, rfl⟩ := List.getElem?_eq_some_iff.mp hget
  have hforest : (values [us[position.index]] ++ values (remove ts position)).Perm ([] ++ values ts) := by
    refine values_modifyList hlist ?_
    rw [List.nil_append, ← values_append]
    exact values_perm (List.getElem_cons_eraseIdx_perm hlt)
  exact hforest

theorem values_modifyAt {ts : List (RoseTree α)} {position : Position} {t u : RoseTree α} (h : get? ts position = some t) :
    (values [t] ++ values (modifyAt (fun _ => u) position ts)).Perm (values [u] ++ values ts) := by
  obtain ⟨us, hlist, hget⟩ := Option.bind_eq_some_iff.mp h
  obtain ⟨hlt, rfl⟩ := List.getElem?_eq_some_iff.mp hget
  refine values_modifyList hlist ?_
  rw [← values_append, ← values_append]
  apply values_perm
  have hsplit : us = us.take position.index ++ us[position.index] :: us.drop (position.index + 1) := by
    rw [List.getElem_cons_drop, List.take_append_drop]
  classical
  rw [List.perm_iff_count]
  intro a
  have hcount := congrArg (List.count a) hsplit
  rw [List.modify_eq_take_cons_drop hlt]
  simp only [List.count_append, List.count_cons, List.count_nil] at hcount ⊢
  omega

/-- An edit of the children of a node leaves the node itself where it was. -/
theorem get?_modifyList_childList (f : List (RoseTree α) → List (RoseTree α)) {ts : List (RoseTree α)} {position : Position} {t : RoseTree α}
    (h : get? ts position = some t) :
    get? (modifyList f position.childList ts) position = some (node t.value (some (f t.kids))) := by
  obtain ⟨list, index⟩ := position
  rw [Position.childList]
  induction list generalizing ts with
  | nil =>
    have hget : ts[index]? = some t := h
    show (ts.modify index _)[index]? = _
    rw [List.getElem?_modify_eq, hget]
    rfl
  | cons i path ih =>
    obtain ⟨us, hlist, hget⟩ := Option.bind_eq_some_iff.mp h
    obtain ⟨v, hv, hbelow⟩ := Option.bind_eq_some_iff.mp hlist
    have hnext : get? v.kids ⟨path, index⟩ = some t := Option.bind_eq_some_iff.mpr ⟨us, hbelow, hget⟩
    rw [List.cons_append, modifyList, get?, list?, List.getElem?_modify_eq, hv]
    exact ih hnext

end RoseTree

end Lib
