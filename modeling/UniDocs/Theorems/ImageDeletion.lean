import UniDocs.Docx.ImageOps

/-!
# Image deletion

The deletion of an image takes out the element above its drawing. What the walk collects and the text nodes of a forest are
lists in document order, and the element that goes is one segment of each: the deletion is exact when both segments hold
nothing but the deleted container.
-/

namespace UniDocs.Docx

open Lib

/-! ## Taking a node out of a forest -/

theorem remove_first (t : XmlNode) (ts : List XmlNode) : RoseTree.remove (t :: ts) ⟨[], 0⟩ = ts := rfl

theorem remove_inFirst (t : XmlNode) (ts : List XmlNode) (p : Position) :
    RoseTree.remove (t :: ts) p.inFirst = .node t.value (some (RoseTree.remove t.kids p)) :: ts := rfl

theorem remove_inRest (t : XmlNode) (ts : List XmlNode) (p : Position) :
    RoseTree.remove (t :: ts) p.inRest = t :: RoseTree.remove ts p := by
  obtain ⟨list, index⟩ := p
  cases list <;> rfl

theorem texts_append (ts us : List XmlNode) : texts (ts ++ us) = texts ts ++ texts us := by
  induction ts with
  | nil => simp [texts]
  | cons t ts ih => simp [texts, ih]

theorem textsAt_element {label : XmlLabel} {children : List XmlNode} (h : label.isElement = true) :
    textsAt (.node label (some children)) = texts children := by
  cases label with
  | element ns name attributes => rw [textsAt]
  | text content => cases h
  | other => cases h

theorem isElement_of_named {label : XmlLabel} {ns name : String} (h : label.named ns name = true) : label.isElement = true := by
  cases label with
  | element => rfl
  | text content => cases h
  | other => cases h

theorem drawingContainers_spec {label : XmlLabel} {children : List XmlNode} (rest : List XmlNode) {c : ImageContainer}
    (hlabel : label.isElement = true) (h : c ∈ drawingContainers children) :
    c.run = none ∧ ∃ u v, texts (.node label (some children) :: rest) = u ++ textsAt c.container ++ v ∧
      texts (RoseTree.remove (.node label (some children) :: rest) c.place) = u ++ v := by
  obtain ⟨⟨node, j⟩, hmem, rfl⟩ := List.mem_map.mp h
  have hget : children[j]? = some node := List.mem_zipIdx_iff_getElem?.mp (List.mem_of_mem_filter hmem)
  obtain ⟨hj, hnode⟩ := List.getElem?_eq_some_iff.mp hget
  have hsplit : children = children.take j ++ node :: children.drop (j + 1) := by
    rw [← hnode, List.getElem_cons_drop, List.take_append_drop]
  have herase : children.eraseIdx j = children.take j ++ children.drop (j + 1) := List.eraseIdx_eq_take_drop_succ ..
  refine ⟨rfl, texts (children.take j), texts (children.drop (j + 1)) ++ texts rest, ?_, ?_⟩
  · rw [texts, textsAt_element hlabel]
    conv_lhs => rw [hsplit]
    rw [texts_append, texts]
    simp
  · have hremove : RoseTree.remove (.node label (some children) :: rest) ⟨[0], j⟩ =
        .node label (some (children.eraseIdx j)) :: rest := rfl
    rw [hremove, texts, textsAt_element hlabel, herase, texts_append, List.append_assoc]

/-- What the walk knows of a container whose run is the element whose children the forest is. -/
structure AtTop (ts : List XmlNode) (c : ImageContainer) : Prop where
  texts : ∃ u v, texts ts = u ++ textsAt c.container ++ v ∧ Docx.texts (RoseTree.remove ts c.place) = u ++ v

/-- What the walk knows of a container whose run is in the forest: the run is one segment of the containers and one of the
texts, the container is one segment of the run's texts. -/
structure Below (ts : List XmlNode) (k : Nat) (c : ImageContainer) (run : Position) : Prop where
  split : ∃ el a b x y u v, RoseTree.get? ts run = some el ∧
    (walk ts).map (·.container) = a ++ (walk el.kids).map (·.container) ++ b ∧
    (walk (RoseTree.remove ts run)).map (·.container) = a ++ b ∧ a.length ≤ k ∧ k < a.length + (walk el.kids).length ∧
    texts ts = x ++ texts el.kids ++ y ∧ texts (RoseTree.remove ts run) = x ++ y ∧
    texts el.kids = u ++ textsAt c.container ++ v ∧ texts (RoseTree.remove ts c.place) = x ++ (u ++ v) ++ y

theorem container_inRest (c : ImageContainer) : c.inRest.container = c.container := rfl

theorem map_container_inFirst (l : List ImageContainer) :
    (l.map ImageContainer.inFirst).map (·.container) = l.map (·.container) := by
  rw [List.map_map]
  rfl

theorem map_container_inRest (l : List ImageContainer) :
    (l.map ImageContainer.inRest).map (·.container) = l.map (·.container) := by
  rw [List.map_map]
  rfl

theorem walkChild_element {label : XmlLabel} {children : List XmlNode} (hdrawing : label.named wmlNs "drawing" = false)
    (helement : label.isElement = true) :
    walkChild (.node label (some children)) = (walk children).map ImageContainer.inFirst := by
  rw [walkChild, hdrawing, helement]
  simp

theorem below_first {label : XmlLabel} {children rest : List XmlNode} {k : Nat} {c : ImageContainer}
    (hdrawing : label.named wmlNs "drawing" = false) (helement : label.isElement = true) (hk : (walk children)[k]? = some c)
    (h : (c.run = none ∧ AtTop children c) ∨ ∃ run, c.run = some run ∧ Below children k c run) :
    ∃ run, c.inFirst.run = some run ∧ Below (.node label (some children) :: rest) k c.inFirst run := by
  have hwalk : ∀ us : List XmlNode, (walk (.node label (some us) :: rest)).map (·.container) =
      (walk us).map (·.container) ++ (walk rest).map (·.container) := by
    intro us
    rw [walk, walkChild_element hdrawing helement, List.map_append, map_container_inFirst, map_container_inRest]
  have htexts : ∀ us : List XmlNode, texts (.node label (some us) :: rest) = texts us ++ texts rest := by
    intro us
    rw [texts, textsAt_element helement]
  have hplace : texts (RoseTree.remove (.node label (some children) :: rest) c.inFirst.place) =
      texts (RoseTree.remove children c.place) ++ texts rest := by
    show texts (RoseTree.remove (.node label (some children) :: rest) c.place.inFirst) = _
    rw [remove_inFirst, RoseTree.value_node, RoseTree.kids_node, Option.getD_some, htexts]
  rcases h with ⟨hrun, htop⟩ | ⟨run, hrun, hbelow⟩
  · obtain ⟨u, v, htext, houtside⟩ := htop.texts
    refine ⟨⟨[], 0⟩, by rw [ImageContainer.inFirst, hrun], ⟨.node label (some children), [], (walk rest).map (·.container), [],
      texts rest, u, v, rfl, by simp [hwalk], by simp [remove_first], by simp, ?_, by simp [htexts], by simp [remove_first],
      htext, ?_⟩⟩
    · obtain ⟨hlt, -⟩ := List.getElem?_eq_some_iff.mp hk
      simpa using hlt
    · rw [hplace, houtside]
      simp
  · obtain ⟨el, a, b, x, y, u, v, hget, hsplit, hremove, hle, hlt, htext, hrest, hrunText, houtside⟩ := hbelow.split
    refine ⟨run.inFirst, by rw [ImageContainer.inFirst, hrun], ⟨el, a, b ++ (walk rest).map (·.container), x, y ++ texts rest, u, v,
      by simpa using hget, ?_, ?_, hle, hlt, ?_, ?_, hrunText, ?_⟩⟩
    · rw [hwalk, hsplit]
      simp
    · rw [remove_inFirst, RoseTree.value_node, RoseTree.kids_node, Option.getD_some, hwalk, hremove]
      simp
    · rw [htexts, htext]
      simp
    · rw [remove_inFirst, RoseTree.value_node, RoseTree.kids_node, Option.getD_some, htexts, hrest]
      simp
    · rw [hplace, houtside]
      simp

theorem found_inRest {t : XmlNode} {rest : List XmlNode} {k : Nat} {c : ImageContainer}
    (h : (c.run = none ∧ AtTop rest c) ∨ ∃ run, c.run = some run ∧ Below rest k c run) :
    (c.inRest.run = none ∧ AtTop (t :: rest) c.inRest) ∨
      ∃ run, c.inRest.run = some run ∧ Below (t :: rest) ((walkChild t).length + k) c.inRest run := by
  have hplace : texts (RoseTree.remove (t :: rest) c.inRest.place) = textsAt t ++ texts (RoseTree.remove rest c.place) := by
    show texts (RoseTree.remove (t :: rest) c.place.inRest) = _
    rw [remove_inRest, texts]
  have hwalk : ∀ us : List XmlNode, (walk (t :: us)).map (·.container) =
      (walkChild t).map (·.container) ++ (walk us).map (·.container) := by
    intro us
    rw [walk, List.map_append, map_container_inRest]
  rcases h with ⟨hrun, htop⟩ | ⟨run, hrun, hbelow⟩
  · obtain ⟨u, v, htext, houtside⟩ := htop.texts
    refine .inl ⟨by rw [ImageContainer.inRest, hrun]; rfl, ⟨textsAt t ++ u, v, ?_, ?_⟩⟩
    · rw [texts, htext, container_inRest]
      simp
    · rw [hplace, houtside]
      simp
  · obtain ⟨el, a, b, x, y, u, v, hget, hsplit, hremove, hle, hlt, htext, hrest, hrunText, houtside⟩ := hbelow.split
    refine .inr ⟨run.inRest, by rw [ImageContainer.inRest, hrun]; rfl, ⟨el, (walkChild t).map (·.container) ++ a, b,
      textsAt t ++ x, y, u, v, by simpa using hget, ?_, ?_, by simp; omega, by simp; omega, ?_, ?_, hrunText, ?_⟩⟩
    · rw [hwalk, hsplit]
      simp
    · rw [remove_inRest, hwalk, hremove]
      simp
    · rw [texts, htext]
      simp
    · rw [remove_inRest, texts, hrest]
      simp
    · rw [hplace, houtside]
      simp

theorem walk_spec (ts : List XmlNode) : ∀ {k : Nat} {c : ImageContainer}, (walk ts)[k]? = some c →
    (c.run = none ∧ AtTop ts c) ∨ ∃ run, c.run = some run ∧ Below ts k c run := by
  induction ts using RoseTree.forest_induction with
  | nil =>
    intro k c h
    simp [walk] at h
  | cons label children rest ihc ihr =>
    intro k c h
    rw [walk, List.getElem?_append] at h
    split at h
    · rename_i hk
      cases children with
      | none => simp [walkChild] at h
      | some children =>
        by_cases hdrawing : label.named wmlNs "drawing" = true
        · rw [walkChild, if_pos hdrawing] at h
          obtain ⟨hrun, htop⟩ := drawingContainers_spec rest (isElement_of_named hdrawing) (List.mem_of_getElem? h)
          exact .inl ⟨hrun, ⟨htop⟩⟩
        · by_cases helement : label.isElement = true
          · rw [Bool.not_eq_true] at hdrawing
            rw [walkChild_element hdrawing helement, List.getElem?_map] at h
            obtain ⟨c', hc', rfl⟩ := Option.map_eq_some_iff.mp h
            exact .inr (below_first hdrawing helement hc' (ihc hc'))
          · rw [walkChild, if_neg hdrawing, if_neg helement] at h
            simp at h
    · rename_i hk
      rw [List.getElem?_map] at h
      obtain ⟨c', hc', rfl⟩ := Option.map_eq_some_iff.mp h
      have hfound := found_inRest (t := .node label children) (ihr hc')
      rwa [Nat.add_sub_of_le (by omega)] at hfound

/-! ## Exactness -/

/-- The text nodes of the body outside an image container. -/
def textsOutside (body : List XmlNode) (index : Nat) : List String :=
  match (collectImageContainers body)[index]? with
  | some c => texts (RoseTree.remove body c.place)
  | none => texts body

/-- The deletion of an image takes its container off the list, and no text node outside the container goes. -/
def DeletionExact (bodyHasParent : Bool) (body : List XmlNode) (index : Nat) : Prop :=
  ∃ after, deleteImage bodyHasParent body index = .ok (some after) ∧
    (collectImageContainers after).map (·.container) = ((collectImageContainers body).map (·.container)).eraseIdx index ∧
    (textsOutside body index).Sublist (texts after)

/-- The element above the drawing is below the body, and holds no other image container and no text node outside this one. -/
def AloneInRun (body : List XmlNode) (index : Nat) : Prop :=
  ∃ c run el, (collectImageContainers body)[index]? = some c ∧ c.run = some run ∧ RoseTree.get? body run = some el ∧
    (collectImageContainers el.kids).length = 1 ∧ texts el.kids = textsAt c.container

/-- One segment of a list is left out as one element is: the segment has one element. -/
theorem append_eq_eraseIdx_iff {α : Type} {a c b : List α} {k : Nat} (hle : a.length ≤ k) (hlt : k < a.length + c.length) :
    a ++ b = (a ++ c ++ b).eraseIdx k ↔ c.length = 1 := by
  constructor
  · intro h
    have hlen := congrArg List.length h
    rw [List.length_eraseIdx_of_lt (by simp; omega)] at hlen
    simp only [List.length_append] at hlen
    omega
  · intro h
    obtain ⟨e, rfl⟩ := List.length_eq_one_iff.mp h
    obtain rfl : k = a.length := by
      simp only [List.length_singleton] at hlt
      omega
    rw [List.append_assoc, List.eraseIdx_append_of_length_le (Nat.le_refl _)]
    simp

/-- A segment can be left out beside what is kept when nothing else is in it. -/
theorem sublist_outside_iff {α : Type} {x u m v y : List α} :
    (x ++ (u ++ v) ++ y).Sublist (x ++ y) ↔ u ++ m ++ v = m := by
  constructor
  · intro h
    have hlen := h.length_le
    simp only [List.length_append] at hlen
    have hu : u = [] := List.length_eq_zero_iff.mp (by omega)
    have hv : v = [] := List.length_eq_zero_iff.mp (by omega)
    rw [hu, hv]
    simp
  · intro h
    have hlen := congrArg List.length h
    simp only [List.length_append] at hlen
    have hu : u = [] := List.length_eq_zero_iff.mp (by omega)
    have hv : v = [] := List.length_eq_zero_iff.mp (by omega)
    rw [hu, hv]
    simp

/-- The deletion of an image is exact when the element above its drawing is below the body and holds nothing else, and only
then. -/
theorem deletion_exact_iff (bodyHasParent : Bool) {body : List XmlNode} {index : Nat}
    (h : index < (collectImageContainers body).length) :
    DeletionExact bodyHasParent body index ↔ AloneInRun body index := by
  obtain ⟨c, hc⟩ : ∃ c, (collectImageContainers body)[index]? = some c := ⟨_, List.getElem?_eq_getElem h⟩
  have hdelete : deleteImage bodyHasParent body index = c.run.elim (.ok (if bodyHasParent then none else some body))
      fun position => .ok (some (RoseTree.remove body position)) := by
    have hindex : ¬ ((index : Int) < 0) := by omega
    unfold deleteImage
    simp only [if_neg hindex, Int.toNat_natCast, hc]
    cases c.run <;> rfl
  rcases walk_spec body hc with ⟨hrun, -⟩ | ⟨run, hrun, hbelow⟩
  · rw [hrun] at hdelete
    constructor
    · rintro ⟨after, hafter, hlist, -⟩
      exfalso
      rw [hdelete] at hafter
      cases bodyHasParent with
      | true => cases hafter
      | false =>
        cases hafter
        have hlen := congrArg List.length hlist
        rw [List.length_eraseIdx_of_lt (by simpa using h)] at hlen
        simp only [List.length_map] at hlen
        omega
    · rintro ⟨c', run, el, hc', hrun', -⟩
      rw [hc] at hc'
      cases hc'
      rw [hrun] at hrun'
      cases hrun'
  · rw [hrun] at hdelete
    obtain ⟨el, a, b, x, y, u, v, hget, hsplit, hremove, hle, hlt, htext, hrest, hrunText, houtside⟩ := hbelow.split
    have hlist : (collectImageContainers (RoseTree.remove body run)).map (·.container) =
        ((collectImageContainers body).map (·.container)).eraseIdx index ↔ (collectImageContainers el.kids).length = 1 := by
      unfold collectImageContainers
      rw [hsplit, hremove, append_eq_eraseIdx_iff hle (by simpa using hlt), List.length_map]
    have htexts : (textsOutside body index).Sublist (texts (RoseTree.remove body run)) ↔ texts el.kids = textsAt c.container := by
      rw [textsOutside, hc]
      simp only [houtside, hrest, hrunText]
      exact sublist_outside_iff
    constructor
    · rintro ⟨after, hafter, h1, h2⟩
      rw [hdelete] at hafter
      cases hafter
      exact ⟨c, run, el, hc, hrun, hget, hlist.mp h1, htexts.mp h2⟩
    · rintro ⟨c', run', el', hc', hrun', hget', h1, h2⟩
      rw [hc] at hc'
      cases hc'
      rw [hrun] at hrun'
      cases hrun'
      rw [hget] at hget'
      cases hget'
      exact ⟨_, hdelete, hlist.mpr h1, htexts.mpr h2⟩

/-! ## Bodies -/

/-- An element of a namespace without attributes. -/
def xml (ns name : String) (children : List XmlNode) : XmlNode := .node (.element (some ns) name []) (some children)

/-- A drawing with one inline picture. -/
def pictureDrawing (relId : String) : XmlNode :=
  xml wmlNs "drawing" [xml wpNs "inline" [xml aNs "graphic"
    [.node (.element (some aNs) "blip" [((some rNs, "embed"), relId)]) (some [])]]]

/-- A paragraph with two runs, one picture each, and text in a third. -/
def onePictureARun : List XmlNode :=
  [xml wmlNs "p" [xml wmlNs "r" [pictureDrawing "rId1"], xml wmlNs "r" [pictureDrawing "rId2"],
    xml wmlNs "r" [xml wmlNs "t" [.node (.text "after") none]]]]

/-- A run with text beside its picture. -/
def textBesidePicture : List XmlNode :=
  [xml wmlNs "p" [xml wmlNs "r" [xml wmlNs "t" [.node (.text "beside") none], pictureDrawing "rId1"]]]

theorem deletion_exact_onePictureARun :
    (collectImageContainers onePictureARun).length = 2 ∧
      (DeletionExact true onePictureARun 0 ↔ AloneInRun onePictureARun 0) :=
  ⟨by decide, deletion_exact_iff true (by decide)⟩

/-- The deletion of the picture takes the text beside it. -/
theorem deletion_exact_false : ¬ ∀ (bodyHasParent : Bool) (body : List XmlNode) (index : Nat),
    index < (collectImageContainers body).length → DeletionExact bodyHasParent body index := by
  intro hall
  obtain ⟨after, hafter, -, htexts⟩ := hall true textBesidePicture 0 (by decide)
  have hrun : deleteImage true textBesidePicture 0 = .ok (some [xml wmlNs "p" []]) := rfl
  have houtside : textsOutside textBesidePicture 0 = ["beside"] := by decide
  rw [houtside] at htexts
  have heq : (.ok (some after) : Except String (Option (List XmlNode))) = .ok (some [xml wmlNs "p" []]) := hafter.symm.trans hrun
  cases heq
  exact absurd htexts (by decide)

end UniDocs.Docx
