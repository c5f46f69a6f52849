import UniDocs.Cas.NodeLease
import Mathlib.Data.List.Dedup

/-!
# What the writes do to the node graph

The reference counts of a tenant are right when every row counts its incoming edges and every edge joins two rows. This
file says once what each write does to the rows, the edges and the objects; the invariants are derived from that.
-/

namespace UniDocs.Cas

open Lib

/-- Every row counts its incoming edges, every edge joins two rows, and no root count is negative. -/
structure RefCounts (t : Tenant) : Prop where
  counts : ∀ h row, t.nodes.lookup h = some row → row.childRefCount = t.incoming h
  endpoints : ∀ p i c, t.edges.lookup (p, i) = some c → p ∈ t.nodes ∧ c ∈ t.nodes
  roots : ∀ h row, t.nodes.lookup h = some row → 0 ≤ row.rootRefCount

/-- The row with more child references. -/
def NodeRow.addChildren (row : NodeRow) (n : Int) : NodeRow := { row with childRefCount := row.childRefCount + n }

/-- The row with more root references. -/
def NodeRow.addRoots (row : NodeRow) (n : Int) : NodeRow := { row with rootRefCount := row.rootRefCount + n }

namespace TenantWritesAux

theorem addChildren_zero (row : NodeRow) : row.addChildren 0 = row := by
  simp [NodeRow.addChildren]

theorem addChildren_addChildren (row : NodeRow) (m n : Int) :
    (row.addChildren m).addChildren n = row.addChildren (m + n) := by
  simp [NodeRow.addChildren, add_assoc]

theorem addRoots_zero (row : NodeRow) : row.addRoots 0 = row := by
  simp [NodeRow.addRoots]

theorem addRoots_addRoots (row : NodeRow) (m n : Int) : (row.addRoots m).addRoots n = row.addRoots (m + n) := by
  simp [NodeRow.addRoots, add_assoc]

/-- Two batches in a row are one. -/
theorem batch_append (a b : List Statement) (t : Tenant) : batch (a ++ b) t = (batch a t).bind (batch b) := by
  induction a generalizing t with
  | nil => rfl
  | cons s ss ih =>
    simp only [List.cons_append, batch]
    cases s t with
    | none => rfl
    | some t₁ => simpa using ih t₁

variable {t t' : Tenant}

theorem batch_cons {s : Statement} {ss : List Statement} (h : batch (s :: ss) t = some t') :
    ∃ t₁, s t = some t₁ ∧ batch ss t₁ = some t' :=
  Option.bind_eq_some_iff.mp h

/-! ## Single statements -/

variable {h : Hash}

theorem addChildRefs_spec {n : Int} (hs : addChildRefs h n t = some t') :
    t'.edges = t.edges ∧ t'.objects = t.objects ∧
    ∀ k, t'.nodes.lookup k = (t.nodes.lookup k).map fun row => row.addChildren (if k = h then n else 0) := by
  obtain ⟨nodes, hu, rfl⟩ := Option.map_eq_some_iff.mp hs
  refine ⟨rfl, rfl, fun k => ?_⟩
  rw [AList.lookup_update hu k]
  by_cases hk : k = h
  · subst hk
    cases hr : t.nodes.lookup k with
    | none => simp
    | some row =>
      simp only [if_true, Option.bind_some, Option.map_some]
      have : ∃ r', (if 0 ≤ row.childRefCount + n then some { row with childRefCount := row.childRefCount + n } else none)
          = some r' := by
        unfold AList.update at hu
        simp only [hr] at hu
        obtain ⟨r', hf, -⟩ := Option.map_eq_some_iff.mp hu
        exact ⟨r', hf⟩
      obtain ⟨r', hf⟩ := this
      rw [hf]
      split at hf
      · cases hf; rfl
      · cases hf
  · cases t.nodes.lookup k <;> simp [hk, addChildren_zero]

theorem addRootRefs_spec {n : Int} (hs : addRootRefs h n t = some t') :
    t'.edges = t.edges ∧ t'.objects = t.objects ∧
    (∀ k, t'.nodes.lookup k = (t.nodes.lookup k).map fun row => row.addRoots (if k = h then n else 0)) ∧
    ∀ row, t.nodes.lookup h = some row → 0 ≤ row.rootRefCount + n := by
  obtain ⟨nodes, hu, rfl⟩ := Option.map_eq_some_iff.mp hs
  have hcheck : ∀ row, t.nodes.lookup h = some row → 0 ≤ row.rootRefCount + n := by
    intro row hr
    unfold AList.update at hu
    simp only [hr] at hu
    obtain ⟨r', hf, -⟩ := Option.map_eq_some_iff.mp hu
    split at hf
    · assumption
    · cases hf
  refine ⟨rfl, rfl, fun k => ?_, hcheck⟩
  rw [AList.lookup_update hu k]
  by_cases hk : k = h
  · subst hk
    cases hr : t.nodes.lookup k with
    | none => simp
    | some row => simp [hcheck row hr, NodeRow.addRoots]
  · cases t.nodes.lookup k <;> simp [hk, addRoots_zero]

/-- Taking child references away succeeds while the count stays at zero or above. -/
theorem addChildRefs_isSome {n : Int} {t : Tenant}
    (hn : ∀ row, t.nodes.lookup h = some row → 0 ≤ row.childRefCount + n) : ∃ t', addChildRefs h n t = some t' := by
  obtain ⟨nodes, hu⟩ := AList.update_isSome (t := t.nodes) (k := h)
    (f := fun row => if 0 ≤ row.childRefCount + n then some { row with childRefCount := row.childRefCount + n } else none)
    (fun row hr => ⟨{ row with childRefCount := row.childRefCount + n }, by simp [hn row hr]⟩)
  exact ⟨{ t with nodes }, by simp [addChildRefs, hu]⟩

theorem incoming_insertEdge {p c : Hash} {i : Nat} (hs : insertEdge p i c t = some t') (h : Hash) :
    t'.incoming h = t.incoming h + if c = h then 1 else 0 := by
  obtain ⟨edges, hi, rfl⟩ := Option.map_eq_some_iff.mp hs
  obtain ⟨hn, rfl⟩ := AList.lookup_insertNew hi
  simp [Tenant.incoming, AList.count, AList.total_insert, AList.part_of_none hn]

/-! ## The graph that a store holds -/

/-- Two stores with the same edges, the same objects and the same counts on the same rows. -/
structure SameGraph (t t' : Tenant) : Prop where
  edges : t'.edges = t.edges
  objects : t'.objects = t.objects
  rows : ∀ k, (t'.nodes.lookup k).map (fun r => (r.childRefCount, r.rootRefCount)) =
    (t.nodes.lookup k).map (fun r => (r.childRefCount, r.rootRefCount))

theorem SameGraph.refl (t : Tenant) : SameGraph t t := ⟨rfl, rfl, fun _ => rfl⟩

theorem SameGraph.trans {t t₁ t₂ : Tenant} (h : SameGraph t t₁) (h' : SameGraph t₁ t₂) : SameGraph t t₂ :=
  ⟨h'.edges.trans h.edges, h'.objects.trans h.objects, fun k => (h'.rows k).trans (h.rows k)⟩

theorem SameGraph.row (hg : SameGraph t t') {k : Hash} {r' : NodeRow} (h : t'.nodes.lookup k = some r') :
    ∃ r, t.nodes.lookup k = some r ∧ r.childRefCount = r'.childRefCount ∧ r.rootRefCount = r'.rootRefCount := by
  have hk := hg.rows k
  rw [h] at hk
  simp only [Option.map_some] at hk
  obtain ⟨r, hr, he⟩ := Option.map_eq_some_iff.mp hk.symm
  exact ⟨r, hr, by simpa using congrArg Prod.fst he, by simpa using congrArg Prod.snd he⟩

theorem SameGraph.mem (hg : SameGraph t t') {k : Hash} : k ∈ t'.nodes ↔ k ∈ t.nodes := by
  have hk := congrArg Option.isSome (hg.rows k)
  simp only [Option.isSome_map] at hk
  rw [← AList.lookup_isSome, ← AList.lookup_isSome, hk]

theorem SameGraph.refCounts (hg : SameGraph t t') (h : RefCounts t) : RefCounts t' where
  counts k r' hr' := by
    obtain ⟨r, hr, hc, -⟩ := hg.row hr'
    rw [← hc, h.counts k r hr, Tenant.incoming, Tenant.incoming, hg.edges]
  endpoints p i c hl := by
    rw [hg.edges] at hl
    obtain ⟨hp, hc⟩ := h.endpoints p i c hl
    exact ⟨hg.mem.mpr hp, hg.mem.mpr hc⟩
  roots k r' hr' := by
    obtain ⟨r, hr, -, hc⟩ := hg.row hr'
    rw [← hc]
    exact h.roots k r hr

theorem setLease_sameGraph {a b : Nat} (hs : setLease h a b t = some t') : SameGraph t t' := by
  obtain ⟨nodes, hu, rfl⟩ := Option.map_eq_some_iff.mp hs
  refine ⟨rfl, rfl, fun k => ?_⟩
  rw [AList.lookup_update hu k]
  by_cases hk : k = h
  · subst hk
    cases t.nodes.lookup k <;> simp
  · simp [hk]

theorem upsertReservation_sameGraph {r : UploadReservation} {m : UploadReservation → UploadReservation}
    (hs : upsertReservation h r m t = some t') : SameGraph t t' := by
  unfold upsertReservation at hs
  split at hs
  · cases hs; exact ⟨rfl, rfl, fun _ => rfl⟩
  · cases hs

theorem upsertSession_sameGraph {s : DirectUploadSession}
    (hs : upsertSession h s t = some t') : SameGraph t t' := by
  unfold upsertSession at hs
  simp only at hs
  split at hs
  · cases hs; exact ⟨rfl, rfl, fun _ => rfl⟩
  · cases hs

theorem deleteReservation_sameGraph (hs : deleteReservation h t = some t') :
    SameGraph t t' := by
  cases hs; exact ⟨rfl, rfl, fun _ => rfl⟩

theorem deleteSession_sameGraph (hs : deleteSession h t = some t') : SameGraph t t' := by
  cases hs; exact ⟨rfl, rfl, fun _ => rfl⟩

theorem batch_sameGraph {ss : List Statement} (h : ∀ s ∈ ss, ∀ t t', s t = some t' → SameGraph t t') :
    ∀ {t t' : Tenant}, batch ss t = some t' → SameGraph t t' := by
  induction ss with
  | nil =>
    intro t t' hb
    cases hb
    exact SameGraph.refl t
  | cons s ss ih =>
    intro t t' hb
    obtain ⟨t₁, h1, h2⟩ := batch_cons hb
    exact (h s (by simp) t t₁ h1).trans (ih (fun s' hs' => h s' (by simp [hs'])) h2)

theorem release_sameGraph (hb : batch [deleteReservation h, deleteSession h] t = some t') :
    SameGraph t t' := by
  refine batch_sameGraph ?_ hb
  intro s hs t t' he
  simp only [List.mem_cons, List.not_mem_nil, or_false] at hs
  rcases hs with rfl | rfl
  · exact deleteReservation_sameGraph he
  · exact deleteSession_sameGraph he

/-! ## A new node -/

/-- A new row has no edges yet, so it counts them right. -/
theorem insertNode_spec {size : Nat} {type : String} {a b : Nat} (ht : RefCounts t)
    (hs : insertNode h size type a b t = some t') :
    h ∉ t.nodes ∧ RefCounts t' ∧ t'.edges = t.edges ∧ t'.objects = t.objects ∧
    ∀ k, t'.nodes.lookup k = if k = h then some ⟨size, type, a, b, 0, 0⟩ else t.nodes.lookup k := by
  obtain ⟨nodes, hi, rfl⟩ := Option.map_eq_some_iff.mp hs
  obtain ⟨hn, rfl⟩ := AList.lookup_insertNew hi
  have hmem : h ∉ t.nodes := AList.lookup_eq_none.mp hn
  have hzero : t.incoming h = 0 := by
    refine AList.count_eq_zero.mpr ?_
    rintro ⟨p, i⟩ c hl
    simp only [beq_eq_false_iff_ne, ne_eq]
    rintro rfl
    exact hmem (ht.endpoints p i c hl).2
  refine ⟨hmem, ⟨?_, ?_, ?_⟩, rfl, rfl, fun k => AList.lookup_insert_eq h k _ t.nodes⟩
  · intro k row hr
    simp only [AList.lookup_insert_eq] at hr
    split at hr
    · rename_i hk
      cases hr
      rw [hk]
      exact hzero.symm
    · exact ht.counts k row hr
  · intro p i c hl
    obtain ⟨hp, hc⟩ := ht.endpoints p i c hl
    exact ⟨by simp [AList.mem_insert, hp], by simp [AList.mem_insert, hc]⟩
  · intro k row hr
    simp only [AList.lookup_insert_eq] at hr
    split at hr
    · cases hr; exact le_refl _
    · exact ht.roots k row hr

theorem edge_spec {p c : Hash} {i : Nat} {t t₁ t₂ : Tenant} (ht : RefCounts t) (hp : p ∈ t.nodes) (hc : c ∈ t.nodes)
    (h1 : insertEdge p i c t = some t₁) (h2 : addChildRefs c 1 t₁ = some t₂) :
    RefCounts t₂ ∧ t₂.objects = t.objects ∧
    (∀ k, t₂.nodes.lookup k = (t.nodes.lookup k).map fun row => row.addChildren (if k = c then 1 else 0)) ∧
    t₂.edges = t.edges.insert (p, i) c := by
  have hin := incoming_insertEdge h1
  obtain ⟨he, ho, hn⟩ := addChildRefs_spec h2
  obtain ⟨edges, hi, rfl⟩ := Option.map_eq_some_iff.mp h1
  obtain ⟨-, rfl⟩ := AList.lookup_insertNew hi
  have hrow : ∀ k row, t₂.nodes.lookup k = some row → ∃ r, t.nodes.lookup k = some r ∧
      row.childRefCount = r.childRefCount + (if k = c then 1 else 0) ∧ row.rootRefCount = r.rootRefCount := by
    intro k row hr
    rw [hn k] at hr
    obtain ⟨r, hl, rfl⟩ := Option.map_eq_some_iff.mp hr
    exact ⟨r, hl, rfl, rfl⟩
  have hmem : ∀ k, k ∈ t₂.nodes ↔ k ∈ t.nodes := by
    intro k
    rw [← AList.lookup_isSome, ← AList.lookup_isSome, hn k, Option.isSome_map]
  refine ⟨⟨?_, ?_, ?_⟩, ho, hn, he⟩
  · intro k row hr
    obtain ⟨r, hl, hcount, -⟩ := hrow k row hr
    have hk : t₂.incoming k = t.incoming k + if c = k then 1 else 0 := by
      rw [← hin k]
      simp [Tenant.incoming, he]
    rw [hcount, ht.counts k r hl, hk]
    by_cases hkc : k = c
    · simp [hkc]
    · simp [hkc, Ne.symm hkc]
  · intro q j d hl
    rw [he] at hl
    simp only [AList.lookup_insert_eq] at hl
    split at hl
    · rename_i hk
      cases hl
      cases hk
      exact ⟨(hmem _).mpr hp, (hmem _).mpr hc⟩
    · obtain ⟨h1, h2⟩ := ht.endpoints q j d hl
      exact ⟨(hmem _).mpr h1, (hmem _).mpr h2⟩
  · intro k row hr
    obtain ⟨r, hl, -, hroot⟩ := hrow k row hr
    rw [hroot]
    exact ht.roots k r hl

/-- The edges of a new node, by induction over its refs from an ordinal on. -/
theorem edgeStatements_spec {p : Hash} {cs : List Hash} : ∀ {i : Nat} {t t' : Tenant}, RefCounts t → p ∈ t.nodes →
    (∀ c ∈ cs, c ∈ t.nodes) → batch (edgeStatements p i cs) t = some t' →
    RefCounts t' ∧ t'.objects = t.objects ∧
    (∀ k, t'.nodes.lookup k = (t.nodes.lookup k).map fun row => row.addChildren (cs.count k)) ∧
    (∀ q j d, t'.edges.lookup (q, j) = some d → t.edges.lookup (q, j) = some d ∨ (q = p ∧ d ∈ cs)) := by
  induction cs with
  | nil =>
    intro i t t' ht _ _ hb
    cases hb
    refine ⟨ht, rfl, fun k => ?_, fun _ _ _ h => .inl h⟩
    cases t.nodes.lookup k <;> simp [addChildren_zero]
  | cons c cs ih =>
    intro i t t' ht hp hcs hb
    obtain ⟨t₁, h1, hb₁⟩ := batch_cons hb
    obtain ⟨t₂, h2, hb₂⟩ := batch_cons hb₁
    obtain ⟨ht₂, ho₂, hn₂, he₂⟩ := edge_spec ht hp (hcs c (by simp)) h1 h2
    have hmem : ∀ k, k ∈ t.nodes → k ∈ t₂.nodes := by
      intro k hk
      rw [← AList.lookup_isSome] at hk ⊢
      rw [hn₂ k, Option.isSome_map]
      exact hk
    obtain ⟨ht', ho', hn', he'⟩ := ih ht₂ (hmem p hp) (fun d hd => hmem d (hcs d (by simp [hd]))) hb₂
    refine ⟨ht', ho'.trans ho₂, fun k => ?_, fun q j d hl => ?_⟩
    · rw [hn' k, hn₂ k]
      cases t.nodes.lookup k with
      | none => rfl
      | some row =>
        simp only [Option.map_some, addChildren_addChildren, List.count_cons, beq_iff_eq]
        by_cases hk : c = k
        · subst hk; simp [add_comm]
        · simp [hk, Ne.symm hk]
    · rcases he' q j d hl with hl₂ | ⟨rfl, hd⟩
      · rw [he₂] at hl₂
        simp only [AList.lookup_insert_eq] at hl₂
        split at hl₂
        · rename_i hk
          cases hl₂
          cases hk
          exact .inr ⟨rfl, by simp⟩
        · exact .inl hl₂
      · exact .inr ⟨rfl, by simp [hd]⟩

/-- The whole batch of a new node whose refs all have rows: the row is new and unreferenced, each other row gains one
child reference for each occurrence among the refs, and the new edges start at the node and lead to its refs. -/
structure NewNode (hash : Hash) (node : ParsedNode) (lease : NodeLeaseRecord) (t t' : Tenant) : Prop where
  fresh : hash ∉ t.nodes
  counts : RefCounts t'
  objects : t'.objects = t.objects
  row : t'.nodes.lookup hash = some ⟨node.contentSize, node.contentType, lease.leaseStartedAt, lease.leaseExpiresAt, 0, 0⟩
  others : ∀ k, k ≠ hash → t'.nodes.lookup k = (t.nodes.lookup k).map fun row => row.addChildren (node.refs.count k)
  edges : ∀ q j d, t'.edges.lookup (q, j) = some d → t.edges.lookup (q, j) = some d ∨ (q = hash ∧ d ∈ node.refs)

theorem commitNewNode_spec {hash : Hash} {node : ParsedNode} {lease : NodeLeaseRecord} {first : List Statement}
    (ht : RefCounts t) (hrefs : ∀ c ∈ node.refs, c ∈ t.nodes)
    (hfirst : ∀ s ∈ first, ∀ u u', s u = some u' → u'.nodes = u.nodes ∧ SameGraph u u')
    (hb : commitNewNode hash node lease first t = some t') : NewNode hash node lease t t' := by
  unfold commitNewNode at hb
  rw [batch_append, List.append_cons, batch_append] at hb
  obtain ⟨t₃, hb₃, hlast⟩ := Option.bind_eq_some_iff.mp hb
  obtain ⟨t₂, hb₂, hedges⟩ := Option.bind_eq_some_iff.mp hb₃
  rw [batch_append] at hb₂
  obtain ⟨t₁, hb₁, hins⟩ := Option.bind_eq_some_iff.mp hb₂
  have hnodes₁ : t₁.nodes = t.nodes := by
    clear hb hb₂ hb₃
    induction first generalizing t with
    | nil => cases hb₁; rfl
    | cons s ss ih =>
      obtain ⟨u, h1, h2⟩ := batch_cons hb₁
      obtain ⟨hn, hg⟩ := hfirst s (by simp) t u h1
      rw [ih (hg.refCounts ht) (fun c hc => hg.mem.mpr (hrefs c hc)) (fun s' hs' => hfirst s' (by simp [hs'])) h2, hn]
  have hg₁ : SameGraph t t₁ := batch_sameGraph (fun s hs u u' h => (hfirst s hs u u' h).2) hb₁
  obtain ⟨u, hi, hu⟩ := batch_cons hins
  cases hu
  obtain ⟨hfresh, ht₂, he₂, ho₂, hn₂⟩ := insertNode_spec (hg₁.refCounts ht) hi
  have hmem₂ : ∀ k, k ∈ t.nodes → k ∈ t₂.nodes := by
    intro k hk
    rw [← hg₁.mem, ← AList.lookup_isSome] at hk
    rw [← AList.lookup_isSome, hn₂ k]
    split
    · rfl
    · exact hk
  have hself : hash ∈ t₂.nodes := AList.mem_of_lookup (by rw [hn₂ hash, if_pos rfl])
  obtain ⟨ht₃, ho₃, hn₃, he₃⟩ := edgeStatements_spec ht₂ hself (fun c hc => hmem₂ c (hrefs c hc)) hedges
  have hlast_g := release_sameGraph hlast
  have hlast_n : t'.nodes = t₃.nodes := by cases hlast; rfl
  have hnotin : hash ∉ node.refs := fun hmem => hfresh (hg₁.mem.mpr (hrefs hash hmem))
  refine ⟨fun hm => hfresh (hg₁.mem.mpr hm), hlast_g.refCounts ht₃, ?_, ?_, ?_, ?_⟩
  · rw [hlast_g.objects, ho₃, ho₂, hg₁.objects]
  · rw [hlast_n, hn₃ hash, hn₂ hash, if_pos rfl]
    simp [List.count_eq_zero_of_not_mem hnotin, NodeRow.addChildren]
  · intro k hk
    rw [hlast_n, hn₃ k, hn₂ k, if_neg hk, hnodes₁]
  · intro q j d hl
    rw [hlast_g.edges] at hl
    rcases he₃ q j d hl with h | h
    · rw [he₂, hg₁.edges] at h
      exact .inl h
    · exact .inr h

/-! ## A collected node -/

/-- Adding up the counts of a list of child references for one hash. -/
def released (cs : List NodeGcChildReference) (k : Hash) : Int := (cs.map fun c => if c.hash = k then c.count else 0).sum

theorem released_nonneg {cs : List NodeGcChildReference} (h : ∀ c ∈ cs, 0 ≤ c.count) (k : Hash) : 0 ≤ released cs k := by
  induction cs with
  | nil => exact le_refl _
  | cons c cs ih =>
    have h1 : 0 ≤ c.count := h c (by simp)
    have h2 := ih fun d hd => h d (by simp [hd])
    simp only [released, List.map_cons, List.sum_cons] at h2 ⊢
    split <;> omega

/-- The decrements of a collection succeed when no count goes below zero, and take from each row what is released. -/
theorem releaseChildren_spec : ∀ {cs : List NodeGcChildReference} {t : Tenant}, (∀ c ∈ cs, 0 ≤ c.count) →
    (∀ k row, t.nodes.lookup k = some row → released cs k ≤ row.childRefCount) →
    ∃ t', batch (cs.map fun c => addChildRefs c.hash (-c.count)) t = some t' ∧ t'.edges = t.edges ∧
      t'.objects = t.objects ∧
      ∀ k, t'.nodes.lookup k = (t.nodes.lookup k).map fun row => row.addChildren (-released cs k) := by
  intro cs
  induction cs with
  | nil =>
    intro t _ _
    refine ⟨t, rfl, rfl, rfl, fun k => ?_⟩
    cases t.nodes.lookup k <;> simp [released, addChildren_zero]
  | cons c cs ih =>
    intro t hc hle
    have hsplit : ∀ k, released (c :: cs) k = (if c.hash = k then c.count else 0) + released cs k := fun k => by
      simp [released]
    have hcs : ∀ k, 0 ≤ released cs k := released_nonneg fun d hd => hc d (by simp [hd])
    obtain ⟨t₁, h1⟩ := addChildRefs_isSome (h := c.hash) (n := -c.count) (t := t) (by
      intro row hr
      have h1 := hle c.hash row hr
      have h2 := hcs c.hash
      rw [hsplit, if_pos rfl] at h1
      omega)
    obtain ⟨he₁, ho₁, hn₁⟩ := addChildRefs_spec h1
    obtain ⟨t', hb, he, ho, hn⟩ := ih (t := t₁) (fun d hd => hc d (by simp [hd])) (by
      intro k row hr
      rw [hn₁ k] at hr
      obtain ⟨r, hl, rfl⟩ := Option.map_eq_some_iff.mp hr
      have h1 := hle k r hl
      rw [hsplit] at h1
      simp only [NodeRow.addChildren]
      by_cases hk : k = c.hash
      · subst hk; simp only [if_true] at h1 ⊢; omega
      · simp only [hk, Ne.symm hk, if_false] at h1 ⊢; omega)
    refine ⟨t', by simp [batch, h1, hb], he.trans he₁, ho.trans ho₁, fun k => ?_⟩
    rw [hn k, hn₁ k]
    cases t.nodes.lookup k with
    | none => rfl
    | some row =>
      simp only [Option.map_some, addChildren_addChildren, hsplit]
      congr 2
      by_cases hk : k = c.hash
      · subst hk; simp only [if_true]; omega
      · simp only [hk, Ne.symm hk, if_false]; omega

/-- The children of a parent, as a list, hold a child once for each edge to it. -/
theorem count_children (t : Tenant) (p k : Hash) :
    (((t.edges.rows fun q _ => q.1 == p).map Prod.snd).count k : Int) = t.edgesBetween p k := by
  rw [Tenant.edgesBetween, AList.count_eq_length]
  unfold AList.rows
  rw [List.length_map, List.map_map, List.count_eq_countP, List.countP_map, List.countP_eq_length_filter,
    List.filter_filter]
  congr 2
  refine List.filter_congr ?_
  rintro ⟨⟨a, b⟩, c⟩ _
  exact Bool.and_comm _ _

theorem released_group {cs ds : List Hash} (k : Hash) (hd : ds.Nodup) (hm : ∀ c ∈ cs, c ∈ ds) :
    released (ds.map fun c => ⟨c, cs.count c⟩) k = cs.count k := by
  have hzero : ∀ l : List Hash, k ∉ l → released (l.map fun c => ⟨c, cs.count c⟩) k = 0 := by
    intro l hl
    refine List.sum_eq_zero ?_
    simp only [List.map_map, List.mem_map, Function.comp_apply]
    rintro x ⟨c, hc, rfl⟩
    rw [if_neg]
    rintro rfl
    exact hl hc
  by_cases hk : k ∈ ds
  · obtain ⟨a, b, rfl⟩ := List.append_of_mem hk
    rw [List.nodup_append, List.nodup_cons] at hd
    have ha := hzero a fun h => hd.2.2 k h k (by simp) rfl
    have hb := hzero b hd.2.1.1
    simp only [released] at ha hb ⊢
    rw [List.map_append, List.map_cons, List.map_append, List.map_cons, List.sum_append, List.sum_cons, ha, hb]
    simp
  · rw [hzero ds hk, List.count_eq_zero_of_not_mem fun h => hk (hm k h)]
    rfl

theorem released_childReferences (t : Tenant) (p k : Hash) : released (t.childReferences p) k = t.edgesBetween p k := by
  rw [← count_children]
  exact released_group k (List.nodup_dedup _) fun c hc => List.mem_dedup.mpr hc

/-- The batch of a collection: the row and its outgoing edges go, and each child loses the edges it had from there. -/
structure Collected (hash : Hash) (t t' : Tenant) : Prop where
  counts : RefCounts t'
  objects : t'.objects = t.objects
  rows : ∀ k, t'.nodes.lookup k = if k = hash then none
    else (t.nodes.lookup k).map fun row => row.addChildren (-t.edgesBetween hash k)

theorem commitDeletion_spec (codec : Codec) {d : NodeGcDeletion} {t : Tenant} {row : NodeRow} (ht : RefCounts t)
    (hrow : t.nodes.lookup d.hash = some row) (hzero : row.childRefCount = 0)
    (hd : d.childReferences = t.childReferences d.hash) :
    ∃ t', (TenantWrite.commitDeletion d).run codec t = some t' ∧ Collected d.hash t t' := by
  set t₁ : Tenant := { t with edges := t.edges.keep fun k _ => k.1 != d.hash, nodes := t.nodes.erase d.hash } with ht₁
  have hlookup₁ : ∀ k, t₁.nodes.lookup k = if k = d.hash then none else t.nodes.lookup k :=
    fun k => AList.lookup_erase_eq d.hash k t.nodes
  have hincoming : ∀ k, t₁.incoming k = t.incoming k - t.edgesBetween d.hash k := by
    intro k
    simp only [Tenant.incoming, Tenant.edgesBetween, ht₁, AList.count_keep]
    congr 2
    funext q c
    simp [Bool.and_comm, bne]
  have hle : ∀ k row, t₁.nodes.lookup k = some row → released d.childReferences k ≤ row.childRefCount := by
    intro k r hr
    rw [hlookup₁ k] at hr
    split at hr
    · cases hr
    · rw [ht.counts k r hr, hd, released_childReferences]
      have h1 := hincoming k
      have h2 : 0 ≤ t₁.incoming k := AList.count_nonneg _ _
      omega
  have hnonneg : ∀ c ∈ d.childReferences, 0 ≤ c.count := by
    rw [hd]
    simp only [Tenant.childReferences, List.mem_map]
    rintro c ⟨x, -, rfl⟩
    exact Int.natCast_nonneg _
  obtain ⟨t', hb, he, ho, hn⟩ := releaseChildren_spec (t := t₁) hnonneg hle
  have hnoin : ∀ p i, t.edges.lookup (p, i) ≠ some d.hash := by
    intro p i hl
    have h0 : t.incoming d.hash = 0 := by rw [← ht.counts d.hash row hrow, hzero]
    have := (AList.count_eq_zero.mp h0) (p, i) d.hash hl
    simp at this
  have hrows : ∀ k, t'.nodes.lookup k = if k = d.hash then none
      else (t.nodes.lookup k).map fun row => row.addChildren (-t.edgesBetween d.hash k) := by
    intro k
    rw [hn k, hlookup₁ k, hd, released_childReferences]
    split <;> rfl
  refine ⟨t', by simpa [TenantWrite.run, batch, deleteEdges, deleteNode] using hb, ⟨?_, ?_, ?_⟩, ho, hrows⟩
  · intro k r hr
    rw [hrows k] at hr
    split at hr
    · cases hr
    · obtain ⟨r₀, hl, rfl⟩ := Option.map_eq_some_iff.mp hr
      have : t'.incoming k = t₁.incoming k := by simp only [Tenant.incoming, he]
      rw [this, hincoming k, ← ht.counts k r₀ hl]
      rfl
  · intro p i c hl
    rw [he] at hl
    simp only [ht₁, AList.lookup_keep, Option.filter_eq_some_iff, bne_iff_ne] at hl
    obtain ⟨hp, hc⟩ := ht.endpoints p i c hl.1
    have hcne : c ≠ d.hash := by
      rintro rfl
      exact hnoin p i hl.1
    constructor
    · rw [← AList.lookup_isSome, hrows p, if_neg hl.2, Option.isSome_map, AList.lookup_isSome]
      exact hp
    · rw [← AList.lookup_isSome, hrows c, if_neg hcne, Option.isSome_map, AList.lookup_isSome]
      exact hc
  · intro k r hr
    rw [hrows k] at hr
    split at hr
    · cases hr
    · obtain ⟨r₀, hl, rfl⟩ := Option.map_eq_some_iff.mp hr
      exact ht.roots k r₀ hl

end TenantWritesAux

end UniDocs.Cas
