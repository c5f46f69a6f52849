import UniDocs.Lemmas.MutationGate

/-!
# The kernels behind the gate

Each lease and collection kernel keeps the invariant of the service. The arguments that carry them are the commit of a
new node over ready children and the collection of a node that nothing refers to.
-/

/-!
## Programs behind the gate

`Behind` is the triple of a program that holds the gate all the way, and may throw at any point. The rules cover the
calls such a program makes; from them follow the readiness checks, which are where the cache and the bucket meet.
-/

namespace UniDocs.Cas

open Lib TenantWritesAux

/-- A program that runs behind the gate and keeps it, whether it ends in a value or an error. -/
def Behind (codec : Codec) (strict : Prop) (i : RequestId) {α : Type} (P : State → Prop) (p : Op α) (Q : α → State → Prop) : Prop :=
  Triple (gateSpec codec strict i) (InGate strict i P) p (fun a => InGate strict i (Q a)) fun _ => Gated strict i

section Rules

variable {codec : Codec} {strict : Prop} {i : RequestId} {α β : Type} {P P' : State → Prop} {Q : α → State → Prop}

theorem Behind.pure {a : α} (h : ∀ s, P s → Q a s) : Behind codec strict i P (Pure.pure a) Q :=
  Triple.pure fun s _ hp => ⟨hp.1, h s hp.2⟩

theorem Behind.throw {e : CasError} : Behind codec strict i P (MonadExcept.throw e) Q :=
  Triple.throw fun _ _ hp => hp.1

theorem Behind.bind {p : Op α} {g : α → Op β} {R : β → State → Prop} (hp : Behind codec strict i P p Q)
    (hg : ∀ a, Behind codec strict i (Q a) (g a) R) : Behind codec strict i P (p >>= g) R :=
  Triple.bind hp hg

theorem Behind.pre {p : Op α} (h : Behind codec strict i P p Q) (hP : ∀ s, P' s → P s) : Behind codec strict i P' p Q :=
  Triple.pre h fun s _ hp => ⟨hp.1, hP s hp.2⟩

theorem Behind.post {p : Op α} {Q' : α → State → Prop} (h : Behind codec strict i P p Q) (hQ : ∀ a s, Q a s → Q' a s) :
    Behind codec strict i P p Q' :=
  Triple.post h fun a s _ hq => ⟨hq.1, hQ a s hq.2⟩

theorem Behind.require {b : Bool} {e : CasError} :
    Behind codec strict i P (Prog.require b e) fun _ s => P s ∧ b = true :=
  Triple.require (fun _ _ hp hb => ⟨hp.1, hp.2, hb⟩) fun _ _ hp _ => hp.1

theorem Behind.tryCatch {p : Op α} {h : CasError → Op α} (hp : Behind codec strict i P p Q)
    (hh : ∀ e, Behind codec strict i (fun _ => True) (h e) Q) : Behind codec strict i P (p.tryCatch h) Q :=
  Triple.tryCatch hp fun e => Triple.pre (hh e) fun _ _ hg => ⟨hg, trivial⟩

/-- Time that has passed stays passed. -/
theorem Behind.clock {p : Op α} (n : Nat) (h : Behind codec strict i P p Q) :
    Behind codec strict i (fun s => n ≤ s.clock ∧ P s) p fun a s => n ≤ s.clock ∧ Q a s := by
  refine (Triple.frame (F := fun s => n ≤ s.clock) ?_ ?_ h).conseq ?_ ?_ ?_
  · intro s s' hg hn
    rw [hg.clock]
    exact hn
  · exact fun s s' hr hn => le_trans hn hr.clock
  · exact fun s _ hp => ⟨hp.2.1, hp.1, hp.2.2⟩
  · exact fun a s _ hq => ⟨hq.2.1, hq.1, hq.2.2⟩
  · exact fun e s _ he => he.2

theorem Behind.read {c : Call β} {Q : β → State → Prop} {f : State → β} (hQ : ∀ b, Lasting i (Q b))
    (hexec : ∀ g s s' b, exec codec c g s = some (s', b) → s' = s ∧ b = f s)
    (h : ∀ s, Inv strict s → InGate strict i P s → Q (f s) s) : Behind codec strict i P (Prog.perform c) Q := by
  refine Triple.perform (fun b => stable_inGate (hQ b)) ?_
  intro g s s' b hi hp _ he
  obtain ⟨rfl, rfl⟩ := hexec g s s' b he
  exact ⟨hi, Guar.refl s', hp.1, h s' hi hp⟩

theorem Behind.now (hP : Lasting i P) : Behind codec strict i P Cas.now fun n s => P s ∧ n ≤ s.clock := by
  refine Behind.read (f := fun s => s.clock) (fun b => hP.and (Lasting.clock b)) ?_ fun s _ hp => ⟨hp.2, le_refl _⟩
  intro g s s' b he
  cases g <;> cases he
  exact ⟨rfl, rfl⟩

theorem storeCall_read {s s' : State} {g : Fault} {b : β} {r : Except CasError β}
    (h : storeCall s g (some (s, b)) = (s', r)) : s' = s ∧ ∀ a, r = .ok a → a = b := by
  cases g <;> simp only [storeCall, Prod.mk.injEq] at h <;> obtain ⟨rfl, rfl⟩ := h
  · exact ⟨rfl, fun a ha => by cases ha; rfl⟩
  · exact ⟨rfl, fun a ha => by cases ha⟩
  · exact ⟨rfl, fun a ha => by cases ha⟩

theorem Behind.query {Q : β → State → Prop} {f : Tenant → β} (hQ : ∀ b, Lasting i (Q b))
    (h : ∀ s, Inv strict s → P s → Q (f (s.tenant i.scope)) s) : Behind codec strict i P (Cas.query i.scope f) Q := by
  refine Triple.attempt (fun b => stable_inGate (hQ b)) (fun _ => stable_gated) ?_
  intro g s s' r hi hp _ he
  simp only [gateSpec, exec, Option.some.injEq] at he
  obtain ⟨rfl, hr⟩ := storeCall_read he
  refine ⟨hi, Guar.refl s', ?_⟩
  cases r with
  | ok b =>
    cases hr b rfl
    exact ⟨hp.1, h s' hi hp.2⟩
  | error e => exact hp.1

/-- A query that only confirms what is known. -/
theorem Behind.query_const {f : Tenant → β} (hP : Lasting i P) :
    Behind codec strict i P (Cas.query i.scope f) fun _ => P :=
  Behind.query (fun _ => hP) fun _ _ hp => hp

/-- A write behind the gate: what it does to the store is shown once; when it fails, nothing has changed. -/
theorem Behind.write {w : TenantWrite} {Q : State → Prop} (hQ : Lasting i Q)
    (h : ∀ g s t', Inv strict s → InGate strict i P s → orderly strict _ (.write i.scope w) g s →
      w.run codec (s.tenant i.scope) = some t' → g ≠ .failed →
      RefCounts t' ∧ (strict → Backed t') ∧ (∀ k, t'.rootCount k = (s.tenant i.scope).rootCount k) ∧
      Guar strict i s (s.setTenant i.scope t') ∧ (strict → CacheSound (s.setTenant i.scope t') i.scope) ∧
      Q (s.setTenant i.scope t')) :
    Behind codec strict i P (Cas.write i.scope w) fun _ => Q := by
  refine Triple.attempt (fun _ => stable_inGate hQ) (fun _ => stable_gated) ?_
  intro g s s' r hi hp ha he
  simp only [gateSpec, exec, Option.some.injEq] at he
  cases hrun : w.run codec (s.tenant i.scope) with
  | none =>
    have hs : s' = s ∧ ∃ e, r = .error e := by
      rw [hrun] at he
      cases g <;> simp only [storeCall, Option.map_none, Prod.mk.injEq] at he <;> obtain ⟨rfl, rfl⟩ := he <;>
        exact ⟨rfl, _, rfl⟩
    obtain ⟨rfl, e, rfl⟩ := hs
    exact ⟨hi, Guar.refl s', hp.1⟩
  | some t' =>
    rw [hrun] at he
    cases g with
    | failed =>
      simp only [storeCall, Prod.mk.injEq] at he
      obtain ⟨rfl, rfl⟩ := he
      exact ⟨hi, Guar.refl s, hp.1⟩
    | none =>
      simp only [storeCall, Option.map_some, Prod.mk.injEq] at he
      obtain ⟨rfl, rfl⟩ := he
      obtain ⟨h1, h2, h3, h4, h5, h6⟩ := h .none s t' hi hp ha hrun (by simp)
      exact ⟨inv_setTenant hi (by simp [hp.1.1]) h1 h2 h3, h4, ⟨by simpa using hp.1.1, h5⟩, h6⟩
    | lost =>
      simp only [storeCall, Option.map_some, Prod.mk.injEq] at he
      obtain ⟨rfl, rfl⟩ := he
      obtain ⟨h1, h2, h3, h4, h5, h6⟩ := h .lost s t' hi hp ha hrun (by simp)
      exact ⟨inv_setTenant hi (by simp [hp.1.1]) h1 h2 h3, h4, ⟨by simpa using hp.1.1, h5⟩⟩

end Rules

section Programs

variable {codec : Codec} {strict : Prop} {i : RequestId} {P : State → Prop}

theorem TenantWritesAux.SameGraph.backed {t t' : Tenant} (hg : SameGraph t t') (h : Backed t) : Backed t' := by
  intro k row hr hpos
  obtain ⟨r, hl, h1, h2⟩ := hg.row hr
  have := h k r hl (by rw [h1, h2]; exact hpos)
  simpa [Tenant.stored, hg.objects] using this

theorem TenantWritesAux.SameGraph.rootCount {t t' : Tenant} (hg : SameGraph t t') (k : Hash) : t'.rootCount k = t.rootCount k := by
  have hk := hg.rows k
  unfold Tenant.rootCount
  cases h' : t'.nodes.lookup k with
  | none =>
    rw [h'] at hk
    cases h : t.nodes.lookup k with
    | none => rfl
    | some r => rw [h] at hk; cases hk
  | some r' =>
    obtain ⟨r, hr, -, h2⟩ := hg.row h'
    simp [hr, h2]

/-- A write that keeps the graph needs nothing and says nothing. -/
theorem Behind.write_sameGraph {w : TenantWrite} (hw : ∀ t t', w.run codec t = some t' → SameGraph t t') :
    Behind codec strict i P (Cas.write i.scope w) fun _ _ => True := by
  refine Behind.write (Lasting.const True) ?_
  intro g s t' hi hp _ hrun _
  have hg := hw _ _ hrun
  refine ⟨hg.refCounts (hi.counts _), fun hs => hg.backed (hi.backed hs _), hg.rootCount, ?_, ?_, trivial⟩
  · refine guar_setTenant hp.1.1 ?_ ?_
    · intro h row hr hn
      exact absurd (hg.mem.mpr (AList.mem_of_lookup hr)) hn
    · intro _ h hn hm
      exact absurd (hg.mem.mp hm) hn
  · intro hs h hm hc
    simp only [setTenant_tenant] at hm ⊢
    have := hp.1.2 hs h (hg.mem.mp hm) hc
    simpa [Tenant.stored, hg.objects] using this

theorem cacheUntil_lookup (n : Nat) (hs : List Hash) (c : Table Hash Nat) (h : Hash) :
    (cacheUntil n hs c).lookup h = if h ∈ hs then some n else c.lookup h := by
  induction hs generalizing c with
  | nil => simp [cacheUntil]
  | cons a hs ih =>
    rw [cacheUntil, ih, AList.lookup_insert_eq]
    by_cases h1 : h ∈ hs
    · simp [h1]
    · by_cases h2 : h = a <;> simp [h1, h2]

theorem Behind.cacheReady {hs : List Hash} (hP : Lasting i P)
    (h : ∀ s, Inv strict s → P s → strict → ∀ k ∈ hs, k ∈ (s.tenant i.scope).nodes → (s.tenant i.scope).stored k) :
    Behind codec strict i P (Prog.perform (.cacheReady i.scope hs)) fun _ => P := by
  refine Triple.perform (fun _ => stable_inGate hP) ?_
  intro g s s' b hi hp _ he
  cases g <;> cases he
  have hcache : strict → CacheSound (s.setInst i.scope { s.inst i.scope with
      readyCache := cacheUntil (s.clock + readyCacheTtlMs) hs (s.inst i.scope).readyCache }) i.scope := by
    intro hst k hm hc
    by_cases hk : k ∈ hs
    · exact h s hi hp.2 hst k hk hm
    · refine hp.1.2 hst k hm ?_
      rw [cachedReady_iff] at hc ⊢
      simpa [cacheUntil_lookup, hk] using hc
  refine ⟨inv_setInst hi fun hst _ => hcache hst, guar_setInst (fun h => absurd hp.1.1 h) (fun h => .inl h), ?_, ?_⟩
  · exact ⟨by simpa using hp.1.1, hcache⟩
  · exact hP s _ (le_refl _) (Kept.refl _) hp.2

/-- A node has a row, and its object where that can be relied on. -/
def Ready (strict : Prop) (i : RequestId) (h : Hash) (s : State) : Prop :=
  h ∈ (s.tenant i.scope).nodes ∧ (strict → (s.tenant i.scope).stored h)

theorem lasting_ready (h : Hash) : Lasting i (Ready strict i h) :=
  (Lasting.nodes fun nodes => h ∈ nodes).and (Lasting.imp fun _ => Lasting.stored h)

/-- A positive readiness check means that the node is ready. -/
theorem isNodeReady_behind {hash : Hash} (hP : Lasting i P) :
    Behind codec strict i P (isNodeReady i.scope hash) fun b s => P s ∧ (b = true → Ready strict i hash s) := by
  have hrow : Lasting i fun s => hash ∈ (s.tenant i.scope).nodes := Lasting.nodes fun nodes => hash ∈ nodes
  unfold isNodeReady
  refine Behind.bind (Q := fun b s => P s ∧ (b = true → hash ∈ (s.tenant i.scope).nodes))
    (Behind.query (fun b => hP.and (Lasting.imp fun _ => hrow)) fun s _ hp => ⟨hp, by simp⟩) fun row => ?_
  cases row with
  | false => exact Behind.pure fun s hp => ⟨hp.1, by simp⟩
  | true =>
    refine Behind.pre (P := fun s => P s ∧ hash ∈ (s.tenant i.scope).nodes) ?_ fun s hp => ⟨hp.1, hp.2 rfl⟩
    refine Behind.bind (Q := fun b s => (P s ∧ hash ∈ (s.tenant i.scope).nodes) ∧
      (b = true → strict → (s.tenant i.scope).stored hash)) ?_ fun cached => ?_
    · refine Behind.read (f := fun s => s.cachedReady i.scope hash)
        (fun b => (hP.and hrow).and (Lasting.imp fun _ => Lasting.imp fun _ => Lasting.stored hash)) ?_ ?_
      · intro g s s' b he
        cases g <;> cases he
        exact ⟨rfl, rfl⟩
      · exact fun s _ hp => ⟨hp.2, fun hc hs => hp.1.2 hs hash hp.2.2 hc⟩
    · cases cached with
      | true => exact Behind.pure fun s hp => ⟨hp.1.1, fun _ => ⟨hp.1.2, hp.2 rfl⟩⟩
      | false =>
        refine Behind.pre (P := fun s => P s ∧ hash ∈ (s.tenant i.scope).nodes) ?_ fun s hp => hp.1
        refine Behind.bind (Q := fun b s => (P s ∧ hash ∈ (s.tenant i.scope).nodes) ∧
          (b = true → (s.tenant i.scope).stored hash))
          (Behind.query (fun b => (hP.and hrow).and (Lasting.imp fun _ => Lasting.stored hash))
            fun s _ hp => ⟨hp, by simp [Tenant.stored]⟩) fun object => ?_
        cases object with
        | false => exact Behind.pure fun s hp => ⟨hp.1.1, by simp⟩
        | true =>
          refine Behind.bind (Q := fun _ s => (P s ∧ hash ∈ (s.tenant i.scope).nodes) ∧ (s.tenant i.scope).stored hash)
            (Behind.pre (P := fun s => (P s ∧ hash ∈ (s.tenant i.scope).nodes) ∧ (s.tenant i.scope).stored hash)
              (Behind.cacheReady ((hP.and hrow).and (Lasting.stored hash)) ?_) fun s hp => ⟨hp.1, hp.2 rfl⟩) fun _ => ?_
          · intro s _ hp _ k hk _
            rw [List.mem_singleton.mp hk]
            exact hp.2
          · exact Behind.pure fun s hp => ⟨hp.1.1, fun _ => ⟨hp.1.2, fun _ => hp.2⟩⟩

theorem requireChildrenReady_behind (cs : List Hash) (hP : Lasting i P) :
    Behind codec strict i P (requireChildrenReady i.scope cs) fun _ s => P s ∧ ∀ c ∈ cs, Ready strict i c s := by
  induction cs generalizing P with
  | nil => exact Behind.pure fun s hp => ⟨hp, by simp⟩
  | cons c cs ih =>
    unfold requireChildrenReady
    refine Behind.bind (isNodeReady_behind hP) fun ready => ?_
    refine Behind.bind Behind.require fun _ => ?_
    refine Behind.pre (P := fun s => P s ∧ Ready strict i c s) ?_ fun s hp => ⟨hp.1.1, hp.1.2 hp.2⟩
    refine Behind.post (ih (hP.and (lasting_ready c))) fun _ s hp => ⟨hp.1.1, ?_⟩
    intro d hd
    rcases List.mem_cons.mp hd with rfl | hd
    · exact hp.1.2
    · exact hp.2 d hd

end Programs

end UniDocs.Cas

namespace UniDocs.Cas

open Lib TenantWritesAux

section Commits

variable {codec : Codec} {strict : Prop} {i : RequestId} {s : State}

variable {lease : NodeLeaseRecord}

theorem newNode_keeps {hash : Hash} {node : ParsedNode} {t' : Tenant} (hi : Inv strict s)
    (hg : Gated strict i s) (hrefs : ∀ c ∈ node.refs, Ready strict i c s)
    (hself : strict → (s.tenant i.scope).stored hash) (h : NewNode hash node lease (s.tenant i.scope) t') :
    (strict → Backed t') ∧ (∀ k, t'.rootCount k = (s.tenant i.scope).rootCount k) ∧
    Guar strict i s (s.setTenant i.scope t') ∧ (strict → CacheSound (s.setTenant i.scope t') i.scope) := by
  have hnone : (s.tenant i.scope).nodes.lookup hash = none := AList.lookup_eq_none.mpr h.fresh
  have hmem : ∀ k, k ∈ t'.nodes ↔ k = hash ∨ k ∈ (s.tenant i.scope).nodes := by
    intro k
    by_cases hk : k = hash
    · subst hk
      simp [AList.mem_of_lookup h.row]
    · rw [← AList.lookup_isSome, h.others k hk, Option.isSome_map, AList.lookup_isSome]
      simp [hk]
  have hstored : ∀ k, t'.stored k ↔ (s.tenant i.scope).stored k := by
    intro k
    simp [Tenant.stored, h.objects]
  refine ⟨?_, ?_, guar_setTenant hg.1 ?_ ?_, ?_⟩
  · intro hs k row hr hpos
    rw [hstored]
    by_cases hk : k = hash
    · subst hk
      exact hself hs
    · rw [h.others k hk] at hr
      obtain ⟨r, hl, rfl⟩ := Option.map_eq_some_iff.mp hr
      by_cases hc : k ∈ node.refs
      · exact (hrefs k hc).2 hs
      · refine hi.backed hs i.scope k r hl ?_
        simpa [NodeRow.addChildren, List.count_eq_zero_of_not_mem hc] using hpos
  · intro k
    unfold Tenant.rootCount
    by_cases hk : k = hash
    · subst hk
      simp [h.row, hnone]
    · rw [h.others k hk]
      cases (s.tenant i.scope).nodes.lookup k <;> rfl
  · intro k row hr hn
    exact absurd ((hmem k).mpr (.inr (AList.mem_of_lookup hr))) hn
  · intro hs k hn hm c hedge
    have hk : k = hash := ((hmem k).mp hm).resolve_right hn
    subst hk
    obtain ⟨j, hj⟩ := hedge
    rcases h.edges k j c hj with hold | ⟨-, hc⟩
    · exact absurd ((hi.counts i.scope).endpoints k j c hold).1 hn
    · exact ⟨(hmem c).mpr (.inr (hrefs c hc).1), (hstored c).mpr ((hrefs c hc).2 hs)⟩
  · intro hs k hm hc
    simp only [setTenant_tenant] at hm ⊢
    rw [hstored]
    rcases (hmem k).mp hm with rfl | hm
    · exact hself hs
    · exact hg.2 hs k hm hc

theorem ready_newNode {hash c : Hash} {node : ParsedNode} {t' : Tenant}
    (h : NewNode hash node lease (s.tenant i.scope) t') (hc : Ready strict i c s) :
    Ready strict i c (s.setTenant i.scope t') := by
  have hne : c ≠ hash := by
    rintro rfl
    exact h.fresh hc.1
  refine ⟨?_, fun hs => ?_⟩
  · simp only [setTenant_tenant]
    rw [← AList.lookup_isSome, h.others c hne, Option.isSome_map, AList.lookup_isSome]
    exact hc.1
  · simpa [Tenant.stored, h.objects] using hc.2 hs

theorem commitNew_behind {hash : Hash} {node : ParsedNode} :
    Behind codec strict i (fun s => ∀ c ∈ node.refs, Ready strict i c s)
      (commitUploadedCanonicalNode i.scope (.new hash node lease)) fun _ _ => True := by
  have hrefs : Lasting i fun s => ∀ c ∈ node.refs, Ready strict i c s :=
    Lasting.forall fun c => Lasting.imp fun _ => lasting_ready c
  unfold commitUploadedCanonicalNode
  refine Behind.bind (Q := fun _ s => (∀ c ∈ node.refs, Ready strict i c s) ∧ (strict → (s.tenant i.scope).stored hash))
    (Behind.write (hrefs.and (Lasting.imp fun _ => Lasting.stored hash)) ?_) fun _ => ?_
  · intro g s t' hi hp ha hrun hne
    have hself : strict → (s.tenant i.scope).stored hash := fun hs => ha hs hne
    have hnew := commitNewNode_spec (hi.counts i.scope) (fun c hc => (hp.2 c hc).1) (by simp) hrun
    obtain ⟨h1, h2, h3, h4⟩ := newNode_keeps hi hp.1 hp.2 hself hnew
    refine ⟨hnew.counts, h1, h2, h3, h4, fun c hc => ready_newNode hnew (hp.2 c hc), fun hs => ?_⟩
    simpa [Tenant.stored, hnew.objects] using hself hs
  · refine Behind.post (Behind.cacheReady (hrefs.and (Lasting.imp fun _ => Lasting.stored hash)) ?_) fun _ _ _ => trivial
    intro s _ hp hs k hk _
    rcases List.mem_cons.mp hk with rfl | hk
    · exact hp.2 hs
    · exact (hp.1 k hk).2 hs

/-- The commit of an adoption: the object was found behind the gate. -/
theorem commitAdopted_behind {plan : AdoptedCanonicalNodePlan} :
    Behind codec strict i (fun s => (s.tenant i.scope).stored plan.hash ∧ ∀ c ∈ plan.node.refs, Ready strict i c s)
      (commitAdoptedCanonicalNode i.scope plan) fun _ _ => True := by
  have hrefs : Lasting i fun s => (s.tenant i.scope).stored plan.hash ∧ ∀ c ∈ plan.node.refs, Ready strict i c s :=
    (Lasting.stored plan.hash).and (Lasting.forall fun c => Lasting.imp fun _ => lasting_ready c)
  unfold commitAdoptedCanonicalNode
  refine Behind.bind (Q := fun _ s => (s.tenant i.scope).stored plan.hash ∧ ∀ c ∈ plan.node.refs, Ready strict i c s)
    (Behind.write hrefs ?_) fun _ => ?_
  · intro g s t' hi hp _ hrun _
    have hnew := commitNewNode_spec (hi.counts i.scope) (fun c hc => (hp.2.2 c hc).1) (by
      intro st hst u u' hu
      rw [List.mem_singleton.mp hst] at hu
      refine ⟨?_, upsertReservation_sameGraph hu⟩
      unfold upsertReservation at hu
      split at hu
      · cases hu; rfl
      · cases hu) hrun
    obtain ⟨h1, h2, h3, h4⟩ := newNode_keeps hi hp.1 hp.2.2 (fun _ => hp.2.1) hnew
    refine ⟨hnew.counts, h1, h2, h3, h4, ?_, fun c hc => ready_newNode hnew (hp.2.2 c hc)⟩
    simpa [Tenant.stored, hnew.objects] using hp.2.1
  · refine Behind.post (Behind.cacheReady hrefs ?_) fun _ _ _ => trivial
    intro s _ hp hs k hk _
    rcases List.mem_cons.mp hk with rfl | hk
    · exact hp.1
    · exact (hp.2 k hk).2 hs

theorem commitExisting_behind {P : State → Prop} {hash : Hash} :
    Behind codec strict i P (commitUploadedCanonicalNode i.scope (.existing hash lease)) fun _ _ => True := by
  unfold commitUploadedCanonicalNode
  refine Behind.bind (Q := fun _ s => strict → (s.tenant i.scope).stored hash)
    (Behind.write (Lasting.imp fun _ => Lasting.stored hash) ?_) fun _ => ?_
  · intro g s t' hi hp ha hrun hne
    have hg : SameGraph (s.tenant i.scope) t' := by
      refine batch_sameGraph ?_ hrun
      intro st hst u u' hu
      simp only [List.mem_cons, List.not_mem_nil, or_false] at hst
      rcases hst with rfl | rfl | rfl
      · exact setLease_sameGraph hu
      · exact deleteReservation_sameGraph hu
      · exact deleteSession_sameGraph hu
    refine ⟨hg.refCounts (hi.counts _), fun hs => hg.backed (hi.backed hs _), hg.rootCount, ?_, ?_, ?_⟩
    · refine guar_setTenant hp.1.1 ?_ ?_
      · exact fun h row hr hn => absurd (hg.mem.mpr (AList.mem_of_lookup hr)) hn
      · exact fun _ h hn hm => absurd (hg.mem.mp hm) hn
    · intro hs h hm hc
      simp only [setTenant_tenant] at hm ⊢
      have := hp.1.2 hs h (hg.mem.mp hm) hc
      simpa [Tenant.stored, hg.objects] using this
    · intro hs
      have hself : (s.tenant i.scope).stored hash := ha hs hne
      simpa [Tenant.stored, hg.objects] using hself
  · refine Behind.post (Behind.cacheReady (Lasting.imp fun _ => Lasting.stored hash) ?_) fun _ _ _ => trivial
    intro s _ hp hs k hk _
    rw [List.mem_singleton.mp hk]
    exact hp hs

end Commits

/-! ## Leases -/

section Leases

variable {codec : Codec} {strict : Prop} {i : RequestId} {P : State → Prop}

/-- Nothing is known and nothing is claimed beyond the gate. -/
abbrev Plain (codec : Codec) (strict : Prop) (i : RequestId) {α : Type} (p : Op α) : Prop :=
  Behind codec strict i (fun _ => True) p fun _ _ => True

theorem lasting_true : Lasting i fun _ => True := Lasting.const True

theorem Behind.weaken {α : Type} {p : Op α} (h : Plain codec strict i p) : Behind codec strict i P p fun _ _ => True :=
  h.pre fun _ _ => trivial

variable {hash : Hash}

theorem validateLeaseHash_behind (P : State → Prop) :
    Behind codec strict i P (validateLeaseHash hash) fun _ => P := by
  unfold validateLeaseHash
  split
  · exact Behind.pure fun _ hp => hp
  · exact Behind.throw

theorem renewNodeLease_behind {lease : NodeLeaseRecord} :
    Behind codec strict i P (write i.scope (.renewNodeLease hash lease)) fun _ _ => True :=
  Behind.write_sameGraph fun _ _ h => setLease_sameGraph h

theorem inspectCanonicalNode_behind {n : Nat} (hP : Lasting i P) :
    Behind codec strict i P (inspectCanonicalNode codec i.scope hash n) fun _ => P := by
  unfold inspectCanonicalNode
  refine Behind.bind (Behind.query_const hP) fun object => ?_
  split
  · exact Behind.throw
  · split
    · exact Behind.pure fun _ hp => hp
    · exact Behind.throw

theorem renewReadyNode_behind {existing : NodeLeaseRecord} {d n : Nat} :
    Plain codec strict i (renewReadyNode i.scope hash existing d n) := by
  unfold renewReadyNode
  refine Behind.bind (isNodeReady_behind lasting_true) fun _ => ?_
  refine Behind.bind Behind.require fun _ => ?_
  exact Behind.bind renewNodeLease_behind fun _ => Behind.pure fun _ _ => trivial

theorem adoptOrphan_behind {d n : Nat} : Plain codec strict i (adoptOrphan codec i.scope hash d n) := by
  unfold adoptOrphan
  refine Behind.bind (Q := fun object s => object.isSome → (s.tenant i.scope).stored hash)
    (Behind.query (fun _ => Lasting.imp fun _ => Lasting.stored hash)
      fun s _ _ => AList.lookup_isSome.mp) fun object => ?_
  cases object with
  | none => exact Behind.throw
  | some bytes =>
    refine Behind.pre (P := fun s => (s.tenant i.scope).stored hash) ?_ fun s hp => hp rfl
    refine Behind.bind Behind.require fun _ => ?_
    refine Behind.pre (P := fun s => (s.tenant i.scope).stored hash) ?_ fun s hp => hp.1
    refine Behind.bind (Behind.tryCatch (inspectCanonicalNode_behind (Lasting.stored hash)) fun _ => Behind.throw) fun node => ?_
    refine Behind.bind (requireChildrenReady_behind node.refs (Lasting.stored hash)) fun _ => ?_
    exact Behind.bind (Q := fun _ _ => True) (Behind.pre commitAdopted_behind fun _ hp => hp) fun _ => Behind.pure fun _ _ => trivial

theorem leaseReadyNode_behind {d : Nat} : Plain codec strict i (leaseReadyNode codec i.scope hash d) := by
  unfold leaseReadyNode
  refine Behind.bind (validateLeaseHash_behind _) fun _ => ?_
  refine Behind.bind (Behind.now lasting_true) fun n => ?_
  refine Behind.bind (Behind.weaken (Behind.query_const lasting_true)) fun existing => ?_
  cases existing with
  | some lease => exact renewReadyNode_behind
  | none => exact adoptOrphan_behind

theorem reserveUpload_behind {d : Nat} {length : Option Nat} :
    Plain codec strict i (reserveUpload i.scope hash d length) := by
  unfold reserveUpload
  cases length with
  | none => exact Behind.throw
  | some n =>
    refine Behind.bind Behind.require fun _ => ?_
    refine Behind.bind (Behind.now (lasting_true.and (Lasting.const _))) fun _ => ?_
    exact Behind.bind (Behind.write_sameGraph fun _ _ h => upsertReservation_sameGraph h) fun _ => Behind.pure fun _ _ => trivial

theorem beginCanonicalNodeLease_behind {d : Nat} {length : Option Nat} :
    Plain codec strict i (beginCanonicalNodeLease i.scope hash d length) := by
  unfold beginCanonicalNodeLease
  refine Behind.bind (validateLeaseHash_behind _) fun _ => ?_
  refine Behind.bind (Behind.query_const lasting_true) fun existing => ?_
  cases existing with
  | none => exact reserveUpload_behind
  | some lease =>
    refine Behind.bind (isNodeReady_behind lasting_true) fun ready => ?_
    cases ready with
    | false => exact Behind.weaken reserveUpload_behind
    | true =>
      refine Behind.weaken (Behind.bind (Behind.now lasting_true) fun _ => ?_)
      exact Behind.bind renewNodeLease_behind fun _ => Behind.pure fun _ _ => trivial

theorem uploadedMetadata_behind {plan : CanonicalNodeUploadPlan} {parsed : Option ParsedNode} :
    Plain codec strict i (uploadedMetadata codec i.scope plan parsed) := by
  cases parsed with
  | some node => exact Behind.pure fun _ hp => hp
  | none => exact Behind.tryCatch (inspectCanonicalNode_behind lasting_true) fun _ => Behind.throw

theorem finalizeCanonicalNodeLease_behind {plan : CanonicalNodeUploadPlan} {parsed : Option ParsedNode} :
    Plain codec strict i (finalizeCanonicalNodeLease codec i.scope plan parsed) := by
  unfold finalizeCanonicalNodeLease
  refine Behind.bind (validateLeaseHash_behind _) fun _ => ?_
  refine Behind.bind (Behind.query_const lasting_true) fun existing => ?_
  refine Behind.bind (Behind.now lasting_true) fun n => ?_
  refine Behind.bind (Behind.weaken uploadedMetadata_behind) fun node => ?_
  cases existing with
  | some row =>
    refine Behind.bind (Q := fun _ _ => True) ?_ fun _ => ?_
    · unfold requireSameMetadata
      refine Behind.bind (Behind.query_const lasting_true) fun refs => ?_
      exact Behind.post Behind.require fun _ _ _ => trivial
    · refine Behind.bind (requireChildrenReady_behind node.refs lasting_true) fun _ => ?_
      exact Behind.bind commitExisting_behind fun _ => Behind.pure fun _ _ => trivial
  | none =>
    refine Behind.bind (requireChildrenReady_behind node.refs lasting_true) fun _ => ?_
    refine Behind.bind (Behind.pre commitNew_behind fun s hp => hp.2) fun _ => Behind.pure fun _ _ => trivial

theorem leaseUnlessNotFound_behind {d : Nat} : Plain codec strict i (leaseUnlessNotFound codec i.scope hash d) := by
  unfold leaseUnlessNotFound
  refine Behind.tryCatch (Behind.bind leaseReadyNode_behind fun _ => Behind.pure fun _ hp => hp) fun e => ?_
  cases e with
  | nodeOp status code message =>
    simp only
    split
    · exact Behind.pure fun _ hp => hp
    · exact Behind.throw
  | _ => exact Behind.throw

theorem reserveSession_behind {n : Int} {d : Nat} {id : String} :
    Plain codec strict i (reserveSession i.scope hash n d id) := by
  unfold reserveSession
  refine Behind.bind (Behind.now lasting_true) fun time => ?_
  refine Behind.bind (Behind.weaken (Behind.query_const lasting_true)) fun existing => ?_
  split
  · exact Behind.bind Behind.require fun _ => Behind.pure fun _ _ => trivial
  · refine Behind.bind Behind.require fun _ => ?_
    refine Behind.bind (Behind.write_sameGraph fun t t' h => ?_) fun _ => Behind.pure fun _ _ => trivial
    refine batch_sameGraph ?_ h
    intro st hst u u' hu
    simp only [List.mem_cons, List.not_mem_nil, or_false] at hst
    rcases hst with rfl | rfl
    · exact upsertSession_sameGraph hu
    · exact upsertReservation_sameGraph hu

theorem prepareCanonicalNodeUpload_behind {length : NumberHeader} {d : Nat} {id : String} :
    Plain codec strict i (prepareCanonicalNodeUpload codec i.scope hash length d id) := by
  unfold prepareCanonicalNodeUpload
  refine Behind.bind (validateLeaseHash_behind _) fun _ => ?_
  refine Behind.bind leaseUnlessNotFound_behind fun ready => ?_
  cases ready with
  | some result => exact Behind.pure fun _ hp => hp
  | none =>
    cases length with
    | value n =>
      refine Behind.bind Behind.require fun _ => ?_
      refine Behind.bind Behind.require fun _ => ?_
      exact Behind.weaken reserveSession_behind
    | absent => exact Behind.throw
    | notFinite => exact Behind.throw

theorem admitFinalization_behind {id : String} {d : Nat} :
    Plain codec strict i (admitCanonicalNodeUploadFinalization codec i.scope hash id d) := by
  unfold admitCanonicalNodeUploadFinalization
  refine Behind.bind (validateLeaseHash_behind _) fun _ => ?_
  refine Behind.bind leaseUnlessNotFound_behind fun ready => ?_
  cases ready with
  | some result => exact Behind.pure fun _ hp => hp
  | none =>
    refine Behind.bind (Behind.query_const lasting_true) fun session => ?_
    split
    · exact Behind.throw
    · refine Behind.bind (Behind.now lasting_true) fun _ => ?_
      exact Behind.bind Behind.require fun _ => Behind.pure fun _ _ => trivial

theorem deleteSession_behind {id : String} :
    Plain codec strict i (write i.scope (.deleteCanonicalUploadSession hash id)) := by
  refine Behind.write_sameGraph fun t t' h => ?_
  simp only [TenantWrite.run] at h
  split at h
  · split at h
    · exact release_sameGraph h
    · cases h; exact SameGraph.refl t
  · cases h; exact SameGraph.refl t

end Leases

/-! ## Collections -/

section Collections

variable {codec : Codec} {strict : Prop} {i : RequestId}

/-- Behind the gate, with a cache that may be wrong about one hash. -/
def GatedExcept (strict : Prop) (i : RequestId) (h : Hash) (s : State) : Prop :=
  (s.inst i.scope).gate = some i.n ∧ (strict → ∀ k, k ≠ h → k ∈ (s.tenant i.scope).nodes →
    s.cachedReady i.scope k = true → (s.tenant i.scope).stored k)

/-- What a collection knows of the node it is about to delete. -/
structure Doomed (i : RequestId) (d : NodeGcDeletion) (s : State) : Prop where
  row : ∃ row, (s.tenant i.scope).nodes.lookup d.hash = some row ∧ row.childRefCount = 0 ∧ row.rootRefCount = 0 ∧
    row.leaseExpiresAt ≤ s.clock
  children : d.childReferences = (s.tenant i.scope).childReferences d.hash

theorem lasting_doomed (d : NodeGcDeletion) : Lasting i (Doomed i d) := by
  rintro s s' hc hk ⟨⟨row, hr, h1, h2, h3⟩, hd⟩
  refine ⟨⟨row, by rw [hk.nodes]; exact hr, h1, h2, le_trans h3 hc⟩, ?_⟩
  simpa [Tenant.childReferences, hk.edges] using hd

theorem stable_gatedExcept (h : Hash) : Stable (gateSpec codec strict i) (GatedExcept strict i h) := by
  rintro s s' _ _ hr ⟨hg, hc⟩
  obtain ⟨hg', hk, hm⟩ := hr.held hg
  refine ⟨hg', fun hs k hne hmem hcr => ?_⟩
  rw [hk.nodes] at hmem
  exact hk.objects k (hc hs k hne hmem (cachedReady_anti hr.clock hm hcr))

theorem stable_doomed (h : Hash) (d : NodeGcDeletion) :
    Stable (gateSpec codec strict i) fun s => GatedExcept strict i h s ∧ Doomed i d s := by
  intro s s' hi hi' hr hp
  refine ⟨stable_gatedExcept h s s' hi hi' hr hp.1, ?_⟩
  obtain ⟨-, hk, -⟩ := hr.held hp.1.1
  exact lasting_doomed d s s' hr.clock hk hp.2

/-- The object goes first: until the row goes too, the cache may still vouch for it. -/
theorem deleteContent_triple {d : NodeGcDeletion} :
    Triple (gateSpec codec strict i) (InGate strict i (Doomed i d)) (write i.scope (.deleteCanonicalContent d.hash))
      (fun _ s => GatedExcept strict i d.hash s ∧ Doomed i d s) (fun _ => Gated strict i) := by
  refine Triple.attempt (fun _ => stable_doomed d.hash d) (fun _ => stable_gated) ?_
  intro g s s' r hi hp ha he
  simp only [gateSpec, exec, TenantWrite.run, Option.map_some, Option.some.injEq] at he
  set t' : Tenant := { s.tenant i.scope with objects := (s.tenant i.scope).objects.erase d.hash } with ht'
  have hother : ∀ k, k ≠ d.hash → (s.tenant i.scope).stored k → t'.stored k := by
    intro k hk hs
    simp only [Tenant.stored, ht', AList.mem_erase]
    exact ⟨hk, hs⟩
  obtain ⟨row, hrow, h1, h2, -⟩ := hp.2.row
  have hinv : Inv strict (s.setTenant i.scope t') := by
    refine inv_setTenant hi (by simp [hp.1.1]) ?_ ?_ fun _ => rfl
    · exact ⟨(hi.counts i.scope).counts, (hi.counts i.scope).endpoints, (hi.counts i.scope).roots⟩
    · intro hs k r hr hpos
      by_cases hk : k = d.hash
      · subst hk
        rw [show t'.nodes = (s.tenant i.scope).nodes from rfl, hrow] at hr
        cases hr
        omega
      · exact hother k hk (hi.backed hs i.scope k r hr hpos)
  have hguar : Guar strict i s (s.setTenant i.scope t') :=
    guar_setTenant hp.1.1 (fun k r hr hn => absurd (AList.mem_of_lookup hr) hn) fun _ k hn hm => absurd hm hn
  have hexcept : strict → ∀ k, k ≠ d.hash → k ∈ (s.tenant i.scope).nodes → s.cachedReady i.scope k = true → t'.stored k :=
    fun hs k hk hm hc => hother k hk (hp.1.2 hs k hm hc)
  cases g with
  | failed =>
    simp only [storeCall, Prod.mk.injEq] at he
    obtain ⟨rfl, rfl⟩ := he
    exact ⟨hi, Guar.refl s, hp.1⟩
  | none =>
    simp only [storeCall, Prod.mk.injEq] at he
    obtain ⟨rfl, rfl⟩ := he
    refine ⟨hinv, hguar, ⟨hp.1.1, ?_⟩, ⟨?_, ?_⟩⟩
    · simp only [setTenant_tenant, setTenant_cachedReady]
      exact hexcept
    · simpa using hp.2.row
    · simpa [Tenant.childReferences, ht'] using hp.2.children
  | lost =>
    simp only [storeCall, Prod.mk.injEq] at he
    obtain ⟨rfl, rfl⟩ := he
    refine ⟨hinv, hguar, hp.1.1, fun hs k hm hc => ?_⟩
    simp only [setTenant_tenant, setTenant_cachedReady] at hm hc ⊢
    refine hexcept hs k ?_ hm hc
    rintro rfl
    rw [show s.cachedReady i.scope d.hash = false from ha hs rfl] at hc
    cases hc

/-- The batch of a collection: it is never rejected, and the row it removes is one nothing refers to. -/
theorem commitDeletion_triple {d : NodeGcDeletion} :
    Triple (gateSpec codec strict i) (fun s => GatedExcept strict i d.hash s ∧ Doomed i d s)
      (write i.scope (.commitDeletion d)) (fun _ => InGate strict i fun _ => True) (fun _ => Gated strict i) := by
  refine Triple.attempt (fun _ => stable_inGate lasting_true) (fun _ => stable_gated) ?_
  intro g s s' r hi hp ha he
  obtain ⟨row, hrow, h1, h2, h3⟩ := hp.2.row
  obtain ⟨t', hrun, hcol⟩ := commitDeletion_spec codec (hi.counts i.scope) hrow h1 hp.2.children
  simp only [gateSpec, exec, hrun, Option.map_some, Option.some.injEq] at he
  have hmem : ∀ k, k ∈ t'.nodes ↔ k ≠ d.hash ∧ k ∈ (s.tenant i.scope).nodes := by
    intro k
    rw [← AList.lookup_isSome, hcol.rows k]
    by_cases hk : k = d.hash
    · simp [hk]
    · rw [if_neg hk, Option.isSome_map, AList.lookup_isSome]
      simp [hk]
  have hstored : ∀ k, t'.stored k ↔ (s.tenant i.scope).stored k := by
    intro k
    simp [Tenant.stored, hcol.objects]
  have hinv : Inv strict (s.setTenant i.scope t') := by
    refine inv_setTenant hi (by simp [hp.1.1]) hcol.counts ?_ ?_
    · intro hs k r hr hpos
      rw [hstored]
      rw [hcol.rows k] at hr
      split at hr
      · cases hr
      · obtain ⟨r₀, hl, rfl⟩ := Option.map_eq_some_iff.mp hr
        refine hi.backed hs i.scope k r₀ hl ?_
        have hedges : 0 ≤ (s.tenant i.scope).edgesBetween d.hash k := AList.count_nonneg _ _
        simp only [NodeRow.addChildren] at hpos
        omega
    · intro k
      unfold Tenant.rootCount
      rw [hcol.rows k]
      by_cases hk : k = d.hash
      · subst hk
        simp [hrow, h2]
      · rw [if_neg hk]
        cases (s.tenant i.scope).nodes.lookup k <;> rfl
  have hguar : Guar strict i s (s.setTenant i.scope t') := by
    refine guar_setTenant hp.1.1 ?_ ?_
    · intro k r hr hn
      have hk : k = d.hash := by
        by_contra hk
        exact hn ((hmem k).mpr ⟨hk, AList.mem_of_lookup hr⟩)
      subst hk
      rw [hrow] at hr
      cases hr
      exact ⟨h1, h2, h3⟩
    · intro _ k hn hm
      exact absurd ((hmem k).mp hm).2 hn
  have hgated : Gated strict i (s.setTenant i.scope t') := by
    refine ⟨hp.1.1, fun hs k hm hc => ?_⟩
    simp only [setTenant_tenant] at hm ⊢
    rw [hstored]
    obtain ⟨hk, hm⟩ := (hmem k).mp hm
    exact hp.1.2 hs k hk hm hc
  cases g with
  | failed =>
    simp only [storeCall, Prod.mk.injEq] at he
    obtain ⟨rfl, rfl⟩ := he
    refine ⟨hi, Guar.refl s, hp.1.1, fun hs k hm hc => ?_⟩
    refine hp.1.2 hs k ?_ hm hc
    rintro rfl
    rw [show s.cachedReady i.scope d.hash = false from ha hs rfl] at hc
    cases hc
  | none =>
    simp only [storeCall, Prod.mk.injEq] at he
    obtain ⟨rfl, rfl⟩ := he
    exact ⟨hinv, hguar, hgated, trivial⟩
  | lost =>
    simp only [storeCall, Prod.mk.injEq] at he
    obtain ⟨rfl, rfl⟩ := he
    exact ⟨hinv, hguar, hgated⟩

theorem stillExpired_spec {t : Tenant} {h : Hash} {n : Nat} {row : NodeRow} (ht : RefCounts t)
    (hr : t.stillExpiredUnreferenced h n = some row) :
    t.nodes.lookup h = some row ∧ row.childRefCount = 0 ∧ row.rootRefCount = 0 ∧ row.leaseExpiresAt ≤ n := by
  unfold Tenant.stillExpiredUnreferenced at hr
  simp only [Option.filter_eq_some_iff, Bool.not_eq_true', Bool.or_eq_false_iff, decide_eq_false_iff_not] at hr
  obtain ⟨⟨hl, -⟩, ⟨hchild, hroot⟩, hlease⟩ := hr
  have h1 := ht.roots h row hl
  have h2 : 0 ≤ row.childRefCount := by
    rw [ht.counts h row hl]
    exact AList.count_nonneg _ _
  exact ⟨hl, by omega, by omega, by omega⟩

/-- What the second look at a candidate answers is doomed. -/
theorem readStillExpired_behind {hash : Hash} {n : Nat} :
    Behind codec strict i (fun s => n ≤ s.clock) (readStillExpiredUnreferenced i.scope hash n)
      fun deletion s => ∀ d, deletion = some d → Doomed i d s := by
  unfold readStillExpiredUnreferenced
  refine Behind.bind (Q := fun fresh s => n ≤ s.clock ∧ ∀ row, fresh = some row →
    (s.tenant i.scope).nodes.lookup hash = some row ∧ row.childRefCount = 0 ∧ row.rootRefCount = 0 ∧
    row.leaseExpiresAt ≤ n) (Behind.query ?_ ?_) fun fresh => ?_
  · exact fun _ => (Lasting.clock n).and (Lasting.forall fun row => Lasting.imp fun _ =>
      (Lasting.nodes fun nodes => nodes.lookup hash = some row).and (Lasting.const _))
  · exact fun s hi hp => ⟨hp, fun row hr => stillExpired_spec (hi.counts i.scope) hr⟩
  · cases fresh with
    | none => exact Behind.pure fun s hp => by simp
    | some row =>
      refine Behind.bind (Q := fun cs s => Doomed i ⟨hash, row.contentSize, cs⟩ s)
        (Behind.query (fun _ => lasting_doomed _) ?_) fun cs => ?_
      · intro s _ hp
        obtain ⟨h1, h2, h3, h4⟩ := hp.2 row rfl
        exact ⟨⟨row, h1, h2, h3, le_trans h4 hp.1⟩, rfl⟩
      · refine Behind.pure fun s hp => ?_
        rintro d ⟨⟩
        exact hp

theorem collectCandidate_behind {hash : Hash} {n : Nat} :
    Behind codec strict i (fun s => n ≤ s.clock) (collectCandidate i.scope hash n) fun _ _ => True := by
  unfold collectCandidate
  refine Behind.bind readStillExpired_behind fun deletion => ?_
  cases deletion with
  | none => exact Behind.pure fun _ _ => trivial
  | some d =>
    refine Triple.bind (Triple.pre deleteContent_triple fun s _ hp => ⟨hp.1, hp.2 d rfl⟩) fun _ => ?_
    refine Triple.bind commitDeletion_triple fun _ => ?_
    exact Triple.pure fun _ _ hp => hp

/-- The loop, by induction over the candidates that are left. -/
theorem collectCandidates_behind {n : Nat} (hashes : List Hash) (acc : Nat × Nat) :
    Behind codec strict i (fun s => n ≤ s.clock) (collectCandidates i.scope n hashes acc) fun _ _ => True := by
  induction hashes generalizing acc with
  | nil => exact Behind.pure fun _ _ => trivial
  | cons hash rest ih =>
    unfold collectCandidates
    refine Behind.bind (Q := fun _ s => n ≤ s.clock) ?_ fun reclaimed => ih _
    refine Behind.pre (Behind.post (Behind.clock n collectCandidate_behind) fun _ s hq => hq.1) fun s hp => ?_
    exact ⟨hp, hp⟩

theorem collectExpiredUnreferencedNodes_behind {maxNodes : Int} :
    Plain codec strict i (collectExpiredUnreferencedNodes i.scope maxNodes) := by
  unfold collectExpiredUnreferencedNodes
  refine Behind.bind Behind.require fun _ => ?_
  refine Behind.bind (Behind.now (lasting_true.and (Lasting.const _))) fun n => ?_
  refine Behind.pre (P := fun s => n ≤ s.clock) ?_ fun s hp => hp.2
  refine Behind.bind (Behind.query_const (Lasting.clock n)) fun candidates => ?_
  exact Behind.bind (collectCandidates_behind candidates _) fun _ => Behind.pure fun _ _ => trivial

end Collections

end UniDocs.Cas
