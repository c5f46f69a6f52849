import UniDocs.Lemmas.TenantRequests

/-!
# Root ref updates behind the gate

A root ref update runs behind the gate of its tenant, so the rows it has read are still there when it commits. This
makes the gate a setting for updates, and completes the requests of the tenant object.
-/

namespace UniDocs.Cas

open Lib TenantWritesAux LedgerCommitAux DomainAux

/-- The obligations of a request when the calls in scope are `A`. -/
def guardedSpec (codec : Codec) (A : Guard Call State) (strict : Prop) (i : RequestId) : Spec Call State :=
  ⟨exec codec, A, Inv strict, Rely i, Guar strict i⟩

/-- The root ref scope of a request's tenant in a domain. -/
def RequestId.rootRefScope (i : RequestId) (refDomain : String) : RootRefScope :=
  ⟨i.scope.stackId, i.scope.tenantId, refDomain⟩

/-! ## A commit keeps the discipline -/

section Commit

variable {strict : Prop} {i : RequestId} {plan : RootRefCommitPlan} {s : State} {sc : RootRefScope} {t' : Tenant} {l' : Ledger}

variable {t : Tenant} {l : Ledger}

/-- A commit changes no row's presence. -/
theorem mem_committed (hc : Committed plan t l t' l') (h : Hash) : h ∈ t'.nodes ↔ h ∈ t.nodes := by
  rw [AList.mem_iff_lookup, AList.mem_iff_lookup]
  simp only [hc.nodes h, Option.map_eq_some_iff]
  constructor
  · rintro ⟨_, row, hr, -⟩
    exact ⟨row, hr⟩
  · rintro ⟨row, hr⟩
    exact ⟨_, row, hr, rfl⟩

theorem stored_committed (hc : Committed plan t l t' l') (h : Hash) : t'.stored h ↔ t.stored h := by
  rw [Tenant.stored, Tenant.stored, hc.objects]

theorem row_committed (hc : Committed plan t l t' l') {h : Hash} {row : NodeRow}
    (hr : t'.nodes.lookup h = some row) :
    ∃ r, t.nodes.lookup h = some r ∧ row = r.addRoots (plan.entries.delta h) := by
  rw [hc.nodes h, Option.map_eq_some_iff] at hr
  obtain ⟨r, hl, he⟩ := hr
  exact ⟨r, hl, he.symm⟩

theorem refCounts_committed (hc : Committed plan t l t' l') (h : RefCounts t) : RefCounts t' where
  counts k row hr := by
    obtain ⟨r, hl, rfl⟩ := row_committed hc hr
    rw [Tenant.incoming, hc.edges]
    exact h.counts k r hl
  endpoints p j c he := by
    rw [hc.edges] at he
    rw [mem_committed hc, mem_committed hc]
    exact h.endpoints p j c he
  roots k row hr := hc.range k row hr fun r hl => h.roots k r hl

/-- A positive change of a hash comes from an entry with a positive delta. -/
theorem exists_pos_of_delta {es : Entries} {h : Hash} (hd : 0 < es.delta h) : ∃ e ∈ es, e.1 = h ∧ 0 < e.2 := by
  induction es with
  | nil => cases hd
  | cons a es ih =>
    rw [delta_cons] at hd
    by_cases ha : a.1 = h ∧ 0 < a.2
    · exact ⟨a, List.mem_cons_self, ha⟩
    · have hes : 0 < Entries.delta es h := by
        by_cases hk : a.1 = h
        · simp only [hk, if_true] at hd
          have : ¬ 0 < a.2 := fun hp => ha ⟨hk, hp⟩
          omega
        · simpa [hk] using hd
      obtain ⟨e, he, h1, h2⟩ := ih hes
      exact ⟨e, List.mem_cons_of_mem a he, h1, h2⟩

/-- References are added to stored nodes only. -/
theorem backed_committed (hc : Committed plan t l t' l')
    (hready : ∀ e ∈ plan.entries, 0 < e.2 → t.stored e.1) (h : Backed t) : Backed t' := by
  intro k row hr hpos
  rw [stored_committed hc]
  obtain ⟨r, hl, rfl⟩ := row_committed hc hr
  rcases hpos with hpos | hpos
  · exact h k r hl (.inl hpos)
  · by_cases hd : 0 < plan.entries.delta k
    · obtain ⟨e, he, rfl, hp⟩ := exists_pos_of_delta hd
      exact hready e he hp
    · refine h k r hl (.inr ?_)
      simp only [NodeRow.addRoots] at hpos
      omega

/-- The root counts follow the recorded changes, since every changed hash has a row. -/
theorem rootCount_committed (hc : Committed plan t l t' l')
    (hrow : ∀ e ∈ plan.entries, e.1 ∈ t.nodes) (h : Hash) :
    t'.rootCount h = t.rootCount h + plan.entries.delta h := by
  simp only [Tenant.rootCount, hc.nodes h]
  cases hl : t.nodes.lookup h with
  | some row => rfl
  | none =>
    have hd : plan.entries.delta h = 0 := by
      refine delta_of_not_mem fun hm => ?_
      obtain ⟨e, he, rfl⟩ := List.mem_map.mp hm
      exact absurd (hrow e he) (AList.lookup_eq_none.mp hl)
    simp [hd]

/-- The invariant after a commit behind the gate. -/
theorem inv_committed (hi : Inv strict s) (hgate : (s.inst sc.tenant).gate ≠ none) (hsc : plan.scope = sc)
    (hrow : ∀ e ∈ plan.entries, e.1 ∈ (s.tenant sc.tenant).nodes)
    (hready : ∀ e ∈ plan.entries, 0 < e.2 → (s.tenant sc.tenant).stored e.1)
    (hc : Committed plan (s.tenant sc.tenant) s.ledger t' l') : Inv strict (s.committed sc t' l') := by
  have htenant : ∀ sc', (s.committed sc t' l').tenant sc' = if sc' = sc.tenant then t' else s.tenant sc' := by
    intro sc'
    by_cases h : sc' = sc.tenant
    · subst h
      simp [State.committed]
    · simp [State.committed, h]
  refine ⟨fun sc' => ?_, fun hs sc' => ?_, fun hs sc' hg => ?_, ledgerOk_committed hi.ledger hc, fun sc' h => ?_⟩
  · rw [htenant]
    split
    · exact refCounts_committed hc (hi.counts sc.tenant)
    · exact hi.counts sc'
  · rw [htenant]
    split
    · exact backed_committed hc hready (hi.backed hs sc.tenant)
    · exact hi.backed hs sc'
  · have hne : sc' ≠ sc.tenant := fun h => hgate (h ▸ hg)
    intro k hm hcr
    rw [htenant, if_neg hne] at hm ⊢
    exact hi.cache hs sc' hg k hm hcr
  · have hl : l'.allDomains sc' h = s.ledger.allDomains sc' h + if sc' = sc.tenant then plan.entries.delta h else 0 := by
      rw [hc.allDomains, hsc]
    rw [htenant]
    show _ = l'.allDomains sc' h
    rw [hl]
    split
    · rename_i heq
      subst heq
      rw [rootCount_committed hc hrow h, hi.roots sc.tenant h]
    · rw [hi.roots sc' h, add_zero]

/-- The guarantee of a commit behind the gate. -/
theorem guar_committed (hgate : (s.inst i.scope).gate = some i.n) (hsc : sc.tenant = i.scope)
    (hc : Committed plan (s.tenant sc.tenant) s.ledger t' l') : Guar strict i s (s.committed sc t' l') := by
  have ht : (s.committed sc t' l').tenant i.scope = t' := by
    rw [← hsc]
    simp [State.committed]
  rw [hsc] at hc
  refine ⟨rfl, le_committed hc, fun sc' hne => ⟨?_, rfl⟩, fun h => absurd hgate h, fun h => .inl h, ?_, ?_⟩
  · simp [State.committed, hsc, hne]
  · intro h row hr hn
    rw [ht, mem_committed hc] at hn
    exact absurd (AList.mem_of_lookup hr) hn
  · intro _ h hn hm
    rw [ht, mem_committed hc] at hm
    exact absurd hm hn

/-- The holder of the gate still holds it after its commit, over a sound cache. -/
theorem gated_committed (hg : Gated strict i s) (hsc : sc.tenant = i.scope)
    (hc : Committed plan (s.tenant sc.tenant) s.ledger t' l') : Gated strict i (s.committed sc t' l') := by
  have ht : (s.committed sc t' l').tenant i.scope = t' := by
    rw [← hsc]
    simp [State.committed]
  refine ⟨hg.1, fun hs k hm hcr => ?_⟩
  rw [hsc] at hc
  rw [ht, mem_committed hc] at hm
  rw [ht, stored_committed hc]
  exact hg.2 hs k hm hcr

end Commit

/-! ## The gate as a setting -/

section Setting

variable {codec : Codec} {A : Guard Call State} {strict : Prop} {i : RequestId}

/-- The gate is a setting for the updates of its tenant: rows and objects that were seen behind it stay. -/
def gateCtx (codec : Codec) (A : Guard Call State) (strict : Prop) (i : RequestId) (refDomain : String)
    (c : CanonicalRootRefsUpdate) (lossy : Prop) (hlost : ∀ plan s, A _ (.commitRootRefs plan) .lost s → lossy) :
    DomainCtx codec (guardedSpec codec A strict i) (i.rootRefScope refDomain) c where
  pre := Gated strict i
  row h s := h ∈ (s.tenant i.scope).nodes
  ready h s := (s.tenant i.scope).stored h
  lossy := lossy
  exec_eq _ _ _ := rfl
  ledgerOk _ hi := hi.ledger
  le _ _ hr := hr.ledger
  stable_pre s s' hi hi' hr hp := @stable_gated codec strict i s s' hi hi' hr hp
  stable_row h s s' hi hi' hr hp := by
    refine @stable_inGate codec strict i (fun s => h ∈ (s.tenant i.scope).nodes) ?_ s s' hi hi' hr hp
    exact Lasting.nodes fun nodes => h ∈ nodes
  stable_ready h s s' hi hi' hr hp := @stable_inGate codec strict i _ (Lasting.stored h) s s' hi hi' hr hp
  row_of _ _ _ _ hm := hm
  ready_of _ _ _ _ hm := hm
  refl s := Guar.refl s
  lost := hlost
  commit plan s t' l' hi hp hsc _ _ hrow hready _ hc := by
    have hgate : (s.inst (i.rootRefScope refDomain).tenant).gate ≠ none := by
      intro hn
      have hg : (s.inst (i.rootRefScope refDomain).tenant).gate = some i.n := hp.1
      rw [hn] at hg
      cases hg
    exact ⟨inv_committed hi hgate hsc hrow hready hc, guar_committed hp.1 rfl hc, gated_committed hp rfl hc⟩

/-- Nothing is said of the program's own calls. -/
def noHistory (S : Spec Call State) (sc : RootRefScope) (c : CanonicalRootRefsUpdate) : History S sc c where
  live _ := True
  done _ := True
  stable_live := Stable.const True
  stable_done := Stable.const True
  read _ _ _ := trivial
  commit _ _ _ _ _ _ _ _ _ _ _ := trivial

/-- A call that changes neither the ledger nor a tenant's store. -/
def Quiet (q : State × State) : Prop := q.2.ledger = q.1.ledger ∧ q.2.tenant = q.1.tenant

/-- None of the program's own calls has changed a table. -/
def AllQuiet (x : Traced) : Prop := ∀ q ∈ x.2, Quiet q

theorem allQuiet_snoc {s s' : State} {st : List (State × State)} (h : AllQuiet (s, st)) (hq : Quiet (s, s')) :
    AllQuiet (s', st ++ [(s, s')]) := by
  intro q hm
  rcases List.mem_append.mp hm with hm | hm
  · exact h q hm
  · rw [List.mem_singleton.mp hm]
    exact hq

variable {S : Spec Call State}

theorem stable_allQuiet : Stable S.withSteps AllQuiet := by
  intro x y _ _ hr h
  rw [AllQuiet, hr.2]
  exact h

/-- Until it commits, an update changes no table. -/
def quietHistory (S : Spec Call State) (sc : RootRefScope) (c : CanonicalRootRefsUpdate) : History S sc c where
  live := AllQuiet
  done _ := True
  stable_live := stable_allQuiet
  stable_done := Stable.const True
  read _ _ h := allQuiet_snoc h ⟨rfl, rfl⟩
  commit _ _ _ _ _ _ _ _ _ _ _ := trivial

/-- What is said of the program's own calls: others cannot take it away, nor a call that changes no table. -/
structure Tracked (S : Spec Call State) (H : Traced → Prop) : Prop where
  stable : Stable S.withSteps H
  quiet : ∀ s s' st, Quiet (s, s') → H (s, st) → H (s', st ++ [(s, s')])

theorem tracked_allQuiet : Tracked S AllQuiet := ⟨stable_allQuiet, fun _ _ _ hq h => allQuiet_snoc h hq⟩

theorem tracked_const (p : Prop) : Tracked S fun _ => p := ⟨Stable.const p, fun _ _ _ _ h => h⟩

theorem Tracked.or {H H' : Traced → Prop} (h : Tracked S H) (h' : Tracked S H') :
    Tracked S fun x => H x ∨ H' x where
  stable x y hi hi' hr hp := hp.imp (h.stable x y hi hi' hr) (h'.stable x y hi hi' hr)
  quiet s s' st hq hp := hp.imp (h.quiet s s' st hq) (h'.quiet s s' st hq)

theorem traced_perform {c : Call Unit} {P Q : State → Prop} {H : Traced → Prop} {E : CasError → Traced → Prop}
    (hH : Tracked (guardedSpec codec A strict i) H) (hQ : Stable (guardedSpec codec A strict i) Q)
    (h : ∀ g s s' b, Inv strict s → P s → exec codec c g s = some (s', b) →
      Inv strict s' ∧ Guar strict i s s' ∧ Q s' ∧ s'.ledger = s.ledger ∧ s'.tenant = s.tenant) :
    Triple (guardedSpec codec A strict i).withSteps (fun x => P x.1 ∧ H x) (Prog.perform c) (fun _ x => Q x.1 ∧ H x) E := by
  refine Triple.perform (fun _ => ?_) ?_
  · exact fun x y hi hi' hr hp => ⟨hQ x.1 y.1 hi hi' hr.1 hp.1, hH.stable x y hi hi' hr hp.2⟩
  · rintro g ⟨s, st⟩ y b hi ⟨hp, hh⟩ _ he
    simp only [Spec.withSteps, guardedSpec] at he
    split at he
    · rename_i s' _ hx
      cases he
      obtain ⟨h1, h2, h3, hl, ht⟩ := h g s s' b hi hp hx
      exact ⟨h1, ⟨h2, rfl⟩, h3, hH.quiet s s' st ⟨hl, ht⟩ hh⟩
    · cases he

/-- An operation behind the gate, with what is said of the program's own calls. -/
theorem withMutation_traced {α : Type} {p : Op α} {H H₁ H₂ : Traced → Prop} (hH : Tracked (guardedSpec codec A strict i) H)
    (hH₁ : Tracked (guardedSpec codec A strict i) H₁) (hH₂ : Tracked (guardedSpec codec A strict i) H₂)
    (hp : Triple (guardedSpec codec A strict i).withSteps (fun x => Gated strict i x.1 ∧ H x) p
      (fun _ x => Gated strict i x.1 ∧ H₁ x) fun _ x => Gated strict i x.1 ∧ H₂ x) :
    Triple (guardedSpec codec A strict i).withSteps (fun x => Outside i x.1 ∧ H x) (withMutation i p)
      (fun _ x => Outside i x.1 ∧ H₁ x) fun _ x => Outside i x.1 ∧ H₂ x := by
  have hgated : Stable (guardedSpec codec A strict i) (Gated strict i) := @stable_gated codec strict i
  have hout : Stable (guardedSpec codec A strict i) (Outside i) := @stable_outside codec strict i
  refine Triple.bind (traced_perform hH hgated fun g s s' b hi _ he => acquire_exec hi he) fun _ => ?_
  refine Triple.tryFinally hp (fun a => ?_) fun e => ?_
  · exact traced_perform hH₁ hout fun g s s' b hi hg he => release_exec hi hg he
  · exact traced_perform hH₂ hout fun g s s' b hi hg he => release_exec hi hg he

/-- A program that starts and ends outside the gate, in any scope of calls within the discipline's. -/
theorem Loose.traced {α : Type} {p : Op α} (hA : ∀ β c f s, A β c f s → orderly strict β c f s)
    (hp : Loose codec strict i p) :
    Triple (guardedSpec codec A strict i).withSteps (fun x => Outside i x.1) p (fun _ x => Outside i x.1)
      fun _ x => Outside i x.1 := by
  refine Triple.withSteps (S := guardedSpec codec A strict i) ?_
  intro s hi hs
  exact Safe.restrict hA (hp s hi hs)

end Setting

/-! ## The requests -/

section Requests

variable {cfg : Config} {A : Guard Call State} {strict : Prop} {i : RequestId}

/-- Always, whatever becomes of the answer of a commit. -/
theorem lossy_true : ∀ plan s, A _ (.commitRootRefs plan) .lost s → True := fun _ _ _ => trivial

/-- A body that is not canonical is answered with an error, without a call. -/
theorem domainFetch_invalid (sc : RootRefScope) {body : RootRefsBody} {e : CasError}
    (h : canonicalizeRootRefsUpdate cfg.codec body = .error e) :
    ∃ status code message, domainFetch cfg sc body = pure (.error status code message) := by
  unfold domainFetch
  rw [h]
  cases e <;> exact ⟨_, _, _, rfl⟩

/-- A command to the domain object, sent from behind the gate. -/
theorem domainFetch_gated {refDomain : String} {body : RootRefsBody} :
    Triple (guardedSpec cfg.codec A strict i).withSteps (fun x => Gated strict i x.1)
      (domainFetch cfg (i.rootRefScope refDomain) body) (fun _ x => Gated strict i x.1) fun _ x => Gated strict i x.1 := by
  cases hbody : canonicalizeRootRefsUpdate cfg.codec body with
  | ok c =>
    refine (domainFetch_triple (C := gateCtx cfg.codec A strict i refDomain c True lossy_true) (K := noHistory _ _ c)
      hbody rfl fun _ _ => trivial).conseq ?_ ?_ ?_
    · exact fun x _ hx => ⟨hx, trivial, trivial⟩
    · intro r x _ hx
      cases r with
      | ok result => exact hx.1
      | error status code message => exact hx.1
    · exact fun _ _ _ hx => hx.elim
  | error e =>
    obtain ⟨_, _, _, hr⟩ := domainFetch_invalid (i.rootRefScope refDomain) hbody
    rw [hr]
    exact Triple.pure fun _ _ hx => hx

/-- A message between objects changes nothing. -/
theorem hop_gated : Triple (guardedSpec cfg.codec A strict i).withSteps (fun x => Gated strict i x.1)
    (Prog.attempt .hop : Op Unit) (fun _ x => Gated strict i x.1) fun _ x => Gated strict i x.1 := by
  have hgated : Stable (guardedSpec cfg.codec A strict i) (Gated strict i) := @stable_gated cfg.codec strict i
  refine Triple.withSteps (S := guardedSpec cfg.codec A strict i) (Triple.attempt (fun _ => hgated) (fun _ => hgated) ?_)
  intro g s s' r hi hp _ he
  have hx : exec cfg.codec .hop g s = some (s', r) := he
  cases g <;> cases hx <;> exact ⟨hi, Guar.refl _, hp⟩

theorem forwardRootRefs_gated {refDomain : String} {body : RootRefsBody} :
    Triple (guardedSpec cfg.codec A strict i).withSteps (fun x => Gated strict i x.1)
      (forwardRootRefs cfg i refDomain body) (fun _ x => Gated strict i x.1) fun _ x => Gated strict i x.1 := by
  unfold forwardRootRefs
  split
  · exact Triple.pure fun _ _ hx => hx
  · exact Triple.pure fun _ _ hx => hx
  · refine Triple.bind hop_gated fun _ => Triple.bind domainFetch_gated fun response => ?_
    exact Triple.bind hop_gated fun _ => Triple.pure fun _ _ hx => hx

theorem tenantFetch_traced (hA : ∀ β c f s, A β c f s → orderly strict β c f s) (r : Request) :
    Triple (guardedSpec cfg.codec A strict i).withSteps (fun x => Outside i x.1) (tenantFetch cfg i r)
      (fun _ x => Outside i x.1) fun _ x => Outside i x.1 := by
  cases r with
  | lease r => exact Loose.traced hA (respond_loose (Loose.bind handleLease_loose fun _ => Loose.pure))
  | gc maxNodes => exact Loose.traced hA (respond_loose (Loose.bind handleGc_loose fun _ => Loose.pure))
  | updateRootRefs refDomain body =>
    refine Triple.tryCatch (F := fun _ x => Outside i x.1) ?_ fun e => ?_
    · refine Triple.bind (Q := fun _ x => Outside i x.1) ?_ fun response => Triple.pure fun _ _ hx => hx
      refine (withMutation_traced (tracked_const True) (tracked_const True) (tracked_const True)
        (forwardRootRefs_gated.conseq ?_ ?_ ?_)).conseq ?_ ?_ ?_
      · exact fun _ _ hx => hx.1
      · exact fun _ _ _ hx => ⟨hx, trivial⟩
      · exact fun _ _ _ hx => ⟨hx, trivial⟩
      · exact fun _ _ hx => ⟨hx, trivial⟩
      · exact fun _ _ _ hx => hx.1
      · exact fun _ _ _ hx => hx.1
    · cases e <;> exact Triple.pure fun _ _ hx => hx

end Requests

/-! ## The discipline of the pool -/

section Pool

variable {strict : Prop} {i j : RequestId} {s s' s'' : State}

theorem Rely.refl (i : RequestId) (s : State) : Rely i s s :=
  ⟨le_refl _, Ledger.Le.refl _, fun h => ⟨h, Kept.refl _, rfl⟩, fun h => h⟩

theorem Rely.trans (h : Rely i s s') (h' : Rely i s' s'') : Rely i s s'' where
  clock := le_trans h.clock h'.clock
  ledger := h.ledger.trans h'.ledger
  held hg := by
    obtain ⟨hg₁, hk₁, hm₁⟩ := h.held hg
    obtain ⟨hg₂, hk₂, hm₂⟩ := h'.held hg₁
    exact ⟨hg₂, hk₁.trans hk₂, hm₂.trans hm₁⟩
  free hg := h'.free (h.free hg)

/-- What one request guarantees is what another relies on: of two requests of a tenant only one holds the gate. -/
theorem Guar.rely (hne : i ≠ j) (h : Guar strict i s s') : Rely j s s' := by
  refine ⟨le_of_eq h.clock.symm, h.ledger, fun hg => ?_, fun hg => ?_⟩
  · by_cases hsc : j.scope = i.scope
    · have hn : (s.inst i.scope).gate ≠ some i.n := by
        rw [← hsc, hg]
        intro he
        exact hne (by cases i; cases j; simp_all)
      obtain ⟨hk, hm, hgate⟩ := h.outside hn
      rw [hsc] at hg ⊢
      refine ⟨?_, hk, hm⟩
      rcases hgate with heq | ⟨hnone, -⟩
      · rw [heq, hg]
      · rw [hg] at hnone
        cases hnone
    · obtain ⟨ht, hm⟩ := h.tenants j.scope hsc
      rw [ht, hm]
      exact ⟨hg, Kept.refl _, rfl⟩
  · by_cases hsc : j.scope = i.scope
    · rw [hsc] at hg ⊢
      have hin : some i.n ≠ some j.n := by
        intro he
        exact hne (by cases i; cases j; simp_all)
      by_cases hn : (s.inst i.scope).gate = some i.n
      · rcases h.inside hn with heq | heq
        · rw [heq]
          exact hin
        · rw [heq]
          exact fun he => by cases he
      · obtain ⟨-, -, heq | ⟨-, heq⟩⟩ := h.outside hn
        · rw [heq]
          exact hg
        · rw [heq]
          exact hin
    · rw [(h.tenants j.scope hsc).2]
      exact hg

/-- An event keeps the invariant: a fresh instance trusts nothing. -/
theorem inv_event (e : Event) (hi : Inv strict s) : Inv strict (e.apply s) := by
  cases e with
  | tick ms =>
    refine ⟨hi.counts, hi.backed, fun hs sc hg => ?_, hi.ledger, hi.roots⟩
    exact cacheSound_mono (s := s) (Nat.le_add_right _ _) (Kept.refl _) rfl (hi.cache hs sc hg)
  | putTemporary key body => exact inv_temporaries hi
  | restart sc =>
    refine inv_setInst hi fun _ _ k _ hcr => ?_
    obtain ⟨n, hl, -⟩ := cachedReady_iff.mp hcr
    simp [Instance.fresh] at hl

theorem rely_event (cfg : Config) (e : Event) (hk : (machine cfg).kills e i = false) : Rely i s (e.apply s) := by
  cases e with
  | tick ms => exact ⟨Nat.le_add_right _ _, Ledger.Le.refl _, fun h => ⟨h, Kept.refl _, rfl⟩, fun h => h⟩
  | putTemporary key body => exact ⟨le_refl _, Ledger.Le.refl _, fun h => ⟨h, Kept.refl _, rfl⟩, fun h => h⟩
  | restart sc =>
    have hne : i.scope ≠ sc := by simpa [machine] using hk
    refine ⟨le_refl _, Ledger.Le.refl _, fun h => ?_, fun h => ?_⟩
    · simp only [Event.apply, setInst_inst_ne hne]
      exact ⟨h, Kept.refl _, trivial⟩
    · simpa only [Event.apply, setInst_inst_ne hne] using h

theorem idle_event (cfg : Config) (e : Event) (hk : (machine cfg).kills e i = true) : Outside i (e.apply s) := by
  cases e with
  | tick ms => cases hk
  | putTemporary key body => cases hk
  | restart sc =>
    have heq : i.scope = sc := by simpa [machine] using hk
    subst heq
    simp [Outside, Event.apply, Instance.fresh]

theorem inv_empty : Inv strict State.empty where
  counts _ := ⟨by rintro h row ⟨⟩, by rintro p i c ⟨⟩, by rintro h row ⟨⟩⟩
  backed _ _ := by rintro h row ⟨⟩
  cache _ _ _ := by
    intro h hm
    exact absurd hm (AList.notMem_empty h)
  ledger := ledgerOk_empty
  roots _ _ := rfl

/-- The discipline of all requests, in runs whose calls are orderly. -/
def serviceProof (cfg : Config) (strict : Prop) : Proof (machine cfg) where
  inv := Inv strict
  allowed := orderly strict
  rely := Rely
  guar i _ := Guar strict i
  idle := Outside
  post _ _ _ _ := True
  rely_refl := Rely.refl
  rely_trans _ _ _ _ h h' := h.trans h'
  guar_rely _ _ _ _ _ hne _ _ h := h.rely hne
  idle_rely _ _ _ _ _ hr h := hr.free h
  env_inv e s s' hi he := by
    cases he
    exact inv_event e hi
  env_rely e s s' i _ he hk := by
    cases he
    exact rely_event cfg e hk
  env_idle e s s' i _ he hk := by
    cases he
    exact idle_event cfg e hk
  serve_safe i q s hi hs := by
    refine Safe.mono ?_ (tenantFetch_traced (A := orderly strict) (fun _ _ _ _ h => h) q (s, []) hi hs)
    exact fun _ _ _ _ => trivial

theorem start_initial {cfg : Config} : (serviceProof cfg strict).Initial start :=
  ⟨inv_empty, fun _ => rfl, fun _ => by simp [serviceProof, Outside, start, State.empty, Instance.fresh]⟩

end Pool

end UniDocs.Cas
