import UniDocs.Cas.RootRefs
import UniDocs.Lemmas.TenantWrites

/-!
# What a root ref commit does to the ledger

A ledger is in order when the event revisions of each domain are exactly those allocated, each projection is the sum of
the recorded deltas, and the request identities and the events name each other. A commit whose expected revision is one
the domain has really had either fails or is the next event: a stale revision meets an event that is already recorded.
-/

namespace UniDocs.Cas

open Lib TenantWritesAux

/-- The ledger tables agree with each other. -/
structure LedgerOk (l : Ledger) : Prop where
  revisions : ∀ d n, (d, n) ∈ l.events ↔ 1 ≤ n ∧ n ≤ l.revision d
  balances : ∀ sc h, l.balance sc h = l.recorded sc h
  requests : ∀ sc r record, l.requests.lookup (sc, r) = some record → ∃ e, l.events.lookup (sc.domain, record.revision) = some e ∧
    e.tenantId = sc.tenantId ∧ e.requestId = r ∧ e.payloadHash = record.payloadHash
  events : ∀ d n e, l.events.lookup (d, n) = some e → ∃ record,
    l.requests.lookup (⟨d.stackId, e.tenantId, d.refDomain⟩, e.requestId) = some record ∧ record.revision = n ∧
    record.payloadHash = e.payloadHash

/-- What other updates may do to the ledger: revisions grow, the balances of a domain move only with its revision, and
nothing recorded is lost or changed. -/
structure Ledger.Le (l l' : Ledger) : Prop where
  revision : ∀ d, l.revision d ≤ l'.revision d
  refs : ∀ sc, l.revision sc.domain = l'.revision sc.domain → ∀ h, l'.refs.lookup (sc, h) = l.refs.lookup (sc, h)
  events : ∀ k e, l.events.lookup k = some e → l'.events.lookup k = some e
  requests : ∀ k r, l.requests.lookup k = some r → l'.requests.lookup k = some r

theorem Ledger.Le.refl (l : Ledger) : Ledger.Le l l :=
  ⟨fun _ => le_refl _, fun _ _ _ => rfl, fun _ _ h => h, fun _ _ h => h⟩

theorem Ledger.Le.trans {l l₁ l₂ : Ledger} (h : Ledger.Le l l₁) (h' : Ledger.Le l₁ l₂) : Ledger.Le l l₂ where
  revision d := le_trans (h.revision d) (h'.revision d)
  refs sc he hash := by
    have h1 := h.revision sc.domain
    have h2 := h'.revision sc.domain
    rw [h'.refs sc (by omega) hash, h.refs sc (by omega) hash]
  events k e hk := h'.events k e (h.events k e hk)
  requests k r hk := h'.requests k r (h.requests k r hk)

/-- A plan made from a revision the domain has had, with the balances of that revision. -/
structure PlanOk (plan : RootRefCommitPlan) (balances : Hash → Option Int) (l : Ledger) : Prop where
  keys : (plan.entries.map Prod.fst).Nodup
  next : plan.revision = plan.expectedRevision + 1
  projections : plan.projections = plan.entries.map fun e =>
    ⟨e.1, if (balances e.1).getD 0 + e.2 = 0 then none else some ((balances e.1).getD 0 + e.2)⟩
  seen : plan.expectedRevision ≤ l.revision plan.scope.domain
  current : plan.expectedRevision = l.revision plan.scope.domain → ∀ h, balances h = l.refs.lookup (plan.scope, h)

/-- The effect of a commit: the next event of its domain, the request identity, and the deltas on the projections and
on the node rows. -/
structure Committed (plan : RootRefCommitPlan) (t : Tenant) (l : Ledger) (t' : Tenant) (l' : Ledger) : Prop where
  unused : l.requests.lookup (plan.scope, plan.requestId) = none
  next : plan.revision = l.revision plan.scope.domain + 1
  newEvent : l.events.lookup (plan.scope.domain, plan.revision) = none
  events : l'.events = l.events.insert (plan.scope.domain, plan.revision)
    ⟨plan.scope.tenantId, plan.requestId, plan.payloadHash, plan.entries, plan.appliedAt⟩
  requests : l'.requests = l.requests.insert (plan.scope, plan.requestId) ⟨plan.payloadHash, plan.revision, plan.appliedAt⟩
  revision : ∀ d, l'.revision d = if d = plan.scope.domain then plan.revision else l.revision d
  balance : ∀ h, l'.balance plan.scope h = l.balance plan.scope h + plan.entries.delta h
  otherRefs : ∀ sc h, sc ≠ plan.scope → l'.refs.lookup (sc, h) = l.refs.lookup (sc, h)
  allDomains : ∀ sc h, l'.allDomains sc h = l.allDomains sc h + if sc = plan.scope.tenant then plan.entries.delta h else 0
  edges : t'.edges = t.edges
  objects : t'.objects = t.objects
  nodes : ∀ k, t'.nodes.lookup k = (t.nodes.lookup k).map fun row => row.addRoots (plan.entries.delta k)
  range : ∀ k row, t'.nodes.lookup k = some row → (∀ r, t.nodes.lookup k = some r → 0 ≤ r.rootRefCount) → 0 ≤ row.rootRefCount

namespace LedgerCommitAux

theorem delta_nil (h : Hash) : Entries.delta [] h = 0 := rfl

theorem delta_cons (e : Hash × Int) (es : Entries) (h : Hash) :
    Entries.delta (e :: es) h = (if e.1 = h then e.2 else 0) + Entries.delta es h := by
  simp [Entries.delta]

/-- A hash that is not among the keys is not changed. -/
theorem delta_of_not_mem {es : Entries} {h : Hash} (hm : h ∉ es.map Prod.fst) : es.delta h = 0 := by
  induction es with
  | nil => rfl
  | cons e es ih =>
    simp only [List.map_cons, List.mem_cons, not_or] at hm
    rw [delta_cons, if_neg (Ne.symm hm.1), ih hm.2, add_zero]

/-! ## One projection -/

theorem setProjection_tables (sc : RootRefScope) (p : RootRefProjectionChange) (l : Ledger) :
    (setProjection sc p l).events = l.events ∧ (setProjection sc p l).requests = l.requests ∧
    (setProjection sc p l).revisions = l.revisions := by
  unfold setProjection
  split <;> exact ⟨rfl, rfl, rfl⟩

theorem setProjection_balance (sc : RootRefScope) (p : RootRefProjectionChange) (l : Ledger) (h : Hash) :
    (setProjection sc p l).balance sc h = if h = p.hash then p.refCount.getD 0 else l.balance sc h := by
  unfold setProjection Ledger.balance
  split
  · rename_i hn
    simp only [AList.lookup_erase_eq, Prod.mk.injEq, true_and, hn]
    split <;> simp
  · rename_i n hn
    simp only [AList.lookup_insert_eq, Prod.mk.injEq, true_and, hn]
    split <;> simp

theorem setProjection_other (sc sc' : RootRefScope) (p : RootRefProjectionChange) (l : Ledger) (h : Hash) (hne : sc' ≠ sc) :
    (setProjection sc p l).refs.lookup (sc', h) = l.refs.lookup (sc', h) := by
  unfold setProjection
  split
  · simp [hne]
  · simp [hne]

theorem setProjection_allDomains (sc : RootRefScope) (p : RootRefProjectionChange) (l : Ledger) (sc' : Scope) (h : Hash) :
    (setProjection sc p l).allDomains sc' h =
      l.allDomains sc' h + if sc' = sc.tenant ∧ h = p.hash then p.refCount.getD 0 - l.balance sc p.hash else 0 := by
  have hpart : l.refs.part (fun k n => if k.1.tenant = sc' ∧ k.2 = h then n else 0) (sc, p.hash) =
      if sc' = sc.tenant ∧ h = p.hash then l.balance sc p.hash else 0 := by
    unfold AList.part Ledger.balance
    by_cases hk : sc' = sc.tenant ∧ h = p.hash
    · obtain ⟨rfl, rfl⟩ := hk
      cases l.refs.lookup (sc, p.hash) <;> simp
    · have : ¬ (sc.tenant = sc' ∧ p.hash = h) := fun hx => hk ⟨hx.1.symm, hx.2.symm⟩
      cases l.refs.lookup (sc, p.hash) <;> simp [hk, this]
  unfold setProjection Ledger.allDomains
  split
  · rename_i hn
    simp only [AList.total_erase, hpart, hn]
    split <;> simp [sub_eq_add_neg]
  · rename_i n hn
    simp only [AList.total_insert, hpart, hn]
    by_cases hk : sc' = sc.tenant ∧ h = p.hash
    · obtain ⟨rfl, rfl⟩ := hk
      simp
      ring
    · have : ¬ (sc.tenant = sc' ∧ p.hash = h) := fun hx => hk ⟨hx.1.symm, hx.2.symm⟩
      simp [hk, this]

/-! ## All entries -/

/-- The projection of a key, when keys are distinct. -/
theorem find_projection {es : Entries} (f : Hash × Int → Option Int) (hk : (es.map Prod.fst).Nodup) {e : Hash × Int} (he : e ∈ es) :
    (es.map fun e => (⟨e.1, f e⟩ : RootRefProjectionChange)).find? (fun p => p.hash = e.1) = some ⟨e.1, f e⟩ := by
  induction es with
  | nil => simp at he
  | cons a es ih =>
    simp only [List.map_cons, List.nodup_cons] at hk
    rw [List.map_cons, List.find?_cons]
    rcases List.mem_cons.mp he with rfl | he
    · simp
    · have hne : a.1 ≠ e.1 := by
        intro heq
        exact hk.1 (heq ▸ List.mem_map_of_mem he)
      simp [hne, ih hk.2 he]

/-- The statements of the changed hashes leave the events, the requests and the revisions alone. -/
theorem commitEntries_tables {plan : RootRefCommitPlan} {es : Entries} : ∀ {t t' : Tenant} {l l' : Ledger},
    commitEntries plan es (t, l) = some (t', l') →
    l'.events = l.events ∧ l'.requests = l.requests ∧ l'.revisions = l.revisions := by
  induction es with
  | nil =>
    intro t t' l l' h
    cases h
    exact ⟨rfl, rfl, rfl⟩
  | cons e es ih =>
    intro t t' l l' h
    simp only [commitEntries] at h
    split at h
    · rename_i p _ _
      obtain ⟨h1, h2, h3⟩ := ih h
      obtain ⟨g1, g2, g3⟩ := setProjection_tables plan.scope p l
      exact ⟨h1.trans g1, h2.trans g2, h3.trans g3⟩
    · cases h

/-- The statements of the changed hashes, by induction over the entries that are left. -/
theorem commitEntries_spec {plan : RootRefCommitPlan} (f : Hash × Int → Option Int) :
    ∀ {es : Entries} {t t' : Tenant} {l l' : Ledger}, (es.map Prod.fst).Nodup →
    (∀ e ∈ es, plan.projections.find? (fun p => p.hash = e.1) = some ⟨e.1, f e⟩) →
    (∀ e ∈ es, (f e).getD 0 = l.balance plan.scope e.1 + e.2) →
    commitEntries plan es (t, l) = some (t', l') →
    (∀ h, l'.balance plan.scope h = l.balance plan.scope h + es.delta h) ∧
    (∀ sc h, sc ≠ plan.scope → l'.refs.lookup (sc, h) = l.refs.lookup (sc, h)) ∧
    (∀ sc h, l'.allDomains sc h = l.allDomains sc h + if sc = plan.scope.tenant then es.delta h else 0) ∧
    (t'.edges = t.edges ∧ t'.objects = t.objects) ∧
    (∀ k, t'.nodes.lookup k = (t.nodes.lookup k).map fun row => row.addRoots (es.delta k)) ∧
    (∀ k row, t'.nodes.lookup k = some row → (∀ r, t.nodes.lookup k = some r → 0 ≤ r.rootRefCount) → 0 ≤ row.rootRefCount) := by
  intro es
  induction es with
  | nil =>
    intro t t' l l' _ _ _ hc
    cases hc
    refine ⟨?_, fun _ _ _ => rfl, ?_, ⟨rfl, rfl⟩, ?_, fun k row hr h0 => h0 row hr⟩
    · simp [delta_nil]
    · simp [delta_nil]
    · intro k
      cases t.nodes.lookup k <;> simp [delta_nil, addRoots_zero]
  | cons e es ih =>
    obtain ⟨hash, delta⟩ := e
    intro t t' l l' hk hfind hf hc
    simp only [List.map_cons, List.nodup_cons] at hk
    simp only [commitEntries, hfind (hash, delta) (by simp)] at hc
    split at hc
    · rename_i t₁ p h1 hp
      cases hp
      obtain ⟨he₁, ho₁, hn₁, hr₁⟩ := addRootRefs_spec h1
      have hb₁ := setProjection_balance plan.scope ⟨hash, f (hash, delta)⟩ l
      have hkey := hf (hash, delta) (by simp)
      obtain ⟨hB, hO, hA, hG, hN, hR⟩ := ih hk.2 (fun e he => hfind e (by simp [he])) (by
        intro e he
        rw [hb₁ e.1, if_neg, hf e (by simp [he])]
        intro heq
        exact hk.1 (List.mem_map.mpr ⟨e, he, heq⟩)) hc
      refine ⟨?_, ?_, ?_, ⟨hG.1.trans he₁, hG.2.trans ho₁⟩, ?_, ?_⟩
      · intro h
        rw [hB h, hb₁ h, delta_cons]
        by_cases hh : h = hash
        · subst hh
          simp only [if_true, hkey]
          ring
        · simp only [hh, Ne.symm hh, if_false]
          ring
      · intro sc h hne
        rw [hO sc h hne, setProjection_other _ _ _ _ _ hne]
      · intro sc h
        rw [hA sc h, setProjection_allDomains, delta_cons]
        by_cases hs : sc = plan.scope.tenant
        · subst hs
          by_cases hh : h = hash
          · subst hh
            simp only [true_and, if_true, hkey]
            ring
          · simp only [hh, Ne.symm hh, and_false, if_false, if_true]
            ring
        · simp [hs]
      · intro k
        rw [hN k, hn₁ k, delta_cons]
        cases t.nodes.lookup k with
        | none => rfl
        | some row =>
          simp only [Option.map_some, addRoots_addRoots]
          congr 2
          by_cases hh : k = hash
          · simp [hh]
          · simp [hh, Ne.symm hh]
      · intro k row hr h0
        refine hR k row hr ?_
        intro r hr'
        rw [hn₁ k] at hr'
        obtain ⟨r₀, hl, rfl⟩ := Option.map_eq_some_iff.mp hr'
        by_cases hh : k = hash
        · subst hh
          simpa [NodeRow.addRoots] using hr₁ r₀ hl
        · simpa [NodeRow.addRoots, hh] using h0 r₀ hl
    · cases hc

/-- A commit that goes through was planned at the domain's revision, and is its next event. -/
theorem commitBatch_spec {plan : RootRefCommitPlan} {balances : Hash → Option Int} {t t' : Tenant} {l l' : Ledger} {b : Bool}
    (hl : LedgerOk l) (hp : PlanOk plan balances l) (hc : commitBatch plan t l = some ((t', l'), b)) :
    Committed plan t l t' l' ∧ b = true := by
  unfold commitBatch at hc
  split at hc
  · cases hc
  · rename_i t₁ l₁ hce
    split at hc
    · cases hc
    · rename_i l₂ hre
      cases hc
      have hup : (upsertRevision plan l).1.events = l.events ∧ (upsertRevision plan l).1.requests = l.requests ∧
          (upsertRevision plan l).1.refs = l.refs := by
        unfold upsertRevision
        split
        · exact ⟨rfl, rfl, rfl⟩
        · split <;> exact ⟨rfl, rfl, rfl⟩
      obtain ⟨hue, huq, hur⟩ := hup
      unfold recordEvent at hre
      split at hre
      · rename_i events requests hev hrq
        cases hre
        obtain ⟨hev0, rfl⟩ := AList.lookup_insertNew hev
        obtain ⟨hrq0, rfl⟩ := AList.lookup_insertNew hrq
        obtain ⟨hte, htq, htr⟩ := commitEntries_tables hce
        rw [hue] at hte
        rw [huq] at htq
        rw [hte] at hev0
        rw [htq] at hrq0
        -- a stale expected revision would meet a recorded event
        have hrev : plan.expectedRevision = l.revision plan.scope.domain := by
          by_contra hne
          have hlt : plan.expectedRevision < l.revision plan.scope.domain := lt_of_le_of_ne hp.seen hne
          have hmem : (plan.scope.domain, plan.revision) ∈ l.events :=
            (hl.revisions plan.scope.domain plan.revision).mpr ⟨by rw [hp.next]; omega, by rw [hp.next]; omega⟩
          exact AList.lookup_eq_none.mp hev0 hmem
        have hfirst : (upsertRevision plan l).1.revisions = l.revisions.insert plan.scope.domain plan.revision ∧
            (upsertRevision plan l).2 = true := by
          unfold upsertRevision
          split
          · exact ⟨rfl, rfl⟩
          · rename_i r hr
            have : r = plan.expectedRevision := by rw [hrev, Ledger.revision, hr]; rfl
            simp [this]
        have hbal0 : ∀ h, (upsertRevision plan l).1.balance plan.scope h = l.balance plan.scope h := by
          intro h; simp only [Ledger.balance, hur]
        obtain ⟨hB, hO, hA, hG, hN, hR⟩ := commitEntries_spec
          (f := fun e => if (balances e.1).getD 0 + e.2 = 0 then none else some ((balances e.1).getD 0 + e.2)) hp.keys
          (by
            intro e he
            rw [hp.projections]
            exact find_projection _ hp.keys he)
          (by
            intro e _
            rw [hbal0, Ledger.balance, ← hp.current hrev e.1]
            split
            · rename_i h0; simpa using h0.symm
            · rfl) hce
        refine ⟨⟨hrq0, by rw [hp.next, hrev], hev0, by rw [hte], by rw [htq], ?_, ?_, ?_, ?_, hG.1, hG.2, hN, hR⟩, hfirst.2⟩
        · intro d
          simp only [Ledger.revision, htr, hfirst.1, AList.lookup_insert_eq]
          split <;> simp
        · intro h
          have := hB h
          rw [hbal0] at this
          exact this
        · intro sc h hne
          have := hO sc h hne
          rw [hur] at this
          exact this
        · intro sc h
          have := hA sc h
          simp only [Ledger.allDomains, hur] at this
          exact this
      · cases hre

/-! ## What a commit keeps -/

section Committed

variable {plan : RootRefCommitPlan} {t t' : Tenant} {l l' : Ledger}

theorem scope_eq_iff (sc sc' : RootRefScope) : sc = sc' ↔ sc.domain = sc'.domain ∧ sc.tenantId = sc'.tenantId := by
  cases sc
  cases sc'
  simp only [RootRefScope.mk.injEq, RootRefScope.domain, DomainKey.mk.injEq]
  tauto

theorem recorded_committed (h : Committed plan t l t' l') (sc : RootRefScope) (k : Hash) :
    l'.recorded sc k = l.recorded sc k + if sc = plan.scope then plan.entries.delta k else 0 := by
  simp only [Ledger.recorded, h.events, AList.total_insert, AList.part_of_none h.newEvent, sub_zero]
  congr 1
  have : (plan.scope.domain = sc.domain ∧ plan.scope.tenantId = sc.tenantId) ↔ sc = plan.scope := by
    rw [scope_eq_iff]
    constructor <;> exact fun h => ⟨h.1.symm, h.2.symm⟩
  simp only [this]

theorem balance_committed (h : Committed plan t l t' l') (sc : RootRefScope) (k : Hash) :
    l'.balance sc k = l.balance sc k + if sc = plan.scope then plan.entries.delta k else 0 := by
  by_cases hs : sc = plan.scope
  · subst hs
    rw [if_pos rfl]
    exact h.balance k
  · simp [Ledger.balance, h.otherRefs sc k hs, hs]

/-- A commit keeps the ledger in order. -/
theorem ledgerOk_committed (hl : LedgerOk l) (h : Committed plan t l t' l') : LedgerOk l' where
  revisions d n := by
    rw [h.events, AList.mem_insert, hl.revisions, h.revision d]
    by_cases hd : d = plan.scope.domain
    · subst hd
      simp only [Prod.mk.injEq, true_and, if_true, h.next]
      omega
    · simp [hd]
  balances sc k := by
    rw [balance_committed h, recorded_committed h, hl.balances]
  requests sc r record hr := by
    rw [h.requests, AList.lookup_insert_eq] at hr
    split at hr
    · rename_i hk
      cases hr
      cases hk
      exact ⟨_, by rw [h.events, AList.lookup_insert_eq, if_pos rfl], rfl, rfl, rfl⟩
    · obtain ⟨e, he, h1, h2, h3⟩ := hl.requests sc r record hr
      refine ⟨e, ?_, h1, h2, h3⟩
      rw [h.events, AList.lookup_insert_eq, if_neg, he]
      intro hk
      rw [hk, h.newEvent] at he
      cases he
  events d n e he := by
    rw [h.events, AList.lookup_insert_eq] at he
    split at he
    · rename_i hk
      cases he
      cases hk
      refine ⟨⟨plan.payloadHash, plan.revision, plan.appliedAt⟩, ?_, rfl, rfl⟩
      rw [h.requests, AList.lookup_insert_eq]
      exact if_pos rfl
    · obtain ⟨record, hr, h1, h2⟩ := hl.events d n e he
      refine ⟨record, ?_, h1, h2⟩
      rw [h.requests, AList.lookup_insert_eq, if_neg, hr]
      intro hk
      rw [hk, h.unused] at hr
      cases hr

/-- A commit moves the ledger forward. -/
theorem le_committed (h : Committed plan t l t' l') : Ledger.Le l l' where
  revision d := by
    rw [h.revision d]
    split
    · rename_i hd
      rw [hd, h.next]
      omega
    · exact le_refl _
  refs sc he k := by
    refine h.otherRefs sc k ?_
    rintro rfl
    rw [h.revision, if_pos rfl, h.next] at he
    omega
  events k e hk := by
    rw [h.events, AList.lookup_insert_eq, if_neg, hk]
    rintro rfl
    rw [h.newEvent] at hk
    cases hk
  requests k r hk := by
    rw [h.requests, AList.lookup_insert_eq, if_neg, hk]
    rintro rfl
    rw [h.unused] at hk
    cases hk

end Committed

theorem ledgerOk_empty : LedgerOk Ledger.empty where
  revisions d n := by
    have : Ledger.empty.revision d = 0 := rfl
    rw [this]
    constructor
    · intro h
      exact absurd h (AList.notMem_empty _)
    · intro h
      omega
  balances _ _ := rfl
  requests _ _ _ h := by cases h
  events _ _ _ h := by cases h

end LedgerCommitAux

end UniDocs.Cas
