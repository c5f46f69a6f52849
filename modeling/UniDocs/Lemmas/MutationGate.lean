import UniDocs.Cas.TenantDo
import UniDocs.Lemmas.LedgerCommit

/-!
# The mutation gate as a discipline

What every call of a request keeps, what a request may rely on while it holds its tenant's gate, and the rules for the
single calls. `strict` switches on the part about stored content: it needs the calls to be `orderly`, while the
reference counts and the ledger need no condition on them.
-/

namespace UniDocs.Cas

open Lib TenantWritesAux LedgerCommitAux

/-- A row that something refers to has its object. -/
def Backed (t : Tenant) : Prop :=
  ∀ h row, t.nodes.lookup h = some row → 0 < row.childRefCount ∨ 0 < row.rootRefCount → t.stored h

/-- A trusted cache entry of a row is right about its object. -/
def CacheSound (s : State) (sc : Scope) : Prop :=
  ∀ h, h ∈ (s.tenant sc).nodes → s.cachedReady sc h = true → (s.tenant sc).stored h

/-- The root count of a hash; zero without a row. -/
def Tenant.rootCount (t : Tenant) (h : Hash) : Int :=
  match t.nodes.lookup h with
  | some row => row.rootRefCount
  | none => 0

/-- The invariant of the service. -/
structure Inv (strict : Prop) (s : State) : Prop where
  counts : ∀ sc, RefCounts (s.tenant sc)
  backed : strict → ∀ sc, Backed (s.tenant sc)
  cache : strict → ∀ sc, (s.inst sc).gate = none → CacheSound s sc
  ledger : LedgerOk s.ledger
  roots : ∀ sc h, (s.tenant sc).rootCount h = s.ledger.allDomains sc h

/-- The tables are unchanged and no object is lost. -/
structure Kept (t t' : Tenant) : Prop where
  nodes : t'.nodes = t.nodes
  edges : t'.edges = t.edges
  objects : ∀ h, t.stored h → t'.stored h

/-- What a request may rely on: while it holds the gate, the tables and the cache of its tenant stand still. -/
structure Rely (i : RequestId) (s s' : State) : Prop where
  clock : s.clock ≤ s'.clock
  ledger : Ledger.Le s.ledger s'.ledger
  held : (s.inst i.scope).gate = some i.n → (s'.inst i.scope).gate = some i.n ∧
    Kept (s.tenant i.scope) (s'.tenant i.scope) ∧ (s'.inst i.scope).readyCache = (s.inst i.scope).readyCache
  free : (s.inst i.scope).gate ≠ some i.n → (s'.inst i.scope).gate ≠ some i.n

/-- What a call of a request does at most: it stays within its tenant, changes the tables only behind the gate, removes
only rows that nothing refers to and whose lease is over, and adds a row only over ready children. -/
structure Guar (strict : Prop) (i : RequestId) (s s' : State) : Prop where
  clock : s'.clock = s.clock
  ledger : Ledger.Le s.ledger s'.ledger
  tenants : ∀ sc, sc ≠ i.scope → s'.tenant sc = s.tenant sc ∧ s'.inst sc = s.inst sc
  outside : (s.inst i.scope).gate ≠ some i.n → Kept (s.tenant i.scope) (s'.tenant i.scope) ∧
    (s'.inst i.scope).readyCache = (s.inst i.scope).readyCache ∧
    ((s'.inst i.scope).gate = (s.inst i.scope).gate ∨
      ((s.inst i.scope).gate = none ∧ (s'.inst i.scope).gate = some i.n))
  inside : (s.inst i.scope).gate = some i.n → (s'.inst i.scope).gate = some i.n ∨ (s'.inst i.scope).gate = none
  removed : ∀ h row, (s.tenant i.scope).nodes.lookup h = some row → h ∉ (s'.tenant i.scope).nodes →
    row.childRefCount = 0 ∧ row.rootRefCount = 0 ∧ row.leaseExpiresAt ≤ s.clock
  added : strict → ∀ h, h ∉ (s.tenant i.scope).nodes → h ∈ (s'.tenant i.scope).nodes →
    ∀ c, (s'.tenant i.scope).Edge h c → c ∈ (s'.tenant i.scope).nodes ∧ (s'.tenant i.scope).stored c

/-- The hash a commit after an upload is about. -/
def UploadedCanonicalNodeCommit.hash : UploadedCanonicalNodeCommit → Hash
  | .existing hash _ => hash
  | .new hash _ _ => hash

/-- The calls after which stored content can be relied on: a collection that has deleted a node's object does not fail
to remove its row while the ready cache still vouches for the node, and a commit after an upload finds its object. -/
def orderly (strict : Prop) : Guard Call State := fun _ c f s => strict →
  match c with
  | .write sc (.deleteCanonicalContent hash) => f = .lost → s.cachedReady sc hash = false
  | .write sc (.commitDeletion d) => f = .failed → s.cachedReady sc d.hash = false
  | .write sc (.commitUploadedCanonicalNode plan) => f ≠ .failed → (s.tenant sc).stored plan.hash
  | _ => True

/-- The obligations of a request. -/
def gateSpec (codec : Codec) (strict : Prop) (i : RequestId) : Spec Call State :=
  ⟨exec codec, orderly strict, Inv strict, Rely i, Guar strict i⟩

/-- The request holds the gate, and the cache is sound. -/
def Gated (strict : Prop) (i : RequestId) (s : State) : Prop :=
  (s.inst i.scope).gate = some i.n ∧ (strict → CacheSound s i.scope)

/-- The request does not hold the gate. -/
def Outside (i : RequestId) (s : State) : Prop := (s.inst i.scope).gate ≠ some i.n

/-- A fact that lasts while the tenant's tables stand still, no object is lost and time passes. -/
def Lasting (i : RequestId) (φ : State → Prop) : Prop :=
  ∀ s s', s.clock ≤ s'.clock → Kept (s.tenant i.scope) (s'.tenant i.scope) → φ s → φ s'

/-- Behind the gate, with a fact. -/
def InGate (strict : Prop) (i : RequestId) (φ : State → Prop) (s : State) : Prop := Gated strict i s ∧ φ s

theorem Kept.refl (t : Tenant) : Kept t t := ⟨rfl, rfl, fun _ h => h⟩

theorem Kept.trans {t t₁ t₂ : Tenant} (h : Kept t t₁) (h' : Kept t₁ t₂) : Kept t t₂ :=
  ⟨h'.nodes.trans h.nodes, h'.edges.trans h.edges, fun k hk => h'.objects k (h.objects k hk)⟩

section Frame

variable {strict : Prop} {i : RequestId} {s s' : State} {sc : Scope} {t : Tenant} {m : Instance}

@[simp] theorem setTenant_tenant : (s.setTenant sc t).tenant sc = t := by simp [State.setTenant]

@[simp] theorem setTenant_tenant_ne {sc' : Scope} (h : sc' ≠ sc) : (s.setTenant sc t).tenant sc' = s.tenant sc' := by
  simp [State.setTenant, h]

@[simp] theorem setTenant_inst : (s.setTenant sc t).inst = s.inst := rfl
@[simp] theorem setTenant_clock : (s.setTenant sc t).clock = s.clock := rfl
@[simp] theorem setTenant_ledger : (s.setTenant sc t).ledger = s.ledger := rfl
@[simp] theorem setTenant_cachedReady : (s.setTenant sc t).cachedReady = s.cachedReady := rfl
@[simp] theorem setInst_inst : (s.setInst sc m).inst sc = m := by simp [State.setInst]

@[simp] theorem setInst_inst_ne {sc' : Scope} (h : sc' ≠ sc) : (s.setInst sc m).inst sc' = s.inst sc' := by
  simp [State.setInst, h]

@[simp] theorem setInst_tenant : (s.setInst sc m).tenant = s.tenant := rfl
@[simp] theorem setInst_clock : (s.setInst sc m).clock = s.clock := rfl
@[simp] theorem setInst_ledger : (s.setInst sc m).ledger = s.ledger := rfl

theorem cachedReady_iff {h : Hash} :
    s.cachedReady sc h = true ↔ ∃ n, (s.inst sc).readyCache.lookup h = some n ∧ s.clock ≤ n := by
  unfold State.cachedReady
  cases (s.inst sc).readyCache.lookup h <;> simp

/-- A cache entry that is trusted later was trusted before, while the cache is the same. -/
theorem cachedReady_anti {h : Hash} (hc : s.clock ≤ s'.clock)
    (hm : (s'.inst sc).readyCache = (s.inst sc).readyCache) (hr : s'.cachedReady sc h = true) :
    s.cachedReady sc h = true := by
  rw [cachedReady_iff, hm] at hr
  obtain ⟨n, hl, hn⟩ := hr
  exact cachedReady_iff.mpr ⟨n, hl, le_trans hc hn⟩

theorem cacheSound_mono (hc : s.clock ≤ s'.clock) (hk : Kept (s.tenant sc) (s'.tenant sc))
    (hm : (s'.inst sc).readyCache = (s.inst sc).readyCache) (h : CacheSound s sc) : CacheSound s' sc := by
  intro k hmem hr
  rw [hk.nodes] at hmem
  exact hk.objects k (h k hmem (cachedReady_anti hc hm hr))

theorem Kept.backed {t t' : Tenant} (hk : Kept t t') (h : Backed t) : Backed t' := by
  intro k row hr hpos
  rw [hk.nodes] at hr
  exact hk.objects k (h k row hr hpos)

theorem Kept.refCounts {t t' : Tenant} (hk : Kept t t') (h : RefCounts t) : RefCounts t' where
  counts k row hr := by
    rw [hk.nodes] at hr
    rw [h.counts k row hr, Tenant.incoming, Tenant.incoming, hk.edges]
  endpoints p j c hl := by
    rw [hk.edges] at hl
    rw [hk.nodes]
    exact h.endpoints p j c hl
  roots k row hr := by
    rw [hk.nodes] at hr
    exact h.roots k row hr

theorem Kept.rootCount {t t' : Tenant} (hk : Kept t t') (h : Hash) : t'.rootCount h = t.rootCount h := by
  simp only [Tenant.rootCount, hk.nodes]

theorem Guar.refl (s : State) : Guar strict i s s where
  clock := rfl
  ledger := Ledger.Le.refl _
  tenants _ _ := ⟨rfl, rfl⟩
  outside _ := ⟨Kept.refl _, rfl, .inl rfl⟩
  inside h := .inl h
  removed _ _ hr hn := absurd (AList.mem_of_lookup hr) hn
  added _ _ hn hm := absurd hm hn

theorem inv_setTenant (hi : Inv strict s) (hgate : (s.inst sc).gate ≠ none) (hc : RefCounts t)
    (hb : strict → Backed t) (hr : ∀ h, t.rootCount h = (s.tenant sc).rootCount h) : Inv strict (s.setTenant sc t) where
  counts sc' := by
    by_cases h : sc' = sc
    · subst h; simpa using hc
    · simpa [h] using hi.counts sc'
  backed hs sc' := by
    by_cases h : sc' = sc
    · subst h; simpa using hb hs
    · simpa [h] using hi.backed hs sc'
  cache hs sc' hg := by
    have h : sc' ≠ sc := fun h => hgate (h ▸ hg)
    intro k hmem hcr
    simp only [setTenant_tenant_ne h] at hmem ⊢
    exact hi.cache hs sc' hg k hmem hcr
  ledger := hi.ledger
  roots sc' h := by
    by_cases hsc : sc' = sc
    · subst hsc
      simp only [setTenant_tenant, setTenant_ledger, hr h]
      exact hi.roots sc' h
    · simpa [hsc] using hi.roots sc' h

/-- The guarantee of a write behind the gate. -/
theorem guar_setTenant (hgate : (s.inst i.scope).gate = some i.n)
    (hrem : ∀ h row, (s.tenant i.scope).nodes.lookup h = some row → h ∉ t.nodes →
      row.childRefCount = 0 ∧ row.rootRefCount = 0 ∧ row.leaseExpiresAt ≤ s.clock)
    (hadd : strict → ∀ h, h ∉ (s.tenant i.scope).nodes → h ∈ t.nodes → ∀ c, t.Edge h c → c ∈ t.nodes ∧ t.stored c) :
    Guar strict i s (s.setTenant i.scope t) where
  clock := rfl
  ledger := Ledger.Le.refl _
  tenants sc hne := ⟨by simp [hne], rfl⟩
  outside h := absurd hgate h
  inside h := .inl h
  removed := by simpa using hrem
  added := by simpa using hadd

/-- The invariant and the guarantee of a change that keeps the tables and adds objects. -/
theorem inv_kept (hi : Inv strict s) (hk : Kept (s.tenant sc) t) : Inv strict (s.setTenant sc t) where
  counts sc' := by
    by_cases h : sc' = sc
    · subst h; simpa using hk.refCounts (hi.counts sc')
    · simpa [h] using hi.counts sc'
  backed hs sc' := by
    by_cases h : sc' = sc
    · subst h; simpa using hk.backed (hi.backed hs sc')
    · simpa [h] using hi.backed hs sc'
  cache hs sc' hg := by
    refine cacheSound_mono (s := s) (le_refl _) ?_ rfl (hi.cache hs sc' hg)
    by_cases h : sc' = sc
    · subst h; simpa using hk
    · simpa [h] using Kept.refl _
  ledger := hi.ledger
  roots sc' h := by
    by_cases hsc : sc' = sc
    · subst hsc
      simp only [setTenant_tenant, setTenant_ledger, hk.rootCount h]
      exact hi.roots sc' h
    · simpa [hsc] using hi.roots sc' h

theorem guar_kept (hk : Kept (s.tenant i.scope) t) : Guar strict i s (s.setTenant i.scope t) where
  clock := rfl
  ledger := Ledger.Le.refl _
  tenants sc hne := ⟨by simp [hne], rfl⟩
  outside _ := ⟨by simpa using hk, rfl, .inl rfl⟩
  inside h := .inl h
  removed _ _ hr hn := by
    simp only [setTenant_tenant, hk.nodes] at hn
    exact absurd (AList.mem_of_lookup hr) hn
  added _ _ hn hm := by
    simp only [setTenant_tenant, hk.nodes] at hm
    exact absurd hm hn

theorem inv_setInst (hi : Inv strict s)
    (hc : strict → m.gate = none → CacheSound (s.setInst sc m) sc) : Inv strict (s.setInst sc m) where
  counts := hi.counts
  backed := hi.backed
  cache hs sc' hg := by
    by_cases h : sc' = sc
    · subst h
      simp only [setInst_inst] at hg
      exact hc hs hg
    · simp only [setInst_inst_ne h] at hg
      refine cacheSound_mono (s := s) (le_refl _) (Kept.refl _) ?_ (hi.cache hs sc' hg)
      simp [h]
  ledger := hi.ledger
  roots := hi.roots

/-- The guarantee of a change to the instance. -/
theorem guar_setInst (hout : (s.inst i.scope).gate ≠ some i.n → m.readyCache = (s.inst i.scope).readyCache ∧
      (m.gate = (s.inst i.scope).gate ∨ ((s.inst i.scope).gate = none ∧ m.gate = some i.n)))
    (hin : (s.inst i.scope).gate = some i.n → m.gate = some i.n ∨ m.gate = none) :
    Guar strict i s (s.setInst i.scope m) where
  clock := rfl
  ledger := Ledger.Le.refl _
  tenants sc hne := ⟨rfl, by simp [hne]⟩
  outside h := ⟨Kept.refl _, by simpa using hout h⟩
  inside h := by simpa using hin h
  removed _ _ hr hn := absurd (AList.mem_of_lookup hr) hn
  added _ _ hn hm := absurd hm hn

end Frame

/-! ## Stability -/

section Stable

variable {codec : Codec} {strict : Prop} {i : RequestId}

theorem stable_inGate {φ : State → Prop} (hφ : Lasting i φ) : Stable (gateSpec codec strict i) (InGate strict i φ) := by
  rintro s s' _ _ hr ⟨⟨hg, hc⟩, h⟩
  obtain ⟨hg', hk, hm⟩ := hr.held hg
  exact ⟨⟨hg', fun hs => cacheSound_mono hr.clock hk hm (hc hs)⟩, hφ s s' hr.clock hk h⟩

theorem stable_gated : Stable (gateSpec codec strict i) (Gated strict i) := by
  rintro s s' _ _ hr ⟨hg, hc⟩
  obtain ⟨hg', hk, hm⟩ := hr.held hg
  exact ⟨hg', fun hs => cacheSound_mono hr.clock hk hm (hc hs)⟩

theorem stable_outside : Stable (gateSpec codec strict i) (Outside i) :=
  fun _ _ _ _ hr h => hr.free h

theorem Lasting.and {φ ψ : State → Prop} (h : Lasting i φ) (h' : Lasting i ψ) : Lasting i fun s => φ s ∧ ψ s :=
  fun s s' hc hk hp => ⟨h s s' hc hk hp.1, h' s s' hc hk hp.2⟩

theorem Lasting.const (p : Prop) : Lasting i fun _ => p := fun _ _ _ _ h => h

theorem Lasting.imp {p : Prop} {φ : State → Prop} (h : p → Lasting i φ) : Lasting i fun s => p → φ s :=
  fun s s' hc hk hp hq => h hq s s' hc hk (hp hq)

theorem Lasting.forall {α : Type} {φ : α → State → Prop} (h : ∀ a, Lasting i (φ a)) : Lasting i fun s => ∀ a, φ a s :=
  fun s s' hc hk hp a => h a s s' hc hk (hp a)

theorem Lasting.clock (n : Nat) : Lasting i fun s => n ≤ s.clock := fun _ _ hc _ h => le_trans h hc

theorem Lasting.nodes (p : Table Hash NodeRow → Prop) : Lasting i fun s => p (s.tenant i.scope).nodes :=
  fun s s' _ hk h => by
    simp only at h ⊢
    rw [hk.nodes]
    exact h

theorem Lasting.stored (h : Hash) : Lasting i fun s => (s.tenant i.scope).stored h := fun _ _ _ hk hs => hk.objects h hs

end Stable

end UniDocs.Cas
