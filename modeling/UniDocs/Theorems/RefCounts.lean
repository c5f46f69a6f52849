import UniDocs.Lemmas.GatedUpdates

/-!
# Reference counts

In every state the service reaches, the stored reference counts are the numbers of edges, and no step removes the row of
a node that something still needs.
-/

namespace UniDocs.Cas

open Lib TenantWritesAux LedgerCommitAux

/-- A row that is kept for its own sake: it has root references or an unexpired lease. -/
def Tenant.Pinned (t : Tenant) (clock : Nat) (h : Hash) : Prop :=
  ∃ row, t.nodes.lookup h = some row ∧ (0 < row.rootRefCount ∨ clock < row.leaseExpiresAt)

/-- A node that is needed: it is pinned, or edges lead to it from a pinned node. -/
def Tenant.Needed (t : Tenant) (clock : Nat) (h : Hash) : Prop := ∃ r, t.Pinned clock r ∧ Relation.ReflTransGen t.Edge r h

namespace RefCountsAux

theorem not_edge_of_unreferenced {t : Tenant} (hc : RefCounts t) {h : Hash} {row : NodeRow} (hr : t.nodes.lookup h = some row)
    (h0 : row.childRefCount = 0) (q : Hash) : ¬ t.Edge q h := by
  rintro ⟨i, he⟩
  rw [hc.counts h row hr] at h0
  have := AList.count_eq_zero.mp h0 (q, i) h he
  simp at this

theorem not_needed {t : Tenant} {clock : Nat} (hc : RefCounts t) {h : Hash} {row : NodeRow} (hr : t.nodes.lookup h = some row)
    (h0 : row.childRefCount = 0) (h1 : row.rootRefCount = 0) (h2 : row.leaseExpiresAt ≤ clock) : ¬ t.Needed clock h := by
  rintro ⟨r, ⟨row', hr', hpin⟩, hpath⟩
  rcases Relation.ReflTransGen.cases_tail hpath with rfl | ⟨q, -, hedge⟩
  · rw [hr] at hr'
    cases hr'
    rcases hpin with hpin | hpin <;> omega
  · exact not_edge_of_unreferenced hc hr h0 q hedge

theorem tenant_of_step {cfg : Config} {strict : Prop} {p p' : Pool Call State CasError (Response Reply) RequestId Request}
    {l : Label RequestId Request Event} (h : (machine cfg).Reach (orderly strict) start p)
    (ha : Machine.Allows (orderly strict) p l) (hs : (machine cfg).step l p = some p') (sc : Scope) :
    p'.state.tenant sc = p.state.tenant sc ∨ ∃ i, i.scope = sc ∧ Guar strict i p.state p'.state := by
  cases l with
  | start i q =>
    simp only [Machine.step] at hs
    split at hs
    · cases hs
      exact .inl rfl
    · cases hs
  | env e =>
    cases hs
    cases e <;> exact .inl rfl
  | run i f =>
    obtain ⟨_, -, hg⟩ := (serviceProof cfg strict).guar_of_run start_initial h ha hs
    have hg : Guar strict i p.state p'.state := hg
    by_cases hsc : sc = i.scope
    · exact .inr ⟨i, hsc.symm, hg⟩
    · exact .inl (hg.tenants sc hsc).1

theorem orderly_false {β : Type} (c : Call β) (f : Fault) (s : State) : orderly False β c f s := fun h => h.elim

end RefCountsAux

open RefCountsAux

/-- Reference-count safety, for every state that any run reaches, with every call allowed to fail or to lose its answer,
instances restarting between any two calls and the clock moving by any amount:
1. the child count of a row is the number of edges into it, duplicates counted;
2. both ends of an edge have a row;
3. no step removes the row of a node that is needed. -/
theorem reference_counts_safe (cfg : Config) (p : Pool Call State CasError (Response Reply) RequestId Request)
    (hp : (machine cfg).Reach Machine.anyCall start p) (sc : Scope) :
    (∀ h row, (p.state.tenant sc).nodes.lookup h = some row → row.childRefCount = (p.state.tenant sc).incoming h) ∧
    (∀ parent ordinal child, (p.state.tenant sc).edges.lookup (parent, ordinal) = some child →
      parent ∈ (p.state.tenant sc).nodes ∧ child ∈ (p.state.tenant sc).nodes) ∧
    ∀ l p', (machine cfg).step l p = some p' → ∀ h ∈ (p.state.tenant sc).nodes,
      (p.state.tenant sc).Needed p.state.clock h → h ∈ (p'.state.tenant sc).nodes := by
  have hreach : (machine cfg).Reach (orderly False) start p := hp.mono fun _ c f s _ => orderly_false c f s
  obtain ⟨hi, -⟩ := (serviceProof cfg False).sound start_initial hreach
  have hc : RefCounts (p.state.tenant sc) := hi.counts sc
  refine ⟨hc.counts, hc.endpoints, fun l p' hs h hm hneed => ?_⟩
  by_contra hn
  obtain ⟨row, hr⟩ := AList.mem_iff_lookup.mp hm
  have ha : Machine.Allows (orderly False) p l := (Machine.allows_anyCall p l).mono fun _ c f s _ => orderly_false c f s
  rcases tenant_of_step hreach ha hs sc with hsame | ⟨i, rfl, hg⟩
  · rw [hsame] at hn
    exact hn hm
  · obtain ⟨h0, h1, h2⟩ := hg.removed h row hr hn
    exact not_needed hc hr h0 h1 h2 hneed

/-! ## A run -/

/-- The hash of the node whose canonical bytes are `leafBody`. -/
def leafHash : Hash := "4e65ab70318f7297570fb5cddb75b6f95e654111defcf1cdf163aa2d69f2c5a2"

/-- The hash of the node whose canonical bytes are `parentBody`. -/
def parentHash : Hash := "c011a36ea3e03b923b8fe5d83b2a6476844f3c5aaa357aafbcb4288994575457"

/-- A canonical header with its content type `text/plain`, for a node without content. -/
def textHeader (refCount : UInt8) : Bytes :=
  [0x55, 0x44, 1, 0, 0, 0, 0, 0, 0, 0, 0, 0, 0, 0, 0, 0, refCount, 0, 0, 0, 10, 0, 0, 0,
    116, 101, 120, 116, 47, 112, 108, 97, 105, 110]

/-- A node without children. -/
def leafBody : Bytes := textHeader 0

/-- A node with the leaf as its child. -/
def parentBody : Bytes := textHeader 1 ++
  [0x4e, 0x65, 0xab, 0x70, 0x31, 0x8f, 0x72, 0x97, 0x57, 0x0f, 0xb5, 0xcd, 0xdb, 0x75, 0xb6, 0xf9,
    0x5e, 0x65, 0x41, 0x11, 0xde, 0xfc, 0xf1, 0xcd, 0xf1, 0x63, 0xaa, 0x2d, 0x69, 0xf2, 0xc5, 0xa2]

/-- The codec on the two nodes. -/
def twoNodeCodec : Codec where
  parseCanonicalNodeStream body declaredLength :=
    if body = leafBody ∧ declaredLength = 34 then .ok ⟨0, "text/plain", []⟩
    else if body = parentBody ∧ declaredLength = 66 then .ok ⟨0, "text/plain", [leafHash]⟩
    else .error "Invalid signature: expected 'UD'"
  sha256Hex body := if body = leafBody then leafHash else if body = parentBody then parentHash else ""

/-- A deployment with the two-node codec and no bound on the attempts. -/
def sampleConfig : Config := ⟨twoNodeCodec, none, 3, true⟩

/-- A tenant. -/
def sampleScope : Scope := ⟨"stack", "tenant"⟩

/-- A streamed upload with a lease of a minute. -/
def uploadRequest (hash : Hash) (body : Bytes) : Request :=
  .lease ⟨hash, .value 60000, some canonicalNodeContentType, none, none, .value body.length, some body, ""⟩

/-- A number of calls of a request, all answered. -/
def calls (n count : Nat) : List (Label RequestId Request Event) := List.replicate count (.run ⟨sampleScope, n⟩ .none)

/-- The leaf is uploaded; its commit takes 100 ms. -/
def uploadLeaf : List (Label RequestId Request Event) :=
  .start ⟨sampleScope, 0⟩ (uploadRequest leafHash leafBody) :: calls 0 12 ++ .env (.tick 100) :: calls 0 4

/-- The leaf is uploaded, and then its parent. -/
def uploadBoth : List (Label RequestId Request Event) :=
  uploadLeaf ++ .start ⟨sampleScope, 2⟩ (uploadRequest parentHash parentBody) :: calls 2 18

/-- The parent is committed with its edge, for which the leaf is counted. -/
theorem reference_counts_safe_uploadBoth : ∃ p, (machine sampleConfig).exec? uploadBoth start = some p ∧
    (p.state.tenant sampleScope).edges.lookup (parentHash, 0) = some leafHash ∧
    (parentHash ∈ (p.state.tenant sampleScope).nodes ∧ leafHash ∈ (p.state.tenant sampleScope).nodes) ∧
    ∀ row, (p.state.tenant sampleScope).nodes.lookup leafHash = some row →
      row.childRefCount = (p.state.tenant sampleScope).incoming leafHash := by
  have hsome : ((machine sampleConfig).exec? uploadBoth start).any
      (fun p => decide ((p.state.tenant sampleScope).edges.lookup (parentHash, 0) = some leafHash)) = true := by decide
  obtain ⟨p, hp, hedge⟩ := (Option.any_eq_true _ _).mp hsome
  obtain ⟨hcounts, hends, -⟩ := reference_counts_safe sampleConfig p (Machine.reach_of_exec? uploadBoth .init hp) sampleScope
  have hedge := of_decide_eq_true hedge
  exact ⟨p, hp, hedge, hends _ _ _ hedge, hcounts leafHash⟩

end UniDocs.Cas
