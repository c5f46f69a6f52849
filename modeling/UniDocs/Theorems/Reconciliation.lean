import UniDocs.Theorems.RefCounts

/-!
# Reconciliation of the ledger

The events of a domain, the projections of its tenants and the root counts of the nodes say the same, in every state
that requests of any number of tenants reach, and an attempt at an update that ends in an error has changed none of
them. A single attempt is not a request of its own, so the runs here also hold bare attempts beside the requests.
-/

namespace UniDocs.Cas

open Lib TenantWritesAux LedgerCommitAux DomainAux

/-- One attempt at an update, behind the gate of its tenant. -/
def attemptRootRefsUpdate (cfg : Config) (i : RequestId) (refDomain : String) (body : RootRefsBody) : Op DomainUpdateResult := do
  let canonical ← Prog.ret (canonicalizeRootRefsUpdate cfg.codec body)
  withMutation i (applyRootRefsUpdate (i.rootRefScope refDomain) canonical)

/-- What runs in a tenant's instance: a request, or one attempt at an update. -/
inductive Work where
  | request (r : Request)
  | attempt (refDomain : String) (body : RootRefsBody)

/-- The service with single attempts beside its requests. -/
def workMachine (cfg : Config) : Machine Call State CasError (Response Reply ⊕ DomainUpdateResult) RequestId Work Event where
  exec := exec cfg.codec
  serve i
    | .request r => do
      let response ← tenantFetch cfg i r
      pure (.inl response)
    | .attempt refDomain body => do
      let result ← attemptRootRefsUpdate cfg i refDomain body
      pure (.inr result)
  env := (machine cfg).env
  kills := (machine cfg).kills

/-- The service before its first request. -/
def workStart : Pool Call State CasError (Response Reply ⊕ DomainUpdateResult) RequestId Work := ⟨State.empty, fun _ => none⟩

/-- The tables agree: the revisions of a domain are `1..revision`, a projection is the sum of the recorded changes, and
the root count of a node is the sum of all domains' projections. -/
structure Reconciled (s : State) : Prop where
  revisions : ∀ d n, (d, n) ∈ s.ledger.events ↔ 1 ≤ n ∧ n ≤ s.ledger.revision d
  projections : ∀ sc h, s.ledger.balance sc h = s.ledger.recorded sc h
  roots : ∀ sc h row, (s.tenant sc).nodes.lookup h = some row →
    row.rootRefCount = s.ledger.allDomains sc h ∧ 0 ≤ row.rootRefCount

/-- No commit takes effect without its answer. -/
def commitsAnswered : Guard Call State := fun _ c f _ =>
  match c with
  | .commitRootRefs _ => f ≠ .lost
  | _ => True

namespace ReconciliationAux

variable {cfg : Config} {A : Guard Call State} {i : RequestId}

/-- An attempt that ends in an error has changed no table, unless an answer was lost. -/
theorem attempt_traced {refDomain : String} {body : RootRefsBody} {lossy : Prop}
    (hlost : ∀ plan s, A _ (.commitRootRefs plan) .lost s → lossy) :
    Triple (guardedSpec cfg.codec A False i).withSteps (fun x => Outside i x.1 ∧ AllQuiet x)
      (attemptRootRefsUpdate cfg i refDomain body) (fun _ x => Outside i x.1 ∧ True)
      (fun _ x => Outside i x.1 ∧ (AllQuiet x ∨ lossy)) := by
  unfold attemptRootRefsUpdate
  refine Triple.bind (Q := fun c x => CanonicalOk cfg.codec c ∧ Outside i x.1 ∧ AllQuiet x) ?_ fun c => ?_
  · intro x _ hx _
    split
    · rename_i hb
      exact ⟨canonicalize_ok hb, hx⟩
    · exact ⟨hx.1, .inl hx.2⟩
  · refine Triple.of_pure fun hc => ?_
    refine withMutation_traced tracked_allQuiet (tracked_const True) (tracked_allQuiet.or (tracked_const lossy)) ?_
    refine (applyRootRefsUpdate_triple (C := gateCtx cfg.codec A False i refDomain c lossy hlost)
      (K := quietHistory _ _ c) hc).conseq ?_ ?_ ?_
    · exact fun x _ hx => ⟨hx.1, trivial, hx.2⟩
    · exact fun _ x _ hx => ⟨hx.1, trivial⟩
    · intro _ x _ hx
      rcases hx with ⟨hg, h | ⟨h, -⟩⟩
      · exact ⟨hg, .inl h⟩
      · exact ⟨hg, .inr h⟩

/-- The discipline of requests and attempts, in runs whose calls are in scope. -/
def workProof (cfg : Config) (A : Guard Call State) (lossy : Prop)
    (hlost : ∀ plan s, A _ (.commitRootRefs plan) .lost s → lossy) : Proof (workMachine cfg) where
  inv := Inv False
  allowed := A
  rely := Rely
  guar i _ := Guar False i
  idle := Outside
  post _ q r x := match q, r with
    | .attempt _ _, .error _ => AllQuiet x ∨ lossy
    | _, _ => True
  rely_refl := Rely.refl
  rely_trans _ _ _ _ h h' := h.trans h'
  guar_rely _ _ _ _ _ hne _ _ h := h.rely hne
  idle_rely _ _ _ _ _ hr h := hr.free h
  env_inv e s s' hi he := by
    cases he
    exact inv_event e hi
  env_rely e s s' i _ he hk := by
    cases he
    exact rely_event cfg e hk
  env_idle e s s' i _ he hk := by
    cases he
    exact idle_event cfg e hk
  serve_safe i q s hi hs := by
    cases q with
    | request r =>
      have hA : ∀ β c f s, A β c f s → orderly False β c f s := fun _ _ _ _ _ h => h.elim
      refine Safe.mono ?_ (Triple.bind (R := fun _ x => Outside i x.1) (tenantFetch_traced hA r)
        (fun response => Triple.pure fun _ _ hx => hx) (s, []) hi hs)
      exact fun _ _ _ _ => trivial
    | attempt refDomain body =>
      refine Safe.mono ?_ (Triple.bind (R := fun _ _ => True) (attempt_traced hlost)
        (fun result => Triple.pure fun _ _ _ => trivial) (s, []) hi ⟨hs, by simp [AllQuiet]⟩)
      intro r x _ hr
      cases r with
      | ok result => trivial
      | error e => exact hr.2

theorem workStart_initial {lossy : Prop} {hlost : ∀ plan s, A _ (.commitRootRefs plan) .lost s → lossy} :
    (workProof cfg A lossy hlost).Initial workStart :=
  ⟨inv_empty, fun _ => rfl, fun _ => by simp [workProof, Outside, workStart, State.empty, Instance.fresh]⟩

theorem reconciled_of_inv {s : State} (hi : Inv False s) : Reconciled s := by
  refine ⟨hi.ledger.revisions, hi.ledger.balances, fun sc h row hr => ⟨?_, (hi.counts sc).roots h row hr⟩⟩
  have hroots := hi.roots sc h
  simpa only [Tenant.rootCount, hr] using hroots

end ReconciliationAux

open ReconciliationAux

/-- Reconciliation, in every state that any run reaches, whatever becomes of its calls: the tables agree. In runs whose
commits are answered, an attempt that ended in an error has changed neither the ledger nor a tenant's store by any of
its calls. -/
theorem ledger_reconciles (cfg : Config) (p : Pool Call State CasError (Response Reply ⊕ DomainUpdateResult) RequestId Work)
    (hp : (workMachine cfg).Reach Machine.anyCall workStart p) :
    Reconciled p.state ∧
    ((workMachine cfg).Reach commitsAnswered workStart p → ∀ i refDomain body e steps,
      p.thread i = some ⟨.attempt refDomain body, .ret (.error e), steps⟩ →
        ∀ q ∈ steps, q.2.ledger = q.1.ledger ∧ q.2.tenant = q.1.tenant) := by
  refine ⟨?_, fun hp' i refDomain body e steps ht q hq => ?_⟩
  · exact reconciled_of_inv ((workProof cfg Machine.anyCall True fun _ _ _ => trivial).sound workStart_initial hp).1
  · have hpost := (workProof cfg commitsAnswered False fun _ _ h => h rfl).post_of_done workStart_initial hp' ht
    rcases hpost with hquiet | hlossy
    · exact hquiet q hq
    · exact hlossy.elim

/-! ## A run -/

/-- The two-node codec with the digests of the texts of changes to the leaf by one. -/
def sampleCodec : Codec where
  parseCanonicalNodeStream := twoNodeCodec.parseCanonicalNodeStream
  sha256Hex body :=
    if body = (changesJson [(leafHash, 1)]).toUTF8.data.toList then
      "8f3cea0c25066fb394f5671deb9bc45abede0a5bcff1565cd277ac8936de9ee1"
    else if body = (changesJson [(leafHash, -1)]).toUTF8.data.toList then
      "b37325e1cb2e8243ad82d398a9a341a41c8fe5511eca4abacce18cc7b7448e3a"
    else twoNodeCodec.sha256Hex body

/-- An update of the leaf. -/
def changeLeaf (requestId : String) (delta : Int) : RootRefsBody :=
  ⟨some requestId, some (AList.singleton leafHash (.int delta))⟩

/-- The leaf is uploaded, an attempt to release it fails, and an attempt to retain it succeeds. -/
def retainLeaf : List (Label RequestId Work Event) :=
  .start ⟨sampleScope, 0⟩ (.request (uploadRequest leafHash leafBody)) :: List.replicate 16 (.run ⟨sampleScope, 0⟩ .none) ++
  .start ⟨sampleScope, 1⟩ (.attempt "domain" (changeLeaf "release" (-1))) :: List.replicate 4 (.run ⟨sampleScope, 1⟩ .none) ++
  .start ⟨sampleScope, 2⟩ (.attempt "domain" (changeLeaf "retain" 1)) :: List.replicate 9 (.run ⟨sampleScope, 2⟩ .none)

/-- The test for an answered commit. -/
def isAnswered (β : Type) (c : Call β) (f : Fault) (_ : State) : Bool :=
  match c with
  | .commitRootRefs _ => decide (f ≠ .lost)
  | _ => true

theorem commitsAnswered_of_isAnswered (β : Type) (c : Call β) (f : Fault) (s : State) (h : isAnswered β c f s = true) :
    commitsAnswered β c f s := by
  unfold isAnswered at h
  unfold commitsAnswered
  split
  · exact of_decide_eq_true h
  · trivial

/-- The attempt of an identifier has ended in an error. -/
def endedInError (p : Pool Call State CasError (Response Reply ⊕ DomainUpdateResult) RequestId Work) (i : RequestId) : Bool :=
  match p.thread i with
  | some ⟨.attempt _ _, .ret (.error _), _⟩ => true
  | _ => false

theorem ledger_reconciles_retainLeaf :
    ∃ p, (workMachine ⟨sampleCodec, none, 1, true⟩).execWhile? isAnswered retainLeaf workStart = some p ∧
      p.state.ledger.balance ⟨"stack", "tenant", "domain"⟩ leafHash = 1 ∧ endedInError p ⟨sampleScope, 1⟩ = true ∧
      Reconciled p.state ∧
      ∀ refDomain body e steps, p.thread ⟨sampleScope, 1⟩ = some ⟨.attempt refDomain body, .ret (.error e), steps⟩ →
        ∀ q ∈ steps, q.2.ledger = q.1.ledger ∧ q.2.tenant = q.1.tenant := by
  have hsome : ((workMachine ⟨sampleCodec, none, 1, true⟩).execWhile? isAnswered retainLeaf workStart).any (fun p =>
      decide (p.state.ledger.balance ⟨"stack", "tenant", "domain"⟩ leafHash = 1) && endedInError p ⟨sampleScope, 1⟩) = true := by
    decide
  obtain ⟨p, hp, hm⟩ := (Option.any_eq_true _ _).mp hsome
  obtain ⟨hbalance, hended⟩ := Bool.and_eq_true_iff.mp hm
  have hreach := Machine.reach_of_execWhile? commitsAnswered_of_isAnswered retainLeaf .init hp
  have hall := ledger_reconciles ⟨sampleCodec, none, 1, true⟩ p (hreach.mono fun _ _ _ _ _ => trivial)
  exact ⟨p, hp, of_decide_eq_true hbalance, hended, hall.1, fun refDomain body e steps ht q hq =>
    hall.2 hreach ⟨sampleScope, 1⟩ refDomain body e steps ht q hq⟩

end UniDocs.Cas
