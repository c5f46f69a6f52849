import UniDocs.Cas.TenantDo
import UniDocs.Lemmas.LedgerCommit

/-!
# Root ref updates against a moving ledger

The kernel of an update is verified once, against what other updates may do to the ledger (`Ledger.Le`). `DomainCtx`
holds what a setting has to offer: behind the tenant's gate the rows an update has checked are still there when it
commits, without the gate nothing is known of them. The triples also speak of the effects of the program's own calls.
-/

namespace UniDocs.Cas

open Lib LedgerCommitAux

/-- The state with the effects of the running program's own calls. -/
abbrev Traced := State × List (State × State)

/-- A canonical update: distinct keys, and the digest of its text. -/
structure CanonicalOk (codec : Codec) (c : CanonicalRootRefsUpdate) : Prop where
  keys : (c.entries.map Prod.fst).Nodup
  text : c.changesJson = changesJson c.entries
  digest : c.payloadHash = sha256HexText codec c.changesJson

/-- The state after a commit. -/
def State.committed (s : State) (sc : RootRefScope) (t : Tenant) (l : Ledger) : State :=
  { s.setTenant sc.tenant t with ledger := l }

/-- A setting in which an update of a scope runs. -/
structure DomainCtx (codec : Codec) (S : Spec Call State) (sc : RootRefScope) (c : CanonicalRootRefsUpdate) where
  pre : State → Prop
  row : Hash → State → Prop
  ready : Hash → State → Prop
  lossy : Prop
  exec_eq : ∀ {β : Type} (c : Call β) (f : Fault) (s : State), S.exec c f s = exec codec c f s
  ledgerOk : ∀ s, S.inv s → LedgerOk s.ledger
  le : ∀ s s', S.rely s s' → Ledger.Le s.ledger s'.ledger
  stable_pre : Stable S pre
  stable_row : ∀ h, Stable S fun s => pre s ∧ row h s
  stable_ready : ∀ h, Stable S fun s => pre s ∧ ready h s
  row_of : ∀ s h, S.inv s → pre s → h ∈ (s.tenant sc.tenant).nodes → row h s
  ready_of : ∀ s h, S.inv s → pre s → h ∈ (s.tenant sc.tenant).objects → ready h s
  refl : ∀ s, S.guar s s
  lost : ∀ plan s, S.allowed _ (.commitRootRefs plan) .lost s → lossy
  commit : ∀ plan s t' l', S.inv s → pre s → plan.scope = sc → plan.requestId = c.requestId → plan.entries = c.entries →
    (∀ e ∈ plan.entries, row e.1 s) →
    (∀ e ∈ plan.entries, 0 < e.2 → ready e.1 s) →
    plan.payloadHash = sha256HexText codec (changesJson plan.entries) →
    Committed plan (s.tenant sc.tenant) s.ledger t' l' →
    S.inv (s.committed sc t' l') ∧ S.guar s (s.committed sc t' l') ∧ pre (s.committed sc t' l')

/-- What is said of the program's own calls: while it has not committed, and after it has. -/
structure History (S : Spec Call State) (sc : RootRefScope) (c : CanonicalRootRefsUpdate) where
  live : Traced → Prop
  done : Traced → Prop
  stable_live : Stable S.withSteps live
  stable_done : Stable S.withSteps done
  read : ∀ s st, live (s, st) → live (s, st ++ [(s, s)])
  commit : ∀ plan s t' l' st, plan.scope = sc → plan.requestId = c.requestId → plan.payloadHash = c.payloadHash →
    plan.entries = c.entries → Committed plan (s.tenant sc.tenant) s.ledger t' l' → live (s, st) →
    done (s.committed sc t' l', st ++ [(s, s.committed sc t' l')])

namespace DomainAux

/-! ## Canonicalization -/

theorem validateChange_fst {h : Hash} {d : JsonDelta} {e : Hash × Int} (hv : validateChange h d = .ok e) : e.1 = h := by
  unfold validateChange invalidUpdate at hv
  split at hv
  · cases hv
  · split at hv
    · cases hv
    · split at hv
      · cases hv
      · split at hv
        · cases hv
        · cases hv
          rfl

theorem validateChanges_keys {xs : List (Sigma fun _ : Hash => JsonDelta)} : ∀ {es : Entries},
    validateChanges xs = .ok es → es.map Prod.fst = xs.keys := by
  induction xs with
  | nil =>
    intro es h
    cases h
    rfl
  | cons x xs ih =>
    intro es h
    obtain ⟨hash, delta⟩ := x
    simp only [validateChanges] at h
    split at h
    · cases h
    · rename_i entry he
      split at h
      · cases h
      · rename_i entries hes
        cases h
        simp [ih hes, validateChange_fst he, List.keys]

/-- Canonicalization gives distinct keys and the digest of the text. -/
theorem canonicalize_ok {codec : Codec} {body : RootRefsBody} {c : CanonicalRootRefsUpdate}
    (h : canonicalizeRootRefsUpdate codec body = .ok c) : CanonicalOk codec c := by
  unfold canonicalizeRootRefsUpdate invalidUpdate at h
  split at h
  · cases h
  · split at h
    · cases h
    · split at h
      · cases h
      · split at h
        · cases h
        · rename_i changes _
          split at h
          · cases h
          · rename_i entries hv
            split at h
            · cases h
            · split at h
              · cases h
              · cases h
                refine ⟨?_, rfl, rfl⟩
                have hperm := (List.perm_insertionSort (fun a b : Hash × Int => a.1 ≤ b.1) entries).map Prod.fst
                rw [hperm.nodup_iff, validateChanges_keys hv]
                exact changes.nodupKeys

section Kernel

variable {codec : Codec} {S : Spec Call State} {sc : RootRefScope} {c : CanonicalRootRefsUpdate}

/-- In the setting, with a fact of the state and one of the program's own calls. -/
def Own (C : DomainCtx codec S sc c) (φ : State → Prop) (H : Traced → Prop) (x : Traced) : Prop :=
  C.pre x.1 ∧ φ x.1 ∧ H x

/-- A fact that lasts in the setting. -/
def Holds (C : DomainCtx codec S sc c) (φ : State → Prop) : Prop := Stable S fun s => C.pre s ∧ φ s

theorem Holds.and {C : DomainCtx codec S sc c} {φ ψ : State → Prop} (h : Holds C φ) (h' : Holds C ψ) :
    Holds C fun s => φ s ∧ ψ s := by
  intro s s' hi hi' hr hp
  obtain ⟨h1, h2⟩ := h s s' hi hi' hr ⟨hp.1, hp.2.1⟩
  obtain ⟨-, h3⟩ := h' s s' hi hi' hr ⟨hp.1, hp.2.2⟩
  exact ⟨h1, h2, h3⟩

theorem Holds.forall {α : Type} {C : DomainCtx codec S sc c} {φ : α → State → Prop} (h : ∀ a, Holds C (φ a)) :
    Holds C fun s => ∀ a, φ a s := by
  intro s s' hi hi' hr hp
  exact ⟨C.stable_pre s s' hi hi' hr hp.1, fun a => (h a s s' hi hi' hr ⟨hp.1, hp.2 a⟩).2⟩

theorem Holds.imp {C : DomainCtx codec S sc c} {p : Prop} {φ : State → Prop} (h : p → Holds C φ) :
    Holds C fun s => p → φ s := by
  intro s s' hi hi' hr hp
  exact ⟨C.stable_pre s s' hi hi' hr hp.1, fun hq => (h hq s s' hi hi' hr ⟨hp.1, hp.2 hq⟩).2⟩

theorem Holds.const {C : DomainCtx codec S sc c} (p : Prop) : Holds C fun _ => p :=
  fun s s' hi hi' hr hp => ⟨C.stable_pre s s' hi hi' hr hp.1, hp.2⟩

theorem Holds.ledger {C : DomainCtx codec S sc c} {φ : Ledger → Prop} (h : ∀ l l', Ledger.Le l l' → φ l → φ l') :
    Holds C fun s => φ s.ledger :=
  fun s s' hi hi' hr hp => ⟨C.stable_pre s s' hi hi' hr hp.1, h _ _ (C.le s s' hr) hp.2⟩

theorem stable_own {C : DomainCtx codec S sc c} {φ : State → Prop} {H : Traced → Prop} (hφ : Holds C φ)
    (hH : Stable S.withSteps H) : Stable S.withSteps (Own C φ H) := by
  intro x y hi hi' hr hp
  obtain ⟨h1, h2⟩ := hφ x.1 y.1 hi hi' hr.1 ⟨hp.1, hp.2.1⟩
  exact ⟨h1, h2, hH x y hi hi' hr hp.2.2⟩

/-- A failure of a store. -/
def StoreFailure (e : CasError) : Prop := e = .rejected ∨ e = .unavailable

theorem read_triple {C : DomainCtx codec S sc c} {β : Type} {call : Call (Except CasError β)} {f : State → β}
    {φ : State → Prop} {ψ : β → State → Prop} {H H' : Traced → Prop}
    (hexec : ∀ g s s' r, exec codec call g s = some (s', r) → s' = s ∧ (∀ b, r = .ok b → b = f s) ∧ ∀ e, r = .error e → StoreFailure e)
    (hφ : Holds C φ) (hψ : ∀ b, Holds C (ψ b)) (hH : Stable S.withSteps H') (hread : ∀ s st, H (s, st) → H' (s, st ++ [(s, s)]))
    (h : ∀ s, S.inv s → C.pre s → φ s → ψ (f s) s) :
    Triple S.withSteps (Own C φ H) (Prog.attempt call) (fun b => Own C (ψ b) H') (fun e x => StoreFailure e ∧ Own C φ H' x) := by
  refine Triple.attempt (fun b => stable_own (hψ b) hH) (fun e => (Stable.const _).and (stable_own hφ hH)) ?_
  rintro g ⟨s, st⟩ y r hi ⟨h1, h2, h3⟩ _ he
  simp only [Spec.withSteps, C.exec_eq] at he
  split at he
  · rename_i s' _ hx
    cases he
    obtain ⟨rfl, hok, herr⟩ := hexec g s s' r hx
    refine ⟨hi, ⟨C.refl s', rfl⟩, ?_⟩
    cases r with
    | ok b =>
      cases hok b rfl
      exact ⟨h1, h s' hi h1 h2, hread s' st h3⟩
    | error e => exact ⟨herr e rfl, h1, h2, hread s' st h3⟩
  · cases he

theorem query_exec {f : Tenant → β} {sc : Scope} {g : Fault} {s s' : State} {r : Except CasError β}
    (h : exec codec (.query sc f) g s = some (s', r)) :
    s' = s ∧ (∀ b, r = .ok b → b = f (s.tenant sc)) ∧ ∀ e, r = .error e → StoreFailure e := by
  simp only [exec, Option.some.injEq] at h
  cases g <;> simp only [storeCall, Prod.mk.injEq] at h <;> obtain ⟨rfl, rfl⟩ := h
  · exact ⟨rfl, by rintro b ⟨⟩; rfl, by rintro e ⟨⟩⟩
  · exact ⟨rfl, by rintro b ⟨⟩, by rintro e ⟨⟩; exact .inr rfl⟩
  · exact ⟨rfl, by rintro b ⟨⟩, by rintro e ⟨⟩; exact .inr rfl⟩

theorem queryLedger_exec {f : Ledger → β} {g : Fault} {s s' : State} {r : Except CasError β}
    (h : exec codec (.queryLedger f) g s = some (s', r)) :
    s' = s ∧ (∀ b, r = .ok b → b = f s.ledger) ∧ ∀ e, r = .error e → StoreFailure e := by
  simp only [exec, Option.some.injEq] at h
  cases g <;> simp only [storeCall, Prod.mk.injEq] at h <;> obtain ⟨rfl, rfl⟩ := h
  · exact ⟨rfl, by rintro b ⟨⟩; rfl, by rintro e ⟨⟩⟩
  · exact ⟨rfl, by rintro b ⟨⟩, by rintro e ⟨⟩; exact .inr rfl⟩
  · exact ⟨rfl, by rintro b ⟨⟩, by rintro e ⟨⟩; exact .inr rfl⟩

theorem repositoryCall_triple {P : Traced → Prop} {α : Type} {p : Op α} {Q : α → Traced → Prop} {E : Traced → Prop}
    (h : Triple S.withSteps P p Q fun e x => StoreFailure e ∧ E x) :
    Triple S.withSteps P (repositoryCall p) Q fun e x => (∃ m, e = .rootRefsRetryable m) ∧ E x := by
  refine Triple.tryCatch h fun e => Triple.of_pure fun he => ?_
  rcases he with rfl | rfl
  · exact Triple.throw fun _ _ hx => ⟨⟨_, rfl⟩, hx⟩
  · exact Triple.throw fun _ _ hx => ⟨⟨_, rfl⟩, hx⟩

/-! ## The reads of an update -/

section Reads

variable {C : DomainCtx codec S sc c} {φ : State → Prop} {H : Traced → Prop}

theorem Own.mono {φ' : State → Prop} (h : ∀ s, φ s → φ' s) {x : Traced} (hx : Own C φ H x) : Own C φ' H x :=
  ⟨hx.1, h x.1 hx.2.1, hx.2.2⟩

theorem readNodes_triple (hφ : Holds C φ) (hH : Stable S.withSteps H) (hread : ∀ s st, H (s, st) → H (s, st ++ [(s, s)]))
    (hs : List Hash) :
    Triple S.withSteps (Own C φ H) (readNodes sc.tenant hs)
      (fun nodes => Own C (fun s => φ s ∧ ∀ p ∈ nodes, C.row p.1 s) H) (fun e x => StoreFailure e ∧ Own C φ H x) := by
  induction hs generalizing φ with
  | nil => exact Triple.pure fun x _ hx => hx.mono fun s hp => ⟨hp, by simp⟩
  | cons h hs ih =>
    have hrow : Holds C (C.row h) := C.stable_row h
    unfold readNodes
    refine Triple.bind (Q := fun row => Own C (fun s => φ s ∧ (row.isSome → C.row h s)) H) ?_ fun row => ?_
    · refine read_triple (f := fun s => ((s.tenant sc.tenant).nodes.lookup h).map (·.rootRefCount))
        (fun g s s' r he => query_exec he) hφ (fun b => hφ.and (Holds.imp fun _ => hrow)) hH hread ?_
      intro s hi hpre hp
      refine ⟨hp, fun hsome => C.row_of s h hi hpre ?_⟩
      rw [Option.isSome_map] at hsome
      exact AList.lookup_isSome.mp hsome
    · refine Triple.bind ((ih (hφ.and (Holds.imp fun _ => hrow))).conseq (fun _ _ hx => hx) (fun _ _ _ hx => hx)
        fun e x _ hx => ⟨hx.1, hx.2.mono fun s hp => hp.1⟩) fun nodes => ?_
      refine Triple.pure fun x _ hx => hx.mono fun s hp => ⟨hp.1.1, ?_⟩
      cases row with
      | none => exact hp.2
      | some n =>
        intro p hm
        rcases List.mem_cons.mp hm with rfl | hm
        · exact hp.1.2 rfl
        · exact hp.2 p hm

theorem findUnreadyNode_triple (hφ : Holds C φ) (hH : Stable S.withSteps H)
    (hread : ∀ s st, H (s, st) → H (s, st ++ [(s, s)])) (hs : List Hash) :
    Triple S.withSteps (Own C φ H) (findUnreadyNode sc.tenant hs)
      (fun unready => Own C (fun s => φ s ∧ (unready = none → ∀ h ∈ hs, C.ready h s)) H)
      (fun e x => StoreFailure e ∧ Own C φ H x) := by
  induction hs generalizing φ with
  | nil => exact Triple.pure fun x _ hx => hx.mono fun s hp => ⟨hp, by simp⟩
  | cons h hs ih =>
    have hready : Holds C (C.ready h) := C.stable_ready h
    unfold findUnreadyNode
    refine Triple.bind (Q := fun object => Own C (fun s => φ s ∧ (object = true → C.ready h s)) H) ?_ fun object => ?_
    · refine read_triple (f := fun s => decide (h ∈ (s.tenant sc.tenant).objects))
        (fun g s s' r he => query_exec he) hφ (fun b => hφ.and (Holds.imp fun _ => hready)) hH hread ?_
      exact fun s hi hpre hp => ⟨hp, fun hd => C.ready_of s h hi hpre (by simpa using hd)⟩
    · cases object with
      | false => exact Triple.pure fun x _ hx => hx.mono fun s hp => ⟨hp.1, by simp⟩
      | true =>
        refine (ih (hφ.and hready)).conseq ?_ ?_ ?_
        · exact fun x _ hx => hx.mono fun s hp => ⟨hp.1, hp.2 rfl⟩
        · refine fun unready x _ hx => hx.mono fun s hp => ⟨hp.1.1, fun hn k hk => ?_⟩
          rcases List.mem_cons.mp hk with rfl | hk
          · exact hp.1.2
          · exact hp.2 hn k hk
        · exact fun e x _ hx => ⟨hx.1, hx.2.mono fun s hp => hp.1⟩

/-- The revision a plan expects is one the domain has had, and at that revision the balances are the current ones. -/
def Planned (sc : RootRefScope) (revision : Nat) (balances : Hash → Option Int) (l : Ledger) : Prop :=
  revision ≤ l.revision sc.domain ∧ (revision = l.revision sc.domain → ∀ h, balances h = l.refs.lookup (sc, h))

theorem planned_le {revision : Nat} {balances : Hash → Option Int} (l l' : Ledger) (hle : Ledger.Le l l')
    (h : Planned sc revision balances l) : Planned sc revision balances l' := by
  have h1 := hle.revision sc.domain
  refine ⟨le_trans h.1 h1, fun he k => ?_⟩
  have heq : l.revision sc.domain = l'.revision sc.domain := le_antisymm h1 (by rw [← he]; exact h.1)
  rw [hle.refs sc heq k, h.2 (by rw [he, heq]) k]

/-- The revision is read before the balances, so balances that are newer than the revision belong to a stale plan. -/
theorem readDomainState_triple (hφ : Holds C φ) (hH : Stable S.withSteps H)
    (hread : ∀ s st, H (s, st) → H (s, st ++ [(s, s)])) :
    Triple S.withSteps (Own C φ H) (readDomainState sc)
      (fun d => Own C (fun s => φ s ∧ Planned sc d.1 d.2 s.ledger) H) (fun e x => StoreFailure e ∧ Own C φ H x) := by
  unfold readDomainState
  have hrev : ∀ n, Holds C fun s => n ≤ s.ledger.revision sc.domain := fun n =>
    Holds.ledger (φ := fun l => n ≤ l.revision sc.domain) fun l l' hle h => le_trans h (hle.revision sc.domain)
  refine Triple.bind (Q := fun n => Own C (fun s => φ s ∧ n ≤ s.ledger.revision sc.domain) H) ?_ fun n => ?_
  · exact read_triple (f := fun s => s.ledger.revision sc.domain) (fun g s s' r he => queryLedger_exec he) hφ
      (fun n => hφ.and (hrev n)) hH hread fun s _ _ hp => ⟨hp, le_refl _⟩
  · refine Triple.bind (Q := fun b => Own C (fun s => φ s ∧ Planned sc n b s.ledger) H)
      ((read_triple (f := fun s hash => s.ledger.refs.lookup (sc, hash)) (fun g s s' r he => queryLedger_exec he)
        (hφ.and (hrev n)) (fun b => hφ.and (Holds.ledger planned_le)) hH hread ?_).conseq
        (fun _ _ hx => hx) (fun _ _ _ hx => hx) fun e x _ hx => ⟨hx.1, hx.2.mono fun s hp => hp.1⟩) fun b => ?_
    · exact fun s _ _ hp => ⟨hp.1, hp.2, fun _ _ => rfl⟩
    · exact Triple.pure fun _ _ hx => hx

end Reads

/-! ## The commit -/

/-- The update is recorded, with its payload, at a revision. -/
def Recorded (sc : RootRefScope) (c : CanonicalRootRefsUpdate) (revision : Nat) (l : Ledger) : Prop :=
  ∃ record, l.requests.lookup (sc, c.requestId) = some record ∧ record.payloadHash = c.payloadHash ∧ record.revision = revision

theorem recorded_le {n : Nat} (l l' : Ledger) (hle : Ledger.Le l l') (h : Recorded sc c n l) : Recorded sc c n l' := by
  obtain ⟨record, hr, h1, h2⟩ := h
  exact ⟨record, hle.requests _ _ hr, h1, h2⟩

section Update

variable {C : DomainCtx codec S sc c} {K : History S sc c}

/-- The state of affairs at the end of an attempt that succeeded. -/
def Succeeded (C : DomainCtx codec S sc c) (K : History S sc c) (r : DomainUpdateResult) (x : Traced) : Prop :=
  C.pre x.1 ∧ (K.live x ∨ K.done x) ∧ Recorded sc c r.revision x.1.ledger

/-- The state of affairs at the end of an attempt that failed: it has not committed, or the answer was lost. -/
def Failed (C : DomainCtx codec S sc c) (K : History S sc c) (x : Traced) : Prop :=
  C.pre x.1 ∧ (K.live x ∨ (C.lossy ∧ K.done x))

theorem Own.failed {φ : State → Prop} {x : Traced} (h : Own C φ K.live x) : Failed C K x :=
  ⟨h.1, .inl h.2.2⟩

theorem stable_failed : Stable S.withSteps (Failed C K) := by
  intro x y hi hi' hr hp
  refine ⟨C.stable_pre x.1 y.1 hi hi' hr.1 hp.1, ?_⟩
  rcases hp.2 with h | ⟨hl, h⟩
  · exact .inl (K.stable_live x y hi hi' hr h)
  · exact .inr ⟨hl, K.stable_done x y hi hi' hr h⟩

theorem validateCounts_mem {nodes : List (Hash × Int)} : ∀ {es : Entries}, validateCounts nodes es = .ok () →
    ∀ e ∈ es, ∃ n, (e.1, n) ∈ nodes := by
  intro es
  induction es with
  | nil => simp
  | cons a es ih =>
    intro h e he
    obtain ⟨hash, delta⟩ := a
    simp only [validateCounts] at h
    split at h
    · cases h
    · rename_i n hl
      split at h
      · cases h
      · split at h
        · cases h
        · rcases List.mem_cons.mp he with rfl | he
          · obtain ⟨l₁, l₂, rfl, -⟩ := List.lookup_eq_some_iff.mp hl
            exact ⟨n, by simp⟩
          · exact ih h e he

theorem commit_triple (hc : CanonicalOk codec c) {revision time : Nat} {balances : Hash → Option Int} :
    Triple S.withSteps
      (Own C (fun s => (∀ e ∈ c.entries, C.row e.1 s) ∧ (∀ e ∈ c.entries, 0 < e.2 → C.ready e.1 s) ∧
        Planned sc revision balances s.ledger) K.live)
      (Prog.attempt (.commitRootRefs (rootRefPlan sc c revision balances time)))
      (fun b x => b = true ∧ Succeeded C K ⟨false, revision + 1⟩ x) (fun e x => StoreFailure e ∧ Failed C K x) := by
  have hQ : Stable S.withSteps (Succeeded C K ⟨false, revision + 1⟩) := by
    intro x y hi hi' hr hp
    refine ⟨C.stable_pre x.1 y.1 hi hi' hr.1 hp.1, ?_, recorded_le _ _ (C.le _ _ hr.1) hp.2.2⟩
    rcases hp.2.1 with h | h
    · exact .inl (K.stable_live x y hi hi' hr h)
    · exact .inr (K.stable_done x y hi hi' hr h)
  refine Triple.attempt (fun b => (Stable.const _).and hQ) (fun e => (Stable.const _).and stable_failed) ?_
  rintro g ⟨s, st⟩ y r hi ⟨hpre, ⟨hrow, hready, hplan⟩, hlive⟩ ha he
  simp only [Spec.withSteps, C.exec_eq, exec, Option.some.injEq] at he
  have hok : LedgerOk s.ledger := C.ledgerOk s hi
  cases hb : commitBatch (rootRefPlan sc c revision balances time) (s.tenant sc.tenant) s.ledger with
  | none =>
    simp only [rootRefPlan] at hb he
    rw [hb] at he
    have hsame : y = (s, st ++ [(s, s)]) ∧ ∃ e, r = .error e ∧ StoreFailure e := by
      cases g <;> cases he
      · exact ⟨rfl, _, rfl, .inl rfl⟩
      · exact ⟨rfl, _, rfl, .inr rfl⟩
      · exact ⟨rfl, _, rfl, .inl rfl⟩
    obtain ⟨rfl, e, rfl, hf⟩ := hsame
    exact ⟨hi, ⟨C.refl s, rfl⟩, hf, hpre, .inl (K.read s st hlive)⟩
  | some res =>
    obtain ⟨⟨t', l'⟩, b⟩ := res
    have hplanOk : PlanOk (rootRefPlan sc c revision balances time) balances s.ledger :=
      ⟨hc.keys, rfl, rfl, hplan.1, hplan.2⟩
    obtain ⟨hcom, rfl⟩ := commitBatch_spec hok hplanOk hb
    simp only [rootRefPlan] at hb he
    rw [hb] at he
    obtain ⟨hinv, hguar, hpre'⟩ := C.commit (rootRefPlan sc c revision balances time) s t' l' hi hpre rfl rfl rfl hrow hready
      (show c.payloadHash = sha256HexText codec (changesJson c.entries) by rw [← hc.text]; exact hc.digest) hcom
    have hdone := K.commit (rootRefPlan sc c revision balances time) s t' l' st rfl rfl rfl rfl hcom hlive
    cases g with
    | failed =>
      cases he
      exact ⟨hi, ⟨C.refl s, rfl⟩, .inr rfl, hpre, .inl (K.read s st hlive)⟩
    | none =>
      cases he
      refine ⟨hinv, ⟨hguar, rfl⟩, rfl, hpre', .inr hdone, ⟨c.payloadHash, revision + 1, time⟩, ?_, rfl, rfl⟩
      show l'.requests.lookup (sc, c.requestId) = _
      rw [hcom.requests, AList.lookup_insert_eq]
      exact if_pos rfl
    | lost =>
      cases he
      exact ⟨hinv, ⟨hguar, rfl⟩, .inr rfl, hpre', .inr ⟨C.lost _ s ha, hdone⟩⟩

theorem now_triple {φ : State → Prop} {H : Traced → Prop} {E : CasError → Traced → Prop} (hφ : Holds C φ)
    (hH : Stable S.withSteps H) (hread : ∀ s st, H (s, st) → H (s, st ++ [(s, s)])) :
    Triple S.withSteps (Own C φ H) now (fun _ => Own C φ H) E := by
  refine Triple.perform (fun _ => stable_own hφ hH) ?_
  rintro g ⟨s, st⟩ y b hi ⟨h1, h2, h3⟩ _ he
  simp only [Spec.withSteps, C.exec_eq] at he
  split at he
  · rename_i s' _ hx
    cases he
    cases g <;> cases hx
    exact ⟨hi, ⟨C.refl s, rfl⟩, h1, h2, hread s st h3⟩
  · cases he

/-- An attempt at an update that was not recorded when it looked. -/
theorem planAndCommit_triple (hc : CanonicalOk codec c) :
    Triple S.withSteps (Own C (fun _ => True) K.live) (planAndCommit sc c) (Succeeded C K)
      fun _ => Failed C K := by
  have hrows : Holds C fun s => ∀ e ∈ c.entries, C.row e.1 s :=
    Holds.forall fun e => Holds.imp fun _ => C.stable_row e.1
  have hreadys : Holds C fun s => ∀ e ∈ c.entries, 0 < e.2 → C.ready e.1 s :=
    Holds.forall fun e => Holds.imp fun _ => Holds.imp fun _ => C.stable_ready e.1
  unfold planAndCommit
  refine Triple.bind ((repositoryCall_triple (readNodes_triple (Holds.const True) K.stable_live K.read _)).conseq
    (fun _ _ hx => hx) (fun _ _ _ hx => hx) fun e x _ hx => hx.2.failed) fun nodes => ?_
  refine Triple.bind (Q := fun _ => Own C (fun s => ∀ e ∈ c.entries, C.row e.1 s) K.live) ?_ fun _ => ?_
  · intro x _ hx hi
    split
    · rename_i u hv
      refine hx.mono fun s hp e he => ?_
      obtain ⟨n, hn⟩ := validateCounts_mem hv e he
      exact hp.2 (e.1, n) hn
    · exact hx.failed
  · refine Triple.bind ((repositoryCall_triple (findUnreadyNode_triple hrows K.stable_live K.read _)).conseq
      (fun _ _ hx => hx) (fun _ _ _ hx => hx) fun e x _ hx => hx.2.failed) fun unready => ?_
    cases unready with
    | some h => exact Triple.throw fun x _ hx => hx.failed
    | none =>
      have hφ := hrows.and hreadys
      refine Triple.bind (Q := fun d => Own C (fun s => ((∀ e ∈ c.entries, C.row e.1 s) ∧
        (∀ e ∈ c.entries, 0 < e.2 → C.ready e.1 s)) ∧ Planned sc d.1 d.2 s.ledger) K.live)
        ((repositoryCall_triple (readDomainState_triple hφ K.stable_live K.read)).conseq ?_
          (fun _ _ _ hx => hx) fun e x _ hx => hx.2.failed) fun d => ?_
      · refine fun x _ hx => hx.mono fun s hp => ⟨hp.1, fun e he hpos => hp.2 rfl e.1 ?_⟩
        exact List.mem_map.mpr ⟨e, List.mem_filter.mpr ⟨he, by simpa using hpos⟩, rfl⟩
      · refine Triple.bind (now_triple (hφ.and (Holds.ledger planned_le)) K.stable_live K.read) fun time => ?_
        refine Triple.bind (((repositoryCall_triple (commit_triple hc)).conseq
          (fun x _ hx => hx.mono fun s hp => ⟨hp.1.1, hp.1.2, hp.2⟩) (fun _ _ _ hx => hx) fun e x _ hx => hx.2)) fun b => ?_
        refine Triple.of_pure fun hb => ?_
        subst hb
        refine Triple.bind (Q := fun _ => Succeeded C K ⟨false, d.1 + 1⟩)
          (Triple.require (fun _ _ hx _ => hx) fun _ _ _ h => by cases h) fun _ => ?_
        exact Triple.pure fun _ _ hx => hx

/-- The error of a request identity that was used for another payload. -/
def conflictError : CasError :=
  .rootRefsValidation 409 RootRefsErrorCodes.idempotencyConflict "requestId reused with a different payload"

theorem applyRootRefsUpdate_triple (hc : CanonicalOk codec c) :
    Triple S.withSteps (Own C (fun _ => True) K.live) (applyRootRefsUpdate sc c) (Succeeded C K)
      fun _ => Failed C K := by
  unfold applyRootRefsUpdate
  refine Triple.bind (Q := fun existing => Own C (fun s => ∀ record, existing = some record →
    s.ledger.requests.lookup (sc, c.requestId) = some record) K.live)
    ((repositoryCall_triple (read_triple (f := fun s => s.ledger.requests.lookup (sc, c.requestId))
      (fun g s s' r he => queryLedger_exec he) (Holds.const True) ?_ K.stable_live K.read ?_)).conseq
      (fun _ _ hx => hx) (fun _ _ _ hx => hx) fun e x _ hx => hx.2.failed) fun existing => ?_
  · exact fun existing => Holds.forall fun record => Holds.imp fun _ =>
      Holds.ledger (φ := fun l => l.requests.lookup (sc, c.requestId) = some record) fun l l' hle h => hle.requests _ _ h
  · exact fun s _ _ _ record h => h
  · cases existing with
    | none => exact (planAndCommit_triple hc).pre fun x _ hx => hx.mono fun _ _ => trivial
    | some record =>
      refine Triple.bind (Q := fun _ x => record.payloadHash = c.payloadHash ∧ Own C (fun s =>
        s.ledger.requests.lookup (sc, c.requestId) = some record) K.live x)
        (Triple.require ?_ fun x _ hx _ => hx.failed) fun _ => ?_
      · exact fun x _ hx hb => ⟨by simpa using hb, hx.mono fun s hp => hp record rfl⟩
      · exact Triple.pure fun x _ hx => ⟨hx.2.1, .inl hx.2.2.2, record, hx.2.2.1, hx.1, rfl⟩

/-! ## Retries -/

/-- The retry loop, by induction over the attempts: an attempt that failed after its commit leads to one that finds the
update recorded. -/
theorem withDomainRetry_triple (hc : CanonicalOk codec c) (hdone : ∀ x, K.done x → K.live x)
    (maxAttempts : Option Nat) (fuel : Nat) : ∀ attempt : Nat,
    Triple S.withSteps (Own C (fun _ => True) K.live) (withDomainRetry (applyRootRefsUpdate sc c) maxAttempts attempt fuel)
      (Succeeded C K) fun _ => Failed C K := by
  induction fuel with
  | zero =>
    intro attempt x _ _ f y b _ he
    simp only [Spec.withSteps, C.exec_eq, exec] at he
    cases he
  | succ fuel ih =>
    intro attempt
    refine Triple.tryCatch (applyRootRefsUpdate_triple hc) fun e => ?_
    have hagain : Triple S.withSteps (Failed C K) (withDomainRetry (applyRootRefsUpdate sc c) maxAttempts (attempt + 1) fuel)
        (Succeeded C K) fun _ => Failed C K := (ih (attempt + 1)).pre fun x _ hx => by
      refine ⟨hx.1, trivial, ?_⟩
      rcases hx.2 with h | ⟨-, h⟩
      · exact h
      · exact hdone x h
    cases e with
    | rootRefsRetryable message =>
      simp only
      split
      · exact Triple.throw fun _ _ hx => hx
      · exact hagain
    | _ => exact Triple.throw fun _ _ hx => hx

theorem domainFetch_triple {cfg : Config} {body : RootRefsBody} (hbody : canonicalizeRootRefsUpdate cfg.codec body = .ok c)
    (hcodec : cfg.codec = codec) (hdone : ∀ x, K.done x → K.live x) :
    Triple S.withSteps (Own C (fun _ => True) K.live) (domainFetch cfg sc body)
      (fun response x => match response with
        | .ok r => Succeeded C K r x
        | .error _ _ _ => Failed C K x) fun _ _ => False := by
  have hc : CanonicalOk codec c := hcodec ▸ canonicalize_ok hbody
  unfold domainFetch
  rw [hbody]
  refine Triple.tryCatch (F := fun _ => Failed C K) ?_ fun e => ?_
  · refine Triple.bind (Q := fun c' x => c' = c ∧ Own C (fun _ => True) K.live x)
      (Triple.pure fun _ _ hx => ⟨rfl, hx⟩) fun c' => Triple.of_pure fun heq => ?_
    subst heq
    refine Triple.bind (withDomainRetry_triple hc hdone cfg.maxAttempts cfg.retryFuel 1) fun r => ?_
    exact Triple.pure fun _ _ hx => hx
  · cases e with
    | rootRefsValidation status code message => exact Triple.pure fun _ _ hx => hx
    | _ => exact Triple.pure fun _ _ hx => hx

/-! ## A request identity used for another payload -/

/-- The identity of the update is recorded with another payload. -/
def Differs (sc : RootRefScope) (c : CanonicalRootRefsUpdate) (l : Ledger) : Prop :=
  ∃ record, l.requests.lookup (sc, c.requestId) = some record ∧ record.payloadHash ≠ c.payloadHash

theorem differs_le (l l' : Ledger) (hle : Ledger.Le l l') (h : Differs sc c l) : Differs sc c l' := by
  obtain ⟨record, hr, hne⟩ := h
  exact ⟨record, hle.requests _ _ hr, hne⟩

/-- So far the program has made a number of calls, which changed nothing. -/
def Reads (n : Nat) (x : Traced) : Prop := x.2.length = n ∧ ∀ p ∈ x.2, p.2 = p.1

theorem stable_reads (n : Nat) : Stable S.withSteps (Reads n) := by
  intro x y _ _ hr h
  rw [Reads, hr.2]
  exact h

theorem reads_snoc {n : Nat} {s : State} {st : List (State × State)} (h : Reads n (s, st)) :
    Reads (n + 1) (s, st ++ [(s, s)]) := by
  refine ⟨by simp [h.1], fun p hp => ?_⟩
  rcases List.mem_append.mp hp with hp | hp
  · exact h.2 p hp
  · rw [List.mem_singleton.mp hp]

/-- An attempt makes one lookup, and ends in the conflict when it is answered. -/
theorem conflict_apply {n : Nat} :
    Triple S.withSteps (Own C (fun s => Differs sc c s.ledger) (Reads n)) (applyRootRefsUpdate sc c) (fun _ _ => False)
      fun e x => (e = conflictError ∨ ∃ m, e = .rootRefsRetryable m) ∧ Own C (fun s => Differs sc c s.ledger) (Reads (n + 1)) x := by
  have hd : Holds C fun s => Differs sc c s.ledger := Holds.ledger differs_le
  unfold applyRootRefsUpdate
  refine Triple.bind (Q := fun existing x => (∃ record, existing = some record ∧ record.payloadHash ≠ c.payloadHash) ∧
    Own C (fun s => Differs sc c s.ledger) (Reads (n + 1)) x) ?_ fun existing => ?_
  · refine (repositoryCall_triple (read_triple (f := fun s => s.ledger.requests.lookup (sc, c.requestId))
      (ψ := fun existing s => (∃ record, existing = some record ∧ record.payloadHash ≠ c.payloadHash) ∧
        Differs sc c s.ledger) (fun g s s' r he => queryLedger_exec he) hd (fun _ => (Holds.const _).and hd)
      (stable_reads (n + 1)) (fun s st h => reads_snoc h) ?_)).conseq ?_ ?_ ?_
    · intro s _ _ h
      obtain ⟨record, hr, hne⟩ := h
      exact ⟨⟨record, hr, hne⟩, record, hr, hne⟩
    · exact fun _ _ hx => hx
    · exact fun existing x _ hx => ⟨hx.2.1.1, hx.mono fun s hp => hp.2⟩
    · exact fun e x _ hx => ⟨.inr hx.1, hx.2⟩
  · refine Triple.of_pure fun hex => ?_
    obtain ⟨record, rfl, hne⟩ := hex
    refine Triple.bind (Q := fun _ _ => False) (Triple.require ?_ ?_) fun _ => Triple.pure fun _ _ hx => hx
    · exact fun x _ _ hb => hne (by simpa using hb)
    · exact fun x _ hx _ => ⟨.inl rfl, hx⟩

/-- A command that meets another payload from its first call on ends in the conflict, or has used up its attempts with
lookups that were not answered. -/
theorem conflict_retry {maxAttempts : Option Nat} (fuel : Nat) : ∀ n : Nat,
    Triple S.withSteps (Own C (fun s => Differs sc c s.ledger) (Reads n))
      (withDomainRetry (applyRootRefsUpdate sc c) maxAttempts (n + 1) fuel) (fun _ _ => False)
      fun e x => (∃ m, Reads m x) ∧
        (e = conflictError ∨ ((∃ m, e = .rootRefsRetryable m) ∧ ∃ bound, maxAttempts = some bound ∧ bound ≤ x.2.length)) := by
  induction fuel with
  | zero =>
    intro n x _ _ f y b _ he
    simp only [Spec.withSteps, C.exec_eq, exec] at he
    cases he
  | succ fuel ih =>
    intro n
    refine Triple.tryCatch conflict_apply fun e => Triple.of_pure fun he => ?_
    rcases he with rfl | ⟨m, rfl⟩
    · exact Triple.throw fun x _ hx => ⟨⟨_, hx.2.2⟩, .inl rfl⟩
    · simp only
      split
      · rename_i hany
        obtain ⟨bound, hb, hle⟩ : ∃ bound, maxAttempts = some bound ∧ bound ≤ n + 1 := by
          cases maxAttempts with
          | none => cases hany
          | some bound => exact ⟨bound, rfl, by simpa using hany⟩
        exact Triple.throw fun x _ hx => ⟨⟨_, hx.2.2⟩, .inr ⟨⟨m, rfl⟩, bound, hb, by rw [hx.2.2.1]; exact hle⟩⟩
      · exact ih (n + 1)

end Update

end Kernel

end DomainAux

end UniDocs.Cas
