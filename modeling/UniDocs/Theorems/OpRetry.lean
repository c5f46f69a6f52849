import Mathlib.Data.Finset.Card
import UniDocs.Lemmas.ApplyOutcome
import UniDocs.Theorems.SnapshotCoherence

/-!
# Retries of an operation

A client sends `apply` again under the same operation identifier. The calls on one session object come one after another,
any port call of theirs may fail, and between two of them the ports may change in any way. A retry answers with the version
of the delta that the first call left in the log exactly when the first call met no failure from its append on; after a
first call that left no delta, a retry takes the path of an operation never seen.
-/

namespace UniDocs.Session

open Lib

section Turns

variable {Doc Op : Type}

/-- The operation identifier of a call. -/
def Method.opId : Method Op → Option String
  | .apply _ _ _ opId => opId
  | _ => none

/-- Calls on session 0 one after another, with their operation identifiers; between two calls anything may happen to the
ports. The condition holds before and after each call. -/
inductive Turns (dt : DocumentType Doc Op) (sessionId : String) (K : State Doc Op → Prop) :
    State Doc Op → List String → State Doc Op → Prop
  | start {s : State Doc Op} (hs : K s) : Turns dt sessionId K s [] s
  | call {s t s' : State Doc Op} {ids : List String} {method : Method Op} {r : Except SessionError Unit}
      (h : Turns dt sessionId K s ids t)
      (hr : Runs (fun _ => exec dt) Machine.anyCall (method.program dt sessionId 0) t (some r) s') (hs : K s') :
      Turns dt sessionId K s (ids ++ method.opId.toList) s'
  | elsewhere {s t s' : State Doc Op} {ids : List String} (h : Turns dt sessionId K s ids t)
      (hsame : s'.session 0 = t.session 0) (hs : K s') : Turns dt sessionId K s ids s'

variable {dt : DocumentType Doc Op} {sessionId : String} {K : State Doc Op → Prop} {s t s' : State Doc Op} {ids : List String}

theorem Turns.holds (h : Turns dt sessionId K s ids s') : K s' := by
  cases h with
  | start hs => exact hs
  | call _ _ hs => exact hs
  | elsewhere _ _ hs => exact hs

/-- What one call leaves of the remembered operations: all of them, or its own operation is new among them, at the version
after the head. -/
theorem method_ops {method : Method Op} {r : Except SessionError Unit}
    (h : Runs (fun _ => exec dt) Machine.anyCall (method.program dt sessionId 0) s (some r) s') :
    ((s.session 0).loaded = true → (s'.session 0).loaded = true) ∧
      ((s'.session 0).recentOps = (s.session 0).recentOps ∨ ∃ id, method.opId = some id ∧
        (s.session 0).recentOps.lookup id = none ∧
        (s'.session 0).recentOps = rememberOp id (s.ports.head + 1) (s.session 0).recentOps) := by
  have hkept : method.program dt sessionId 0 |>.Calls MemoryCall → ((s.session 0).loaded = true → (s'.session 0).loaded = true) ∧
      (s'.session 0).recentOps = (s.session 0).recentOps := fun hm => (memory_step hm h).symm
  cases method with
  | apply ops description baseVersion opId =>
    obtain ⟨r', h'⟩ : ∃ r', Runs (fun _ => exec dt) Machine.anyCall (Session.apply dt sessionId 0 ops description baseVersion opId)
        s (some r') s' := by
      rcases h.bind_cases with ⟨e, -, h⟩ | ⟨v, t, h, hp⟩
      · exact ⟨_, h⟩
      · obtain ⟨-, rfl⟩ := hp.pure_cases
        exact ⟨_, h⟩
    cases hseen : opId.bind fun id => (s.session 0).recentOps.lookup id with
    | some v =>
      obtain ⟨id, rfl, hlookup⟩ := Option.bind_eq_some_iff.mp hseen
      obtain ⟨q, -⟩ := apply_seen hlookup h'
      exact ⟨q.loaded, .inl q.ops⟩
    | none =>
      obtain ⟨l, hn⟩ := h'.with_notes (note dt) []
      have hout := apply_outcome hseen hn
      refine ⟨hout.loaded, ?_⟩
      cases r' with
      | error e => exact .inl (hout.failed e rfl)
      | ok v =>
        obtain ⟨-, hhead, -, hops, -⟩ := hout.done v rfl
        cases opId with
        | none => exact .inl hops
        | some id =>
          refine .inr ⟨id, rfl, hseen, ?_⟩
          rw [hhead]
          exact hops
  | create input => exact (hkept (Prog.Calls.bind (fun _ => trivial) create_memory)).imp id .inl
  | initFromHash hash sourceVersion => exact (hkept (Prog.Calls.bind (fun _ => trivial) initFromHash_memory)).imp id .inl
  | rollback target => exact (hkept (Prog.Calls.bind (fun _ => trivial) rollback_memory)).imp id .inl
  | snapshot => exact (hkept (Prog.Calls.bind (fun _ => trivial) snapshot_memory)).imp id .inl
  | ir => exact (hkept (Prog.Calls.bind (fun _ => trivial) ir_memory)).imp id .inl

/-! ## The remembered operations -/

variable {id : String} {ops : List (String × Nat)}

theorem lookup_none : ops.lookup id = none ↔ ∀ e ∈ ops, e.1 ≠ id := by
  rw [List.lookup_eq_none_iff]
  refine forall₂_congr fun e _ => ?_
  rw [bne_iff_ne, ne_comm]

variable {v : Nat}

theorem mem_of_lookup (h : ops.lookup id = some v) : (id, v) ∈ ops := by
  obtain ⟨l₁, l₂, rfl, -⟩ := List.lookup_eq_some_iff.mp h
  simp

/-- A new operation comes last, and the oldest goes beyond the limit. -/
theorem rememberOp_new (hnew : ops.lookup id = none) :
    rememberOp id v ops = if maxRecentOps < ops.length + 1 then (ops ++ [(id, v)]).tail else ops ++ [(id, v)] := by
  have hany : (ops.any fun e => e.1 == id) = false := by
    rw [List.any_eq_false]
    intro e he
    simpa using lookup_none.mp hnew e he
  simp only [rememberOp, hany, Bool.false_eq_true, if_false, List.length_append, List.length_singleton]

theorem mem_rememberOp {e : String × Nat} (hnew : ops.lookup id = none)
    (h : e ∈ rememberOp id v ops) : e ∈ ops ∨ e = (id, v) := by
  rw [rememberOp_new hnew] at h
  have hmem : e ∈ ops ++ [(id, v)] := by
    split at h
    · exact List.mem_of_mem_tail h
    · exact h
  simpa using hmem

theorem length_rememberOp (hnew : ops.lookup id = none)
    (h : ops.length ≤ maxRecentOps) : (rememberOp id v ops).length ≤ maxRecentOps := by
  rw [rememberOp_new hnew]
  split
  · simp only [List.length_tail, List.length_append, List.length_singleton]
    omega
  · simp only [List.length_append, List.length_singleton]
    omega

/-- A new session object remembers at most the limit, and no operation that no call carried. -/
theorem Turns.unseen (hfresh : s.session 0 = .fresh) (h : Turns dt sessionId K s ids s') :
    (s'.session 0).recentOps.length ≤ maxRecentOps ∧ ∀ e ∈ (s'.session 0).recentOps, e.1 ∈ ids := by
  induction h with
  | start => simp [hfresh, SessionMemory.fresh]
  | call h hr _ ih =>
    obtain ⟨hlen, hids⟩ := ih
    obtain ⟨-, hops | ⟨id, hid, hnew, hops⟩⟩ := method_ops hr
    · rw [hops]
      exact ⟨hlen, fun e he => List.mem_append_left _ (hids e he)⟩
    · rw [hops]
      refine ⟨length_rememberOp hnew hlen, ?_⟩
      intro e he
      rcases mem_rememberOp hnew he with he | rfl
      · exact List.mem_append_left _ (hids e he)
      · exact List.mem_append_right _ (by simp [hid])
  | elsewhere h hsame _ ih =>
    rw [hsame]
    exact ih

/-- An operation is remembered at a version, and the later ones are distinct operations of the calls since. -/
structure Remembered (id : String) (v : Nat) (ids : List String) (m : SessionMemory Doc) : Prop where
  loaded : m.loaded = true
  length : m.recentOps.length ≤ maxRecentOps
  split : ∃ older later, m.recentOps = older ++ (id, v) :: later ∧ (∀ e ∈ older, e.1 ≠ id) ∧
    (later.map Prod.fst).Nodup ∧ ∀ e ∈ later, e.1 ∈ ids ∧ e.1 ≠ id

theorem Remembered.lookup {m : SessionMemory Doc} (h : Remembered id v ids m) :
    m.recentOps.lookup id = some v := by
  obtain ⟨older, later, hops, holder, -⟩ := h.split
  rw [hops, List.lookup_append, lookup_none.mpr holder]
  simp

/-- The operation just remembered. -/
theorem remembered_self {m m' : SessionMemory Doc} (hnew : m.recentOps.lookup id = none)
    (hlen : m.recentOps.length ≤ maxRecentOps) (hloaded : m'.loaded = true) (hops : m'.recentOps = rememberOp id v m.recentOps) :
    Remembered id v [] m' := by
  refine ⟨hloaded, by rw [hops]; exact length_rememberOp hnew hlen, ?_⟩
  have hno := lookup_none.mp hnew
  rw [hops, rememberOp_new hnew]
  split
  · rename_i hlong
    cases hm : m.recentOps with
    | nil =>
      rw [hm] at hlong
      simp [maxRecentOps] at hlong
    | cons e rest =>
      refine ⟨rest, [], by simp, ?_, by simp, by simp⟩
      intro e' he'
      exact hno e' (by rw [hm]; exact List.mem_cons_of_mem _ he')
  · exact ⟨m.recentOps, [], rfl, hno, by simp, by simp⟩

/-- Another operation is remembered: with fewer than the limit since, the first one stays. -/
theorem Remembered.step {id id' : String} {v v' : Nat} {m m' : SessionMemory Doc} (h : Remembered id v ids m)
    (hnew : m.recentOps.lookup id' = none) (hmem : id' ∈ ids) (hfew : (ids.toFinset.erase id).card < maxRecentOps)
    (hloaded : m'.loaded = true) (hops : m'.recentOps = rememberOp id' v' m.recentOps) : Remembered id v ids m' := by
  refine ⟨hloaded, by rw [hops]; exact length_rememberOp hnew h.length, ?_⟩
  obtain ⟨older, later, hsplit, holder, hnodup, hids⟩ := h.split
  have hno := lookup_none.mp hnew
  have hne : id' ≠ id := by
    rintro rfl
    exact hno (id', v) (by rw [hsplit]; simp) rfl
  have hnodup' : ((later ++ [(id', v')]).map Prod.fst).Nodup := by
    rw [List.map_append, List.nodup_append]
    refine ⟨hnodup, by simp, ?_⟩
    intro a ha b hb
    obtain ⟨e, he, rfl⟩ := List.mem_map.mp ha
    obtain rfl : b = id' := by simpa using hb
    exact hno e (by rw [hsplit]; simp [he])
  have hids' : ∀ e ∈ later ++ [(id', v')], e.1 ∈ ids ∧ e.1 ≠ id := by
    intro e he
    rcases List.mem_append.mp he with he | he
    · exact hids e he
    · rw [List.mem_singleton.mp he]
      exact ⟨hmem, hne⟩
  rw [hops, rememberOp_new hnew, hsplit]
  split
  · rename_i hlong
    cases older with
    | cons e rest => exact ⟨rest, later ++ [(id', v')], by simp, fun e' he' => holder e' (List.mem_cons_of_mem _ he'), hnodup', hids'⟩
    | nil =>
      -- All that is remembered is the operation and the distinct ones since: too few to reach the limit.
      have hsub : ((later ++ [(id', v')]).map Prod.fst).toFinset ⊆ ids.toFinset.erase id := by
        intro a ha
        obtain ⟨e, he, rfl⟩ := List.mem_map.mp (List.mem_toFinset.mp ha)
        exact Finset.mem_erase.mpr ⟨(hids' e he).2, List.mem_toFinset.mpr (hids' e he).1⟩
      have hcard := Finset.card_le_card hsub
      rw [List.toFinset_card_of_nodup hnodup'] at hcard
      simp only [List.length_map, List.length_append, List.nil_append, List.length_cons] at hcard hlong
      omega
  · exact ⟨older, later ++ [(id', v')], by simp, holder, hnodup', hids'⟩

theorem Remembered.mono {ids' : List String} {m : SessionMemory Doc} (h : Remembered id v ids m)
    (hids : ∀ i ∈ ids, i ∈ ids') : Remembered id v ids' m := by
  obtain ⟨older, later, hsplit, holder, hnodup, hlater⟩ := h.split
  exact ⟨h.loaded, h.length, older, later, hsplit, holder, hnodup, fun e he => ⟨hids _ (hlater e he).1, (hlater e he).2⟩⟩

/-- A remembered operation stays while fewer than the limit of others follow. -/
theorem Turns.remembered (hstart : Remembered id v [] (s.session 0)) (h : Turns dt sessionId K s ids s')
    (hfew : (ids.toFinset.erase id).card < maxRecentOps) : Remembered id v ids (s'.session 0) := by
  induction h with
  | start => exact hstart
  | @call t s' ids method r h hr hs ih =>
    have hsub : ids.toFinset.erase id ⊆ (ids ++ method.opId.toList).toFinset.erase id := by
      refine Finset.erase_subset_erase _ ?_
      intro i hi
      rw [List.mem_toFinset] at hi ⊢
      exact List.mem_append_left _ hi
    have hbefore := (ih (lt_of_le_of_lt (Finset.card_le_card hsub) hfew)).mono fun i hi => List.mem_append_left method.opId.toList hi
    obtain ⟨hloaded, hops | ⟨id', hid', hnew, hops⟩⟩ := method_ops hr
    · exact ⟨hloaded hbefore.loaded, by rw [hops]; exact hbefore.length, by rw [hops]; exact hbefore.split⟩
    · exact hbefore.step hnew (by simp [hid']) hfew (hloaded hbefore.loaded) hops
  | elsewhere h hsame _ ih =>
    rw [hsame]
    exact ih hfew

theorem version_le_head {p : Ports Op} {d : Delta Op} (h : d ∈ p.deltas) : d.version ≤ p.head := by
  have hfold : ∀ (l : List (Delta Op)) (m : Nat), m ≤ l.foldl (fun m d => max m d.version) m ∧
      ∀ d ∈ l, d.version ≤ l.foldl (fun m d => max m d.version) m := by
    intro l
    induction l with
    | nil => intro m; simp
    | cons d rest ih =>
      intro m
      obtain ⟨h1, h2⟩ := ih (max m d.version)
      simp only [List.foldl_cons, List.forall_mem_cons]
      exact ⟨by omega, by omega, h2⟩
  exact (hfold p.deltas 0).2 d h

theorem Turns.not_remembered {delta : Delta Op} {id' : String} (hstart : ∀ e ∈ (s.session 0).recentOps, e.1 = id' → e.2 ≠ delta.version)
    (h : Turns dt sessionId (fun s => delta ∈ s.ports.deltas) s ids s') :
    ∀ e ∈ (s'.session 0).recentOps, e.1 = id' → e.2 ≠ delta.version := by
  induction h with
  | start => exact hstart
  | call h hr _ ih =>
    obtain ⟨-, hops | ⟨id, -, hnew, hops⟩⟩ := method_ops hr
    · rw [hops]
      exact ih
    · rw [hops]
      intro e he hid
      rcases mem_rememberOp hnew he with he | rfl
      · exact ih e he hid
      · have hle := version_le_head h.holds
        show _ + 1 ≠ _
        omega
  | elsewhere h hsame _ ih =>
    rw [hsame]
    exact ih

/-- An operation that no call carries is not remembered. -/
theorem Turns.keeps_unseen (h : Turns dt sessionId K s ids s') (hid : id ∉ ids)
    (hstart : ∀ e ∈ (s.session 0).recentOps, e.1 ≠ id) : ∀ e ∈ (s'.session 0).recentOps, e.1 ≠ id := by
  induction h with
  | start => exact hstart
  | call h hr _ ih =>
    have hbefore := ih fun hmem => hid (List.mem_append_left _ hmem)
    obtain ⟨-, hops | ⟨id', hid', hnew, hops⟩⟩ := method_ops hr
    · rw [hops]
      exact hbefore
    · rw [hops]
      intro e he
      rcases mem_rememberOp hnew he with he | rfl
      · exact hbefore e he
      · rintro rfl
        exact hid (List.mem_append_right _ (by simp [hid']))
  | elsewhere h hsame _ ih =>
    rw [hsame]
    exact ih hid

/-! ## The retry law -/

/-- The path of `apply` for an operation that is not remembered. -/
def applyUnseen (dt : DocumentType Doc Op) (sessionId : String) (n : Nat) (ops : List Op) (description : String)
    (baseVersion : Nat) (opId : Option String) : SessionProg Doc Op Nat := do
  load dt n
  let _ ← get n (·.recentOps)
  applyBatch dt sessionId n ops description baseVersion opId

/-- An operation that is not remembered takes that path, in every run and whatever fails. -/
theorem apply_unseen {ops : List Op} {description : String} {baseVersion : Nat}
    {o : Option (Except SessionError Nat)} (hnew : (s.session 0).recentOps.lookup id = none) :
    Runs (fun _ => exec dt) Machine.anyCall (apply dt sessionId 0 ops description baseVersion (some id)) s o s' ↔
      Runs (fun _ => exec dt) Machine.anyCall (applyUnseen dt sessionId 0 ops description baseVersion (some id)) s o s' := by
  -- The operations that the second call of the program reads.
  have hread : ∀ {a : Unit} {t u : State Doc Op} {recentOps : List (String × Nat)},
      Runs (fun _ => exec dt) Machine.anyCall (load dt 0) s (some (.ok a)) t →
      Runs (fun _ => exec dt) Machine.anyCall (get 0 (·.recentOps)) t (some (.ok recentOps)) u →
      recentOps.lookup id = none := by
    intro a t u recentOps hl hg
    obtain ⟨l, hl⟩ := hl.with_notes (note dt) []
    obtain ⟨l', hg⟩ := hg.with_notes (note dt) []
    have hops := (get_cases hg).2.1
    cases hops
    have q := quiet_step load_quiet hl
    rw [q.ops]
    exact hnew
  constructor
  · refine Runs.bind_congr fun a t hl => ?_
    refine Runs.bind_congr fun recentOps u hg h => ?_
    rwa [Option.bind_some, hread hl hg] at h
  · refine Runs.bind_congr fun a t hl => ?_
    refine Runs.bind_congr fun recentOps u hg h => ?_
    rwa [Option.bind_some, hread hl hg]

/-- A retry answers with the version of the delta in the log, and appends nothing, exactly when no call of the first one
failed from its append on; and after a first call that left no delta, it runs as a first call. -/
theorem retry_law {start s₀ s₁ s₂ : State Doc Op} {before between : List String} {id : String} {ops ops' : List Op}
    {description description' : String} {baseVersion baseVersion' : Nat} {r : Except SessionError Nat}
    {notes : List (Note Doc Op)} (hfresh : start.session 0 = .fresh)
    (hbefore : Turns dt sessionId (fun _ => True) start before s₀) (hid : id ∉ before)
    (hfirst : NotedRuns dt Machine.anyCall (apply dt sessionId 0 ops description baseVersion (some id)) (s₀, []) (some r)
      (s₁, notes)) :
    (∀ delta, delta ∈ s₁.ports.deltas → delta ∉ s₀.ports.deltas →
      Turns dt sessionId (fun s => delta ∈ s.ports.deltas) s₁ between s₂ →
      (between.toFinset.erase id).card < maxRecentOps → ∀ r' s₃,
        Runs (fun _ => exec dt) Machine.anyCall (apply dt sessionId 0 ops' description' baseVersion' (some id)) s₂ (some r') s₃ →
        ((r' = .ok delta.version ∧ s₃.ports.deltas = s₂.ports.deltas) ↔ Completes dt notes)) ∧
    ((∀ delta ∈ s₁.ports.deltas, delta ∈ s₀.ports.deltas) → Turns dt sessionId (fun _ => True) s₁ between s₂ → id ∉ between →
      (s₂.session 0).recentOps.lookup id = none ∧ ∀ o s₃,
        Runs (fun _ => exec dt) Machine.anyCall (apply dt sessionId 0 ops' description' baseVersion' (some id)) s₂ o s₃ ↔
        Runs (fun _ => exec dt) Machine.anyCall (applyUnseen dt sessionId 0 ops' description' baseVersion' (some id)) s₂ o s₃) := by
  obtain ⟨hlen, hids⟩ := hbefore.unseen hfresh
  have hnew : (s₀.session 0).recentOps.lookup id = none := lookup_none.mpr fun e he heq => hid (heq ▸ hids e he)
  have hout : BatchOutcome dt baseVersion (some id) (s₀, []) r (s₁, notes) := apply_outcome hnew hfirst
  obtain ⟨l, hl, hnotes⟩ := hout.notes
  obtain rfl : notes = l := by simpa using hl
  refine ⟨?_, ?_⟩
  · intro delta hdelta hfirstly hturns hfew r' s₃ hretry
    have hversion : delta.version = baseVersion + 1 := (hout.deltas delta hdelta).resolve_left hfirstly
    cases r with
    | ok v =>
      obtain ⟨rfl, -, hloaded, hops, -⟩ := hout.done _ rfl
      have hremembered := Turns.remembered (remembered_self hnew hlen hloaded hops) hturns hfew
      obtain ⟨rfl, rfl⟩ := apply_seen_loaded hremembered.loaded hremembered.lookup hretry
      exact ⟨fun _ => hnotes, fun _ => ⟨by rw [hversion], rfl⟩⟩
    | error e =>
      have hfails : ¬ Completes dt notes := hnotes.resolve_left fun hsub => hfirstly (hsub delta hdelta)
      refine ⟨?_, fun hc => absurd hc hfails⟩
      rintro ⟨rfl, -⟩
      exfalso
      -- What is remembered of the operation, if anything, is another version than that of the delta.
      have hbase : ∀ e ∈ (s₁.session 0).recentOps, e.1 = id → e.2 ≠ delta.version := by
        intro e he heq
        rw [hout.failed _ rfl] at he
        exact absurd heq (lookup_none.mp hnew e he)
      have hother := hturns.not_remembered hbase
      cases hlookup : (s₂.session 0).recentOps.lookup id with
      | some v =>
        obtain ⟨-, hr | ⟨e, hr⟩⟩ := apply_seen hlookup hretry
        · cases hr
          exact hother _ (mem_of_lookup hlookup) rfl rfl
        · cases hr
      | none =>
        obtain ⟨l', hretry⟩ := hretry.with_notes (note dt) []
        have hunseen : ((some id).bind fun id => (s₂.session 0).recentOps.lookup id) = none := hlookup
        have hout' := apply_outcome (s := (s₂, [])) hunseen hretry
        obtain ⟨hv, hhead, -⟩ := hout'.done _ rfl
        have hle := version_le_head hturns.holds
        simp only at hhead
        omega
  · intro hnone hturns hid'
    have hfailed : (s₁.session 0).recentOps = (s₀.session 0).recentOps := by
      cases r with
      | error e => exact hout.failed e rfl
      | ok v =>
        obtain ⟨-, hhead, -, -, d, hd, hdv⟩ := hout.done v rfl
        have hle := version_le_head (hnone d hd)
        simp only at hhead
        omega
    have hstill : ∀ e ∈ (s₂.session 0).recentOps, e.1 ≠ id := hturns.keeps_unseen hid' (by
      rw [hfailed]
      exact lookup_none.mp hnew)
    exact ⟨lookup_none.mpr hstill, fun o s₃ => apply_unseen (lookup_none.mpr hstill)⟩

end Turns

/-! ## Runs of the law -/

/-- A session object over empty ports. -/
def emptyDocument : State Bytes UInt8 := ⟨0, .empty, fun _ => .fresh, fun _ => 0⟩

/-- Create a document; apply a batch under an operation identifier while the environment does this to its calls; apply
another batch, and send the first one again. -/
def retriedBatch (faults : List Fault) :
    Option (State Bytes UInt8 × (Except SessionError Nat × State Bytes UInt8 × List (Note Bytes UInt8)) ×
      (State Bytes UInt8 × Except SessionError Nat × State Bytes UInt8)) :=
  ((Method.program plainText "doc" 0 (.create none)).evalFaults (fun _ => exec plainText) [] emptyDocument).bind fun created =>
  ((apply plainText "doc" 0 [97] "a" 1 (some "op")).evalFaults (noted (fun _ => exec plainText) (note plainText)) faults
    (created.2, [])).bind fun first =>
  ((Method.program plainText "doc" 0 (.apply [98] "b" 2 (some "other"))).evalFaults (fun _ => exec plainText) []
    first.2.1).bind fun next =>
  ((apply plainText "doc" 0 [97] "a" 1 (some "op")).evalFaults (fun _ => exec plainText) [] next.2).map fun retry =>
    (created.2, first, next.2, retry)

theorem runs_of_retriedBatch {faults : List Fault} {s₀ s₁ s₂ s₃ : State Bytes UInt8} {r r' : Except SessionError Nat}
    {notes : List (Note Bytes UInt8)} (h : retriedBatch faults = some (s₀, (r, s₁, notes), s₂, r', s₃)) :
    Turns plainText "doc" (fun _ => True) emptyDocument [] s₀ ∧
      NotedRuns plainText Machine.anyCall (apply plainText "doc" 0 [97] "a" 1 (some "op")) (s₀, []) (some r) (s₁, notes) ∧
      (∀ K : State Bytes UInt8 → Prop, K s₁ → K s₂ → Turns plainText "doc" K s₁ ["other"] s₂) ∧
      Runs (fun _ => exec plainText) Machine.anyCall (apply plainText "doc" 0 [97] "a" 1 (some "op")) s₂ (some r') s₃ := by
  obtain ⟨⟨q₀, t₀⟩, h₀, h⟩ := Option.bind_eq_some_iff.mp h
  obtain ⟨⟨q₁, t₁, n₁⟩, h₁, h⟩ := Option.bind_eq_some_iff.mp h
  obtain ⟨⟨q₂, t₂⟩, h₂, h⟩ := Option.bind_eq_some_iff.mp h
  obtain ⟨⟨q₃, t₃⟩, h₃, h⟩ := Option.map_eq_some_iff.mp h
  cases h
  refine ⟨?_, Runs.of_evalFaults (fun _ _ _ _ => trivial) h₁, ?_, Runs.of_evalFaults (fun _ _ _ _ => trivial) h₃⟩
  · have hcall : Runs (fun _ => exec plainText) Machine.anyCall (Method.program plainText "doc" 0 (.create none))
        emptyDocument (some q₀) t₀ :=
      Runs.of_evalFaults (fun _ _ _ _ => trivial) h₀
    exact .call (.start trivial) hcall trivial
  · intro K hK₁ hK₂
    have hcall : Runs (fun _ => exec plainText) Machine.anyCall
        (Method.program plainText "doc" 0 (.apply [98] "b" 2 (some "other"))) s₁ (some q₂) t₂ :=
      Runs.of_evalFaults (fun _ _ _ _ => trivial) h₂
    exact .call (.start hK₁) hcall hK₂

/-- What the runs below show: the delta of the batch comes with the first call and is there at the retry, and how the retry
answers. -/
def keptDelta (answer : Except SessionError Nat → Bool)
    (x : State Bytes UInt8 × (Except SessionError Nat × State Bytes UInt8 × List (Note Bytes UInt8)) ×
      (State Bytes UInt8 × Except SessionError Nat × State Bytes UInt8)) : Bool :=
  decide (⟨2, 0, "a", [97]⟩ ∈ x.2.1.2.1.ports.deltas) && decide (⟨2, 0, "a", [97]⟩ ∉ x.1.ports.deltas) &&
    decide (⟨2, 0, "a", [97]⟩ ∈ x.2.2.1.ports.deltas) && answer x.2.2.2.1

theorem keptDelta_spec {faults : List Fault} {answer : Except SessionError Nat → Bool}
    (h : (retriedBatch faults).any (keptDelta answer) = true) : ∃ s₀ r s₁ notes s₂ r' s₃,
      retriedBatch faults = some (s₀, (r, s₁, notes), s₂, r', s₃) ∧ ⟨2, 0, "a", [97]⟩ ∈ s₁.ports.deltas ∧
        ⟨2, 0, "a", [97]⟩ ∉ s₀.ports.deltas ∧ ⟨2, 0, "a", [97]⟩ ∈ s₂.ports.deltas ∧ answer r' = true := by
  obtain ⟨⟨s₀, ⟨r, s₁, notes⟩, s₂, r', s₃⟩, hx, hkept⟩ := (Option.any_eq_true _ _).mp h
  simp only [keptDelta, Bool.and_eq_true, decide_eq_true_eq] at hkept
  exact ⟨s₀, r, s₁, notes, s₂, r', s₃, hx, hkept.1.1.1, hkept.1.1.2, hkept.1.2, hkept.2⟩

/-- The law at a run in which every call is answered. -/
theorem retry_law_answered : ∃ s₀ r s₁ notes s₂ r' s₃, retriedBatch [] = some (s₀, (r, s₁, notes), s₂, r', s₃) ∧
    ((r' = .ok 2 ∧ s₃.ports.deltas = s₂.ports.deltas) ↔ Completes plainText notes) ∧ r'.toOption = some 2 := by
  have hrun : (retriedBatch []).any (keptDelta fun r' => decide (r'.toOption = some 2)) = true := by decide
  obtain ⟨s₀, r, s₁, notes, s₂, r', s₃, hx, h₁, h₀, h₂, hr⟩ := keptDelta_spec hrun
  obtain ⟨hbefore, hfirst, hbetween, hretry⟩ := runs_of_retriedBatch hx
  have hlaw := (retry_law rfl hbefore (by simp) hfirst).1 ⟨2, 0, "a", [97]⟩ h₁ h₀ (hbetween _ h₁ h₂) (by decide) r' s₃ hretry
  exact ⟨s₀, r, s₁, notes, s₂, r', s₃, hx, hlaw, of_decide_eq_true hr⟩

/-- The cache refuses the document after the append: the retry finds its own delta as a conflict. -/
theorem retry_law_false :
    ¬ ∀ (s₀ s₁ s₂ : State Bytes UInt8) (before between : List String) (id : String) (ops : List UInt8) (description : String)
      (baseVersion : Nat) (r r' : Except SessionError Nat) (notes : List (Note Bytes UInt8)) (s₃ : State Bytes UInt8),
      Turns plainText "doc" (fun _ => True) emptyDocument before s₀ → id ∉ before →
      NotedRuns plainText Machine.anyCall (apply plainText "doc" 0 ops description baseVersion (some id)) (s₀, []) (some r)
        (s₁, notes) →
      ∀ delta, delta ∈ s₁.ports.deltas → delta ∉ s₀.ports.deltas →
        Turns plainText "doc" (fun s => delta ∈ s.ports.deltas) s₁ between s₂ →
        (between.toFinset.erase id).card < maxRecentOps →
        Runs (fun _ => exec plainText) Machine.anyCall (apply plainText "doc" 0 ops description baseVersion (some id)) s₂ (some r')
          s₃ →
        r' = .ok delta.version ∧ s₃.ports.deltas = s₂.ports.deltas := by
  intro hall
  have hrun : (retriedBatch (List.replicate 9 .none ++ [.failed])).any (keptDelta fun r' => decide (r'.toOption = none)) =
      true := by decide
  obtain ⟨s₀, r, s₁, notes, s₂, r', s₃, hx, h₁, h₀, h₂, hr⟩ := keptDelta_spec hrun
  obtain ⟨hbefore, hfirst, hbetween, hretry⟩ := runs_of_retriedBatch hx
  obtain ⟨rfl, -⟩ := hall s₀ s₁ s₂ [] ["other"] "op" [97] "a" 1 r r' notes s₃ hbefore (by simp) hfirst ⟨2, 0, "a", [97]⟩ h₁ h₀
    (hbetween _ h₁ h₂) (by decide) hretry
  cases of_decide_eq_true hr

end UniDocs.Session
