import UniDocs.Lemmas.SessionOps

/-!
# The outcome of an apply

What an `apply` whose operation is not remembered leaves when every port call may fail. It remembers the operation exactly
when it ends in its version, and then every call from the append on was answered; when it throws, it has added nothing to
the log, or one of these calls failed.
-/

namespace UniDocs.Session

open Lib

section Outcome

variable {Doc Op : Type} {dt : DocumentType Doc Op} {A : Guard (SessionCall Doc Op) (State Doc Op)} {sessionId : String}
  {s t s' : State Doc Op × List (Note Doc Op)}

/-- What `apply` does with its operation identifier at the end. -/
def remember (opId : Option String) (version : Nat) (ops : List (String × Nat)) : List (String × Nat) :=
  match opId with
  | some opId => rememberOp opId version ops
  | none => ops

/-- What an `apply` whose operation is not remembered leaves. -/
structure BatchOutcome (dt : DocumentType Doc Op) (baseVersion : Nat) (opId : Option String)
    (s : State Doc Op × List (Note Doc Op)) (r : Except SessionError Nat) (s' : State Doc Op × List (Note Doc Op)) : Prop where
  loaded : (s.1.session 0).loaded = true → (s'.1.session 0).loaded = true
  deltas : ∀ d ∈ s'.1.ports.deltas, d ∈ s.1.ports.deltas ∨ d.version = baseVersion + 1
  done : ∀ v, r = .ok v → v = baseVersion + 1 ∧ s.1.ports.head = baseVersion ∧ (s'.1.session 0).loaded = true ∧
    (s'.1.session 0).recentOps = remember opId (baseVersion + 1) (s.1.session 0).recentOps ∧
    ∃ d ∈ s'.1.ports.deltas, d.version = baseVersion + 1
  failed : ∀ e, r = .error e → (s'.1.session 0).recentOps = (s.1.session 0).recentOps
  notes : ∃ l, s'.2 = s.2 ++ l ∧ match r with
    | .ok _ => Completes dt l
    | .error _ => (∀ d ∈ s'.1.ports.deltas, d ∈ s.1.ports.deltas) ∨ ¬ Completes dt l

variable {opId : Option String}

theorem BatchOutcome.of_quiet {baseVersion : Nat} {e : SessionError} (h : QuietStep s s') :
    BatchOutcome dt baseVersion opId s (.error e) s' := by
  obtain ⟨l, hl, -⟩ := h.notes
  refine ⟨h.loaded, ?_, by rintro v ⟨⟩, fun _ _ => h.ops, l, hl, .inl ?_⟩
  · intro d hd
    rw [h.deltas] at hd
    exact .inl hd
  · intro d hd
    rwa [h.deltas] at hd

variable {r : Except SessionError Nat}

theorem BatchOutcome.after {baseVersion : Nat} (h : QuietStep s t)
    (h' : BatchOutcome dt baseVersion opId t r s') : BatchOutcome dt baseVersion opId s r s' := by
  obtain ⟨l, hl, hquiet⟩ := h.notes
  obtain ⟨l', hl', hr⟩ := h'.notes
  have hhead : t.1.ports.head = s.1.ports.head := by rw [Ports.head, h.deltas, Ports.head]
  refine ⟨h'.loaded ∘ h.loaded, ?_, ?_, ?_, l ++ l', by rw [hl', hl, List.append_assoc], ?_⟩
  · intro d hd
    rw [← h.deltas]
    exact h'.deltas d hd
  · intro v hv
    rw [← hhead, ← h.ops]
    exact h'.done v hv
  · intro e he
    rw [← h.ops]
    exact h'.failed e he
  · cases r with
    | ok v => exact (completes_append hquiet).mpr hr
    | error e =>
      rw [← h.deltas]
      exact hr.imp id fun hc hcomplete => hc ((completes_append hquiet).mp hcomplete)

/-! ## The root references of a batch -/

theorem mem_deltas_remove {p : Ports Op} {v : Nat} {d : Delta Op} (h : d ∈ (p.remove v).deltas) : d ∈ p.deltas := by
  unfold Ports.remove at h
  split at h
  · exact List.mem_of_mem_filter h
  · exact h

/-- Root references are committed, or a call fails and at most the delta of the batch leaves the log. -/
theorem commitBatch_cases {requestId : String} {changes : CasReferences} {v : Nat} {wrap : SessionError → SessionError}
    {r : Except SessionError Unit}
    (h : NotedRuns dt A ((commitRootRefsOrRollback requestId changes (write 0 (.remove v))).tryCatch fun e => throw (wrap e))
      s (some r) s') :
    s'.1.session = s.1.session ∧ (∀ d ∈ s'.1.ports.deltas, d ∈ s.1.ports.deltas) ∧ ∃ l, s'.2 = s.2 ++ l ∧
      match r with
      | .ok _ => s'.1.ports.deltas = s.1.ports.deltas ∧ ∀ n ∈ l, n.fault = .none
      | .error _ => ∃ n ∈ l, n.fault ≠ .none := by
  unfold commitRootRefsOrRollback at h
  split at h
  · rcases h.tryCatch_cases with ⟨a, rfl, h₁⟩ | ⟨e, t, h₁, -⟩
    · obtain ⟨-, rfl⟩ := h₁.pure_cases
      exact ⟨rfl, fun _ hd => hd, [], by simp, by simp⟩
    · cases h₁.pure_cases.1
  · rcases h.tryCatch_cases with ⟨a, rfl, h₁⟩ | ⟨e, t, h₁, h₂⟩
    · rcases h₁.tryCatch_cases with ⟨a', -, h₃⟩ | ⟨e', t', -, h₄⟩
      · obtain ⟨hm, ⟨refs, hp⟩, f, -, hl, ⟨rfl, -⟩ | ⟨-, hr⟩⟩ := updateRootRefs_cases h₃
        · refine ⟨hm, ?_, _, hl, by rw [hp], by simp [Note.fault]⟩
          intro d hd
          rwa [hp] at hd
        · cases hr
      · rcases h₄.bind_cases with ⟨e'', he, -⟩ | ⟨b, t'', -, h₅⟩
        · cases he
        · cases h₅.throw_cases.1
    · obtain ⟨rfl, rfl⟩ := h₂.throw_cases
      rcases h₁.tryCatch_cases with ⟨a', he, -⟩ | ⟨e', t', h₃, h₄⟩
      · cases he
      obtain ⟨hm, ⟨refs, hp⟩, f, -, hl, ⟨-, hr⟩ | ⟨hf, -⟩⟩ := updateRootRefs_cases h₃
      · cases hr
      -- The delta is taken off the log, whatever the removal answers.
      have hremove : ∀ {r' : Except SessionError Unit} {t'' : State Doc Op × List (Note Doc Op)},
          NotedRuns dt A (write 0 (.remove v)) t' (some r') t'' → t''.1.session = t'.1.session ∧
            (∀ d ∈ t''.1.ports.deltas, d ∈ t'.1.ports.deltas) ∧ ∃ l, t''.2 = t'.2 ++ l := by
        intro r' t'' hw
        obtain ⟨hm', f', -, hl', ⟨p, hrun, hps, -⟩ | ⟨hps, -⟩⟩ := write_cases hw
        · cases hrun
          refine ⟨hm', ?_, _, hl'⟩
          intro d hd
          rw [hps] at hd
          exact mem_deltas_remove hd
        · refine ⟨hm', ?_, _, hl'⟩
          intro d hd
          rwa [hps] at hd
      have hend : s'.1.session = t'.1.session ∧ (∀ d ∈ s'.1.ports.deltas, d ∈ t'.1.ports.deltas) ∧ ∃ l, s'.2 = t'.2 ++ l := by
        rcases h₄.bind_cases with ⟨e'', -, h₅⟩ | ⟨b, t'', h₅, h₆⟩
        · exact hremove h₅
        · obtain ⟨-, rfl⟩ := h₆.throw_cases
          exact hremove h₅
      obtain ⟨hm', hd', l', hl'⟩ := hend
      refine ⟨hm'.trans hm, ?_, .sent requestId changes f :: l', by rw [hl', hl, List.append_assoc]; rfl,
        _, List.mem_cons_self, hf⟩
      intro d hd
      have hd₁ := hd' d hd
      rwa [hp] at hd₁

/-! ## The batch -/

/-- What `applyBatch` does from the commit of its root references on. -/
def finishBatch (dt : DocumentType Doc Op) (sessionId : String) (n : Nat) (refs : CasReferences) (newDoc : Doc) (baseVersion : Nat)
    (opId : Option String) : SessionProg Doc Op Nat := do
  (commitRootRefsOrRollback s!"apply:{sessionId}:{baseVersion + 1}" refs (write n (.remove (baseVersion + 1)))).tryCatch
    fun e => throw (.rootRefs s!"CAS root-refs failed: {e.text}")
  assign n fun m => { m with doc := some newDoc, version := baseVersion + 1 }
  saveSnapshotCache dt n
  snapshotAtThreshold dt sessionId n
  (match opId with
    | some opId => assign n fun m => { m with recentOps := rememberOp opId (baseVersion + 1) m.recentOps }
    | none => pure ())
  pure (baseVersion + 1)

/-- The end of `apply` is reached when every call is answered and the document can be encoded, and only then. -/
theorem finishBatch_cases {refs : CasReferences} {newDoc : Doc} {baseVersion : Nat}
    (h : NotedRuns dt A (finishBatch dt sessionId 0 refs newDoc baseVersion opId) s (some r) s') :
    ((s.1.session 0).loaded = true → (s'.1.session 0).loaded = true) ∧ (∀ d ∈ s'.1.ports.deltas, d ∈ s.1.ports.deltas) ∧
      ∃ l, s'.2 = s.2 ++ l ∧ match r with
        | .ok v => v = baseVersion + 1 ∧ (s'.1.session 0).recentOps = remember opId (baseVersion + 1) (s.1.session 0).recentOps ∧
            s'.1.ports.deltas = s.1.ports.deltas ∧ (∀ n ∈ l, n.fault = .none) ∧ ∃ bytes, dt.encodeSValue newDoc = .ok bytes
        | .error _ => (s'.1.session 0).recentOps = (s.1.session 0).recentOps ∧
            ((∃ n ∈ l, n.fault ≠ .none) ∨ ¬ ∃ bytes, dt.encodeSValue newDoc = .ok bytes) := by
  rcases h.bind_cases with ⟨e, rfl, h₁⟩ | ⟨a, s₁, h₁, h⟩
  · obtain ⟨hm, hd, l, hl, hf⟩ := commitBatch_cases h₁
    exact ⟨by rw [hm]; exact id, hd, l, hl, by rw [hm], .inl hf⟩
  obtain ⟨hm₁, hd₁, l₁, hl₁, hsame₁, hf₁⟩ := commitBatch_cases h₁
  rcases h.bind_cases with ⟨e, rfl, h₂⟩ | ⟨a, s₂, h₂, h⟩
  · cases (assign_cases h₂).2.1
  obtain ⟨hs₂, -, hl₂⟩ := assign_cases h₂
  have hdoc : (s₂.1.session 0).doc = some newDoc := by rw [hs₂, setSession_same]
  have hops₂ : (s₂.1.session 0).recentOps = (s.1.session 0).recentOps := by rw [hs₂, setSession_same, hm₁]
  have hloaded₂ : (s₂.1.session 0).loaded = (s.1.session 0).loaded := by rw [hs₂, setSession_same, hm₁]
  have hd₂ : s₂.1.ports.deltas = s₁.1.ports.deltas := by rw [hs₂, setSession_ports]
  rcases h.bind_cases with ⟨e, rfl, h₃⟩ | ⟨a, s₃, h₃, h⟩
  · obtain ⟨hm₃, hd₃, l₃, hl₃, hf₃⟩ := saveSnapshotCache_tail _ _ _ hdoc h₃
    refine ⟨by rw [hm₃, hloaded₂]; exact id, ?_, l₁ ++ .own :: l₃, ?_, by rw [hm₃, hops₂], ?_⟩
    · intro d hd
      rw [hd₃, hd₂] at hd
      exact hd₁ d hd
    · rw [hl₃, hl₂, hl₁]
      simp
    · exact hf₃.imp (fun ⟨n, hn, hf⟩ => ⟨n, by simp [hn], hf⟩) id
  obtain ⟨hm₃, hd₃, l₃, hl₃, hf₃⟩ := saveSnapshotCache_tail _ _ _ hdoc h₃
  have hencodes := saveSnapshotCache_encodes hdoc h₃
  rcases h.bind_cases with ⟨e, rfl, h₄⟩ | ⟨a, s₄, h₄, h⟩
  · obtain ⟨hm₄, hd₄, l₄, hl₄, hf₄⟩ := snapshotAtThreshold_tail _ _ _ (by rw [hm₃]; exact hdoc) h₄
    refine ⟨by rw [hm₄, hm₃, hloaded₂]; exact id, ?_, l₁ ++ .own :: (l₃ ++ l₄), ?_, by rw [hm₄, hm₃, hops₂], ?_⟩
    · intro d hd
      rw [hd₄, hd₃, hd₂] at hd
      exact hd₁ d hd
    · rw [hl₄, hl₃, hl₂, hl₁]
      simp
    · exact hf₄.imp (fun ⟨n, hn, hf⟩ => ⟨n, by simp [hn], hf⟩) id
  obtain ⟨hm₄, hd₄, l₄, hl₄, hf₄⟩ := snapshotAtThreshold_tail _ _ _ (by rw [hm₃]; exact hdoc) h₄
  have hmem : s₄.1.session 0 = s₂.1.session 0 := hm₄.trans hm₃
  have hdeltas : ∀ d ∈ s₄.1.ports.deltas, d ∈ s.1.ports.deltas := by
    intro d hd
    rw [hd₄, hd₃, hd₂] at hd
    exact hd₁ d hd
  have hsame : s₄.1.ports.deltas = s.1.ports.deltas := by rw [hd₄, hd₃, hd₂, hsame₁]
  have hfaults : ∀ n ∈ l₁ ++ .own :: (l₃ ++ l₄), n.fault = .none := by
    intro n hn
    simp only [List.mem_append, List.mem_cons] at hn
    rcases hn with hn | rfl | hn | hn
    · exact hf₁ n hn
    · rfl
    · exact hf₃ n hn
    · exact hf₄ n hn
  have hnotes : s₄.2 = s.2 ++ (l₁ ++ .own :: (l₃ ++ l₄)) := by
    rw [hl₄, hl₃, hl₂, hl₁]
    simp
  cases opId with
  | none =>
    rcases h.bind_cases with ⟨e, rfl, h₅⟩ | ⟨a, s₅, h₅, h₆⟩
    · cases h₅.pure_cases.1
    obtain ⟨-, rfl⟩ := h₅.pure_cases
    obtain ⟨rfl, rfl⟩ := h₆.pure_cases
    refine ⟨by rw [hmem, hloaded₂]; exact id, hdeltas, _, hnotes, rfl, ?_, hsame, hfaults, hencodes⟩
    rw [hmem, hops₂]
    rfl
  | some id =>
    rcases h.bind_cases with ⟨e, rfl, h₅⟩ | ⟨a, s₅, h₅, h₆⟩
    · cases (assign_cases h₅).2.1
    obtain ⟨hs₅, -, hl₅⟩ := assign_cases h₅
    obtain ⟨rfl, rfl⟩ := h₆.pure_cases
    refine ⟨?_, ?_, (l₁ ++ .own :: (l₃ ++ l₄)) ++ [.own], ?_, rfl, ?_, ?_, ?_, hencodes⟩
    · rw [hs₅, setSession_same, hmem, hloaded₂]
      exact fun hloaded => hloaded
    · rw [hs₅, setSession_ports]
      exact hdeltas
    · rw [hl₅, hnotes, List.append_assoc]
    · rw [hs₅, setSession_same, hmem, hops₂]
      rfl
    · rw [hs₅, setSession_ports, hsame]
    · intro n hn
      rcases List.mem_append.mp hn with hn | hn
      · exact hfaults n hn
      · rw [List.mem_singleton.mp hn]
        rfl

theorem completes_batch {before rest : List (Note Doc Op)} {newDoc : Doc} {d : Delta Op} {origin : Origin Doc}
    (hbefore : ∀ n ∈ before, n.Quiet) (hrest : ∀ n ∈ rest, n.fault = .none) (hencodes : ∃ bytes, dt.encodeSValue newDoc = .ok bytes) :
    Completes dt (before ++ .computed (.ok newDoc) :: .own :: .wrote (.append d origin) .none :: rest) := by
  refine (completes_append hbefore).mpr ⟨?_, ?_⟩
  · intro n hn
    simp only [List.dropWhile, Note.appends, Bool.not_false, Bool.not_true, List.mem_cons] at hn
    rcases hn with rfl | hn
    · rfl
    · exact hrest n hn
  · intro doc hdoc
    simp only [List.takeWhile, Note.appends, Bool.not_false, Bool.not_true, List.mem_cons, Note.computed.injEq, Except.ok.injEq,
      reduceCtorEq, List.not_mem_nil, or_false] at hdoc
    rw [hdoc]
    exact hencodes

/-- A call that failed from the append on, or a document that cannot be encoded. -/
theorem not_completes_batch {before rest : List (Note Doc Op)} {newDoc : Doc} {d : Delta Op} {origin : Origin Doc} {f : Fault}
    (hbefore : ∀ n ∈ before, n.Quiet)
    (h : f ≠ .none ∨ (∃ n ∈ rest, n.fault ≠ .none) ∨ ¬ ∃ bytes, dt.encodeSValue newDoc = .ok bytes) :
    ¬ Completes dt (before ++ .computed (.ok newDoc) :: .own :: .wrote (.append d origin) f :: rest) := by
  intro hc
  obtain ⟨hfaults, hencodes⟩ := (completes_append hbefore).mp hc
  simp only [List.dropWhile, Note.appends, Bool.not_false, Bool.not_true] at hfaults
  rcases h with hf | ⟨n, hn, hf⟩ | hno
  · exact hf (hfaults _ List.mem_cons_self)
  · exact hf (hfaults n (List.mem_cons_of_mem _ hn))
  · exact hno (hencodes newDoc (by simp [List.takeWhile, Note.appends]))

theorem applyBatch_outcome {ops : List Op} {description : String} {baseVersion : Nat}
    (hloaded : (s.1.session 0).loaded = true)
    (h : NotedRuns dt A (applyBatch dt sessionId 0 ops description baseVersion opId) s (some r) s') :
    BatchOutcome dt baseVersion opId s r s' := by
  rcases quiet_bind requireDoc_quiet h with ⟨e, rfl, q⟩ | ⟨doc, s₁, -, q₁, h₁⟩
  · exact .of_quiet q
  refine .after q₁ ?_
  rcases quiet_bind (read_quiet _ _) h₁ with ⟨e, rfl, q⟩ | ⟨head, s₂, hread, q₂, h₂⟩
  · exact .of_quiet q
  rcases h₂.bind_cases with ⟨e, rfl, h₃⟩ | ⟨_, s₃, h₃, h₃'⟩
  · rw [h₃.require_cases.1]
    exact .of_quiet q₂
  obtain ⟨rfl, ⟨heq, -⟩ | ⟨-, he⟩⟩ := h₃.require_cases
  swap
  · cases he
  -- The base version of the batch is the head of the log.
  have hhead : s₁.1.ports.head = baseVersion := by
    obtain ⟨-, -, f, -, -, ⟨-, hr⟩ | ⟨-, hr⟩⟩ := read_cases hread
    · cases hr
      exact beq_iff_eq.mp heq
    · cases hr
  rcases quiet_bind leaseOpRefs_quiet h₃' with ⟨e, rfl, q⟩ | ⟨refs, s₄, -, q₄, h₄⟩
  · exact .of_quiet (q₂.trans q)
  have hq := q₂.trans q₄
  obtain ⟨before, hbefore, hquiet⟩ := hq.notes
  rcases h₄.bind_cases with ⟨e, rfl, h₅⟩ | ⟨applied, s₅, h₅, h₅'⟩
  · cases (configApply_cases h₅).2.1
  obtain ⟨hs₅, ha, hl₅⟩ := configApply_cases h₅
  cases ha
  have hd₅ : s₅.1.ports = s₄.1.ports := by rw [hs₅, setSession_ports]
  have hops₅ : (s₅.1.session 0).recentOps = (s₁.1.session 0).recentOps := by rw [hs₅, setSession_same, ← hq.ops]
  have hloaded₅ : (s₅.1.session 0).loaded = true := by
    rw [hs₅, setSession_same]
    exact hq.loaded (q₁.loaded hloaded)
  -- An error before the append leaves the log and the operations.
  have hearly : ∀ {e : SessionError} {u : State Doc Op × List (Note Doc Op)} {l : List (Note Doc Op)},
      u.1.ports.deltas = s₅.1.ports.deltas → u.1.session 0 = s₅.1.session 0 → u.2 = s₅.2 ++ l → BatchOutcome dt baseVersion opId s₁ (.error e) u := by
    intro e u l hd hm hl
    have hkept : ∀ d ∈ u.1.ports.deltas, d ∈ s₁.1.ports.deltas := by
      intro d hmem
      rwa [hd, hd₅, hq.deltas] at hmem
    refine ⟨fun _ => by rw [hm]; exact hloaded₅, fun d hmem => .inl (hkept d hmem), by rintro v ⟨⟩, ?_,
      before ++ .computed (dt.apply ops doc) :: l, ?_, .inl hkept⟩
    · intro _ _
      rw [hm, hops₅]
    · rw [hl, hl₅, hbefore]
      simp
  cases hnew : dt.apply ops doc with
  | error message =>
    rw [hnew] at h₅'
    rcases h₅'.bind_cases with ⟨e, rfl, h₆⟩ | ⟨b, s₆, h₆, -⟩
    · obtain ⟨-, rfl⟩ := h₆.throw_cases
      exact hearly rfl rfl (List.append_nil _).symm
    · cases h₆.throw_cases.1
  | ok newDoc =>
    rw [hnew] at h₅' hl₅
    rcases h₅'.bind_cases with ⟨e, rfl, h₆⟩ | ⟨b, s₆, h₆, h₇⟩
    · cases h₆.pure_cases.1
    obtain ⟨hb, rfl⟩ := h₆.pure_cases
    cases hb
    rcases h₇.bind_cases with ⟨e, rfl, h₈⟩ | ⟨timestamp, s₇, h₈, h₉⟩
    · cases (now_cases h₈).2.1
    obtain ⟨hs₇, -, hl₇⟩ := now_cases h₈
    have hlog : s₇.2 = s₁.2 ++ (before ++ [.computed (.ok newDoc), .own]) := by
      rw [hl₇, hl₅, hbefore]
      simp
    have hdeltas₇ : s₇.1.ports.deltas = s₁.1.ports.deltas := by rw [hs₇, hd₅, hq.deltas]
    -- The append, and what it leaves.
    have happend : ∀ {r' : Except SessionError Unit} {u : State Doc Op × List (Note Doc Op)},
        NotedRuns dt A (write 0 (.append ⟨baseVersion + 1, timestamp, description, ops⟩ .operations)) s₇ (some r') u →
        u.1.session = s₇.1.session ∧ ∃ f, u.2 = s₇.2 ++ [.wrote (.append ⟨baseVersion + 1, timestamp, description, ops⟩ .operations) f] ∧
          ((u.1.ports.deltas = s₇.1.ports.deltas ++ [⟨baseVersion + 1, timestamp, description, ops⟩] ∧ (r' = .ok () → f = .none) ∧
            (∀ e, r' = .error e → f ≠ .none)) ∨ u.1.ports.deltas = s₇.1.ports.deltas ∧ r' ≠ .ok ()) := by
      intro r' u hw
      obtain ⟨hm, f, -, hl, ⟨p, hrun, hps, hcase⟩ | ⟨hps, hcase⟩⟩ := write_cases hw
      · refine ⟨hm, f, hl, .inl ⟨?_, ?_, ?_⟩⟩
        · simp only [PortWrite.run, Ports.append] at hrun
          split at hrun
          · cases hrun
            rw [hps]
          · cases hrun
        · rintro rfl
          rcases hcase with ⟨rfl, -⟩ | ⟨-, he⟩
          · rfl
          · cases he
        · rintro e rfl
          rcases hcase with ⟨-, he⟩ | ⟨rfl, -⟩
          · cases he
          · simp
      · refine ⟨hm, f, hl, .inr ⟨by rw [hps], ?_⟩⟩
        rcases hcase with ⟨e, -, -, rfl⟩ | ⟨-, rfl⟩ <;> simp
    rcases h₉.bind_cases with ⟨e, rfl, h₁₀⟩ | ⟨_, s₈, h₁₀, h₁₁⟩
    · obtain ⟨hm, f, hl, ⟨hd, -, hf⟩ | ⟨hd, -⟩⟩ := happend h₁₀
      · have hnotes : s'.2 = s₁.2 ++ (before ++ .computed (.ok newDoc) :: .own ::
            .wrote (.append ⟨baseVersion + 1, timestamp, description, ops⟩ .operations) f :: []) := by
          rw [hl, hlog]
          simp
        refine ⟨fun _ => by rw [hm, hs₇]; exact hloaded₅, ?_, by rintro v ⟨⟩, fun _ _ => by rw [hm, hs₇, hops₅], _, hnotes,
          .inr (not_completes_batch hquiet (.inl (hf e rfl)))⟩
        intro d hmem
        rw [hd, hdeltas₇, List.mem_append, List.mem_singleton] at hmem
        exact hmem.imp id fun hd => by rw [hd]
      · have hnotes : s'.2 = s₆.2 ++ [.own, .wrote (.append ⟨baseVersion + 1, timestamp, description, ops⟩ .operations) f] := by
          rw [hl, hl₇]
          simp
        exact hearly (hd.trans (by rw [hs₇])) (by rw [hm, hs₇]) hnotes
    · obtain ⟨hm, f, hl, ⟨hd, hf, -⟩ | ⟨-, hne⟩⟩ := happend h₁₀
      swap
      · exact absurd rfl hne
      obtain rfl := hf rfl
      have hfinish : NotedRuns dt A (finishBatch dt sessionId 0 refs newDoc baseVersion opId) s₈ (some r) s' := h₁₁
      obtain ⟨hl', hd', rest, hrest, hr⟩ := finishBatch_cases hfinish
      have hops₈ : (s₈.1.session 0).recentOps = (s₁.1.session 0).recentOps := by rw [hm, hs₇, hops₅]
      have hloaded₈ : (s₈.1.session 0).loaded = true := by
        rw [hm, hs₇]
        exact hloaded₅
      have hnotes : s'.2 = s₁.2 ++ (before ++ .computed (.ok newDoc) :: .own ::
          .wrote (.append ⟨baseVersion + 1, timestamp, description, ops⟩ .operations) .none :: rest) := by
        rw [hrest, hl, hlog]
        simp
      refine ⟨fun _ => hl' hloaded₈, ?_, ?_, ?_, _, hnotes, ?_⟩
      · intro d hmem
        have hmem₈ := hd' d hmem
        rw [hd, hdeltas₇, List.mem_append, List.mem_singleton] at hmem₈
        exact hmem₈.imp id fun hd => by rw [hd]
      · rintro v rfl
        exact ⟨hr.1, hhead, hl' hloaded₈, by rw [hr.2.1, hops₈], _, by rw [hr.2.2.1, hd]; exact List.mem_concat_self, rfl⟩
      · rintro e rfl
        rw [hr.1, hops₈]
      · cases r with
        | ok v => exact completes_batch hquiet hr.2.2.2.1 hr.2.2.2.2
        | error e => exact .inr (not_completes_batch hquiet (.inr hr.2))

/-! ## The whole call -/

theorem load_loaded {a : Unit} (h : NotedRuns dt A (load dt 0) s (some (.ok a)) s') : (s'.1.session 0).loaded = true := by
  obtain ⟨loaded, t, h₁, h⟩ := h.ok_bind
  obtain ⟨ht, hl, -⟩ := get_cases h₁
  cases hl
  split at h
  · rename_i hloaded
    obtain ⟨-, rfl⟩ := h.pure_cases
    rw [ht]
    exact hloaded
  · obtain ⟨_, _, -, h⟩ := h.ok_bind
    obtain ⟨_, _, -, h⟩ := h.ok_bind
    obtain ⟨_, _, -, h⟩ := h.ok_bind
    obtain ⟨_, _, -, h⟩ := h.ok_bind
    obtain ⟨_, _, -, h⟩ := h.ok_bind
    obtain ⟨_, _, -, h⟩ := h.ok_bind
    obtain ⟨_, _, -, h⟩ := h.ok_bind
    rw [(assign_cases h).1, setSession_same]

variable {ops : List Op} {description : String} {baseVersion : Nat}

theorem apply_outcome
    (hnew : (opId.bind fun id => (s.1.session 0).recentOps.lookup id) = none)
    (h : NotedRuns dt A (apply dt sessionId 0 ops description baseVersion opId) s (some r) s') :
    BatchOutcome dt baseVersion opId s r s' := by
  rcases quiet_bind load_quiet h with ⟨e, rfl, q⟩ | ⟨_, t, hload, q, h⟩
  · exact .of_quiet q
  refine .after q ?_
  rcases quiet_bind (get_quiet _ _) h with ⟨e, rfl, q'⟩ | ⟨recentOps, u, hget, q', h⟩
  · exact .of_quiet q'
  obtain ⟨hu, hops, -⟩ := get_cases hget
  cases hops
  rw [q.ops, hnew] at h
  refine .after q' (applyBatch_outcome ?_ h)
  rw [hu]
  exact load_loaded hload

theorem apply_seen {id : String} {v : Nat} {s s' : State Doc Op}
    (hseen : (s.session 0).recentOps.lookup id = some v)
    (h : Runs (fun _ => exec dt) A (apply dt sessionId 0 ops description baseVersion (some id)) s (some r) s') :
    QuietStep (s, []) (s', []) ∧ (r = .ok v ∨ ∃ e, r = .error e) := by
  obtain ⟨l, h⟩ := h.with_notes (note dt) []
  have hstep : ∀ {l : List (Note Doc Op)}, QuietStep (s, []) (s', l) → QuietStep (s, []) (s', []) :=
    fun q => ⟨q.deltas, q.ops, q.loaded, [], rfl, by simp⟩
  rcases quiet_bind load_quiet h with ⟨e, rfl, q⟩ | ⟨_, t, -, q, h⟩
  · exact ⟨hstep q, .inr ⟨e, rfl⟩⟩
  rcases quiet_bind (get_quiet _ _) h with ⟨e, rfl, q'⟩ | ⟨recentOps, u, hget, q', h⟩
  · exact ⟨hstep (q.trans q'), .inr ⟨e, rfl⟩⟩
  obtain ⟨-, hops, -⟩ := get_cases hget
  cases hops
  rw [q.ops, Option.bind_some, hseen] at h
  obtain ⟨rfl, rfl⟩ := h.pure_cases
  exact ⟨hstep (q.trans q'), .inl rfl⟩

/-- A loaded session answers for a remembered operation from its memory. -/
theorem apply_seen_loaded {id : String} {v : Nat} {s s' : State Doc Op}
    (hloaded : (s.session 0).loaded = true) (hseen : (s.session 0).recentOps.lookup id = some v)
    (h : Runs (fun _ => exec dt) A (apply dt sessionId 0 ops description baseVersion (some id)) s (some r) s') :
    r = .ok v ∧ s' = s := by
  obtain ⟨l, h⟩ := h.with_notes (note dt) []
  -- The load of a loaded session is one look at its memory.
  have hload : ∀ {r' : Except SessionError Unit} {t : State Doc Op × List (Note Doc Op)},
      NotedRuns dt A (load dt 0) (s, []) (some r') t → r' = .ok () ∧ t.1 = s := by
    intro r' t hl
    rcases hl.bind_cases with ⟨e, rfl, h₁⟩ | ⟨b, u, h₁, h₂⟩
    · cases (get_cases h₁).2.1
    · obtain ⟨hu, hb, -⟩ := get_cases h₁
      cases hb
      rw [if_pos hloaded] at h₂
      obtain ⟨rfl, rfl⟩ := h₂.pure_cases
      exact ⟨rfl, hu⟩
  rcases h.bind_cases with ⟨e, rfl, h₁⟩ | ⟨_, t, h₁, h⟩
  · cases (hload h₁).1
  have ht := (hload h₁).2
  rcases h.bind_cases with ⟨e, rfl, h₂⟩ | ⟨recentOps, u, h₂, h⟩
  · cases (get_cases h₂).2.1
  obtain ⟨hu, hops, -⟩ := get_cases h₂
  cases hops
  rw [ht, Option.bind_some, hseen] at h
  obtain ⟨rfl, hs'⟩ := h.pure_cases
  refine ⟨rfl, ?_⟩
  rw [← ht, ← hu, ← hs']

end Outcome

end UniDocs.Session
