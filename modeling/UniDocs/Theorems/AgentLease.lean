import UniDocs.Agent.SessionLease
import UniDocs.Lib.Machine

/-!
# One agent run at a time

In every run of the replicas in which each agent run ends before its own lease expires, and in which an agent run that was reset
under way neither releases nor is alive when another one acquires: at most one agent run is alive, a release removes its own lease
and replaces the history it got, and an agent run gets the history of the last completed one, or nothing of what was before a
reset. Without the second condition all of this fails (`lease_exclusive_false`), because `release` and `clear` identify the row
and not its holder.
-/

namespace UniDocs.Agent

open Lib Lib.History

/-! ## What the trace says -/

/-- The last run that has released, and the history it wrote. -/
def LastCompleted (trace : List Entry) (run : Nat) (history : List Message) : Prop :=
  ∃ pre post, trace = pre ++ .released run history :: post ∧ ∀ run' history', .released run' history' ∉ post

/-- A reset has completed after a run acquired. -/
def ResetSince (trace : List Entry) (run : Nat) : Prop :=
  ∃ pre raw post, trace = pre ++ .acquired run raw :: post ∧ .cleared ∈ post

/-- The history that the next run is to get: that of the last completed run, or nothing when a reset completed after that run
acquired or when no run has completed. -/
def NextHistory (trace : List Entry) (history : List Message) : Prop :=
  (∀ run history', LastCompleted trace run history' →
    (ResetSince trace run → history = []) ∧ (¬ ResetSince trace run → history = history'))
  ∧ ((∀ run history', .released run history' ∉ trace) → history = [])

/-- Every message was added by a run that acquired after each completed reset. -/
def Fresh (trace : List Entry) (history : List Message) : Prop :=
  ∀ pre mid, trace = pre ++ .cleared :: mid → ∀ m ∈ history, ∃ raw, .acquired m.run raw ∈ mid

/-- The laws of the lease, as of a state of a run. -/
structure LeaseSafety (s : State) : Prop where
  /-- At most one run is between its acquire and its release. -/
  alone : ∀ i j, s.Live i → s.Live j → i = j
  /-- No run has acquired or released since a run that is alive acquired: its release removes no other lease and replaces no
  later history. -/
  releases : ∀ i raw session leasedUntil, s.runs.lookup i = some (.running raw session leasedUntil) →
    ∃ pre mid, s.trace = pre ++ .acquired i raw :: mid ∧ ∀ e ∈ mid, e = .cleared
  /-- Each run gets the history of the last completed run, or nothing when that was reset. -/
  acquires : ∀ pre i raw post, s.trace = pre ++ .acquired i raw :: post → NextHistory pre raw
  /-- No message from before a completed reset is in the history that a run gets after it. -/
  fresh : ∀ pre mid i raw post, s.trace = pre ++ .cleared :: (mid ++ .acquired i raw :: post) → ∀ m ∈ raw,
    ∃ raw', .acquired m.run raw' ∈ mid
  /-- What a run shows to the model is what it got and what it added. -/
  shown : ∀ i raw session leasedUntil, s.runs.lookup i = some (.running raw (some session) leasedUntil) →
    ∀ m ∈ session, m ∈ raw ∨ m.run = i

/-! ## One more entry -/

section Snoc

variable {trace pre post : List Entry} {e e' : Entry} {run : Nat} {history raw : List Message}

theorem lastCompleted_snoc (he : ∀ run history, e ≠ .released run history) (h : LastCompleted (trace ++ [e]) run history) :
    LastCompleted trace run history := by
  obtain ⟨pre, post, heq, hlast⟩ := h
  rcases split_snoc heq with ⟨_, _, rfl⟩ | ⟨post', rfl, rfl⟩
  · exact absurd rfl (he run history)
  · exact ⟨pre, post', rfl, fun run' history' hm => hlast run' history' (List.mem_append_left _ hm)⟩

theorem ResetSince.snoc (h : ResetSince trace run) : ResetSince (trace ++ [e]) run := by
  obtain ⟨pre, raw, post, rfl, hclear⟩ := h
  exact ⟨pre, raw, post ++ [e], by simp, List.mem_append_left _ hclear⟩

theorem resetSince_of_snoc (he : e ≠ .cleared) (h : ResetSince (trace ++ [e]) run) : ResetSince trace run := by
  obtain ⟨pre, raw, post, heq, hclear⟩ := h
  rcases split_snoc heq with ⟨rfl, _, _⟩ | ⟨post', rfl, rfl⟩
  · cases hclear
  · rcases List.mem_append.mp hclear with hclear | hclear
    · exact ⟨pre, raw, post', rfl, hclear⟩
    · exact absurd (List.mem_singleton.mp hclear).symm he

theorem NextHistory.acquired (h : NextHistory trace history) : NextHistory (trace ++ [.acquired run raw]) history := by
  refine ⟨fun run' history' hlast => ?_, fun hnone => h.2 fun run' history' hm => hnone run' history' (List.mem_append_left _ hm)⟩
  obtain ⟨hreset, hkept⟩ := h.1 run' history' (lastCompleted_snoc (by simp) hlast)
  exact ⟨fun hr => hreset (resetSince_of_snoc (by simp) hr), fun hr => hkept fun hr' => hr hr'.snoc⟩

/-- A run whose acquire is the last entry completes. -/
theorem NextHistory.released (hunique : ∀ raw', .acquired run raw' ∉ trace) :
    NextHistory (trace ++ [.acquired run raw] ++ [.released run history]) history := by
  refine ⟨fun run' history' hlast => ?_, fun hnone => absurd (by simp) (hnone run history)⟩
  obtain ⟨pre, post, heq, hlast⟩ := hlast
  rcases split_snoc heq with ⟨_, _, hsame⟩ | ⟨post', rfl, _⟩
  · cases hsame
    refine ⟨fun hreset => ?_, fun _ => rfl⟩
    have hbefore := resetSince_of_snoc (by simp) (resetSince_of_snoc (by simp) hreset)
    obtain ⟨pre', raw', post', rfl, _⟩ := hbefore
    exact absurd (by simp) (hunique raw')
  · exact absurd (by simp) (hlast run history)

theorem NextHistory.cleared (hends : ∀ run history, .released run history ∈ trace → ∃ raw, .acquired run raw ∈ trace) :
    NextHistory (trace ++ [.cleared]) [] := by
  refine ⟨fun run history' hlast => ⟨fun _ => rfl, fun hreset => absurd ?_ hreset⟩, fun _ => rfl⟩
  obtain ⟨pre, post, rfl, _⟩ := lastCompleted_snoc (by simp) hlast
  obtain ⟨raw, hacquired⟩ := hends run history' (by simp)
  obtain ⟨pre', post', heq⟩ := List.append_of_mem hacquired
  exact ⟨pre', raw, post' ++ [.cleared], by rw [heq]; simp, by simp⟩

theorem Fresh.snoc (he : e ≠ .cleared) (h : Fresh trace history) : Fresh (trace ++ [e]) history := by
  intro pre mid heq m hm
  rcases split_snoc heq with ⟨_, _, rfl⟩ | ⟨mid', rfl, rfl⟩
  · exact absurd rfl he
  · obtain ⟨raw, hraw⟩ := h pre mid' rfl m hm
    exact ⟨raw, List.mem_append_left _ hraw⟩

/-- A run whose acquire is the last entry adds messages. -/
theorem Fresh.released {own : List Message} (hown : ∀ m ∈ own, m.run = run) (h : Fresh (trace ++ [.acquired run raw]) raw) :
    Fresh (trace ++ [.acquired run raw] ++ [.released run history]) (raw ++ own) := by
  intro pre mid heq m hm
  rcases split_snoc heq with ⟨_, _, hsame⟩ | ⟨mid', rfl, heq'⟩
  · cases hsame
  · rcases List.mem_append.mp hm with hm | hm
    · obtain ⟨raw', hraw'⟩ := h pre mid' heq' m hm
      exact ⟨raw', List.mem_append_left _ hraw'⟩
    · rcases split_snoc heq' with ⟨_, _, hsame⟩ | ⟨mid'', rfl, _⟩
      · cases hsame
      · exact ⟨raw, by rw [hown m hm]; simp⟩

theorem Fresh.empty : Fresh trace [] := fun _ _ _ _ hm => absurd hm (List.not_mem_nil)

end Snoc

/-! ## The invariant -/

theorem resetSince_iff {run : Nat} {trace : List Entry} : resetSince run trace = true ↔ ResetSince trace run := by
  constructor
  · intro h
    induction trace with
    | nil => cases h
    | cons e trace ih =>
      have hrest : resetSince run trace = true → ResetSince (e :: trace) run := by
        intro h'
        obtain ⟨pre, raw, post, rfl, hclear⟩ := ih h'
        exact ⟨e :: pre, raw, post, rfl, hclear⟩
      cases e with
      | acquired i raw =>
        rcases Bool.or_eq_true_iff.mp h with h | h
        · obtain ⟨hi, hclear⟩ := Bool.and_eq_true_iff.mp h
          obtain rfl := beq_iff_eq.mp hi
          exact ⟨[], raw, trace, rfl, List.contains_iff_mem.mp hclear⟩
        · exact hrest h
      | released _ _ => exact hrest h
      | cleared => exact hrest h
  · rintro ⟨pre, raw, post, rfl, hclear⟩
    induction pre with
    | nil => simp [resetSince, hclear]
    | cons e pre ih => cases e <;> simp [resetSince, ih]

/-- The history in the row. -/
def held (row : Option SessionRow) : List Message := (row.map (·.history)).getD []

/-- What a run that is alive has got and added, and where its acquire stands in the trace. -/
structure Running (s : State) (i : Nat) (raw : List Message) (session : Option (List Message)) (leasedUntil : Int) : Prop where
  acquired : ∃ pre mid, s.trace = pre ++ .acquired i raw :: mid ∧ (∀ e ∈ mid, e = .cleared) ∧ (∀ raw', .acquired i raw' ∉ pre)
    ∧ (mid = [] → s.row = some ⟨raw, some leasedUntil⟩ ∧ s.now ≤ leasedUntil)
  shown : ∀ l, session = some l → ∃ own, l = raw ++ own ∧ ∀ m ∈ own, m.run = i

/-- What the laws rest on. -/
structure Inv (s : State) : Prop where
  seen : ∀ i raw, .acquired i raw ∈ s.trace → ∃ phase, s.runs.lookup i = some phase
  ends : ∀ i history, .released i history ∈ s.trace → ∃ raw, .acquired i raw ∈ s.trace
  running : ∀ i raw session leasedUntil, s.runs.lookup i = some (.running raw session leasedUntil) →
    Running s i raw session leasedUntil
  next : NextHistory s.trace (held s.row)
  fresh : Fresh s.trace (held s.row)
  acquires : ∀ pre i raw post, s.trace = pre ++ .acquired i raw :: post → NextHistory pre raw ∧ Fresh pre raw

/-- Only resets follow the last acquire, so it is the acquire of one run. -/
theorem lastAcquired_unique {pre pre' mid mid' : List Entry} {i j : Nat} {raw raw' : List Message}
    (h : pre ++ .acquired i raw :: mid = pre' ++ .acquired j raw' :: mid') (hmid : ∀ e ∈ mid, e = .cleared)
    (hmid' : ∀ e ∈ mid', e = .cleared) : i = j := by
  rcases List.append_eq_append_iff.mp h with ⟨l, hpre, hl⟩ | ⟨l, hpre, hl⟩
  · cases l with
    | nil => simp_all
    | cons e l =>
      obtain ⟨rfl, hrest⟩ := List.cons.inj hl
      exact absurd (hmid (.acquired j raw') (by rw [hrest]; simp)) (by simp)
  · cases l with
    | nil => simp_all
    | cons e l =>
      obtain ⟨rfl, hrest⟩ := List.cons.inj hl
      exact absurd (hmid' (.acquired i raw) (by rw [hrest]; simp)) (by simp)

theorem Inv.alone {s : State} (h : Inv s) {i j : Nat} (hi : s.Live i) (hj : s.Live j) : i = j := by
  obtain ⟨raw, session, leasedUntil, hi⟩ := hi
  obtain ⟨raw', session', leasedUntil', hj⟩ := hj
  obtain ⟨pre, mid, htrace, hmid, -, -⟩ := (h.running i _ _ _ hi).acquired
  obtain ⟨pre', mid', htrace', hmid', -, -⟩ := (h.running j _ _ _ hj).acquired
  exact lastAcquired_unique (htrace.symm.trans htrace') hmid hmid'

/-- The laws from the invariant. -/
theorem Inv.safety {s : State} (h : Inv s) : LeaseSafety s where
  alone _ _ hi hj := h.alone hi hj
  releases i raw session leasedUntil hi := by
    obtain ⟨pre, mid, htrace, hmid, -, -⟩ := (h.running i raw session leasedUntil hi).acquired
    exact ⟨pre, mid, htrace, hmid⟩
  acquires pre i raw post htrace := (h.acquires pre i raw post htrace).1
  fresh pre mid i raw post htrace :=
    (h.acquires (pre ++ .cleared :: mid) i raw post (by rw [htrace]; simp)).2 pre mid rfl
  shown i raw session leasedUntil hi m hm := by
    obtain ⟨own, rfl, hown⟩ := (h.running i raw (some session) leasedUntil hi).shown session rfl
    exact (List.mem_append.mp hm).imp_right (hown m)

theorem Running.holds {s : State} {i : Nat} {raw : List Message} {session : Option (List Message)} {leasedUntil : Int}
    (h : Running s i raw session leasedUntil) (hreset : resetSince i s.trace = false) :
    ∃ pre, s.trace = pre ++ [.acquired i raw] ∧ (∀ raw', .acquired i raw' ∉ pre) ∧ s.row = some ⟨raw, some leasedUntil⟩
      ∧ s.now ≤ leasedUntil := by
  obtain ⟨pre, mid, htrace, hmid, hunique, hrow⟩ := h.acquired
  cases mid with
  | nil => exact ⟨pre, htrace, hunique, hrow rfl⟩
  | cons e mid =>
    have hclear : ResetSince s.trace i := ⟨pre, raw, e :: mid, htrace, by rw [hmid e (by simp)]; simp⟩
    rw [resetSince_iff.mpr hclear] at hreset
    cases hreset

/-! ## Steps -/

section Steps

variable {s : State} {i : Nat} {leaseSeconds : Int}

/-- A run changes its phase while the row stays. -/
theorem Inv.setRun {phase : Phase} (h : Inv s)
    (hphase : ∀ raw session leasedUntil, phase = .running raw session leasedUntil → Running s i raw session leasedUntil) :
    Inv (s.setRun i phase) where
  seen j raw hm := by
    rw [State.setRun, AList.lookup_insert_eq]
    split
    · exact ⟨phase, rfl⟩
    · exact h.seen j raw hm
  ends := h.ends
  running j raw session leasedUntil hj := by
    rw [State.setRun, AList.lookup_insert_eq] at hj
    have hrunning : Running s j raw session leasedUntil := by
      split at hj
      · rename_i hji
        subst hji
        exact hphase raw session leasedUntil (Option.some.inj hj)
      · exact h.running j raw session leasedUntil hj
    exact ⟨hrunning.acquired, hrunning.shown⟩
  next := h.next
  fresh := h.fresh
  acquires := h.acquires

theorem Inv.ended (h : Inv s) : Inv (s.setRun i .ended) := h.setRun fun _ _ _ hp => absurd hp (by simp)

theorem acquire_some {now : Int} {row row' : Option SessionRow} {raw : List Message}
    (h : acquire leaseSeconds now row = (row', some raw)) :
    raw = held row ∧ row' = some ⟨raw, some (now + leaseSeconds)⟩ ∧
      ∀ history leasedUntil, row = some ⟨history, some leasedUntil⟩ → leasedUntil < now := by
  cases row with
  | none =>
    cases h
    exact ⟨rfl, rfl, fun _ _ hrow => absurd hrow (by simp)⟩
  | some row =>
    rw [acquire] at h
    split at h
    · rename_i hfree
      cases h
      refine ⟨rfl, rfl, ?_⟩
      rintro history leasedUntil ⟨⟩
      simpa using hfree
    · cases h

theorem Inv.acquired {raw : List Message} {leasedUntil : Int} {phase : Phase} (h : Inv s) (hnew : s.runs.lookup i = none)
    (hnone : ∀ j, ¬ s.Live j) (hraw : raw = held s.row) (hlease : s.now ≤ leasedUntil)
    (hphase : phase = .running raw none leasedUntil ∨ phase = .ended) :
    Inv { s.setRun i phase with row := some ⟨raw, some leasedUntil⟩, trace := s.trace ++ [.acquired i raw] } := by
  have hunique : ∀ raw', .acquired i raw' ∉ s.trace := by
    intro raw' hm
    obtain ⟨phase, hsome⟩ := h.seen i raw' hm
    rw [hnew] at hsome
    cases hsome
  subst hraw
  refine ⟨?_, ?_, ?_, h.next.acquired, h.fresh.snoc (by simp), ?_⟩
  · intro j raw' hm
    show ∃ phase', (s.runs.insert i phase).lookup j = some phase'
    rw [AList.lookup_insert_eq]
    rcases List.mem_append.mp hm with hm | hm
    · split
      · exact ⟨phase, rfl⟩
      · exact h.seen j raw' hm
    · obtain ⟨rfl, -⟩ : j = i ∧ _ := by simpa using hm
      exact ⟨phase, if_pos rfl⟩
  · intro j history hm
    rcases List.mem_append.mp hm with hm | hm
    · obtain ⟨raw', hm⟩ := h.ends j history hm
      exact ⟨raw', List.mem_append_left _ hm⟩
    · cases List.mem_singleton.mp hm
  · intro j raw' session leasedUntil' hj
    replace hj : (s.runs.insert i phase).lookup j = some (.running raw' session leasedUntil') := hj
    rw [AList.lookup_insert_eq] at hj
    split at hj
    · rename_i hji
      subst hji
      rcases hphase with rfl | rfl
      · cases hj
        exact ⟨⟨s.trace, [], rfl, fun _ he => absurd he List.not_mem_nil, hunique, fun _ => ⟨rfl, hlease⟩⟩,
          fun _ hl => absurd hl (by simp)⟩
      · cases hj
    · exact absurd ⟨raw', session, leasedUntil', hj⟩ (hnone j)
  · intro pre j raw' post htrace
    rcases split_snoc htrace with ⟨-, rfl, hsame⟩ | ⟨post', rfl, htrace'⟩
    · cases hsame
      exact ⟨h.next, h.fresh⟩
    · exact h.acquires pre j raw' post' htrace'

theorem Inv.released {raw : List Message} {session : Option (List Message)} {leasedUntil : Int} (h : Inv s)
    (hi : s.runs.lookup i = some (.running raw session leasedUntil)) (hreset : resetSince i s.trace = false) :
    Inv { s.setRun i .ended with
      row := release (session.getD raw) s.row, trace := s.trace ++ [.released i (session.getD raw)] } := by
  have hrunning := h.running i raw session leasedUntil hi
  obtain ⟨pre, htrace, hunique, hrow, -⟩ := hrunning.holds hreset
  have hgone : ∀ j phase, (s.runs.insert i .ended).lookup j = some phase → phase = .ended ∨ s.runs.lookup j = some phase ∧ j ≠ i := by
    intro j phase hj
    rw [AList.lookup_insert_eq] at hj
    split at hj
    · exact .inl (Option.some.inj hj).symm
    · exact .inr ⟨hj, ‹_›⟩
  have hheld : held (release (session.getD raw) s.row) = session.getD raw := by rw [hrow]; rfl
  have hfresh : Fresh (s.trace ++ [.released i (session.getD raw)]) (session.getD raw) := by
    have hraw : Fresh (pre ++ [.acquired i raw]) raw := by
      have := h.fresh
      rwa [hrow, htrace] at this
    rw [htrace]
    cases session with
    | none =>
      have hnone : ∀ m ∈ ([] : List Message), m.run = i := fun _ hm => absurd hm List.not_mem_nil
      simpa using hraw.released hnone
    | some l =>
      obtain ⟨own, rfl, hown⟩ := hrunning.shown l rfl
      exact hraw.released hown
  refine ⟨?_, ?_, ?_, ?_, ?_, ?_⟩
  · intro j raw' hm
    rcases List.mem_append.mp hm with hm | hm
    · exact h.ended.seen j raw' hm
    · cases List.mem_singleton.mp hm
  · intro j history hm
    rcases List.mem_append.mp hm with hm | hm
    · obtain ⟨raw', hm⟩ := h.ends j history hm
      exact ⟨raw', List.mem_append_left _ hm⟩
    · cases List.mem_singleton.mp hm
      exact ⟨raw, by simp [htrace]⟩
  · intro j raw' session' leasedUntil' hj
    rcases hgone j _ hj with hended | ⟨hj, hne⟩
    · cases hended
    · exact absurd (h.alone ⟨raw', session', leasedUntil', hj⟩ ⟨raw, session, leasedUntil, hi⟩) hne
  · show NextHistory _ (held (release _ s.row))
    rw [hheld, htrace]
    exact .released hunique
  · show Fresh _ (held (release _ s.row))
    rw [hheld]
    exact hfresh
  · intro pre' j raw' post hsplit
    rcases split_snoc hsplit with ⟨-, -, hsame⟩ | ⟨post', -, hsplit'⟩
    · cases hsame
    · exact h.acquires pre' j raw' post' hsplit'

/-- A reset empties the row, whoever is alive. -/
theorem Inv.cleared (h : Inv s) : Inv { s with row := clear s.row, trace := s.trace ++ [.cleared] } := by
  have hheld : held (clear s.row) = [] := by cases s.row <;> rfl
  refine ⟨?_, ?_, ?_, ?_, ?_, ?_⟩
  · intro j raw hm
    rcases List.mem_append.mp hm with hm | hm
    · exact h.seen j raw hm
    · cases List.mem_singleton.mp hm
  · intro j history hm
    rcases List.mem_append.mp hm with hm | hm
    · obtain ⟨raw, hm⟩ := h.ends j history hm
      exact ⟨raw, List.mem_append_left _ hm⟩
    · cases List.mem_singleton.mp hm
  · intro j raw session leasedUntil hj
    obtain ⟨⟨pre, mid, htrace, hmid, hunique, -⟩, hshown⟩ := h.running j raw session leasedUntil hj
    refine ⟨⟨pre, mid ++ [.cleared], ?_, ?_, hunique, fun hnil => absurd hnil (by simp)⟩, hshown⟩
    · show s.trace ++ [.cleared] = _
      rw [htrace]
      simp
    · intro e he
      rcases List.mem_append.mp he with he | he
      · exact hmid e he
      · exact List.mem_singleton.mp he
  · show NextHistory _ (held (clear s.row))
    rw [hheld]
    exact .cleared h.ends
  · show Fresh _ (held (clear s.row))
    rw [hheld]
    exact .empty
  · intro pre j raw post htrace
    rcases split_snoc htrace with ⟨-, -, hsame⟩ | ⟨post', rfl, htrace'⟩
    · cases hsame
    · exact h.acquires pre j raw post' htrace'

/-- The clock passes no lease of a run that is alive. -/
theorem Inv.advanced {now : Int} (h : Inv s)
    (hlease : ∀ j raw session leasedUntil, s.runs.lookup j = some (.running raw session leasedUntil) → now ≤ leasedUntil) :
    Inv { s with now := now } := by
  refine ⟨h.seen, h.ends, fun j raw session leasedUntil hj => ?_, h.next, h.fresh, h.acquires⟩
  obtain ⟨⟨pre, mid, htrace, hmid, hunique, hrow⟩, hshown⟩ := h.running j raw session leasedUntil hj
  exact ⟨⟨pre, mid, htrace, hmid, hunique, fun hnil => ⟨(hrow hnil).1, hlease j raw session leasedUntil hj⟩⟩, hshown⟩

end Steps

theorem Inv.start (now : Int) : Inv (.start now) where
  seen _ _ hm := absurd hm List.not_mem_nil
  ends _ _ hm := absurd hm List.not_mem_nil
  running _ _ _ _ hi := by simp [State.start] at hi
  next := ⟨fun _ _ ⟨_, _, heq, _⟩ => by simp [State.start] at heq, fun _ => rfl⟩
  fresh := .empty
  acquires _ _ _ _ heq := by simp [State.start] at heq

/-- The first statement of a run keeps the invariant. -/
theorem Inv.acquireRun {s : State} {i : Nat} {leaseSeconds : Int} {fault : Fault} (h : Inv s) (hnew : s.runs.lookup i = none)
    (hlease : 0 ≤ leaseSeconds) (hreset : Unreset s (.acquire i fault)) : Inv (s.acquireRun leaseSeconds i fault) := by
  rw [State.acquireRun]
  split
  · exact h.ended
  · rename_i hfault
    split
    · exact h.ended
    · rename_i row raw hgiven
      obtain ⟨hraw, rfl, hfree⟩ := acquire_some hgiven
      -- a run that was alive would hold the row until a time that has not passed
      have hnone : ∀ j, ¬ s.Live j := by
        rintro j ⟨raw', session, leasedUntil, hj⟩
        have hunreset : resetSince j s.trace = false := by
          by_contra hne
          have hhas := hreset.resolve_left hfault
          rw [Bool.eq_false_iff] at hhas
          exact hhas (AList.has_iff.mpr ⟨j, _, hj, by simpa using hne⟩)
        obtain ⟨-, -, -, hrow, hnow⟩ := (h.running j _ _ _ hj).holds hunreset
        have := hfree _ _ hrow
        omega
      refine h.acquired hnew hnone hraw (by omega) ?_
      by_cases hlost : fault = .none
      · exact .inl (if_pos hlost)
      · exact .inr (if_neg hlost)

/-- Every guarded event keeps the invariant. -/
theorem Inv.step {s : State} {e : Event} {leaseSeconds : Int} (h : Inv s) (hpunctual : Punctual leaseSeconds s e)
    (hreset : Unreset s e) : Inv (step leaseSeconds s e) := by
  cases e with
  | acquire i fault =>
    simp only [Agent.step]
    split
    · exact h.acquireRun ‹_› hpunctual hreset
    · exact h
  | «open» i =>
    simp only [Agent.step]
    split
    · rename_i raw leasedUntil hi
      refine h.setRun ?_
      rintro _ _ _ ⟨⟩
      refine ⟨(h.running i _ _ _ hi).acquired, ?_⟩
      rintro l ⟨⟩
      exact ⟨[], by simp, fun _ hm => absurd hm List.not_mem_nil⟩
    · exact h
  | push i text =>
    simp only [Agent.step]
    split
    · rename_i raw session leasedUntil hi
      refine h.setRun ?_
      rintro _ _ _ ⟨⟩
      have hrunning := h.running i _ _ _ hi
      refine ⟨hrunning.acquired, ?_⟩
      rintro l ⟨⟩
      obtain ⟨own, rfl, hown⟩ := hrunning.shown session rfl
      refine ⟨own ++ [⟨i, text⟩], by simp, fun m hm => ?_⟩
      rcases List.mem_append.mp hm with hm | hm
      · exact hown m hm
      · rw [List.mem_singleton.mp hm]
    · exact h
  | release i fault =>
    simp only [Agent.step]
    split
    · rename_i raw session leasedUntil hi
      rw [State.releaseRun]
      split
      · exact h.ended
      · rename_i hfault
        exact h.released hi (hreset.resolve_left hfault)
    · exact h
  | crash i =>
    simp only [Agent.step]
    split
    · exact h.ended
    · exact h
  | reset fault =>
    simp only [Agent.step]
    split
    · exact h
    · exact h.cleared
  | advance seconds =>
    refine h.advanced fun j raw session leasedUntil hj => ?_
    have hpunctual : s.runs.has _ = false := hpunctual
    rw [Bool.eq_false_iff] at hpunctual
    by_contra hlt
    exact hpunctual (AList.has_iff.mpr ⟨j, _, hj, by simpa using hlt⟩)

/-! ## Every run -/

/-- As long as every run ends before its own lease expires, and a run that was reset under way neither releases nor is alive when
another one acquires, the laws of the lease hold at any time. -/
theorem lease_exclusive {leaseSeconds now : Int} {es : List Event}
    (hguard : Machine.Guarded (step leaseSeconds) (fun s e => Punctual leaseSeconds s e ∧ Unreset s e) (.start now) es) :
    ∀ s ∈ Machine.states (step leaseSeconds) (.start now) es, LeaseSafety s := by
  intro s hs
  exact (Machine.invariant_rule (fun _ _ h hg => Inv.step h hg.1 hg.2) (Inv.start now) hguard s hs).safety

/-- Two runs one after the other: the first is reset under way and crashes, the second one gets and releases a history. -/
theorem lease_exclusive_reset_crash :
    let es := [.acquire 1 .none, .open 1, .push 1 "old", .reset .none, .crash 1, .acquire 2 .none, .open 2, .push 2 "new",
      .release 2 .none, .advance 60, .acquire 3 .none]
    LeaseSafety (Machine.final (step 1800) (.start 0) es) ∧
      (Machine.final (step 1800) (.start 0) es).row = some ⟨[⟨2, "new"⟩], some 1860⟩ :=
  ⟨lease_exclusive (by decide) _ (Machine.final_mem_states _ _), by decide⟩

/-- A reset under a run that is alive lets a second run acquire beside it, and brings back what it had removed: the first run
releases, and the third one gets a message from before the reset. -/
theorem lease_exclusive_false :
    let es := [.acquire 1 .none, .open 1, .push 1 "old", .reset .none, .acquire 2 .none, .release 1 .none, .acquire 3 .none]
    Machine.Guarded (step 1800) (Punctual 1800) (.start 0) es ∧ ¬ LeaseSafety (Machine.final (step 1800) (.start 0) es) := by
  refine ⟨by decide, fun h => ?_⟩
  have htwo : (2 : Nat) = 3 := by
    refine h.alone 2 3 ⟨[], none, 1800, by decide⟩ ⟨[⟨1, "old"⟩], none, 1800, by decide⟩
  exact absurd htwo (by decide)

end UniDocs.Agent
