import UniDocs.Cas.CasLimiter

/-!
# Permits of the CAS limiter

However calls, microtasks and the ends of tasks interleave: the permits in use and the free ones add up to the limit, the end
of a task hands its permit to the first call that waits, and only where none waits takes it back, and calls get their permits,
and start their tasks, in the order in which they were made. The limiter is a queue in front of as many servers as its limit: a
call has got its permit when fewer calls are before it than the limit and the tasks that have ended come to.
-/

namespace UniDocs.Cas.Calls

open Lib

variable {s : Calls}

/-! ## Permits -/

/-- The permits that calls hold: of the tasks in flight, and of the calls whose task is about to start. -/
def permitsInUse (s : Calls) : Nat := s.microtasks.length + s.tasks.length

/-- The permits that a call could take. -/
def permitsFree (s : Calls) : Int := s.limiter.limit - s.limiter.active

/-- The permit of a task that ends goes to the first call that waits, or else is free again. -/
def HandsOver (s s' : Calls) : Prop :=
  (∃ next rest, s.limiter.waiters = next :: rest ∧ s'.limiter.waiters = rest ∧ s'.microtasks = s.microtasks ++ [next] ∧
      s'.permitsFree = s.permitsFree) ∨
    (s.limiter.waiters = [] ∧ s'.limiter.waiters = [] ∧ s'.microtasks = s.microtasks ∧ s'.permitsFree = s.permitsFree + 1)

/-- The discipline of the limiter in a state, and at the end of any task of it. -/
structure Disciplined (limit : Nat) (s : Calls) : Prop where
  limit_eq : s.limiter.limit = limit
  in_flight : s.tasks.length ≤ limit
  permits : (s.permitsInUse : Int) + s.permitsFree = limit
  free_nonneg : 0 ≤ s.permitsFree
  /-- The calls whose tasks have started, those about to start one and those that wait are all calls, in their order. -/
  order : s.started ++ s.microtasks ++ s.limiter.waiters = List.range s.count
  awake : 0 < s.permitsFree → s.limiter.waiters = []
  hands_over : ∀ index call, s.tasks[index]? = some call → ∀ outcome,
    (s.finish index outcome).tasks = s.tasks.eraseIdx index ∧ s.HandsOver (s.finish index outcome)

/-! ## The invariant -/

/-- What holds in every state of a run. -/
structure Inv (s : Calls) : Prop where
  order : s.started ++ s.microtasks ++ s.limiter.waiters = List.range s.count
  active : s.limiter.active = s.permitsInUse
  bound : s.limiter.active ≤ s.limiter.limit
  busy : s.limiter.waiters ≠ [] → s.limiter.active = s.limiter.limit
  account : s.started.Perm (s.tasks ++ s.ended.map Prod.fst)

/-- What `#acquire` does: it takes a permit that is free while no call waits, or puts the call at the end of the queue. -/
theorem acquire_cases (limiter : CasLimiter) (call : Nat) :
    (limiter.active < limiter.limit ∧ limiter.waiters = [] ∧
        limiter.acquire call = ({ limiter with active := limiter.active + 1 }, true)) ∨
      ((limiter.active < limiter.limit → limiter.waiters ≠ []) ∧
        limiter.acquire call = ({ limiter with waiters := limiter.waiters ++ [call] }, false)) := by
  unfold CasLimiter.acquire
  by_cases h : limiter.active < limiter.limit ∧ limiter.waiters.length = 0
  · exact Or.inl ⟨h.1, List.length_eq_zero_iff.mp h.2, if_pos h⟩
  · exact Or.inr ⟨fun hlt hnil => h ⟨hlt, List.length_eq_zero_iff.mpr hnil⟩, if_neg h⟩

theorem inv_start {limit : ℚ} {limiter : CasLimiter} (h : CasLimiter.create limit = .ok limiter) : Inv (start limiter) := by
  unfold CasLimiter.create at h
  split at h
  · cases h
    exact ⟨rfl, rfl, Int.natCast_nonneg _, fun hne => absurd rfl hne, List.Perm.refl _⟩
  · cases h

theorem Inv.run (h : Inv s) : Inv s.run := by
  have hrange : List.range (s.count + 1) = List.range s.count ++ [s.count] := List.range_succ
  rcases acquire_cases s.limiter s.count with ⟨hfree, hnil, hacquire⟩ | ⟨hbusy, hacquire⟩
  · unfold Calls.run
    rw [hacquire]
    refine ⟨?_, ?_, ?_, fun hne => absurd hnil hne, h.account⟩
    · have horder := h.order
      simp only [hnil, List.append_nil] at horder
      simp only [if_true, hnil, List.append_nil, hrange, ← horder, List.append_assoc]
    · have hactive := h.active
      simp only [permitsInUse, if_true, List.length_append, List.length_singleton] at hactive ⊢
      push_cast at hactive ⊢
      omega
    · exact hfree
  · unfold Calls.run
    rw [hacquire]
    have hfull : s.limiter.active = s.limiter.limit := by
      by_cases hlt : s.limiter.active < s.limiter.limit
      · exact h.busy (hbusy hlt)
      · exact le_antisymm h.bound (not_lt.mp hlt)
    refine ⟨?_, h.active, h.bound, fun _ => hfull, h.account⟩
    simp only [Bool.false_eq_true, if_false, hrange, ← h.order, List.append_assoc]

theorem Inv.resume (h : Inv s) : Inv s.resume := by
  unfold Calls.resume
  split
  · rename_i call rest hmicrotasks
    refine ⟨?_, ?_, h.bound, h.busy, ?_⟩
    · have horder := h.order
      simp only [hmicrotasks] at horder
      simpa using horder
    · have hactive := h.active
      simp only [permitsInUse, hmicrotasks, List.length_cons] at hactive
      simp only [permitsInUse, List.length_append, List.length_singleton]
      push_cast at hactive ⊢
      omega
    · have haccount := (h.account.append_right [call]).trans List.perm_append_comm
      have hmove : (call :: (s.tasks ++ s.ended.map Prod.fst)).Perm (s.tasks ++ [call] ++ s.ended.map Prod.fst) := by
        rw [List.append_assoc]
        exact List.perm_middle.symm
      exact haccount.trans hmove
  · exact h

/-- What `#release` does: it hands the permit to the first call that waits, or takes it back. -/
theorem release_cases (limiter : CasLimiter) :
    (∃ next rest, limiter.waiters = next :: rest ∧ limiter.release = ({ limiter with waiters := rest }, some next)) ∨
      (limiter.waiters = [] ∧ limiter.release = ({ limiter with active := limiter.active - 1 }, none)) := by
  unfold CasLimiter.release
  split
  · rename_i next rest hwaiters
    exact Or.inl ⟨next, rest, hwaiters, rfl⟩
  · rename_i hwaiters
    exact Or.inr ⟨hwaiters, rfl⟩

/-- What the end of a task does. -/
theorem finish_cases {index call : Nat} (htask : s.tasks[index]? = some call) (outcome : TaskOutcome) :
    (∃ next rest, s.limiter.waiters = next :: rest ∧ s.finish index outcome =
        { s with
          limiter := { s.limiter with waiters := rest }, microtasks := s.microtasks ++ [next]
          tasks := s.tasks.eraseIdx index, ended := s.ended ++ [(call, outcome)] }) ∨
      (s.limiter.waiters = [] ∧ s.finish index outcome =
        { s with
          limiter := { s.limiter with active := s.limiter.active - 1 }
          tasks := s.tasks.eraseIdx index, ended := s.ended ++ [(call, outcome)] }) := by
  unfold Calls.finish
  rw [htask]
  rcases release_cases s.limiter with ⟨next, rest, hwaiters, hrelease⟩ | ⟨hwaiters, hrelease⟩
  · refine Or.inl ⟨next, rest, hwaiters, ?_⟩
    rw [hrelease]
    rfl
  · refine Or.inr ⟨hwaiters, ?_⟩
    rw [hrelease]
    simp

theorem Inv.account_finish (h : Inv s) {index call : Nat} (htask : s.tasks[index]? = some call) (outcome : TaskOutcome) :
    s.started.Perm (s.tasks.eraseIdx index ++ (s.ended ++ [(call, outcome)]).map Prod.fst) ∧
      (s.tasks.eraseIdx index).length + 1 = s.tasks.length := by
  obtain ⟨hlt, hget⟩ := List.getElem?_eq_some_iff.mp htask
  have hcons : (call :: s.tasks.eraseIdx index).Perm s.tasks := by
    rw [← hget]
    exact List.getElem_cons_eraseIdx_perm hlt
  refine ⟨?_, by rw [← hcons.length_eq, List.length_cons]⟩
  refine h.account.trans ((hcons.symm.append_right _).trans ?_)
  rw [List.map_append, List.map_cons, List.map_nil, ← List.append_assoc, List.cons_append]
  exact (List.perm_append_singleton _ _).symm

theorem Inv.finish (h : Inv s) (index : Nat) (outcome : TaskOutcome) : Inv (s.finish index outcome) := by
  cases htask : s.tasks[index]? with
  | none =>
    unfold Calls.finish
    rw [htask]
    exact h
  | some call =>
    obtain ⟨haccount, hlength⟩ := h.account_finish htask outcome
    have hactive := h.active
    have hbound := h.bound
    have horder := h.order
    unfold permitsInUse at hactive
    rcases finish_cases htask outcome with ⟨next, rest, hwaiters, hfinish⟩ | ⟨hwaiters, hfinish⟩
    · rw [hfinish]
      have hfull : s.limiter.active = s.limiter.limit := h.busy (by simp [hwaiters])
      refine ⟨?_, ?_, hbound, fun _ => hfull, haccount⟩
      · simp only [hwaiters] at horder
        simpa using horder
      · simp only [permitsInUse, List.length_append, List.length_singleton]
        push_cast at hactive ⊢
        omega
    · rw [hfinish]
      refine ⟨horder, ?_, ?_, fun hne => absurd hwaiters hne, haccount⟩
      · simp only [permitsInUse]
        push_cast at hactive ⊢
        omega
      · show s.limiter.active - 1 ≤ s.limiter.limit
        omega

theorem Inv.step (h : Inv s) (event : CallEvent) : Inv (s.step event) := by
  cases event with
  | run => exact h.run
  | microtask => exact h.resume
  | ended index outcome => exact h.finish index outcome

theorem limit_step (s : Calls) (event : CallEvent) : (s.step event).limiter.limit = s.limiter.limit := by
  cases event with
  | run =>
    show s.run.limiter.limit = s.limiter.limit
    unfold Calls.run
    rcases acquire_cases s.limiter s.count with ⟨_, _, hacquire⟩ | ⟨_, hacquire⟩ <;> rw [hacquire]
  | microtask =>
    show s.resume.limiter.limit = s.limiter.limit
    unfold Calls.resume
    split <;> rfl
  | ended index outcome =>
    show (s.finish index outcome).limiter.limit = s.limiter.limit
    cases htask : s.tasks[index]? with
    | none =>
      unfold Calls.finish
      rw [htask]
    | some call =>
      rcases finish_cases htask outcome with ⟨_, _, _, hfinish⟩ | ⟨_, hfinish⟩ <;> rw [hfinish]

/-! ## What follows from it -/

theorem Inv.disciplined (h : Inv s) : Disciplined s.limiter.limit s := by
  have hactive := h.active
  have hbound := h.bound
  refine ⟨rfl, ?_, ?_, ?_, h.order, ?_, ?_⟩
  · unfold permitsInUse at hactive
    push_cast at hactive
    omega
  · unfold permitsFree
    omega
  · unfold permitsFree
    omega
  · intro hfree
    by_contra hne
    have hfull := h.busy hne
    unfold permitsFree at hfree
    omega
  · intro index call htask outcome
    rcases finish_cases htask outcome with ⟨next, rest, hwaiters, hfinish⟩ | ⟨hwaiters, hfinish⟩
    · rw [hfinish]
      exact ⟨rfl, Or.inl ⟨next, rest, hwaiters, rfl, rfl, rfl⟩⟩
    · rw [hfinish]
      refine ⟨rfl, Or.inr ⟨hwaiters, hwaiters, rfl, ?_⟩⟩
      unfold permitsFree
      simp only
      omega

/-- The limiter is a queue in front of as many servers as its limit: so many calls have got a permit. -/
theorem Inv.granted (h : Inv s) :
    s.started.length + s.microtasks.length = min s.count (s.limiter.limit + s.ended.length) := by
  have horder := congrArg List.length h.order
  have haccount := h.account.length_eq
  have hactive := h.active
  have hbound := h.bound
  unfold permitsInUse at hactive
  simp only [List.length_append, List.length_range, List.length_map] at horder haccount
  push_cast at hactive
  by_cases hnil : s.limiter.waiters = []
  · rw [hnil, List.length_nil] at horder
    omega
  · have hfull := h.busy hnil
    have hpos := List.length_pos_of_ne_nil hnil
    omega

theorem Inv.granted_iff (h : Inv s) (call : Nat) :
    call ∈ s.started ++ s.microtasks ↔ call < s.count ∧ call < s.limiter.limit + s.ended.length := by
  have hfront : s.started ++ s.microtasks = List.range (s.started.length + s.microtasks.length) := by
    have htake := congrArg (List.take (s.started ++ s.microtasks).length) h.order
    rw [List.take_left, List.take_range, List.length_append] at htake
    rw [htake]
    congr 1
    have hlength := congrArg List.length h.order
    simp only [List.length_append, List.length_range] at hlength
    omega
  rw [hfront, List.mem_range, h.granted, lt_min_iff]

/-- When no task is in flight or about to start, every call has ended. -/
theorem Inv.drained (h : Inv s) (hmicrotasks : s.microtasks = []) (htasks : s.tasks = []) :
    s.limiter.waiters = [] ∧ (s.ended.map Prod.fst).Perm (List.range s.count) := by
  have hactive := h.active
  have hpos := s.limiter.limit_pos
  have hnil : s.limiter.waiters = [] := by
    by_contra hne
    have hfull := h.busy hne
    unfold permitsInUse at hactive
    rw [hmicrotasks, htasks] at hactive
    simp only [List.length_nil] at hactive
    omega
  refine ⟨hnil, ?_⟩
  have horder := h.order
  have haccount := h.account
  rw [hmicrotasks, hnil, List.append_nil, List.append_nil] at horder
  rw [htasks, List.nil_append, horder] at haccount
  exact haccount.symm

/-! ## The theorem -/

/-- The invariant and the limit stay in every state of every run of calls on a new limiter. -/
theorem inv_states {limit : ℚ} {limiter : CasLimiter} (hlimit : CasLimiter.create limit = .ok limiter)
    (events : List CallEvent) : ∀ s ∈ Machine.states step (start limiter) events, Inv s ∧ s.limiter.limit = limiter.limit := by
  have hinv : ∀ s e, (Inv s ∧ s.limiter.limit = limiter.limit) → Inv (step s e) ∧ (step s e).limiter.limit = limiter.limit :=
    fun s e h => ⟨h.1.step e, (limit_step s e).trans h.2⟩
  exact Machine.always_rule hinv ⟨inv_start hlimit, rfl⟩

/-- In every state of every run of calls on a new limiter, the limiter keeps its discipline. -/
theorem limiter_disciplined {limit : ℚ} {limiter : CasLimiter} (hlimit : CasLimiter.create limit = .ok limiter)
    (events : List CallEvent) : ∀ s ∈ Machine.states step (start limiter) events, Disciplined limiter.limit s := by
  intro s hs
  obtain ⟨h, heq⟩ := inv_states hlimit events s hs
  rw [← heq]
  exact h.disciplined

/-- Three calls with one permit; the first task throws, and the last call is made before the microtask of the second one. -/
def threeCalls : List CallEvent :=
  [.run, .run, .microtask, .ended 0 .threw, .run, .microtask, .ended 0 .resolved, .microtask, .ended 0 .resolved]

/-- The permit goes from call to call and is free at the end. -/
theorem limiter_disciplined_threeCalls :
    (∀ s ∈ Machine.states step (start ⟨1, 0, [], Nat.one_pos⟩) threeCalls, Disciplined 1 s) ∧
      (Machine.final step (start ⟨1, 0, [], Nat.one_pos⟩) threeCalls).ended = [(0, .threw), (1, .resolved), (2, .resolved)] ∧
      (Machine.final step (start ⟨1, 0, [], Nat.one_pos⟩) threeCalls).permitsFree = 1 :=
  ⟨limiter_disciplined (show CasLimiter.create 1 = .ok ⟨1, 0, [], Nat.one_pos⟩ by decide) threeCalls, by decide,
    by decide⟩

/-- In every state of every run a call has got its permit exactly when fewer calls are before it than the limit and the ended
tasks come to, and when no task is in flight or about to start, every call has ended. -/
theorem calls_served {limit : ℚ} {limiter : CasLimiter} (hlimit : CasLimiter.create limit = .ok limiter)
    (events : List CallEvent) : ∀ s ∈ Machine.states step (start limiter) events,
      (∀ call, call ∈ s.started ++ s.microtasks ↔ call < s.count ∧ call < limiter.limit + s.ended.length) ∧
        (s.microtasks = [] → s.tasks = [] → s.limiter.waiters = [] ∧ (s.ended.map Prod.fst).Perm (List.range s.count)) := by
  intro s hs
  obtain ⟨h, heq⟩ := inv_states hlimit events s hs
  rw [← heq]
  exact ⟨h.granted_iff, h.drained⟩

theorem calls_served_threeCalls :
    ((Machine.final step (start ⟨1, 0, [], Nat.one_pos⟩) threeCalls).ended.map Prod.fst).Perm (List.range 3) :=
  ((calls_served (show CasLimiter.create 1 = .ok ⟨1, 0, [], Nat.one_pos⟩ by decide) threeCalls _
    (Machine.final_mem_states _ _)).2 (by decide) (by decide)).2

end UniDocs.Cas.Calls
