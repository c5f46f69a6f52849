import Mathlib.Algebra.Order.Group.Multiset
import UniDocs.Psd.RequestQueue

/-!
# Discipline of the request queue

As long as no discardable request arrives from within a call of `drop`, one task runs at a time, requests that may not be
discarded run once and in the order of their arrival, a discardable one is dropped only for a newer one, and nothing waits
while nothing runs. A discardable request that arrives from within `drop` finds the dropped one still in its place: that one
is dropped again, and the request itself is lost.
-/

namespace UniDocs.Psd.RequestQueue

open Lib

variable {Req : Type} {discardable : Req → Bool} {q : Queue Req}

/-! ## What has happened -/

/-- The requests that have arrived, in their order. -/
def arrivedOf (log : List (Entry Req)) : List (Arrival Req) :=
  log.filterMap fun
    | .arrived a => some a
    | _ => none

/-- The requests that were run, in their order. -/
def startedOf (log : List (Entry Req)) : List (Arrival Req) :=
  log.filterMap fun
    | .started a => some a
    | _ => none

/-- The requests that were dropped, in their order. -/
def droppedOf (log : List (Entry Req)) : List (Arrival Req) :=
  log.filterMap fun
    | .dropped a => some a
    | _ => none

section Logs

variable (log : List (Entry Req)) (a : Arrival Req)

@[simp] theorem arrivedOf_arrived : arrivedOf (log ++ [.arrived a]) = arrivedOf log ++ [a] := by simp [arrivedOf]
@[simp] theorem arrivedOf_started : arrivedOf (log ++ [.started a]) = arrivedOf log := by simp [arrivedOf]
@[simp] theorem arrivedOf_ended : arrivedOf (log ++ [.ended a]) = arrivedOf log := by simp [arrivedOf]
@[simp] theorem arrivedOf_dropped : arrivedOf (log ++ [.dropped a]) = arrivedOf log := by simp [arrivedOf]
@[simp] theorem startedOf_arrived : startedOf (log ++ [.arrived a]) = startedOf log := by simp [startedOf]
@[simp] theorem startedOf_started : startedOf (log ++ [.started a]) = startedOf log ++ [a] := by simp [startedOf]
@[simp] theorem startedOf_ended : startedOf (log ++ [.ended a]) = startedOf log := by simp [startedOf]
@[simp] theorem startedOf_dropped : startedOf (log ++ [.dropped a]) = startedOf log := by simp [startedOf]
@[simp] theorem droppedOf_arrived : droppedOf (log ++ [.arrived a]) = droppedOf log := by simp [droppedOf]
@[simp] theorem droppedOf_started : droppedOf (log ++ [.started a]) = droppedOf log := by simp [droppedOf]
@[simp] theorem droppedOf_ended : droppedOf (log ++ [.ended a]) = droppedOf log := by simp [droppedOf]
@[simp] theorem droppedOf_dropped : droppedOf (log ++ [.dropped a]) = droppedOf log ++ [a] := by simp [droppedOf]

end Logs

/-- The tasks that run: in a call of `run`, or until their promise has settled. -/
def Queue.tasks (q : Queue Req) : List (Arrival Req) :=
  (q.frames.filterMap fun
    | .running task => some task
    | .dropping _ _ => none) ++ q.results

/-- The discardable request that waits; while one is dropped, the one that replaces it. -/
def Queue.slot (q : Queue Req) : List (Arrival Req) :=
  match q.frames with
  | .dropping _ next :: _ => [next]
  | _ => q.waiting.toList

/-- A discardable request is dropped right after a newer one has arrived, and was neither run nor dropped before. -/
def Superseded (discardable : Req → Bool) (before : List (Entry Req)) (a : Arrival Req) : Prop :=
  discardable a.request = true ∧ ∃ early newer, before = early ++ [.arrived newer] ∧ discardable newer.request = true ∧
    a.number < newer.number ∧ a ∈ arrivedOf early ∧ a ∉ startedOf before ∧ a ∉ droppedOf before

/-! ## The invariant -/

/-- How the calls that have not returned agree with the variables: a call of `drop` can only stand within the one of `run`. -/
def Queue.Shape (q : Queue Req) : Prop :=
  match q.frames with
  | [] => q.results.length = if q.active then 1 else 0
  | [.running _] => q.active = true ∧ q.results = []
  | [.dropping old _] => q.active = true ∧ q.results.length = 1 ∧ q.waiting = some old
  | [.dropping old _, .running _] => q.active = true ∧ q.results = [] ∧ q.waiting = some old
  | _ => False

/-- What holds in every state of an orderly run. -/
structure Inv (discardable : Req → Bool) (q : Queue Req) : Prop where
  shape : q.Shape
  idle : q.active = false → q.pending = [] ∧ q.waiting = none
  numbers : (arrivedOf q.log).map Arrival.number = List.range q.arrivals
  account : (startedOf q.log : Multiset (Arrival Req)) + droppedOf q.log + (q.pending + q.slot : Multiset (Arrival Req)) =
    arrivedOf q.log
  order : (arrivedOf q.log).filter (fun a => !discardable a.request) =
    (startedOf q.log).filter (fun a => !discardable a.request) ++ q.pending
  slot : ∀ a ∈ q.slot, discardable a.request = true
  drops : ∀ before a after, q.log = before ++ .dropped a :: after → Superseded discardable before a

/-- The innermost call that has not returned is one of `drop`. -/
def Queue.inDrop (q : Queue Req) : Bool :=
  match q.frames with
  | .dropping _ _ :: _ => true
  | _ => false

/-- No discardable request arrives from within a call of `drop`. -/
def Orderly (discardable : Req → Bool) (q : Queue Req) : Event Req → Prop
  | .submit request => (discardable request && q.inDrop) = false
  | _ => True

instance (discardable : Req → Bool) (q : Queue Req) : (event : Event Req) → Decidable (Orderly discardable q event)
  | .submit _ => inferInstanceAs (Decidable (_ = _))
  | .returned | .threw | .droppedReturned | .settled _ _ => inferInstanceAs (Decidable True)

theorem inv_empty : Inv discardable (Queue.empty : Queue Req) where
  shape := rfl
  idle _ := ⟨rfl, rfl⟩
  numbers := rfl
  account := rfl
  order := rfl
  slot _ ha := by cases ha
  drops before a after h := by simp [Queue.empty] at h

theorem drops_snoc {log : List (Entry Req)} {entry : Entry Req}
    (h : ∀ before a after, log = before ++ .dropped a :: after → Superseded discardable before a)
    (hentry : ∀ a, entry = .dropped a → Superseded discardable log a) :
    ∀ before a after, log ++ [entry] = before ++ .dropped a :: after → Superseded discardable before a := by
  intro before a after heq
  rcases List.eq_nil_or_concat after with rfl | ⟨after, last, rfl⟩
  · obtain ⟨rfl, hlast⟩ := List.append_inj' heq rfl
    exact hentry a (List.cons.inj hlast).1
  · rw [List.concat_eq_append, ← List.cons_append, ← List.append_assoc] at heq
    obtain ⟨hlog, _⟩ := List.append_inj' heq rfl
    exact h before a after hlog

/-- A request that waits was neither run nor dropped. -/
theorem Inv.slot_fresh (h : Inv discardable q) {a : Arrival Req} (ha : a ∈ q.slot) :
    a ∈ arrivedOf q.log ∧ a ∉ startedOf q.log ∧ a ∉ droppedOf q.log ∧ a.number < q.arrivals := by
  have hnodup : (arrivedOf q.log).Nodup := by
    refine List.Nodup.of_map Arrival.number ?_
    rw [h.numbers]
    exact List.nodup_range
  have hall : (startedOf q.log ++ droppedOf q.log ++ (q.pending ++ q.slot)).Perm (arrivedOf q.log) := by
    rw [← Multiset.coe_eq_coe, ← h.account]
    simp only [Multiset.coe_add]
  have hin : a ∈ arrivedOf q.log := by
    refine hall.mem_iff.mp (List.mem_append_right _ (List.mem_append_right _ ha))
  have hdisjoint := hall.nodup_iff.mpr hnodup
  rw [List.nodup_append] at hdisjoint
  obtain ⟨_, _, hapart⟩ := hdisjoint
  refine ⟨hin, ?_, ?_, ?_⟩
  · exact fun hs => hapart a (List.mem_append_left _ hs) a (List.mem_append_right _ ha) rfl
  · exact fun hd => hapart a (List.mem_append_right _ hd) a (List.mem_append_right _ ha) rfl
  · have hnumber := List.mem_map_of_mem (f := Arrival.number) hin
    rw [h.numbers, List.mem_range] at hnumber
    exact hnumber

/-! ## Steps -/

/-- A queue without a task has no call that has not returned. -/
theorem Inv.frames_of_idle (h : Inv discardable q) (hidle : q.active = false) : q.frames = [] ∧ q.results = [] := by
  have hshape := h.shape
  unfold Queue.Shape at hshape
  split at hshape
  · rename_i hframes
    rw [hidle] at hshape
    exact ⟨hframes, List.length_eq_zero_iff.mp hshape⟩
  · rw [hidle] at hshape
    cases hshape.1
  · rw [hidle] at hshape
    cases hshape.1
  · rw [hidle] at hshape
    cases hshape.1
  · exact hshape.elim

/-- What waits in the list may not be discarded. -/
theorem Inv.pending_kept (h : Inv discardable q) {a : Arrival Req} (ha : a ∈ q.pending) : discardable a.request = false := by
  have hmem : a ∈ (arrivedOf q.log).filter fun a => !discardable a.request := by
    rw [h.order]
    exact List.mem_append_right _ ha
  simpa using (List.mem_filter.mp hmem).2

theorem Inv.numbers_snoc (h : Inv discardable q) (request : Req) :
    (arrivedOf q.log ++ [(⟨q.arrivals, request⟩ : Arrival Req)]).map Arrival.number = List.range (q.arrivals + 1) := by
  rw [List.map_append, h.numbers, List.range_succ]
  rfl

theorem Inv.submit (h : Inv discardable q) (request : Req)
    (horderly : discardable request = true → ∀ old next rest, q.frames ≠ .dropping old next :: rest) :
    Inv discardable (q.submit discardable request) := by
  have hnumbers := h.numbers_snoc request
  have harrived : ∀ before a after, q.log ++ [.arrived ⟨q.arrivals, request⟩] = before ++ .dropped a :: after →
      Superseded discardable before a := drops_snoc h.drops fun _ heq => by cases heq
  cases hactive : q.active with
  | false =>
    -- The request starts at once, whatever it is.
    obtain ⟨hframes, hresults⟩ := h.frames_of_idle hactive
    obtain ⟨hpending, hwaiting⟩ := h.idle hactive
    have hstart : q.submit discardable request =
        ({ q with arrivals := q.arrivals + 1 }.note (.arrived ⟨q.arrivals, request⟩)).start ⟨q.arrivals, request⟩ := by
      simp [Queue.submit, Queue.note, hactive]
    have haccount := h.account
    have horder := h.order
    rw [hpending] at horder haccount
    have hslot : q.slot = [] := by simp [Queue.slot, hframes, hwaiting]
    rw [hslot] at haccount
    rw [hstart]
    refine ⟨?_, fun hcontra => absurd hcontra (by simp [Queue.start, Queue.note]), ?_, ?_, ?_, ?_, ?_⟩
    · simp only [Queue.start, Queue.note, Queue.Shape, hframes]
      exact ⟨trivial, hresults⟩
    · simp only [Queue.start, Queue.note, arrivedOf_started, arrivedOf_arrived]
      exact hnumbers
    · simp only [Queue.start, Queue.note, arrivedOf_started, arrivedOf_arrived, startedOf_started, startedOf_arrived,
        droppedOf_started, droppedOf_arrived, Queue.slot, hframes, hpending, hwaiting, Option.toList_none,
        ← Multiset.coe_add, ← haccount]
      simp only [Multiset.coe_nil, add_zero, zero_add, add_assoc, add_comm]
    · simp only [Queue.start, Queue.note, arrivedOf_started, arrivedOf_arrived, startedOf_started, startedOf_arrived,
        List.filter_append, horder, hpending, List.append_nil]
    · simp [Queue.start, Queue.note, Queue.slot, hframes, hwaiting]
    · exact drops_snoc harrived fun _ heq => by cases heq
  | true =>
    cases hdiscardable : discardable request with
    | false =>
      -- It waits in the list.
      have hsubmit : q.submit discardable request =
          { q with
            arrivals := q.arrivals + 1
            log := q.log ++ [.arrived ⟨q.arrivals, request⟩]
            pending := q.pending ++ [⟨q.arrivals, request⟩] } := by
        simp [Queue.submit, Queue.note, hactive, hdiscardable]
      rw [hsubmit]
      refine ⟨h.shape, fun hcontra => absurd hcontra (by simp [hactive]), ?_, ?_, ?_, h.slot, harrived⟩
      · simpa using hnumbers
      · simp only [arrivedOf_arrived, startedOf_arrived, droppedOf_arrived, ← Multiset.coe_add, ← h.account]
        show _ + (_ + _ + (q.slot : Multiset (Arrival Req))) = _
        simp only [add_assoc, add_comm, add_left_comm]
      · simp [h.order, hdiscardable]
    | true =>
      cases hwaiting : q.waiting with
      | none =>
        have hsubmit : q.submit discardable request =
            { q with
              arrivals := q.arrivals + 1
              log := q.log ++ [.arrived ⟨q.arrivals, request⟩]
              waiting := some ⟨q.arrivals, request⟩ } := by
          simp [Queue.submit, Queue.note, hactive, hdiscardable, hwaiting]
        have hslot : q.slot = [] ∧ ∀ old next rest, q.frames ≠ .dropping old next :: rest := by
          have hframes := horderly hdiscardable
          refine ⟨?_, hframes⟩
          unfold Queue.slot
          split
          · rename_i heq
            exact absurd heq (hframes _ _ _)
          · rw [hwaiting]
            rfl
        have haccount := h.account
        rw [hslot.1] at haccount
        rw [hsubmit]
        have hnew : Queue.slot { q with
            arrivals := q.arrivals + 1
            log := q.log ++ [.arrived ⟨q.arrivals, request⟩]
            waiting := some ⟨q.arrivals, request⟩ } = [⟨q.arrivals, request⟩] := by
          unfold Queue.slot
          split
          · rename_i heq
            exact absurd heq (hslot.2 _ _ _)
          · rfl
        refine ⟨?_, fun hcontra => absurd hcontra (by simp [hactive]), ?_, ?_, ?_, ?_, harrived⟩
        · have hshape := h.shape
          unfold Queue.Shape at hshape ⊢
          rcases hf : q.frames with _ | ⟨frame, rest⟩
          · simpa only [hf] using hshape
          · rw [hf] at hshape
            cases frame with
            | dropping old next => exact absurd hf (hslot.2 _ _ _)
            | running task =>
              cases rest with
              | nil => simpa only [hf] using hshape
              | cons => exact hshape.elim
        · simpa using hnumbers
        · rw [hnew]
          simp only [arrivedOf_arrived, startedOf_arrived, droppedOf_arrived, ← Multiset.coe_add, ← haccount]
          simp only [Multiset.coe_nil, add_zero, add_assoc, add_comm, add_left_comm]
        · simp [h.order, hdiscardable]
        · rw [hnew]
          simpa using hdiscardable
      | some old =>
        have hsubmit : q.submit discardable request =
            { q with
              arrivals := q.arrivals + 1
              log := q.log ++ [.arrived ⟨q.arrivals, request⟩] ++ [.dropped old]
              frames := .dropping old ⟨q.arrivals, request⟩ :: q.frames } := by
          simp [Queue.submit, Queue.note, hactive, hdiscardable, hwaiting]
        have hframes := horderly hdiscardable
        have hslot : q.slot = [old] := by
          unfold Queue.slot
          split
          · rename_i heq
            exact absurd heq (hframes _ _ _)
          · rw [hwaiting]
            rfl
        have haccount := h.account
        rw [hslot] at haccount
        obtain ⟨hin, hstarted, hdropped, hlt⟩ := h.slot_fresh (a := old) (by rw [hslot]; exact List.mem_singleton_self _)
        rw [hsubmit]
        refine ⟨?_, fun hcontra => absurd hcontra (by simp [hactive]), ?_, ?_, ?_, ?_, ?_⟩
        · have hshape := h.shape
          unfold Queue.Shape at hshape ⊢
          rcases hf : q.frames with _ | ⟨frame, rest⟩
          · rw [hf] at hshape
            simp only [hactive, if_true] at hshape
            exact ⟨hactive, hshape, hwaiting⟩
          · rw [hf] at hshape
            cases frame with
            | dropping old next => exact absurd hf (hframes _ _ _)
            | running task =>
              cases rest with
              | nil => exact ⟨hactive, hshape.2, hwaiting⟩
              | cons => exact hshape.elim
        · simp only [arrivedOf_dropped, arrivedOf_arrived]
          exact hnumbers
        · simp only [Queue.slot, arrivedOf_dropped, arrivedOf_arrived, startedOf_dropped, startedOf_arrived,
            droppedOf_dropped, droppedOf_arrived, ← Multiset.coe_add, ← haccount]
          simp only [add_assoc, add_comm, add_left_comm]
        · simp only [arrivedOf_dropped, arrivedOf_arrived, startedOf_dropped, startedOf_arrived, List.filter_append, h.order]
          simp [hdiscardable]
        · simpa [Queue.slot] using hdiscardable
        · refine drops_snoc harrived fun a heq => ?_
          cases heq
          have hold := h.slot old (by rw [hslot]; exact List.mem_singleton_self _)
          refine ⟨hold, q.log, ⟨q.arrivals, request⟩, rfl, hdiscardable, hlt, hin, ?_, ?_⟩
          · rw [startedOf_arrived]
            exact hstarted
          · rw [droppedOf_arrived]
            exact hdropped

theorem Inv.runReturned (h : Inv discardable q) : Inv discardable q.runReturned := by
  have hshape := h.shape
  unfold Queue.runReturned
  split
  · rename_i task rest hframes
    unfold Queue.Shape at hshape
    rw [hframes] at hshape
    cases rest with
    | cons => exact hshape.elim
    | nil =>
      obtain ⟨hactive, hresults⟩ := hshape
      have hslot : q.slot = q.waiting.toList := by simp [Queue.slot, hframes]
      have hnew : Queue.slot { q with frames := [], results := q.results ++ [task] } = q.waiting.toList := rfl
      refine ⟨?_, fun hcontra => absurd hcontra (by simp [hactive]), h.numbers, ?_, h.order, ?_, h.drops⟩
      · show (q.results ++ [task]).length = if q.active then 1 else 0
        simp [hactive, hresults]
      · rw [hnew, ← hslot]
        exact h.account
      · rw [hnew, ← hslot]
        exact h.slot
  · exact h

theorem Inv.dropReturned (h : Inv discardable q) : Inv discardable q.dropReturned := by
  have hshape := h.shape
  unfold Queue.dropReturned
  split
  · rename_i old next rest hframes
    have hslot : q.slot = [next] := by simp [Queue.slot, hframes]
    unfold Queue.Shape at hshape
    rw [hframes] at hshape
    have hrest : q.active = true ∧ (rest = [] ∧ q.results.length = 1 ∨ (∃ task, rest = [.running task]) ∧ q.results = []) := by
      match rest, hshape with
      | [], hshape => exact ⟨hshape.1, .inl ⟨rfl, hshape.2.1⟩⟩
      | [.running task], hshape => exact ⟨hshape.1, .inr ⟨⟨task, rfl⟩, hshape.2.1⟩⟩
      | .dropping _ _ :: _, hshape => exact hshape.elim
      | .running _ :: _ :: _, hshape => exact hshape.elim
    obtain ⟨hactive, hrest⟩ := hrest
    have hnew : Queue.slot { q with frames := rest, waiting := some next } = [next] := by
      rcases hrest with ⟨rfl, _⟩ | ⟨⟨task, rfl⟩, _⟩ <;> rfl
    refine ⟨?_, fun hcontra => absurd hcontra (by simp [hactive]), h.numbers, ?_, h.order, ?_, h.drops⟩
    · rcases hrest with ⟨rfl, hresults⟩ | ⟨⟨task, rfl⟩, hresults⟩
      · show q.results.length = if q.active then 1 else 0
        simp [hactive, hresults]
      · exact ⟨hactive, hresults⟩
    · rw [hnew, ← hslot]
      exact h.account
    · rw [hnew, ← hslot]
      exact h.slot
  · exact h

/-- The next request that waits starts when the task before it has ended. -/
theorem Inv.settle (h : Inv discardable q) (index : Nat) : Inv discardable (q.settle index) := by
  unfold Queue.settle
  split
  · rename_i task hframes htask
    have hshape := h.shape
    unfold Queue.Shape at hshape
    rw [hframes] at hshape
    have hactive : q.active = true ∧ q.results.eraseIdx index = [] := by
      obtain ⟨hlt, _⟩ := List.getElem?_eq_some_iff.mp htask
      cases hactive : q.active with
      | false =>
        rw [hactive] at hshape
        simp only [Bool.false_eq_true, if_false] at hshape
        omega
      | true =>
        rw [hactive] at hshape
        simp only [if_true] at hshape
        refine ⟨rfl, List.length_eq_zero_iff.mp ?_⟩
        rw [List.length_eraseIdx_of_lt hlt]
        omega
    have hended : ∀ before a after, q.log ++ [.ended task] = before ++ .dropped a :: after → Superseded discardable before a :=
      drops_snoc h.drops fun _ heq => by cases heq
    have hslot : q.slot = q.waiting.toList := by simp [Queue.slot, hframes]
    have hnumbers := h.numbers
    have haccount := h.account
    have horder := h.order
    rw [hslot] at haccount
    rw [hactive.2]
    unfold Queue.advance
    simp only [Queue.note]
    split
    · rename_i next rest hpending
      rw [hpending] at haccount horder
      have hnext := h.pending_kept (a := next) (by rw [hpending]; exact List.mem_cons_self)
      refine ⟨?_, fun hcontra => absurd hcontra (by simp [Queue.start, Queue.note]), ?_, ?_, ?_, ?_, ?_⟩
      · simp only [Queue.start, Queue.note, Queue.Shape, hframes]
        exact ⟨trivial, trivial⟩
      · simp only [Queue.start, Queue.note, arrivedOf_started, arrivedOf_ended]
        exact hnumbers
      · simp only [Queue.start, Queue.note, arrivedOf_started, arrivedOf_ended, startedOf_started, startedOf_ended,
          droppedOf_started, droppedOf_ended, Queue.slot, hframes, ← Multiset.coe_add, ← haccount]
        rw [show (↑(next :: rest) : Multiset (Arrival Req)) = ↑[next] + ↑rest from rfl]
        simp only [add_assoc, add_comm, add_left_comm]
      · simp only [Queue.start, Queue.note, arrivedOf_started, arrivedOf_ended, startedOf_started, startedOf_ended,
          List.filter_append, horder]
        simp [hnext]
      · simp only [Queue.start, Queue.note, Queue.slot, hframes]
        rw [← hslot]
        exact h.slot
      · exact drops_snoc hended fun _ heq => by cases heq
    · rename_i hpending
      rw [hpending] at haccount horder
      split
      · rename_i next hwaiting
        rw [hwaiting] at haccount
        have hnext := h.slot next (by rw [hslot, hwaiting]; exact List.mem_singleton_self _)
        refine ⟨?_, fun hcontra => absurd hcontra (by simp [Queue.start, Queue.note]), ?_, ?_, ?_, ?_, ?_⟩
        · simp only [Queue.start, Queue.note, Queue.Shape, hframes]
          exact ⟨trivial, trivial⟩
        · simp only [Queue.start, Queue.note, arrivedOf_started, arrivedOf_ended]
          exact hnumbers
        · simp only [Queue.start, Queue.note, arrivedOf_started, arrivedOf_ended, startedOf_started, startedOf_ended,
            droppedOf_started, droppedOf_ended, Queue.slot, hframes, hpending, ← Multiset.coe_add, ← haccount, Option.toList]
          simp only [Multiset.coe_nil, add_zero, zero_add, add_comm, add_left_comm]
        · simp only [Queue.start, Queue.note, arrivedOf_started, arrivedOf_ended, startedOf_started, startedOf_ended,
            List.filter_append, horder, hpending]
          simp [hnext]
        · simp [Queue.start, Queue.note, Queue.slot, hframes]
        · exact drops_snoc hended fun _ heq => by cases heq
      · rename_i hwaiting
        rw [hwaiting] at haccount
        refine ⟨?_, fun _ => ⟨hpending, hwaiting⟩, ?_, ?_, ?_, ?_, hended⟩
        · simp [Queue.Shape, hframes]
        · simpa using hnumbers
        · simpa [Queue.slot, hframes, hpending, hwaiting] using haccount
        · simpa [hpending] using horder
        · simp [Queue.slot, hframes, hwaiting]
  · exact h

theorem Inv.step (h : Inv discardable q) {event : Event Req} (horderly : Orderly discardable q event) :
    Inv discardable (q.step discardable event) := by
  cases event with
  | submit request =>
    refine h.submit request fun hdiscardable old next rest hframes => ?_
    have hnot : (discardable request && q.inDrop) = false := horderly
    rw [hdiscardable, Queue.inDrop, hframes] at hnot
    cases hnot
  | returned => exact h.runReturned
  | threw => exact h.runReturned
  | droppedReturned => exact h.dropReturned
  | settled index rejected => exact h.settle index

/-! ## The theorem -/

/-- The discipline of the queue: what it says of a state, and of everything up to it. -/
structure Disciplined (discardable : Req → Bool) (q : Queue Req) : Prop where
  /-- At most one task runs. -/
  serial : q.tasks.length ≤ 1
  /-- The requests that may not be discarded have run in the order of their arrival; the others of them wait, in that order. -/
  ordered : (arrivedOf q.log).filter (fun a => !discardable a.request) =
    (startedOf q.log).filter (fun a => !discardable a.request) ++ q.pending
  /-- No request is run twice, dropped twice, or run and dropped. -/
  once : (startedOf q.log ++ droppedOf q.log).Nodup
  /-- A request is dropped for a newer one that arrives while it waits. -/
  superseded : ∀ before a after, q.log = before ++ .dropped a :: after → Superseded discardable before a
  /-- While no task runs, nothing waits: every request was run or dropped. -/
  drained : q.tasks = [] → q.pending = [] ∧ q.waiting = none ∧ (startedOf q.log ++ droppedOf q.log).Perm (arrivedOf q.log)

theorem Inv.disciplined (h : Inv discardable q) : Disciplined discardable q := by
  have hshape := h.shape
  have hall : (startedOf q.log ++ droppedOf q.log ++ (q.pending ++ q.slot)).Perm (arrivedOf q.log) := by
    rw [← Multiset.coe_eq_coe, ← h.account]
    simp only [Multiset.coe_add]
  have hnodup : (arrivedOf q.log).Nodup := by
    refine List.Nodup.of_map Arrival.number ?_
    rw [h.numbers]
    exact List.nodup_range
  have htasks : q.tasks.length = if q.active then 1 else 0 := by
    unfold Queue.Shape at hshape
    unfold Queue.tasks
    split at hshape
    · rename_i hframes
      simpa [hframes] using hshape
    · rename_i hframes
      simp [hframes, hshape.1, hshape.2]
    · rename_i hframes
      simp [hframes, hshape.1, hshape.2.1]
    · rename_i hframes
      simp [hframes, hshape.1, hshape.2.1]
    · exact hshape.elim
  refine ⟨?_, h.order, ?_, h.drops, fun hidle => ?_⟩
  · rw [htasks]
    split <;> omega
  · exact (List.nodup_append.mp (hall.nodup_iff.mpr hnodup)).1
  · have hactive : q.active = false := by
      rw [hidle] at htasks
      cases hactive : q.active with
      | false => rfl
      | true =>
        rw [hactive] at htasks
        cases htasks
    obtain ⟨hpending, hwaiting⟩ := h.idle hactive
    obtain ⟨hframes, _⟩ := h.frames_of_idle hactive
    have hslot : q.slot = [] := by simp [Queue.slot, hframes, hwaiting]
    rw [hpending, hslot, List.append_nil, List.append_nil] at hall
    exact ⟨hpending, hwaiting, hall⟩

/-- In every run in which no discardable request arrives from within a call of `drop`, the queue keeps its discipline. -/
theorem queue_disciplined {discardable : Req → Bool} {events : List (Event Req)}
    (horderly : Machine.Guarded (Queue.step discardable) (Orderly discardable) Queue.empty events) :
    ∀ q ∈ Machine.states (Queue.step discardable) Queue.empty events, Disciplined discardable q := by
  have hinv := Machine.invariant_rule (fun q event (h : Inv discardable q) => h.step) inv_empty horderly
  exact fun q hq => (hinv q hq).disciplined

/-! ## A request from within `drop` -/

/-- Requests are discardable or not. -/
def hoverRequest (request : Bool) : Bool := request

/-- A task, two hover requests behind it, and the end of the task. -/
def hoverRun : List (Event Bool) :=
  [.submit false, .returned, .submit true, .submit true, .droppedReturned, .submit false, .settled 0 false, .threw,
    .settled 0 true, .returned, .settled 0 false]

/-- The task and a later one are run, the first hover request is dropped and the second one runs last. -/
theorem queue_disciplined_hover :
    Disciplined hoverRequest (Machine.final (Queue.step hoverRequest) Queue.empty hoverRun) ∧
      startedOf (Machine.final (Queue.step hoverRequest) Queue.empty hoverRun).log = [⟨0, false⟩, ⟨3, false⟩, ⟨2, true⟩] :=
  ⟨queue_disciplined (by decide) _ (Machine.final_mem_states _ _), by decide⟩

/-- The call of `drop` for the first hover request submits another one. -/
def nestedRun : List (Event Bool) :=
  [.submit false, .returned, .submit true, .submit true, .submit true, .droppedReturned, .droppedReturned, .settled 0 false,
    .returned, .settled 0 false]

/-- The first hover request is dropped twice, and the one that `drop` has submitted is neither run nor dropped. -/
theorem queue_disciplined_false :
    ¬ ∀ events : List (Event Bool), ∀ q ∈ Machine.states (Queue.step hoverRequest) Queue.empty events,
      Disciplined hoverRequest q := by
  intro hall
  have hfinal := hall nestedRun _ (Machine.final_mem_states _ _)
  have honce := hfinal.once
  revert honce
  decide

end UniDocs.Psd.RequestQueue
