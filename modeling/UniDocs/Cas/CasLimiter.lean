import UniDocs.Lib.JsNumber
import UniDocs.Lib.Machine

/-!
# The limiter of CAS requests

`CasLimiter`: at most a number of tasks are in flight. A call of `run` takes a permit or waits in a queue; at the end of its
task the permit goes to the first call that waits, or back. Between taking a permit and calling its function a call waits for
a microtask; microtasks run in the order in which they were scheduled. Calls are told apart by their numbers, which no part of
the limiter reads.
-/

namespace UniDocs.Cas

open Lib

/-! ## The class -/

/-- `CasLimiter`: `#limit`, `#active` and the calls behind `#waiters`. -/
structure CasLimiter where
  limit : Nat
  active : Int
  waiters : List Nat
  limit_pos : 0 < limit
  deriving DecidableEq, Repr

namespace CasLimiter

/-- `Number.isSafeInteger(limit) && limit >= 1`, for a number that is finite. -/
def ValidLimit (limit : ℚ) : Prop := limit.den = 1 ∧ limit.num ≤ JsNumber.maxSafeInteger ∧ 1 ≤ limit.num

instance (limit : ℚ) : Decidable (ValidLimit limit) := inferInstanceAs (Decidable (_ ∧ _ ∧ _))

/-- `constructor`. -/
def create (limit : ℚ) : Except String CasLimiter :=
  if h : ValidLimit limit then .ok ⟨limit.num.toNat, 0, [], by have := h.2.2; omega⟩
  else .error "casConcurrency must be a positive safe integer"

def inFlight (limiter : CasLimiter) : Int := limiter.active

/-- `#acquire`, and whether the promise it returns is resolved. -/
def acquire (limiter : CasLimiter) (call : Nat) : CasLimiter × Bool :=
  if limiter.active < limiter.limit ∧ limiter.waiters.length = 0 then ({ limiter with active := limiter.active + 1 }, true)
  else ({ limiter with waiters := limiter.waiters ++ [call] }, false)

/-- `#release`, and the waiting call whose promise it resolves. -/
def release (limiter : CasLimiter) : CasLimiter × Option Nat :=
  match limiter.waiters with
  | next :: rest => ({ limiter with waiters := rest }, some next)
  | [] => ({ limiter with active := limiter.active - 1 }, none)

end CasLimiter

/-! ## Calls of `run` -/

/-- How a task ends. -/
inductive TaskOutcome where
  | resolved
  | threw
  deriving DecidableEq, Repr

/-- The calls of `run` on one limiter: how many there have been, the ones whose promise of a permit is resolved and whose
microtask has not run, the ones whose task is in flight, and what has happened: the tasks in the order of their start, and
the ends with what the call passes on. -/
structure Calls where
  limiter : CasLimiter
  count : Nat
  microtasks : List Nat
  tasks : List Nat
  started : List Nat
  ended : List (Nat × TaskOutcome)
  deriving DecidableEq, Repr

/-- What can happen: `run` is called, the first microtask runs, and a task that is in flight ends. A function that throws
before it returns a promise ends its task right after its start. -/
inductive CallEvent where
  | run
  | microtask
  | ended (index : Nat) (outcome : TaskOutcome)
  deriving DecidableEq, Repr

namespace Calls

/-- A new limiter. -/
def start (limiter : CasLimiter) : Calls := ⟨limiter, 0, [], [], [], []⟩

/-- `run`, up to the first `await`. -/
def run (s : Calls) : Calls :=
  let (limiter, resolved) := s.limiter.acquire s.count
  { s with limiter, count := s.count + 1, microtasks := if resolved then s.microtasks ++ [s.count] else s.microtasks }

/-- `run` after the first `await`: the function is called. -/
def resume (s : Calls) : Calls :=
  match s.microtasks with
  | call :: rest => { s with microtasks := rest, tasks := s.tasks ++ [call], started := s.started ++ [call] }
  | [] => s

/-- The end of `run`: the permit is released whether the task was resolved or has thrown. -/
def finish (s : Calls) (index : Nat) (outcome : TaskOutcome) : Calls :=
  match s.tasks[index]? with
  | some call =>
    let (limiter, next) := s.limiter.release
    { s with
      limiter
      microtasks := s.microtasks ++ next.toList
      tasks := s.tasks.eraseIdx index
      ended := s.ended ++ [(call, outcome)] }
  | none => s

/-- One step; an event that does not apply changes nothing. -/
def step (s : Calls) : CallEvent → Calls
  | .run => s.run
  | .microtask => s.resume
  | .ended index outcome => s.finish index outcome

end Calls

end UniDocs.Cas
