import UniDocs.Lib.Machine

/-!
# The request queue of the render worker

`createRequestQueue`: one request runs at a time, the others wait in the order of their arrival, and of the discardable ones at
most one waits. The queue calls `run` and `drop`, and requests arrive while such a call has not returned as well as between
calls. Requests are told apart by the numbers of their arrivals, which no part of the queue reads.
-/

namespace UniDocs.Psd.RequestQueue

open Lib

variable {Req : Type}

/-- A request with the number of its arrival. -/
structure Arrival (Req : Type) where
  number : Nat
  request : Req
  deriving DecidableEq, Repr

/-- A call of a hook that has not returned: `run` of a request, or `drop` of one that the next one replaces. -/
inductive Frame (Req : Type) where
  | running (task : Arrival Req)
  | dropping (old next : Arrival Req)
  deriving DecidableEq, Repr

/-- What has happened to the requests. -/
inductive Entry (Req : Type) where
  | arrived (arrival : Arrival Req)
  | started (arrival : Arrival Req)
  | ended (arrival : Arrival Req)
  | dropped (arrival : Arrival Req)
  deriving DecidableEq, Repr

/-- The queue: its three variables, the calls of hooks that have not returned, the innermost first, the tasks whose promise
has not settled, and what has happened. No part of the queue reads `arrivals` and `log`. -/
structure Queue (Req : Type) where
  pending : List (Arrival Req)
  waiting : Option (Arrival Req)
  active : Bool
  frames : List (Frame Req)
  results : List (Arrival Req)
  arrivals : Nat
  log : List (Entry Req)
  deriving DecidableEq, Repr

/-- What can happen: a request arrives, a call of `run` returns its promise or throws, a call of `drop` returns, and the
callback runs that ends a task whose promise was fulfilled or rejected. -/
inductive Event (Req : Type) where
  | submit (request : Req)
  | returned
  | threw
  | droppedReturned
  | settled (index : Nat) (rejected : Bool)

namespace Queue

/-- `createRequestQueue`. -/
def empty : Queue Req := ⟨[], none, false, [], [], 0, []⟩

/-- Something has happened. -/
def note (q : Queue Req) (entry : Entry Req) : Queue Req := { q with log := q.log ++ [entry] }

/-- `start`, up to the call of `run`. -/
def start (q : Queue Req) (task : Arrival Req) : Queue Req :=
  { q with active := true, frames := .running task :: q.frames }.note (.started task)

def advance (q : Queue Req) : Queue Req :=
  match q.pending with
  | next :: rest => { q with pending := rest }.start next
  | [] =>
    match q.waiting with
    | some task => { q with waiting := none }.start task
    | none => q

/-- `submit`, up to the call of a hook. -/
def submit (discardable : Req → Bool) (q : Queue Req) (request : Req) : Queue Req :=
  let arrival : Arrival Req := ⟨q.arrivals, request⟩
  let q := { q with arrivals := q.arrivals + 1 }.note (.arrived arrival)
  if discardable request then
    if !q.active then q.start arrival
    else
      match q.waiting with
      | some old => { q with frames := .dropping old arrival :: q.frames }.note (.dropped old)
      | none => { q with waiting := some arrival }
  else if !q.active then q.start arrival
  else { q with pending := q.pending ++ [arrival] }

/-- `run` has returned a promise, or has thrown, which makes a rejected one. -/
def runReturned (q : Queue Req) : Queue Req :=
  match q.frames with
  | .running task :: rest => { q with frames := rest, results := q.results ++ [task] }
  | _ => q

/-- `drop` has returned. -/
def dropReturned (q : Queue Req) : Queue Req :=
  match q.frames with
  | .dropping _ next :: rest => { q with frames := rest, waiting := some next }
  | _ => q

/-- The callback at the end of a task; callbacks run while no call is being made. -/
def settle (q : Queue Req) (index : Nat) : Queue Req :=
  match q.frames, q.results[index]? with
  | [], some task => ({ q with results := q.results.eraseIdx index, active := false }.note (.ended task)).advance
  | _, _ => q

/-- One step; an event that does not apply changes nothing. -/
def step (discardable : Req → Bool) (q : Queue Req) : Event Req → Queue Req
  | .submit request => q.submit discardable request
  | .returned => q.runReturned
  | .threw => q.runReturned
  | .droppedReturned => q.dropReturned
  | .settled index _ => q.settle index

end Queue

end UniDocs.Psd.RequestQueue
