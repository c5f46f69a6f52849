import UniDocs.Lib.Machine
import UniDocs.Lib.Prog
import UniDocs.Lib.Table

/-!
# The lease of agent runs

The row of `agent_sessions` of one document and the statements of `PgAgentSessionStore` on it, with the runs and resets that any
number of replicas of the local operator serve. A run acquires, opens a session on the history it got, adds messages to it, and
releases with what the session holds; a replica may crash before that. Each statement may fail, or take effect without an answer.
-/

namespace UniDocs.Agent

open Lib

/-! ## Statements -/

/-- A message of a conversation, as JSON text, with the run that added it, which the text does not show. -/
structure Message where
  run : Nat
  text : String
  deriving DecidableEq, Repr

/-- A row of `agent_sessions`. -/
structure SessionRow where
  history : List Message
  runningUntil : Option Int
  deriving DecidableEq, Repr

/-- `acquire`: the row after it, and the history when the lease was free. -/
def acquire (leaseSeconds now : Int) : Option SessionRow → Option SessionRow × Option (List Message)
  | none => (some ⟨[], some (now + leaseSeconds)⟩, some [])
  | some row =>
    if row.runningUntil.all fun u => decide (u < now) then
      (some { row with runningUntil := some (now + leaseSeconds) }, some row.history)
    else (some row, none)

def release (history : List Message) (row : Option SessionRow) : Option SessionRow := row.map fun _ => ⟨history, none⟩

def clear (row : Option SessionRow) : Option SessionRow := row.map fun _ => ⟨[], none⟩

/-! ## Runs -/

/-- Where a run is: between its acquire and its release it has the history it got, the messages of its session once that is
open, and the time until which its lease was given. -/
inductive Phase where
  | running (raw : List Message) (session : Option (List Message)) (leasedUntil : Int)
  | ended
  deriving DecidableEq, Repr

/-- What has happened to the row. -/
inductive Entry where
  | acquired (run : Nat) (raw : List Message)
  | released (run : Nat) (history : List Message)
  | cleared
  deriving DecidableEq, Repr

/-- The clock of the database, the row, the runs so far, and what has happened. -/
structure State where
  now : Int
  row : Option SessionRow
  runs : Table Nat Phase
  trace : List Entry

def State.start (now : Int) : State := ⟨now, none, ∅, []⟩

/-- One step of a run or of a reset, a crash, or the passing of time. -/
inductive Event where
  | acquire (run : Nat) (fault : Fault)
  | open (run : Nat)
  | push (run : Nat) (text : String)
  | release (run : Nat) (fault : Fault)
  | crash (run : Nat)
  | reset (fault : Fault)
  | advance (seconds : Nat)
  deriving DecidableEq, Repr

def State.setRun (s : State) (run : Nat) (phase : Phase) : State := { s with runs := s.runs.insert run phase }

/-- The first statement of a run. -/
def State.acquireRun (leaseSeconds : Int) (s : State) (run : Nat) (fault : Fault) : State :=
  if fault = .failed then s.setRun run .ended
  else
    match acquire leaseSeconds s.now s.row with
    | (_, none) => s.setRun run .ended
    | (row, some raw) =>
      let phase := if fault = .none then .running raw none (s.now + leaseSeconds) else .ended
      { s.setRun run phase with row := row, trace := s.trace ++ [.acquired run raw] }

/-- The statement in the `finally` of a run: what its session holds, or the history as it was. -/
def State.releaseRun (s : State) (run : Nat) (history : List Message) (fault : Fault) : State :=
  if fault = .failed then s.setRun run .ended
  else { s.setRun run .ended with row := release history s.row, trace := s.trace ++ [.released run history] }

/-- One event; one that is not possible changes nothing. -/
def step (leaseSeconds : Int) (s : State) : Event → State
  | .acquire run fault =>
    match s.runs.lookup run with
    | none => s.acquireRun leaseSeconds run fault
    | some _ => s
  | .open run =>
    match s.runs.lookup run with
    | some (.running raw none leasedUntil) => s.setRun run (.running raw (some raw) leasedUntil)
    | _ => s
  | .push run text =>
    match s.runs.lookup run with
    | some (.running raw (some session) leasedUntil) => s.setRun run (.running raw (some (session ++ [⟨run, text⟩])) leasedUntil)
    | _ => s
  | .release run fault =>
    match s.runs.lookup run with
    | some (.running raw session _) => s.releaseRun run (session.getD raw) fault
    | _ => s
  | .crash run =>
    match s.runs.lookup run with
    | some (.running _ _ _) => s.setRun run .ended
    | _ => s
  | .reset fault => if fault = .failed then s else { s with row := clear s.row, trace := s.trace ++ [.cleared] }
  | .advance seconds => { s with now := s.now + seconds }

/-- A run is between its acquire and its release. -/
def State.Live (s : State) (run : Nat) : Prop := ∃ raw session leasedUntil, s.runs.lookup run = some (.running raw session leasedUntil)

/-- Every run ends before its own lease expires: a lease lasts when it is given, and the clock does not pass it under the run. -/
def Punctual (leaseSeconds : Int) (s : State) : Event → Prop
  | .acquire _ _ => 0 ≤ leaseSeconds
  | .advance seconds => s.runs.has (fun _ phase => match phase with
      | .running _ _ leasedUntil => leasedUntil < s.now + seconds
      | .ended => false) = false
  | _ => True

instance (leaseSeconds : Int) (s : State) : (e : Event) → Decidable (Punctual leaseSeconds s e)
  | .acquire _ _ => inferInstanceAs (Decidable (0 ≤ leaseSeconds))
  | .advance _ => inferInstanceAs (Decidable (_ = false))
  | .open _ | .push _ _ | .release _ _ | .crash _ | .reset _ => inferInstanceAs (Decidable True)

/-- A reset has completed after the run acquired. -/
def resetSince (run : Nat) : List Entry → Bool
  | [] => false
  | .acquired i _ :: trace => (i == run && trace.contains .cleared) || resetSince run trace
  | .released _ _ :: trace | .cleared :: trace => resetSince run trace

/-- A run that was reset since it acquired does not release, and none is alive when another run acquires. -/
def Unreset (s : State) : Event → Prop
  | .acquire _ fault => fault = .failed ∨ s.runs.has (fun i phase => phase != .ended && resetSince i s.trace) = false
  | .release run fault => fault = .failed ∨ resetSince run s.trace = false
  | _ => True

instance (s : State) : (e : Event) → Decidable (Unreset s e)
  | .acquire _ fault => inferInstanceAs (Decidable (fault = .failed ∨ _ = false))
  | .release _ fault => inferInstanceAs (Decidable (fault = .failed ∨ _ = false))
  | .open _ | .push _ _ | .crash _ | .reset _ | .advance _ => inferInstanceAs (Decidable True)

end UniDocs.Agent
