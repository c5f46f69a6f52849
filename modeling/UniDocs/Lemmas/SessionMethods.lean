import UniDocs.Lemmas.SessionHistory

/-!
# The methods of a session that is alone

What `load`, the snapshot writers, `create`, `initFromHash`, `apply`, `rollback` and `snapshot` do to settled ports. A
method that throws leaves the history as it was; one that succeeds leaves the session at the last version of the new one.
-/

namespace UniDocs.Session

open Lib

section Methods

variable {Doc Op : Type} {dt : DocumentType Doc Op} {docs : List Doc} {p : Ports Op} {m : SessionMemory Doc}
  {sessionId : String} {pins clean : Bool} {QU : Except SessionError Unit → Ports Op → SessionMemory Doc → Prop}

/-- What a method leaves: the history as it was when it throws, and the same one or one version more when it succeeds. -/
def Outcome {α : Type} (dt : DocumentType Doc Op) (docs : List Doc) (r : Except SessionError α) (p : Ports Op)
    (m : SessionMemory Doc) : Prop :=
  match r with
  | .ok _ => ∃ docs', (docs' = docs ∨ ∃ doc, docs' = docs ++ [doc]) ∧ Settled dt docs' p ∧ Loaded docs' m
  | .error _ => Settled dt docs p ∧ Current docs m

end Methods

end UniDocs.Session
