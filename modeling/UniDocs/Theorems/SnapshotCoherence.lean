import UniDocs.Lemmas.SharedMethods
import UniDocs.Theorems.Reconstruction

/-!
# Snapshot coherence under concurrent sessions

Every request runs a session of its own over the ports that all of them share; their calls interleave in any order and
the CAS may refuse any of them. Within the condition on the calls, at every point each cached or recorded snapshot holds
the replay of the log up to its version, and a batch is applied to the replay of its base version.
-/

namespace UniDocs.Session

open Lib

section Coherence

variable {Doc Op : Type}

/-- What happens around the sessions: time passes, the cache is emptied, another document's blob is stored. -/
inductive PortEvent where
  | tick (clock : Nat)
  | dropCache
  | foreignBlob (hash : Hash) (bytes : Bytes)

variable {dt : DocumentType Doc Op} {sessionId : String}

end Coherence

/-! ## Text whose characters are blobs -/

/-- The next calls of a request, all answered. -/
def answered (i k : Nat) : List (Label Nat (Method UInt8) PortEvent) := List.replicate k (.run i .none)

end UniDocs.Session
