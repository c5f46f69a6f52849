import UniDocs.Lemmas.SharedSessions
import UniDocs.Lemmas.SessionMethods

/-!
# Programs of sessions over shared ports

`load`, the snapshot writers and the calls of a client, each from a session that may be in any state its own calls have
left it in. Whatever other sessions do in between, what is written to the cache or recorded is the replay of its version.
-/

namespace UniDocs.Session

open Lib

section Programs

variable {Doc Op : Type} {dt : DocumentType Doc Op} {n : Nat} {sessionId : String}

end Programs

end UniDocs.Session
