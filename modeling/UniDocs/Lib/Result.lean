import Mathlib.Tactic.SplitIfs

/-!
# Computations that may fail

How a computation with `throw` is taken apart: where a sequence of steps returns, each of them has returned, and no check on
the way has thrown.
-/

namespace Lib

theorem bind_ok_iff {ε α β : Type} {x : Except ε α} {f : α → Except ε β} {b : β} :
    (x >>= f) = .ok b ↔ ∃ a, x = .ok a ∧ f a = .ok b := by
  cases x with
  | error e =>
    constructor
    · intro h
      cases h
    · rintro ⟨a, ha, _⟩
      cases ha
  | ok a =>
    constructor
    · intro h
      exact ⟨a, rfl, h⟩
    · rintro ⟨a', ha, h⟩
      cases ha
      exact h

/-- A chain of steps fails in the first one or in the rest. -/
theorem bind_error_iff {ε α β : Type} {x : Except ε α} {f : α → Except ε β} {e : ε} :
    (x >>= f) = .error e ↔ x = .error e ∨ ∃ a, x = .ok a ∧ f a = .error e := by
  cases x with
  | error e' =>
    constructor
    · intro h
      cases h
      exact .inl rfl
    · rintro (h | ⟨a, ha, _⟩)
      · cases h
        rfl
      · cases ha
  | ok a =>
    constructor
    · intro h
      exact .inr ⟨a, rfl, h⟩
    · rintro (h | ⟨a', ha, h⟩)
      · cases h
      · cases ha
        exact h

theorem pure_ok_iff {ε α : Type} {x y : α} : (pure x : Except ε α) = .ok y ↔ y = x := by
  simp [pure, Except.pure, eq_comm]

theorem throw_bind {ε α β : Type} {e : ε} {f : α → Except ε β} : ((throw e : Except ε α) >>= f) = throw e := rfl

theorem check_ok_iff {ε α : Type} {p : Prop} [Decidable p] {e : ε} {rest : Except ε α} {a : α} :
    (if p then (throw e : Except ε α) else rest) = .ok a ↔ ¬ p ∧ rest = .ok a := by
  split_ifs with hp
  · constructor
    · intro h
      cases h
    · rintro ⟨hnot, _⟩
      exact absurd hp hnot
  · exact ⟨fun h => ⟨hp, h⟩, fun h => h.2⟩

/-- What a computation that may fail guarantees when it returns, and what its failure shows. -/
def Outcome {ε β : Type} (result : Except ε β) (post : β → Prop) (failure : Prop) : Prop :=
  match result with
  | .ok value => post value
  | .error _ => failure

theorem Outcome.bind {ε β γ : Type} {result : Except ε β} {next : β → Except ε γ} {post : β → Prop} {post' : γ → Prop}
    {failure failure' : Prop} (h : Outcome result post failure) (hfail : failure → failure')
    (hnext : ∀ value, post value → Outcome (next value) post' failure') : Outcome (result >>= next) post' failure' := by
  cases result with
  | ok value => exact hnext value h
  | error e => exact hfail h

theorem Outcome.imp {ε β : Type} {result : Except ε β} {post post' : β → Prop} {failure failure' : Prop}
    (h : Outcome result post failure) (hpost : ∀ value, post value → post' value) (hfail : failure → failure') :
    Outcome result post' failure' := by
  cases result with
  | ok value => exact hpost value h
  | error e => exact hfail h

/-- A result that can be read off. -/
theorem exists_ok {ε α β : Type} {x : Except ε α} (f : α → β) {b : β} (h : x.toOption.map f = some b) :
    ∃ a, x = .ok a ∧ f a = b := by
  cases x with
  | error e => cases h
  | ok a => exact ⟨a, rfl, Option.some.inj h⟩

theorem ok_of_toOption {ε α : Type} {x : Except ε α} {a : α} (h : x.toOption = some a) : x = .ok a := by
  cases x with
  | error e => cases h
  | ok b => exact congrArg _ (Option.some.inj h)

/-- A computation that throws. -/
theorem exists_error {ε α : Type} {x : Except ε α} (h : x.toOption.isNone = true) : ∃ e, x = .error e := by
  cases x with
  | error e => exact ⟨e, rfl⟩
  | ok a => cases h

end Lib
