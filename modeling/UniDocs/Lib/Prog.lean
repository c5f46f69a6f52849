import Mathlib.Logic.Function.Basic

/-!
# Programs over a shared state

A program is a tree of calls: it makes a call, the shared state answers, and the rest of the program runs on the answer.
Between two calls of a program other programs may change the state (the rely), and the environment may let a call fail
or lose its answer. `Safe` says what every run of a program keeps, call by call, in the style of rely and guarantee;
`Triple` packages it with a precondition, a postcondition for the normal end and one for the thrown error, and the rules
below take a program apart along its own text.
-/

namespace Lib

universe u v

/-- What the environment does to one call: the call takes effect and its answer arrives; it fails without effect; or it
takes effect and the caller is told that it failed. -/
inductive Fault where
  | none
  | failed
  | lost
  deriving DecidableEq, Repr

/-- A program that ends in a value or a thrown error, after any number of calls. -/
inductive Prog (Call : Type → Type u) (ε α : Type) : Type (max 1 u) where
  | ret (r : Except ε α) : Prog Call ε α
  | call {β : Type} (c : Call β) (k : β → Prog Call ε α) : Prog Call ε α

namespace Prog

variable {Call : Type → Type u} {ε α β : Type}

/-- Run a program, then the program its value selects; a thrown error ends the run. -/
def bind : Prog Call ε α → (α → Prog Call ε β) → Prog Call ε β
  | .ret (.ok a), g => g a
  | .ret (.error e), _ => .ret (.error e)
  | .call c k, g => .call c fun b => (k b).bind g

/-- Run a program; a thrown error is handed to the handler. -/
def tryCatch : Prog Call ε α → (ε → Prog Call ε α) → Prog Call ε α
  | .ret (.ok a), _ => .ret (.ok a)
  | .ret (.error e), h => h e
  | .call c k, h => .call c fun b => (k b).tryCatch h

/-- Run a program, then the cleanup, whether the program ended in a value or in an error. -/
def tryFinally : Prog Call ε α → Prog Call ε Unit → Prog Call ε α
  | .ret r, q => q.bind fun _ => .ret r
  | .call c k, q => .call c fun b => (k b).tryFinally q

instance : Monad (Prog Call ε) where
  pure a := .ret (.ok a)
  bind := Prog.bind

instance : MonadExceptOf ε (Prog Call ε) where
  throw e := .ret (.error e)
  tryCatch := Prog.tryCatch

/-- One call, whose answer is the value. -/
def perform (c : Call β) : Prog Call ε β := .call c fun b => .ret (.ok b)

/-- One call that may answer with an error, which is then thrown. -/
def attempt (c : Call (Except ε β)) : Prog Call ε β := .call c fun r => .ret r

/-- Throw unless the check passes. -/
def require (b : Bool) (e : ε) : Prog Call ε Unit := if b then .ret (.ok ()) else .ret (.error e)

end Prog

/-- A condition on a call, what the environment does to it, and the state it meets. -/
abbrev Guard (Call : Type → Type u) (σ : Type v) := ∀ β : Type, Call β → Fault → σ → Prop

/-- What a program runs against and what is promised about it: how a call changes the state (`none`: the call has to
wait), which calls are in scope, the invariant, what others may do between two calls, and what a call itself may do. -/
structure Spec (Call : Type → Type u) (σ : Type v) where
  exec : ∀ {β : Type}, Call β → Fault → σ → Option (σ × β)
  allowed : Guard Call σ
  inv : σ → Prop
  rely : σ → σ → Prop
  guar : σ → σ → Prop

section Safe

variable {Call : Type → Type u} {σ : Type v} {ε α β : Type}

/-- Every run of the program from the state keeps the invariant and the guarantee at each call, whatever the environment
does within the rely, and ends in a result that meets the postcondition. -/
def Safe (S : Spec Call σ) (Q : Except ε α → σ → Prop) : Prog Call ε α → σ → Prop
  | .ret r, s => S.inv s → Q r s
  | .call c k, s => ∀ f s' b, S.allowed _ c f s → S.exec c f s = some (s', b) →
      S.inv s' ∧ S.guar s s' ∧ ∀ s'', S.rely s' s'' → S.inv s'' → Safe S Q (k b) s''

variable {S : Spec Call σ}

/-- A weaker postcondition. -/
theorem Safe.mono {Q Q' : Except ε α → σ → Prop} (h : ∀ r s, S.inv s → Q r s → Q' r s) :
    ∀ {p : Prog Call ε α} {s : σ}, Safe S Q p s → Safe S Q' p s := by
  intro p
  induction p with
  | ret r => exact fun hs hi => h r _ hi (hs hi)
  | call c k ih =>
    intro s hs f s' b ha he
    obtain ⟨h1, h2, h3⟩ := hs f s' b ha he
    exact ⟨h1, h2, fun s'' hr hi => ih b (h3 s'' hr hi)⟩

/-- A program followed by another: the second starts in the states the first may end in. -/
theorem Safe.bind {Q₁ : Except ε α → σ → Prop} {Q : Except ε β → σ → Prop}
    {g : α → Prog Call ε β} (hok : ∀ a s, S.inv s → Q₁ (.ok a) s → Safe S Q (g a) s)
    (herr : ∀ e s, S.inv s → Q₁ (.error e) s → Q (.error e) s) :
    ∀ {p : Prog Call ε α} {s : σ}, S.inv s → Safe S Q₁ p s → Safe S Q (p >>= g) s := by
  intro p
  induction p with
  | ret r =>
    intro s hi hs
    cases r with
    | ok a => exact hok a s hi (hs hi)
    | error e => exact fun hi' => herr e s hi' (hs hi')
  | call c k ih =>
    intro s _ hs f s' b ha he
    obtain ⟨h1, h2, h3⟩ := hs f s' b ha he
    exact ⟨h1, h2, fun s'' hr hi => ih b hi (h3 s'' hr hi)⟩

/-- A program with a handler for its error. -/
theorem Safe.tryCatch {Q₁ Q : Except ε α → σ → Prop} {h : ε → Prog Call ε α}
    (hok : ∀ a s, S.inv s → Q₁ (.ok a) s → Q (.ok a) s)
    (herr : ∀ e s, S.inv s → Q₁ (.error e) s → Safe S Q (h e) s) :
    ∀ {p : Prog Call ε α} {s : σ}, S.inv s → Safe S Q₁ p s → Safe S Q (p.tryCatch h) s := by
  intro p
  induction p with
  | ret r =>
    intro s hi hs
    cases r with
    | ok a => exact fun hi' => hok a s hi' (hs hi')
    | error e => exact herr e s hi (hs hi)
  | call c k ih =>
    intro s _ hs f s' b ha he
    obtain ⟨h1, h2, h3⟩ := hs f s' b ha he
    exact ⟨h1, h2, fun s'' hr hi => ih b hi (h3 s'' hr hi)⟩

/-- A program with a cleanup that runs in either case. -/
theorem Safe.tryFinally {Q₁ Q : Except ε α → σ → Prop} {q : Prog Call ε Unit}
    (hq : ∀ r s, S.inv s → Q₁ r s → Safe S (fun r' s' => match r' with
      | .ok _ => Q r s'
      | .error e => Q (.error e) s') q s) :
    ∀ {p : Prog Call ε α} {s : σ}, S.inv s → Safe S Q₁ p s → Safe S Q (p.tryFinally q) s := by
  intro p
  induction p with
  | ret r =>
    intro s hi hs
    have hend := hq r s hi (hs hi)
    refine Safe.bind ?_ ?_ hi hend
    · exact fun _ _ _ h _ => h
    · exact fun _ _ _ h => h
  | call c k ih =>
    intro s _ hs f s' b ha he
    obtain ⟨h1, h2, h3⟩ := hs f s' b ha he
    exact ⟨h1, h2, fun s'' hr hi => ih b hi (h3 s'' hr hi)⟩

/-- A fact that neither the program's calls nor the others can take away is carried along. -/
theorem Safe.frame {Q : Except ε α → σ → Prop} {F : σ → Prop}
    (hg : ∀ s s', S.guar s s' → F s → F s') (hr : ∀ s s', S.rely s s' → F s → F s') :
    ∀ {p : Prog Call ε α} {s : σ}, F s → Safe S Q p s → Safe S (fun r s' => F s' ∧ Q r s') p s := by
  intro p
  induction p with
  | ret r => exact fun hf hs hi => ⟨hf, hs hi⟩
  | call c k ih =>
    intro s hf hs f s' b ha he
    obtain ⟨h1, h2, h3⟩ := hs f s' b ha he
    exact ⟨h1, h2, fun s'' hrel hi => ih b (hr s' s'' hrel (hg s s' h2 hf)) (h3 s'' hrel hi)⟩

/-- A fact that neither the program's calls nor the others can take away from a state of the invariant is carried along. -/
theorem Safe.carry {Q : Except ε α → σ → Prop} {F : σ → Prop}
    (hg : ∀ s s', S.inv s → S.guar s s' → F s → F s') (hr : ∀ s s', S.inv s → S.rely s s' → F s → F s') :
    ∀ {p : Prog Call ε α} {s : σ}, S.inv s → F s → Safe S Q p s → Safe S (fun r s' => F s' ∧ Q r s') p s := by
  intro p
  induction p with
  | ret r => exact fun _ hf hs hi => ⟨hf, hs hi⟩
  | call c k ih =>
    intro s hi hf hs f s' b ha he
    obtain ⟨h1, h2, h3⟩ := hs f s' b ha he
    exact ⟨h1, h2, fun s'' hrel hi'' => ih b hi'' (hr s' s'' h1 hrel (hg s s' hi h2 hf)) (h3 s'' hrel hi'')⟩

theorem Safe.restrict {A : Guard Call σ} {Q : Except ε α → σ → Prop}
    (hA : ∀ β c f s, A β c f s → S.allowed β c f s) :
    ∀ {p : Prog Call ε α} {s : σ}, Safe S Q p s → Safe { S with allowed := A } Q p s := by
  intro p
  induction p with
  | ret r => exact fun hs => hs
  | call c k ih =>
    intro s hs f s' b ha he
    obtain ⟨h1, h2, h3⟩ := hs f s' b (hA _ c f s ha) he
    exact ⟨h1, h2, fun s'' hr hi => ih b (h3 s'' hr hi)⟩

end Safe

/-! ## Triples -/

section Triple

variable {Call : Type → Type u} {σ : Type v} {ε α β : Type}

/-- An assertion that what others may do keeps. -/
def Stable (S : Spec Call σ) (P : σ → Prop) : Prop :=
  ∀ s s', S.inv s → S.inv s' → S.rely s s' → P s → P s'

variable {S : Spec Call σ}

theorem Stable.and {P P' : σ → Prop} (h : Stable S P) (h' : Stable S P') :
    Stable S fun s => P s ∧ P' s :=
  fun s s' hi hi' hr hp => ⟨h s s' hi hi' hr hp.1, h' s s' hi hi' hr hp.2⟩

theorem Stable.const (p : Prop) : Stable S fun _ => p :=
  fun _ _ _ _ _ hp => hp

theorem Stable.imp {p : Prop} {P : σ → Prop} (h : p → Stable S P) : Stable S fun s => p → P s :=
  fun s s' hi hi' hr hp hq => h hq s s' hi hi' hr (hp hq)

theorem Stable.all {κ : Sort*} {P : κ → σ → Prop} (h : ∀ k, Stable S (P k)) : Stable S fun s => ∀ k, P k s :=
  fun s s' hi hi' hr hp k => h k s s' hi hi' hr (hp k)

theorem Stable.ex {κ : Sort*} {P : κ → σ → Prop} (h : ∀ k, Stable S (P k)) : Stable S fun s => ∃ k, P k s := by
  rintro s s' hi hi' hr ⟨k, hp⟩
  exact ⟨k, h k s s' hi hi' hr hp⟩

/-- From every state of the precondition the program is safe, and ends in the postcondition of its value or of its
error. -/
def Triple (S : Spec Call σ) (P : σ → Prop) (p : Prog Call ε α) (Q : α → σ → Prop) (E : ε → σ → Prop) : Prop :=
  ∀ s, S.inv s → P s → Safe S (fun r s' => match r with
    | .ok a => Q a s'
    | .error e => E e s') p s

variable {S : Spec Call σ} {P P' : σ → Prop} {Q Q' : α → σ → Prop} {E E' : ε → σ → Prop}

theorem Triple.pure {a : α} (h : ∀ s, S.inv s → P s → Q a s) : Triple S P (Pure.pure a : Prog Call ε α) Q E :=
  fun s _ hp hi => h s hi hp

theorem Triple.throw {e : ε} (h : ∀ s, S.inv s → P s → E e s) :
    Triple S P (MonadExcept.throw e : Prog Call ε α) Q E :=
  fun s _ hp hi => h s hi hp

variable {p : Prog Call ε α}

theorem Triple.bind {g : α → Prog Call ε β} {R : β → σ → Prop}
    (hp : Triple S P p Q E) (hg : ∀ a, Triple S (Q a) (g a) R E) : Triple S P (p >>= g) R E :=
  fun s hi h => Safe.bind (fun a t ht hq => hg a t ht hq) (fun _ _ _ he => he) hi (hp s hi h)

theorem Triple.conseq (h : Triple S P p Q E) (hP : ∀ s, S.inv s → P' s → P s)
    (hQ : ∀ a s, S.inv s → Q a s → Q' a s) (hE : ∀ e s, S.inv s → E e s → E' e s) : Triple S P' p Q' E' := by
  intro s hi hp
  refine Safe.mono ?_ (h s hi (hP s hi hp))
  intro r t ht hr
  cases r with
  | ok a => exact hQ a t ht hr
  | error e => exact hE e t ht hr

/-- A stronger precondition. -/
theorem Triple.pre (h : Triple S P p Q E) (hP : ∀ s, S.inv s → P' s → P s) : Triple S P' p Q E :=
  h.conseq hP (fun _ _ _ hq => hq) (fun _ _ _ he => he)

/-- A weaker postcondition. -/
theorem Triple.post (h : Triple S P p Q E) (hQ : ∀ a s, S.inv s → Q a s → Q' a s) :
    Triple S P p Q' E :=
  h.conseq (fun _ _ hp => hp) hQ (fun _ _ _ he => he)

/-- The postcondition is not used. -/
theorem Triple.forget (h : Triple S P p Q E) : Triple S P p (fun _ _ => True) E :=
  h.post fun _ _ _ _ => trivial

/-- A fact that does not depend on the state moves out of the precondition. -/
theorem Triple.of_pure {φ : Prop} (h : φ → Triple S P p Q E) :
    Triple S (fun s => φ ∧ P s) p Q E :=
  fun s hi hp => h hp.1 s hi hp.2

/-- The frame rule for facts that nothing takes away. -/
theorem Triple.frame {F : σ → Prop} (hg : ∀ s s', S.guar s s' → F s → F s')
    (hr : ∀ s s', S.rely s s' → F s → F s') (h : Triple S P p Q E) :
    Triple S (fun s => F s ∧ P s) p (fun a s => F s ∧ Q a s) (fun e s => F s ∧ E e s) := by
  intro s hi hp
  refine Safe.mono ?_ (Safe.frame hg hr hp.1 (h s hi hp.2))
  intro r t _ hrt
  cases r <;> exact hrt

/-- The frame rule for facts that nothing takes away from a state of the invariant. -/
theorem Triple.carry {F : σ → Prop} (hg : ∀ s s', S.inv s → S.guar s s' → F s → F s')
    (hr : ∀ s s', S.inv s → S.rely s s' → F s → F s') (h : Triple S P p Q E) :
    Triple S (fun s => F s ∧ P s) p (fun a s => F s ∧ Q a s) (fun e s => F s ∧ E e s) := by
  intro s hi hp
  refine Safe.mono ?_ (Safe.carry hg hr hi hp.1 (h s hi hp.2))
  intro r t _ hrt
  cases r <;> exact hrt

theorem Triple.tryCatch {h : ε → Prog Call ε α} {F : ε → σ → Prop}
    (hp : Triple S P p Q F) (hh : ∀ e, Triple S (F e) (h e) Q E) : Triple S P (p.tryCatch h) Q E := by
  intro s hi hP
  have hbody := hp s hi hP
  refine Safe.tryCatch ?_ ?_ hi hbody
  · exact fun _ _ _ hq => hq
  · exact fun e t ht he => hh e t ht he

/-- A program with a cleanup: the cleanup takes both ends of the program to the postconditions. -/
theorem Triple.tryFinally {q : Prog Call ε Unit} {Q₁ : α → σ → Prop} {F : ε → σ → Prop}
    (hp : Triple S P p Q₁ F) (hok : ∀ a, Triple S (Q₁ a) q (fun _ => Q a) E)
    (herr : ∀ e, Triple S (F e) q (fun _ => E e) E) : Triple S P (p.tryFinally q) Q E := by
  intro s hi hP
  refine Safe.tryFinally ?_ hi (hp s hi hP)
  intro r t ht hr
  cases r with
  | ok a => exact Safe.mono (fun r' _ _ h => by cases r' <;> exact h) (hok a t ht hr)
  | error e => exact Safe.mono (fun r' _ _ h => by cases r' <;> exact h) (herr e t ht hr)

/-- One call: what it does is shown once, and its postcondition is an assertion others keep. -/
theorem Triple.perform {c : Call α} (hQ : ∀ b, Stable S (Q b))
    (h : ∀ f s s' b, S.inv s → P s → S.allowed _ c f s → S.exec c f s = some (s', b) →
      S.inv s' ∧ S.guar s s' ∧ Q b s') : Triple S P (Prog.perform c : Prog Call ε α) Q E := by
  intro s hi hp f s' b ha he
  obtain ⟨h1, h2, h3⟩ := h f s s' b hi hp ha he
  exact ⟨h1, h2, fun s'' hr hi'' _ => hQ b s' s'' h1 hi'' hr h3⟩

theorem Triple.attempt {c : Call (Except ε α)} (hQ : ∀ b, Stable S (Q b)) (hE : ∀ e, Stable S (E e))
    (h : ∀ f s s' r, S.inv s → P s → S.allowed _ c f s → S.exec c f s = some (s', r) →
      S.inv s' ∧ S.guar s s' ∧ match r with
        | .ok b => Q b s'
        | .error e => E e s') : Triple S P (Prog.attempt c) Q E := by
  intro s hi hp f s' r ha he
  obtain ⟨h1, h2, h3⟩ := h f s s' r hi hp ha he
  refine ⟨h1, h2, fun s'' hr hi'' _ => ?_⟩
  cases r with
  | ok b => exact hQ b s' s'' h1 hi'' hr h3
  | error e => exact hE e s' s'' h1 hi'' hr h3

theorem Triple.require {b : Bool} {e : ε} {Q : Unit → σ → Prop} (hok : ∀ s, S.inv s → P s → b = true → Q () s)
    (herr : ∀ s, S.inv s → P s → b = false → E e s) : Triple S P (Prog.require b e : Prog Call ε Unit) Q E := by
  cases b with
  | true => exact fun s _ hp hi => hok s hi hp rfl
  | false => exact fun s _ hp hi => herr s hi hp rfl

end Triple

end Lib
