import Mathlib.Data.List.Basic

/-!
# Runs of a state machine

A machine takes every event in every state; an event that does not apply leaves the state as it is. A run is the list of its
events. What holds in every state of a run is shown from what a step keeps, where the steps may be subject to a guard on the
state before them.
-/

namespace Lib.Machine

variable {σ ε : Type} (step : σ → ε → σ)

/-- The states of a run, the first one included. -/
def states : σ → List ε → List σ
  | s, [] => [s]
  | s, e :: es => s :: states (step s e) es

/-- The state at the end of a run. -/
def final (s : σ) (es : List ε) : σ := es.foldl step s

/-- Every event of the run meets the guard in the state it finds. -/
def Guarded (guard : σ → ε → Prop) : σ → List ε → Prop
  | _, [] => True
  | s, e :: es => guard s e ∧ Guarded guard (step s e) es

instance decidableGuarded (guard : σ → ε → Prop) [∀ s e, Decidable (guard s e)] :
    (s : σ) → (es : List ε) → Decidable (Guarded step guard s es)
  | _, [] => inferInstanceAs (Decidable True)
  | s, e :: es => by
    have := decidableGuarded guard (step s e) es
    exact inferInstanceAs (Decidable (_ ∧ _))

variable {step}

theorem Guarded.and {guard guard' : σ → ε → Prop} {s : σ} {es : List ε} (h : Guarded step guard s es) (h' : Guarded step guard' s es) :
    Guarded step (fun s e => guard s e ∧ guard' s e) s es := by
  induction es generalizing s with
  | nil => exact trivial
  | cons e es ih => exact ⟨⟨h.1, h'.1⟩, ih h.2 h'.2⟩

/-- What holds at the start and is kept by every guarded step holds in every state of a guarded run. -/
theorem invariant_rule {guard : σ → ε → Prop} {inv : σ → Prop} (hstep : ∀ s e, inv s → guard s e → inv (step s e))
    {s : σ} {es : List ε} (hstart : inv s) (hguard : Guarded step guard s es) : ∀ t ∈ states step s es, inv t := by
  induction es generalizing s with
  | nil =>
    intro t ht
    rw [states, List.mem_singleton] at ht
    rw [ht]
    exact hstart
  | cons e es ih =>
    intro t ht
    obtain ⟨hfirst, hrest⟩ := hguard
    rcases List.mem_cons.mp ht with rfl | ht
    · exact hstart
    · exact ih (hstep s e hstart hfirst) hrest t ht

/-- What holds at the start and is kept by every step holds in every state of every run. -/
theorem always_rule {inv : σ → Prop} (hstep : ∀ s e, inv s → inv (step s e)) {s : σ} {es : List ε} (hstart : inv s) :
    ∀ t ∈ states step s es, inv t := by
  induction es generalizing s with
  | nil =>
    intro t ht
    rw [states, List.mem_singleton] at ht
    rw [ht]
    exact hstart
  | cons e es ih =>
    intro t ht
    rcases List.mem_cons.mp ht with rfl | ht
    · exact hstart
    · exact ih (hstep s e hstart) t ht

theorem start_mem_states (s : σ) (es : List ε) : s ∈ states step s es := by
  cases es with
  | nil => exact List.mem_singleton.mpr rfl
  | cons e es => exact List.mem_cons_self

/-- When a good state and the one after it show that the step meets the guard, a run through good states meets it. -/
theorem guarded_rule {guard : σ → ε → Prop} {inv good : σ → Prop} (hstep : ∀ s e, inv s → inv (step s e))
    (hguard : ∀ s e, inv s → good s → good (step s e) → guard s e) {s : σ} {es : List ε} (hstart : inv s)
    (hgood : ∀ t ∈ states step s es, good t) : Guarded step guard s es := by
  induction es generalizing s with
  | nil => exact trivial
  | cons e es ih =>
    have hnext := hgood _ (List.mem_cons_of_mem _ (start_mem_states _ es))
    exact ⟨hguard s e hstart (hgood s List.mem_cons_self) hnext,
      ih (hstep s e hstart) fun t ht => hgood t (List.mem_cons_of_mem _ ht)⟩

theorem final_mem_states (s : σ) (es : List ε) : final step s es ∈ states step s es := by
  induction es generalizing s with
  | nil => exact List.mem_singleton.mpr rfl
  | cons e es ih => exact List.mem_cons_of_mem _ (ih (step s e))

end Lib.Machine

/-!
## Histories

A history is a list that grows at its end. A law about it says of each entry what was before it; it is kept by a further entry
when it holds of that entry.
-/

namespace Lib.History

variable {α : Type} {l pre post : List α} {x y : α}

/-- An entry of a longer history is the last one, or one of before. -/
theorem split_snoc (h : l ++ [y] = pre ++ x :: post) :
    (post = [] ∧ pre = l ∧ x = y) ∨ ∃ post', post = post' ++ [y] ∧ l = pre ++ x :: post' := by
  rcases List.eq_nil_or_concat post with rfl | ⟨post', z, rfl⟩
  · obtain ⟨rfl, hxy⟩ := List.append_inj' h rfl
    exact .inl ⟨rfl, rfl, (List.cons.inj hxy).1.symm⟩
  · rw [List.concat_eq_append] at h ⊢
    have h' : l ++ [y] = (pre ++ x :: post') ++ [z] := by simpa using h
    obtain ⟨rfl, hyz⟩ := List.append_inj' h' rfl
    obtain rfl := (List.cons.inj hyz).1
    exact .inr ⟨post', rfl, rfl⟩

/-- Every entry satisfies the law with what was before it. -/
def Each (law : List α → α → Prop) (l : List α) : Prop := ∀ pre x post, l = pre ++ x :: post → law pre x

variable {law : List α → α → Prop}

theorem each_nil : Each law [] := by
  intro pre x post h
  simp at h

theorem Each.snoc (h : Each law l) (hx : law l x) : Each law (l ++ [x]) := by
  intro pre y post hsplit
  rcases split_snoc hsplit with ⟨-, rfl, rfl⟩ | ⟨post', -, hsplit'⟩
  · exact hx
  · exact h pre y post' hsplit'

end Lib.History
