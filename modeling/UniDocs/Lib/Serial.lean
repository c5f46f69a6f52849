import UniDocs.Lib.Prog

/-!
# Programs one at a time

When nothing else moves the state, a program's run is a sequence of its own calls, which ends in its result or stops
before (a crash). `Safe.runs` turns the safety of a program into a fact about each of its runs, and `Prog.eval` computes
the run in which every call is answered.
-/

namespace Lib

universe u v

section Serial

variable {Call : Type → Type u} {σ : Type v} {ε α β : Type}

/-- How calls change the state and what they answer. -/
abbrev Exec (Call : Type → Type u) (σ : Type v) := ∀ β : Type, Call β → Fault → σ → Option (σ × β)

/-- Obligations of a program that runs alone: the calls in scope and what each of them has to keep. -/
def Spec.alone (exec : Exec Call σ) (allowed : Guard Call σ) (inv : σ → Prop) : Spec Call σ :=
  ⟨fun c => exec _ c, allowed, inv, Eq, fun _ _ => True⟩

/-- A run of a program from a state: to its result, or to a point before its end. -/
inductive Runs (exec : Exec Call σ) (allowed : Guard Call σ) :
    Prog Call ε α → σ → Option (Except ε α) → σ → Prop
  | ret {r : Except ε α} {s : σ} : Runs exec allowed (.ret r) s (some r) s
  | stop {p : Prog Call ε α} {s : σ} : Runs exec allowed p s none s
  | call {β : Type} {c : Call β} {k : β → Prog Call ε α} {f : Fault} {s s' s'' : σ} {b : β} {o : Option (Except ε α)}
      (ha : allowed _ c f s) (he : exec _ c f s = some (s', b)) (hk : Runs exec allowed (k b) s' o s'') :
      Runs exec allowed (.call c k) s o s''

variable {allowed : Guard Call σ} {exec : Exec Call σ} {p : Prog Call ε α} {s s' : σ}

/-- A safe program keeps the invariant at every point of a run, and its result meets the postcondition. -/
theorem Safe.runs {inv : σ → Prop}
    {Q : Except ε α → σ → Prop} {o : Option (Except ε α)}
    (h : Safe (Spec.alone exec allowed inv) Q p s) (hi : inv s) (hr : Runs exec allowed p s o s') :
    inv s' ∧ ∀ r, o = some r → Q r s' := by
  induction hr with
  | ret =>
    refine ⟨hi, ?_⟩
    rintro _ ⟨⟩
    exact h hi
  | stop => exact ⟨hi, by rintro _ ⟨⟩⟩
  | call ha he _ ih =>
    obtain ⟨h1, -, h3⟩ := h _ _ _ ha he
    exact ih (h3 _ rfl h1) h1

/-- The run in which the environment does this to the first calls, one after another, and answers the rest. -/
def Prog.evalFaults (exec : Exec Call σ) : Prog Call ε α → List Fault → σ → Option (Except ε α × σ)
  | .ret r, _, s => some (r, s)
  | .call c k, faults, s =>
    match exec _ c (faults.headD .none) s with
    | some (s', b) => (k b).evalFaults exec faults.tail s'
    | none => none

theorem Runs.of_evalFaults
    (hallowed : ∀ (β : Type) (c : Call β) (f : Fault) (s : σ), allowed _ c f s) :
    ∀ {p : Prog Call ε α} {faults : List Fault} {s s' : σ} {r : Except ε α}, p.evalFaults exec faults s = some (r, s') →
      Runs exec allowed p s (some r) s' := by
  intro p
  induction p with
  | ret r =>
    intro faults s s' r' h
    cases h
    exact .ret
  | call c k ih =>
    intro faults s s' r h
    simp only [Prog.evalFaults] at h
    split at h
    · rename_i s₁ b he
      exact .call (hallowed _ c _ s) he (ih b h)
    · cases h

/-- A complete run of two programs in sequence: the first one throws, or the second starts where it ended. -/
theorem Runs.bind_cases {g : α → Prog Call ε β} {r : Except ε β} {s' : σ} :
    ∀ {p : Prog Call ε α} {s : σ}, Runs exec allowed (p >>= g) s (some r) s' →
      (∃ e, r = .error e ∧ Runs exec allowed p s (some (.error e)) s') ∨
      ∃ a t, Runs exec allowed p s (some (.ok a)) t ∧ Runs exec allowed (g a) t (some r) s' := by
  intro p
  induction p with
  | ret r' =>
    intro s h
    cases r' with
    | ok a => exact .inr ⟨a, s, .ret, h⟩
    | error e =>
      cases h
      exact .inl ⟨e, rfl, .ret⟩
  | call c k ih =>
    intro s h
    cases h with
    | call ha he hk =>
      rcases ih _ hk with ⟨e, rfl, h⟩ | ⟨a, t, h, h'⟩
      · exact .inl ⟨e, rfl, .call ha he h⟩
      · exact .inr ⟨a, t, .call ha he h, h'⟩

/-- A sequence that ends in a value: so did its first program. -/
theorem Runs.ok_bind {g : α → Prog Call ε β} {b : β}
    (h : Runs exec allowed (p >>= g) s (some (.ok b)) s') :
    ∃ a t, Runs exec allowed p s (some (.ok a)) t ∧ Runs exec allowed (g a) t (some (.ok b)) s' := by
  rcases h.bind_cases with ⟨e, he, -⟩ | h
  · cases he
  · exact h

/-- Another program in the second place that has the runs of the first one there. -/
theorem Runs.bind_congr {g g' : α → Prog Call ε β} {o : Option (Except ε β)}
    {s' : σ} : ∀ {p : Prog Call ε α} {s : σ},
      (∀ a t, Runs exec allowed p s (some (.ok a)) t → Runs exec allowed (g a) t o s' → Runs exec allowed (g' a) t o s') →
      Runs exec allowed (p >>= g) s o s' → Runs exec allowed (p >>= g') s o s' := by
  intro p
  induction p with
  | ret r =>
    intro s hg h
    cases r with
    | ok a => exact hg a s .ret h
    | error e => exact h
  | call c k ih =>
    intro s hg h
    cases h with
    | stop => exact .stop
    | call ha he hk => exact .call ha he (ih _ (fun a t ht => hg a t (.call ha he ht)) hk)

/-- A complete run of a program with a handler: it ends in a value, or the handler starts where it threw. -/
theorem Runs.tryCatch_cases {g : ε → Prog Call ε α} {r : Except ε α} {s' : σ} :
    ∀ {p : Prog Call ε α} {s : σ}, Runs exec allowed (p.tryCatch g) s (some r) s' →
      (∃ a, r = .ok a ∧ Runs exec allowed p s (some (.ok a)) s') ∨
      ∃ e t, Runs exec allowed p s (some (.error e)) t ∧ Runs exec allowed (g e) t (some r) s' := by
  intro p
  induction p with
  | ret r' =>
    intro s h
    cases r' with
    | ok a =>
      cases h
      exact .inl ⟨a, rfl, .ret⟩
    | error e => exact .inr ⟨e, s, .ret, h⟩
  | call c k ih =>
    intro s h
    cases h with
    | call ha he hk =>
      rcases ih _ hk with ⟨a, rfl, h⟩ | ⟨e, t, h, h'⟩
      · exact .inl ⟨a, rfl, .call ha he h⟩
      · exact .inr ⟨e, t, .call ha he h, h'⟩

theorem Runs.pure_cases {a : α} {r : Except ε α}
    (h : Runs exec allowed (Pure.pure a : Prog Call ε α) s (some r) s') : r = .ok a ∧ s' = s := by
  cases h
  exact ⟨rfl, rfl⟩

theorem Runs.throw_cases {e : ε} {r : Except ε α}
    (h : Runs exec allowed (MonadExcept.throw e : Prog Call ε α) s (some r) s') : r = .error e ∧ s' = s := by
  cases h
  exact ⟨rfl, rfl⟩

theorem Runs.require_cases {b : Bool} {e : ε} {r : Except ε Unit}
    (h : Runs exec allowed (Prog.require b e) s (some r) s') :
    s' = s ∧ (b = true ∧ r = .ok () ∨ b = false ∧ r = .error e) := by
  cases b <;> cases h <;> simp

theorem Runs.perform_cases {c : Call β} {r : Except ε β}
    (h : Runs exec allowed (Prog.perform c : Prog Call ε β) s (some r) s') :
    ∃ f b, allowed _ c f s ∧ exec _ c f s = some (s', b) ∧ r = .ok b := by
  cases h with
  | call ha he hk =>
    cases hk
    exact ⟨_, _, ha, he, rfl⟩

theorem Runs.attempt_cases {c : Call (Except ε β)} {r : Except ε β}
    (h : Runs exec allowed (Prog.attempt c : Prog Call ε β) s (some r) s') :
    ∃ f, allowed _ c f s ∧ exec _ c f s = some (s', r) := by
  cases h with
  | call ha he hk =>
    cases hk
    exact ⟨_, ha, he⟩

/-! ## Programs by their calls -/

/-- Every call of a program, on every path, has a property. -/
def Prog.Calls (P : ∀ β : Type, Call β → Prop) : Prog Call ε α → Prop
  | .ret _ => True
  | .call c k => P _ c ∧ ∀ b, (k b).Calls P

theorem Prog.Calls.bind {P : ∀ β : Type, Call β → Prop} {g : α → Prog Call ε β}
    (hg : ∀ a, (g a).Calls P) (hp : p.Calls P) : (p >>= g).Calls P := by
  induction p with
  | ret r =>
    cases r with
    | ok a => exact hg a
    | error e => trivial
  | call c k ih => exact ⟨hp.1, fun b => ih b (hp.2 b)⟩

theorem Prog.Calls.tryCatch {P : ∀ β : Type, Call β → Prop} {g : ε → Prog Call ε α}
    (hg : ∀ e, (g e).Calls P) (hp : p.Calls P) : (p.tryCatch g).Calls P := by
  induction p with
  | ret r =>
    cases r with
    | ok a => trivial
    | error e => exact hg e
  | call c k ih => exact ⟨hp.1, fun b => ih b (hp.2 b)⟩

theorem Prog.Calls.require {P : ∀ β : Type, Call β → Prop} (b : Bool) (e : ε) :
    (Prog.require b e : Prog Call ε Unit).Calls P := by
  cases b <;> trivial

theorem Prog.Calls.mono {P P' : ∀ β : Type, Call β → Prop} (hp : p.Calls P)
    (h : ∀ β c, P β c → P' β c) : p.Calls P' := by
  induction p with
  | ret r => trivial
  | call c k ih => exact ⟨h _ c hp.1, fun b => ih b (hp.2 b)⟩

theorem Runs.keeps {P : ∀ β : Type, Call β → Prop} {K : σ → σ → Prop}
    (hrefl : ∀ s, K s s) (htrans : ∀ s t u, K s t → K t u → K s u)
    (hcall : ∀ (β : Type) (c : Call β) (f : Fault) (s s' : σ) (b : β), P β c → allowed β c f s →
      exec β c f s = some (s', b) → K s s') {o : Option (Except ε α)}
    (hr : Runs exec allowed p s o s') (hp : p.Calls P) : K s s' := by
  induction hr with
  | ret => exact hrefl _
  | stop => exact hrefl _
  | call ha he _ ih => exact htrans _ _ _ (hcall _ _ _ _ _ _ hp.1 ha he) (ih (hp.2 _))

/-! ## Runs with notes -/

/-- The calls of a program with a note about each of them beside the state. -/
def noted {ν : Type} (exec : Exec Call σ) (note : ∀ β : Type, Call β → Fault → σ → ν) : Exec Call (σ × List ν) :=
  fun β c f x => (exec β c f x.1).map fun y => ((y.1, x.2 ++ [note β c f x.1]), y.2)

theorem noted_cases {ν : Type} {note : ∀ β : Type, Call β → Fault → σ → ν} {c : Call β} {f : Fault}
    {x x' : σ × List ν} {b : β} (h : noted exec note β c f x = some (x', b)) :
    exec β c f x.1 = some (x'.1, b) ∧ x'.2 = x.2 ++ [note β c f x.1] := by
  obtain ⟨y, hy, hx⟩ := Option.map_eq_some_iff.mp h
  cases hx
  exact ⟨hy, rfl⟩

theorem Runs.with_notes {ν : Type} (note : ∀ β : Type, Call β → Fault → σ → ν)
    {o : Option (Except ε α)} (h : Runs exec allowed p s o s') :
    ∀ l, ∃ l', Runs (noted exec note) (fun β c f y => allowed β c f y.1) p (s, l) o (s', l') := by
  induction h with
  | ret => exact fun l => ⟨l, .ret⟩
  | stop => exact fun l => ⟨l, .stop⟩
  | @call β c k f s s₁ s₂ b o ha he _ ih =>
    intro l
    obtain ⟨l', h⟩ := ih (l ++ [note β c f s])
    exact ⟨l', .call ha (by simp only [noted, he, Option.map_some]) h⟩

end Serial

end Lib
