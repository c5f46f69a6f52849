import UniDocs.Lib.Journal

/-!
# Databases with a trace

Programs read a database and run batches on it. A batch takes effect as a whole or not at all, and what it does is one labelled
transition; the labels so far, each with the program that made the transition, are the trace. When every batch is shown to make
a transition of a given system, the database is at every point what its trace leads to, so that the laws of the system are
facts about paths, and a program is described by the labels it has written.
-/

namespace Lib.Trace

open Lib.Journal (own)

/-! ## Paths -/

section Path

variable {δ ι E : Type}

/-- The transitions of a trace, one after the other. -/
inductive Path (step : E → δ → δ → Prop) (d : δ) : List (ι × E) → δ → Prop
  | nil : Path step d [] d
  | snoc {es : List (ι × E)} {d' d'' : δ} (i : ι) (e : E) (h : Path step d es d') (hs : step e d' d'') :
      Path step d (es ++ [(i, e)]) d''

variable {step : E → δ → δ → Prop} {d d' d'' : δ} {es es' : List (ι × E)}

theorem Path.one (i : ι) {e : E} (h : step e d d') : Path step d [(i, e)] d' := .snoc i e .nil h

theorem Path.trans (h : Path step d es d') (h' : Path step d' es' d'') : Path step d (es ++ es') d'' := by
  induction h' with
  | nil => rwa [List.append_nil]
  | snoc i e _ hs ih =>
    rw [← List.append_assoc]
    exact .snoc i e ih hs

/-- What every transition keeps, a path keeps. -/
theorem Path.rule {P : δ → Prop} (hstep : ∀ e d d', step e d d' → P d → P d') (h : Path step d es d') (hd : P d) : P d' := by
  induction h with
  | nil => exact hd
  | snoc i e _ hs ih => exact hstep e _ _ hs ih

/-- What every transition of a kind keeps, a path of such transitions keeps. -/
theorem Path.rule_of {P : δ → Prop} {C : E → Prop} (hstep : ∀ e d d', C e → step e d d' → P d → P d')
    (h : Path step d es d') (hC : ∀ i e, (i, e) ∈ es → C e) (hd : P d) : P d' := by
  induction h with
  | nil => exact hd
  | snoc i e _ hs ih =>
    have hold := ih fun j e' hm => hC j e' (List.mem_append_left _ hm)
    exact hstep e _ _ (hC i e (List.mem_append_right _ (List.mem_singleton.mpr rfl))) hs hold

/-- The transition of an entry of the trace. -/
theorem Path.mem (h : Path step d es d') {i : ι} {e : E} (hm : (i, e) ∈ es) :
    ∃ es₁ es₂ d₁ d₂, es = es₁ ++ (i, e) :: es₂ ∧ Path step d es₁ d₁ ∧ step e d₁ d₂ ∧ Path step d₂ es₂ d' := by
  induction h with
  | nil => cases hm
  | snoc j e' hp hs ih =>
    rename_i es d₂ d₃
    rcases List.mem_append.mp hm with hm | hm
    · obtain ⟨es₁, es₂, c₁, c₂, rfl, h1, h2, h3⟩ := ih hm
      exact ⟨es₁, es₂ ++ [(j, e')], c₁, c₂, by simp, h1, h2, .snoc j e' h3 hs⟩
    · obtain ⟨rfl, rfl⟩ : i = j ∧ e = e' := by simpa using hm
      exact ⟨es, [], d₂, d₃, rfl, hp, hs, .nil⟩

end Path

/-! ## Programs over a database -/

section Calls

variable {δ ε ι E β : Type}

/-- A database with its trace. -/
structure Traced (δ ι E : Type) where
  db : δ
  trace : List (ι × E)

/-- What a program has written so far. -/
def Wrote [DecidableEq ι] (i : ι) (es : List E) (s : Traced δ ι E) : Prop := own i s.trace = es

theorem Wrote.snoc [DecidableEq ι] {i : ι} {es : List E} {s : Traced δ ι E} (h : Wrote i es s) (e : E) (d : δ) :
    Wrote i (es ++ [e]) ⟨d, s.trace ++ [(i, e)]⟩ := by
  rw [Wrote, Journal.own_append_singleton, if_pos rfl, h]

theorem Wrote.mem [DecidableEq ι] {i : ι} {es : List E} {s : Traced δ ι E} (h : Wrote i es s) {e : E} (he : e ∈ es) :
    (i, e) ∈ s.trace := by
  rw [← Journal.mem_own, h]
  exact he

/-- What a program asks of a database: to read, or to run a batch, which fails, or answers and leaves the database as it is,
or answers and makes a transition. -/
inductive DbCall (δ ε ι E : Type) : Type → Type 1 where
  | read {β : Type} (f : δ → β) : DbCall δ ε ι E (Except ε β)
  | batch {β : Type} (i : ι) (f : δ → Except ε (β × Option (E × δ))) : DbCall δ ε ι E (Except ε β)

/-- The database after a batch that answers. -/
def Traced.commit (s : Traced δ ι E) (i : ι) : Option (E × δ) → Traced δ ι E
  | none => s
  | some (e, d) => ⟨d, s.trace ++ [(i, e)]⟩

/-- A batch under a fault. -/
def execBatch (storage : ε) (i : ι) (f : δ → Except ε (β × Option (E × δ))) (fault : Fault) (s : Traced δ ι E) :
    Traced δ ι E × Except ε β :=
  match fault, f s.db with
  | .failed, _ => (s, .error storage)
  | _, .error e => (s, .error e)
  | .none, .ok (b, t) => (s.commit i t, .ok b)
  | .lost, .ok (_, t) => (s.commit i t, .error storage)

/-- How a database executes a call; one that fails for a fault answers with the given error. -/
def exec (storage : ε) {β : Type} (c : DbCall δ ε ι E β) (fault : Fault) (s : Traced δ ι E) : Option (Traced δ ι E × β) :=
  match c with
  | .read f => some (s, if fault = .none then .ok (f s.db) else .error storage)
  | .batch i f => some (execBatch storage i f fault s)

/-- A program over a database. -/
abbrev DbProg (δ ε ι E α : Type) := Prog (DbCall δ ε ι E) ε α

def read (f : δ → β) : DbProg δ ε ι E β := Prog.attempt (.read f)

def batch (i : ι) (f : δ → Except ε (β × Option (E × δ))) : DbProg δ ε ι E β := Prog.attempt (.batch i f)

/-- A computation that may throw. -/
def evaluate (r : Except ε β) : DbProg δ ε ι E β := .ret r

/-- Every call that takes effect answers. -/
def answered : Guard (DbCall δ ε ι E) (Traced δ ι E) := fun _ _ fault _ => fault ≠ .lost

theorem execBatch_cases {storage : ε} {i : ι} {f : δ → Except ε (β × Option (E × δ))} {fault : Fault} {s : Traced δ ι E} :
    (fault = .failed ∧ execBatch storage i f fault s = (s, .error storage))
    ∨ (∃ e, f s.db = .error e ∧ execBatch storage i f fault s = (s, .error e))
    ∨ ∃ b t, f s.db = .ok (b, t) ∧ (execBatch storage i f fault s = (s.commit i t, .ok b)
      ∨ fault = .lost ∧ execBatch storage i f fault s = (s.commit i t, .error storage)) := by
  cases hf : f s.db with
  | error e =>
    cases fault
    · exact .inr (.inl ⟨e, rfl, by simp [execBatch, hf]⟩)
    · exact .inl ⟨rfl, by simp [execBatch]⟩
    · exact .inr (.inl ⟨e, rfl, by simp [execBatch, hf]⟩)
  | ok r =>
    obtain ⟨b, t⟩ := r
    cases fault
    · exact .inr (.inr ⟨b, t, rfl, .inl (by simp [execBatch, hf])⟩)
    · exact .inl ⟨rfl, by simp [execBatch]⟩
    · exact .inr (.inr ⟨b, t, rfl, .inr ⟨rfl, by simp [execBatch, hf]⟩⟩)

end Calls

/-! ## Obligations -/

/-- A transition system for a database: its transitions, where it starts, which transitions the program of a request may make,
and the calls in scope. -/
structure System (δ ε ι E Req : Type) where
  step : E → δ → δ → Prop
  start : δ → Prop
  may : ι → Req → E → Prop
  allowed : Guard (DbCall δ ε ι E) (Traced δ ι E)

namespace System

variable {δ ε ι E Req α β : Type} (S : System δ ε ι E Req)

/-- The database is what its trace leads to. -/
def Inv (s : Traced δ ι E) : Prop := ∃ d, S.start d ∧ Path S.step d s.trace s.db

/-- The others have made transitions. -/
def Rely (i : ι) (s s' : Traced δ ι E) : Prop :=
  ∃ es, s'.trace = s.trace ++ es ∧ (∀ x ∈ es, x.1 ≠ i) ∧ Path S.step s.db es s'.db

/-- A call of the program of a request makes at most one transition. -/
def Acts (i : ι) (q : Req) (s s' : Traced δ ι E) : Prop :=
  s' = s ∨ ∃ e, s'.trace = s.trace ++ [(i, e)] ∧ S.step e s.db s'.db ∧ S.may i q e

/-- The obligations of one program. -/
def spec (storage : ε) (i : ι) (q : Req) : Spec (DbCall δ ε ι E) (Traced δ ι E) :=
  ⟨exec storage, S.allowed, S.Inv, S.Rely i, S.Acts i q⟩

variable {S} {storage : ε} {i j : ι} {q : Req} {s s' s'' : Traced δ ι E}

theorem Rely.refl : S.Rely i s s := ⟨[], by simp, by simp, .nil⟩

theorem Rely.trans (h : S.Rely i s s') (h' : S.Rely i s' s'') : S.Rely i s s'' := by
  obtain ⟨es, hes, hne, hp⟩ := h
  obtain ⟨es', hes', hne', hp'⟩ := h'
  refine ⟨es ++ es', by rw [hes', hes, List.append_assoc], ?_, hp.trans hp'⟩
  intro x hx
  rcases List.mem_append.mp hx with hx | hx
  · exact hne x hx
  · exact hne' x hx

theorem Rely.own [DecidableEq ι] (h : S.Rely i s s') : own i s'.trace = own i s.trace := by
  obtain ⟨es, hes, hne, _⟩ := h
  rw [hes, Journal.own_append, Journal.own_eq_nil hne, List.append_nil]

theorem Acts.rely (hij : i ≠ j) (h : S.Acts i q s s') : S.Rely j s s' := by
  rcases h with rfl | ⟨e, htrace, hstep, _⟩
  · exact Rely.refl
  · exact ⟨_, htrace, by simpa using hij, .one i hstep⟩

/-- The calls of programs lead from states to later ones. -/
theorem Acts.path (h : S.Acts i q s s') : ∃ es, s'.trace = s.trace ++ es ∧ Path S.step s.db es s'.db := by
  rcases h with rfl | ⟨e, htrace, hstep, _⟩
  · exact ⟨[], by simp, .nil⟩
  · exact ⟨_, htrace, .one i hstep⟩

/-! ## Assertions that others keep -/

theorem stable_wrote [DecidableEq ι] {es : List E} : Stable (S.spec storage i q) (Wrote i es) := by
  intro s s' _ _ h hes
  rw [Wrote, Rely.own h]
  exact hes

/-- What no transition takes away. -/
theorem stable_db {P : δ → Prop} (hstep : ∀ e d d', S.step e d d' → P d → P d') : Stable (S.spec storage i q) fun s => P s.db := by
  rintro s s' _ _ ⟨es, _, _, hp⟩ h
  exact hp.rule hstep h

/-! ## Rules -/

variable {P : Traced δ ι E → Prop} {T : ε → Traced δ ι E → Prop}

variable {Q : β → Traced δ ι E → Prop}

theorem read_rule_allowed {f : δ → β} (hQ : ∀ b, Stable (S.spec storage i q) (Q b))
    (hT : Stable (S.spec storage i q) (T storage)) (h : ∀ s, S.Inv s → P s → Q (f s.db) s)
    (hfail : ∀ s fault, S.Inv s → P s → fault ≠ .none → S.allowed _ (.read f) fault s → T storage s) :
    Triple (S.spec storage i q) P (read f) Q T := by
  intro s hi hp fault s' r ha he
  have he' : some (s, if fault = .none then .ok (f s.db) else .error storage) = some (s', r) := he
  split at he'
  · cases he'
    exact ⟨hi, .inl rfl, fun s'' hr hi'' _ => hQ _ s s'' hi hi'' hr (h s hi hp)⟩
  · rename_i hfault
    cases he'
    exact ⟨hi, .inl rfl, fun s'' hr hi'' _ => hT s s'' hi hi'' hr (hfail s fault hi hp hfault ha)⟩

theorem read_rule {f : δ → β} (hQ : ∀ b, Stable (S.spec storage i q) (Q b))
    (hT : Stable (S.spec storage i q) (T storage)) (h : ∀ s, S.Inv s → P s → Q (f s.db) s)
    (hfail : ∀ s, S.Inv s → P s → T storage s) : Triple (S.spec storage i q) P (read f) Q T :=
  read_rule_allowed hQ hT h fun s _ hi hp _ _ => hfail s hi hp

/-- The rule of a batch: what it does where it does not fail, and what holds where it does, which is a call in scope. -/
theorem batch_rule_allowed {f : δ → Except ε (β × Option (E × δ))}
    (hQ : ∀ b, Stable (S.spec storage i q) (Q b)) (hT : ∀ e, Stable (S.spec storage i q) (T e))
    (hok : ∀ s b, S.Inv s → P s → f s.db = .ok (b, none) → Q b s)
    (hcommit : ∀ s b e d, S.Inv s → P s → f s.db = .ok (b, some (e, d)) →
      S.step e s.db d ∧ S.may i q e ∧ Q b ⟨d, s.trace ++ [(i, e)]⟩)
    (herr : ∀ s e fault, S.Inv s → P s → f s.db = .error e → S.allowed _ (.batch i f) fault s → T e s)
    (hfail : ∀ s fault, S.Inv s → P s → fault ≠ .none → S.allowed _ (.batch i f) fault s → T storage s)
    (hlost : ∀ s b e d, S.Inv s → P s → f s.db = .ok (b, some (e, d)) → S.allowed _ (.batch i f) .lost s →
      T storage ⟨d, s.trace ++ [(i, e)]⟩) :
    Triple (S.spec storage i q) P (batch i f) Q T := by
  intro s hi hp fault s' r ha he
  have he' : execBatch storage i f fault s = (s', r) := Option.some.inj he
  rcases @execBatch_cases δ ε ι E β storage i f fault s with ⟨hfault, h⟩ | ⟨e, hf, h⟩ | ⟨b, t, hf, h⟩
  · cases h.symm.trans he'
    exact ⟨hi, .inl rfl, fun s'' hr hi'' _ => hT _ s s'' hi hi'' hr (hfail s fault hi hp (by rw [hfault]; exact nofun) ha)⟩
  · cases h.symm.trans he'
    exact ⟨hi, .inl rfl, fun s'' hr hi'' _ => hT _ s s'' hi hi'' hr (herr s e fault hi hp hf ha)⟩
  · cases t with
    | none =>
      rcases h with h | ⟨rfl, h⟩
      · cases h.symm.trans he'
        exact ⟨hi, .inl rfl, fun s'' hr hi'' _ => hQ _ s s'' hi hi'' hr (hok s b hi hp hf)⟩
      · cases h.symm.trans he'
        exact ⟨hi, .inl rfl, fun s'' hr hi'' _ => hT _ s s'' hi hi'' hr (hfail s .lost hi hp nofun ha)⟩
    | some x =>
      obtain ⟨e, d⟩ := x
      obtain ⟨hstep, hmay, hpost⟩ := hcommit s b e d hi hp hf
      have hi' : S.Inv ⟨d, s.trace ++ [(i, e)]⟩ := by
        obtain ⟨d₀, hd₀, hpath⟩ := hi
        exact ⟨d₀, hd₀, .snoc i e hpath hstep⟩
      rcases h with h | ⟨rfl, h⟩
      · cases h.symm.trans he'
        exact ⟨hi', .inr ⟨e, rfl, hstep, hmay⟩, fun s'' hr hi'' _ => hQ _ _ s'' hi' hi'' hr hpost⟩
      · cases h.symm.trans he'
        exact ⟨hi', .inr ⟨e, rfl, hstep, hmay⟩,
          fun s'' hr hi'' _ => hT _ _ s'' hi' hi'' hr (hlost s b e d hi hp hf ha)⟩

theorem batch_rule {f : δ → Except ε (β × Option (E × δ))}
    (hQ : ∀ b, Stable (S.spec storage i q) (Q b)) (hT : ∀ e, Stable (S.spec storage i q) (T e))
    (hok : ∀ s b, S.Inv s → P s → f s.db = .ok (b, none) → Q b s)
    (hcommit : ∀ s b e d, S.Inv s → P s → f s.db = .ok (b, some (e, d)) →
      S.step e s.db d ∧ S.may i q e ∧ Q b ⟨d, s.trace ++ [(i, e)]⟩)
    (herr : ∀ s e, S.Inv s → P s → f s.db = .error e → T e s) (hfail : ∀ s, S.Inv s → P s → T storage s)
    (hlost : ∀ s b e d, S.Inv s → P s → f s.db = .ok (b, some (e, d)) → S.allowed _ (.batch i f) .lost s →
      T storage ⟨d, s.trace ++ [(i, e)]⟩) :
    Triple (S.spec storage i q) P (batch i f) Q T :=
  batch_rule_allowed hQ hT hok hcommit (fun s e _ hi hp hf _ => herr s e hi hp hf) (fun s _ hi hp _ _ => hfail s hi hp) hlost

/-- A computation that may throw. -/
theorem evaluate_rule {r : Except ε β} (hT : ∀ e s, r = .error e → S.Inv s → P s → T e s) :
    Triple (S.spec storage i q) P (evaluate r) (fun b s => r = .ok b ∧ P s) T := by
  intro s _ hp hi
  cases r with
  | ok b => exact ⟨rfl, hp⟩
  | error e => exact hT e s rfl hi hp

/-! ## Programs of which only the transitions matter -/

/-- Every batch of the program makes a transition that the request may make. -/
def Lawful (S : System δ ε ι E Req) (storage : ε) (i : ι) (q : Req) (p : DbProg δ ε ι E α) : Prop :=
  Triple (S.spec storage i q) (fun _ => True) p (fun _ _ => True) (fun _ _ => True)

theorem Lawful.pure (a : α) : S.Lawful storage i q (Pure.pure a : DbProg δ ε ι E α) := Triple.pure fun _ _ _ => trivial

theorem Lawful.throw (e : ε) : S.Lawful storage i q (MonadExcept.throw e : DbProg δ ε ι E α) := Triple.throw fun _ _ _ => trivial

theorem Lawful.read (f : δ → β) : S.Lawful storage i q (read f : DbProg δ ε ι E β) :=
  read_rule (fun _ => Stable.const True) (Stable.const True) (fun _ _ _ => trivial) fun _ _ _ => trivial

theorem Lawful.evaluate (r : Except ε β) : S.Lawful storage i q (evaluate r : DbProg δ ε ι E β) :=
  (evaluate_rule fun _ _ _ _ _ => trivial).forget

theorem Lawful.batch {f : δ → Except ε (β × Option (E × δ))}
    (h : ∀ d b e d', f d = .ok (b, some (e, d')) → S.step e d d' ∧ S.may i q e) : S.Lawful storage i q (batch i f) := by
  refine batch_rule (fun _ => Stable.const True) (fun _ => Stable.const True) (fun _ _ _ _ _ => trivial) ?_
    (fun _ _ _ _ _ => trivial) (fun _ _ _ => trivial) (fun _ _ _ _ _ _ _ _ => trivial)
  intro s b e d _ _ hf
  exact ⟨(h s.db b e d hf).1, (h s.db b e d hf).2, trivial⟩

theorem Lawful.bind {p : DbProg δ ε ι E α} {g : α → DbProg δ ε ι E β} (hp : S.Lawful storage i q p)
    (hg : ∀ a, S.Lawful storage i q (g a)) : S.Lawful storage i q (p >>= g) :=
  Triple.bind hp fun a => hg a

/-- A computation that may throw, and what follows on its value. -/
theorem Lawful.evaluate_bind {r : Except ε α} {g : α → DbProg δ ε ι E β} (hg : ∀ a, r = .ok a → S.Lawful storage i q (g a)) :
    S.Lawful storage i q (Trace.evaluate r >>= g) := by
  refine Triple.bind (evaluate_rule fun _ _ _ _ _ => trivial) fun a => ?_
  exact Triple.of_pure fun hr => hg a hr

theorem Lawful.tryCatch {p : DbProg δ ε ι E α} {g : ε → DbProg δ ε ι E α} (hp : S.Lawful storage i q p)
    (hg : ∀ e, S.Lawful storage i q (g e)) : S.Lawful storage i q (p.tryCatch g) :=
  Triple.tryCatch hp hg

/-- A program that is lawful when a fact about the database holds at its start. -/
def LawfulFrom (S : System δ ε ι E Req) (storage : ε) (i : ι) (q : Req) (P : δ → Prop) (p : DbProg δ ε ι E α) : Prop :=
  Triple (S.spec storage i q) (fun s => P s.db) p (fun _ _ => True) (fun _ _ => True)

section From

variable {P : δ → Prop}

variable {p : DbProg δ ε ι E α}

theorem Lawful.weaken (hp : S.Lawful storage i q p) : S.LawfulFrom storage i q P p :=
  Triple.pre hp fun _ _ _ => trivial

theorem LawfulFrom.batch {f : δ → Except ε (β × Option (E × δ))}
    (h : ∀ d b e d', P d → f d = .ok (b, some (e, d')) → S.step e d d' ∧ S.may i q e) :
    S.LawfulFrom storage i q P (Trace.batch i f) := by
  refine batch_rule (fun _ => Stable.const True) (fun _ => Stable.const True) (fun _ _ _ _ _ => trivial) ?_
    (fun _ _ _ _ _ => trivial) (fun _ _ _ => trivial) (fun _ _ _ _ _ _ _ _ => trivial)
  intro s b e d _ hp hf
  exact ⟨(h s.db b e d hp hf).1, (h s.db b e d hp hf).2, trivial⟩

/-- What every transition keeps still holds after a lawful program. -/
theorem LawfulFrom.bind {g : α → DbProg δ ε ι E β}
    (hstep : ∀ e d d', S.step e d d' → P d → P d') (hp : S.Lawful storage i q p)
    (hg : ∀ a, S.LawfulFrom storage i q P (g a)) : S.LawfulFrom storage i q P (p >>= g) := by
  have hframe := Triple.frame (F := fun s : Traced δ ι E => P s.db) ?_ ?_ hp
  · refine Triple.bind (hframe.conseq (fun _ _ h => ⟨h, trivial⟩) (fun _ _ _ h => h.1) (fun _ _ _ _ => trivial)) fun a => ?_
    exact hg a
  · rintro s s' (rfl | ⟨e, _, hs, _⟩) h
    · exact h
    · exact hstep e _ _ hs h
  · rintro s s' ⟨es, _, _, hpath⟩ h
    exact hpath.rule hstep h

/-- A read, and what follows on what it shows. -/
theorem LawfulFrom.read_bind {f : δ → β} {R : β → δ → Prop} {g : β → DbProg δ ε ι E α}
    (hstep : ∀ e d d', S.step e d d' → P d → P d') (hR : ∀ b e d d', S.step e d d' → R b d → R b d')
    (hread : ∀ d, P d → R (f d) d) (hg : ∀ b, S.LawfulFrom storage i q (fun d => P d ∧ R b d) (g b)) :
    S.LawfulFrom storage i q P (Trace.read f >>= g) := by
  refine Triple.bind (Q := fun b (s : Traced δ ι E) => P s.db ∧ R b s.db) ?_ fun b => hg b
  refine read_rule (fun b => ?_) (Stable.const True) (fun s _ hp => ⟨hp, hread _ hp⟩) fun _ _ _ => trivial
  exact stable_db (P := fun d : δ => P d ∧ R b d) fun e d d' hs h => ⟨hstep e d d' hs h.1, hR b e d d' hs h.2⟩

/-- A computation that may throw, and what follows on its value. -/
theorem LawfulFrom.evaluate_bind {r : Except ε α} {g : α → DbProg δ ε ι E β}
    (hg : ∀ a, r = .ok a → S.LawfulFrom storage i q P (g a)) : S.LawfulFrom storage i q P (Trace.evaluate r >>= g) := by
  refine Triple.bind (evaluate_rule fun _ _ _ _ _ => trivial) fun a => ?_
  exact Triple.of_pure fun hr => hg a hr

/-- A program after which only lawful ones follow. -/
theorem LawfulFrom.then {g : α → DbProg δ ε ι E β} (hp : S.LawfulFrom storage i q P p)
    (hg : ∀ a, S.Lawful storage i q (g a)) : S.LawfulFrom storage i q P (p >>= g) :=
  Triple.bind hp fun a => hg a

theorem LawfulFrom.tryCatch {g : ε → DbProg δ ε ι E α} (hp : S.LawfulFrom storage i q P p)
    (hg : ∀ e, S.Lawful storage i q (g e)) : S.LawfulFrom storage i q P (p.tryCatch g) :=
  Triple.tryCatch hp hg

end From

end System

/-! ## How often a program writes -/

section Within

variable {δ ε ι E α β : Type}

/-- A program that runs at most so many batches. -/
def Within : Nat → DbProg δ ε ι E α → Prop
  | _, .ret _ => True
  | n, .call (.read _) k => ∀ b, Within n (k b)
  | 0, .call (.batch _ _) _ => False
  | n + 1, .call (.batch _ _) k => ∀ b, Within n (k b)

theorem Within.read {f : δ → β} (n : Nat) : Within n (read f : DbProg δ ε ι E β) := fun _ => trivial

theorem Within.batch {i : ι} {f : δ → Except ε (β × Option (E × δ))} : Within 1 (batch i f) := fun _ => trivial

theorem Within.evaluate {r : Except ε β} (n : Nat) : Within n (evaluate r : DbProg δ ε ι E β) := by
  cases n <;> trivial

theorem Within.pure {a : α} (n : Nat) : Within n (Pure.pure a : DbProg δ ε ι E α) := by
  cases n <;> trivial

theorem within_read {β' : Type} {f : δ → β'} {k : Except ε β' → DbProg δ ε ι E α} {n : Nat} :
    Within n (.call (.read f) k) ↔ ∀ b, Within n (k b) := by
  cases n <;> rfl

theorem Within.mono {p : DbProg δ ε ι E α} : ∀ {n m : Nat}, Within n p → n ≤ m → Within m p := by
  induction p with
  | ret r =>
    intro n m _ _
    cases m <;> trivial
  | call c k ih =>
    intro n m h hle
    cases c with
    | read f =>
      exact within_read.mpr fun b => ih b (within_read.mp h b) hle
    | batch i f =>
      cases n with
      | zero => exact h.elim
      | succ n =>
        obtain ⟨m, rfl⟩ : ∃ m', m = m' + 1 := ⟨m - 1, by omega⟩
        exact fun b => ih b (h b) (by omega)

theorem Within.bind {p : DbProg δ ε ι E α} {g : α → DbProg δ ε ι E β} {m : Nat} (hg : ∀ a, Within m (g a)) :
    ∀ {n : Nat}, Within n p → Within (n + m) (p >>= g) := by
  induction p with
  | ret r =>
    intro n _
    cases r with
    | ok a => exact (hg a).mono (by omega)
    | error e => exact Within.evaluate (r := .error e) _
  | call c k ih =>
    intro n h
    cases c with
    | read f =>
      exact within_read.mpr fun b => ih b (within_read.mp h b)
    | batch i f =>
      cases n with
      | zero => exact h.elim
      | succ n =>
        rw [Nat.succ_add]
        exact fun b => ih b (h b)

theorem Within.tryCatch {p : DbProg δ ε ι E α} {g : ε → DbProg δ ε ι E α} {m : Nat} (hg : ∀ e, Within m (g e)) :
    ∀ {n : Nat}, Within n p → Within (n + m) (p.tryCatch g) := by
  induction p with
  | ret r =>
    intro n _
    cases r with
    | ok a => exact Within.evaluate (r := .ok a) _
    | error e => exact (hg e).mono (by omega)
  | call c k ih =>
    intro n h
    cases c with
    | read f =>
      exact within_read.mpr fun b => ih b (within_read.mp h b)
    | batch i f =>
      cases n with
      | zero => exact h.elim
      | succ n =>
        rw [Nat.succ_add]
        exact fun b => ih b (h b)

end Within

/-! ## Which batches a program runs -/

section Only

variable {δ ε ι E α β : Type}

/-- A program whose batches are its own and have only effects of a kind. -/
def Only (i : ι) (K : δ → δ → Prop) : DbProg δ ε ι E α → Prop
  | .ret _ => True
  | .call (.read _) k => ∀ b, Only i K (k b)
  | .call (.batch j f) k => (j = i ∧ ∀ d b e d', f d = .ok (b, some (e, d')) → K d d') ∧ ∀ b, Only i K (k b)

variable {i : ι} {K : δ → δ → Prop}

theorem Only.pure {a : α} : Only i K (Pure.pure a : DbProg δ ε ι E α) := trivial

theorem Only.throw {e : ε} : Only i K (MonadExcept.throw e : DbProg δ ε ι E α) := trivial

theorem Only.read {f : δ → β} : Only i K (Trace.read f : DbProg δ ε ι E β) := fun _ => trivial

theorem Only.batch {f : δ → Except ε (β × Option (E × δ))} (h : ∀ d b e d', f d = .ok (b, some (e, d')) → K d d') :
    Only i K (Trace.batch i f) := ⟨⟨rfl, h⟩, fun _ => trivial⟩

theorem Only.evaluate {r : Except ε β} : Only i K (Trace.evaluate r : DbProg δ ε ι E β) := trivial

theorem Only.bind {p : DbProg δ ε ι E α} {g : α → DbProg δ ε ι E β} (hp : Only i K p) (hg : ∀ a, Only i K (g a)) :
    Only i K (p >>= g) := by
  induction p with
  | ret r =>
    cases r with
    | ok a => exact hg a
    | error e => exact Only.evaluate (r := .error e)
  | call c k ih =>
    cases c with
    | read f => exact fun b => ih b (hp b)
    | batch j f => exact ⟨hp.1, fun b => ih b (hp.2 b)⟩

/-- A computation that may throw, and what follows on its value. -/
theorem Only.evaluate_bind {r : Except ε α} {g : α → DbProg δ ε ι E β} (hg : ∀ a, r = .ok a → Only i K (g a)) :
    Only i K (Trace.evaluate r >>= g) := by
  cases r with
  | ok a => exact hg a rfl
  | error e => exact Only.evaluate (r := .error e)

theorem Only.tryCatch {p : DbProg δ ε ι E α} {g : ε → DbProg δ ε ι E α} (hp : Only i K p) (hg : ∀ e, Only i K (g e)) :
    Only i K (p.tryCatch g) := by
  induction p with
  | ret r =>
    cases r with
    | ok a => exact Only.evaluate (r := .ok a)
    | error e => exact hg e
  | call c k ih =>
    cases c with
    | read f => exact fun b => ih b (hp b)
    | batch j f => exact ⟨hp.1, fun b => ih b (hp.2 b)⟩

/-- A program whose effects are transitions that the request may make, whatever their labels, is lawful. -/
theorem System.lawful_of_only {Req : Type} {S : System δ ε ι E Req} {storage : ε} {q : Req}
    (hK : ∀ e d d', K d d' → S.step e d d' ∧ S.may i q e) {p : DbProg δ ε ι E α} (h : Only i K p) : S.Lawful storage i q p := by
  intro s hi _
  induction p generalizing s with
  | ret r => exact fun _ => by cases r <;> trivial
  | call c k ih =>
    intro fault s' b _ he
    cases c with
    | read f =>
      have hs' : s' = s := by
        simp only [System.spec, exec, Option.some.injEq, Prod.mk.injEq] at he
        exact he.1.symm
      exact ⟨hs' ▸ hi, .inl hs', fun s'' _ hi'' => ih b (h b) s'' hi''⟩
    | batch j f =>
      obtain ⟨⟨rfl, heffect⟩, hnext⟩ := h
      have he' : execBatch storage j f fault s = (s', b) := Option.some.inj he
      suffices hcall : S.Inv s' ∧ S.Acts j q s s' from ⟨hcall.1, hcall.2, fun s'' _ hi'' => ih b (hnext b) s'' hi''⟩
      rcases @execBatch_cases δ ε ι E _ storage j f fault s with ⟨_, h⟩ | ⟨e, _, h⟩ | ⟨a, t, hf, h⟩
      · cases h.symm.trans he'
        exact ⟨hi, .inl rfl⟩
      · cases h.symm.trans he'
        exact ⟨hi, .inl rfl⟩
      · have hs' : s' = s.commit j t := by
          rcases h with h | ⟨_, h⟩ <;> cases h.symm.trans he' <;> rfl
        subst hs'
        cases t with
        | none => exact ⟨hi, .inl rfl⟩
        | some x =>
          obtain ⟨hstep, hmay⟩ := hK x.1 _ _ (heffect _ _ _ _ hf)
          obtain ⟨d, hd, hpath⟩ := hi
          exact ⟨⟨d, hd, .snoc j x.1 hpath hstep⟩, .inr ⟨x.1, rfl, hstep, hmay⟩⟩

end Only

/-! ## Machines -/

section Machine

variable {δ ε ι E Req α : Type} [DecidableEq ι]

/-- The programs of requests over one database, call by call in any order. -/
def machine (storage : ε) (serve : ι → Req → DbProg δ ε ι E α) :
    Machine (DbCall δ ε ι E) (Traced δ ι E) ε α ι Req Empty where
  exec := exec storage
  serve := serve
  env e := e.elim
  kills _ _ := false

/-- A triple for each request: what holds of its result when it ends. -/
def Serves (S : System δ ε ι E Req) (storage : ε) (serve : ι → Req → DbProg δ ε ι E α)
    (post : ι → Req → Except ε α → Traced δ ι E → Prop) : Prop :=
  ∀ i q, Triple (S.spec storage i q) (Wrote i []) (serve i q) (fun a => post i q (.ok a))
    (fun e => post i q (.error e))

/-- The proof of a machine over a database. -/
def proof {S : System δ ε ι E Req} {storage : ε} {serve : ι → Req → DbProg δ ε ι E α}
    {post : ι → Req → Except ε α → Traced δ ι E → Prop} (hserve : Serves S storage serve post) :
    Proof (machine storage serve) where
  inv := S.Inv
  allowed := S.allowed
  rely := S.Rely
  guar := S.Acts
  idle i := Wrote i []
  post i q r x := post i q r x.1
  rely_refl _ _ := System.Rely.refl
  rely_trans _ _ _ _ h h' := h.trans h'
  guar_rely _ _ _ _ _ hij _ _ h := h.rely hij
  idle_rely _ _ _ _ _ h hidle := by rw [Wrote, h.own]; exact hidle
  env_inv e := e.elim
  env_rely e := e.elim
  env_idle e := e.elim
  serve_safe i q s hi hidle := by
    refine Safe.mono ?_ (Safe.withSteps (x := (s, [])) (hserve i q s hi hidle))
    intro r y _ hr
    cases r <;> exact hr

/-- A pool over a database. -/
abbrev DbPool (δ ε ι E α Req : Type) := Pool (DbCall δ ε ι E) (Traced δ ι E) ε α ι Req

/-- The pool before the first request. -/
def DbPool.initial (d : δ) : DbPool δ ε ι E α Req := ⟨⟨d, []⟩, fun _ => none⟩

variable {S : System δ ε ι E Req} {storage : ε} {serve : ι → Req → DbProg δ ε ι E α}
  {post : ι → Req → Except ε α → Traced δ ι E → Prop} {d : δ} {p p' : DbPool δ ε ι E α Req}

theorem proof_initial (hserve : Serves S storage serve post) (hd : S.start d) : (proof hserve).Initial (DbPool.initial d) where
  inv := ⟨d, hd, .nil⟩
  empty _ := rfl
  idle _ := rfl

/-- Every call a program has made left the database as it was, or made a transition that the trace has. -/
theorem steps_act (hserve : Serves S storage serve post) (hd : S.start d)
    (h : (machine storage serve).Reach S.allowed (DbPool.initial d) p) :
    ∀ i t, p.thread i = some t → ∀ x ∈ t.steps, x.2 = x.1 ∨ ∃ e, x.2.trace = x.1.trace ++ [(i, e)]
      ∧ S.step e x.1.db x.2.db ∧ S.may i t.req e ∧ S.Inv x.1
      ∧ ∃ es, p.state.trace = x.2.trace ++ es ∧ Path S.step x.2.db es p.state.db := by
  refine (proof hserve).steps_rule (J := fun i q x s => x.2 = x.1 ∨ ∃ e, x.2.trace = x.1.trace ++ [(i, e)]
      ∧ S.step e x.1.db x.2.db ∧ S.may i q e ∧ S.Inv x.1
      ∧ ∃ es, s.trace = x.2.trace ++ es ∧ Path S.step x.2.db es s.db) ?_ ?_ ?_ (proof_initial hserve hd) h
  · intro i q s s' hi hg
    rcases hg with heq | ⟨e, htrace, hstep, hmay⟩
    · exact .inl heq
    · exact .inr ⟨e, htrace, hstep, hmay, hi, [], by simp, .nil⟩
  · intro i q x j q' s s' hg hj
    rcases hj with heq | ⟨e, htrace, hstep, hmay, hi, es, hes, hpath⟩
    · exact .inl heq
    · obtain ⟨es', hes', hpath'⟩ := System.Acts.path hg
      exact .inr ⟨e, htrace, hstep, hmay, hi, es ++ es', by rw [hes', hes, List.append_assoc], hpath.trans hpath'⟩
  · intro i q x e
    exact e.elim

variable {i : ι}

/-- A program that has written nothing has changed nothing. -/
theorem unchanged_of_own (hserve : Serves S storage serve post) (hd : S.start d)
    (h : (machine storage serve).Reach S.allowed (DbPool.initial d) p)
    (hown : Wrote i [] p.state) {t : Thread (DbCall δ ε ι E) (Traced δ ι E) ε α Req} (ht : p.thread i = some t) :
    ∀ x ∈ t.steps, x.2 = x.1 := by
  intro x hx
  rcases steps_act hserve hd h i t ht x hx with heq | ⟨e, htrace, _, _, _, es, hes, _⟩
  · exact heq
  · have hmem : e ∈ own i p.state.trace := by
      rw [Journal.mem_own, hes, htrace]
      simp
    rw [hown] at hmem
    cases hmem

theorem call_of_entry (hserve : Serves S storage serve post) (hd : S.start d)
    (h : (machine storage serve).Reach S.allowed (DbPool.initial d) p) : ∀ i e, (i, e) ∈ p.state.trace →
      ∃ t x, p.thread i = some t ∧ x ∈ t.steps ∧ x.2.trace = x.1.trace ++ [(i, e)] ∧ S.step e x.1.db x.2.db := by
  have h₀ := proof_initial hserve hd
  induction h with
  | init => exact fun i e hm => by cases hm
  | step hp ha hs ih =>
    rename_i p p' l
    intro i e hm
    have hold : (i, e) ∈ p.state.trace → ∃ t x, p'.thread i = some t ∧ x ∈ t.steps ∧ x.2.trace = x.1.trace ++ [(i, e)]
        ∧ S.step e x.1.db x.2.db := by
      intro hm
      obtain ⟨t, x, ht, hx, hstep⟩ := ih i e hm
      obtain ⟨t', ht', _, hsteps⟩ := Machine.thread_stays (fun _ _ => rfl) hs ht
      exact ⟨t', x, ht', hsteps x hx, hstep⟩
    cases l with
    | start j q =>
      simp only [Machine.step] at hs
      split at hs
      · cases hs
        exact hold hm
      · cases hs
    | run j f =>
      obtain ⟨t, ht, hact⟩ := (proof hserve).guar_of_run h₀ hp ha hs
      rcases hact with heq | ⟨e', htrace, hstep, _⟩
      · rw [heq] at hm
        exact hold hm
      · rw [htrace] at hm
        rcases List.mem_append.mp hm with hm | hm
        · exact hold hm
        · obtain ⟨rfl, rfl⟩ : i = j ∧ e = e' := by simpa using hm
          obtain ⟨t', ht', hx⟩ := Machine.call_of_run hs
          exact ⟨t', _, ht', hx, htrace, hstep⟩
    | env e => exact e.elim

/-- Every entry of the trace is one that the request of its program may write, in a state that transitions have led to. -/
theorem made_of_entry (hserve : Serves S storage serve post) (hd : S.start d)
    (h : (machine storage serve).Reach S.allowed (DbPool.initial d) p) {e : E} (hm : (i, e) ∈ p.state.trace) :
    ∃ q x es, p.Made i q x ∧ x.2.trace = x.1.trace ++ [(i, e)] ∧ S.step e x.1.db x.2.db ∧ S.may i q e ∧ S.Inv x.1
      ∧ p.state.trace = x.2.trace ++ es ∧ Path S.step x.2.db es p.state.db := by
  obtain ⟨t, x, ht, hx, htrace, hstep⟩ := call_of_entry hserve hd h i e hm
  rcases steps_act hserve hd h i t ht x hx with heq | ⟨e', htrace', _, hmay, hinv, es, hes, hpath⟩
  · rw [heq] at htrace
    have hlength := congrArg List.length htrace
    simp at hlength
  · obtain rfl : e = e' := by simpa using htrace.symm.trans htrace'
    exact ⟨t.req, x, es, ⟨t, ht, rfl, hx⟩, htrace, hstep, hmay, hinv, hes, hpath⟩

variable {x : Traced δ ι E × Traced δ ι E} {q : Req}

/-- A call that has changed the database has made a transition, from which transitions lead on. -/
theorem step_of_made (hserve : Serves S storage serve post) (hd : S.start d)
    (h : (machine storage serve).Reach S.allowed (DbPool.initial d) p)
    (hx : p.Made i q x) (hchanged : x.2 ≠ x.1) : ∃ e es, x.2.trace = x.1.trace ++ [(i, e)] ∧ S.step e x.1.db x.2.db ∧ S.may i q e
      ∧ S.Inv x.1 ∧ p.state.trace = x.2.trace ++ es ∧ Path S.step x.2.db es p.state.db := by
  obtain ⟨t, ht, rfl, hx⟩ := hx
  rcases steps_act hserve hd h i t ht x hx with heq | ⟨e, htrace, hstep, hmay, hinv, es, hes, hpath⟩
  · exact absurd heq hchanged
  · exact ⟨e, es, htrace, hstep, hmay, hinv, hes, hpath⟩

/-- What no transition takes away is turned on by at most one call. -/
theorem turns_once (hserve : Serves S storage serve post) (hd : S.start d)
    (h : (machine storage serve).Reach S.allowed (DbPool.initial d) p) {P : δ → Prop}
    (hstep : ∀ e d d', S.step e d d' → P d → P d') : ∀ i j t t' (a b : Nat) x y, p.thread i = some t → p.thread j = some t' →
      t.steps[a]? = some x → t'.steps[b]? = some y → Proof.Turns (fun s => P s.db) x → Proof.Turns (fun s => P s.db) y →
      i = j ∧ a = b := by
  refine (proof hserve).once_rule (fun s => P s.db) ?_ (fun e => e.elim) (proof_initial hserve hd) h
  intro i q s s' hg hp
  rcases hg with heq | ⟨e, _, hs, _⟩
  · rw [heq]
    exact hp
  · exact hstep e _ _ hs hp

theorem ended (hserve : Serves S storage serve post) (hd : S.start d)
    (h : (machine storage serve).Reach S.allowed (DbPool.initial d) p) {r : Except ε α}
    (hr : p.Returned i q r) : post i q r p.state := by
  obtain ⟨steps, ht⟩ := hr
  exact (proof hserve).post_of_done (proof_initial hserve hd) h ht

/-- The database of a pool is what its trace leads to. -/
theorem inv_of_reach (hserve : Serves S storage serve post) (hd : S.start d)
    (h : (machine storage serve).Reach S.allowed (DbPool.initial d) p) : S.Inv p.state :=
  ((proof hserve).sound (proof_initial hserve hd) h).1

theorem path_of_reach (hserve : Serves S storage serve post) (hd : S.start d)
    (h : (machine storage serve).Reach S.allowed (DbPool.initial d) p) (h' : (machine storage serve).Reach S.allowed p p') :
    ∃ es, p'.state.trace = p.state.trace ++ es ∧ Path S.step p.state.db es p'.state.db := by
  refine (proof hserve).run_rule (T := fun s s' => ∃ es, s'.trace = s.trace ++ es ∧ Path S.step s.db es s'.db)
    ?_ ?_ (fun _ _ _ _ hg => hg.path) (fun e => e.elim) (proof_initial hserve hd) h h'
  · exact fun s => ⟨[], by simp, .nil⟩
  · rintro s s' s'' ⟨es, hes, hp⟩ ⟨es', hes', hp'⟩
    exact ⟨es ++ es', by rw [hes', hes, List.append_assoc], hp.trans hp'⟩

/-- A call has left the database as it was, or made a transition that the trace has. -/
theorem effect_of_made (hserve : Serves S storage serve post) (hd : S.start d)
    (h : (machine storage serve).Reach S.allowed (DbPool.initial d) p)
    (hx : p.Made i q x) : x.2 = x.1 ∨ ∃ e, S.step e x.1.db x.2.db ∧ S.may i q e ∧ S.Inv x.1 ∧ (i, e) ∈ p.state.trace
      ∧ ∀ y ∈ x.1.trace, y ∈ p.state.trace := by
  obtain ⟨t, ht, rfl, hx⟩ := hx
  rcases steps_act hserve hd h i t ht x hx with heq | ⟨e, htrace, hstep, hmay, hinv, es, hes, _⟩
  · exact .inl heq
  · refine .inr ⟨e, hstep, hmay, hinv, ?_, ?_⟩
    · rw [hes, htrace]
      simp
    · intro y hy
      rw [hes, htrace]
      simp [hy]

/-- The call by which an ended request has written an entry. -/
theorem made_of_wrote (hserve : Serves S storage serve post) (hd : S.start d)
    (h : (machine storage serve).Reach S.allowed (DbPool.initial d) p) {r : Except ε α}
    (hr : p.Returned i q r) {es : List E} (hwrote : Wrote i es p.state) {e : E} (he : e ∈ es) :
    ∃ x, p.Made i q x ∧ S.step e x.1.db x.2.db := by
  obtain ⟨t, x, ht, hx, _, hstep⟩ := call_of_entry hserve hd h i e (hwrote.mem he)
  obtain ⟨steps, ht'⟩ := hr
  cases ht.symm.trans ht'
  exact ⟨x, ⟨_, ht, rfl, hx⟩, hstep⟩

/-- What holds after a call of a program, and is kept by every transition, holds now. -/
theorem kept_of_made (hserve : Serves S storage serve post) (hd : S.start d)
    (h : (machine storage serve).Reach S.allowed (DbPool.initial d) p) {P : δ → Prop}
    (hstep : ∀ e d d', S.step e d d' → P d → P d') (hx : p.Made i q x)
    (hchanged : x.2 ≠ x.1) (hp : P x.2.db) : P p.state.db := by
  obtain ⟨t, ht, rfl, hx⟩ := hx
  rcases steps_act hserve hd h i t ht x hx with heq | ⟨e, _, _, _, _, es, _, hpath⟩
  · exact absurd heq hchanged
  · exact hpath.rule hstep hp

/-- A request that arrives later finds what every transition keeps. -/
theorem late_call (hserve : Serves S storage serve post) (hd : S.start d)
    (h : (machine storage serve).Reach S.allowed (DbPool.initial d) p) (h' : (machine storage serve).Reach S.allowed p p')
    {P : δ → Prop} (hstep : ∀ e d d', S.step e d d' → P d → P d') (hp : P p.state.db) (hi : p.thread i = none)
    (hx : p'.Made i q x) : P x.1.db := by
  obtain ⟨t, ht, rfl, hx⟩ := hx
  induction h' generalizing t with
  | init =>
    rw [hi] at ht
    cases ht
  | step hreach ha hs ih =>
    rcases Proof.thread_of_step hs ht with hnil | ⟨t₀, ht₀, _, hsteps | ⟨_, hsteps⟩⟩
    · rw [hnil] at hx
      cases hx
    · exact ih t₀ ht₀ (hsteps ▸ hx)
    · rw [hsteps] at hx
      rcases List.mem_append.mp hx with hx | hx
      · exact ih t₀ ht₀ hx
      · rw [List.mem_singleton.mp hx]
        obtain ⟨es, _, hpath⟩ := path_of_reach hserve hd h hreach
        exact hpath.rule hstep hp

theorem later_call (hserve : Serves S storage serve post) (hd : S.start d)
    (h : (machine storage serve).Reach S.allowed (DbPool.initial d) p) (h' : (machine storage serve).Reach S.allowed p p')
    (hnot : ¬ p.Made i q x) (hx : p'.Made i q x) :
    ∃ es es', x.1.trace = p.state.trace ++ es ∧ Path S.step p.state.db es x.1.db ∧ p'.state.trace = x.1.trace ++ es' := by
  obtain ⟨t, ht, hq, hx⟩ := hx
  induction h' generalizing t with
  | init => exact absurd ⟨t, ht, hq, hx⟩ hnot
  | step hreach ha hs ih =>
    rename_i p₁ p₂ l
    have hreach₁ : (machine storage serve).Reach S.allowed (DbPool.initial d) p₁ := Machine.Reach.trans h hreach
    obtain ⟨es₂, hes₂, _⟩ := path_of_reach hserve hd hreach₁ (.step .init ha hs)
    rcases Proof.thread_of_step hs ht with hnil | ⟨t₀, ht₀, hreq, hsteps | ⟨_, hsteps⟩⟩
    · rw [hnil] at hx
      cases hx
    · obtain ⟨es, es', h1, h2, h3⟩ := ih t₀ ht₀ (hreq.trans hq) (hsteps ▸ hx)
      exact ⟨es, es' ++ es₂, h1, h2, by rw [hes₂, h3, List.append_assoc]⟩
    · rw [hsteps] at hx
      rcases List.mem_append.mp hx with hx | hx
      · obtain ⟨es, es', h1, h2, h3⟩ := ih t₀ ht₀ (hreq.trans hq) hx
        exact ⟨es, es' ++ es₂, h1, h2, by rw [hes₂, h3, List.append_assoc]⟩
      · rw [List.mem_singleton.mp hx]
        obtain ⟨es, hes, hpath⟩ := path_of_reach hserve hd h hreach
        exact ⟨es, es₂, hes, hpath, hes₂⟩

/-- A program has written at most as often as it runs batches. -/
theorem own_length_le (hserve : Serves S storage serve post) (hd : S.start d)
    (h : (machine storage serve).Reach S.allowed (DbPool.initial d) p) {n : Nat} (hn : Within n (serve i q))
    {t : Thread (DbCall δ ε ι E) (Traced δ ι E) ε α Req} (ht : p.thread i = some t) (hq : t.req = q) :
    (own i p.state.trace).length ≤ n := by
  -- what a program has written and the batches that are left to it
  suffices hleft : ∃ m, Within m t.prog ∧ (own i p.state.trace).length + m ≤ n by
    obtain ⟨m, _, hm⟩ := hleft
    omega
  induction h generalizing t with
  | init => cases ht
  | step hreach ha hs ih =>
    rename_i p p' l
    cases l with
    | start j q' =>
      have hgood := ((proof hserve).sound (proof_initial hserve hd) hreach).2 i
      simp only [Machine.step] at hs
      split at hs
      · rename_i hnone
        cases hs
        by_cases hij : i = j
        · subst hij
          simp only [Function.update_self, Option.some.injEq] at ht
          subst ht
          subst hq
          simp only [Proof.Good, hnone] at hgood
          have hown : own i p.state.trace = [] := hgood
          exact ⟨n, hn, by rw [hown]; simp⟩
        · simp only [Function.update_of_ne hij] at ht
          exact ih ht hq
      · cases hs
    | run j f =>
      obtain ⟨_, _, hact⟩ := (proof hserve).guar_of_run (proof_initial hserve hd) hreach ha hs
      simp only [Machine.step] at hs
      split at hs
      · rename_i q' β c k steps ht'
        split at hs
        · rename_i s' b he
          cases hs
          by_cases hij : i = j
          · subst hij
            simp only [Function.update_self, Option.some.injEq] at ht
            subst ht
            obtain ⟨m, hm, hle⟩ := ih ht' hq
            cases c with
            | read f' =>
              have hsame : s' = p.state := by
                simp only [machine, exec, Option.some.injEq, Prod.mk.injEq] at he
                exact he.1.symm
              exact ⟨m, within_read.mp hm b, by rw [hsame]; exact hle⟩
            | batch i' f' =>
              cases m with
              | zero => exact hm.elim
              | succ m =>
                refine ⟨m, hm b, ?_⟩
                rcases hact with heq | ⟨e, htrace, _⟩
                · have hsame : s' = p.state := heq
                  rw [hsame]
                  have hnow : (own i p.state.trace).length + m ≤ n := by omega
                  exact hnow
                · have htrace' : s'.trace = p.state.trace ++ [(i, e)] := htrace
                  rw [htrace', Journal.own_append_singleton, if_pos rfl, List.length_append, List.length_singleton]
                  omega
          · have hrely : S.Rely i p.state s' := System.Acts.rely (fun heq => hij heq.symm) hact
            simp only [Function.update_of_ne hij] at ht
            rw [hrely.own]
            exact ih ht hq
        · cases hs
      · cases hs
    | env e => exact e.elim

/-- Every call that a request has made left the state as it was, or had an effect of a batch of its program. -/
theorem effect_of_only {K : ι → Req → δ → δ → Prop} (honly : ∀ i q, Only i (K i q) (serve i q))
    {allowed : Guard (DbCall δ ε ι E) (Traced δ ι E)} (h : (machine storage serve).Reach allowed (DbPool.initial d) p) :
    ∀ i t, p.thread i = some t → Only i (K i t.req) t.prog ∧ ∀ x ∈ t.steps, x.2 = x.1 ∨ K i t.req x.1.db x.2.db := by
  induction h with
  | init =>
    intro i t ht
    cases ht
  | step hp ha hs ih =>
    rename_i p p' l
    intro i t ht
    cases l with
    | start j q =>
      simp only [Machine.step] at hs
      split at hs
      · cases hs
        by_cases hij : i = j
        · subst hij
          simp only [Function.update_self, Option.some.injEq] at ht
          subst ht
          refine ⟨honly i q, ?_⟩
          intro x hx
          cases hx
        · simp only [Function.update_of_ne hij] at ht
          exact ih i t ht
      · cases hs
    | run j f =>
      simp only [Machine.step] at hs
      split at hs
      · rename_i q β c k steps hj
        split at hs
        · rename_i s' b he
          cases hs
          by_cases hij : i = j
          · subst hij
            simp only [Function.update_self, Option.some.injEq] at ht
            subst ht
            obtain ⟨hprog, hsteps⟩ := ih i _ hj
            suffices hcall : Only i (K i q) (k b) ∧ (s' = p.state ∨ K i q p.state.db s'.db) by
              refine ⟨hcall.1, fun x hx => ?_⟩
              rcases List.mem_append.mp hx with hx | hx
              · exact hsteps x hx
              · rw [List.mem_singleton.mp hx]
                exact hcall.2
            cases c with
            | read g =>
              simp only [machine, exec, Option.some.injEq, Prod.mk.injEq] at he
              exact ⟨hprog b, .inl he.1.symm⟩
            | batch i' g =>
              have he' : execBatch storage i' g f p.state = (s', b) := Option.some.inj he
              refine ⟨hprog.2 b, ?_⟩
              rcases @execBatch_cases δ ε ι E _ storage i' g f p.state with ⟨_, h⟩ | ⟨e, _, h⟩ | ⟨a, t, hg, h⟩
              · cases h.symm.trans he'
                exact .inl rfl
              · cases h.symm.trans he'
                exact .inl rfl
              · have hs' : s' = p.state.commit i' t := by
                  rcases h with h | ⟨_, h⟩ <;> cases h.symm.trans he' <;> rfl
                cases t with
                | none => exact .inl hs'
                | some x => exact .inr (hs' ▸ hprog.1.2 _ _ _ _ hg)
          · simp only [Function.update_of_ne hij] at ht
            exact ih i t ht
        · cases hs
      · cases hs
    | env e => exact e.elim

/-- What did not hold at the start and holds now was turned on by a call of a request. -/
theorem turned_of_reach {allowed : Guard (DbCall δ ε ι E) (Traced δ ι E)}
    (h : (machine storage serve).Reach allowed (DbPool.initial d) p) {P : δ → Prop} (hd : ¬ P d) (hp : P p.state.db) :
    ∃ i q x, p.Made i q x ∧ Proof.Turns (fun s => P s.db) x := by
  induction h with
  | init => exact absurd hp hd
  | step hreach ha hs ih =>
    rename_i p₁ p₂ l
    by_cases hold : P p₁.state.db
    · obtain ⟨i, q, x, ⟨t, ht, hreq, hx⟩, hturns⟩ := ih hold
      obtain ⟨t', ht', hreq', hsteps⟩ := Machine.thread_stays (fun _ _ => rfl) hs ht
      exact ⟨i, q, x, ⟨t', ht', hreq'.trans hreq, hsteps x hx⟩, hturns⟩
    · cases l with
      | start j q =>
        simp only [Machine.step] at hs
        split at hs
        · cases hs
          exact absurd hp hold
        · cases hs
      | run j f =>
        obtain ⟨t, ht, hx⟩ := Machine.call_of_run hs
        exact ⟨j, t.req, _, ⟨t, ht, rfl, hx⟩, hold, hp⟩
      | env e => exact e.elim

end Machine

/-! ## Programs alone -/

section Alone

variable {δ ε ι E Req α β : Type}

/-- What a program ends with, and the database it leaves, when nothing else happens and every call is answered. -/
def alone : DbProg δ ε ι E α → δ → Except ε α × δ
  | .ret r, d => (r, d)
  | .call (.read f) k, d => alone (k (.ok (f d))) d
  | .call (.batch _ f) k, d =>
    match f d with
    | .error e => alone (k (.error e)) d
    | .ok (b, t) => alone (k (.ok b)) ((t.map Prod.snd).getD d)

/-- A program in front of another. -/
theorem alone_bind {g : α → DbProg δ ε ι E β} {a : α} {d' : δ} :
    ∀ {p : DbProg δ ε ι E α} {d : δ}, alone p d = (.ok a, d') → alone (p >>= g) d = alone (g a) d' := by
  intro p
  induction p with
  | ret r =>
    intro d h
    cases h
    rfl
  | call c k ih =>
    intro d h
    cases c with
    | read f => exact ih _ h
    | batch i f =>
      simp only [alone] at h
      change alone (.call (.batch i f) fun b => (k b).bind g) d = _
      simp only [alone]
      split at h
      · exact ih _ h
      · exact ih _ h

/-- A program that throws in front of another. -/
theorem alone_bind_error {g : α → DbProg δ ε ι E β} {e : ε} {d' : δ} :
    ∀ {p : DbProg δ ε ι E α} {d : δ}, alone p d = (.error e, d') → alone (p >>= g) d = (.error e, d') := by
  intro p
  induction p with
  | ret r =>
    intro d h
    cases h
    rfl
  | call c k ih =>
    intro d h
    cases c with
    | read f => exact ih _ h
    | batch i f =>
      simp only [alone] at h
      change alone (.call (.batch i f) fun b => (k b).bind g) d = _
      simp only [alone]
      split at h
      · exact ih _ h
      · exact ih _ h

theorem alone_evaluate {r : Except ε β} {b : β} (h : r = .ok b) (d : δ) :
    alone (evaluate r : DbProg δ ε ι E β) d = (.ok b, d) := by
  rw [h]
  rfl

theorem alone_read (f : δ → β) (d : δ) : alone (read f : DbProg δ ε ι E β) d = (.ok (f d), d) := rfl

theorem alone_batch {i : ι} {f : δ → Except ε (β × Option (E × δ))} {b : β} {t : Option (E × δ)} {d : δ}
    (h : f d = .ok (b, t)) : alone (batch i f) d = (.ok b, (t.map Prod.snd).getD d) := by
  change alone (.call (.batch i f) fun r => .ret r) d = _
  simp only [alone, h]

theorem alone_batch_error {i : ι} {f : δ → Except ε (β × Option (E × δ))} {e : ε} {d : δ} (h : f d = .error e) :
    alone (batch i f) d = (.error e, d) := by
  change alone (.call (.batch i f) fun r => .ret r) d = _
  simp only [alone, h]

variable [DecidableEq ι]

theorem alone_run (storage : ε) (serve : ι → Req → DbProg δ ε ι E α) (allowed : Guard (DbCall δ ε ι E) (Traced δ ι E))
    (hall : ∀ (β : Type) (c : DbCall δ ε ι E β) s, allowed β c .none s) (i : ι) (q : Req) :
    ∀ (prog : DbProg δ ε ι E α) (p : DbPool δ ε ι E α Req) (steps : List (Traced δ ι E × Traced δ ι E)),
      p.thread i = some ⟨q, prog, steps⟩ → ∃ p', (machine storage serve).Reach allowed p p' ∧
        p'.Returned i q (alone prog p.state.db).1 ∧ p'.state.db = (alone prog p.state.db).2 := by
  intro prog
  induction prog with
  | ret r => exact fun p steps h => ⟨p, .init, ⟨steps, h⟩, rfl⟩
  | call c k ih =>
    intro p steps h
    have hallows : Machine.Allows allowed p (.run i .none : Label ι Req Empty) := by
      simp only [Machine.Allows, h]
      exact hall _ _ _
    -- one call, and the rest from the state after it
    suffices hcall : ∃ s' b, exec storage c .none p.state = some (s', b) ∧
        alone (.call c k) p.state.db = alone (k b) s'.db by
      obtain ⟨s', b, he, halone⟩ := hcall
      obtain ⟨p', hreach, hreturned, hdb⟩ := ih b ⟨s', Function.update p.thread i (some ⟨q, k b, steps ++ [(p.state, s')]⟩)⟩
        _ (Function.update_self ..)
      have hs : (machine storage serve).step (.run i .none) p =
          some ⟨s', Function.update p.thread i (some ⟨q, k b, steps ++ [(p.state, s')]⟩)⟩ := by
        simp only [Machine.step, h]
        simp only [machine, he]
      refine ⟨p', Machine.Reach.trans (.step .init hallows hs) hreach, ?_, ?_⟩
      · rw [halone]
        exact hreturned
      · rw [halone]
        exact hdb
    cases c with
    | read f => exact ⟨_, _, rfl, rfl⟩
    | batch j f =>
      cases hf : f p.state.db with
      | error e => exact ⟨p.state, .error e, by simp [exec, execBatch, hf], by simp [alone, hf]⟩
      | ok r =>
        obtain ⟨b, t⟩ := r
        refine ⟨p.state.commit j t, .ok b, by simp [exec, execBatch, hf], ?_⟩
        cases t <;> simp [alone, hf, Traced.commit]

/-- A request that arrives now can be served to its end before anything else happens. -/
theorem alone_reach (storage : ε) (serve : ι → Req → DbProg δ ε ι E α) (allowed : Guard (DbCall δ ε ι E) (Traced δ ι E))
    (hall : ∀ (β : Type) (c : DbCall δ ε ι E β) s, allowed β c .none s) {p : DbPool δ ε ι E α Req} {i : ι}
    (hfree : p.thread i = none) (q : Req) : ∃ p', (machine storage serve).Reach allowed p p' ∧
      p'.Returned i q (alone (serve i q) p.state.db).1 ∧ p'.state.db = (alone (serve i q) p.state.db).2 := by
  have hs : (machine storage serve).step (.start i q) p =
      some { p with thread := Function.update p.thread i (some ⟨q, serve i q, []⟩) } := by
    simp only [Machine.step, hfree, machine]
  obtain ⟨p', hreach, hend⟩ := alone_run storage serve allowed hall i q (serve i q)
    { p with thread := Function.update p.thread i (some ⟨q, serve i q, []⟩) } [] (Function.update_self ..)
  have hallows : Machine.Allows allowed p (.start i q : Label ι Req Empty) := trivial
  exact ⟨p', Machine.Reach.trans (.step .init hallows hs) hreach, hend⟩

end Alone

end Lib.Trace
