import UniDocs.Lib.Trace

/-!
# Programs over a part of a database

A program that was written for a small database runs on a larger one that has the small one as a part: it reads the part, and its
batches change the part only. `Batches` says of a program what each of its batches may do, whatever the calls before it have
answered; it is all that is needed of a program of which only the transitions matter.
-/

namespace Lib.Trace

variable {δ δ' ε ι E E' α β : Type}

/-- A database as a part of another one, with the labels of its transitions. -/
structure Part (δ δ' E E' : Type) where
  get : δ' → δ
  set : δ → δ' → δ'
  label : E → E'

namespace Part

variable (v : Part δ δ' E E')

/-- A batch of the part. -/
def batch (f : δ → Except ε (β × Option (E × δ))) (d' : δ') : Except ε (β × Option (E' × δ')) :=
  (f (v.get d')).map fun r => (r.1, r.2.map fun t => (v.label t.1, v.set t.2 d'))

/-- A call on the part. -/
def call : DbCall δ ε ι E β → DbCall δ' ε ι E' β
  | .read f => .read fun d' => f (v.get d')
  | .batch i f => .batch i (v.batch f)

/-- A program on the part. -/
def lift : DbProg δ ε ι E α → DbProg δ' ε ι E' α
  | .ret r => .ret r
  | .call c k => .call (v.call c) fun b => lift (k b)

/-- What a batch of the part does, it does to the part. -/
theorem batch_ok {f : δ → Except ε (β × Option (E × δ))} {d' d₁ : δ'} {b : β} {e' : E'}
    (h : v.batch f d' = .ok (b, some (e', d₁))) :
    ∃ e d, f (v.get d') = .ok (b, some (e, d)) ∧ e' = v.label e ∧ d₁ = v.set d d' := by
  unfold batch at h
  cases hf : f (v.get d') with
  | error _ =>
    rw [hf] at h
    cases h
  | ok r =>
    obtain ⟨b', t⟩ := r
    rw [hf] at h
    cases t with
    | none => cases h
    | some t =>
      obtain ⟨e, d⟩ := t
      cases h
      exact ⟨e, d, rfl, rfl, rfl⟩

end Part

/-- Every batch of a program is one of the call `i`, and makes a transition of a kind. -/
def Batches (i : ι) (G : E → δ → δ → Prop) : DbProg δ ε ι E α → Prop
  | .ret _ => True
  | .call (.read _) k => ∀ b, Batches i G (k b)
  | .call (.batch j f) k => j = i ∧ (∀ d b e d', f d = .ok (b, some (e, d')) → G e d d') ∧ ∀ b, Batches i G (k b)

namespace Batches

variable {i : ι} {G : E → δ → δ → Prop}

theorem pure (a : α) : Batches i G (Pure.pure a : DbProg δ ε ι E α) := trivial

theorem throw (e : ε) : Batches i G (MonadExcept.throw e : DbProg δ ε ι E α) := trivial

theorem evaluate (r : Except ε β) : Batches i G (Trace.evaluate r : DbProg δ ε ι E β) := trivial

theorem read (f : δ → β) : Batches i G (Trace.read f : DbProg δ ε ι E β) := fun _ => trivial

theorem batch {f : δ → Except ε (β × Option (E × δ))} (h : ∀ d b e d', f d = .ok (b, some (e, d')) → G e d d') :
    Batches i G (Trace.batch i f) := ⟨rfl, h, fun _ => trivial⟩

theorem bind {p : DbProg δ ε ι E α} {g : α → DbProg δ ε ι E β} (hp : Batches i G p) (hg : ∀ a, Batches i G (g a)) :
    Batches i G (p >>= g) := by
  induction p with
  | ret r =>
    cases r with
    | ok a => exact hg a
    | error e => exact trivial
  | call c k ih =>
    cases c with
    | read f => exact fun b => ih b (hp b)
    | batch j f => exact ⟨hp.1, hp.2.1, fun b => ih b (hp.2.2 b)⟩

theorem tryCatch {p : DbProg δ ε ι E α} {g : ε → DbProg δ ε ι E α} (hp : Batches i G p) (hg : ∀ e, Batches i G (g e)) :
    Batches i G (p.tryCatch g) := by
  induction p with
  | ret r =>
    cases r with
    | ok a => exact trivial
    | error e => exact hg e
  | call c k ih =>
    cases c with
    | read f => exact fun b => ih b (hp b)
    | batch j f => exact ⟨hp.1, hp.2.1, fun b => ih b (hp.2.2 b)⟩

theorem lawful_lift {Req : Type} {S : System δ' ε ι E' Req} {storage : ε} {q : Req} {v : Part δ δ' E E'} {p : DbProg δ ε ι E α}
    (hp : Batches i G p) (h : ∀ e d d', G e (v.get d') d → S.step (v.label e) d' (v.set d d') ∧ S.may i q (v.label e)) :
    S.Lawful storage i q (v.lift p) := by
  induction p with
  | ret r =>
    cases r with
    | ok a => exact System.Lawful.pure a
    | error e => exact System.Lawful.throw e
  | call c k ih =>
    intro s hi _ fault s' b ha he
    cases c with
    | read f =>
      have hread : S.Lawful storage i q (Trace.read fun d' => f (v.get d')) := System.Lawful.read _
      obtain ⟨h1, h2, _⟩ := hread s hi trivial fault s' b ha he
      exact ⟨h1, h2, fun s'' _ hi'' => ih b (hp b) s'' hi'' trivial⟩
    | batch j f =>
      obtain ⟨rfl, hf, hk⟩ := hp
      have hbatch : S.Lawful storage j q (Trace.batch j (v.batch f)) := by
        refine System.Lawful.batch fun d' b e' d₁ hb => ?_
        obtain ⟨e, d, hok, rfl, rfl⟩ := v.batch_ok hb
        exact h e d d' (hf _ _ _ _ hok)
      obtain ⟨h1, h2, _⟩ := hbatch s hi trivial fault s' b ha he
      exact ⟨h1, h2, fun s'' _ hi'' => ih b (hk b) s'' hi'' trivial⟩

end Batches

end Lib.Trace

/-!
## The calls of one program, in their order

The calls that a program of a pool has made are an execution of the program from its start, and each of them was made on what
transitions have made of the database since the one before. A program that is gated reads a fact first, and makes no other
call where it does not hold; so whatever it does later, the fact held when it was read.
-/

namespace Lib.Trace

/-! ## Gates -/

section Gated

variable {δ δ' ε ι E E' α β : Type} {P : δ → Prop}

/-- A program that reads first, and ends there when the read fails or a fact does not hold. -/
def Gated (P : δ → Prop) : DbProg δ ε ι E α → Prop
  | .call (.read f) k => (∀ d, ¬ P d → ∃ r, k (.ok (f d)) = .ret r) ∧ ∀ e, ∃ r, k (.error e) = .ret r
  | _ => False

/-- What makes no call after a gated program does not matter. -/
theorem Gated.bind_pure {p : DbProg δ ε ι E α} (h : Gated P p) (g : α → β) :
    Gated P (p >>= fun a => (pure (g a) : DbProg δ ε ι E β)) := by
  have hret : ∀ r : Except ε α, ∃ r', ((.ret r : DbProg δ ε ι E α) >>= fun a => (pure (g a) : DbProg δ ε ι E β)) = .ret r' := by
    intro r
    cases r with
    | ok a => exact ⟨_, rfl⟩
    | error e => exact ⟨_, rfl⟩
  cases p with
  | ret r => exact h.elim
  | call c k =>
    cases c with
    | batch i f => exact h.elim
    | read f =>
      refine ⟨fun d hd => ?_, fun e => ?_⟩
      · obtain ⟨r, hr⟩ := h.1 d hd
        obtain ⟨r', hr'⟩ := hret r
        exact ⟨r', (congrArg (· >>= fun a => (pure (g a) : DbProg δ ε ι E β)) hr).trans hr'⟩
      · obtain ⟨r, hr⟩ := h.2 e
        obtain ⟨r', hr'⟩ := hret r
        exact ⟨r', (congrArg (· >>= fun a => (pure (g a) : DbProg δ ε ι E β)) hr).trans hr'⟩

theorem Gated.lift {p : DbProg δ ε ι E α} (h : Gated P p) (v : Part δ δ' E E') : Gated (fun d' => P (v.get d')) (v.lift p) := by
  cases p with
  | ret r => exact h.elim
  | call c k =>
    cases c with
    | batch i f => exact h.elim
    | read f =>
      refine ⟨fun d' hd => ?_, fun e => ?_⟩
      · obtain ⟨r, hr⟩ := h.1 _ hd
        exact ⟨r, congrArg v.lift hr⟩
      · obtain ⟨r, hr⟩ := h.2 e
        exact ⟨r, congrArg v.lift hr⟩

end Gated

/-! ## Executions -/

section Runs

variable {δ ε ι E Req α : Type}

/-- A program has made calls, with the state before and after each, and another program is left. -/
inductive Runs (storage : ε) (p : DbProg δ ε ι E α) : List (Traced δ ι E × Traced δ ι E) → DbProg δ ε ι E α → Prop
  | nil : Runs storage p [] p
  | snoc {steps : List (Traced δ ι E × Traced δ ι E)} {β : Type} {c : DbCall δ ε ι E β} {k : β → DbProg δ ε ι E α}
      (h : Runs storage p steps (.call c k)) {fault : Fault} {s s' : Traced δ ι E} {b : β}
      (he : exec storage c fault s = some (s', b)) : Runs storage p (steps ++ [(s, s')]) (k b)

/-- What a gated program has done: nothing, or a read after which it has ended or the fact held. -/
theorem Gated.of_runs {storage : ε} {P : δ → Prop} {p p' : DbProg δ ε ι E α} {steps : List (Traced δ ι E × Traced δ ι E)}
    (hg : Gated P p) (h : Runs storage p steps p') : (steps = [] ∧ p' = p)
      ∨ ∃ s rest, steps = (s, s) :: rest ∧ (P s.db ∨ (rest = [] ∧ ∃ r, p' = .ret r)) := by
  induction h with
  | nil => exact .inl ⟨rfl, rfl⟩
  | snoc h he ih =>
    rename_i steps β c k fault s s' b
    rcases ih with ⟨rfl, hp⟩ | ⟨s₀, rest, rfl, hfact | ⟨_, r, hret⟩⟩
    · subst hp
      cases c with
      | batch i f => exact hg.elim
      | read f =>
        have he' : some (s, if fault = .none then .ok (f s.db) else .error storage) = some (s', b) := he
        cases he'
        refine .inr ⟨s, [], rfl, ?_⟩
        split
        · by_cases hfact : P s.db
          · exact .inl hfact
          · exact .inr ⟨rfl, hg.1 _ hfact⟩
        · exact .inr ⟨rfl, hg.2 _⟩
    · exact .inr ⟨s₀, rest ++ [(s, s')], rfl, .inl hfact⟩
    · cases hret

variable [DecidableEq ι] {storage : ε} {serve : ι → Req → DbProg δ ε ι E α} {d : δ}

/-- The calls of a program of a pool are an execution of the program that serves its request. -/
theorem runs_of_reach {allowed : Guard (DbCall δ ε ι E) (Traced δ ι E)} {p : DbPool δ ε ι E α Req}
    (h : (machine storage serve).Reach allowed (DbPool.initial d) p) : ∀ i t, p.thread i = some t →
      Runs storage (serve i t.req) t.steps t.prog := by
  induction h with
  | init =>
    intro i t ht
    cases ht
  | step hp ha hs ih =>
    rename_i p p' l
    intro i t ht
    cases l with
    | start j q =>
      simp only [Machine.step] at hs
      split at hs
      · cases hs
        by_cases hij : i = j
        · subst hij
          simp only [Function.update_self, Option.some.injEq] at ht
          subst ht
          exact .nil
        · simp only [Function.update_of_ne hij] at ht
          exact ih i t ht
      · cases hs
    | run j f =>
      simp only [Machine.step] at hs
      split at hs
      · rename_i q β c k steps hj
        split at hs
        · rename_i s' b he
          cases hs
          by_cases hij : i = j
          · subst hij
            simp only [Function.update_self, Option.some.injEq] at ht
            subst ht
            exact .snoc (ih i _ hj) he
          · simp only [Function.update_of_ne hij] at ht
            exact ih i t ht
        · cases hs
      · cases hs
    | env e => exact e.elim

end Runs

/-! ## The order of calls -/

section Order

variable {δ ε ι E Req α : Type} {S : System δ ε ι E Req}

/-- Transitions have led from a state to a later one. -/
def Leads (S : System δ ε ι E Req) (s s' : Traced δ ι E) : Prop :=
  ∃ es, s'.trace = s.trace ++ es ∧ Path S.step s.db es s'.db

theorem Leads.refl (s : Traced δ ι E) : Leads S s s := ⟨[], by simp, .nil⟩

theorem Leads.trans {s s' s'' : Traced δ ι E} (h : Leads S s s') (h' : Leads S s' s'') : Leads S s s'' := by
  obtain ⟨es, hes, hp⟩ := h
  obtain ⟨es', hes', hp'⟩ := h'
  exact ⟨es ++ es', by rw [hes', hes, List.append_assoc], hp.trans hp'⟩

variable [DecidableEq ι] {storage : ε} {serve : ι → Req → DbProg δ ε ι E α}
  {post : ι → Req → Except ε α → Traced δ ι E → Prop} {d : δ} {p : DbPool δ ε ι E α Req}

/-- Each call of a program was made on what transitions have made of the database since the calls before it. -/
theorem calls_ordered (hserve : Serves S storage serve post) (hd : S.start d)
    (h : (machine storage serve).Reach S.allowed (DbPool.initial d) p) : ∀ i t, p.thread i = some t →
      t.steps.Pairwise (fun y x => Leads S y.2 x.1) ∧ ∀ x ∈ t.steps, Leads S x.2 p.state := by
  have h₀ := proof_initial hserve hd
  induction h with
  | init =>
    intro i t ht
    cases ht
  | step hp ha hs ih =>
    rename_i p p' l
    intro i t ht
    have hlater : Leads S p.state p'.state := path_of_reach hserve hd hp (.step .init ha hs)
    rcases Proof.thread_of_step hs ht with hnil | ⟨t₀, ht₀, _, hsteps | ⟨_, hsteps⟩⟩
    · rw [hnil]
      exact ⟨.nil, by simp⟩
    · obtain ⟨hpair, hall⟩ := ih i t₀ ht₀
      rw [hsteps]
      exact ⟨hpair, fun x hx => (hall x hx).trans hlater⟩
    · obtain ⟨hpair, hall⟩ := ih i t₀ ht₀
      rw [hsteps]
      refine ⟨List.pairwise_append.mpr ⟨hpair, List.pairwise_singleton .., ?_⟩, ?_⟩
      · intro y hy x hx
        rw [List.mem_singleton.mp hx]
        exact hall y hy
      · intro x hx
        rcases List.mem_append.mp hx with hx | hx
        · exact (hall x hx).trans hlater
        · rw [List.mem_singleton.mp hx]
          exact Leads.refl _

end Order

end Lib.Trace
