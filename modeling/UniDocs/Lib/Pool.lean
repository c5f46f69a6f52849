import UniDocs.Lib.Prog

/-!
# Pools of programs

A machine serves requests: each request starts a program, the programs take turns call by call in any order, and the
environment acts between any two calls, ending programs where it says so (a crash). A run is a list of labels, and
`Machine.step` executes one label, so a run can be evaluated. `Proof.sound` turns the safety of each program on its own
into facts about every state a pool reaches.
-/

namespace Lib

universe u

/-- A program serving a request, with the effect of each of its own calls so far (the state before and after). -/
structure Thread (Call : Type → Type u) (σ ε α Req : Type) where
  req : Req
  prog : Prog Call ε α
  steps : List (σ × σ)

/-- The shared state and the programs running over it. -/
structure Pool (Call : Type → Type u) (σ ε α ι Req : Type) where
  state : σ
  thread : ι → Option (Thread Call σ ε α Req)

/-- The result of a program that has ended. -/
def Pool.result {Call : Type → Type u} {σ ε α ι Req : Type} (p : Pool Call σ ε α ι Req) (i : ι) : Option (Except ε α) :=
  match p.thread i with
  | some ⟨_, .ret r, _⟩ => some r
  | _ => none

/-- The program that serves a request has ended. -/
def Pool.Returned {Call : Type → Type u} {σ ε α ι Req : Type} (p : Pool Call σ ε α ι Req) (i : ι) (q : Req)
    (r : Except ε α) : Prop :=
  ∃ steps, p.thread i = some ⟨q, .ret r, steps⟩

/-- The program that serves a request has made a call, with the state before and after it. -/
def Pool.Made {Call : Type → Type u} {σ ε α ι Req : Type} (p : Pool Call σ ε α ι Req) (i : ι) (q : Req) (x : σ × σ) : Prop :=
  ∃ t, p.thread i = some t ∧ t.req = q ∧ x ∈ t.steps

/-- One event of a run: a request arrives, a program makes its next call, or the environment acts. -/
inductive Label (ι Req Ev : Type) where
  | start (i : ι) (q : Req)
  | run (i : ι) (f : Fault)
  | env (e : Ev)

/-- How calls are executed, which program serves a request, and what the environment may do. -/
structure Machine (Call : Type → Type u) (σ ε α ι Req Ev : Type) where
  exec : ∀ {β : Type}, Call β → Fault → σ → Option (σ × β)
  serve : ι → Req → Prog Call ε α
  env : Ev → σ → Option σ
  kills : Ev → ι → Bool

namespace Machine

variable {Call : Type → Type u} {σ ε α ι Req Ev : Type}

/-- Execute one label; `none` when it is not possible in this pool. -/
def step [DecidableEq ι] (M : Machine Call σ ε α ι Req Ev) : Label ι Req Ev → Pool Call σ ε α ι Req → Option (Pool Call σ ε α ι Req)
  | .start i q, p =>
    match p.thread i with
    | none => some { p with thread := Function.update p.thread i (some ⟨q, M.serve i q, []⟩) }
    | some _ => none
  | .run i f, p =>
    match p.thread i with
    | some ⟨q, .call c k, h⟩ =>
      match M.exec c f p.state with
      | some (s', b) => some ⟨s', Function.update p.thread i (some ⟨q, k b, h ++ [(p.state, s')]⟩)⟩
      | none => none
    | _ => none
  | .env e, p =>
    match M.env e p.state with
    | some s' => some ⟨s', fun i => if M.kills e i then none else p.thread i⟩
    | none => none

/-- Execute a list of labels. -/
def exec? [DecidableEq ι] (M : Machine Call σ ε α ι Req Ev) : List (Label ι Req Ev) → Pool Call σ ε α ι Req →
    Option (Pool Call σ ε α ι Req)
  | [], p => some p
  | l :: ls, p =>
    match M.step l p with
    | some p' => exec? M ls p'
    | none => none

variable {M : Machine Call σ ε α ι Req Ev}

theorem start_of_thread [DecidableEq ι] (ls : List (Label ι Req Ev)) :
    ∀ {p p' : Pool Call σ ε α ι Req}, M.exec? ls p = some p' → ∀ {i : ι} {t : Thread Call σ ε α Req}, p'.thread i = some t →
      Label.start i t.req ∈ ls ∨ ∃ t', p.thread i = some t' ∧ t'.req = t.req := by
  induction ls with
  | nil =>
    intro p p' he i t ht
    cases he
    exact .inr ⟨t, ht, rfl⟩
  | cons l ls ih =>
    intro p p' he i t ht
    simp only [exec?] at he
    split at he
    · rename_i p₁ h₁
      rcases ih he ht with hmem | ⟨t₁, ht₁, hreq⟩
      · exact .inl (List.mem_cons_of_mem _ hmem)
      · rw [← hreq]
        cases l with
        | start j q =>
          simp only [step] at h₁
          split at h₁
          · cases h₁
            by_cases hij : i = j
            · subst hij
              simp only [Function.update_self, Option.some.injEq] at ht₁
              subst ht₁
              exact .inl List.mem_cons_self
            · simp only [Function.update_of_ne hij] at ht₁
              exact .inr ⟨t₁, ht₁, rfl⟩
          · cases h₁
        | run j f =>
          simp only [step] at h₁
          split at h₁
          · rename_i q β c k h hj
            split at h₁
            · cases h₁
              by_cases hij : i = j
              · subst hij
                simp only [Function.update_self, Option.some.injEq] at ht₁
                subst ht₁
                exact .inr ⟨_, hj, rfl⟩
              · simp only [Function.update_of_ne hij] at ht₁
                exact .inr ⟨t₁, ht₁, rfl⟩
            · cases h₁
          · cases h₁
        | env e =>
          simp only [step] at h₁
          split at h₁
          · cases h₁
            simp only at ht₁
            split at ht₁
            · cases ht₁
            · exact .inr ⟨t₁, ht₁, rfl⟩
          · cases h₁
    · cases he

/-- A program stays, with its request and the calls it has made. -/
theorem thread_stays [DecidableEq ι] (hkills : ∀ e i, M.kills e i = false)
    {p p' : Pool Call σ ε α ι Req} {l : Label ι Req Ev} (hs : M.step l p = some p') {i : ι} {t : Thread Call σ ε α Req}
    (ht : p.thread i = some t) : ∃ t', p'.thread i = some t' ∧ t'.req = t.req ∧ ∀ x ∈ t.steps, x ∈ t'.steps := by
  cases l with
  | start j q =>
    simp only [step] at hs
    split at hs
    · rename_i hn
      cases hs
      have hij : i ≠ j := by
        rintro rfl
        rw [hn] at ht
        cases ht
      exact ⟨t, by simp [hij, ht], rfl, fun _ hx => hx⟩
    · cases hs
  | run j f =>
    simp only [step] at hs
    split at hs
    · rename_i q β c k h hj
      split at hs
      · cases hs
        by_cases hij : i = j
        · subst hij
          rw [hj] at ht
          cases ht
          exact ⟨_, Function.update_self .., rfl, fun _ hx => List.mem_append_left _ hx⟩
        · exact ⟨t, by simp [hij, ht], rfl, fun _ hx => hx⟩
      · cases hs
    · cases hs
  | env e =>
    simp only [step] at hs
    split at hs
    · cases hs
      exact ⟨t, by simp [hkills, ht], rfl, fun _ hx => hx⟩
    · cases hs

/-- The call that a program makes is among those it has made. -/
theorem call_of_run [DecidableEq ι] {p p' : Pool Call σ ε α ι Req} {i : ι} {f : Fault}
    (hs : M.step (.run i f) p = some p') : ∃ t, p'.thread i = some t ∧ (p.state, p'.state) ∈ t.steps := by
  simp only [step] at hs
  split at hs
  · split at hs
    · cases hs
      exact ⟨_, Function.update_self .., by simp⟩
    · cases hs
  · cases hs

/-- Whether the call a label makes is in scope: the condition on a call, its fault and the state it meets. -/
def Allows (allowed : Guard Call σ) (p : Pool Call σ ε α ι Req) : Label ι Req Ev → Prop
  | .run i f =>
    match p.thread i with
    | some ⟨_, .call c _, _⟩ => allowed _ c f p.state
    | _ => True
  | _ => True

/-- The pools that runs reach when every call they make is in scope. -/
inductive Reach [DecidableEq ι] (M : Machine Call σ ε α ι Req Ev) (allowed : Guard Call σ)
    (p₀ : Pool Call σ ε α ι Req) : Pool Call σ ε α ι Req → Prop
  | init : Reach M allowed p₀ p₀
  | step {p p' : Pool Call σ ε α ι Req} {l : Label ι Req Ev} (hp : Reach M allowed p₀ p) (ha : Allows allowed p l)
      (hs : M.step l p = some p') : Reach M allowed p₀ p'

/-- Any call is in scope. -/
def anyCall : Guard Call σ := fun _ _ _ _ => True

theorem Allows.mono {A B : Guard Call σ} (h : ∀ β c f s, A β c f s → B β c f s) {p : Pool Call σ ε α ι Req}
    {l : Label ι Req Ev} (ha : Allows A p l) : Allows B p l := by
  unfold Allows at ha ⊢
  split
  · split
    · rename_i ht
      simp only [ht] at ha
      exact h _ _ _ _ ha
    · trivial
  · trivial

theorem allows_anyCall (p : Pool Call σ ε α ι Req) (l : Label ι Req Ev) : Allows anyCall p l := by
  unfold Allows
  split
  · split <;> trivial
  · trivial

/-- A wider scope of calls has more runs. -/
theorem Reach.mono [DecidableEq ι] {A B : Guard Call σ}
    (h : ∀ β c f s, A β c f s → B β c f s) {p₀ p : Pool Call σ ε α ι Req} (hp : Reach M A p₀ p) : Reach M B p₀ p := by
  induction hp with
  | init => exact .init
  | step _ ha hs ih => exact .step ih (ha.mono h) hs

/-- Runs go on from where runs have led. -/
theorem Reach.trans [DecidableEq ι] {A : Guard Call σ} {p₀ p p' : Pool Call σ ε α ι Req}
    (h : Reach M A p₀ p) (h' : Reach M A p p') : Reach M A p₀ p' := by
  induction h' with
  | init => exact h
  | step _ ha hs ih => exact .step ih ha hs

theorem reach_of_exec? [DecidableEq ι] {p₀ : Pool Call σ ε α ι Req} (ls : List (Label ι Req Ev)) :
    ∀ {p p' : Pool Call σ ε α ι Req}, Reach M anyCall p₀ p → M.exec? ls p = some p' →
      Reach M anyCall p₀ p' := by
  induction ls with
  | nil =>
    intro p p' hp he
    cases he
    exact hp
  | cons l ls ih =>
    intro p p' hp he
    simp only [exec?] at he
    split at he
    · rename_i p₁ h₁
      exact ih (.step hp (allows_anyCall p l) h₁) he
    · cases he

/-- Whether the call a label makes passes a test. -/
def passes (ok : ∀ β, Call β → Fault → σ → Bool) (p : Pool Call σ ε α ι Req) : Label ι Req Ev → Bool
  | .run i f =>
    match p.thread i with
    | some ⟨_, .call c _, _⟩ => ok _ c f p.state
    | _ => true
  | _ => true

/-- Execute a list of labels while their calls pass a test. -/
def execWhile? [DecidableEq ι] (M : Machine Call σ ε α ι Req Ev) (ok : ∀ β, Call β → Fault → σ → Bool) :
    List (Label ι Req Ev) → Pool Call σ ε α ι Req → Option (Pool Call σ ε α ι Req)
  | [], p => some p
  | l :: ls, p =>
    if passes ok p l then
      match M.step l p with
      | some p' => execWhile? M ok ls p'
      | none => none
    else none

/-- A list of labels whose calls pass a test leads to a pool that is reachable in any scope the test ensures. -/
theorem reach_of_execWhile? [DecidableEq ι] {A : Guard Call σ}
    {ok : ∀ β, Call β → Fault → σ → Bool} (hok : ∀ β c f s, ok β c f s = true → A β c f s)
    {p₀ : Pool Call σ ε α ι Req} (ls : List (Label ι Req Ev)) :
    ∀ {p p' : Pool Call σ ε α ι Req}, Reach M A p₀ p → M.execWhile? ok ls p = some p' → Reach M A p₀ p' := by
  induction ls with
  | nil =>
    intro p p' hp he
    cases he
    exact hp
  | cons l ls ih =>
    intro p p' hp he
    simp only [execWhile?] at he
    split at he
    · rename_i hpass
      split at he
      · rename_i p₁ h₁
        refine ih (.step hp ?_ h₁) he
        unfold passes at hpass
        unfold Allows
        split
        · split
          · rename_i ht
            simp only [ht] at hpass
            exact hok _ _ _ _ hpass
          · trivial
        · trivial
      · cases he
    · cases he

end Machine

/-! ## From one program to the pool -/

section Steps

variable {Call : Type → Type u} {σ ε α : Type}

/-- The same obligations with the effects of the program's own calls recorded beside the state. -/
def Spec.withSteps (S : Spec Call σ) : Spec Call (σ × List (σ × σ)) where
  exec c f x := match S.exec c f x.1 with
    | some (s', b) => some ((s', x.2 ++ [(x.1, s')]), b)
    | none => none
  allowed _ c f x := S.allowed _ c f x.1
  inv x := S.inv x.1
  rely x y := S.rely x.1 y.1 ∧ y.2 = x.2
  guar x y := S.guar x.1 y.1 ∧ y.2 = x.2 ++ [(x.1, y.1)]

theorem Safe.withSteps {S : Spec Call σ} {Q : Except ε α → σ → Prop} :
    ∀ {p : Prog Call ε α} {x : σ × List (σ × σ)}, Safe S Q p x.1 → Safe S.withSteps (fun r y => Q r y.1) p x := by
  intro p
  induction p with
  | ret r => exact fun hs => hs
  | call c k ih =>
    intro x hs f y b ha he
    simp only [Spec.withSteps] at he ha
    split at he
    · rename_i s' b₁ h
      cases he
      obtain ⟨h1, h2, h3⟩ := hs f s' b ha h
      exact ⟨h1, ⟨h2, rfl⟩, fun z hr hi => ih b (h3 z.1 hr.1 hi)⟩
    · cases he

/-- A triple speaks of the state alone when the program's own calls are recorded. -/
theorem Triple.withSteps {S : Spec Call σ} {P : σ → Prop} {p : Prog Call ε α} {Q : α → σ → Prop} {E : ε → σ → Prop}
    (h : Triple S P p Q E) : Triple S.withSteps (fun x => P x.1) p (fun a x => Q a x.1) (fun e x => E e x.1) := by
  intro x hi hp
  refine Safe.mono ?_ (Safe.withSteps (h x.1 hi hp))
  intro r y _ hr
  cases r <;> exact hr

/-- The first of a program's own calls meets the state the program starts from. -/
theorem Safe.head {S : Spec Call σ} {Q : Except ε α → σ × List (σ × σ) → Prop} {p : Prog Call ε α} {s : σ}
    (h : Safe S.withSteps Q p (s, [])) :
    Safe S.withSteps (fun r y => (∀ q, y.2.head? = some q → q.1 = s) ∧ Q r y) p (s, []) := by
  cases p with
  | ret r => exact fun hi => ⟨by simp, h hi⟩
  | call c k =>
    intro f y b ha he
    obtain ⟨h1, h2, h3⟩ := h f y b ha he
    refine ⟨h1, h2, fun z hr hi => ?_⟩
    have hz : ∃ q rest, z.2 = q :: rest ∧ q.1 = s := ⟨(s, y.1), [], by rw [hr.2, h2.2]; rfl, rfl⟩
    refine Safe.mono ?_ (Safe.frame (F := fun x => ∃ q rest, x.2 = q :: rest ∧ q.1 = s) ?_ ?_ hz (h3 z hr hi))
    · rintro r x _ ⟨⟨q, rest, hx, hq⟩, hQ⟩
      refine ⟨?_, hQ⟩
      rw [hx]
      rintro q' ⟨⟩
      exact hq
    · rintro x x' hg ⟨q, rest, hx, hq⟩
      exact ⟨q, rest ++ [(x.1, x'.1)], by rw [hg.2, hx]; rfl, hq⟩
    · rintro x x' hrel ⟨q, rest, hx, hq⟩
      exact ⟨q, rest, by rw [hrel.2, hx], hq⟩

end Steps

/-- What has to be shown about a machine: an invariant, what each program relies on and guarantees, what holds of an
identifier that no program uses, and the postcondition of each request. -/
structure Proof {Call : Type → Type u} {σ ε α ι Req Ev : Type} (M : Machine Call σ ε α ι Req Ev) where
  inv : σ → Prop
  allowed : Guard Call σ
  rely : ι → σ → σ → Prop
  guar : ι → Req → σ → σ → Prop
  idle : ι → σ → Prop
  post : ι → Req → Except ε α → σ × List (σ × σ) → Prop
  rely_refl : ∀ i s, rely i s s
  rely_trans : ∀ i s s' s'', rely i s s' → rely i s' s'' → rely i s s''
  guar_rely : ∀ i j q s s', i ≠ j → inv s → inv s' → guar i q s s' → rely j s s'
  idle_rely : ∀ i s s', inv s → inv s' → rely i s s' → idle i s → idle i s'
  env_inv : ∀ e s s', inv s → M.env e s = some s' → inv s'
  env_rely : ∀ e s s' i, inv s → M.env e s = some s' → M.kills e i = false → rely i s s'
  env_idle : ∀ e s s' i, inv s → M.env e s = some s' → M.kills e i = true → idle i s'
  serve_safe : ∀ i q s, inv s → idle i s →
    Safe (Spec.withSteps ⟨M.exec, allowed, inv, rely i, guar i q⟩) (post i q) (M.serve i q) (s, [])

namespace Proof

variable {Call : Type → Type u} {σ ε α ι Req Ev : Type} {M : Machine Call σ ε α ι Req Ev}

/-- The obligations of the program that serves a request. -/
def spec (π : Proof M) (i : ι) (q : Req) : Spec Call (σ × List (σ × σ)) :=
  Spec.withSteps ⟨M.exec, π.allowed, π.inv, π.rely i, π.guar i q⟩

/-- What holds of the identifier `i` in a pool: it is free, or its program is safe from every state others may make. -/
def Good (π : Proof M) (p : Pool Call σ ε α ι Req) (i : ι) : Prop :=
  match p.thread i with
  | none => π.idle i p.state
  | some t => ∀ s', π.rely i p.state s' → π.inv s' → Safe (π.spec i t.req) (π.post i t.req) t.prog (s', t.steps)

theorem Good.mono {π : Proof M} {p p' : Pool Call σ ε α ι Req} {i : ι} (ht : p'.thread i = p.thread i)
    (hi : π.inv p.state) (hi' : π.inv p'.state) (hr : π.rely i p.state p'.state) (h : π.Good p i) : π.Good p' i := by
  unfold Good at h ⊢
  rw [ht]
  split at h
  · exact π.idle_rely i _ _ hi hi' hr h
  · exact fun s' hs' hinv => h s' (π.rely_trans i _ _ _ hr hs') hinv

/-- One label keeps the invariant and every program good, and a call keeps its guarantee. -/
theorem step_good [DecidableEq ι] (π : Proof M) {p p' : Pool Call σ ε α ι Req} {l : Label ι Req Ev} (hi : π.inv p.state)
    (hg : ∀ i, π.Good p i) (ha : Machine.Allows π.allowed p l) (hs : M.step l p = some p') :
    π.inv p'.state ∧ (∀ i, π.Good p' i) ∧
      ∀ i f, l = .run i f → ∃ t, p.thread i = some t ∧ π.guar i t.req p.state p'.state := by
  cases l with
  | start i q =>
    simp only [Machine.step] at hs
    split at hs
    · rename_i hn
      cases hs
      refine ⟨hi, fun j => ?_, fun _ _ h => by cases h⟩
      by_cases hij : j = i
      · subst hij
        have hidle : π.idle j p.state := by simpa [Good, hn] using hg j
        simp only [Good, Function.update_self]
        exact fun s' hr hinv => π.serve_safe j q s' hinv (π.idle_rely j _ _ hi hinv hr hidle)
      · exact (hg j).mono (by simp [hij]) hi hi (π.rely_refl j _)
    · cases hs
  | run i f =>
    simp only [Machine.step] at hs
    split at hs
    · rename_i q β c k h ht
      split at hs
      · rename_i s' b he
        cases hs
        have hgi := hg i
        simp only [Good, ht] at hgi
        have ha' : π.allowed _ c f p.state := by simpa [Machine.Allows, ht] using ha
        have hcall : (π.spec i q).exec c f (p.state, h) = some ((s', h ++ [(p.state, s')]), b) := by
          simp [spec, Spec.withSteps, he]
        obtain ⟨h1, h2, h3⟩ := hgi p.state (π.rely_refl i _) hi f _ b ha' hcall
        refine ⟨h1, fun j => ?_, fun j f' hl => by cases hl; exact ⟨_, ht, h2.1⟩⟩
        by_cases hij : j = i
        · subst hij
          simp only [Good, Function.update_self]
          exact fun s'' hr hinv => h3 (s'', h ++ [(p.state, s')]) ⟨hr, rfl⟩ hinv
        · exact (hg j).mono (by simp [hij]) hi h1 (π.guar_rely i j q _ _ (Ne.symm hij) hi h1 h2.1)
      · cases hs
    · cases hs
  | env e =>
    simp only [Machine.step] at hs
    split at hs
    · rename_i s' he
      cases hs
      have hi' : π.inv s' := π.env_inv e _ _ hi he
      refine ⟨hi', fun j => ?_, fun _ _ h => by cases h⟩
      by_cases hk : M.kills e j = true
      · simp only [Good, hk, if_true]
        exact π.env_idle e _ _ j hi he hk
      · rw [Bool.not_eq_true] at hk
        exact (hg j).mono (by simp [hk]) hi hi' (π.env_rely e _ _ j hi he hk)
    · cases hs

/-- A pool in which no program runs yet, in a state of the invariant. -/
structure Initial (π : Proof M) (p : Pool Call σ ε α ι Req) : Prop where
  inv : π.inv p.state
  empty : ∀ i, p.thread i = none
  idle : ∀ i, π.idle i p.state

variable {p₀ p : Pool Call σ ε α ι Req}

/-- Every pool a run reaches satisfies the invariant, and each of its programs is safe from there on. -/
theorem sound [DecidableEq ι] (π : Proof M) (h₀ : π.Initial p₀) (h : M.Reach π.allowed p₀ p) :
    π.inv p.state ∧ ∀ i, π.Good p i := by
  induction h with
  | init => exact ⟨h₀.inv, fun i => by simpa [Good, h₀.empty i] using h₀.idle i⟩
  | step _ ha hs ih => exact ⟨(π.step_good ih.1 ih.2 ha hs).1, (π.step_good ih.1 ih.2 ha hs).2.1⟩

/-- The result of a request that has ended meets its postcondition. -/
theorem post_of_done [DecidableEq ι] (π : Proof M) (h₀ : π.Initial p₀) (h : M.Reach π.allowed p₀ p)
    {i : ι} {q : Req} {r : Except ε α} {st : List (σ × σ)} (ht : p.thread i = some ⟨q, .ret r, st⟩) :
    π.post i q r (p.state, st) := by
  obtain ⟨hi, hg⟩ := π.sound h₀ h
  have := hg i
  simp only [Good, ht] at this
  exact this p.state (π.rely_refl i _) hi hi

/-- Every call a run makes keeps the guarantee of the program that makes it. -/
theorem guar_of_run [DecidableEq ι] (π : Proof M) {p₀ p p' : Pool Call σ ε α ι Req} (h₀ : π.Initial p₀) (h : M.Reach π.allowed p₀ p)
    {i : ι} {f : Fault} (ha : Machine.Allows π.allowed p (.run i f : Label ι Req Ev)) (hs : M.step (.run i f) p = some p') :
    ∃ t, p.thread i = some t ∧ π.guar i t.req p.state p'.state :=
  (π.step_good (π.sound h₀ h).1 (π.sound h₀ h).2 ha hs).2.2 i f rfl

/-! ## The calls that programs have made -/

/-- The threads after a step: those of before, a fresh one, or the one that made the call with its effect appended. -/
theorem thread_of_step [DecidableEq ι] {p p' : Pool Call σ ε α ι Req} {l : Label ι Req Ev} (hs : M.step l p = some p')
    {j : ι} {t' : Thread Call σ ε α Req} (ht' : p'.thread j = some t') :
    t'.steps = [] ∨ ∃ t, p.thread j = some t ∧ t.req = t'.req ∧
      (t'.steps = t.steps ∨ (∃ f, l = .run j f) ∧ t'.steps = t.steps ++ [(p.state, p'.state)]) := by
  cases l with
  | start i q =>
    simp only [Machine.step] at hs
    split at hs
    · cases hs
      by_cases hij : j = i
      · subst hij
        simp only [Function.update_self, Option.some.injEq] at ht'
        subst ht'
        exact .inl rfl
      · simp only [Function.update_of_ne hij] at ht'
        exact .inr ⟨t', ht', rfl, .inl rfl⟩
    · cases hs
  | run i f =>
    simp only [Machine.step] at hs
    split at hs
    · rename_i q β c k h ht
      split at hs
      · cases hs
        by_cases hij : j = i
        · subst hij
          simp only [Function.update_self, Option.some.injEq] at ht'
          subst ht'
          exact .inr ⟨_, ht, rfl, .inr ⟨⟨f, rfl⟩, rfl⟩⟩
        · simp only [Function.update_of_ne hij] at ht'
          exact .inr ⟨t', ht', rfl, .inl rfl⟩
      · cases hs
    · cases hs
  | env e =>
    simp only [Machine.step] at hs
    split at hs
    · cases hs
      simp only at ht'
      split at ht'
      · cases ht'
      · exact .inr ⟨t', ht', rfl, .inl rfl⟩
    · cases hs

/-- The state moves by a call that keeps its guarantee, by the environment, or not at all. -/
theorem state_of_step [DecidableEq ι] (π : Proof M) {p₀ p p' : Pool Call σ ε α ι Req} {l : Label ι Req Ev} (h₀ : π.Initial p₀)
    (h : M.Reach π.allowed p₀ p) (ha : Machine.Allows π.allowed p l) (hs : M.step l p = some p') :
    p'.state = p.state ∨ (∃ i t, p.thread i = some t ∧ π.guar i t.req p.state p'.state) ∨
      ∃ e, M.env e p.state = some p'.state := by
  cases l with
  | start i q =>
    simp only [Machine.step] at hs
    split at hs
    · cases hs
      exact .inl rfl
    · cases hs
  | run i f =>
    obtain ⟨t, ht, hg⟩ := π.guar_of_run h₀ h ha hs
    exact .inr (.inl ⟨i, t, ht, hg⟩)
  | env e =>
    simp only [Machine.step] at hs
    split at hs
    · rename_i s' he
      cases hs
      exact .inr (.inr ⟨e, he⟩)
    · cases hs

/-- What every call and the environment keep between the states before and after holds between a pool and a later one. -/
theorem run_rule [DecidableEq ι] (π : Proof M) {T : σ → σ → Prop} (hrefl : ∀ s, T s s)
    (htrans : ∀ s s' s'', T s s' → T s' s'' → T s s'') (hcall : ∀ i q s s', π.guar i q s s' → T s s')
    (henv : ∀ e s s', π.inv s → M.env e s = some s' → T s s') {p₀ p p' : Pool Call σ ε α ι Req} (h₀ : π.Initial p₀)
    (h : M.Reach π.allowed p₀ p) (h' : M.Reach π.allowed p p') : T p.state p'.state := by
  have hboth : M.Reach π.allowed p₀ p' ∧ T p.state p'.state := by
    induction h' with
    | init => exact ⟨h, hrefl _⟩
    | step _ ha hs ih =>
      refine ⟨.step ih.1 ha hs, htrans _ _ _ ih.2 ?_⟩
      rcases π.state_of_step h₀ ih.1 ha hs with heq | ⟨i, t, -, hg⟩ | ⟨e, he⟩
      · rw [heq]
        exact hrefl _
      · exact hcall i t.req _ _ hg
      · exact henv e _ _ (π.sound h₀ ih.1).1 he
  exact hboth.2

/-- A fact about a program's own call and the current state holds of all calls made so far, when each call establishes
it and neither later calls nor the environment take it away. -/
theorem steps_rule [DecidableEq ι] (π : Proof M) {J : ι → Req → σ × σ → σ → Prop}
    (hnew : ∀ i q s s', π.inv s → π.guar i q s s' → J i q (s, s') s')
    (hcall : ∀ i q x j q' s s', π.guar j q' s s' → J i q x s → J i q x s')
    (henv : ∀ i q x e s s', M.env e s = some s' → J i q x s → J i q x s')
    (h₀ : π.Initial p₀) (h : M.Reach π.allowed p₀ p) :
    ∀ i t, p.thread i = some t → ∀ x ∈ t.steps, J i t.req x p.state := by
  induction h with
  | init =>
    intro i t ht
    rw [h₀.empty i] at ht
    cases ht
  | step hp ha hs ih =>
    rename_i p p' l
    have hmove : ∀ i q x, J i q x p.state → J i q x p'.state := by
      intro i q x hj
      rcases π.state_of_step h₀ hp ha hs with heq | ⟨j, t, -, hg⟩ | ⟨e, he⟩
      · rw [heq]
        exact hj
      · exact hcall i q x j t.req _ _ hg hj
      · exact henv i q x e _ _ he hj
    intro i t' ht' x hx
    rcases thread_of_step hs ht' with hnil | ⟨t, ht, hreq, hsteps | ⟨⟨f, rfl⟩, hsteps⟩⟩
    · rw [hnil] at hx
      cases hx
    · rw [hsteps] at hx
      rw [← hreq]
      exact hmove i t.req x (ih i t ht x hx)
    · rw [hsteps] at hx
      rw [← hreq]
      rcases List.mem_append.mp hx with hx | hx
      · exact hmove i t.req x (ih i t ht x hx)
      · obtain ⟨t₁, ht₁, hg⟩ := π.guar_of_run h₀ hp ha hs
        rw [ht] at ht₁
        cases ht₁
        rw [List.mem_singleton.mp hx]
        exact hnew i t.req _ _ (π.sound h₀ hp).1 hg

/-- A call after which a condition holds that did not hold before. -/
def Turns (used : σ → Prop) (x : σ × σ) : Prop := ¬ used x.1 ∧ used x.2

/-- A condition that lasts is turned on by at most one of all calls that the programs have made. -/
theorem once_rule [DecidableEq ι] (π : Proof M) (used : σ → Prop) (hcall : ∀ i q s s', π.guar i q s s' → used s → used s')
    (henv : ∀ e s s', M.env e s = some s' → used s → used s') (h₀ : π.Initial p₀)
    (h : M.Reach π.allowed p₀ p) : ∀ i j t t' (a b : Nat) x y, p.thread i = some t → p.thread j = some t' →
      t.steps[a]? = some x → t'.steps[b]? = some y → Turns used x → Turns used y → i = j ∧ a = b := by
  induction h with
  | init =>
    intro i j t t' a b x y ht
    rw [h₀.empty i] at ht
    cases ht
  | step hp ha hs ih =>
    rename_i p p' l
    have hold : ∀ i t, p.thread i = some t → ∀ x ∈ t.steps, Turns used x → used p.state :=
      π.steps_rule (J := fun _ _ x s => Turns used x → used s) (fun _ _ _ _ _ _ hx => hx.2)
        (fun _ _ x j q s s' hg hj hx => hcall j q s s' hg (hj hx)) (fun _ _ x e s s' he hj hx => henv e s s' he (hj hx)) h₀ hp
    -- a call is an earlier one, or the one this step makes
    have hcases : ∀ j t' (b : Nat) y, p'.thread j = some t' → t'.steps[b]? = some y →
        (∃ t, p.thread j = some t ∧ t.steps[b]? = some y) ∨
        (∃ f, l = .run j f) ∧ y = (p.state, p'.state) ∧ ∃ t, p.thread j = some t ∧ b = t.steps.length := by
      intro j t' b y ht' hb
      rcases thread_of_step hs ht' with hnil | ⟨t, ht, -, hsteps | ⟨hl, hsteps⟩⟩
      · rw [hnil] at hb
        cases hb
      · rw [hsteps] at hb
        exact .inl ⟨t, ht, hb⟩
      · rw [hsteps] at hb
        rcases Nat.lt_or_ge b t.steps.length with hlt | hge
        · rw [List.getElem?_append_left hlt] at hb
          exact .inl ⟨t, ht, hb⟩
        · rw [List.getElem?_append_right hge] at hb
          have hb0 : b - t.steps.length = 0 := by
            by_contra hne
            rw [List.getElem?_eq_none (by simp; omega)] at hb
            cases hb
          rw [hb0] at hb
          cases hb
          exact .inr ⟨hl, rfl, t, ht, by omega⟩
    intro i j t t' a b x y ht ht' hx hy hux huy
    rcases hcases i t a x ht hx with ⟨t₁, ht₁, hx₁⟩ | ⟨⟨f, hl⟩, rfl, t₁, ht₁, rfl⟩
    · rcases hcases j t' b y ht' hy with ⟨t₂, ht₂, hy₂⟩ | ⟨-, rfl, -⟩
      · exact ih i j t₁ t₂ a b x y ht₁ ht₂ hx₁ hy₂ hux huy
      · exact absurd (hold i t₁ ht₁ x (List.mem_of_getElem? hx₁) hux) huy.1
    · rcases hcases j t' b y ht' hy with ⟨t₂, ht₂, hy₂⟩ | ⟨⟨f', hl'⟩, -, t₂, ht₂, rfl⟩
      · exact absurd (hold j t₂ ht₂ y (List.mem_of_getElem? hy₂) huy) hux.1
      · rw [hl] at hl'
        cases hl'
        rw [ht₁] at ht₂
        cases ht₂
        exact ⟨rfl, rfl⟩

end Proof

end Lib
