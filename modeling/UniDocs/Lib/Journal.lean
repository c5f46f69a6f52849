import UniDocs.Lib.Pool

/-!
# Journals

A journal is proof-only state beside a store: an entry for each thing a program has done, tagged with the program that did it.
Programs only append, so what a program has written itself stays as it is while others run, and what is in the journal stays
there. With that and a relation that every statement keeps as rely and guarantee, a machine is proved by an invariant and one
triple for each request.
-/

namespace Lib.Journal

universe u

section Entries

variable {ι E : Type} [DecidableEq ι]

/-- What one program has written. -/
def own (i : ι) (log : List (ι × E)) : List E := log.filterMap fun x => if x.1 = i then some x.2 else none

@[simp] theorem own_nil (i : ι) : own i ([] : List (ι × E)) = [] := rfl

theorem own_append (i : ι) (log log' : List (ι × E)) : own i (log ++ log') = own i log ++ own i log' :=
  List.filterMap_append

theorem mem_own {i : ι} {e : E} {log : List (ι × E)} : e ∈ own i log ↔ (i, e) ∈ log := by
  simp only [own, List.mem_filterMap, Option.ite_none_right_eq_some, Option.some.injEq, Prod.exists]
  constructor
  · rintro ⟨j, e', hmem, rfl, rfl⟩
    exact hmem
  · intro hmem
    exact ⟨i, e, hmem, rfl, rfl⟩

theorem own_self (i : ι) (e : E) : own i [(i, e)] = [e] := by simp [own]

theorem own_ne {i j : ι} (h : j ≠ i) (e : E) : own i [(j, e)] = [] := by simp [own, h]

theorem own_eq_nil {i : ι} {es : List (ι × E)} (h : ∀ x ∈ es, x.1 ≠ i) : own i es = [] := by
  rw [List.eq_nil_iff_forall_not_mem]
  intro e he
  exact h _ (mem_own.mp he) rfl

/-- Whoever has written at most once, has written one entry. -/
theorem eq_of_own_le_one {i : ι} {log : List (ι × E)} (h : (own i log).length ≤ 1) {e e' : E} (he : (i, e) ∈ log)
    (he' : (i, e') ∈ log) : e = e' := by
  rw [← mem_own] at he he'
  generalize own i log = es at h he he'
  match es with
  | [] => cases he
  | [_] => exact (List.mem_singleton.mp he).trans (List.mem_singleton.mp he').symm
  | _ :: _ :: _ => simp at h

/-- One program's entries after an entry of some program. -/
theorem own_append_singleton (i j : ι) (e : E) (log : List (ι × E)) :
    own i (log ++ [(j, e)]) = if j = i then own i log ++ [e] else own i log := by
  rw [own_append]
  split
  · rename_i h
    rw [h, own_self]
  · rename_i h
    rw [own_ne h, List.append_nil]

end Entries

section Spec

variable {Call : Type → Type u} {σ ι E Req : Type}

/-- The others have written. -/
def Others (log : σ → List (ι × E)) (i : ι) (s s' : σ) : Prop := ∃ es, log s' = log s ++ es ∧ ∀ x ∈ es, x.1 ≠ i

/-- One program has written entries of some kind. -/
def Writes (log : σ → List (ι × E)) (may : E → Prop) (i : ι) (s s' : σ) : Prop :=
  ∃ es, log s' = log s ++ es ∧ ∀ x ∈ es, x.1 = i ∧ may x.2

/-- What is to be shown of a store with a journal: what the program of a request may write, the calls in scope, an invariant,
and a relation between the states before and after that every statement keeps. -/
structure Frame (Call : Type → Type u) (σ ι E Req : Type) where
  log : σ → List (ι × E)
  may : Req → E → Prop
  allowed : Guard Call σ
  inv : σ → Prop
  keeps : σ → σ → Prop
  refl : ∀ s, keeps s s
  trans : ∀ s s' s'', keeps s s' → keeps s' s'' → keeps s s''

/-- The obligations of one program. -/
def Frame.spec (F : Frame Call σ ι E Req) (exec : ∀ {β : Type}, Call β → Fault → σ → Option (σ × β)) (i : ι) (q : Req) :
    Spec Call σ :=
  ⟨exec, F.allowed, F.inv, fun s s' => Others F.log i s s' ∧ F.keeps s s',
    fun s s' => Writes F.log (F.may q) i s s' ∧ F.keeps s s'⟩

variable {log : σ → List (ι × E)} {may : E → Prop} {i : ι} {q : Req} {s s' s'' : σ}

theorem Others.refl : Others log i s s := ⟨[], by simp, by simp⟩

theorem Others.trans (h : Others log i s s') (h' : Others log i s' s'') : Others log i s s'' := by
  obtain ⟨es, hes, hne⟩ := h
  obtain ⟨es', hes', hne'⟩ := h'
  refine ⟨es ++ es', by rw [hes', hes, List.append_assoc], ?_⟩
  intro x hx
  rcases List.mem_append.mp hx with hx | hx
  · exact hne x hx
  · exact hne' x hx

theorem Others.own [DecidableEq ι] (h : Others log i s s') : own i (log s') = own i (log s) := by
  obtain ⟨es, hes, hne⟩ := h
  rw [hes, own_append, own_eq_nil hne, List.append_nil]

theorem Writes.refl : Writes log may i s s := ⟨[], by simp, by simp⟩

/-- A statement that leaves the journal alone. -/
theorem Writes.of_eq (h : log s' = log s) : Writes log may i s s' := ⟨[], by simp [h], by simp⟩

/-- A statement that writes one entry. -/
theorem Writes.one {e : E} (h : log s' = log s ++ [(i, e)]) (he : may e) : Writes log may i s s' :=
  ⟨_, h, by simpa using he⟩

theorem Writes.others (h : Writes log may i s s') {j : ι} (hij : i ≠ j) : Others log j s s' := by
  obtain ⟨es, hes, heq⟩ := h
  exact ⟨es, hes, fun x hx => by rw [(heq x hx).1]; exact hij⟩

/-! ## Assertions that others keep -/

variable {F : Frame Call σ ι E Req} {exec : ∀ {β : Type}, Call β → Fault → σ → Option (σ × β)}

/-- What the program has written so far. -/
theorem stable_own [DecidableEq ι] (es : List E) : Stable (F.spec exec i q) fun s => own i (F.log s) = es := by
  intro s s' _ _ h hes
  rw [Others.own h.1]
  exact hes

/-- What the relation that every statement keeps does not take away. -/
theorem stable_kept {P : σ → Prop} (h : ∀ s s', F.keeps s s' → P s → P s') : Stable (F.spec exec i q) P :=
  fun s s' _ _ hr hp => h s s' hr.2 hp

end Spec

/-! ## Statements of a store -/

section Store

variable {σ ε α β ι E Req : Type}

/-- What a program does with a store: a look at something that always answers, such as a clock, or a statement that runs as a
whole. -/
inductive StoreCall (σ ε : Type) : Type → Type 1 where
  | look {β : Type} (f : σ → β) : StoreCall σ ε β
  | statement {β : Type} (f : σ → σ × β) : StoreCall σ ε (Except ε β)

/-- A statement under a fault: its answer, or an error before or after its effect. -/
def answer (e : ε) (f : Fault) (s : σ) (r : σ × β) : σ × Except ε β :=
  match f with
  | .none => (r.1, .ok r.2)
  | .failed => (s, .error e)
  | .lost => (r.1, .error e)

/-- How a store executes a call; a statement that fails answers with the given error. -/
def execStore (e : ε) {β : Type} (c : StoreCall σ ε β) (f : Fault) (s : σ) : Option (σ × β) :=
  match c with
  | .look g => some (s, g s)
  | .statement g => some (answer e f s (g s))

/-- A program over a store. -/
abbrev StoreProg (σ ε α : Type) := Prog (StoreCall σ ε) ε α

/-- Look at the state. -/
def look (f : σ → β) : StoreProg σ ε β := Prog.perform (.look f)

/-- Run a statement. -/
def statement (f : σ → σ × β) : StoreProg σ ε β := Prog.attempt (.statement f)

/-- Run a statement that answers nothing. -/
def execute (f : σ → σ) : StoreProg σ ε Unit := statement fun s => (f s, ())

/-- Run a statement that only reads. -/
def query (f : σ → β) : StoreProg σ ε β := statement fun s => (s, f s)

theorem answer_cases {e : ε} {f : Fault} {s s' : σ} {r : σ × β} {b : Except ε β} (h : answer e f s r = (s', b)) :
    (s' = s ∧ b = .error e) ∨ (s' = r.1 ∧ (b = .ok r.2 ∨ b = .error e)) := by
  cases f <;> cases h
  · exact .inr ⟨rfl, .inl rfl⟩
  · exact .inl ⟨rfl, rfl⟩
  · exact .inr ⟨rfl, .inr rfl⟩

variable {e : ε} {F : Frame (StoreCall σ ε) σ ι E Req} {i : ι} {q : Req} {P : σ → Prop} {T : ε → σ → Prop}

/-- The rule of a statement: what it does is shown once, and the postconditions are assertions that others keep. -/
theorem statement_rule {f : σ → σ × β} {Q : β → σ → Prop} (hQ : ∀ b, Stable (F.spec (execStore e) i q) (Q b))
    (hT : Stable (F.spec (execStore e) i q) (T e)) (hbefore : ∀ s, F.inv s → P s → T e s)
    (h : ∀ fault s, F.inv s → P s → F.allowed _ (.statement f) fault s →
      F.inv (f s).1 ∧ Writes F.log (F.may q) i s (f s).1 ∧ F.keeps s (f s).1 ∧ Q (f s).2 (f s).1 ∧ T e (f s).1) :
    Triple (F.spec (execStore e) i q) P (statement f) Q T := by
  intro s hi hp fault s' r ha he
  have he' : some (answer e fault s (f s)) = some (s', r) := he
  rcases answer_cases (Option.some.inj he') with ⟨rfl, rfl⟩ | ⟨rfl, hr⟩
  · exact ⟨hi, ⟨Writes.refl, F.refl _⟩, fun s'' hrely hi'' _ => hT _ s'' hi hi'' hrely (hbefore _ hi hp)⟩
  · obtain ⟨h1, h2, h3, h4, h5⟩ := h fault s hi hp ha
    refine ⟨h1, ⟨h2, h3⟩, fun s'' hrely hi'' => ?_⟩
    rcases hr with rfl | rfl
    · exact fun _ => hQ _ _ s'' h1 hi'' hrely h4
    · exact fun _ => hT _ s'' h1 hi'' hrely h5

/-- The rule of a statement that only reads. -/
theorem query_rule {f : σ → β} {Q : β → σ → Prop} (hQ : ∀ b, Stable (F.spec (execStore e) i q) (Q b))
    (hT : Stable (F.spec (execStore e) i q) (T e)) (h : ∀ s, F.inv s → P s → Q (f s) s ∧ T e s) :
    Triple (F.spec (execStore e) i q) P (query f) Q T :=
  statement_rule hQ hT (fun s hi hp => (h s hi hp).2)
    fun _ s hi hp _ => ⟨hi, Writes.refl, F.refl s, (h s hi hp).1, (h s hi hp).2⟩

/-- The rule of a look. -/
theorem look_rule {f : σ → β} {Q : β → σ → Prop} (hQ : ∀ b, Stable (F.spec (execStore e) i q) (Q b))
    (h : ∀ s, F.inv s → P s → Q (f s) s) : Triple (F.spec (execStore e) i q) P (look f) Q T := by
  refine Triple.perform hQ ?_
  intro fault s s' b hi hp _ he
  have he' : some (s, f s) = some (s', b) := he
  cases he'
  exact ⟨hi, ⟨Writes.refl, F.refl s⟩, h s hi hp⟩

end Store

/-! ## Machines -/

section Machine

variable {Call : Type → Type u} {σ ε α ι E Req Ev : Type} [DecidableEq ι]

/-- The proof of a machine with a journal: the environment does not write to it, and no program is ended. -/
def proof (M : Machine Call σ ε α ι Req Ev) (F : Frame Call σ ι E Req) (post : ι → Req → Except ε α → σ → Prop)
    (henv : ∀ e s s', F.inv s → M.env e s = some s' → F.inv s' ∧ F.log s' = F.log s ∧ F.keeps s s')
    (hkills : ∀ e i, M.kills e i = false)
    (hserve : ∀ i q, Triple (F.spec M.exec i q) (fun s => own i (F.log s) = []) (M.serve i q)
      (fun a => post i q (.ok a)) (fun e => post i q (.error e))) : Proof M where
  inv := F.inv
  allowed := F.allowed
  rely i s s' := Others F.log i s s' ∧ F.keeps s s'
  guar i q s s' := Writes F.log (F.may q) i s s' ∧ F.keeps s s'
  idle i s := own i (F.log s) = []
  post i q r x := post i q r x.1
  rely_refl _ s := ⟨.refl, F.refl s⟩
  rely_trans _ s s' s'' h h' := ⟨h.1.trans h'.1, F.trans s s' s'' h.2 h'.2⟩
  guar_rely _ _ _ _ _ hij _ _ h := ⟨h.1.others hij, h.2⟩
  idle_rely _ _ _ _ _ h hidle := by rw [h.1.own]; exact hidle
  env_inv e s s' hi he := (henv e s s' hi he).1
  env_rely e s s' i hi he _ := ⟨⟨[], by simp [(henv e s s' hi he).2.1], by simp⟩, (henv e s s' hi he).2.2⟩
  env_idle e _ _ i _ _ hk := by rw [hkills e i] at hk; cases hk
  serve_safe i q s hi hidle := by
    refine Safe.mono ?_ (Safe.withSteps (x := (s, [])) (hserve i q s hi hidle))
    intro r y _ hr
    cases r <;> exact hr

variable {M : Machine Call σ ε α ι Req Ev} {F : Frame Call σ ι E Req} {post : ι → Req → Except ε α → σ → Prop}
  {henv : ∀ e s s', F.inv s → M.env e s = some s' → F.inv s' ∧ F.log s' = F.log s ∧ F.keeps s s'}
  {hkills : ∀ e i, M.kills e i = false}
  {hserve : ∀ i q, Triple (F.spec M.exec i q) (fun s => own i (F.log s) = []) (M.serve i q)
    (fun a => post i q (.ok a)) (fun e => post i q (.error e))}
  {p₀ p p' : Pool Call σ ε α ι Req}

/-- Every entry is one that the request of its program may write. -/
theorem author (h₀ : (proof M F post henv hkills hserve).Initial p₀) (hempty : F.log p₀.state = [])
    (h : M.Reach F.allowed p₀ p) : ∀ x ∈ F.log p.state, ∃ t, p.thread x.1 = some t ∧ F.may t.req x.2 := by
  induction h with
  | init =>
    intro x hx
    rw [hempty] at hx
    cases hx
  | step hp ha hs ih =>
    rename_i p p' l
    intro x hx
    have hold : x ∈ F.log p.state → ∃ t, p'.thread x.1 = some t ∧ F.may t.req x.2 := by
      intro hx
      obtain ⟨t, ht, hmay⟩ := ih x hx
      obtain ⟨t', ht', hreq, _⟩ := Machine.thread_stays hkills hs ht
      exact ⟨t', ht', hreq ▸ hmay⟩
    rcases (proof M F post henv hkills hserve).state_of_step h₀ hp ha hs with heq | ⟨i, t, ht, ⟨es, hes, hi⟩, _⟩ | ⟨e, he⟩
    · rw [heq] at hx
      exact hold hx
    · rw [hes] at hx
      rcases List.mem_append.mp hx with hx | hx
      · exact hold hx
      · obtain ⟨rfl, hmay⟩ := hi x hx
        obtain ⟨t', ht', hreq, _⟩ := Machine.thread_stays hkills hs ht
        exact ⟨t', ht', hreq ▸ hmay⟩
    · have hinv := ((proof M F post henv hkills hserve).sound h₀ hp).1
      rw [(henv e _ _ hinv he).2.1] at hx
      exact hold hx

theorem kept (h₀ : (proof M F post henv hkills hserve).Initial p₀) (h : M.Reach F.allowed p₀ p) (h' : M.Reach F.allowed p p') :
    F.keeps p.state p'.state :=
  (proof M F post henv hkills hserve).run_rule F.refl F.trans (fun _ _ _ _ hg => hg.2)
    (fun e s s' hi he => (henv e s s' hi he).2.2) h₀ h h'

end Machine

end Lib.Journal
