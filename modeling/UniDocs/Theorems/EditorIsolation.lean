import Mathlib.Data.List.Induction
import UniDocs.Lemmas.EditorSteps

/-!
# Isolation of the Markdown editor contexts

Whatever calls overlap, and whatever their callers do with the objects they have passed: a context has one binding and only
calls with that binding read or change it, its document is the first one with the change sets of the successful applies, no
sequence is used twice, failures change nothing, and a context whose end was reached is not served any more.
-/

namespace UniDocs.Markdown

open Lib

/-- The result of a call that has one. -/
def CallPhase.result : CallPhase → Option ServiceResult
  | .settled _ result | .done result => some result
  | _ => none

/-- The success applies a change set to this context at this sequence. -/
def Note.Applies (origin sequence : Nat) : Note → Prop
  | .applied _ _ origin' _ sequence' _ _ => origin' = origin ∧ sequence' = sequence
  | _ => False

/-- The success is an answer from this context. -/
def Note.Serves (origin : Nat) : Note → Prop
  | .created .. => False
  | .applied _ _ origin' _ _ _ _ | .read _ _ origin' _ _ _ _ => origin' = origin

/-- Every pair of a list is in a relation when every element is in it with the ones before. -/
theorem pairwise_of_before {α : Type} {R : α → α → Prop} {l : List α}
    (h : ∀ before x after, l = before ++ x :: after → ∀ y ∈ before, R y x) : l.Pairwise R := by
  induction l using List.reverseRecOn with
  | nil => exact List.Pairwise.nil
  | append_singleton l x ih =>
    rw [List.pairwise_append]
    refine ⟨ih fun before z after heq => ?_, List.pairwise_singleton _ _, fun y hy z hz => ?_⟩
    · refine h before z (after ++ [x]) ?_
      rw [heq, List.append_assoc, List.cons_append]
    · rw [List.mem_singleton.mp hz]
      exact h l x [] rfl y hy

namespace Service

variable {canonicalize : UInt16 → UInt16} {options : Options} {clock : Clock} {s : Service}

/-! ## What the log says -/

/-- A context was made once. -/
theorem Inv.created_unique (h : Inv canonicalize options clock s) {note note' : Note} (hn : note ∈ s.log)
    (hn' : note' ∈ s.log) {id id' : String} {origin : Nat} {b b' : Binding} {d d' : JsString} {t t' : Int}
    (hcreates : note.Creates id origin b d t) (hcreates' : note'.Creates id' origin b' d' t') : note = note' := by
  by_contra hne
  obtain ⟨before, after, hlog⟩ := List.append_of_mem hn
  rw [hlog, List.mem_append, List.mem_cons] at hn'
  have hfirst := h.justified before note after hlog
  obtain ⟨call, rfl⟩ := hcreates
  rcases hn' with hbefore | heq | hafter
  · exact hfirst note' hbefore _ _ _ _ hcreates'
  · exact hne heq.symm
  · obtain ⟨between, rest, rfl⟩ := List.append_of_mem hafter
    have hlast := h.justified (before ++ Note.created call id origin b d t :: between) note' rest (by
      rw [hlog, List.append_assoc, List.cons_append])
    obtain ⟨call', rfl⟩ := hcreates'
    exact hlast _ (List.mem_append_right _ List.mem_cons_self) _ _ _ _ ⟨call, rfl⟩

/-- No sequence of a context is used twice. -/
theorem Inv.applies_once (h : Inv canonicalize options clock s) :
    s.log.Pairwise fun note note' => ∀ origin sequence, note.Applies origin sequence → ¬ note'.Applies origin sequence := by
  refine pairwise_of_before fun before note' after hlog note hnote origin sequence hfirst hsecond => ?_
  obtain ⟨early, between, rfl⟩ := List.append_of_mem hnote
  have hjustified := h.justified early note (between ++ note' :: after) (by
    rw [hlog, List.append_assoc, List.cons_append])
  have hjustified' := h.justified _ note' after hlog
  cases note with
  | created => exact hfirst
  | read => exact hfirst
  | applied =>
    cases note' with
    | created => exact hsecond
    | read => exact hsecond
    | applied =>
      obtain ⟨rfl, rfl⟩ := hfirst
      obtain ⟨rfl, hsequence⟩ := hsecond
      obtain ⟨_, _, _, _, _, hcount, _⟩ := hjustified
      obtain ⟨_, _, _, _, _, hcount', _⟩ := hjustified'
      rw [changesOf_append, List.length_append, changesOf, changesOf, List.filterMap_cons] at hcount'
      simp only [if_pos, List.length_cons] at hcount'
      rw [changesOf] at hcount
      omega

theorem CallOk.answered {call : Nat} {asked : Option Request} {notes : List Note} {phase : CallPhase}
    (h : CallOk canonicalize call asked notes phase) :
    (phase.result = none → notes = []) ∧
      ∀ result, phase.result = some result → Answered canonicalize call asked result notes := by
  cases phase with
  | idle => exact ⟨fun _ => h, fun _ hnone => by cases hnone⟩
  | loading => exact ⟨fun _ => h.1, fun _ hnone => by cases hnone⟩
  | replaying => exact ⟨fun _ => h.1, fun _ hnone => by cases hnone⟩
  | queued previous contextId action =>
    cases action with
    | apply => exact ⟨fun _ => h.1, fun _ hnone => by cases hnone⟩
    | snapshot => exact ⟨fun _ => h.1, fun _ hnone => by cases hnone⟩
  | applying => exact ⟨fun _ => h.1, fun _ hnone => by cases hnone⟩
  | settled contextId result =>
    refine ⟨fun hnone => (by cases hnone), fun result' heq => ?_⟩
    cases heq
    exact h
  | done result =>
    refine ⟨fun hnone => (by cases hnone), fun result' heq => ?_⟩
    cases heq
    exact h

theorem Inv.applied_asked (h : Inv canonicalize options clock s) {call : Nat} {contextId : String} {origin : Nat}
    {binding : Binding} {sequence : Nat} {changeSet : ChangeSet} {readings : Nat}
    (hn : Note.applied call contextId origin binding sequence changeSet readings ∈ s.log) :
    ∃ invocation : Invocation,
      s.asked call = some (.apply (some invocation) (some ⟨contextId, sequence⟩) (some changeSet)) ∧
        invocation.binding = binding ∧ (s.calls call).result = some (.context ⟨contextId, sequence + 1⟩) := by
  have hmem : Note.applied call contextId origin binding sequence changeSet readings ∈ notesOf call s.log :=
    List.mem_filter.mpr ⟨hn, beq_self_eq_true call⟩
  obtain ⟨hnone, hsome⟩ := CallOk.answered (h.calls call)
  cases hresult : (s.calls call).result with
  | none =>
    rw [hnone hresult] at hmem
    cases hmem
  | some result =>
    have hanswer := hsome result hresult
    cases result with
    | failure code message =>
      rw [show notesOf call s.log = [] from hanswer] at hmem
      cases hmem
    | document document =>
      obtain ⟨_, _, _, _, _, hnotes⟩ := hanswer
      rw [hnotes, List.mem_singleton] at hmem
      cases hmem
    | context context =>
      rcases hanswer with ⟨_, _, _, _, _, _, _, _, hnotes⟩ | ⟨invocation, asked, _, _, _, hasked, hid, hsequence, hnotes⟩
      · rw [hnotes, List.mem_singleton] at hmem
        cases hmem
      · rw [hnotes, List.mem_singleton] at hmem
        cases hmem
        refine ⟨invocation, ?_, rfl, ?_⟩
        · rw [hid]
          exact hasked
        · rw [← hsequence]

/-! ## The theorem -/

/-- What the service guarantees in a state, and for the step after it. -/
structure Guarantees (canonicalize : UInt16 → UInt16) (options : Options) (clock : Clock) (s : Service) : Prop where
  /-- There are never more contexts, live or being initialized, than the limit. -/
  capacity : ∀ l : List Nat, l.Nodup → (∀ call ∈ l, (s.calls call).Initializing) →
    s.contexts.length + l.length ≤ options.maxContexts
  /-- A context was made once, with the binding it has. -/
  bindings : ∀ note ∈ s.log, ∀ note' ∈ s.log, ∀ id id' origin b b' d d' t t',
    note.Creates id origin b d t → note'.Creates id' origin b' d' t' → note = note'
  /-- The document of a context is its first one with the change sets that were applied to it, which its sequence counts. -/
  documents : ∀ e ∈ s.contexts, ContextOk canonicalize s.log e.1 e.2
  /-- Every success is on a live context, with its binding and its sequence; what is read is its document. -/
  successes : ∀ before note after, s.log = before ++ note :: after → note.Justified canonicalize clock before
  /-- No two change sets are applied at the same sequence of a context. -/
  once : s.log.Pairwise fun note note' => ∀ origin sequence, note.Applies origin sequence → ¬ note'.Applies origin sequence
  /-- A call has no success before its result. -/
  pending : ∀ call, (s.calls call).result = none → notesOf call s.log = []
  /-- What a call is told is what its successes are, for the arguments it was given when it was made. -/
  answers : ∀ call result, (s.calls call).result = some result →
    Answered canonicalize call (s.asked call) result (notesOf call s.log)
  /-- A step leaves a context as it is, or takes it away at its end, or it is the success of an apply that quotes the binding
  and the sequence of the context. -/
  changes : ∀ event, ∀ e ∈ s.contexts,
    let next := s.step canonicalize options clock event
    e ∈ next.contexts ∨ (∃ r < next.readings, e.2.expiresAt ≤ clock.now r) ∨
      ∃ (invocation : Invocation) (changeSet : ChangeSet) (object : Nat) (document : JsString),
        next.asked event.caller = some (.apply (some invocation) (some ⟨e.1, e.2.sequence⟩) (some changeSet)) ∧
          invocation.binding = e.2.binding ∧
          (next.calls event.caller).result = some (.context ⟨e.1, e.2.sequence + 1⟩) ∧
          applyChangeSet canonicalize e.2.document changeSet = .ok document ∧
          (e.1, { e.2 with object, sequence := e.2.sequence + 1, document }) ∈ next.contexts
  /-- A context that is served in a step has not come to its end at any reading of the clock up to the end of the step. -/
  live : ∀ event note, (s.step canonicalize options clock event).log = s.log ++ [note] →
    ∀ made ∈ s.log, ∀ id origin b d t, made.Creates id origin b d t → note.Serves origin →
      ∀ r < (s.step canonicalize options clock event).readings, clock.now r < t

/-- In a state that keeps the invariant the service guarantees what it is to guarantee. -/
theorem Inv.guarantees (h : Inv canonicalize options clock s) (hc : Counted s) : Guarantees canonicalize options clock s where
  capacity l hnodup hall := by
    obtain ⟨places, _, hlen, hplaces⟩ := hc
    have hsub : l.length ≤ places.length :=
      (List.subperm_of_subset hnodup fun call hcall => (hplaces call).mpr (hall call hcall)).length_le
    have hcap := h.capacity
    omega
  bindings note hn note' hn' _ _ _ _ _ _ _ _ _ hcreates hcreates' := h.created_unique hn hn' hcreates hcreates'
  documents := h.contexts
  successes := h.justified
  once := h.applies_once
  pending call := (CallOk.answered (h.calls call)).1
  answers call := (CallOk.answered (h.calls call)).2
  changes event e he := by
    have hkeeps := keeps_step h hc event
    rcases hkeeps.contexts e he with hin | hend | ⟨binding, changeSet, readings, object, document, hlog, happly, hnew⟩
    · exact .inl hin
    · exact .inr (.inl hend)
    · have hnote : Note.applied event.caller e.1 e.2.origin binding e.2.sequence changeSet readings ∈
          (s.step canonicalize options clock event).log := hlog ▸ List.mem_append_right _ (List.mem_singleton_self _)
      obtain ⟨invocation, hasked, hbinding, hresult⟩ := hkeeps.inv.applied_asked hnote
      obtain ⟨made, hmade, _, _, hcreates, _⟩ := hkeeps.inv.justified s.log _ [] hlog
      obtain ⟨made', hmade', _, hcreates', _⟩ := h.contexts e he
      have hone := h.created_unique hmade hmade' hcreates hcreates'
      subst hone
      obtain ⟨_, rfl⟩ := hcreates
      obtain ⟨_, heq⟩ := hcreates'
      cases heq
      exact .inr (.inr ⟨invocation, changeSet, object, document, hasked, hbinding, hresult, happly, hnew⟩)
  live event note hlog made hmade id origin b d t hcreates hserves := by
    have hkeeps := keeps_step h hc event
    have hat : note.At (s.step canonicalize options clock event).readings := by
      rcases hkeeps.log with hsame | ⟨note', _, hat, hlog'⟩
      · rw [hsame] at hlog
        exact absurd hlog (by simp)
      · rw [hlog'] at hlog
        have hone := List.append_cancel_left hlog
        cases hone
        exact hat
    have hjustified := hkeeps.inv.justified s.log note [] hlog
    cases note with
    | created => exact hserves.elim
    | applied =>
      obtain rfl := hserves
      obtain rfl := hat
      obtain ⟨made', hmade', _, _, hcreates', _, hlive⟩ := hjustified
      have hone := h.created_unique hmade hmade' hcreates hcreates'
      subst hone
      obtain ⟨_, rfl⟩ := hcreates
      obtain ⟨_, heq⟩ := hcreates'
      cases heq
      exact hlive
    | read =>
      obtain rfl := hserves
      obtain rfl := hat
      obtain ⟨made', hmade', _, _, hcreates', _, _, hlive⟩ := hjustified
      have hone := h.created_unique hmade hmade' hcreates hcreates'
      subst hone
      obtain ⟨_, rfl⟩ := hcreates
      obtain ⟨_, heq⟩ := hcreates'
      cases heq
      exact hlive

/-- In every state of every run the service guarantees the isolation of its contexts. -/
theorem contexts_isolated {canonicalize : UInt16 → UInt16} {options : Options} {clock : Clock} {events : List Event}
    {s : Service} (hs : s ∈ Machine.states (step canonicalize options clock) start events) :
    Guarantees canonicalize options clock s := by
  have hstep : ∀ (t : Service) (e : Event), Inv canonicalize options clock t ∧ Counted t →
      Inv canonicalize options clock (t.step canonicalize options clock e) ∧
        Counted (t.step canonicalize options clock e) := by
    rintro t e ⟨h, hc⟩
    have hkeeps := keeps_step h hc e
    exact ⟨hkeeps.inv, hkeeps.counted⟩
  obtain ⟨hinv, hcounted⟩ := Machine.always_rule hstep ⟨inv_start, counted_start⟩ s hs
  exact hinv.guarantees hcounted

/-! ## A run -/

/-- A caller. -/
def someInvocation : Invocation := ⟨"request", "actor", "tenant", "document", "markdown"⟩

/-- A context is made, a change set is applied to it, and its document is read, while the callers change their objects. -/
def someRun : List Event :=
  [.call 0 (.init (some someInvocation) (some ⟨markdownSchemaVersion, none, []⟩)), .mutate 0 (.init none none),
    .loaded 0 .failed (.id "context"),
    .call 1 (.apply (some someInvocation) (some ⟨"context", 0⟩) (some ⟨[[120]]⟩)), .mutate 1 (.apply none none none),
    .call 2 (.snapshot (some someInvocation) (some ⟨"context", 1⟩)), .turn 1, .resume 1 .threw, .turn 2]

/-- Five minutes, and one context. -/
def oneContext : Options := ⟨300000, 1, by decide⟩

/-- The clock counts its readings. -/
def counting : Clock := ⟨fun n => n, fun _ _ h => Int.ofNat_le.mpr h⟩

/-- The document that is read is the one with the change set. -/
theorem contexts_isolated_run :
    Guarantees id oneContext counting (Machine.final (step id oneContext counting) start someRun) ∧
      (Machine.final (step id oneContext counting) start someRun).calls 2 = .settled "context" (.document [120]) :=
  ⟨contexts_isolated (Machine.final_mem_states _ _), by rfl⟩

end Service

end UniDocs.Markdown
