import UniDocs.Lemmas.EditorContexts

/-!
# Steps of the Markdown editor

Each part of a call keeps what holds in every state, takes away only contexts whose end the clock has reached, and replaces a
context only by a success of its own.
-/

namespace UniDocs.Markdown.Service

open Lib

variable {canonicalize : UInt16 → UInt16} {options : Options} {clock : Clock} {s s' : Service}

/-- What a part of a call does: a context stays, or its end was reached, or a change set of this call was applied to it; and
the call adds at most one success. -/
structure Keeps (canonicalize : UInt16 → UInt16) (options : Options) (clock : Clock) (call : Nat) (s s' : Service) :
    Prop where
  inv : Inv canonicalize options clock s'
  counted : Counted s'
  contexts : ∀ e ∈ s.contexts, e ∈ s'.contexts ∨ (∃ r < s'.readings, e.2.expiresAt ≤ clock.now r) ∨
    ∃ binding changeSet readings object document,
      s'.log = s.log ++ [.applied call e.1 e.2.origin binding e.2.sequence changeSet readings] ∧
        applyChangeSet canonicalize e.2.document changeSet = .ok document ∧
        (e.1, { e.2 with object, sequence := e.2.sequence + 1, document }) ∈ s'.contexts
  log : s'.log = s.log ∨ ∃ note : Note, note.call = call ∧ note.At s'.readings ∧ s'.log = s.log ++ [note]
  readings : s.readings ≤ s'.readings

/-- What was there and is not any more has come to its end. -/
theorem Prunes.kept (hp : Prunes clock s s') {e : String × StoredContext} (he : e ∈ s.contexts) :
    e ∈ s'.contexts ∨ ∃ r < s'.readings, e.2.expiresAt ≤ clock.now r := by
  by_cases hin : e ∈ s'.contexts
  · exact .inl hin
  · exact .inr (hp.expired e he hin)

section Moves

variable (h : Inv canonicalize options clock s) (hc : Counted s) (hp : Prunes clock s s') {call : Nat}
include h hc hp

/-- A call reads the clock and moves on, without a success. -/
theorem keeps_setCall {phase : CallPhase} (hinit : phase.Initializing ↔ (s.calls call).Initializing)
    (hok : CallOk canonicalize call (s.asked call) (notesOf call s.log) phase)
    (hheld : ∀ invocation contextId stored changeSet document,
      phase = .applying invocation contextId stored changeSet document → (contextId, stored) ∈ s'.contexts ∧
        ∀ e ∈ s'.contexts, e.2.object = stored.object → e.2 = stored) :
    Keeps canonicalize options clock call s (s'.setCall call phase) := by
  obtain ⟨_, _, _, hcalls, hasked, hlog⟩ := hp.rest
  have hinv := h.prunes hp
  refine ⟨hinv.setCall ?_ ?_, (hc.prunes hp).setCall ?_, fun e he => (hp.kept he).imp_right .inl, .inl hlog,
    hp.readings⟩
  · rw [hasked, hlog]
    exact hok
  · intro invocation contextId stored changeSet document hphase
    obtain ⟨hmem, hsame⟩ := hheld invocation contextId stored changeSet document hphase
    exact ⟨hinv.objects _ hmem, hsame⟩
  · rw [hcalls]
    exact hinit

/-- A call that has no success fails. -/
theorem keeps_failure {phase : CallPhase} {code : ServiceErrorCode} {message : String}
    (hphase : phase = .done (.failure code message) ∨ ∃ contextId, phase = .settled contextId (.failure code message))
    (hinit : ¬ (s.calls call).Initializing) (hnotes : notesOf call s.log = []) :
    Keeps canonicalize options clock call s (s'.setCall call phase) := by
  refine keeps_setCall h hc hp ?_ ?_ ?_
  · rcases hphase with rfl | ⟨contextId, rfl⟩
    · exact ⟨fun hf => hf.elim, fun hi => hinit hi⟩
    · exact ⟨fun hf => hf.elim, fun hi => hinit hi⟩
  · rcases hphase with rfl | ⟨contextId, rfl⟩ <;> exact hnotes
  · intro invocation contextId stored changeSet document heq
    rcases hphase with rfl | ⟨contextId, rfl⟩ <;> cases heq

omit hp in
/-- A call that has not begun has told nothing, and may fail. -/
theorem keeps_refused (hidle : s.calls call = .idle) : notesOf call s.log = [] ∧ ¬ (s.calls call).Initializing ∧
    ∀ code message, Keeps canonicalize options clock call s (s.setCall call (.done (.failure code message))) := by
  have hnotes : notesOf call s.log = [] := by
    have hcall := h.calls call
    rw [hidle] at hcall
    exact hcall
  have hnot : ¬ (s.calls call).Initializing := by
    rw [hidle]
    exact id
  exact ⟨hnotes, hnot, fun code message => keeps_failure h hc (Prunes.refl s) (.inl rfl) hnot hnotes⟩

end Moves

/-! ## Initialization -/

theorem replay_snoc (content : JsString) (applied : List ChangeSet) (changeSet : ChangeSet) :
    replay canonicalize content (applied ++ [changeSet]) =
      (replay canonicalize content applied).bind fun document => applyChangeSet canonicalize document changeSet := by
  simp only [replay, List.foldlM_append, List.foldlM_cons, List.foldlM_nil]
  cases applied.foldlM (applyChangeSet canonicalize) content with
  | error e => rfl
  | ok document =>
    simp only [bind, Except.bind]
    cases applyChangeSet canonicalize document changeSet <;> rfl

section Init

variable (h : Inv canonicalize options clock s) (hc : Counted s) {call : Nat}
include h hc

/-- An initialization fails, and gives its place back. -/
theorem keeps_finishInit (hcall : (s.calls call).Initializing) (hnotes : notesOf call s.log = []) (code : ServiceErrorCode)
    (message : String) : Keeps canonicalize options clock call s (s.finishInit call (.failure code message)) := by
  have hcap := h.capacity
  refine ⟨(h.setInitializing (s.initializing - 1) (by omega)).setCall hnotes ?_, hc.finishInit hcall _,
    fun e he => .inl he, .inl rfl, Nat.le_refl _⟩
  intro invocation contextId stored changeSet document heq
  cases heq

theorem keeps_beginInit {invocation : Option Invocation} {source : Option StateSource} (hidle : s.calls call = .idle)
    (hasked : s.asked call = some (.init invocation source)) :
    Keeps canonicalize options clock call s (s.beginInit options clock call invocation source) := by
  obtain ⟨hnotes, hnot, hfail⟩ := keeps_refused h hc hidle
  unfold beginInit
  split
  · rename_i invocation source
    split
    · exact hfail _ _
    · split
      · exact hfail _ _
      · split
        · exact hfail _ _
        · have hp : Prunes clock s (s.pruneExpired clock) := pruneExpired_prunes h.ids
          obtain ⟨_, _, _, hcalls, hasked', hlog⟩ := hp.rest
          simp only
          split
          · exact keeps_failure h hc hp (.inl rfl) hnot hnotes
          · rename_i hroom
            have hinv := (h.prunes hp).setInitializing ((s.pruneExpired clock).initializing + 1) (by omega)
            refine ⟨hinv.setCall ?_ ?_, (hc.prunes hp).beginInit ?_ trivial, fun e he => (hp.kept he).imp_right .inl,
              .inl hlog, hp.readings⟩
            · refine ⟨?_, invocation, source, ?_, rfl, rfl, rfl⟩
              · show notesOf call (s.pruneExpired clock).log = []
                rw [hlog]
                exact hnotes
              · show (s.pruneExpired clock).asked call = _
                rw [hasked']
                exact hasked
            · intro invocation contextId stored changeSet document heq
              cases heq
            · rw [hcalls]
              exact hnot
  · exact hfail _ _

/-- The new context, or a failure to find an id for it. -/
theorem keeps_allocate {binding : Binding} {document : JsString} {answer : IdAnswer} {invocation : Invocation}
    {source : StateSource} (hcall : (s.calls call).Initializing) (hnotes : notesOf call s.log = [])
    (hasked : s.asked call = some (.init (some invocation) (some source))) (hbinding : binding = invocation.binding)
    (hdocument : FirstDocument canonicalize source document) :
    Keeps canonicalize options clock call s (s.allocate options clock call binding document answer) := by
  unfold allocate
  split
  · exact keeps_finishInit h hc hcall hnotes _ _
  · exact keeps_finishInit h hc hcall hnotes _ _
  · rename_i contextId
    split
    · exact keeps_finishInit h hc hcall hnotes _ _
    · rename_i hfree
      have hnew : JsMap.has contextId s.contexts = false := by
        simp only [Bool.or_eq_true, not_or, Bool.not_eq_true] at hfree
        exact hfree.2
      have hpos := hc.pos hcall
      have hcap := h.capacity
      generalize hexpires : clock.now s.readings + (options.contextTtlMs : Int) = expiresAt
      have hset := JsMap.set_of_not_has hnew ⟨s.objects, s.objects, binding, 0, document, expiresAt⟩
      -- Neither a context nor a change set of the log has the identity of the new context.
      have hfresh : ∀ e ∈ s.contexts, e.2.origin ≠ s.objects := by
        intro e he heq
        obtain ⟨note, hnote, _, hcreates, _⟩ := h.contexts e he
        have hlt := h.made note hnote _ _ _ _ _ hcreates
        omega
      have hnone := h.changesOf_fresh (Nat.le_refl s.objects)
      have hsuccess := h.success (JsMap.set contextId ⟨s.objects, s.objects, binding, 0, document, expiresAt⟩ s.contexts)
        (s.initializing - 1) (s.readings + 1) (s.objects + 1) call
        (.created call contextId s.objects binding document expiresAt) (.done (.context ⟨contextId, 0⟩))
        (JsMap.nodup_set _ h.ids)
      refine ⟨hsuccess ?_ ?_ ?_ ?_ (Nat.le_succ _) ?_ ?_ ?_ ?_ rfl ?_ ?_, hc.finishInit hcall _, fun e he => .inl ?_,
        .inr ⟨.created call contextId s.objects binding document expiresAt, rfl, trivial, rfl⟩, Nat.le_succ _⟩
      · rw [hset, List.map_append, List.nodup_append]
        refine ⟨h.origins, List.nodup_singleton _, ?_⟩
        rintro origin horigin _ hone rfl
        obtain ⟨e, he, rfl⟩ := List.mem_map.mp horigin
        exact hfresh e he (by simpa using hone)
      · rw [hset]
        intro e he
        rcases List.mem_append.mp he with hold | hone
        · exact Nat.lt_succ_of_lt (h.objects e hold)
        · rw [List.mem_singleton.mp hone]
          exact Nat.lt_succ_self _
      · rw [hset, List.length_append, List.length_singleton]
        omega
      · rw [hset]
        intro e he
        rcases List.mem_append.mp he with hold | hone
        · exact (h.contexts e hold).snoc rfl
        · rw [List.mem_singleton.mp hone]
          refine ⟨_, List.mem_append_right _ (List.mem_singleton.mpr rfl), document, ⟨call, rfl⟩, ?_, ?_⟩
          · rw [changesOf_append, hnone]
            rfl
          · rw [changesOf_append, hnone]
            rfl
      · rw [hset]
        intro e he
        rcases List.mem_append.mp he with hold | hone
        · exact .inl hold
        · rw [List.mem_singleton.mp hone]
          exact .inr (Nat.le_refl _)
      · rw [hset]
        have hlast : ∀ e ∈ s.contexts ++ [(contextId, ⟨s.objects, s.objects, binding, 0, document, expiresAt⟩)],
            s.objects ≤ e.2.object → e = (contextId, ⟨s.objects, s.objects, binding, 0, document, expiresAt⟩) := by
          intro e he hle
          rcases List.mem_append.mp he with hold | hone
          · have hlt := h.objects e hold
            omega
          · exact List.mem_singleton.mp hone
        exact fun e he e' he' hle hle' => (hlast e he hle).trans (hlast e' he' hle').symm
      · rintro id origin b d t ⟨_, heq⟩
        cases heq
        exact Nat.lt_succ_self _
      · intro note hnote id b d t hcreates
        have hlt := h.made note hnote _ _ _ _ _ hcreates
        omega
      · intro _ _ _ _ _ heq
        cases heq
      · refine .inl ⟨invocation, source, s.objects, document, expiresAt, hasked, rfl, hdocument, ?_⟩
        rw [hnotes, hbinding]
        rfl
      · show e ∈ JsMap.set contextId _ s.contexts
        rw [hset]
        exact List.mem_append_left _ he

theorem keeps_continueInit {binding : Binding} {document content : JsString} {changes applied : List ChangeSet}
    {answer : IdAnswer} {invocation : Invocation} {source : StateSource} (hcall : (s.calls call).Initializing)
    (hnotes : notesOf call s.log = []) (hasked : s.asked call = some (.init (some invocation) (some source)))
    (hbinding : binding = invocation.binding) (hchanges : source.changes = applied ++ changes)
    (hbase : source.base = none → content = []) (hdocument : replay canonicalize content applied = .ok document) :
    Keeps canonicalize options clock call s
      (s.continueInit canonicalize options clock call binding document changes answer) := by
  unfold continueInit
  split
  · rename_i changeSet rest
    refine keeps_setCall h hc (Prunes.refl s) ⟨fun _ => hcall, fun _ => trivial⟩ ?_ ?_
    · refine ⟨hnotes, invocation, source, content, applied ++ [changeSet], hasked, hbinding, ?_, hbase, ?_⟩
      · rw [hchanges, List.append_assoc]
        rfl
      · rw [replay_snoc, hdocument]
        rfl
    · intro _ _ _ _ _ heq
      cases heq
  · have hfirst : FirstDocument canonicalize source document := by
      rw [List.append_nil] at hchanges
      exact ⟨content, hbase, hchanges.symm ▸ hdocument⟩
    exact keeps_allocate h hc hcall hnotes hasked hbinding hfirst

theorem keeps_resumeInit {binding : Binding} {changes : List ChangeSet} {base : Option String} {load : LoadAnswer}
    {answer : IdAnswer} (hcall : s.calls call = .loading binding changes base) :
    Keeps canonicalize options clock call s
      (s.resumeInit canonicalize options clock call binding changes base load answer) := by
  have hok := h.calls call
  rw [hcall] at hok
  obtain ⟨hnotes, invocation, source, hasked, hbinding, hchanges, hbase⟩ := hok
  have hinit : (s.calls call).Initializing := by
    rw [hcall]
    trivial
  unfold resumeInit
  split
  · exact keeps_continueInit h hc hinit hnotes hasked hbinding (by rw [hchanges, List.nil_append]) (fun _ => rfl) rfl
  · exact keeps_finishInit h hc hinit hnotes _ _
  · exact keeps_finishInit h hc hinit hnotes _ _
  · rename_i hash content
    refine keeps_continueInit h hc hinit hnotes hasked hbinding (by rw [hchanges, List.nil_append]) (fun hnone => ?_) rfl
    rw [← hbase] at hnone
    cases hnone

end Init

/-! ## Queues -/

section Queues

variable (h : Inv canonicalize options clock s) (hc : Counted s) {call : Nat}
include h hc

theorem keeps_enqueue {contextId : String} {action : QueuedAction} (hidle : s.calls call = .idle)
    (hok : ∀ previous, CallOk canonicalize call (s.asked call) (notesOf call s.log) (.queued previous contextId action)) :
    Keeps canonicalize options clock call s (s.enqueue call contextId action) := by
  refine ⟨(h.setQueues _).setCall (hok _) ?_, hc.setCall ?_, fun e he => .inl he, .inl rfl, Nat.le_refl _⟩
  · intro _ _ _ _ _ heq
    cases heq
  · rw [hidle]
    exact Iff.rfl

theorem keeps_beginApply {invocation : Option Invocation} {context : Option EditorContext} {changeSet : Option ChangeSet}
    (hidle : s.calls call = .idle) (hasked : s.asked call = some (.apply invocation context changeSet)) :
    Keeps canonicalize options clock call s (s.beginApply call invocation context changeSet) := by
  obtain ⟨hnotes, -, hfail⟩ := keeps_refused h hc hidle
  unfold beginApply
  split
  · split
    · exact hfail _ _
    · split
      · exact hfail _ _
      · exact keeps_enqueue h hc hidle fun _ => ⟨hnotes, hasked, rfl⟩
  · exact hfail _ _

theorem keeps_beginSnapshot {invocation : Option Invocation} {context : Option EditorContext}
    (hidle : s.calls call = .idle) (hasked : s.asked call = some (.snapshot invocation context)) :
    Keeps canonicalize options clock call s (s.beginSnapshot call invocation context) := by
  obtain ⟨hnotes, -, hfail⟩ := keeps_refused h hc hidle
  unfold beginSnapshot
  split
  · split
    · exact hfail _ _
    · exact keeps_enqueue h hc hidle fun _ => ⟨hnotes, hasked, rfl⟩
  · exact hfail _ _

theorem keeps_leaveQueue {contextId : String} {result : ServiceResult} (hcall : s.calls call = .settled contextId result) :
    Keeps canonicalize options clock call s (s.leaveQueue call contextId result) := by
  have hok := h.calls call
  rw [hcall] at hok
  refine ⟨(h.setQueues _).setCall hok ?_, hc.setCall ?_, fun e he => .inl he, .inl rfl, Nat.le_refl _⟩
  · intro _ _ _ _ _ heq
    cases heq
  · rw [hcall]
    exact Iff.rfl

end Queues

/-! ## Calls on a context -/

theorem checkContext_ok {found : Option StoredContext} {invocation : Invocation} {context : EditorContext}
    {stored : StoredContext} (h : checkContext found invocation context = .ok stored) :
    found = some stored ∧ stored.binding = invocation.binding ∧ stored.sequence = context.sequence := by
  unfold checkContext at h
  split at h
  · cases h
  · split at h
    · cases h
    · rename_i hbinding
      split at h
      · cases h
      · rename_i hsequence
        cases h
        exact ⟨rfl, by simpa using hbinding, by simpa using hsequence⟩

theorem checkContext_error {found : Option StoredContext} {invocation : Invocation} {context : EditorContext}
    {result : ServiceResult} (h : checkContext found invocation context = .error result) :
    ∃ code message, result = .failure code message := by
  unfold checkContext at h
  split at h
  · cases h
    exact ⟨_, _, rfl⟩
  · split at h
    · cases h
      exact ⟨_, _, rfl⟩
    · split at h
      · cases h
        exact ⟨_, _, rfl⟩
      · cases h

section Contexts

variable (h : Inv canonicalize options clock s) (hc : Counted s) {call : Nat}
include h hc

theorem keeps_runApply {previous : Option Nat} {contextId : String} {invocation : Invocation} {context : EditorContext}
    {changeSet : ChangeSet} (hcall : s.calls call = .queued previous contextId (.apply invocation context changeSet)) :
    Keeps canonicalize options clock call s (s.runApply canonicalize clock call invocation context changeSet) := by
  have hok := h.calls call
  rw [hcall] at hok
  obtain ⟨hnotes, hasked, rfl⟩ := hok
  have hnot : ¬ (s.calls call).Initializing := by
    rw [hcall]
    exact id
  unfold runApply
  cases hget : getContext clock context.contextId s with
  | mk found s' =>
    obtain ⟨hp, hfound⟩ := getContext_spec h.ids hget
    simp only
    split
    · rename_i result hcheck
      obtain ⟨code, message, rfl⟩ := checkContext_error hcheck
      exact keeps_failure h hc hp (.inr ⟨_, rfl⟩) hnot hnotes
    · rename_i stored hcheck
      obtain ⟨hsome, hbinding, hsequence⟩ := checkContext_ok hcheck
      obtain ⟨hmem, _⟩ := hfound stored hsome
      split
      · exact keeps_failure h hc hp (.inr ⟨_, rfl⟩) hnot hnotes
      · refine keeps_setCall h hc hp ⟨fun hf => hf.elim, fun hi => hnot hi⟩ ?_ ?_
        · exact ⟨hnotes, context, hasked, rfl, hbinding, hsequence, rfl⟩
        · intro _ _ _ _ _ heq
          cases heq
          have hin := hp.sublist.subset hmem
          refine ⟨hmem, fun e he hobject => ?_⟩
          rw [h.identity e (hp.sublist.subset he) _ hin hobject]

theorem keeps_runSnapshot {previous : Option Nat} {contextId : String} {invocation : Invocation} {context : EditorContext}
    (hcall : s.calls call = .queued previous contextId (.snapshot invocation context)) :
    Keeps canonicalize options clock call s (s.runSnapshot clock call invocation context) := by
  have hok := h.calls call
  rw [hcall] at hok
  obtain ⟨hnotes, hasked, rfl⟩ := hok
  have hnot : ¬ (s.calls call).Initializing := by
    rw [hcall]
    exact id
  unfold runSnapshot
  cases hget : getContext clock context.contextId s with
  | mk found s' =>
    obtain ⟨hp, hfound⟩ := getContext_spec h.ids hget
    simp only
    split
    · rename_i result hcheck
      obtain ⟨code, message, rfl⟩ := checkContext_error hcheck
      exact keeps_failure h hc hp (.inr ⟨_, rfl⟩) hnot hnotes
    · rename_i stored hcheck
      obtain ⟨hsome, hbinding, hsequence⟩ := checkContext_ok hcheck
      obtain ⟨hmem, hlive⟩ := hfound stored hsome
      have hinv := h.prunes hp
      obtain ⟨_, _, _, hcalls, hasked', hlog⟩ := hp.rest
      obtain ⟨note, hnote, first, hcreates, hcount, hreplay⟩ := hinv.contexts _ hmem
      rw [hbinding] at hcreates
      refine ⟨hinv.success s'.contexts s'.initializing s'.readings s'.objects call
        (.read call context.contextId stored.origin invocation.binding stored.sequence stored.document s'.readings)
        (.settled context.contextId (.document stored.document)) hinv.ids hinv.origins hinv.objects hinv.capacity (fun e he => (hinv.contexts e he).snoc rfl) (Nat.le_refl _) (fun e he => .inl he) ?_ ?_ ?_ rfl ?_ ?_,
        (hc.prunes hp).setCall ?_, fun e he => (hp.kept he).imp_right .inl,
        .inr ⟨.read call context.contextId stored.origin invocation.binding stored.sequence stored.document s'.readings,
          rfl, rfl, ?_⟩, hp.readings⟩
      · intro e he _ _ hle
        have hlt := hinv.objects e he
        omega
      · rintro _ _ _ _ _ ⟨_, heq⟩
        cases heq
      · exact ⟨note, hnote, first, _, hcreates, hcount, hreplay, hlive⟩
      · intro _ _ _ _ _ heq
        cases heq
      · refine ⟨invocation, context, stored.origin, s'.readings, ?_, ?_⟩
        · rw [hasked']
          exact hasked
        · rw [hlog, hnotes, hsequence]
          rfl
      · show _ ↔ (s'.calls call).Initializing
        rw [hcalls]
        exact ⟨fun hf => hf.elim, fun hi => hnot hi⟩
      · rw [← hlog]
        rfl

theorem keeps_finishApply {invocation : Invocation} {contextId : String} {stored : StoredContext} {changeSet : ChangeSet}
    {document : Except JsString JsString} (hcall : s.calls call = .applying invocation contextId stored changeSet document) :
    Keeps canonicalize options clock call s
      (s.finishApply clock call invocation contextId stored changeSet document) := by
  have hok := h.calls call
  rw [hcall] at hok
  obtain ⟨hnotes, context, hasked, hid, hbinding, hsequence, hdocument⟩ := hok
  have hnot : ¬ (s.calls call).Initializing := by
    rw [hcall]
    exact id
  obtain ⟨hobject, hheld⟩ := h.held call invocation contextId stored changeSet document hcall
  unfold finishApply
  split
  · exact keeps_failure h hc (Prunes.refl s) (.inr ⟨_, rfl⟩) hnot hnotes
  · rename_i document'
    cases hget : getContext clock contextId s with
    | mk found s' =>
      obtain ⟨hp, hfound⟩ := getContext_spec h.ids hget
      simp only
      split
      · exact keeps_failure h hc hp (.inr ⟨_, rfl⟩) hnot hnotes
      · rename_i hsame
        simp only [ne_eq, Decidable.not_not, Option.map_eq_some_iff] at hsame
        obtain ⟨current, hcurrent, hcurrentObject⟩ := hsame
        obtain ⟨hmem, hlive⟩ := hfound current hcurrent
        -- The object that was found is the one that the change set was applied to.
        have hone : current = stored := hheld _ (hp.sublist.subset hmem) hcurrentObject
        subst hone
        have hinv := h.prunes hp
        obtain ⟨_, _, hobjects, hcalls, hasked', hlog⟩ := hp.rest
        obtain ⟨note, hnote, first, hcreates, hcount, hreplay⟩ := hinv.contexts _ hmem
        generalize hnext : ({ current with object := s'.objects, sequence := current.sequence + 1, document := document' } :
          StoredContext) = next
        have hnextObject : next.object = s'.objects := hnext ▸ rfl
        have hnextOrigin : next.origin = current.origin := hnext ▸ rfl
        obtain ⟨before, after, hsplit, hset⟩ := JsMap.set_of_mem hinv.ids hmem next
        have hentries : ∀ e ∈ JsMap.set contextId next s'.contexts,
            e = (contextId, next) ∨ e ∈ s'.contexts ∧ e.1 ≠ contextId := fun e he => JsMap.mem_set he
        have hkept : ∀ e ∈ s'.contexts, e ≠ (contextId, current) → e ∈ JsMap.set contextId next s'.contexts := by
          intro e he hne
          rw [hsplit] at he
          rw [hset]
          rcases List.mem_append.mp he with hbefore | hafter
          · exact List.mem_append_left _ hbefore
          · rcases List.mem_cons.mp hafter with heq | hafter
            · exact absurd heq hne
            · exact List.mem_append_right _ (List.mem_cons_of_mem _ hafter)
        have hnew : ∀ e ∈ JsMap.set contextId next s'.contexts, s'.objects ≤ e.2.object → e = (contextId, next) := by
          intro e he hle
          rcases hentries e he with heq | ⟨hold, _⟩
          · exact heq
          · have hlt := hinv.objects e hold
            omega
        have horigins : (JsMap.set contextId next s'.contexts).map (fun e => e.2.origin) =
            s'.contexts.map fun e => e.2.origin := by
          rw [hset, hsplit, List.map_append, List.map_append, List.map_cons, List.map_cons, hnextOrigin]
        have hlength : (JsMap.set contextId next s'.contexts).length = s'.contexts.length := by
          rw [hset, hsplit, List.length_append, List.length_append, List.length_cons, List.length_cons]
        have hcap := hinv.capacity
        refine ⟨hinv.success (JsMap.set contextId next s'.contexts) s'.initializing s'.readings (s'.objects + 1) call
          (.applied call contextId current.origin invocation.binding current.sequence changeSet s'.readings)
          (.settled contextId (.context ⟨contextId, current.sequence + 1⟩)) (JsMap.nodup_set next hinv.ids)
          (horigins.symm ▸ hinv.origins) ?_ (by omega) ?_ (Nat.le_succ _) ?_ ?_ ?_ ?_ rfl ?_ ?_, (hc.prunes hp).setCall ?_,
          fun e he => ?_,
          .inr ⟨.applied call contextId current.origin invocation.binding current.sequence changeSet s'.readings, rfl, rfl, ?_⟩,
          hp.readings⟩
        · intro e he
          rcases hentries e he with rfl | ⟨hold, _⟩
          · rw [hnextObject]
            exact Nat.lt_succ_self _
          · exact Nat.lt_succ_of_lt (hinv.objects e hold)
        · intro e he
          rcases hentries e he with rfl | ⟨hold, hkey⟩
          · refine ⟨note, List.mem_append_left _ hnote, first, ?_, ?_, ?_⟩
            · rw [← hnext]
              exact hcreates
            · rw [hnextOrigin, changesOf_append, List.length_append, ← hcount, ← hnext]
              simp [changesOf]
            · have happlied : changesOf current.origin [Note.applied call contextId current.origin invocation.binding
                  current.sequence changeSet s'.readings] = [changeSet] := by
                simp [changesOf]
              rw [hnextOrigin, changesOf_append, happlied, replay_snoc, hreplay, ← hnext]
              exact hdocument.symm
          · refine (hinv.contexts e hold).snoc ?_
            have hne : current.origin ≠ e.2.origin := by
              intro heq
              have hsame := List.inj_on_of_nodup_map hinv.origins hmem hold heq
              exact hkey (congrArg Prod.fst hsame).symm
            simp [changesOf, hne]
        · intro e he
          rcases hentries e he with rfl | ⟨hold, _⟩
          · exact .inr (Nat.le_of_eq hnextObject.symm)
          · exact .inl hold
        · exact fun e he e' he' hle hle' => (hnew e he hle).trans (hnew e' he' hle').symm
        · rintro _ _ _ _ _ ⟨_, heq⟩
          cases heq
        · exact ⟨note, hnote, first, _, hbinding ▸ hcreates, hcount, hlive⟩
        · intro _ _ _ _ _ heq
          cases heq
        · refine .inr ⟨invocation, context, changeSet, current.origin, s'.readings, ?_, hid, ?_, ?_⟩
          · rw [hasked']
            exact hasked
          · rw [hsequence]
          · rw [hlog, hnotes, hsequence]
            rfl
        · rw [hcalls]
          exact ⟨fun hf => hf.elim, fun hi => hnot hi⟩
        · rcases hp.kept he with hin | hexpired
          · by_cases hcontext : e = (contextId, current)
            · rw [hcontext]
              refine .inr (.inr ⟨invocation.binding, changeSet, s'.readings, s'.objects, document', ?_, hdocument.symm, ?_⟩)
              · rw [← hlog]
                rfl
              · show (contextId, _) ∈ JsMap.set contextId next s'.contexts
                rw [hset, ← hnext]
                exact List.mem_append_right _ List.mem_cons_self
            · exact .inl (hkept e hin hcontext)
          · exact .inr (.inl hexpired)
        · rw [← hlog]
          rfl

end Contexts

/-! ## One step -/

/-- The call that takes part in an event. -/
def Event.caller : Event → Nat
  | .call n _ | .mutate n _ | .loaded n _ _ | .resume n _ | .turn n | .leave n => n

/-- A step in which nothing moves. -/
theorem Keeps.refl (h : Inv canonicalize options clock s) (hc : Counted s) (call : Nat) :
    Keeps canonicalize options clock call s s :=
  ⟨h, hc, fun _ he => .inl he, .inl rfl, Nat.le_refl _⟩

theorem Inv.ask (h : Inv canonicalize options clock s) {call : Nat} (hidle : s.calls call = .idle)
    (args : Nat → Option Request) (request : Option Request) :
    Inv canonicalize options clock { s with args, asked := Function.update s.asked call request } := by
  refine ⟨h.ids, h.origins, h.objects, h.identity, h.capacity, h.contexts, h.held, h.made, h.justified, fun call' => ?_⟩
  have hok := h.calls call'
  simp only [Function.update_apply]
  split
  · rename_i heq
    subst heq
    rw [hidle] at hok ⊢
    exact hok
  · exact hok

theorem keeps_step (h : Inv canonicalize options clock s) (hc : Counted s) (e : Event) :
    Keeps canonicalize options clock e.caller s (s.step canonicalize options clock e) := by
  cases e with
  | call call request =>
    simp only [step, Event.caller]
    split
    · rename_i hidle
      have hinv := h.ask hidle (Function.update s.args call (some request)) (some request)
      have hasked : Function.update s.asked call (some request) call = some request := Function.update_self ..
      have hbegin : ∀ t, Keeps canonicalize options clock call
          { s with args := Function.update s.args call (some request), asked := Function.update s.asked call (some request) } t →
          Keeps canonicalize options clock call s t :=
        fun t ht => ⟨ht.inv, ht.counted, ht.contexts, ht.log, ht.readings⟩
      apply hbegin
      cases request with
      | init invocation source => exact keeps_beginInit hinv hc hidle hasked
      | apply invocation context changeSet => exact keeps_beginApply hinv hc hidle hasked
      | snapshot invocation context => exact keeps_beginSnapshot hinv hc hidle hasked
    · exact Keeps.refl h hc call
  | mutate call request =>
    refine ⟨?_, hc, fun e he => .inl he, .inl rfl, Nat.le_refl _⟩
    exact ⟨h.ids, h.origins, h.objects, h.identity, h.capacity, h.contexts, h.held, h.made, h.justified, h.calls⟩
  | loaded call load answer =>
    simp only [step, Event.caller]
    split
    · rename_i hcall
      exact keeps_resumeInit h hc hcall
    · exact Keeps.refl h hc call
  | resume call answer =>
    simp only [step, Event.caller]
    split
    · rename_i hcall
      have hok := h.calls call
      rw [hcall] at hok
      exact keeps_finishInit h hc (by rw [hcall]; trivial) hok.1 _ _
    · rename_i hcall
      have hok := h.calls call
      rw [hcall] at hok
      obtain ⟨hnotes, invocation, source, content, applied, hasked, hbinding, hchanges, hbase, hdocument⟩ := hok
      exact keeps_continueInit h hc (by rw [hcall]; trivial) hnotes hasked hbinding hchanges hbase hdocument
    · rename_i hcall
      exact keeps_finishApply h hc hcall
    · exact Keeps.refl h hc call
  | turn call =>
    simp only [step, Event.caller]
    split
    · rename_i previous contextId action hcall
      split
      · cases action with
        | apply invocation context changeSet => exact keeps_runApply h hc hcall
        | snapshot invocation context => exact keeps_runSnapshot h hc hcall
      · exact Keeps.refl h hc call
    · exact Keeps.refl h hc call
  | leave call =>
    simp only [step, Event.caller]
    split
    · rename_i hcall
      exact keeps_leaveQueue h hc hcall
    · exact Keeps.refl h hc call

theorem inv_start : Inv canonicalize options clock start where
  ids := List.nodup_nil
  origins := List.nodup_nil
  objects _ he := by cases he
  identity _ he := by cases he
  capacity := Nat.zero_le _
  contexts _ he := by cases he
  held _ _ _ _ _ _ hcall := by cases hcall
  made _ hn := by cases hn
  justified before note after heq := by simp [start] at heq
  calls _ := rfl

theorem counted_start : Counted start := ⟨[], List.nodup_nil, rfl, fun _ => ⟨fun h => (List.not_mem_nil h).elim, fun h => False.elim h⟩⟩

end UniDocs.Markdown.Service
