import Mathlib.Data.List.Nodup
import Mathlib.Logic.Function.Basic
import UniDocs.Lib.Machine
import UniDocs.Markdown.EditorService

/-!
# Contexts of the Markdown editor

What holds in every state of the service: the contexts with the log of successes that made them what they are, and each call
with what it was asked, where it stands and what it has written to the log. A reading of the clock can only take contexts
away; a success appends one note.
-/

namespace UniDocs.Markdown

open Lib

/-! ## What the log says -/

/-- The call of a success. -/
def Note.call : Note → Nat
  | .created call .. => call
  | .applied call .. => call
  | .read call .. => call

/-- The change sets that were applied to a context, in their order. -/
def changesOf (origin : Nat) (log : List Note) : List ChangeSet :=
  log.filterMap fun
    | .applied _ _ origin' _ _ changeSet _ => if origin' = origin then some changeSet else none
    | _ => none

theorem changesOf_append (origin : Nat) (log log' : List Note) :
    changesOf origin (log ++ log') = changesOf origin log ++ changesOf origin log' := List.filterMap_append

/-- The success shows this many readings of the clock; the making of a context shows none. -/
def Note.At (readings : Nat) : Note → Prop
  | .created .. => True
  | .applied _ _ _ _ _ _ readings' => readings' = readings
  | .read _ _ _ _ _ _ readings' => readings' = readings

/-- The successes of a call. -/
def notesOf (call : Nat) (log : List Note) : List Note := log.filter fun note => note.call == call

theorem notesOf_snoc_self {call : Nat} {log : List Note} {note : Note} (h : note.call = call) :
    notesOf call (log ++ [note]) = notesOf call log ++ [note] := by
  simp [notesOf, List.filter_append, h]

theorem notesOf_snoc_other {call : Nat} {log : List Note} {note : Note} (h : note.call ≠ call) :
    notesOf call (log ++ [note]) = notesOf call log := by
  simp [notesOf, List.filter_append, h]

section Specification

variable (canonicalize : UInt16 → UInt16)

/-- A document after some change sets. -/
def replay (document : JsString) (changes : List ChangeSet) : Except JsString JsString :=
  changes.foldlM (applyChangeSet canonicalize) document

/-- The note says that the context with this identity was made so. -/
def Note.Creates (note : Note) (contextId : String) (origin : Nat) (binding : Binding) (document : JsString)
    (expiresAt : Int) : Prop :=
  ∃ call, note = .created call contextId origin binding document expiresAt

/-- A success is justified by the ones before it: a context is made once; a change set is applied to a context with the
binding of the call, at the sequence that counts the change sets before it; and a document is read as the change sets before
it left it. The clock has not reached the end of the context. -/
def Note.Justified (clock : Clock) (before : List Note) : Note → Prop
  | .created _ _ origin _ _ _ => ∀ note ∈ before, ∀ id b d t, ¬ note.Creates id origin b d t
  | .applied _ contextId origin binding sequence _ readings =>
    ∃ note ∈ before, ∃ document expiresAt, note.Creates contextId origin binding document expiresAt ∧
      sequence = (changesOf origin before).length ∧ ∀ r < readings, clock.now r < expiresAt
  | .read _ contextId origin binding sequence document readings =>
    ∃ note ∈ before, ∃ first expiresAt, note.Creates contextId origin binding first expiresAt ∧
      sequence = (changesOf origin before).length ∧ replay canonicalize first (changesOf origin before) = .ok document ∧
        ∀ r < readings, clock.now r < expiresAt

/-- The document of a new context: its base with the change sets of its source. -/
def FirstDocument (source : StateSource) (document : JsString) : Prop :=
  ∃ content, (source.base = none → content = []) ∧ replay canonicalize content source.changes = .ok document

/-- What a call was answered is what its successes are: none for a failure, and one for a success, with the binding, the
context and the change set that the caller held when it called. -/
def Answered (call : Nat) (asked : Option Request) (result : ServiceResult) (notes : List Note) : Prop :=
  match result with
  | .failure _ _ => notes = []
  | .document document =>
    ∃ invocation context origin readings, asked = some (.snapshot (some invocation) (some context)) ∧
      notes = [.read call context.contextId origin invocation.binding context.sequence document readings]
  | .context ⟨contextId, sequence⟩ =>
    (∃ invocation source origin document expiresAt, asked = some (.init (some invocation) (some source)) ∧ sequence = 0 ∧
      FirstDocument canonicalize source document ∧
      notes = [.created call contextId origin invocation.binding document expiresAt]) ∨
    ∃ invocation context changeSet origin readings,
      asked = some (.apply (some invocation) (some context) (some changeSet)) ∧ contextId = context.contextId ∧
        sequence = context.sequence + 1 ∧
        notes = [.applied call contextId origin invocation.binding context.sequence changeSet readings]

/-- A call between its beginning and its end. -/
def CallOk (call : Nat) (asked : Option Request) (notes : List Note) : CallPhase → Prop
  | .idle => notes = []
  | .loading binding changes base =>
    notes = [] ∧ ∃ invocation source, asked = some (.init (some invocation) (some source)) ∧
      binding = invocation.binding ∧ changes = source.changes ∧ base = source.base
  | .replaying binding document changes =>
    notes = [] ∧ ∃ invocation source content applied, asked = some (.init (some invocation) (some source)) ∧
      binding = invocation.binding ∧ source.changes = applied ++ changes ∧ (source.base = none → content = []) ∧
      replay canonicalize content applied = document
  | .queued _ contextId (.apply invocation context changeSet) =>
    notes = [] ∧ asked = some (.apply (some invocation) (some context) (some changeSet)) ∧ contextId = context.contextId
  | .queued _ contextId (.snapshot invocation context) =>
    notes = [] ∧ asked = some (.snapshot (some invocation) (some context)) ∧ contextId = context.contextId
  | .applying invocation contextId stored changeSet document =>
    notes = [] ∧ ∃ context, asked = some (.apply (some invocation) (some context) (some changeSet)) ∧
      contextId = context.contextId ∧ stored.binding = invocation.binding ∧ stored.sequence = context.sequence ∧
      document = applyChangeSet canonicalize stored.document changeSet
  | .settled _ result | .done result => Answered canonicalize call asked result notes

end Specification

/-- A call that holds a place for a context it initializes. -/
def CallPhase.Initializing : CallPhase → Prop
  | .loading .. | .replaying .. => True
  | _ => False

namespace Service

variable (canonicalize : UInt16 → UInt16) (options : Options) (clock : Clock)

/-- A context is what the log says of it. -/
def ContextOk (log : List Note) (contextId : String) (stored : StoredContext) : Prop :=
  ∃ note ∈ log, ∃ document, note.Creates contextId stored.origin stored.binding document stored.expiresAt ∧
    stored.sequence = (changesOf stored.origin log).length ∧
    replay canonicalize document (changesOf stored.origin log) = .ok stored.document

/-- What holds in every state. -/
structure Inv (s : Service) : Prop where
  ids : (s.contexts.map Prod.fst).Nodup
  origins : (s.contexts.map fun e => e.2.origin).Nodup
  objects : ∀ e ∈ s.contexts, e.2.object < s.objects
  identity : ∀ e ∈ s.contexts, ∀ e' ∈ s.contexts, e.2.object = e'.2.object → e = e'
  capacity : s.contexts.length + s.initializing ≤ options.maxContexts
  contexts : ∀ e ∈ s.contexts, ContextOk canonicalize s.log e.1 e.2
  held : ∀ call invocation contextId stored changeSet document,
    s.calls call = .applying invocation contextId stored changeSet document →
      stored.object < s.objects ∧ ∀ e ∈ s.contexts, e.2.object = stored.object → e.2 = stored
  made : ∀ note ∈ s.log, ∀ id origin b d t, note.Creates id origin b d t → origin < s.objects
  justified : ∀ before note after, s.log = before ++ note :: after → note.Justified canonicalize clock before
  calls : ∀ call, CallOk canonicalize call (s.asked call) (notesOf call s.log) (s.calls call)

/-- The calls that hold a place are as many as the places that are held. -/
def Counted (s : Service) : Prop :=
  ∃ l : List Nat, l.Nodup ∧ l.length = s.initializing ∧ ∀ call, call ∈ l ↔ (s.calls call).Initializing

variable {canonicalize options clock} {s s' : Service}

/-! ## Readings of the clock -/

/-- Only the clock was read, and contexts taken away whose end it had reached. -/
structure Prunes (clock : Clock) (s s' : Service) : Prop where
  sublist : s'.contexts.Sublist s.contexts
  expired : ∀ e ∈ s.contexts, e ∉ s'.contexts → ∃ r < s'.readings, e.2.expiresAt ≤ clock.now r
  readings : s.readings ≤ s'.readings
  rest : s'.queues = s.queues ∧ s'.initializing = s.initializing ∧ s'.objects = s.objects ∧ s'.calls = s.calls ∧
    s'.asked = s.asked ∧ s'.log = s.log

theorem Prunes.refl (s : Service) : Prunes clock s s where
  sublist := List.Sublist.refl _
  expired _ he hne := absurd he hne
  readings := Nat.le_refl _
  rest := ⟨rfl, rfl, rfl, rfl, rfl, rfl⟩

theorem Prunes.trans {s'' : Service} (h : Prunes clock s s') (h' : Prunes clock s' s'') : Prunes clock s s'' where
  sublist := h'.sublist.trans h.sublist
  expired e he hne := by
    by_cases hmid : e ∈ s'.contexts
    · exact h'.expired e hmid hne
    · obtain ⟨r, hr, hle⟩ := h.expired e he hmid
      exact ⟨r, Nat.lt_of_lt_of_le hr h'.readings, hle⟩
  readings := Nat.le_trans h.readings h'.readings
  rest := by
    obtain ⟨q, i, o, c, a, l⟩ := h.rest
    obtain ⟨q', i', o', c', a', l'⟩ := h'.rest
    exact ⟨q'.trans q, i'.trans i, o'.trans o, c'.trans c, a'.trans a, l'.trans l⟩

theorem getContext_spec (hids : (s.contexts.map Prod.fst).Nodup) {contextId : String} {found : Option StoredContext}
    (h : getContext clock contextId s = (found, s')) :
    Prunes clock s s' ∧ ∀ stored, found = some stored →
      (contextId, stored) ∈ s'.contexts ∧ ∀ r < s'.readings, clock.now r < stored.expiresAt := by
  rw [getContext] at h
  split at h
  · cases h
    exact ⟨Prunes.refl s, fun stored hnone => by cases hnone⟩
  · rename_i stored hlookup
    have hmem : (contextId, stored) ∈ s.contexts := (JsMap.lookup_iff hids).mp hlookup
    split at h
    · rename_i hexpired
      cases h
      refine ⟨⟨List.filter_sublist, fun e he hne => ?_, Nat.le_succ _, rfl, rfl, rfl, rfl, rfl, rfl⟩, fun _ hnone => by
        cases hnone⟩
      have hkey : e.1 = contextId := by
        by_contra hkey
        exact hne (List.mem_filter.mpr ⟨he, by simpa using hkey⟩)
      have hone : e = (contextId, stored) := by
        have hlast : s.contexts.lookup contextId = some e.2 := (JsMap.lookup_iff hids).mpr (hkey ▸ he)
        rw [hlookup] at hlast
        exact Prod.ext hkey (Option.some.inj hlast).symm
      rw [hone]
      exact ⟨s.readings, Nat.lt_succ_self _, hexpired⟩
    · rename_i hlive
      cases h
      refine ⟨⟨List.Sublist.refl _, fun e he hne => absurd he hne, Nat.le_succ _, rfl, rfl, rfl, rfl, rfl, rfl⟩,
        fun stored' hsome => ?_⟩
      cases hsome
      refine ⟨hmem, fun r hr => ?_⟩
      have hmono := clock.monotone r s.readings (Nat.le_of_lt_succ hr)
      omega

theorem pruneExpired_prunes (hids : (s.contexts.map Prod.fst).Nodup) : Prunes clock s (pruneExpired clock s) := by
  have hall : ∀ (keys : List String) (t : Service), Prunes clock s t →
      Prunes clock s (keys.foldl (fun t contextId => (getContext clock contextId t).2) t) := by
    intro keys
    induction keys with
    | nil => exact fun t h => h
    | cons key keys ih =>
      intro t h
      have hnodup : (t.contexts.map Prod.fst).Nodup := hids.sublist (h.sublist.map _)
      exact ih _ (h.trans (getContext_spec hnodup rfl).1)
  exact hall _ s (Prunes.refl s)

theorem Inv.prunes (h : Inv canonicalize options clock s) (hp : Prunes clock s s') : Inv canonicalize options clock s' := by
  obtain ⟨_, hi, ho, hc, ha, hl⟩ := hp.rest
  have hsub := hp.sublist.subset
  refine ⟨h.ids.sublist (hp.sublist.map _), h.origins.sublist (hp.sublist.map _), ?_, ?_, ?_, ?_, ?_, ?_, ?_, ?_⟩
  · rw [ho]
    exact fun e he => h.objects e (hsub he)
  · exact fun e he e' he' => h.identity e (hsub he) e' (hsub he')
  · rw [hi]
    have hcap := h.capacity
    have hlen := hp.sublist.length_le
    omega
  · rw [hl]
    exact fun e he => h.contexts e (hsub he)
  · rw [hc, ho]
    intro call invocation contextId stored changeSet document hcall
    obtain ⟨hobject, hsame⟩ := h.held call invocation contextId stored changeSet document hcall
    exact ⟨hobject, fun e he => hsame e (hsub he)⟩
  · rw [hl, ho]
    exact h.made
  · rw [hl]
    exact h.justified
  · rw [hc, ha, hl]
    exact h.calls

theorem Counted.prunes (h : Counted s) (hp : Prunes clock s s') : Counted s' := by
  obtain ⟨_, hi, _, hc, _, _⟩ := hp.rest
  rw [Counted, hi, hc]
  exact h

/-! ## Steps of a call -/

theorem calls_setCall (call call' : Nat) (phase : CallPhase) :
    (s.setCall call phase).calls call' = if call' = call then phase else s.calls call' := by
  simp only [setCall, Function.update_apply]

/-- A call may move on when its next phase agrees with what it was asked and what it has written. -/
theorem Inv.setCall (h : Inv canonicalize options clock s) {call : Nat} {phase : CallPhase}
    (hok : CallOk canonicalize call (s.asked call) (notesOf call s.log) phase)
    (hheld : ∀ invocation contextId stored changeSet document,
      phase = .applying invocation contextId stored changeSet document →
        stored.object < s.objects ∧ ∀ e ∈ s.contexts, e.2.object = stored.object → e.2 = stored) :
    Inv canonicalize options clock (s.setCall call phase) where
  ids := h.ids
  origins := h.origins
  objects := h.objects
  identity := h.identity
  capacity := h.capacity
  contexts := h.contexts
  held call' invocation contextId stored changeSet document hcall := by
    rw [calls_setCall] at hcall
    split at hcall
    · exact hheld invocation contextId stored changeSet document hcall
    · exact h.held call' invocation contextId stored changeSet document hcall
  made := h.made
  justified := h.justified
  calls call' := by
    rw [calls_setCall]
    split
    · rename_i heq
      rw [heq]
      exact hok
    · exact h.calls call'

theorem Inv.setInitializing (h : Inv canonicalize options clock s) (places : Nat)
    (hcap : s.contexts.length + places ≤ options.maxContexts) :
    Inv canonicalize options clock { s with initializing := places } :=
  ⟨h.ids, h.origins, h.objects, h.identity, hcap, h.contexts, h.held, h.made, h.justified, h.calls⟩

theorem Inv.setQueues (h : Inv canonicalize options clock s) (queues : List (String × Nat)) :
    Inv canonicalize options clock { s with queues } :=
  ⟨h.ids, h.origins, h.objects, h.identity, h.capacity, h.contexts, h.held, h.made, h.justified, h.calls⟩

theorem Counted.setCall (h : Counted s) {call : Nat} {phase : CallPhase}
    (hsame : phase.Initializing ↔ (s.calls call).Initializing) : Counted (s.setCall call phase) := by
  obtain ⟨l, hnodup, hlen, hmem⟩ := h
  refine ⟨l, hnodup, hlen, fun call' => ?_⟩
  rw [calls_setCall]
  split
  · rename_i heq
    rw [heq, hmem, hsame]
  · exact hmem call'

/-- A call that begins to initialize a context takes a place. -/
theorem Counted.beginInit (h : Counted s) {call : Nat} {phase : CallPhase} (hold : ¬ (s.calls call).Initializing)
    (hnew : phase.Initializing) : Counted ({ s with initializing := s.initializing + 1 }.setCall call phase) := by
  obtain ⟨l, hnodup, hlen, hmem⟩ := h
  have hfresh : call ∉ l := fun hin => hold ((hmem call).mp hin)
  refine ⟨call :: l, List.nodup_cons.mpr ⟨hfresh, hnodup⟩, by simp [Service.setCall, hlen], fun call' => ?_⟩
  rw [calls_setCall, List.mem_cons]
  split
  · rename_i heq
    simp [heq, hnew]
  · rename_i hne
    simp [hne, hmem]

theorem Counted.pos (h : Counted s) {call : Nat} (hcall : (s.calls call).Initializing) : 1 ≤ s.initializing := by
  obtain ⟨l, _, hlen, hmem⟩ := h
  have hin := (hmem call).mpr hcall
  have hpos := List.length_pos_of_mem hin
  omega

/-- A call that ends its initialization gives the place back. -/
theorem Counted.finishInit (h : Counted s) {call : Nat} (hcall : (s.calls call).Initializing) (result : ServiceResult) :
    Counted (s.finishInit call result) := by
  obtain ⟨l, hnodup, hlen, hmem⟩ := h
  refine ⟨l.erase call, hnodup.erase call, ?_, fun call' => ?_⟩
  · rw [List.length_erase_of_mem ((hmem call).mpr hcall), hlen]
    rfl
  · rw [Service.finishInit, calls_setCall, hnodup.mem_erase_iff]
    split
    · rename_i heq
      simp [heq, CallPhase.Initializing]
    · rename_i hne
      simp [hne, hmem]

theorem justified_snoc {log : List Note} {note : Note}
    (h : ∀ before n after, log = before ++ n :: after → n.Justified canonicalize clock before)
    (hnote : note.Justified canonicalize clock log) :
    ∀ before n after, log ++ [note] = before ++ n :: after → n.Justified canonicalize clock before := by
  intro before n after heq
  rcases List.eq_nil_or_concat after with rfl | ⟨after, last, rfl⟩
  · obtain ⟨rfl, hlast⟩ := List.append_inj' heq rfl
    cases hlast
    exact hnote
  · rw [List.concat_eq_append, ← List.cons_append, ← List.append_assoc] at heq
    obtain ⟨hlog, _⟩ := List.append_inj' heq rfl
    exact h before n after hlog

theorem Inv.success (h : Inv canonicalize options clock s) (contexts : List (String × StoredContext))
    (initializing readings objects call : Nat) (note : Note) (phase : CallPhase) (hids : (contexts.map Prod.fst).Nodup)
    (horigins : (contexts.map fun e => e.2.origin).Nodup) (hobjects : ∀ e ∈ contexts, e.2.object < objects)
    (hcap : contexts.length + initializing ≤ options.maxContexts)
    (hcontexts : ∀ e ∈ contexts, ContextOk canonicalize (s.log ++ [note]) e.1 e.2) (hmore : s.objects ≤ objects)
    (hsame : ∀ e ∈ contexts, e ∈ s.contexts ∨ s.objects ≤ e.2.object)
    (hone : ∀ e ∈ contexts, ∀ e' ∈ contexts, s.objects ≤ e.2.object → s.objects ≤ e'.2.object → e = e')
    (hmade : ∀ id origin b d t, note.Creates id origin b d t → origin < objects)
    (hjustified : note.Justified canonicalize clock s.log) (hcall : note.call = call)
    (hphase : ∀ invocation contextId stored changeSet document,
      phase ≠ .applying invocation contextId stored changeSet document)
    (hok : CallOk canonicalize call (s.asked call) (notesOf call s.log ++ [note]) phase) :
    Inv canonicalize options clock
      (({ s with contexts, initializing, readings, objects } : Service).note note |>.setCall call phase) where
  ids := hids
  origins := horigins
  objects := hobjects
  identity e he e' he' heq := by
    rcases hsame e he with hold | hnew
    · have hlt := h.objects e hold
      rcases hsame e' he' with hold' | hnew'
      · exact h.identity e hold e' hold' heq
      · omega
    · rcases hsame e' he' with hold' | hnew'
      · have hlt := h.objects e' hold'
        omega
      · exact hone e he e' he' hnew hnew'
  capacity := hcap
  contexts := hcontexts
  held call' invocation contextId stored changeSet document hcall' := by
    rw [calls_setCall] at hcall'
    split at hcall'
    · exact absurd hcall' (hphase _ _ _ _ _)
    · obtain ⟨hobject, hone⟩ := h.held call' invocation contextId stored changeSet document hcall'
      refine ⟨Nat.lt_of_lt_of_le hobject hmore, fun e he heq => ?_⟩
      rcases hsame e he with hold | hnew
      · exact hone e hold heq
      · omega
  made n hn id origin b d t hcreates := by
    rcases List.mem_append.mp hn with hold | hnew
    · exact Nat.lt_of_lt_of_le (h.made n hold id origin b d t hcreates) hmore
    · rw [List.mem_singleton.mp hnew] at hcreates
      exact hmade id origin b d t hcreates
  justified := justified_snoc h.justified hjustified
  calls call' := by
    rw [calls_setCall]
    split
    · rename_i heq
      rw [heq]
      show CallOk canonicalize call (s.asked call) (notesOf call (s.log ++ [note])) phase
      rw [notesOf_snoc_self hcall]
      exact hok
    · rename_i hne
      show CallOk canonicalize call' (s.asked call') (notesOf call' (s.log ++ [note])) (s.calls call')
      rw [notesOf_snoc_other (by rw [hcall]; exact Ne.symm hne)]
      exact h.calls call'

/-- Nothing was applied to a context that is still to be made. -/
theorem Inv.changesOf_fresh (h : Inv canonicalize options clock s) {origin : Nat} (hfresh : s.objects ≤ origin) :
    changesOf origin s.log = [] := by
  rw [changesOf, List.filterMap_eq_nil_iff]
  intro note hnote
  cases note with
  | created call contextId origin' binding document expiresAt => rfl
  | read call contextId origin' binding sequence document readings => rfl
  | applied call contextId origin' binding sequence changeSet readings =>
    obtain ⟨before, after, hlog⟩ := List.append_of_mem hnote
    obtain ⟨made, hmade, _, _, hcreates, _⟩ := h.justified before _ after hlog
    have hlt := h.made made (hlog ▸ List.mem_append_left _ hmade) _ _ _ _ _ hcreates
    have hne : origin' ≠ origin := by omega
    simp only [if_neg hne]

theorem ContextOk.snoc {log : List Note} {contextId : String} {stored : StoredContext} {note : Note}
    (h : ContextOk canonicalize log contextId stored) (hnone : changesOf stored.origin [note] = []) :
    ContextOk canonicalize (log ++ [note]) contextId stored := by
  obtain ⟨n, hn, document, hcreates, hsequence, hreplay⟩ := h
  refine ⟨n, List.mem_append_left _ hn, document, hcreates, ?_, ?_⟩
  · rw [changesOf_append, hnone, List.append_nil]
    exact hsequence
  · rw [changesOf_append, hnone, List.append_nil]
    exact hreplay

end Service

end UniDocs.Markdown
