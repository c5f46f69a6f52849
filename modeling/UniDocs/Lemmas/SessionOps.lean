import UniDocs.Session.Notes
import UniDocs.Lib.Pool

/-!
# Operations of a session object under failing ports

What one call leaves in the session object and in the delta log when every port call may fail: a load changes neither the
log nor the remembered operations, what follows the append in `apply` only fails when a call does, and `apply` remembers
an operation when it gets to its end.
-/

namespace UniDocs.Session

open Lib

section Quiet

variable {Doc Op α β : Type}

/-- A call that leaves the log and the remembered operations. -/
def QuietCall (β : Type) (c : SessionCall Doc Op β) : Prop :=
  match c with
  | .memory _ g => ∀ m, (g m).1.recentOps = m.recentOps ∧ (m.loaded = true → (g m).1.loaded = true)
  | .write _ (.cachePut _ _) => True
  | .write _ (.putIfAbsent _ _) => True
  | .write _ (.recordSnapshot _ _ _) => True
  | .write _ _ => False
  | .configApply _ _ _ _ => False
  | .discard _ => False
  | _ => True

/-- A call that leaves the remembered operations. -/
def MemoryCall (β : Type) (c : SessionCall Doc Op β) : Prop :=
  match c with
  | .memory _ g => ∀ m, (g m).1.recentOps = m.recentOps ∧ (m.loaded = true → (g m).1.loaded = true)
  | .discard _ => False
  | _ => True

theorem QuietCall.memoryCall (β : Type) (c : SessionCall Doc Op β) (h : QuietCall β c) : MemoryCall β c := by
  cases c with
  | memory n g => exact h
  | discard n => exact h
  | _ => trivial

theorem quiet_memory {x : SessionProg Doc Op α} (h : x.Calls QuietCall) : x.Calls MemoryCall :=
  h.mono QuietCall.memoryCall

/-! ## The programs by their calls -/

theorem get_quiet (n : Nat) (f : SessionMemory Doc → β) : (get n f : SessionProg Doc Op β).Calls QuietCall :=
  ⟨fun _ => ⟨rfl, id⟩, fun _ => trivial⟩

theorem assign_quiet (n : Nat) {f : SessionMemory Doc → SessionMemory Doc}
    (h : ∀ m, (f m).recentOps = m.recentOps ∧ (m.loaded = true → (f m).loaded = true)) :
    (assign n f : SessionProg Doc Op Unit).Calls QuietCall :=
  ⟨h, fun _ => trivial⟩

theorem assign_memory (n : Nat) {f : SessionMemory Doc → SessionMemory Doc}
    (h : ∀ m, (f m).recentOps = m.recentOps ∧ (m.loaded = true → (f m).loaded = true)) :
    (assign n f : SessionProg Doc Op Unit).Calls MemoryCall :=
  ⟨h, fun _ => trivial⟩

theorem read_quiet (n : Nat) (q : PortRead Op β) : (read n q : SessionProg Doc Op β).Calls QuietCall :=
  ⟨trivial, fun _ => trivial⟩

theorem write_quiet (n : Nat) {w : PortWrite Doc Op} (h : QuietCall _ (.write n w)) :
    (write n w : SessionProg Doc Op Unit).Calls QuietCall :=
  ⟨h, fun _ => trivial⟩

theorem write_memory (n : Nat) (w : PortWrite Doc Op) : (write n w : SessionProg Doc Op Unit).Calls MemoryCall :=
  ⟨trivial, fun _ => trivial⟩

theorem now_quiet : (now : SessionProg Doc Op Nat).Calls QuietCall := ⟨trivial, fun _ => trivial⟩

theorem evaluate_calls {P : ∀ β : Type, SessionCall Doc Op β → Prop} (r : Except String β) :
    (evaluate r : SessionProg Doc Op β).Calls P := by
  cases r <;> trivial

variable {dt : DocumentType Doc Op} {sessionId : String} {n : Nat}

theorem saveSnapshotCache_quiet : (saveSnapshotCache dt n).Calls QuietCall := by
  refine Prog.Calls.bind (fun m => ?_) (get_quiet _ _)
  split
  · trivial
  · refine Prog.Calls.bind (fun _ => ?_) (evaluate_calls _)
    exact write_quiet _ trivial

theorem replayDeltas_quiet (deltas : List (Delta Op)) : (replayDeltas dt n deltas).Calls QuietCall := by
  induction deltas with
  | nil => trivial
  | cons d rest ih =>
    refine Prog.Calls.bind (fun doc => ?_) (get_quiet _ _)
    cases doc with
    | none => trivial
    | some doc =>
      refine Prog.Calls.bind (fun doc => ?_) (evaluate_calls _)
      exact Prog.Calls.bind (fun _ => ih) (assign_quiet _ fun _ => ⟨rfl, id⟩)

theorem loadSnapshot_quiet : (loadSnapshot dt n).Calls QuietCall := by
  refine Prog.Calls.bind (fun snapshot => ?_) (read_quiet _ _)
  cases snapshot with
  | some entry =>
    refine Prog.Calls.bind (fun _ => ?_) (evaluate_calls _)
    exact assign_quiet _ fun _ => ⟨rfl, id⟩
  | none =>
    refine Prog.Calls.bind (fun ref => ?_) (read_quiet _ _)
    cases ref with
    | none => trivial
    | some ref =>
      refine Prog.Calls.bind (fun bytes => ?_) (read_quiet _ _)
      cases bytes with
      | none => trivial
      | some bytes =>
        refine Prog.Calls.bind (fun _ => ?_) (evaluate_calls _)
        exact assign_quiet _ fun _ => ⟨rfl, id⟩

theorem load_quiet : (load dt n).Calls QuietCall := by
  refine Prog.Calls.bind (fun loaded => ?_) (get_quiet _ _)
  split
  · trivial
  · refine Prog.Calls.bind (fun _ => ?_) loadSnapshot_quiet
    refine Prog.Calls.bind (fun version => ?_) (get_quiet _ _)
    refine Prog.Calls.bind (fun pending => ?_) (read_quiet _ _)
    refine Prog.Calls.bind (fun doc => ?_) (get_quiet _ _)
    refine Prog.Calls.bind (fun _ => ?_) ?_
    · refine Prog.Calls.bind (fun _ => ?_) (replayDeltas_quiet _)
      refine Prog.Calls.bind (fun _ => assign_quiet _ fun _ => ⟨rfl, fun _ => rfl⟩) ?_
      split
      · exact saveSnapshotCache_quiet
      · trivial
    · split
      · refine Prog.Calls.bind (fun _ => ?_) (evaluate_calls _)
        exact assign_quiet _ fun _ => ⟨rfl, id⟩
      · trivial

theorem requireDoc_quiet : (requireDoc n : SessionProg Doc Op Doc).Calls QuietCall := by
  refine Prog.Calls.bind (fun doc => ?_) (get_quiet _ _)
  cases doc <;> trivial

theorem shouldSnapshot_quiet : (shouldSnapshot n : SessionProg Doc Op Bool).Calls QuietCall := by
  refine Prog.Calls.bind (fun ref => ?_) (read_quiet _ _)
  exact Prog.Calls.bind (fun _ => trivial) (read_quiet _ _)

theorem writeBlob_quiet {doc : Doc} : (writeBlob dt n doc).Calls QuietCall := by
  refine Prog.Calls.bind (fun bytes => ?_) (evaluate_calls _)
  exact Prog.Calls.bind (fun _ => trivial) (write_quiet _ trivial)

theorem commitRootRefs_calls {P : ∀ β : Type, SessionCall Doc Op β → Prop} {requestId : String} {changes : CasReferences}
    {rollback : SessionProg Doc Op Unit} (hsend : P _ (.updateRootRefs requestId changes)) (hrollback : rollback.Calls P) :
    (commitRootRefsOrRollback requestId changes rollback).Calls P := by
  unfold commitRootRefsOrRollback
  split
  · trivial
  · refine Prog.Calls.tryCatch (fun e => ?_) ⟨hsend, fun _ => trivial⟩
    exact Prog.Calls.bind (fun _ => trivial) hrollback

theorem pinSnapshot_quiet {version : Nat} {doc : Doc} : (pinSnapshot dt sessionId version doc).Calls QuietCall := by
  refine Prog.Calls.bind (fun refs => ?_) (evaluate_calls _)
  split
  · trivial
  · exact Prog.Calls.tryCatch (fun _ => trivial) (commitRootRefs_calls trivial trivial)

theorem writeSnapshot_quiet : (writeSnapshot dt sessionId n).Calls QuietCall := by
  refine Prog.Calls.bind (fun m => ?_) (get_quiet _ _)
  split
  · trivial
  · refine Prog.Calls.bind (fun hash => ?_) writeBlob_quiet
    refine Prog.Calls.bind (fun _ => ?_) pinSnapshot_quiet
    refine Prog.Calls.bind (fun timestamp => ?_) now_quiet
    exact Prog.Calls.bind (fun _ => trivial) (write_quiet _ trivial)

theorem snapshotAtThreshold_quiet : (snapshotAtThreshold dt sessionId n).Calls QuietCall := by
  refine Prog.Calls.bind (fun due => ?_) shouldSnapshot_quiet
  split
  · exact Prog.Calls.bind (fun _ => trivial) writeSnapshot_quiet
  · trivial

theorem leaseAll_quiet (refs : CasReferences) : (leaseAll refs : SessionProg Doc Op Unit).Calls QuietCall := by
  induction refs with
  | nil => trivial
  | cons ref rest ih => exact Prog.Calls.bind (fun _ => ih) ⟨trivial, fun _ => trivial⟩

theorem leaseOpRefs_quiet {ops : List Op} : (leaseOpRefs dt ops).Calls QuietCall := by
  unfold leaseOpRefs
  split
  · trivial
  · exact Prog.Calls.bind (fun _ => trivial) (leaseAll_quiet _)

/-! ## The methods that append no batch -/

theorem commitFirstVersion_memory {doc : Doc} {hash : Hash} {description : String} :
    (commitFirstVersion dt sessionId n doc hash description).Calls MemoryCall := by
  refine Prog.Calls.bind (fun _ => ?_) (quiet_memory pinSnapshot_quiet)
  refine Prog.Calls.bind (fun timestamp => ?_) (quiet_memory now_quiet)
  refine Prog.Calls.bind (fun _ => ?_) (write_memory _ _)
  refine Prog.Calls.bind (fun _ => ?_) (assign_memory _ fun _ => ⟨rfl, id⟩)
  refine Prog.Calls.bind (fun _ => ?_) (Prog.Calls.tryCatch (fun _ => trivial) (quiet_memory saveSnapshotCache_quiet))
  exact Prog.Calls.bind (fun _ => trivial) (assign_memory _ fun _ => ⟨rfl, fun _ => rfl⟩)

theorem create_memory {input : Option (Bytes × Option String)} : (create dt sessionId n input).Calls MemoryCall := by
  refine Prog.Calls.bind (fun _ => ?_) (quiet_memory load_quiet)
  refine Prog.Calls.bind (fun doc => ?_) (quiet_memory (get_quiet _ _))
  refine Prog.Calls.bind (fun _ => ?_) (Prog.Calls.require _ _)
  refine Prog.Calls.bind (fun doc => ?_) (evaluate_calls _)
  exact Prog.Calls.bind (fun hash => commitFirstVersion_memory) (quiet_memory writeBlob_quiet)

theorem initFromHash_memory {hash : Hash} {sourceVersion : Nat} :
    (initFromHash dt sessionId n hash sourceVersion).Calls MemoryCall := by
  refine Prog.Calls.bind (fun _ => ?_) (quiet_memory load_quiet)
  refine Prog.Calls.bind (fun doc => ?_) (quiet_memory (get_quiet _ _))
  refine Prog.Calls.bind (fun _ => ?_) (Prog.Calls.require _ _)
  refine Prog.Calls.bind (fun bytes => ?_) (quiet_memory (read_quiet _ _))
  cases bytes with
  | none => trivial
  | some bytes => exact Prog.Calls.bind (fun doc => commitFirstVersion_memory) (evaluate_calls _)

theorem rollbackBase_quiet {target : Nat} : (rollbackBase dt n target).Calls QuietCall := by
  refine Prog.Calls.bind (fun ref => ?_) (read_quiet _ _)
  cases ref with
  | none => exact Prog.Calls.bind (fun _ => trivial) (evaluate_calls _)
  | some ref =>
    refine Prog.Calls.bind (fun bytes => ?_) (read_quiet _ _)
    cases bytes with
    | none => trivial
    | some bytes => exact Prog.Calls.bind (fun _ => trivial) (evaluate_calls _)

theorem rollback_memory {target : Nat} : (rollback dt sessionId n target).Calls MemoryCall := by
  refine Prog.Calls.bind (fun _ => ?_) (quiet_memory load_quiet)
  refine Prog.Calls.bind (fun _ => ?_) (quiet_memory requireDoc_quiet)
  refine Prog.Calls.bind (fun existing => ?_) (quiet_memory (read_quiet _ _))
  refine Prog.Calls.bind (fun _ => ?_) (Prog.Calls.require _ _)
  refine Prog.Calls.bind (fun base => ?_) (quiet_memory rollbackBase_quiet)
  refine Prog.Calls.bind (fun deltas => ?_) (quiet_memory (read_quiet _ _))
  refine Prog.Calls.bind (fun doc => ?_) (evaluate_calls _)
  refine Prog.Calls.bind (fun head => ?_) (quiet_memory (read_quiet _ _))
  refine Prog.Calls.bind (fun timestamp => ?_) (quiet_memory now_quiet)
  refine Prog.Calls.bind (fun _ => ?_) (write_memory _ _)
  refine Prog.Calls.bind (fun _ => ?_) (assign_memory _ fun _ => ⟨rfl, id⟩)
  refine Prog.Calls.bind (fun _ => ?_) (quiet_memory saveSnapshotCache_quiet)
  exact Prog.Calls.bind (fun _ => trivial) (quiet_memory snapshotAtThreshold_quiet)

theorem snapshot_memory : (snapshot dt sessionId n).Calls MemoryCall := by
  refine Prog.Calls.bind (fun _ => ?_) (quiet_memory load_quiet)
  refine Prog.Calls.bind (fun _ => ?_) (quiet_memory requireDoc_quiet)
  exact quiet_memory writeSnapshot_quiet

theorem ir_memory : (ir dt n).Calls MemoryCall := by
  refine Prog.Calls.bind (fun _ => ?_) (quiet_memory load_quiet)
  refine Prog.Calls.bind (fun doc => ?_) (quiet_memory requireDoc_quiet)
  refine Prog.Calls.bind (fun bytes => ?_) (evaluate_calls _)
  exact Prog.Calls.bind (fun _ => trivial) (quiet_memory (get_quiet _ _))

end Quiet

/-! ## What a call keeps -/

section Steps

variable {Doc Op α β : Type} {dt : DocumentType Doc Op} {A : Guard (SessionCall Doc Op) (State Doc Op)}
  {s t s' : State Doc Op × List (Note Doc Op)} {x : SessionProg Doc Op α}

/-- The log and the remembered operations stay, and the notes about the calls are quiet. -/
structure QuietStep (s s' : State Doc Op × List (Note Doc Op)) : Prop where
  deltas : s'.1.ports.deltas = s.1.ports.deltas
  ops : (s'.1.session 0).recentOps = (s.1.session 0).recentOps
  loaded : (s.1.session 0).loaded = true → (s'.1.session 0).loaded = true
  notes : ∃ l, s'.2 = s.2 ++ l ∧ ∀ n ∈ l, n.Quiet

theorem QuietStep.refl (s : State Doc Op × List (Note Doc Op)) : QuietStep s s :=
  ⟨rfl, rfl, id, [], by simp, by simp⟩

theorem QuietStep.trans (h : QuietStep s t) (h' : QuietStep t s') : QuietStep s s' := by
  obtain ⟨l, hl, hq⟩ := h.notes
  obtain ⟨l', hl', hq'⟩ := h'.notes
  refine ⟨h'.deltas.trans h.deltas, h'.ops.trans h.ops, h'.loaded ∘ h.loaded, l ++ l', ?_, ?_⟩
  · rw [hl', hl, List.append_assoc]
  · intro n hn
    exact (List.mem_append.mp hn).elim (hq n) (hq' n)

theorem setSession_keeps {s : State Doc Op} {n : Nat} {m : SessionMemory Doc}
    (h : m.recentOps = (s.session n).recentOps ∧ ((s.session n).loaded = true → m.loaded = true)) :
    ((s.setSession n m).session 0).recentOps = (s.session 0).recentOps ∧
      ((s.session 0).loaded = true → ((s.setSession n m).session 0).loaded = true) := by
  by_cases hn : n = 0
  · subst hn
    rw [setSession_same]
    exact h
  · have hsame : (s.setSession n m).session 0 = s.session 0 := by simp [State.setSession, Ne.symm hn]
    rw [hsame]
    exact ⟨rfl, id⟩

theorem portWrite_session (n : Nat) (w : PortWrite Doc Op) (f : Fault) (s : State Doc Op) :
    (portWrite n w f s).1.session = s.session := by
  cases f <;> simp only [portWrite] <;> split <;> rfl

theorem portWrite_deltas {n : Nat} {w : PortWrite Doc Op} {f : Fault} {s : State Doc Op}
    (h : ∀ p, w.run s.ports = .ok p → p.deltas = s.ports.deltas) : (portWrite n w f s).1.ports.deltas = s.ports.deltas := by
  cases f with
  | failed => rfl
  | none =>
    simp only [portWrite]
    split
    · rename_i p hp
      exact h p hp
    · rfl
  | lost =>
    simp only [portWrite]
    split
    · rename_i p hp
      exact h p hp
    · rfl

theorem putIfAbsent_keeps_deltas (p : Ports Op) (hash : Hash) (bytes : Bytes) : (p.putIfAbsent hash bytes).deltas = p.deltas := by
  unfold Ports.putIfAbsent
  split <;> rfl

theorem quiet_call {c : SessionCall Doc Op β} {f : Fault} {b : β} (hc : QuietCall β c)
    (he : noted (fun _ => exec dt) (note dt) β c f s = some (s', b)) : QuietStep s s' := by
  obtain ⟨he, hl⟩ := noted_cases he
  cases c with
  | now =>
    simp only [exec] at he
    split at he
    · simp only [Option.some.injEq, Prod.mk.injEq] at he
      exact ⟨by rw [← he.1], by rw [← he.1], by rw [← he.1]; exact id, _, hl, by simp [note, Note.Quiet]⟩
    · cases he
  | memory n g =>
    simp only [exec] at he
    split at he
    · simp only [Option.some.injEq, Prod.mk.injEq] at he
      obtain ⟨h1, h2⟩ := setSession_keeps (s := s.1) (n := n) (hc (s.1.session n))
      exact ⟨by rw [← he.1]; rfl, by rw [← he.1]; exact h1, by rw [← he.1]; exact h2, _, hl, by simp [note, Note.Quiet]⟩
    · cases he
  | configApply n baseVersion ops doc => exact hc.elim
  | read n q =>
    have hsame : s'.1.ports = s.1.ports ∧ s'.1.session = s.1.session := by
      simp only [exec] at he
      cases f <;> simp only [Option.some.injEq, Prod.mk.injEq] at he <;> rw [← he.1] <;> exact ⟨rfl, rfl⟩
    exact ⟨by rw [hsame.1], by rw [hsame.2], by rw [hsame.2]; exact id, _, hl, by simp [note, Note.Quiet]⟩
  | write n w =>
    simp only [exec, Option.some.injEq] at he
    have hs : s'.1 = (portWrite n w f s.1).1 := by rw [he]
    have hrun : ∀ p, w.run s.1.ports = .ok p → p.deltas = s.1.ports.deltas := by
      intro p hp
      cases w with
      | cachePut v bytes =>
        cases hp
        rfl
      | putIfAbsent hash bytes =>
        cases hp
        exact putIfAbsent_keeps_deltas _ _ _
      | recordSnapshot v hash timestamp =>
        cases hp
        rfl
      | _ => exact hc.elim
    have hquiet : (note dt _ (.write n w) f s.1).Quiet := by
      cases w with
      | append d origin => exact hc.elim
      | _ => trivial
    refine ⟨by rw [hs]; exact portWrite_deltas hrun, by rw [hs, portWrite_session], ?_, _, hl, ?_⟩
    · rw [hs, portWrite_session]
      exact id
    · intro n' hn'
      rw [List.mem_singleton.mp hn']
      exact hquiet
  | leaseNode hash =>
    simp only [exec, Option.some.injEq, Prod.mk.injEq] at he
    exact ⟨by rw [← he.1], by rw [← he.1], by rw [← he.1]; exact id, _, hl, by simp [note, Note.Quiet]⟩
  | updateRootRefs requestId changes =>
    have hsame : s'.1.ports.deltas = s.1.ports.deltas ∧ s'.1.session = s.1.session := by
      simp only [exec] at he
      cases f <;> simp only [Option.some.injEq, Prod.mk.injEq] at he <;> rw [← he.1] <;> exact ⟨rfl, rfl⟩
    exact ⟨hsame.1, by rw [hsame.2], by rw [hsame.2]; exact id, _, hl, by simp [note, Note.Quiet]⟩
  | discard n => exact hc.elim

theorem quiet_step {o : Option (Except SessionError α)} (hx : x.Calls QuietCall) (h : NotedRuns dt A x s o s') :
    QuietStep s s' :=
  h.keeps QuietStep.refl (fun _ _ _ h h' => h.trans h') (fun _ _ _ _ _ _ hc _ he => quiet_call hc he) hx

/-- A quiet program before another: it ends the run, or leaves the log and the operations to the second. -/
theorem quiet_bind {y : SessionProg Doc Op β} {g : β → SessionProg Doc Op α} {r : Except SessionError α}
    (hy : y.Calls QuietCall) (h : NotedRuns dt A (y >>= g) s (some r) s') :
    (∃ e, r = .error e ∧ QuietStep s s') ∨
      ∃ b t, NotedRuns dt A y s (some (.ok b)) t ∧ QuietStep s t ∧ NotedRuns dt A (g b) t (some r) s' := by
  rcases h.bind_cases with ⟨e, rfl, hy'⟩ | ⟨b, t, hy', hg⟩
  · exact .inl ⟨e, rfl, quiet_step hy hy'⟩
  · exact .inr ⟨b, t, hy', quiet_step hy hy', hg⟩

/-- A call that leaves the remembered operations. -/
theorem memory_call {c : SessionCall Doc Op β} {f : Fault} {b : β} {s s' : State Doc Op} (hc : MemoryCall β c)
    (he : exec dt c f s = some (s', b)) : (s'.session 0).recentOps = (s.session 0).recentOps ∧
      ((s.session 0).loaded = true → (s'.session 0).loaded = true) := by
  cases c with
  | memory n g =>
    simp only [exec] at he
    split at he
    · cases he
      exact setSession_keeps (hc (s.session n))
    · cases he
  | configApply n baseVersion ops doc =>
    simp only [exec] at he
    split at he
    · cases he
      exact setSession_keeps ⟨rfl, id⟩
    · cases he
  | write n w =>
    simp only [exec, Option.some.injEq] at he
    have hs : s' = (portWrite n w f s).1 := by rw [he]
    rw [hs, portWrite_session]
    exact ⟨rfl, id⟩
  | now =>
    simp only [exec] at he
    split at he
    · cases he
      exact ⟨rfl, id⟩
    · cases he
  | discard n => exact hc.elim
  | _ =>
    simp only [exec] at he
    cases f <;> cases he <;> exact ⟨rfl, id⟩

theorem memory_step {o : Option (Except SessionError α)} {s s' : State Doc Op} (hx : x.Calls MemoryCall)
    (h : Runs (fun _ => exec dt) A x s o s') : (s'.session 0).recentOps = (s.session 0).recentOps ∧
      ((s.session 0).loaded = true → (s'.session 0).loaded = true) := by
  refine h.keeps (K := fun s s' : State Doc Op => (s'.session 0).recentOps = (s.session 0).recentOps ∧
    ((s.session 0).loaded = true → (s'.session 0).loaded = true)) (fun _ => ⟨rfl, id⟩) ?_ ?_ hx
  · exact fun _ _ _ h h' => ⟨h'.1.trans h.1, h'.2 ∘ h.2⟩
  · exact fun _ _ _ _ _ _ hc _ he => memory_call hc he

end Steps

/-! ## After the append -/

section Tail

variable {Doc Op α β : Type} {dt : DocumentType Doc Op} {A : Guard (SessionCall Doc Op) (State Doc Op)} {doc : Doc}
  {sessionId : String}

/-- With this document in memory a program changes neither the memory nor the log, and it throws exactly when a call of
it fails or the document cannot be encoded. -/
def Tail (dt : DocumentType Doc Op) (A : Guard (SessionCall Doc Op) (State Doc Op)) (doc : Doc) (x : SessionProg Doc Op α) :
    Prop :=
  ∀ (s s' : State Doc Op × List (Note Doc Op)) (r : Except SessionError α), (s.1.session 0).doc = some doc →
    NotedRuns dt A x s (some r) s' →
      s'.1.session 0 = s.1.session 0 ∧ s'.1.ports.deltas = s.1.ports.deltas ∧ ∃ l, s'.2 = s.2 ++ l ∧
        match r with
        | .ok _ => ∀ n ∈ l, n.fault = .none
        | .error _ => (∃ n ∈ l, n.fault ≠ .none) ∨ ¬ ∃ bytes, dt.encodeSValue doc = .ok bytes

theorem Tail.pure (a : α) : Tail dt A doc (Pure.pure a : SessionProg Doc Op α) := by
  intro s s' r _ h
  obtain ⟨rfl, rfl⟩ := h.pure_cases
  exact ⟨rfl, rfl, [], by simp, by simp⟩

theorem Tail.bind {x : SessionProg Doc Op β} {g : β → SessionProg Doc Op α} (hx : Tail dt A doc x)
    (hg : ∀ b, Tail dt A doc (g b)) : Tail dt A doc (x >>= g) := by
  intro s s' r hdoc h
  rcases h.bind_cases with ⟨e, rfl, h₁⟩ | ⟨b, t, h₁, h₂⟩
  · exact hx s s' _ hdoc h₁
  · obtain ⟨hm, hd, l, hl, hok⟩ := hx s t _ hdoc h₁
    obtain ⟨hm', hd', l', hl', hr⟩ := hg b t s' r (by rw [hm]; exact hdoc) h₂
    refine ⟨hm'.trans hm, hd'.trans hd, l ++ l', by rw [hl', hl, List.append_assoc], ?_⟩
    cases r with
    | ok a => exact fun n hn => (List.mem_append.mp hn).elim (hok n) (hr n)
    | error e => exact hr.imp (fun ⟨n, hn, hf⟩ => ⟨n, List.mem_append_right _ hn, hf⟩) id

/-- A handler that throws in its turn. -/
theorem Tail.rethrow {x : SessionProg Doc Op α} {g : SessionError → SessionProg Doc Op α} (hx : Tail dt A doc x)
    (hg : ∀ e, ∃ e', g e = throw e') : Tail dt A doc (x.tryCatch g) := by
  intro s s' r hdoc h
  rcases h.tryCatch_cases with ⟨a, rfl, h₁⟩ | ⟨e, t, h₁, h₂⟩
  · exact hx s s' _ hdoc h₁
  · obtain ⟨e', he'⟩ := hg e
    rw [he'] at h₂
    obtain ⟨rfl, rfl⟩ := h₂.throw_cases
    exact hx s _ _ hdoc h₁

theorem Tail.get {f : SessionMemory Doc → β} {g : β → SessionProg Doc Op α}
    (hg : ∀ m : SessionMemory Doc, m.doc = some doc → Tail dt A doc (g (f m))) : Tail dt A doc (get 0 f >>= g) := by
  intro s s' r hdoc h
  rcases h.bind_cases with ⟨e, rfl, h₁⟩ | ⟨b, t, h₁, h₂⟩
  · cases (get_cases h₁).2.1
  · obtain ⟨ht, hb, hl⟩ := get_cases h₁
    cases hb
    obtain ⟨hm, hd, l, hl', hr⟩ := hg _ hdoc t s' r (by rw [ht]; exact hdoc) h₂
    rw [ht] at hm hd
    refine ⟨hm, hd, .own :: l, by rw [hl', hl, List.append_assoc]; rfl, ?_⟩
    cases r with
    | ok a =>
      intro n hn
      rcases List.mem_cons.mp hn with rfl | hn
      · rfl
      · exact hr n hn
    | error e => exact hr.imp (fun ⟨n, hn, hf⟩ => ⟨n, List.mem_cons_of_mem _ hn, hf⟩) id

theorem Tail.evaluate {e : Except String β} (he : ∀ message, e = .error message → ¬ ∃ bytes, dt.encodeSValue doc = .ok bytes) :
    Tail dt A doc (evaluate e) := by
  intro s s' r _ h
  obtain ⟨rfl, ⟨b, -, rfl⟩ | ⟨message, hm, rfl⟩⟩ := evaluate_cases h
  · exact ⟨rfl, rfl, [], by simp, by simp⟩
  · exact ⟨rfl, rfl, [], by simp, .inr (he message hm)⟩

theorem Tail.now : Tail dt A doc (now : SessionProg Doc Op Nat) := by
  intro s s' r _ h
  obtain ⟨hs, rfl, hl⟩ := now_cases h
  rw [hs]
  exact ⟨rfl, rfl, _, hl, by simp [Note.fault]⟩

theorem Tail.read (q : PortRead Op β) : Tail dt A doc (read 0 q) := by
  intro s s' r _ h
  obtain ⟨hp, hm, f, -, hl, ⟨rfl, rfl⟩ | ⟨hf, rfl⟩⟩ := read_cases h
  · exact ⟨by rw [hm], by rw [hp], _, hl, by simp [Note.fault]⟩
  · exact ⟨by rw [hm], by rw [hp], _, hl, .inl ⟨_, List.mem_singleton_self _, hf⟩⟩

theorem Tail.write {w : PortWrite Doc Op} (hw : ∀ p, ∃ p', w.run p = .ok p' ∧ p'.deltas = p.deltas) :
    Tail dt A doc (write 0 w) := by
  intro s s' r _ h
  obtain ⟨p', hrun, hdeltas⟩ := hw s.1.ports
  obtain ⟨hm, f, -, hl, ⟨p, hp, hps, hcase⟩ | ⟨hps, hcase⟩⟩ := write_cases h
  · rw [hrun] at hp
    cases hp
    refine ⟨by rw [hm], by rw [hps, hdeltas], _, hl, ?_⟩
    rcases hcase with ⟨rfl, rfl⟩ | ⟨rfl, rfl⟩
    · simp [Note.fault]
    · exact .inl ⟨_, List.mem_singleton_self _, by simp [Note.fault]⟩
  · refine ⟨by rw [hm], by rw [hps], _, hl, ?_⟩
    rcases hcase with ⟨e, he, -⟩ | ⟨hf, rfl⟩
    · rw [hrun] at he
      cases he
    · exact .inl ⟨_, List.mem_singleton_self _, hf⟩

theorem Tail.updateRootRefs {requestId : String} {changes : CasReferences} :
    Tail dt A doc (Prog.attempt (.updateRootRefs requestId changes)) := by
  intro s s' r _ h
  obtain ⟨hm, ⟨refs, hp⟩, f, -, hl, ⟨rfl, rfl⟩ | ⟨hf, rfl⟩⟩ := updateRootRefs_cases h
  · exact ⟨by rw [hm], by rw [hp], _, hl, by simp [Note.fault]⟩
  · exact ⟨by rw [hm], by rw [hp], _, hl, .inl ⟨_, List.mem_singleton_self _, hf⟩⟩

theorem encodeSValue_error {message : String} (h : dt.encodeSValue doc = .error message) :
    ¬ ∃ bytes, dt.encodeSValue doc = .ok bytes := by
  rintro ⟨bytes, hb⟩
  rw [h] at hb
  cases hb

theorem refsFromSValue_error {message : String} (h : dt.refsFromSValue doc = .error message) :
    ¬ ∃ bytes, dt.encodeSValue doc = .ok bytes := by
  rintro ⟨bytes, hb⟩
  rw [DocumentType.encodeSValue] at hb
  rw [DocumentType.refsFromSValue] at h
  split at hb
  · rename_i r hr
    rw [hr] at h
    cases h
  · cases hb

theorem saveSnapshotCache_tail : Tail dt A doc (saveSnapshotCache dt 0) := by
  refine Tail.get fun m hm => ?_
  simp only [hm]
  exact Tail.bind (Tail.evaluate fun _ => encodeSValue_error) fun bytes => Tail.write fun p => ⟨_, rfl, rfl⟩

theorem saveSnapshotCache_encodes {s s' : State Doc Op × List (Note Doc Op)} {a : Unit} (hdoc : (s.1.session 0).doc = some doc)
    (h : NotedRuns dt A (saveSnapshotCache dt 0) s (some (.ok a)) s') : ∃ bytes, dt.encodeSValue doc = .ok bytes := by
  rcases h.bind_cases with ⟨e, he, -⟩ | ⟨m, t, h₁, h₂⟩
  · cases he
  obtain ⟨-, hm, -⟩ := get_cases h₁
  cases hm
  simp only [hdoc] at h₂
  rcases h₂.bind_cases with ⟨e, he, -⟩ | ⟨bytes, t', h₃, -⟩
  · cases he
  · obtain ⟨-, ⟨b, hb, -⟩ | ⟨message, -, hr⟩⟩ := evaluate_cases h₃
    · exact ⟨b, hb⟩
    · cases hr

theorem writeBlob_tail : Tail dt A doc (writeBlob dt 0 doc) := by
  refine Tail.bind (Tail.evaluate fun _ => encodeSValue_error) fun bytes => ?_
  exact Tail.bind (Tail.write fun p => ⟨_, rfl, putIfAbsent_keeps_deltas _ _ _⟩) fun _ => Tail.pure _

theorem pinSnapshot_tail {version : Nat} : Tail dt A doc (pinSnapshot dt sessionId version doc) := by
  refine Tail.bind (Tail.evaluate fun _ => refsFromSValue_error) fun refs => ?_
  split
  · exact Tail.pure _
  · refine Tail.rethrow ?_ fun e => ⟨_, rfl⟩
    unfold commitRootRefsOrRollback
    split
    · exact Tail.pure _
    · exact Tail.rethrow Tail.updateRootRefs fun e => ⟨_, rfl⟩

theorem writeSnapshot_tail : Tail dt A doc (writeSnapshot dt sessionId 0) := by
  refine Tail.get fun m hm => ?_
  simp only [hm]
  refine Tail.bind writeBlob_tail fun hash => ?_
  refine Tail.bind pinSnapshot_tail fun _ => ?_
  refine Tail.bind Tail.now fun timestamp => ?_
  exact Tail.bind (Tail.write fun p => ⟨_, rfl, rfl⟩) fun _ => Tail.pure _

theorem snapshotAtThreshold_tail : Tail dt A doc (snapshotAtThreshold dt sessionId 0) := by
  refine Tail.bind ?_ fun due => ?_
  · refine Tail.bind (Tail.read _) fun ref => ?_
    exact Tail.bind (Tail.read _) fun deltasSince => Tail.pure _
  · split
    · exact Tail.bind writeSnapshot_tail fun _ => Tail.pure _
    · exact Tail.pure _

end Tail

end UniDocs.Session
