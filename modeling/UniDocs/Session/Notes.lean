import UniDocs.Lib.Serial
import UniDocs.Session.DocumentSession

/-!
# Notes on the calls of a session

What a session sent to its ports and to its document type, and what the environment did to each call. The notes stand
beside the state, where no program reads them; a condition on the failures of a run is a condition on its notes.
-/

namespace UniDocs.Session

open Lib

section Notes

variable {Doc Op α : Type}

/-- One call, as far as it leaves the session object. -/
inductive Note (Doc Op : Type) where
  | own
  | computed (result : Except String Doc)
  | asked (f : Fault)
  | wrote (w : PortWrite Doc Op) (f : Fault)
  | leased (hash : Hash) (f : Fault)
  | sent (requestId : String) (changes : CasReferences) (f : Fault)

/-- The note about a call. -/
def note (dt : DocumentType Doc Op) (β : Type) (c : SessionCall Doc Op β) (f : Fault) (_ : State Doc Op) : Note Doc Op :=
  match c with
  | .configApply _ _ ops doc => .computed (dt.apply ops doc)
  | .read _ _ => .asked f
  | .write _ w => .wrote w f
  | .leaseNode hash => .leased hash f
  | .updateRootRefs requestId changes => .sent requestId changes f
  | _ => .own

namespace Note

/-- What the environment did to the call. -/
def fault : Note Doc Op → Fault
  | asked f => f
  | wrote _ f => f
  | leased _ f => f
  | sent _ _ f => f
  | _ => .none

/-- The call was an append to the delta log. -/
def appends : Note Doc Op → Bool
  | wrote (.append _ _) _ => true
  | _ => false

/-- Neither an append nor a run of `config.apply`. -/
def Quiet : Note Doc Op → Prop
  | wrote (.append _ _) _ => False
  | computed _ => False
  | _ => True

theorem Quiet.appends {n : Note Doc Op} (h : n.Quiet) : n.appends = false := by
  unfold Quiet at h
  unfold Note.appends
  split
  · exact absurd h id
  · rfl

theorem Quiet.ne_computed {n : Note Doc Op} (h : n.Quiet) (r : Except String Doc) : n ≠ computed r := by
  rintro rfl
  exact h

end Note

/-- From the append on every port call was answered, and the document that the batch led to can be encoded. -/
def Completes (dt : DocumentType Doc Op) (notes : List (Note Doc Op)) : Prop :=
  (∀ n ∈ notes.dropWhile fun n => !n.appends, n.fault = .none) ∧
    ∀ doc, Note.computed (.ok doc) ∈ (notes.takeWhile fun n => !n.appends) → ∃ bytes, dt.encodeSValue doc = .ok bytes

/-- What stands before the append does not matter. -/
theorem completes_append {dt : DocumentType Doc Op} {before notes : List (Note Doc Op)} (hquiet : ∀ n ∈ before, n.Quiet) :
    Completes dt (before ++ notes) ↔ Completes dt notes := by
  have hdrop : (before ++ notes).dropWhile (fun n => !n.appends) = notes.dropWhile fun n => !n.appends := by
    rw [List.dropWhile_append_of_pos]
    intro n hn
    simp [(hquiet n hn).appends]
  have htake : (before ++ notes).takeWhile (fun n => !n.appends) = before ++ notes.takeWhile fun n => !n.appends := by
    rw [List.takeWhile_append_of_pos]
    intro n hn
    simp [(hquiet n hn).appends]
  unfold Completes
  rw [hdrop, htake]
  refine and_congr Iff.rfl (forall_congr' fun doc => ?_)
  rw [List.mem_append]
  exact ⟨fun h hm => h (.inr hm), fun h hm => h (hm.resolve_left fun hb => (hquiet _ hb).ne_computed _ rfl)⟩

/-- A run of a session program with its notes. -/
abbrev NotedRuns (dt : DocumentType Doc Op) (A : Guard (SessionCall Doc Op) (State Doc Op)) (x : SessionProg Doc Op α)
    (s : State Doc Op × List (Note Doc Op)) (o : Option (Except SessionError α)) (s' : State Doc Op × List (Note Doc Op)) :
    Prop :=
  Runs (noted (fun _ => exec dt) (note dt)) (fun β c f y => A β c f y.1) x s o s'

/-! ## Single calls -/

variable {dt : DocumentType Doc Op} {A : Guard (SessionCall Doc Op) (State Doc Op)}
  {s s' : State Doc Op × List (Note Doc Op)}

@[simp] theorem setSession_ports (s : State Doc Op) (n : Nat) (m : SessionMemory Doc) : (s.setSession n m).ports = s.ports :=
  rfl

@[simp] theorem setSession_same (s : State Doc Op) (n : Nat) (m : SessionMemory Doc) : (s.setSession n m).session n = m := by
  simp [State.setSession]

theorem setSession_self (s : State Doc Op) (n : Nat) : s.setSession n (s.session n) = s := by
  simp [State.setSession]

@[simp] theorem setShown_ports (s : State Doc Op) (n v : Nat) : (s.setShown n v).ports = s.ports := rfl

@[simp] theorem setShown_session (s : State Doc Op) (n v : Nat) : (s.setShown n v).session = s.session := rfl

theorem memory_cases {β : Type} {n : Nat} {g : SessionMemory Doc → SessionMemory Doc × β} {r : Except SessionError β}
    (h : NotedRuns dt A (Prog.perform (.memory n g)) s (some r) s') :
    s'.1 = s.1.setSession n (g (s.1.session n)).1 ∧ r = .ok (g (s.1.session n)).2 ∧ s'.2 = s.2 ++ [.own] := by
  obtain ⟨f, b, -, he, rfl⟩ := h.perform_cases
  obtain ⟨he, hl⟩ := noted_cases he
  simp only [exec] at he
  split at he
  · simp only [Option.some.injEq, Prod.mk.injEq] at he
    exact ⟨he.1.symm, by rw [he.2], hl⟩
  · cases he

theorem get_cases {β : Type} {n : Nat} {g : SessionMemory Doc → β} {r : Except SessionError β}
    (h : NotedRuns dt A (get n g) s (some r) s') : s'.1 = s.1 ∧ r = .ok (g (s.1.session n)) ∧ s'.2 = s.2 ++ [.own] := by
  obtain ⟨h1, h2, h3⟩ := memory_cases h
  exact ⟨h1.trans (setSession_self _ _), h2, h3⟩

theorem assign_cases {n : Nat} {g : SessionMemory Doc → SessionMemory Doc} {r : Except SessionError Unit}
    (h : NotedRuns dt A (assign n g) s (some r) s') :
    s'.1 = s.1.setSession n (g (s.1.session n)) ∧ r = .ok () ∧ s'.2 = s.2 ++ [.own] :=
  memory_cases h

theorem configApply_cases {n baseVersion : Nat} {ops : List Op} {doc : Doc} {r : Except SessionError (Except String Doc)}
    (h : NotedRuns dt A (Prog.perform (.configApply n baseVersion ops doc)) s (some r) s') :
    s'.1 = s.1.setSession n { s.1.session n with applied := (s.1.session n).applied ++ [(baseVersion, doc)] } ∧
      r = .ok (dt.apply ops doc) ∧ s'.2 = s.2 ++ [.computed (dt.apply ops doc)] := by
  obtain ⟨f, b, -, he, rfl⟩ := h.perform_cases
  obtain ⟨he, hl⟩ := noted_cases he
  simp only [exec] at he
  split at he
  · simp only [Option.some.injEq, Prod.mk.injEq] at he
    exact ⟨he.1.symm, by rw [he.2], hl⟩
  · cases he

theorem now_cases {r : Except SessionError Nat} (h : NotedRuns dt A now s (some r) s') :
    s'.1 = s.1 ∧ r = .ok s.1.clock ∧ s'.2 = s.2 ++ [.own] := by
  obtain ⟨f, b, -, he, rfl⟩ := h.perform_cases
  obtain ⟨he, hl⟩ := noted_cases he
  simp only [exec] at he
  split at he
  · simp only [Option.some.injEq, Prod.mk.injEq] at he
    exact ⟨he.1.symm, by rw [he.2], hl⟩
  · cases he

/-- A read is answered, or fails with the note of it. -/
theorem read_cases {β : Type} {n : Nat} {q : PortRead Op β} {r : Except SessionError β}
    (h : NotedRuns dt A (read n q) s (some r) s') :
    s'.1.ports = s.1.ports ∧ s'.1.session = s.1.session ∧ ∃ f, A _ (.read n q) f s.1 ∧ s'.2 = s.2 ++ [.asked f] ∧
      (f = .none ∧ r = .ok (q.run s.1.ports) ∨ f ≠ .none ∧ r = .error portUnavailable) := by
  obtain ⟨f, ha, he⟩ := h.attempt_cases
  obtain ⟨he, hl⟩ := noted_cases he
  simp only [exec] at he
  cases f with
  | none =>
    simp only [Option.some.injEq, Prod.mk.injEq] at he
    rw [← he.1]
    exact ⟨rfl, rfl, .none, ha, hl, .inl ⟨rfl, he.2.symm⟩⟩
  | failed =>
    simp only [Option.some.injEq, Prod.mk.injEq] at he
    rw [← he.1]
    exact ⟨rfl, rfl, .failed, ha, hl, .inr ⟨by simp, he.2.symm⟩⟩
  | lost =>
    simp only [Option.some.injEq, Prod.mk.injEq] at he
    rw [← he.1]
    exact ⟨rfl, rfl, .lost, ha, hl, .inr ⟨by simp, he.2.symm⟩⟩

/-- A write takes effect and is answered; takes effect without an answer; or leaves the ports as they are. -/
theorem write_cases {n : Nat} {w : PortWrite Doc Op} {r : Except SessionError Unit}
    (h : NotedRuns dt A (write n w) s (some r) s') :
    s'.1.session = s.1.session ∧ ∃ f, A _ (.write n w) f s.1 ∧ s'.2 = s.2 ++ [.wrote w f] ∧
      ((∃ p, w.run s.1.ports = .ok p ∧ s'.1.ports = p ∧ (f = .none ∧ r = .ok () ∨ f = .lost ∧ r = .error portUnavailable)) ∨
        s'.1.ports = s.1.ports ∧
          ((∃ e, w.run s.1.ports = .error e ∧ f = .none ∧ r = .error e) ∨ f ≠ .none ∧ r = .error portUnavailable)) := by
  obtain ⟨f, ha, he⟩ := h.attempt_cases
  obtain ⟨he, hl⟩ := noted_cases he
  simp only [exec, Option.some.injEq] at he
  cases f with
  | none =>
    cases hw : w.run s.1.ports with
    | ok p =>
      simp only [portWrite, hw, Prod.mk.injEq] at he
      rw [← he.1]
      exact ⟨rfl, .none, ha, hl, .inl ⟨p, rfl, rfl, .inl ⟨rfl, he.2.symm⟩⟩⟩
    | error e =>
      simp only [portWrite, hw, Prod.mk.injEq] at he
      rw [← he.1]
      exact ⟨rfl, .none, ha, hl, .inr ⟨rfl, .inl ⟨e, rfl, rfl, he.2.symm⟩⟩⟩
  | failed =>
    simp only [portWrite, Prod.mk.injEq] at he
    rw [← he.1]
    exact ⟨rfl, .failed, ha, hl, .inr ⟨rfl, .inr ⟨by simp, he.2.symm⟩⟩⟩
  | lost =>
    cases hw : w.run s.1.ports with
    | ok p =>
      simp only [portWrite, hw, Prod.mk.injEq] at he
      rw [← he.1]
      exact ⟨rfl, .lost, ha, hl, .inl ⟨p, rfl, rfl, .inr ⟨rfl, he.2.symm⟩⟩⟩
    | error e =>
      simp only [portWrite, hw, Prod.mk.injEq] at he
      rw [← he.1]
      exact ⟨rfl, .lost, ha, hl, .inr ⟨rfl, .inr ⟨by simp, he.2.symm⟩⟩⟩

/-- Root references change nothing but the list of updates; a refusal shows in the note. -/
theorem updateRootRefs_cases {requestId : String} {changes : CasReferences} {r : Except SessionError Unit}
    (h : NotedRuns dt A (Prog.attempt (.updateRootRefs requestId changes)) s (some r) s') :
    s'.1.session = s.1.session ∧ (∃ l, s'.1.ports = { s.1.ports with rootRefs := l }) ∧
      ∃ f, A _ (.updateRootRefs requestId changes) f s.1 ∧ s'.2 = s.2 ++ [.sent requestId changes f] ∧
        (f = .none ∧ r = .ok () ∨ f ≠ .none ∧ r = .error .casClient) := by
  obtain ⟨f, ha, he⟩ := h.attempt_cases
  obtain ⟨he, hl⟩ := noted_cases he
  simp only [exec] at he
  cases f with
  | none =>
    simp only [Option.some.injEq, Prod.mk.injEq] at he
    rw [← he.1]
    exact ⟨rfl, ⟨_, rfl⟩, .none, ha, hl, .inl ⟨rfl, he.2.symm⟩⟩
  | failed =>
    simp only [Option.some.injEq, Prod.mk.injEq] at he
    rw [← he.1]
    exact ⟨rfl, ⟨_, rfl⟩, .failed, ha, hl, .inr ⟨by simp, he.2.symm⟩⟩
  | lost =>
    simp only [Option.some.injEq, Prod.mk.injEq] at he
    rw [← he.1]
    exact ⟨rfl, ⟨_, rfl⟩, .lost, ha, hl, .inr ⟨by simp, he.2.symm⟩⟩

theorem evaluate_cases {β : Type} {e : Except String β} {r : Except SessionError β}
    (h : NotedRuns dt A (evaluate e) s (some r) s') :
    s' = s ∧ ((∃ b, e = .ok b ∧ r = .ok b) ∨ ∃ message, e = .error message ∧ r = .error (.failure message)) := by
  cases e with
  | ok b =>
    obtain ⟨rfl, rfl⟩ := h.pure_cases
    exact ⟨rfl, .inl ⟨b, rfl, rfl⟩⟩
  | error message =>
    obtain ⟨rfl, rfl⟩ := h.throw_cases
    exact ⟨rfl, .inr ⟨message, rfl, rfl⟩⟩

end Notes

end UniDocs.Session
