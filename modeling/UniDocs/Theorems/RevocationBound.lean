import UniDocs.Auth.StackAuthority
import UniDocs.Lib.Machine

/-!
# The revocation bound of the authority cache

Whenever a record is handed to a verification, the registry returned it in a read that was in progress less than the hard stale
bound before, and a record that the registry holds no more is not handed out once the bound has passed. The age of a cached record
is computed before the read that may fail, so the first needs that the record is still young enough when the read fails, and the
second also that no read is answered later than the bound allows (`revocation_bounded_false`).
-/

namespace UniDocs.StackAuth

open Lib Lib.History

/-! ## What the trace says -/

/-- The registry returned the record in a read that was in progress at some moment later than the given one. -/
def ReturnedAfter (trace : List Entry) (issuer : String) (a : Authority) (since : Int) : Prop :=
  ∃ call startedAt endedAt moment, .returned call issuer startedAt endedAt (some a) ∈ trace ∧ startedAt ≤ moment ∧ moment ≤ endedAt
    ∧ since < moment

/-- Every record that is handed out was returned by a read that was in progress less than the bound before. -/
def HandsOutRecent (opts : Options) (trace : List Entry) : Prop :=
  ∀ pre time call issuer a post, trace = pre ++ .handed time call issuer a :: post →
    ReturnedAfter pre issuer a (time - opts.hardStaleBoundMs)

/-- A record that a write removes, disables or changes, and that no later write brings back, is not handed out once the bound has
passed since the write. -/
def ForgetsRemoved (opts : Options) (trace : List Entry) : Prop :=
  ∀ pre time registry mid time' call issuer a post,
    trace = pre ++ .written time registry :: (mid ++ .handed time' call issuer a :: post) →
    registry.resolveIssuer issuer ≠ some a →
    (∀ t registry', .written t registry' ∈ mid → registry'.resolveIssuer issuer ≠ some a) →
    time' ≤ time + opts.hardStaleBoundMs

/-! ## The invariant -/

def Entry.time : Entry → Int
  | .written time _ => time
  | .evaluated time _ _ _ => time
  | .returned _ _ _ endedAt _ => endedAt
  | .handed time _ _ _ => time

/-- The registry after the writes of a trace. -/
def registryAfter (registry : Registry) (trace : List Entry) : Registry :=
  trace.foldl (fun r e => match e with | .written _ r' => r' | _ => r) registry

/-- A read that began at a time returned the record, as the registry held it at some moment of the read. -/
def Source (trace : List Entry) (issuer : String) (a : Authority) (startedAt endedAt : Int) : Prop :=
  ∃ call time, .returned call issuer startedAt endedAt (some a) ∈ trace ∧ .evaluated time call issuer (some a) ∈ trace
    ∧ startedAt ≤ time ∧ time ≤ endedAt

/-- A record may be handed out: a read returned it lately, and it began lately if all reads are answered promptly. -/
def Recent (opts : Options) (prompt : Prop) (trace : List Entry) (time : Int) (issuer : String) (a : Authority) : Prop :=
  ∃ startedAt endedAt, Source trace issuer a startedAt endedAt ∧ time - opts.hardStaleBoundMs < endedAt
    ∧ (prompt → time - opts.hardStaleBoundMs < startedAt)

/-- What holds of each entry. -/
structure Lawful (opts : Options) (prompt : Prop) (registry : Registry) (pre : List Entry) (e : Entry) : Prop where
  ordered : ∀ e' ∈ pre, e'.time ≤ e.time
  evaluated : ∀ time call issuer record, e = .evaluated time call issuer record →
    (registryAfter registry pre).resolveIssuer issuer = record
  handed : ∀ time call issuer a, e = .handed time call issuer a → Recent opts prompt pre time issuer a

/-- What is known of a call that waits for its read. -/
structure Waiting (s : State) (call : Nat) (issuer : String) (now : Int) (cached : Option CachedAuthority)
    (evaluated : Option (Option Authority)) : Prop where
  started : now ≤ s.now
  cached : ∀ c, cached = some c → ∃ endedAt, Source s.trace issuer c.authority c.fetchedAt endedAt
  evaluated : ∀ record, evaluated = some record → ∃ time, .evaluated time call issuer record ∈ s.trace ∧ now ≤ time ∧ time ≤ s.now

/-- What the bound rests on. -/
structure Inv (opts : Options) (prompt : Prop) (registry : Registry) (s : State) : Prop where
  laws : Each (Lawful opts prompt registry) s.trace
  times : ∀ e ∈ s.trace, e.time ≤ s.now
  registry : registryAfter registry s.trace = s.registry
  cache : ∀ issuer c, s.authorityCache.lookup issuer = some c → ∃ endedAt, Source s.trace issuer c.authority c.fetchedAt endedAt
  waiting : ∀ call issuer now cached evaluated, s.calls.lookup call = some (.reading issuer now cached evaluated) →
    Waiting s call issuer now cached evaluated

theorem Source.mono {trace trace' : List Entry} {issuer : String} {a : Authority} {startedAt endedAt : Int}
    (h : Source trace issuer a startedAt endedAt) (hsub : ∀ e ∈ trace, e ∈ trace') : Source trace' issuer a startedAt endedAt := by
  obtain ⟨call, time, hreturned, hevaluated, hle⟩ := h
  exact ⟨call, time, hsub _ hreturned, hsub _ hevaluated, hle⟩

theorem registryAfter_append (registry : Registry) (trace : List Entry) (e : Entry) :
    registryAfter registry (trace ++ [e]) = match e with
      | .written _ r => r
      | _ => registryAfter registry trace := by
  rw [registryAfter, List.foldl_append]
  rfl

section Steps

variable {opts : Options} {prompt : Prop} {registry : Registry} {s : State} {call : Nat} {issuer : String}

theorem Inv.start (now : Int) (registry : Registry) : Inv opts prompt registry (.start now registry) where
  laws := each_nil
  times _ he := absurd he List.not_mem_nil
  registry := rfl
  cache _ _ hc := by simp [State.start] at hc
  waiting _ _ _ _ _ hc := by simp [State.start] at hc

theorem Inv.setCall {phase : Phase} (h : Inv opts prompt registry s)
    (hphase : ∀ issuer now cached evaluated, phase = .reading issuer now cached evaluated →
      Waiting s call issuer now cached evaluated) : Inv opts prompt registry (s.setCall call phase) where
  laws := h.laws
  times := h.times
  registry := h.registry
  cache := h.cache
  waiting call' issuer now cached evaluated hc := by
    rw [State.setCall, AList.lookup_insert_eq] at hc
    have hwaiting : Waiting s call' issuer now cached evaluated := by
      split at hc
      · rename_i heq
        subst heq
        exact hphase issuer now cached evaluated (Option.some.inj hc)
      · exact h.waiting call' issuer now cached evaluated hc
    exact ⟨hwaiting.started, hwaiting.cached, hwaiting.evaluated⟩

theorem Inv.ended {answer : Answer} (h : Inv opts prompt registry s) : Inv opts prompt registry (s.setCall call (.ended answer)) :=
  h.setCall fun _ _ _ _ hp => absurd hp (by simp)

theorem Inv.cacheSet {a : Authority} {fetchedAt endedAt : Int} (h : Inv opts prompt registry s)
    (hsource : Source s.trace issuer a fetchedAt endedAt) : Inv opts prompt registry (s.cacheSet issuer ⟨a, fetchedAt⟩) where
  laws := h.laws
  times := h.times
  registry := h.registry
  cache issuer' c hc := by
    rw [State.cacheSet, AList.lookup_insert_eq] at hc
    split at hc
    · rename_i heq
      subst heq
      cases hc
      exact ⟨endedAt, hsource⟩
    · exact h.cache issuer' c hc
  waiting call issuer now cached evaluated hc :=
    have hwaiting := h.waiting call issuer now cached evaluated hc
    ⟨hwaiting.started, hwaiting.cached, hwaiting.evaluated⟩

theorem Inv.cacheDelete (h : Inv opts prompt registry s) : Inv opts prompt registry (s.cacheDelete issuer) where
  laws := h.laws
  times := h.times
  registry := h.registry
  cache issuer' c hc := by
    rw [State.cacheDelete, AList.lookup_erase_eq] at hc
    split at hc
    · cases hc
    · exact h.cache issuer' c hc
  waiting call issuer now cached evaluated hc :=
    have hwaiting := h.waiting call issuer now cached evaluated hc
    ⟨hwaiting.started, hwaiting.cached, hwaiting.evaluated⟩

theorem Inv.append {e : Entry} {r : Registry} (h : Inv opts prompt registry s) (htime : e.time = s.now)
    (hr : registryAfter registry (s.trace ++ [e]) = r)
    (hevaluated : ∀ time call issuer record, e = .evaluated time call issuer record → s.registry.resolveIssuer issuer = record)
    (hhanded : ∀ time call issuer a, e = .handed time call issuer a → Recent opts prompt s.trace time issuer a) :
    Inv opts prompt registry { s with registry := r, trace := s.trace ++ [e] } where
  laws := by
    refine h.laws.snoc ⟨fun e' he' => htime ▸ h.times e' he', fun time call issuer record he => ?_, hhanded⟩
    rw [h.registry]
    exact hevaluated time call issuer record he
  times e' he' := by
    rcases List.mem_append.mp he' with he' | he'
    · exact h.times e' he'
    · rw [List.mem_singleton.mp he', htime]
  registry := hr
  cache issuer c hc := by
    obtain ⟨endedAt, hsource⟩ := h.cache issuer c hc
    exact ⟨endedAt, hsource.mono fun _ => List.mem_append_left _⟩
  waiting call issuer now cached evaluated hc := by
    have hwaiting := h.waiting call issuer now cached evaluated hc
    refine ⟨hwaiting.started, fun c hcached => ?_, fun record hrecord => ?_⟩
    · obtain ⟨endedAt, hsource⟩ := hwaiting.cached c hcached
      exact ⟨endedAt, hsource.mono fun _ => List.mem_append_left _⟩
    · obtain ⟨time, hm, hle⟩ := hwaiting.evaluated record hrecord
      exact ⟨time, List.mem_append_left _ hm, hle⟩

theorem Inv.keySets {keySets : List String} (h : Inv opts prompt registry s) :
    Inv opts prompt registry { s with remoteKeySets := keySets } :=
  ⟨h.laws, h.times, h.registry, h.cache, fun call issuer now cached evaluated hc =>
    have hwaiting := h.waiting call issuer now cached evaluated hc
    ⟨hwaiting.started, hwaiting.cached, hwaiting.evaluated⟩⟩

theorem Inv.onEvent {kind : EventKind} {reason : String} (h : Inv opts prompt registry s) :
    Inv opts prompt registry (s.onEvent kind issuer reason) :=
  ⟨h.laws, h.times, h.registry, h.cache, fun call issuer now cached evaluated hc =>
    have hwaiting := h.waiting call issuer now cached evaluated hc
    ⟨hwaiting.started, hwaiting.cached, hwaiting.evaluated⟩⟩

theorem Inv.handOut {a : Authority} (h : Inv opts prompt registry s) (hrecent : Recent opts prompt s.trace s.now issuer a) :
    Inv opts prompt registry (s.handOut call issuer a) := by
  have hlogged : Inv opts prompt registry
      { s.setCall call (.ended (.authority a)) with trace := s.trace ++ [.handed s.now call issuer a] } := by
    refine (h.ended ).append (e := .handed s.now call issuer a) rfl ?_ ?_ ?_
    · rw [registryAfter_append]
      exact h.registry
    · rintro _ _ _ _ ⟨⟩
    · rintro _ _ _ _ ⟨⟩
      exact hrecent
  exact hlogged.keySets

/-- A cached record that is still young may be handed out. -/
theorem recent_of_source {a : Authority} {startedAt endedAt time : Int} {trace : List Entry}
    (hsource : Source trace issuer a startedAt endedAt) (hage : time - startedAt < opts.hardStaleBoundMs) :
    Recent opts prompt trace time issuer a := by
  refine ⟨startedAt, endedAt, hsource, ?_, fun _ => by omega⟩
  obtain ⟨_, _, _, _, hstart, hend⟩ := hsource
  omega

theorem Inv.resolveAuthority (h : Inv opts prompt registry s) : Inv opts prompt registry (s.resolveAuthority opts call issuer) := by
  rw [State.resolveAuthority]
  split
  · rename_i cached hcached
    obtain ⟨endedAt, hsource⟩ := h.cache issuer cached hcached
    split
    · rename_i hage
      have := opts.ttl_below
      exact h.handOut (recent_of_source hsource (by omega))
    · refine h.setCall ?_
      rintro _ _ _ _ ⟨⟩
      refine ⟨Int.le_refl _, ?_, fun _ hr => absurd hr (by simp)⟩
      rintro c ⟨⟩
      exact ⟨endedAt, hsource⟩
  · refine h.setCall ?_
    rintro _ _ _ _ ⟨⟩
    exact ⟨Int.le_refl _, fun _ hc => absurd hc (by simp), fun _ hr => absurd hr (by simp)⟩

/-- The answer of a read that has been evaluated. -/
theorem Inv.receive {now : Int} {cached : Option CachedAuthority} {record : Option Authority} (h : Inv opts prompt registry s)
    (hwaiting : Waiting s call issuer now cached (some record)) (hprompt : prompt → s.now - now < opts.hardStaleBoundMs) :
    Inv opts prompt registry
      (State.receive { s with trace := s.trace ++ [.returned call issuer now s.now record] } call issuer now cached record) := by
  have hlogged : Inv opts prompt registry { s with trace := s.trace ++ [.returned call issuer now s.now record] } := by
    refine h.append (e := .returned call issuer now s.now record) rfl ?_ ?_ ?_
    · rw [registryAfter_append]
      exact h.registry
    · rintro _ _ _ _ ⟨⟩
    · rintro _ _ _ _ ⟨⟩
  obtain ⟨time, hevaluated, hstart, hend⟩ := hwaiting.evaluated record rfl
  have hsource : ∀ a, record = some a → Source (s.trace ++ [.returned call issuer now s.now record]) issuer a now s.now := by
    rintro a rfl
    exact ⟨call, time, by simp, List.mem_append_left _ hevaluated, hstart, hend⟩
  have hrecent : ∀ a, record = some a →
      Recent opts prompt (s.trace ++ [.returned call issuer now s.now record]) s.now issuer a := by
    intro a ha
    have := opts.ttl_below
    exact ⟨now, s.now, hsource a ha, by omega, fun hp => by have := hprompt hp; omega⟩
  rw [State.receive.eq_def]
  split
  · rename_i cached fresh
    exact (hlogged.keySets.cacheSet (hsource fresh rfl)).handOut (hrecent fresh rfl)
  · exact hlogged.cacheDelete.ended
  · rename_i a
    exact (hlogged.cacheSet (hsource a rfl)).handOut (hrecent a rfl)
  · exact hlogged.ended

/-- The failure of a read, while the cached record is still young. -/
theorem Inv.unreachable {now : Int} {cached : Option CachedAuthority} {evaluated : Option (Option Authority)}
    (h : Inv opts prompt registry s) (hwaiting : Waiting s call issuer now cached evaluated)
    (hyoung : ∀ c, cached = some c → now - c.fetchedAt < opts.hardStaleBoundMs → s.now - c.fetchedAt < opts.hardStaleBoundMs) :
    Inv opts prompt registry (s.unreachable opts call issuer now cached) := by
  rw [State.unreachable.eq_def]
  split
  · rename_i cached
    split
    · exact h.cacheDelete.onEvent.ended
    · rename_i hage
      obtain ⟨endedAt, hsource⟩ := hwaiting.cached cached rfl
      exact h.onEvent.handOut (recent_of_source hsource (hyoung cached rfl (by omega)))
  · exact h.ended

theorem Inv.step {e : Event} (h : Inv opts prompt registry s) (hfail : PromptFailure opts s e)
    (hanswer : prompt → PromptAnswer opts s e) : Inv opts prompt registry (step opts s e) := by
  cases e with
  | resolve call issuer =>
    simp only [StackAuth.step]
    split
    · exact h.resolveAuthority
    · exact h
  | evaluate call =>
    simp only [StackAuth.step]
    split
    · rename_i issuer now cached hcall
      have hwaiting := h.waiting call _ _ _ _ hcall
      have hlogged : Inv opts prompt registry
          { s with trace := s.trace ++ [.evaluated s.now call issuer (s.registry.resolveIssuer issuer)] } := by
        refine h.append (e := .evaluated s.now call issuer (s.registry.resolveIssuer issuer)) rfl ?_ ?_ ?_
        · rw [registryAfter_append]
          exact h.registry
        · rintro _ _ _ _ ⟨⟩
          rfl
        · rintro _ _ _ _ ⟨⟩
      refine hlogged.setCall ?_
      rintro _ _ _ _ ⟨⟩
      refine ⟨hwaiting.started, fun c hc => ?_, ?_⟩
      · obtain ⟨endedAt, hsource⟩ := hwaiting.cached c hc
        exact ⟨endedAt, hsource.mono fun _ => List.mem_append_left _⟩
      · rintro record ⟨⟩
        exact ⟨s.now, by simp, hwaiting.started, Int.le_refl _⟩
    · exact h
  | answer call =>
    simp only [StackAuth.step]
    split
    · rename_i issuer now cached record hcall
      refine h.receive (h.waiting call _ _ _ _ hcall) fun hp => ?_
      have := hanswer hp
      rw [PromptAnswer, hcall] at this
      simpa [Phase.answeredPromptly] using this
    · exact h
  | fail call =>
    simp only [StackAuth.step]
    split
    · rename_i issuer now cached evaluated hcall
      refine h.unreachable (h.waiting call _ _ _ _ hcall) ?_
      rintro c rfl hage
      rw [PromptFailure, hcall] at hfail
      have hyoung : (opts.hardStaleBoundMs : Int) ≤ now - c.fetchedAt ∨ s.now - c.fetchedAt < opts.hardStaleBoundMs := by
        simpa [Phase.failsPromptly] using hfail
      omega
    · exact h
  | write r =>
    exact h.append (e := .written s.now r) rfl (registryAfter_append ..) (by rintro _ _ _ _ ⟨⟩) (by rintro _ _ _ _ ⟨⟩)
  | advance ms =>
    refine ⟨h.laws, fun e he => ?_, h.registry, h.cache, fun call issuer now cached evaluated hc => ?_⟩
    · have := h.times e he
      show e.time ≤ s.now + ms
      omega
    · obtain ⟨hstarted, hcached, hevaluated⟩ := h.waiting call issuer now cached evaluated hc
      refine ⟨?_, hcached, fun record hrecord => ?_⟩
      · show now ≤ s.now + ms
        omega
      · obtain ⟨time, hm, hstart, hend⟩ := hevaluated record hrecord
        refine ⟨time, hm, hstart, ?_⟩
        show time ≤ s.now + ms
        omega

end Steps

/-! ## The laws from the invariant -/

section Laws

variable {opts : Options} {prompt : Prop} {registry : Registry} {s : State}

theorem Inv.handsOutRecent (h : Inv opts prompt registry s) : HandsOutRecent opts s.trace := by
  intro pre time call issuer a post htrace
  obtain ⟨startedAt, endedAt, ⟨call', evaluatedAt, hreturned, -, hstart, hend⟩, hlate, -⟩ :=
    (h.laws pre _ post htrace).handed time call issuer a rfl
  exact ⟨call', startedAt, endedAt, endedAt, hreturned, by omega, Int.le_refl _, hlate⟩

/-- The registry after writes none of which holds the record does not hold it either. -/
theorem registryAfter_without {issuer : String} {a : Authority} {r : Registry} {mid : List Entry}
    (hr : r.resolveIssuer issuer ≠ some a) (hmid : ∀ t r', .written t r' ∈ mid → r'.resolveIssuer issuer ≠ some a) :
    (registryAfter r mid).resolveIssuer issuer ≠ some a := by
  induction mid generalizing r with
  | nil => exact hr
  | cons e mid ih =>
    have hrest : ∀ t r', .written t r' ∈ mid → r'.resolveIssuer issuer ≠ some a :=
      fun t r' hm => hmid t r' (List.mem_cons_of_mem _ hm)
    cases e with
    | written t r' => exact ih (hmid t r' (by simp)) hrest
    | evaluated _ _ _ _ => exact ih hr hrest
    | returned _ _ _ _ _ => exact ih hr hrest
    | handed _ _ _ _ => exact ih hr hrest

theorem Inv.forgetsRemoved (h : Inv opts True registry s) : ForgetsRemoved opts s.trace := by
  intro pre time r mid time' call issuer a post htrace hgone hmid
  have hsplit : s.trace = (pre ++ .written time r :: mid) ++ .handed time' call issuer a :: post := by rw [htrace]; simp
  obtain ⟨startedAt, endedAt, ⟨call', evaluatedAt, -, hevaluated, hstart, -⟩, -, hlate⟩ :=
    (h.laws _ _ post hsplit).handed time' call issuer a rfl
  have hstarted := hlate trivial
  -- a read that returns the record was evaluated before the write
  have hbefore : .evaluated evaluatedAt call' issuer (some a) ∈ pre := by
    rcases List.mem_append.mp hevaluated with hm | hm
    · exact hm
    · rcases List.mem_cons.mp hm with hm | hm
      · cases hm
      · obtain ⟨mid₁, mid₂, rfl⟩ := List.append_of_mem hm
        have hheld := (h.laws (pre ++ .written time r :: mid₁) (.evaluated evaluatedAt call' issuer (some a))
          (mid₂ ++ .handed time' call issuer a :: post) (by rw [htrace]; simp)).evaluated _ _ _ _ rfl
        rw [registryAfter, List.foldl_append] at hheld
        exact absurd hheld (registryAfter_without (r := r) hgone fun t r' hm' => hmid t r' (List.mem_append_left _ hm'))
  have hle := (h.laws pre (.written time r) _ htrace).ordered _ hbefore
  have : evaluatedAt ≤ time := hle
  omega

end Laws

/-! ## Every run -/

/-- In every run in which a cached record is still within the bound when a read fails, every record handed out was returned by a
read in progress less than the bound before; and if no read is answered later than the bound, a record that was removed is not
handed out once the bound has passed. -/
theorem revocation_bounded {opts : Options} {now : Int} {registry : Registry} {es : List Event}
    (hfail : Machine.Guarded (step opts) (PromptFailure opts) (.start now registry) es) :
    ∀ s ∈ Machine.states (step opts) (.start now registry) es, HandsOutRecent opts s.trace ∧
      (Machine.Guarded (step opts) (PromptAnswer opts) (.start now registry) es → ForgetsRemoved opts s.trace) := by
  intro s hs
  refine ⟨?_, fun hanswer => ?_⟩
  · exact (Machine.invariant_rule (fun _ _ h hg => h.step hg (fun hf => absurd hf not_false))
      (Inv.start now registry) hfail s hs).handsOutRecent
  · exact (Machine.invariant_rule (fun _ _ h hg => h.step hg.1 (fun _ => hg.2))
      (Inv.start now registry) (hfail.and hanswer) s hs).forgetsRemoved

/-- The registry of the runs below: one active external issuer. -/
def sampleAuthority : Authority := ⟨"s1", "https://issuer", "unicas", "https://issuer/jwks", 3600⟩

def sampleRegistry : Registry := ⟨[⟨sampleAuthority, .active, .external⟩], []⟩

/-- A cached record is served past a failed read within the bound, and not after it. -/
theorem revocation_bounded_outage :
    let es := [.resolve 1 "https://issuer", .evaluate 1, .answer 1, .write ⟨[], []⟩, .advance 40000, .resolve 2 "https://issuer",
      .advance 5000, .fail 2, .advance 20000, .resolve 3 "https://issuer", .fail 3]
    let s := Machine.final (step .default) (.start 0 sampleRegistry) es
    s.calls.lookup 2 = some (.ended (.authority sampleAuthority)) ∧ s.calls.lookup 3 = some (.ended registryUnavailable) ∧
      HandsOutRecent .default s.trace ∧ ForgetsRemoved .default s.trace := by
  intro es s
  have hfail : Machine.Guarded (step .default) (PromptFailure .default) (.start 0 sampleRegistry) es := by decide
  have hanswer : Machine.Guarded (step .default) (PromptAnswer .default) (.start 0 sampleRegistry) es := by decide
  obtain ⟨hrecent, hremoved⟩ := revocation_bounded hfail s (Machine.final_mem_states _ _)
  exact ⟨by decide, by decide, hrecent, hremoved hanswer⟩

/-- A read that begins with a record younger than the bound and fails much later hands out a record that no read has returned
since, and that was removed more than the bound before. A read that is answered much later does the second as well. -/
theorem revocation_bounded_false :
    let slowFailure := [.resolve 1 "https://issuer", .evaluate 1, .answer 1, .write ⟨[], []⟩, .advance 59999,
      .resolve 2 "https://issuer", .advance 120000, .fail 2]
    let slowAnswer := [.resolve 1 "https://issuer", .evaluate 1, .write ⟨[], []⟩, .advance 120000, .answer 1]
    let s := Machine.final (step .default) (.start 0 sampleRegistry) slowFailure
    let s' := Machine.final (step .default) (.start 0 sampleRegistry) slowAnswer
    ¬ HandsOutRecent .default s.trace ∧ ¬ ForgetsRemoved .default s.trace ∧ ¬ ForgetsRemoved .default s'.trace := by
  intro slowFailure slowAnswer s s'
  have htrace : s.trace = [.evaluated 0 1 "https://issuer" (some sampleAuthority),
      .returned 1 "https://issuer" 0 0 (some sampleAuthority), .handed 0 1 "https://issuer" sampleAuthority, .written 0 ⟨[], []⟩,
      .handed 179999 2 "https://issuer" sampleAuthority] := by decide
  have htrace' : s'.trace = [.evaluated 0 1 "https://issuer" (some sampleAuthority), .written 0 ⟨[], []⟩,
      .returned 1 "https://issuer" 0 120000 (some sampleAuthority), .handed 120000 1 "https://issuer" sampleAuthority] := by
    decide
  refine ⟨fun h => ?_, fun h => ?_, fun h => ?_⟩
  · obtain ⟨call, startedAt, endedAt, moment, hm, -, hle, hlate⟩ :=
      h [_, _, _, _] 179999 2 "https://issuer" sampleAuthority [] htrace
    have hend : endedAt = 0 := by
      simp only [List.mem_cons, Entry.returned.injEq, reduceCtorEq, false_or, List.not_mem_nil, or_false] at hm
      exact hm.2.2.2.1
    have hbound : Options.default.hardStaleBoundMs = 60000 := rfl
    omega
  · have := h [_, _, _] 0 ⟨[], []⟩ [] 179999 2 "https://issuer" sampleAuthority [] htrace (by decide)
      (fun _ _ hm => absurd hm List.not_mem_nil)
    exact absurd this (by decide)
  · have := h [_] 0 ⟨[], []⟩ [_] 120000 1 "https://issuer" sampleAuthority [] htrace' (by decide)
      (fun _ _ hm => by simp at hm)
    exact absurd this (by decide)

end UniDocs.StackAuth
