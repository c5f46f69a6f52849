import UniDocs.Agent.Transcript

/-!
# Blobs in the cache of a session

A cache holds bytes of blobs, so a message is materialized with and without it alike, as long as a read of what it holds would
succeed. Two sessions with the same history then hand over the same messages and leave the same history, whatever their caches.
-/

namespace UniDocs.Transcript

open Lib

variable {contentOf : String → Bytes}

/-! ## The cache -/

/-- The cache holds bytes of blobs under their hashes. -/
def ByteLru.Coherent (contentOf : String → Bytes) (cache : ByteLru) : Prop := ∀ e ∈ cache.entries, e.2 = contentOf e.1

theorem coherent_empty : ByteLru.empty.Coherent contentOf := fun _ he => absurd he List.not_mem_nil

theorem ByteLru.Coherent.get {cache : ByteLru} (h : cache.Coherent contentOf) (hash : String) :
    (cache.get hash).1.Coherent contentOf ∧ ∀ data, (cache.get hash).2 = some data → data = contentOf hash := by
  rw [ByteLru.get]
  cases hfind : cache.entries.find? fun e => e.1 == hash with
  | none => exact ⟨h, fun _ hdata => by cases hdata⟩
  | some hit =>
    have hmem := List.mem_of_find?_eq_some hfind
    have hkey : hit.1 = hash := by simpa using List.find?_some hfind
    refine ⟨fun e he => ?_, fun data hdata => ?_⟩
    · rcases List.mem_append.mp he with he | he
      · exact h e (List.mem_filter.mp he).1
      · rw [List.mem_singleton.mp he]
        exact h hit hmem
    · cases hdata
      rw [h hit hmem, hkey]

theorem evict_sublist (maxBytes : Nat) (hash : String) (entries : List (String × Bytes)) (bytes : Nat) :
    (ByteLru.evict maxBytes hash entries bytes).1.Sublist entries := by
  induction entries generalizing bytes with
  | nil => exact List.Sublist.refl _
  | cons e entries ih =>
    rw [ByteLru.evict]
    split
    · exact List.Sublist.refl _
    · split
      · exact (ih bytes).cons_cons e
      · exact (ih _).cons e

theorem ByteLru.Coherent.set {cache : ByteLru} (h : cache.Coherent contentOf) (hash : String) :
    (cache.set hash (contentOf hash)).Coherent contentOf := by
  intro e he
  rcases List.mem_append.mp ((evict_sublist _ _ _ _).subset he) with he | he
  · exact h e (List.mem_filter.mp he).1
  · rw [List.mem_singleton.mp he]

theorem lookUpParts_coherent (parts : List ContentPart) {cache : ByteLru} (h : cache.Coherent contentOf) :
    (lookUpParts parts cache).1.Coherent contentOf ∧
      List.Forall₂ (fun part hit => ∀ data, hit = some data → ∃ blob, part.blob? = some blob ∧ data = contentOf blob.hash) parts
        (lookUpParts parts cache).2 := by
  induction parts generalizing cache with
  | nil => exact ⟨h, .nil⟩
  | cons part parts ih =>
    rw [lookUpParts]
    cases hblob : part.blob? with
    | none =>
      obtain ⟨hcache, hhits⟩ := ih h
      exact ⟨hcache, .cons (fun _ hdata => by cases hdata) hhits⟩
    | some blob =>
      obtain ⟨hget, hhit⟩ := h.get blob.hash
      obtain ⟨hcache, hhits⟩ := ih hget
      exact ⟨hcache, .cons (fun data hdata => ⟨blob, hblob, hhit data hdata⟩) hhits⟩

/-! ## Materialized without a cache -/

/-- A part as it is read, without a cache. -/
def partResult (contentOf : String → Bytes) (read : Read) (part : ContentPart) : Except String LlmPart :=
  match part.blob?, read with
  | none, _ => .ok (withData [] part)
  | some blob, .found => .ok (withData (contentOf blob.hash) part)
  | some _, .unavailable => .ok (degrade part)
  | some _, .failed error => .error error

def partResults (contentOf : String → Bytes) (read : Nat → Read) : Nat → List ContentPart → Except String (List LlmPart)
  | _, [] => .ok []
  | j, part :: parts => do
    let head ← partResult contentOf (read j) part
    let tail ← partResults contentOf read (j + 1) parts
    pure (head :: tail)

def messageResults (contentOf : String → Bytes) (read : Nat → Nat → Read) : Nat → List Message → Except String (List LlmMessage)
  | _, [] => .ok []
  | i, m :: messages => do
    let head ← (partResults contentOf (read i) 0 m.content).map m.withContent
    let tail ← messageResults contentOf read (i + 1) messages
    pure (head :: tail)

/-- What the cache holds of a message could be read. -/
def HitsReadable (read : Nat → Read) (hits : List (Option Bytes)) : Prop := ∀ j data, hits[j]? = some (some data) → read j = .found

/-- What the cache holds of the messages could be read, from the `i`th message on. -/
def CachedReadable (contentOf : String → Bytes) (read : Nat → Nat → Read) : Nat → List Message → ByteLru → Prop
  | _, [], _ => True
  | i, m :: messages, cache =>
    HitsReadable (read i) (lookUpParts m.content cache).2 ∧
      CachedReadable contentOf read (i + 1) messages (materializeMessage contentOf (read i) m cache).1

theorem materializePart_result {read : Read} {hit : Option Bytes} {part : ContentPart} {cache : ByteLru} (h : cache.Coherent contentOf)
    (hhit : ∀ data, hit = some data → ∃ blob, part.blob? = some blob ∧ data = contentOf blob.hash)
    (hread : ∀ data, hit = some data → read = .found) :
    (materializePart contentOf read hit part cache).1.Coherent contentOf ∧
      (materializePart contentOf read hit part cache).2 = partResult contentOf read part := by
  rw [materializePart.eq_def, partResult.eq_def]
  cases hblob : part.blob? with
  | none => exact ⟨h, rfl⟩
  | some blob =>
    cases hit with
    | some data =>
      obtain ⟨blob', hblob', rfl⟩ := hhit data rfl
      rw [hblob] at hblob'
      cases hblob'
      rw [hread _ rfl]
      exact ⟨h, rfl⟩
    | none =>
      cases read with
      | found => exact ⟨h.set blob.hash, rfl⟩
      | unavailable => exact ⟨h, rfl⟩
      | failed error => exact ⟨h, rfl⟩

theorem materializeParts_result {read : Nat → Read} {j : Nat} {parts : List ContentPart} {hits : List (Option Bytes)}
    {cache : ByteLru} (h : cache.Coherent contentOf)
    (hhits : List.Forall₂ (fun part hit => ∀ data, hit = some data → ∃ blob, part.blob? = some blob ∧ data = contentOf blob.hash)
      parts hits) (hread : ∀ k data, hits[k]? = some (some data) → read (j + k) = .found) :
    (materializeParts contentOf read j (parts.zip hits) cache).1.Coherent contentOf ∧
      (materializeParts contentOf read j (parts.zip hits) cache).2 = partResults contentOf read j parts := by
  induction hhits generalizing j cache with
  | nil => exact ⟨h, rfl⟩
  | @cons part hit parts hits hhit _ ih =>
    have hfound : ∀ data, hit = some data → read j = .found := fun data hdata => hread 0 data (by rw [hdata]; rfl)
    obtain ⟨hcache, hresult⟩ := materializePart_result h hhit hfound
    obtain ⟨hrest, hresults⟩ := ih (j := j + 1) hcache fun k data hk => by
      have := hread (k + 1) data hk
      rwa [show j + 1 + k = j + (k + 1) by omega]
    refine ⟨hrest, ?_⟩
    simp only [List.zip_cons_cons, materializeParts, partResults, hresult, hresults]

theorem materializeMessage_result {read : Nat → Read} {m : Message} {cache : ByteLru} (h : cache.Coherent contentOf)
    (hread : HitsReadable read (lookUpParts m.content cache).2) :
    (materializeMessage contentOf read m cache).1.Coherent contentOf ∧
      (materializeMessage contentOf read m cache).2 = (partResults contentOf read 0 m.content).map m.withContent := by
  obtain ⟨hcache, hhits⟩ := lookUpParts_coherent m.content h
  have hfound : ∀ k data, (lookUpParts m.content cache).2[k]? = some (some data) → read (0 + k) = .found := by
    intro k data hk
    rw [Nat.zero_add]
    exact hread k data hk
  obtain ⟨hparts, hresults⟩ := materializeParts_result hcache hhits hfound
  exact ⟨hparts, by rw [materializeMessage, hresults]⟩

theorem materializeFrom_result {read : Nat → Nat → Read} {i : Nat} {messages : List Message} {cache : ByteLru}
    (h : cache.Coherent contentOf) (hread : CachedReadable contentOf read i messages cache) :
    (materializeFrom contentOf read i messages cache).1.Coherent contentOf ∧
      (materializeFrom contentOf read i messages cache).2 = messageResults contentOf read i messages := by
  induction messages generalizing i cache with
  | nil => exact ⟨h, rfl⟩
  | cons m messages ih =>
    obtain ⟨hhits, hrest⟩ := hread
    obtain ⟨hcache, hresult⟩ := materializeMessage_result h hhits
    rw [materializeFrom, messageResults, ← hresult]
    cases hm : materializeMessage contentOf (read i) m cache with
    | mk cache' result =>
      rw [hm] at hcache hrest
      cases result with
      | error e => exact ⟨hcache, rfl⟩
      | ok head =>
        obtain ⟨hfinal, hresults⟩ := ih hcache hrest
        refine ⟨hfinal, ?_⟩
        rw [← hresults]
        rfl

/-! ## Runs -/

/-- What the cache of the session holds could be read for the request. -/
def Request.CachedReadable (contentOf : String → Bytes) (r : Request) : Prop :=
  Transcript.CachedReadable contentOf r.read 0 r.history r.blobCache

section Runs

variable {tools : List (String × ToolKind)}

/-- The first request of a run. -/
theorem iterate_head (maxIterations : Nat) (turn : Nat → Turn) (left done : Nat) (called : List String) (s : Session) :
    ∃ rest, (iterate tools contentOf maxIterations turn (left + 1) done called s).1 =
      ⟨s.history, s.blobCache, (turn done).read, (materializeMessages contentOf (turn done).read s.history s.blobCache).2⟩ :: rest := by
  rw [iterate]
  split
  · exact ⟨[], rfl⟩
  · exact ⟨[], rfl⟩
  · simp only
    split
    · exact ⟨[], rfl⟩
    · split
      · exact ⟨[], rfl⟩
      · exact ⟨_, rfl⟩

theorem iterate_materialized {maxIterations : Nat} {turn : Nat → Turn} {left done : Nat} {called : List String} {s : Session}
    (hc : s.blobCache.Coherent contentOf)
    (hread : ∀ r ∈ (iterate tools contentOf maxIterations turn (left + 1) done called s).1, r.CachedReadable contentOf) :
    ∃ cache, cache.Coherent contentOf ∧ materializeMessages contentOf (turn done).read s.history s.blobCache =
      (cache, messageResults contentOf (turn done).read 0 s.history) := by
  obtain ⟨rest, hhead⟩ := @iterate_head contentOf tools maxIterations turn left done called s
  have hfirst := hread _ (hhead ▸ List.mem_cons_self)
  obtain ⟨hcoherent, hresult⟩ := materializeFrom_result hc hfirst
  exact ⟨_, hcoherent, Prod.ext rfl hresult⟩

/-- Two runs come to the same, up to what the caches hold. -/
structure SameRun (contentOf : String → Bytes) (ran ran' : List Request × Session × Outcome) : Prop where
  results : ran.1.map (·.result) = ran'.1.map (·.result)
  history : ran.2.1.history = ran'.2.1.history
  coherent : ran.2.1.blobCache.Coherent contentOf
  coherent' : ran'.2.1.blobCache.Coherent contentOf

/-- Sessions with the same history go through the same iterations. -/
theorem iterate_same {maxIterations : Nat} {turn : Nat → Turn} (left done : Nat) (called : List String) {history : List Message}
    {cache cache' : ByteLru} (hc : cache.Coherent contentOf) (hc' : cache'.Coherent contentOf)
    (hread : ∀ r ∈ (iterate tools contentOf maxIterations turn left done called ⟨history, cache⟩).1, r.CachedReadable contentOf)
    (hread' : ∀ r ∈ (iterate tools contentOf maxIterations turn left done called ⟨history, cache'⟩).1, r.CachedReadable contentOf) :
    SameRun contentOf (iterate tools contentOf maxIterations turn left done called ⟨history, cache⟩)
      (iterate tools contentOf maxIterations turn left done called ⟨history, cache'⟩) := by
  induction left generalizing done called history cache cache' with
  | zero => exact ⟨rfl, rfl, hc, hc'⟩
  | succ left ih =>
    obtain ⟨cache₁, hc₁, hm⟩ := iterate_materialized hc hread
    obtain ⟨cache₁', hc₁', hm'⟩ := iterate_materialized hc' hread'
    simp only at hm hm'
    rw [iterate] at hread hread' ⊢
    rw [iterate]
    simp only [hm, hm'] at hread hread' ⊢
    cases hresult : messageResults contentOf (turn done).read 0 history with
    | error e => exact ⟨rfl, rfl, hc₁, hc₁'⟩
    | ok messages =>
      cases hcompletion : (turn done).completion with
      | error e => exact ⟨rfl, rfl, hc₁, hc₁'⟩
      | ok completion =>
        simp only [hresult, hcompletion] at hread hread' ⊢
        split
        · exact ⟨rfl, rfl, hc₁, hc₁'⟩
        · rename_i hsome
          split
          · exact ⟨rfl, rfl, hc₁, hc₁'⟩
          · rename_i hcalls
            rw [if_neg hsome, if_neg hcalls] at hread hread'
            obtain ⟨hresults, hhistory, hcoherent, hcoherent'⟩ := ih (done + 1) _ hc₁ hc₁'
              (fun r hr => hread r (List.mem_cons_of_mem _ hr)) (fun r hr => hread' r (List.mem_cons_of_mem _ hr))
            exact ⟨by rw [List.map_cons, List.map_cons, hresults], hhistory, hcoherent, hcoherent'⟩

theorem run_same {content : List ContentPart} {maxIterations : Nat} {turn : Nat → Turn} {history : List Message}
    {cache cache' : ByteLru} (hc : cache.Coherent contentOf) (hc' : cache'.Coherent contentOf)
    (hread : ∀ r ∈ (run tools contentOf content maxIterations turn ⟨history, cache⟩).1, r.CachedReadable contentOf)
    (hread' : ∀ r ∈ (run tools contentOf content maxIterations turn ⟨history, cache'⟩).1, r.CachedReadable contentOf) :
    SameRun contentOf (run tools contentOf content maxIterations turn ⟨history, cache⟩)
      (run tools contentOf content maxIterations turn ⟨history, cache'⟩) :=
  iterate_same maxIterations 0 [] hc hc' hread hread'

end Runs

end UniDocs.Transcript
