import UniDocs.Lemmas.DeltaLog
import UniDocs.Lib.Serial
import UniDocs.Session.DocumentSession

/-!
# The history behind the ports

`Settled` ties what is stored to the list of documents that were current at versions `1..n`: every version is either
recorded as a snapshot or reached from the one before it by its own operations. From settled ports `load` rebuilds the
last document and `rollback` any earlier one, and each method leaves settled ports behind.
-/

/-!
## One session at a time

The rules by which a session program runs while no other session is over the ports: the storage ports answer, the CAS may
refuse anything it is sent. `Solo` speaks about the ports and the memory of the one session, and each rule takes the
first call off a program.
-/

namespace UniDocs.Session

open Lib

section Solo

variable {Doc Op α β : Type}

/-- The request identifier under which the references of a snapshot are pinned. -/
def snapshotRequestId (sessionId : String) (version : Nat) : String := s!"snapshot:{sessionId}:{version}"

/-- The storage ports answer every call. With `pins`, the CAS also answers the pin of a snapshot; with `clean`, no blob
is stored under the hash of other bytes. -/
def portsAnswer (sessionId : String) (pins clean : Bool) : Guard (SessionCall Doc Op) (State Doc Op) := fun _ c f s =>
  match c with
  | .read _ _ => f = .none
  | .write _ (.putIfAbsent hash bytes) => f = .none ∧ (clean = true → ∀ b, s.ports.blobs.lookup hash = some b → b = bytes)
  | .write _ _ => f = .none
  | .updateRootRefs requestId _ => pins = true → ∀ v, requestId = snapshotRequestId sessionId v → f = .none
  | _ => True

/-- What a program of session 0 does when it runs alone from these ports and this memory. -/
def Solo (dt : DocumentType Doc Op) (A : Guard (SessionCall Doc Op) (State Doc Op))
    (Q : Except SessionError α → Ports Op → SessionMemory Doc → Prop) (x : SessionProg Doc Op α) (p : Ports Op)
    (m : SessionMemory Doc) : Prop :=
  ∀ s : State Doc Op, s.ports = p → s.session 0 = m →
    Safe (Spec.alone (fun _ => exec dt) A fun _ => True) (fun r s' => Q r s'.ports (s'.session 0)) x s

variable {dt : DocumentType Doc Op} {A : Guard (SessionCall Doc Op) (State Doc Op)} {sessionId : String} {pins clean : Bool}
  {Q Q' : Except SessionError α → Ports Op → SessionMemory Doc → Prop}
  {R : Except SessionError β → Ports Op → SessionMemory Doc → Prop} {p : Ports Op} {m : SessionMemory Doc}

theorem Solo.runs {x : SessionProg Doc Op α} {s s' : State Doc Op} {r : Except SessionError α}
    (h : Solo dt A Q x s.ports (s.session 0)) (hr : Runs (fun _ => exec dt) A x s (some r) s') :
    Q r s'.ports (s'.session 0) :=
  ((h s rfl rfl).runs trivial hr).2 r rfl

theorem Solo.pure {a : α} (h : Q (.ok a) p m) : Solo dt A Q (Pure.pure a : SessionProg Doc Op α) p m := by
  rintro s rfl rfl _
  exact h

theorem Solo.throw {e : SessionError} (h : Q (.error e) p m) :
    Solo dt A Q (MonadExcept.throw e : SessionProg Doc Op α) p m := by
  rintro s rfl rfl _
  exact h

variable {g : β → SessionProg Doc Op α}

theorem Solo.bind {x : SessionProg Doc Op β} (h : Solo dt A R x p m)
    (hok : ∀ b p' m', R (.ok b) p' m' → Solo dt A Q (g b) p' m')
    (herr : ∀ e p' m', R (.error e) p' m' → Q (.error e) p' m') : Solo dt A Q (x >>= g) p m :=
  fun s hp hm => Safe.bind (fun b t _ hb => hok b _ _ hb t rfl rfl) (fun e _ _ he => herr e _ _ he) trivial (h s hp hm)

theorem Solo.tryCatch {T : Except SessionError α → Ports Op → SessionMemory Doc → Prop} {x : SessionProg Doc Op α}
    {g : SessionError → SessionProg Doc Op α} (h : Solo dt A T x p m)
    (hok : ∀ a p' m', T (.ok a) p' m' → Q (.ok a) p' m')
    (herr : ∀ e p' m', T (.error e) p' m' → Solo dt A Q (g e) p' m') : Solo dt A Q (x.tryCatch g) p m :=
  fun s hp hm => Safe.tryCatch (fun a _ _ ha => hok a _ _ ha) (fun e t _ he => herr e _ _ he t rfl rfl) trivial (h s hp hm)

/-! ## The calls -/

theorem Solo.memory {g : SessionMemory Doc → SessionMemory Doc × β} {k : β → SessionProg Doc Op α}
    (h : Solo dt A Q (k (g m).2) p (g m).1) : Solo dt A Q (.call (.memory 0 g) k) p m := by
  rintro s rfl rfl f s' b _ he
  simp only [Spec.alone, exec] at he
  split at he
  · cases he
    refine ⟨trivial, trivial, ?_⟩
    rintro _ rfl -
    exact h _ rfl (by simp [State.setSession])
  · cases he

theorem Solo.get {f : SessionMemory Doc → β} (h : Solo dt A Q (g (f m)) p m) :
    Solo dt A Q (get 0 f >>= g) p m :=
  Solo.memory h

theorem Solo.assign {f : SessionMemory Doc → SessionMemory Doc} {g : Unit → SessionProg Doc Op α}
    (h : Solo dt A Q (g ()) p (f m)) : Solo dt A Q (assign 0 f >>= g) p m :=
  Solo.memory h

theorem Solo.now {g : Nat → SessionProg Doc Op α} (h : ∀ t, Solo dt A Q (g t) p m) :
    Solo dt A Q (now >>= g) p m := by
  rintro s rfl rfl f s' b _ he
  simp only [Spec.alone, exec] at he
  split at he
  · cases he
    refine ⟨trivial, trivial, ?_⟩
    rintro _ rfl -
    exact h _ _ rfl rfl
  · cases he

theorem Solo.configApply {baseVersion : Nat} {ops : List Op} {doc : Doc} {g : Except String Doc → SessionProg Doc Op α}
    (h : Solo dt A Q (g (dt.apply ops doc)) p { m with applied := m.applied ++ [(baseVersion, doc)] }) :
    Solo dt A Q (Prog.perform (.configApply 0 baseVersion ops doc) >>= g) p m := by
  rintro s rfl rfl f s' b _ he
  simp only [Spec.alone, exec] at he
  split at he
  · cases he
    refine ⟨trivial, trivial, ?_⟩
    rintro _ rfl -
    exact h _ rfl (by simp [State.setSession])
  · cases he

theorem Solo.evaluate {r : Except String β} (hok : ∀ b, r = .ok b → Solo dt A Q (g b) p m)
    (herr : ∀ e, r = .error e → Q (.error (.failure e)) p m) : Solo dt A Q (evaluate r >>= g) p m := by
  cases r with
  | ok b => exact hok b rfl
  | error e => exact Solo.throw (herr e rfl)

theorem Solo.require {b : Bool} {e : SessionError} {g : Unit → SessionProg Doc Op α}
    (hok : b = true → Solo dt A Q (g ()) p m) (herr : b = false → Q (.error e) p m) :
    Solo dt A Q (Prog.require b e >>= g) p m := by
  cases b with
  | true => exact hok rfl
  | false => exact Solo.throw (herr rfl)

theorem Solo.read {r : PortRead Op β}
    (h : Solo dt (portsAnswer sessionId pins clean) Q (g (r.run p)) p m) :
    Solo dt (portsAnswer sessionId pins clean) Q (read 0 r >>= g) p m := by
  rintro s rfl rfl f s' b ha he
  obtain rfl : f = .none := ha
  simp only [Spec.alone, exec] at he
  cases he
  refine ⟨trivial, trivial, ?_⟩
  rintro _ rfl -
  exact h _ rfl rfl

theorem Solo.write {Q : Except SessionError Unit → Ports Op → SessionMemory Doc → Prop} {w : PortWrite Doc Op}
    {p' : Ports Op} (hw : w.run p = .ok p')
    (h : (∀ hash bytes, w = .putIfAbsent hash bytes → clean = true → ∀ b, p.blobs.lookup hash = some b → b = bytes) →
      Q (.ok ()) p' m) :
    Solo dt (portsAnswer sessionId pins clean) Q (write 0 w) p m := by
  rintro s rfl rfl f s' b ha he
  have hf : f = .none ∧ ∀ hash bytes, w = .putIfAbsent hash bytes → clean = true →
      ∀ b, s.ports.blobs.lookup hash = some b → b = bytes := by
    cases w with
    | putIfAbsent hash bytes =>
      refine ⟨ha.1, ?_⟩
      rintro _ _ ⟨⟩ hc
      exact ha.2 hc
    | _ => exact ⟨ha, by rintro _ _ ⟨⟩⟩
  obtain ⟨rfl, hc⟩ := hf
  simp only [Spec.alone, exec, portWrite, hw] at he
  cases he
  refine ⟨trivial, trivial, ?_⟩
  rintro _ rfl - _
  exact h hc

/-- Every CAS request may be refused. -/
theorem Solo.leaseNode {hash : Hash} {g : Unit → SessionProg Doc Op α} (hok : Solo dt A Q (g ()) p m)
    (herr : Q (.error .casClient) p m) : Solo dt A Q (Prog.attempt (.leaseNode hash) >>= g) p m := by
  rintro s rfl rfl f s' b _ he
  simp only [Spec.alone, exec] at he
  cases he
  refine ⟨trivial, trivial, ?_⟩
  rintro _ rfl -
  by_cases hf : f = .none
  · rw [if_pos hf]
    exact hok _ rfl rfl
  · rw [if_neg hf]
    exact fun _ => herr

/-- Root references are applied, refused, or applied without an answer; only the list of updates may change. -/
theorem Solo.updateRootRefs {requestId : String} {changes : CasReferences}
    {Q : Except SessionError Unit → Ports Op → SessionMemory Doc → Prop} (hok : ∀ l, Q (.ok ()) { p with rootRefs := l } m)
    (herr : (pins = true → ∀ v, requestId ≠ snapshotRequestId sessionId v) → ∀ l, Q (.error .casClient) { p with rootRefs := l } m) :
    Solo dt (portsAnswer sessionId pins clean) Q (Prog.attempt (.updateRootRefs requestId changes)) p m := by
  rintro s rfl rfl f s' b ha he
  have hpin : f ≠ .none → pins = true → ∀ v, requestId ≠ snapshotRequestId sessionId v :=
    fun hf hp v hv => hf (ha hp v hv)
  simp only [Spec.alone, exec] at he
  cases f with
  | none =>
    cases he
    refine ⟨trivial, trivial, ?_⟩
    rintro _ rfl - _
    exact hok _
  | failed =>
    cases he
    refine ⟨trivial, trivial, ?_⟩
    rintro _ rfl - _
    exact herr (hpin (by simp)) s.ports.rootRefs
  | lost =>
    cases he
    refine ⟨trivial, trivial, ?_⟩
    rintro _ rfl - _
    exact herr (hpin (by simp)) _

end Solo

end UniDocs.Session

namespace UniDocs.Session

open Lib

section History

variable {Doc Op : Type}

/-- A blob that decodes to the document. -/
def Stored (dt : DocumentType Doc Op) (p : Ports Op) (hash : Hash) (doc : Doc) : Prop :=
  ∃ bytes, p.blobs.lookup hash = some bytes ∧ dt.decodeSValue bytes = .ok doc

/-- The ports hold the documents that were current at versions `1..n`, in this order. -/
structure Settled (dt : DocumentType Doc Op) (docs : List Doc) (p : Ports Op) : Prop where
  log : p.Contiguous docs.length
  encodes : ∀ doc ∈ docs, ∃ bytes refs, dt.encodeSValueWithRefs doc = .ok (bytes, refs)
  readsBack : ∀ doc ∈ docs, dt.ReadsBack doc
  first : docs ≠ [] → ∃ hash, p.snapshotRefs.lookup 1 = some hash
  snapshots : ∀ v hash, p.snapshotRefs.lookup v = some hash → ∃ i doc, v = i + 1 ∧ docs[i]? = some doc ∧ Stored dt p hash doc
  steps : ∀ i doc doc' delta, docs[i]? = some doc → docs[i + 1]? = some doc' → p.deltas[i + 1]? = some delta →
    p.snapshotRefs.lookup (i + 2) = none → dt.apply delta.operations doc = .ok doc'
  cache : ∀ v bytes, p.cache = some (v, bytes) →
    v = docs.length ∧ ∃ doc, docs.getLast? = some doc ∧ dt.decodeSValue bytes = .ok doc

/-- A loaded session holds the last version. -/
structure Loaded (docs : List Doc) (m : SessionMemory Doc) : Prop where
  loaded : m.loaded = true
  version : m.version = docs.length
  doc : m.doc = docs.getLast?

/-- A session object between two calls: loaded, or new. -/
def Current (docs : List Doc) (m : SessionMemory Doc) : Prop :=
  Loaded docs m ∨ (m.loaded = false ∧ m.version = 0 ∧ m.doc = none)

variable {dt : DocumentType Doc Op} {docs : List Doc} {p p' : Ports Op} {m : SessionMemory Doc}

/-- Settled ports do not depend on the CAS, and the cache may be emptied. -/
theorem Settled.congr (h : Settled dt docs p) (hd : p'.deltas = p.deltas) (hs : p'.snapshotRefs = p.snapshotRefs)
    (hb : ∀ hash bytes, p.blobs.lookup hash = some bytes → p'.blobs.lookup hash = some bytes)
    (hc : p'.cache = none ∨ p'.cache = p.cache) : Settled dt docs p' where
  log := by
    have hl := h.log
    rw [Ports.Contiguous] at hl ⊢
    rw [hd, hl]
  encodes := h.encodes
  readsBack := h.readsBack
  first := by
    rw [hs]
    exact h.first
  snapshots := by
    intro v hash hv
    rw [hs] at hv
    obtain ⟨i, doc, hi, hdoc, bytes, hbytes, hdec⟩ := h.snapshots v hash hv
    exact ⟨i, doc, hi, hdoc, bytes, hb hash bytes hbytes, hdec⟩
  steps := by
    rw [hd, hs]
    exact h.steps
  cache := by
    intro v bytes hv
    rcases hc with hc | hc
    · rw [hc] at hv
      cases hv
    · exact h.cache v bytes (hc ▸ hv)

variable {bytes : Bytes}

theorem Settled.cachePut {doc : Doc} (h : Settled dt docs p) (hdoc : docs.getLast? = some doc)
    (hdec : dt.decodeSValue bytes = .ok doc) : Settled dt docs { p with cache := some (docs.length, bytes) } where
  log := h.log
  encodes := h.encodes
  readsBack := h.readsBack
  first := h.first
  snapshots := h.snapshots
  steps := h.steps
  cache := by
    rintro v bytes' ⟨⟩
    exact ⟨rfl, doc, hdoc, hdec⟩

variable {hash : Hash}

theorem Settled.recordSnapshot {i : Nat} {doc : Doc} (h : Settled dt docs p) (hdoc : docs[i]? = some doc)
    (hst : Stored dt p hash doc) : Settled dt docs (p.recordSnapshot (i + 1) hash) where
  log := h.log
  encodes := h.encodes
  readsBack := h.readsBack
  first := by
    intro hne
    obtain ⟨hash', h1⟩ := h.first hne
    simp only [Ports.recordSnapshot, AList.lookup_insert_eq]
    split
    · exact ⟨hash, rfl⟩
    · exact ⟨hash', h1⟩
  snapshots := by
    intro v hash' hv
    simp only [Ports.recordSnapshot, AList.lookup_insert_eq] at hv
    split at hv
    · rename_i hvi
      obtain rfl := Option.some.inj hv
      exact ⟨i, doc, hvi, hdoc, hst⟩
    · exact h.snapshots v hash' hv
  steps := by
    intro j d d' delta hd hd' hdelta hnone
    simp only [Ports.recordSnapshot, AList.lookup_insert_eq] at hnone
    split at hnone
    · cases hnone
    · exact h.steps j d d' delta hd hd' hdelta hnone
  cache := h.cache

theorem lookup_putIfAbsent_of_some {hash hash' : Hash} {bytes b : Bytes} (h : p.blobs.lookup hash' = some b) :
    (p.putIfAbsent hash bytes).blobs.lookup hash' = some b := by
  rw [Ports.putIfAbsent]
  split
  · exact h
  · rename_i hm
    have hne : hash' ≠ hash := by
      rintro rfl
      exact hm (AList.mem_of_lookup h)
    rw [AList.lookup_insert_ne hne]
    exact h

@[simp] theorem putIfAbsent_deltas : (p.putIfAbsent hash bytes).deltas = p.deltas := by
  rw [Ports.putIfAbsent]
  split <;> rfl

@[simp] theorem putIfAbsent_snapshotRefs :
    (p.putIfAbsent hash bytes).snapshotRefs = p.snapshotRefs := by
  rw [Ports.putIfAbsent]
  split <;> rfl

@[simp] theorem putIfAbsent_cache : (p.putIfAbsent hash bytes).cache = p.cache := by
  rw [Ports.putIfAbsent]
  split <;> rfl

theorem Settled.putIfAbsent (h : Settled dt docs p) : Settled dt docs (p.putIfAbsent hash bytes) :=
  h.congr putIfAbsent_deltas putIfAbsent_snapshotRefs (fun _ _ => lookup_putIfAbsent_of_some) (.inr putIfAbsent_cache)

theorem Settled.rootRefs (h : Settled dt docs p) (l : List (String × CasReferences)) :
    Settled dt docs { p with rootRefs := l } :=
  h.congr rfl rfl (fun _ _ hb => hb) (.inr rfl)

/-- The records, the log and the cache stay, and no blob is lost. -/
structure SameRecords (p p' : Ports Op) : Prop where
  deltas : p'.deltas = p.deltas
  snapshotRefs : p'.snapshotRefs = p.snapshotRefs
  cache : p'.cache = p.cache
  blobs : ∀ hash bytes, p.blobs.lookup hash = some bytes → p'.blobs.lookup hash = some bytes

theorem Settled.same (h : Settled dt docs p) (hs : SameRecords p p') : Settled dt docs p' :=
  h.congr hs.deltas hs.snapshotRefs hs.blobs (.inr hs.cache)

/-- One more version: its document follows from the one before it by its operations, or is recorded itself. -/
theorem Settled.snoc {cur doc : Doc} (h : Settled dt docs p) (delta : Delta Op)
    (hcur : docs.getLast? = some cur) (henc : ∃ bytes refs, dt.encodeSValueWithRefs doc = .ok (bytes, refs))
    (hread : dt.ReadsBack doc)
    (hd : p'.deltas = p.deltas ++ [delta]) (hv : delta.version = docs.length + 1)
    (hb : ∀ hash bytes, p.blobs.lookup hash = some bytes → p'.blobs.lookup hash = some bytes)
    (hc : p'.cache = some (docs.length + 1, bytes)) (hdec : dt.decodeSValue bytes = .ok doc)
    (hs : (p'.snapshotRefs = p.snapshotRefs ∧ dt.apply delta.operations cur = .ok doc) ∨
      ∃ hash, p'.snapshotRefs = p.snapshotRefs.insert (docs.length + 1) hash ∧ Stored dt p' hash doc) :
    Settled dt (docs ++ [doc]) p' where
  log := by
    have hsnoc := h.log.snoc hv
    rw [Ports.Contiguous] at hsnoc ⊢
    rw [hd, List.length_append, List.length_singleton]
    exact hsnoc
  encodes := by
    intro d hdm
    rcases List.mem_append.mp hdm with hold | hnew
    · exact h.encodes d hold
    · rw [List.mem_singleton.mp hnew]
      exact henc
  readsBack := by
    intro d hdm
    rcases List.mem_append.mp hdm with hold | hnew
    · exact h.readsBack d hold
    · rw [List.mem_singleton.mp hnew]
      exact hread
  first := by
    intro _
    have hne : docs ≠ [] := by
      rintro rfl
      cases hcur
    obtain ⟨hash, h1⟩ := h.first hne
    rcases hs with ⟨hs, -⟩ | ⟨hash', hs, -⟩
    · exact ⟨hash, by rw [hs, h1]⟩
    · rw [hs, AList.lookup_insert_eq]
      split
      · exact ⟨hash', rfl⟩
      · exact ⟨hash, h1⟩
  snapshots := by
    intro v hash hv
    have hold : p.snapshotRefs.lookup v = some hash →
        ∃ i d, v = i + 1 ∧ (docs ++ [doc])[i]? = some d ∧ Stored dt p' hash d := by
      intro hold
      obtain ⟨i, d, hi, hd, b, hbytes, hdecode⟩ := h.snapshots v hash hold
      have hlt : i < docs.length := (List.getElem?_eq_some_iff.mp hd).1
      exact ⟨i, d, hi, by rw [List.getElem?_append_left hlt, hd], b, hb hash b hbytes, hdecode⟩
    rcases hs with ⟨hs, -⟩ | ⟨hash', hs, hst⟩
    · exact hold (hs ▸ hv)
    · rw [hs, AList.lookup_insert_eq] at hv
      split at hv
      · rename_i hvn
        obtain rfl := Option.some.inj hv
        exact ⟨docs.length, doc, hvn, by simp, hst⟩
      · exact hold hv
  steps := by
    intro i d d' δ hdi hdi' hδ hnone
    have hlt : i + 1 < docs.length + 1 := by
      have hl := (List.getElem?_eq_some_iff.mp hdi').1
      simpa using hl
    rw [List.getElem?_append_left (by omega)] at hdi
    rcases Nat.lt_or_ge (i + 1) docs.length with hold | hnew
    · rw [List.getElem?_append_left hold] at hdi'
      rw [hd, List.getElem?_append_left (by rw [h.log.length]; exact hold)] at hδ
      refine h.steps i d d' δ hdi hdi' hδ ?_
      rcases hs with ⟨hs, -⟩ | ⟨hash', hs, -⟩
      · exact hs ▸ hnone
      · rw [hs, AList.lookup_insert_eq, if_neg (by omega)] at hnone
        exact hnone
    · have hi : i + 1 = docs.length := by omega
      rcases hs with ⟨hs, happ⟩ | ⟨hash', hs, -⟩
      · have hlast : docs.getLast? = some d := by
          rw [List.getLast?_eq_getElem?, ← hi, Nat.add_sub_cancel, hdi]
        have hdoc : doc = d' := by
          rw [hi] at hdi'
          simpa using hdi'
        have hdelta : delta = δ := by
          rw [hd, hi, ← h.log.length] at hδ
          simpa using hδ
        rw [hlast] at hcur
        obtain rfl := Option.some.inj hcur
        rw [← hdoc, ← hdelta]
        exact happ
      · rw [hs, AList.lookup_insert_eq, if_pos (by omega)] at hnone
        cases hnone
  cache := by
    intro v b hvb
    rw [hc] at hvb
    cases hvb
    exact ⟨by simp, doc, by simp, hdec⟩

/-! ## Replay -/

theorem replayOnto_append (l l' : List (Delta Op)) : ∀ doc, replayOnto dt (l ++ l') doc =
    match replayOnto dt l doc with
    | .ok doc' => replayOnto dt l' doc'
    | .error e => .error e := by
  induction l with
  | nil => exact fun _ => rfl
  | cons d rest ih =>
    intro doc
    simp only [List.cons_append, replayOnto]
    cases dt.apply d.operations doc with
    | ok doc' => exact ih doc'
    | error e => rfl

/-- Between two snapshot records the operations lead from one document to the next. -/
theorem Settled.replay (h : Settled dt docs p) {i : Nat} {doc : Doc} (hdoc : docs[i]? = some doc) :
    ∀ k doc', docs[i + k]? = some doc' → (∀ v, i + 1 < v → v ≤ i + k + 1 → p.snapshotRefs.lookup v = none) →
      replayOnto dt ((p.deltas.take (i + k + 1)).drop (i + 1)) doc = .ok doc' := by
  intro k
  induction k with
  | zero =>
    intro doc' hdoc' _
    have hnil : (p.deltas.take (i + 0 + 1)).drop (i + 1) = [] := by
      rw [List.drop_eq_nil_iff, List.length_take]
      omega
    rw [Nat.add_zero, hdoc] at hdoc'
    rw [hnil, replayOnto, Option.some.inj hdoc']
  | succ k ih =>
    intro doc' hdoc' hno
    have hlt : i + (k + 1) < docs.length := (List.getElem?_eq_some_iff.mp hdoc').1
    have hlen := h.log.length
    obtain ⟨mid, hmid⟩ : ∃ mid, docs[i + k]? = some mid := ⟨_, List.getElem?_eq_getElem (by omega)⟩
    obtain ⟨delta, hdelta⟩ : ∃ delta, p.deltas[i + k + 1]? = some delta := ⟨_, List.getElem?_eq_getElem (by omega)⟩
    have hprev := ih mid hmid fun v hv hv' => hno v hv (by omega)
    have hstep := h.steps (i + k) mid doc' delta hmid hdoc' hdelta (hno _ (by omega) (by omega))
    have hsplit : (p.deltas.take (i + (k + 1) + 1)).drop (i + 1) = (p.deltas.take (i + k + 1)).drop (i + 1) ++ [delta] := by
      have htake : p.deltas.take (i + (k + 1) + 1) = p.deltas.take (i + k + 1) ++ [delta] := by
        rw [show i + (k + 1) + 1 = i + k + 1 + 1 by omega, List.take_add_one, hdelta, Option.toList_some]
      rw [htake, List.drop_append_of_le_length (by rw [List.length_take]; omega)]
    rw [hsplit, replayOnto_append, hprev]
    simp only [replayOnto, hstep]

end History

end UniDocs.Session
