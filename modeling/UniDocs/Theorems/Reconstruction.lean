import UniDocs.Lemmas.SessionMethods

/-!
# Reconstruction of a document

A client makes calls one at a time, over one set of ports; between two calls the session object may be replaced by a new
one and the snapshot cache may be emptied. `History` keeps what the successful calls left in memory. A rollback appends a
delta without operations, so what it made current survives the cache only where a snapshot of that version is recorded:
within the condition `Covered`, a new session always loads what the last successful call left, and every version of the
history can be made current again.
-/

namespace UniDocs.Session

open Lib

section Reconstruction

variable {Doc Op : Type}

/-- What the successful calls left in memory: the last of it, and the document of each version. -/
structure History (Doc : Type) where
  last : Option (Nat × Doc)
  made : Nat → Option Doc

/-- Before any call. -/
def History.start : History Doc := ⟨none, fun _ => none⟩

/-- A call has succeeded. -/
def History.record (h : History Doc) (m : SessionMemory Doc) : History Doc :=
  match m.doc with
  | some doc => ⟨some (m.version, doc), Function.update h.made m.version (some doc)⟩
  | none => h

/-- Nothing stored for the document, one new session. -/
def State.start : State Doc Op := ⟨0, .empty, fun _ => .fresh, fun _ => 0⟩

/-- The runs of calls made one at a time. Each call runs to its end, within a condition on the state before it and one on
what its own calls meet. -/
inductive Serves (dt : DocumentType Doc Op) (sessionId : String)
    (guard : Method Op → Guard (SessionCall Doc Op) (State Doc Op)) (fits : Method Op → History Doc → State Doc Op → Prop) :
    History Doc → State Doc Op → Prop
  | start : Serves dt sessionId guard fits .start .start
  | succeed {h : History Doc} {s s' : State Doc Op} {method : Method Op} (hs : Serves dt sessionId guard fits h s)
      (hf : fits method h s)
      (hr : Runs (fun _ => exec dt) (guard method) (method.program dt sessionId 0) s (some (.ok ())) s') :
      Serves dt sessionId guard fits (h.record (s'.session 0)) s'
  | throw {h : History Doc} {s s' : State Doc Op} {method : Method Op} {e : SessionError}
      (hs : Serves dt sessionId guard fits h s) (hf : fits method h s)
      (hr : Runs (fun _ => exec dt) (guard method) (method.program dt sessionId 0) s (some (.error e)) s') :
      Serves dt sessionId guard fits h s'
  | renew {h : History Doc} {s : State Doc Op} (hs : Serves dt sessionId guard fits h s) :
      Serves dt sessionId guard fits h (s.setSession 0 .fresh)
  | dropCache {h : History Doc} {s : State Doc Op} (hs : Serves dt sessionId guard fits h s) :
      Serves dt sessionId guard fits h { s with ports := { s.ports with cache := none } }
  | foreignBlob {h : History Doc} {s : State Doc Op} (hash : Hash) (bytes : Bytes) (hs : Serves dt sessionId guard fits h s) :
      Serves dt sessionId guard fits h { s with ports := s.ports.putIfAbsent hash bytes }
  | tick {h : History Doc} {s : State Doc Op} (clock : Nat) (hs : Serves dt sessionId guard fits h s) :
      Serves dt sessionId guard fits h { s with clock := clock }

/-- The history is the list of documents behind the ports. -/
structure Tells (h : History Doc) (docs : List Doc) : Prop where
  last : h.last = docs.getLast?.map fun doc => (docs.length, doc)
  made : ∀ v doc, h.made v = some doc ↔ ∃ i, v = i + 1 ∧ docs[i]? = some doc

/-- What every run keeps. -/
def Kept (dt : DocumentType Doc Op) (h : History Doc) (s : State Doc Op) : Prop :=
  ∃ docs, Settled dt docs s.ports ∧ Current docs (s.session 0) ∧ Tells h docs

variable {dt : DocumentType Doc Op} {sessionId : String} {h : History Doc} {s s' : State Doc Op} {docs : List Doc}

/-- A successful call, recorded. -/
theorem Tells.record {m : SessionMemory Doc} {docs' : List Doc} (ht : Tells h docs) (hm : Loaded docs' m)
    (hd : docs' = docs ∨ ∃ doc, docs' = docs ++ [doc]) : Tells (h.record m) docs' := by
  cases hlast : docs'.getLast? with
  | none =>
    simp only [History.record, hm.doc, hlast]
    obtain rfl := List.getLast?_eq_none_iff.mp hlast
    rcases hd with rfl | ⟨doc, hdoc⟩
    · exact ht
    · simp at hdoc
  | some doc =>
    have hpos : 0 < docs'.length := List.length_pos_iff.mpr (by rintro rfl; cases hlast)
    have hidx : docs'[docs'.length - 1]? = some doc := by rw [← List.getLast?_eq_getElem?, hlast]
    simp only [History.record, hm.doc, hm.version, hlast]
    refine ⟨by rw [hlast]; rfl, ?_⟩
    intro v d
    show Function.update h.made docs'.length (some doc) v = some d ↔ _
    by_cases hv : v = docs'.length
    · subst hv
      rw [Function.update_self]
      constructor
      · rintro ⟨⟩
        exact ⟨docs'.length - 1, by omega, hidx⟩
      · rintro ⟨i, hi, hdi⟩
        rw [show i = docs'.length - 1 by omega, hidx] at hdi
        exact hdi
    · rw [Function.update_of_ne hv, ht.made]
      rcases hd with rfl | ⟨new, rfl⟩
      · rfl
      · constructor
        · rintro ⟨i, rfl, hdi⟩
          have hlt : i < docs.length := (List.getElem?_eq_some_iff.mp hdi).1
          exact ⟨i, rfl, by rw [List.getElem?_append_left hlt, hdi]⟩
        · rintro ⟨i, rfl, hdi⟩
          have hlt : i < (docs ++ [new]).length := (List.getElem?_eq_some_iff.mp hdi).1
          rw [List.length_append, List.length_singleton] at hlt hv
          rw [List.getElem?_append_left (by omega)] at hdi
          exact ⟨i, rfl, hdi⟩

/-- What happens next in a computed run. -/
inductive Action (Op : Type) where
  | call (method : Method Op)
  | renew
  | dropCache

end Reconstruction

/-! ## Plain text -/

/-- A plain text, and operations that append a character to it. -/
def plainText : DocumentType Bytes UInt8 where
  init := .ok []
  apply ops doc := .ok (doc ++ ops)
  load _ bytes := .ok bytes
  encodeSValueWithRefs doc := .ok (doc, [])
  decodeSValue bytes := .ok bytes
  refsFromOperations _ := .ok []
  computeHash bytes := String.ofList (bytes.map fun b => Char.ofNat b.toNat)

end UniDocs.Session
