import UniDocs.Lemmas.LogReplay

/-!
# The methods of sessions over shared ports

Each read of the ports is turned into what a session may go on to assume about the versions it has been shown, each write
into what it needs for the snapshots to stay coherent; the methods follow along their own text.
-/

/-!
## Sessions over shared ports

Any number of sessions run over one set of ports, call by call in any order. `Shared` is what all of them keep: the
snapshots are coherent with the log, and what a session holds in memory is the replay of the version it holds. A session
relies on the versions it has been shown staying as they are (`Keeps`). `coherentGuard` is the condition on the calls
under which they do.
-/

namespace UniDocs.Session

open Lib

section Shared

variable {Doc Op α β : Type}

/-- The bytes decode to every document that is stored as them. -/
def DocumentType.Decodes (dt : DocumentType Doc Op) (bytes : Bytes) : Prop :=
  ∀ doc refs, dt.encodeSValueWithRefs doc = .ok (bytes, refs) → dt.decodeSValue bytes = .ok doc

/-- The condition on the calls of all sessions:
* a batch is applied at the version the session has loaded;
* a session that found nothing to start from finds no deltas either;
* a rollback goes to what the document type gives for no operations on the head's document;
* the delta that a failed write takes off the head is in no snapshot, and no other session has been shown it;
* what is cached or stored decodes to the document it was encoded from;
* no blob is stored under the hash of other bytes. -/
def coherentGuard (dt : DocumentType Doc Op) : Guard (SessionCall Doc Op) (State Doc Op) := fun _ c _ s =>
  match c with
  | .configApply n baseVersion _ _ => baseVersion = (s.session n).version
  | .read n (.since _) => (s.session n).doc = none → s.ports.deltas = []
  | .write _ (.append d (.rollback target _)) => d.version = s.ports.head + 1 → ∀ cur doc,
      replay dt s.ports s.ports.head = some cur → replay dt s.ports target = some doc → dt.apply [] cur = .ok doc
  | .write n (.remove v) => s.ports.head = v → (∀ w bytes, s.ports.cache = some (w, bytes) → w < v) ∧
      s.ports.snapshotRefs.lookup v = none ∧ ∀ m, m ≠ n → s.shown m < v
  | .write _ (.cachePut _ bytes) => dt.Decodes bytes
  | .write _ (.putIfAbsent hash bytes) => (∀ b, s.ports.blobs.lookup hash = some b → b = bytes) ∧ dt.Decodes bytes
  | _ => True

/-- What every call keeps. -/
structure Shared (dt : DocumentType Doc Op) (s : State Doc Op) : Prop where
  coherent : Coherent dt s.ports
  shown : ∀ n, s.shown n ≤ s.ports.deltas.length
  held : ∀ n doc, (s.session n).doc = some doc →
    (s.session n).version ≤ s.shown n ∧ replay dt s.ports (s.session n).version = some doc

/-- What a session may count on while others run. -/
structure Keeps (dt : DocumentType Doc Op) (n : Nat) (s s' : State Doc Op) : Prop where
  session : s'.session n = s.session n
  shown : s'.shown n = s.shown n
  blobs : ∀ hash bytes, s.ports.blobs.lookup hash = some bytes → s'.ports.blobs.lookup hash = some bytes
  replay : ∀ v, v ≤ s.shown n → Session.replay dt s'.ports v = Session.replay dt s.ports v

/-- What a call of a session does: the others can go on, and `config.apply` is run on the replay of its base version. -/
structure Effect (dt : DocumentType Doc Op) (n : Nat) (s s' : State Doc Op) : Prop where
  others : ∀ m, m ≠ n → Keeps dt m s s'
  applied : (s'.session n).applied = (s.session n).applied ∨ (s'.session n).applied = [] ∨
    ∃ base doc, (s'.session n).applied = (s.session n).applied ++ [(base, doc)] ∧ replay dt s.ports base = some doc

/-- The obligations of one session. -/
def sharedSpec (dt : DocumentType Doc Op) (n : Nat) : Spec (SessionCall Doc Op) (State Doc Op) :=
  ⟨exec dt, coherentGuard dt, Shared dt, Keeps dt n, Effect dt n⟩

/-- A version the session has been shown, and its document. -/
def Known (dt : DocumentType Doc Op) (n v : Nat) (doc : Doc) (s : State Doc Op) : Prop :=
  v ≤ s.shown n ∧ replay dt s.ports v = some doc

variable {dt : DocumentType Doc Op} {n : Nat} {s s' s'' : State Doc Op}

theorem Keeps.refl (s : State Doc Op) : Keeps dt n s s := ⟨rfl, rfl, fun _ _ h => h, fun _ _ => rfl⟩

theorem Keeps.trans (h : Keeps dt n s s') (h' : Keeps dt n s' s'') : Keeps dt n s s'' where
  session := h'.session.trans h.session
  shown := h'.shown.trans h.shown
  blobs hash bytes hb := h'.blobs hash bytes (h.blobs hash bytes hb)
  replay v hv := (h'.replay v (h.shown ▸ hv)).trans (h.replay v hv)

/-! ## Assertions that are kept -/

/-- What others may do, and the session's own calls as well: it is shown more, and what it has been shown stays. -/
structure Advances (dt : DocumentType Doc Op) (n : Nat) (s s' : State Doc Op) : Prop where
  session : s'.session n = s.session n
  shown : s.shown n ≤ s'.shown n
  blobs : ∀ hash bytes, s.ports.blobs.lookup hash = some bytes → s'.ports.blobs.lookup hash = some bytes
  replay : ∀ v, v ≤ s.shown n → Session.replay dt s'.ports v = Session.replay dt s.ports v

/-- An assertion about what a session holds and has been shown. -/
def Framed (dt : DocumentType Doc Op) (n : Nat) (P : State Doc Op → Prop) : Prop :=
  ∀ s s', Advances dt n s s' → P s → P s'

theorem Keeps.advances (h : Keeps dt n s s') : Advances dt n s s' := ⟨h.session, h.shown.ge, h.blobs, h.replay⟩

variable {P : State Doc Op → Prop}

theorem Framed.stable (h : Framed dt n P) : Stable (sharedSpec dt n) P :=
  fun s s' _ _ hk => h s s' hk.advances

theorem Framed.and {P P' : State Doc Op → Prop} (h : Framed dt n P) (h' : Framed dt n P') :
    Framed dt n fun s => P s ∧ P' s :=
  fun s s' ha hp => ⟨h s s' ha hp.1, h' s s' ha hp.2⟩

theorem Framed.exists {γ : Type} {P : γ → State Doc Op → Prop} (h : ∀ c, Framed dt n (P c)) :
    Framed dt n fun s => ∃ c, P c s :=
  fun s s' ha ⟨c, hc⟩ => ⟨c, h c s s' ha hc⟩

theorem Framed.imp {φ : Prop} (h : Framed dt n P) : Framed dt n fun s => φ → P s :=
  fun s s' ha hp hφ => h s s' ha (hp hφ)

/-! ## Calls without an effect on the ports -/

/-- A call that leaves the ports and the other sessions alone. -/
theorem Effect.own (hs : Shared dt s) (m : SessionMemory Doc) (k : Nat) (hk : k ≤ s.ports.deltas.length)
    (hm : ∀ doc, m.doc = some doc → m.version ≤ k ∧ replay dt s.ports m.version = some doc)
    (happ : m.applied = (s.session n).applied ∨ m.applied = [] ∨
      ∃ base doc, m.applied = (s.session n).applied ++ [(base, doc)] ∧ replay dt s.ports base = some doc)
    (s' : State Doc Op) (hp : s'.ports = s.ports) (hsession : s'.session = Function.update s.session n m)
    (hshown : s'.shown = Function.update s.shown n k) : Shared dt s' ∧ Effect dt n s s' := by
  refine ⟨⟨hp ▸ hs.coherent, ?_, ?_⟩, ⟨?_, ?_⟩⟩
  · intro i
    rw [hshown, hp]
    by_cases hi : i = n
    · subst hi
      rw [Function.update_self]
      exact hk
    · rw [Function.update_of_ne hi]
      exact hs.shown i
  · intro i doc hdoc
    rw [hshown, hp]
    rw [hsession] at hdoc ⊢
    by_cases hi : i = n
    · subst hi
      rw [Function.update_self] at hdoc ⊢
      rw [Function.update_self]
      exact hm doc hdoc
    · rw [Function.update_of_ne hi] at hdoc ⊢
      rw [Function.update_of_ne hi]
      exact hs.held i doc hdoc
  · intro i hi
    exact ⟨by rw [hsession, Function.update_of_ne hi], by rw [hshown, Function.update_of_ne hi], fun _ _ hb => hp ▸ hb,
      fun _ _ => by rw [hp]⟩
  · rw [hsession, Function.update_self]
    exact happ

end Shared

end UniDocs.Session

namespace UniDocs.Session

open Lib

section Calls

variable {Doc Op : Type} {dt : DocumentType Doc Op} {n : Nat} {P : State Doc Op → Prop}

theorem Framed.all {γ : Type} {P : γ → State Doc Op → Prop} (h : ∀ c, Framed dt n (P c)) :
    Framed dt n fun s => ∀ c, P c s :=
  fun s s' ha hp c => h c s s' ha (hp c)

/-! ## Reads -/

/-- The document of a record that was found. -/
def Recorded (dt : DocumentType Doc Op) (n : Nat) (bound : Option Nat) (ref : Option (Nat × Hash)) (s : State Doc Op) : Prop :=
  ∀ v hash, ref = some (v, hash) →
    (∀ b, bound = some b → v ≤ b) ∧ ∃ doc, Stored dt s.ports hash doc ∧ Known dt n v doc s

variable {doc : Doc}

end Calls

end UniDocs.Session
