import UniDocs.Lib.Pool
import UniDocs.Lib.Table

/-!
# Storage ports of a document session

The delta log with its snapshot records, the snapshot cache, the blob store and the CAS gateway of one document, as the
port contracts state them: an append is accepted at `head() + 1` only, a removal takes effect at the head only. Each
port call is atomic, and may fail or take effect without an answer. Beside the ports stands the memory of each session
object that is running over them.
-/

namespace UniDocs.Session

open Lib

/-- The content hash of a stored blob. -/
abbrev Hash := String

/-- Serialized documents. -/
abbrev Bytes := List UInt8

/-- Reference counts by CAS hash. -/
abbrev CasReferences := List (Hash × Nat)

/-- A delta: one committed batch of operations. -/
structure Delta (Op : Type) where
  version : Nat
  timestamp : Nat
  description : String
  operations : List Op
  deriving DecidableEq, Repr

/-- A document type, with the SValue codec on its documents and operations: `encodeSValueWithRefs` gives the bytes and
the references of a document, `decodeSValue` reads the bytes back, and `computeHash` addresses them. -/
structure DocumentType (Doc Op : Type) where
  init : Except String Doc
  apply : List Op → Doc → Except String Doc
  load : Option String → Bytes → Except String Doc
  encodeSValueWithRefs : Doc → Except String (Bytes × CasReferences)
  decodeSValue : Bytes → Except String Doc
  refsFromOperations : List Op → Except String CasReferences
  computeHash : Bytes → Hash

/-- The bytes that a document is stored as decode to it. A codec need not read back all that it encodes. -/
def DocumentType.ReadsBack {Doc Op : Type} (dt : DocumentType Doc Op) (doc : Doc) : Prop :=
  ∀ bytes refs, dt.encodeSValueWithRefs doc = .ok (bytes, refs) → dt.decodeSValue bytes = .ok doc

/-- The typed errors of a session, the error of the CAS client, and any other failure with its text. -/
inductive SessionError where
  | docExists (message : String)
  | docNotFound (message : String)
  | versionConflict (currentVersion attempted : Nat)
  | deltaRejected (message : String)
  | rootRefs (message : String)
  | storageCorrupt (message : String)
  | casClient
  | failure (message : String)
  deriving DecidableEq, Repr

/-- The text of an error inside another error's message. -/
def SessionError.text : SessionError → String
  | .docExists message => message
  | .docNotFound message => message
  | .versionConflict current attempted => s!"Version conflict: head is {current}, attempted {attempted}"
  | .deltaRejected message => message
  | .rootRefs message => message
  | .storageCorrupt message => message
  | .casClient => "CAS request failed"
  | .failure message => message

/-- What the ports of one document hold. `rootRefs` lists the updates the CAS has applied, in their order. -/
structure Ports (Op : Type) where
  deltas : List (Delta Op)
  snapshotRefs : Table Nat Hash
  cache : Option (Nat × Bytes)
  blobs : Table Hash Bytes
  rootRefs : List (String × CasReferences)

namespace Ports

variable {Op : Type}

/-- Nothing stored. -/
def empty : Ports Op := ⟨[], ∅, none, ∅, []⟩

/-- `head()`: the highest version, zero without deltas. -/
def head (p : Ports Op) : Nat := p.deltas.foldl (fun m d => max m d.version) 0

/-- `since(v)`: the deltas after a version, ascending. -/
def since (p : Ports Op) (v : Nat) : List (Delta Op) := p.deltas.filter fun d => decide (v < d.version)

/-- `range(from, to)`: the deltas between two versions, both included. -/
def range (p : Ports Op) (lo hi : Nat) : List (Delta Op) :=
  p.deltas.filter fun d => decide (lo ≤ d.version) && decide (d.version ≤ hi)

/-- The snapshot record with the highest version. -/
def latest : List (Nat × Hash) → Option (Nat × Hash)
  | [] => none
  | r :: rs =>
    match latest rs with
    | some best => if best.1 > r.1 then some best else some r
    | none => some r

/-- `latestSnapshotRef(atOrBefore)`. -/
def latestSnapshotRef (p : Ports Op) (atOrBefore : Option Nat) : Option (Nat × Hash) :=
  latest (p.snapshotRefs.rows fun v _ => atOrBefore.all fun bound => decide (v ≤ bound))

/-- `append(d)`: the conditional write. -/
def append (p : Ports Op) (d : Delta Op) : Except SessionError (Ports Op) :=
  if d.version = p.head + 1 then .ok { p with deltas := p.deltas ++ [d] }
  else .error (.versionConflict p.head d.version)

/-- `remove(v)`: undo the head, and nothing else. -/
def remove (p : Ports Op) (v : Nat) : Ports Op :=
  if p.head = v then { p with deltas := p.deltas.filter fun d => d.version != v } else p

/-- `recordSnapshot(v, hash)`: the record of a version is overwritten. -/
def recordSnapshot (p : Ports Op) (v : Nat) (hash : Hash) : Ports Op :=
  { p with snapshotRefs := p.snapshotRefs.insert v hash }

/-- `putIfAbsent(hash, bytes)`. -/
def putIfAbsent (p : Ports Op) (hash : Hash) (bytes : Bytes) : Ports Op :=
  if hash ∈ p.blobs then p else { p with blobs := p.blobs.insert hash bytes }

end Ports

/-! ## Calls -/

/-- Reads of the ports. -/
inductive PortRead (Op : Type) : Type → Type where
  | head : PortRead Op Nat
  | since (v : Nat) : PortRead Op (List (Delta Op))
  | range (lo hi : Nat) : PortRead Op (List (Delta Op))
  | latestSnapshotRef (atOrBefore : Option Nat) : PortRead Op (Option (Nat × Hash))
  | countSince (v : Nat) : PortRead Op Nat
  | cacheGet : PortRead Op (Option (Nat × Bytes))
  | blobGet (hash : Hash) : PortRead Op (Option Bytes)

/-- The answer of a read. -/
def PortRead.run {Op β : Type} (r : PortRead Op β) (p : Ports Op) : β :=
  match r with
  | .head => p.head
  | .since v => p.since v
  | .range lo hi => p.range lo hi
  | .latestSnapshotRef atOrBefore => p.latestSnapshotRef atOrBefore
  | .countSince v => (p.since v).length
  | .cacheGet => p.cache
  | .blobGet hash => p.blobs.lookup hash

/-- The highest version whose content a read shows. -/
def PortRead.shows {Op β : Type} (r : PortRead Op β) (p : Ports Op) : Nat :=
  match r with
  | .since v => ((p.since v).map (·.version)).foldl max 0
  | .range lo hi => ((p.range lo hi).map (·.version)).foldl max 0
  | .latestSnapshotRef atOrBefore => ((p.latestSnapshotRef atOrBefore).map Prod.fst).getD 0
  | .cacheGet => (p.cache.map Prod.fst).getD 0
  | _ => 0

/-- Where a delta comes from: a batch of operations, or a rollback that makes an earlier document current again. -/
inductive Origin (Doc : Type) where
  | operations
  | rollback (target : Nat) (doc : Doc)

/-- Writes to the ports. `createTransaction` is the unit of work of a creation: the first delta and its snapshot
record, or neither. -/
inductive PortWrite (Doc Op : Type) where
  | append (d : Delta Op) (origin : Origin Doc)
  | remove (v : Nat)
  | recordSnapshot (v : Nat) (hash : Hash) (timestamp : Nat)
  | createTransaction (d : Delta Op) (hash : Hash)
  | cachePut (v : Nat) (bytes : Bytes)
  | putIfAbsent (hash : Hash) (bytes : Bytes)

/-- The effect of a write; an error leaves the ports as they are. -/
def PortWrite.run {Doc Op : Type} : PortWrite Doc Op → Ports Op → Except SessionError (Ports Op)
  | .append d _, p => p.append d
  | .remove v, p => .ok (p.remove v)
  | .recordSnapshot v hash _, p => .ok (p.recordSnapshot v hash)
  | .createTransaction d hash, p =>
    match p.append d with
    | .ok p' => .ok (p'.recordSnapshot d.version hash)
    | .error e => .error e
  | .cachePut v bytes, p => .ok { p with cache := some (v, bytes) }
  | .putIfAbsent hash bytes, p => .ok (p.putIfAbsent hash bytes)

/-- The highest version a session has been shown, after a write of its own: a version it adds counts, one it takes off
the log does not any more. -/
def PortWrite.shows {Doc Op : Type} (w : PortWrite Doc Op) (p : Ports Op) (shown : Nat) : Nat :=
  match w with
  | .append d _ => max shown d.version
  | .createTransaction d _ => max shown d.version
  | .remove v => if p.head = v then min shown (v - 1) else shown
  | _ => shown

/-- The fields of a session object. `applied` lists the base version and the document of each run of `config.apply`; no
program reads it. -/
structure SessionMemory (Doc : Type) where
  doc : Option Doc
  version : Nat
  loaded : Bool
  recentOps : List (String × Nat)
  applied : List (Nat × Doc)

/-- A new session object. -/
def SessionMemory.fresh {Doc : Type} : SessionMemory Doc := ⟨none, 0, false, [], []⟩

/-- The ports and the sessions over them. `shown` is the highest version whose content a running session has been shown
or has written; no program reads it. -/
structure State (Doc Op : Type) where
  clock : Nat
  ports : Ports Op
  session : Nat → SessionMemory Doc
  shown : Nat → Nat

/-- What a session awaits. `configApply` runs the document type's `apply` for a batch at a base version, `discard` ends
the life of the session object. -/
inductive SessionCall (Doc Op : Type) : Type → Type 1 where
  | now : SessionCall Doc Op Nat
  | memory {β : Type} (n : Nat) (f : SessionMemory Doc → SessionMemory Doc × β) : SessionCall Doc Op β
  | configApply (n : Nat) (baseVersion : Nat) (ops : List Op) (doc : Doc) : SessionCall Doc Op (Except String Doc)
  | read {β : Type} (n : Nat) (r : PortRead Op β) : SessionCall Doc Op (Except SessionError β)
  | write (n : Nat) (w : PortWrite Doc Op) : SessionCall Doc Op (Except SessionError Unit)
  | leaseNode (hash : Hash) : SessionCall Doc Op (Except SessionError Unit)
  | updateRootRefs (requestId : String) (changes : CasReferences) : SessionCall Doc Op (Except SessionError Unit)
  | discard (n : Nat) : SessionCall Doc Op Unit

section Exec

variable {Doc Op : Type}

/-- Replace the memory of a session. -/
def State.setSession (s : State Doc Op) (n : Nat) (m : SessionMemory Doc) : State Doc Op :=
  { s with session := Function.update s.session n m }

/-- The highest version a session has been shown. -/
def State.setShown (s : State Doc Op) (n v : Nat) : State Doc Op := { s with shown := Function.update s.shown n v }

/-- The failure of a port that did not answer. -/
def portUnavailable : SessionError := .failure "port unavailable"

/-- A write and its answer under a fault. -/
def portWrite (n : Nat) (w : PortWrite Doc Op) (f : Fault) (s : State Doc Op) : State Doc Op × Except SessionError Unit :=
  match f with
  | .failed => (s, .error portUnavailable)
  | .none =>
    match w.run s.ports with
    | .ok p => ({ s with ports := p }.setShown n (w.shows s.ports (s.shown n)), .ok ())
    | .error e => (s, .error e)
  | .lost =>
    match w.run s.ports with
    | .ok p => ({ s with ports := p }.setShown n (w.shows s.ports (s.shown n)), .error portUnavailable)
    | .error _ => (s, .error portUnavailable)

/-- The effect of a call; `none` when it cannot fail this way. -/
def exec (dt : DocumentType Doc Op) {β : Type} (c : SessionCall Doc Op β) (f : Fault) (s : State Doc Op) :
    Option (State Doc Op × β) :=
  match c with
  | .now => if f = .none then some (s, s.clock) else none
  | .memory n g => if f = .none then some (s.setSession n (g (s.session n)).1, (g (s.session n)).2) else none
  | .configApply n baseVersion ops doc =>
    if f = .none then
      some (s.setSession n { s.session n with applied := (s.session n).applied ++ [(baseVersion, doc)] }, dt.apply ops doc)
    else none
  | .read n r =>
    match f with
    | .none => some (s.setShown n (max (s.shown n) (r.shows s.ports)), .ok (r.run s.ports))
    | _ => some (s, .error portUnavailable)
  | .write n w => some (portWrite n w f s)
  | .leaseNode _ => some (s, if f = .none then .ok () else .error .casClient)
  | .updateRootRefs requestId changes =>
    match f with
    | .none => some ({ s with ports := { s.ports with rootRefs := s.ports.rootRefs ++ [(requestId, changes)] } }, .ok ())
    | .lost =>
      some ({ s with ports := { s.ports with rootRefs := s.ports.rootRefs ++ [(requestId, changes)] } }, .error .casClient)
    | .failed => some (s, .error .casClient)
  | .discard n =>
    if f = .none then
      some ((s.setSession n .fresh).setShown n 0, ())
    else none

/-- A program of a session. -/
abbrev SessionProg (Doc Op α : Type) := Prog (SessionCall Doc Op) SessionError α

end Exec

end UniDocs.Session
