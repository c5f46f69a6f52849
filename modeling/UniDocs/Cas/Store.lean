import UniDocs.Lib.Table

/-!
# The tenant store

The D1 rows and R2 objects of one `(stackId, tenantId)`: node rows with their lease and reference counts, ordered edges,
upload reservations, direct upload sessions and the canonical objects. Every statement of the tenant schema binds both
identifiers, so a store is the slice of the tables under one scope. Each write of the lease and collection repositories
is a batch of statements, which takes effect as a whole or not at all.
-/

namespace UniDocs.Cas

open Lib

/-- A node hash: the lowercase hex SHA-256 of the canonical bytes. -/
abbrev Hash := String

/-- The bytes of an object or of a request body. -/
abbrev Bytes := List UInt8

/-- The single-writer scope of a tenant. -/
structure Scope where
  stackId : String
  tenantId : String
  deriving DecidableEq, Repr

/-- Metadata that the canonical header of a node carries. -/
structure ParsedNode where
  contentSize : Nat
  contentType : String
  refs : List Hash
  deriving DecidableEq, Repr

/-- The canonical node format and the digest, as the service uses them: parsing the prefix of a canonical stream whose
full length is declared, and the hex digest of bytes. -/
structure Codec where
  parseCanonicalNodeStream : Bytes → Nat → Except String ParsedNode
  sha256Hex : Bytes → Hash

/-- A row of `cas_nodes`. -/
structure NodeRow where
  contentSize : Nat
  contentType : String
  leaseStartedAt : Nat
  leaseExpiresAt : Nat
  childRefCount : Int
  rootRefCount : Int
  deriving DecidableEq, Repr

/-- A row of `cas_upload_reservations`. -/
structure UploadReservation where
  storedBytes : Int
  createdAt : Nat
  expiresAt : Nat
  deriving DecidableEq, Repr

/-- A row of `cas_direct_upload_sessions`. -/
structure DirectUploadSession where
  uploadId : String
  temporaryObjectKey : String
  storedBytes : Int
  leaseDurationMs : Nat
  createdAt : Nat
  expiresAt : Nat
  deriving DecidableEq, Repr

/-- The tables and objects of one tenant. Edges are keyed by parent and ordinal. -/
structure Tenant where
  nodes : Table Hash NodeRow
  edges : Table (Hash × Nat) Hash
  uploadReservations : Table Hash UploadReservation
  directUploadSessions : Table Hash DirectUploadSession
  objects : Table Hash Bytes

namespace Tenant

/-- A store with no rows and no objects. -/
def empty : Tenant := ⟨∅, ∅, ∅, ∅, ∅⟩

/-- The canonical object of a hash is in the bucket. -/
def stored (t : Tenant) (h : Hash) : Prop := h ∈ t.objects

instance (t : Tenant) (h : Hash) : Decidable (t.stored h) := inferInstanceAs (Decidable (h ∈ t.objects))

/-- The number of edges into a hash, duplicates counted. -/
def incoming (t : Tenant) (h : Hash) : Int := t.edges.count fun _ c => c == h

/-- The number of edges from a parent to a child. -/
def edgesBetween (t : Tenant) (p c : Hash) : Int := t.edges.count fun k c' => k.1 == p && c' == c

/-- The parent has an edge to the child. -/
def Edge (t : Tenant) (p c : Hash) : Prop := ∃ i, t.edges.lookup (p, i) = some c

end Tenant

/-! ## Statements -/

/-- One statement of a batch; `none` when a key or a check fails, which aborts the batch. -/
abbrev Statement := Tenant → Option Tenant

/-- Statements run in order, as one transaction. -/
def batch : List Statement → Statement
  | [], t => some t
  | s :: ss, t => (s t).bind (batch ss)

/-- `INSERT INTO cas_nodes`; both counts default to zero. -/
def insertNode (hash : Hash) (contentSize : Nat) (contentType : String) (leaseStartedAt leaseExpiresAt : Nat) : Statement := fun t =>
  (t.nodes.insertNew hash ⟨contentSize, contentType, leaseStartedAt, leaseExpiresAt, 0, 0⟩).map fun nodes =>
    { t with nodes }

/-- `UPDATE cas_nodes SET lease_started_at, lease_expires_at`. -/
def setLease (hash : Hash) (leaseStartedAt leaseExpiresAt : Nat) : Statement := fun t =>
  (t.nodes.update hash fun row => some { row with leaseStartedAt, leaseExpiresAt }).map fun nodes => { t with nodes }

/-- `UPDATE cas_nodes SET child_ref_count = child_ref_count + ?`, under its check. -/
def addChildRefs (hash : Hash) (delta : Int) : Statement := fun t =>
  (t.nodes.update hash fun row =>
    if 0 ≤ row.childRefCount + delta then some { row with childRefCount := row.childRefCount + delta } else none).map
    fun nodes => { t with nodes }

/-- `UPDATE cas_nodes SET root_ref_count = root_ref_count + ?`, under its check. -/
def addRootRefs (hash : Hash) (delta : Int) : Statement := fun t =>
  (t.nodes.update hash fun row =>
    if 0 ≤ row.rootRefCount + delta then some { row with rootRefCount := row.rootRefCount + delta } else none).map
    fun nodes => { t with nodes }

/-- `DELETE FROM cas_nodes WHERE hash`. -/
def deleteNode (hash : Hash) : Statement := fun t => some { t with nodes := t.nodes.erase hash }

/-- `INSERT INTO cas_edges`. -/
def insertEdge (parent : Hash) (ordinal : Nat) (child : Hash) : Statement := fun t =>
  (t.edges.insertNew (parent, ordinal) child).map fun edges => { t with edges }

/-- `DELETE FROM cas_edges WHERE parent_hash`. -/
def deleteEdges (parent : Hash) : Statement := fun t =>
  some { t with edges := t.edges.keep fun k _ => k.1 != parent }

/-- An upsert into `cas_upload_reservations`; `merge` gives the row kept from the one there and the one offered. -/
def upsertReservation (hash : Hash) (r : UploadReservation) (merge : UploadReservation → UploadReservation) : Statement := fun t =>
  if 0 < r.storedBytes then
    let row := match t.uploadReservations.lookup hash with
      | some old => merge old
      | none => r
    some { t with uploadReservations := t.uploadReservations.insert hash row }
  else none

/-- `DELETE FROM cas_upload_reservations WHERE hash`. -/
def deleteReservation (hash : Hash) : Statement := fun t =>
  some { t with uploadReservations := t.uploadReservations.erase hash }

/-- The upsert into `cas_direct_upload_sessions`, under its checks and unique columns. -/
def upsertSession (hash : Hash) (s : DirectUploadSession) : Statement := fun t =>
  let taken := t.directUploadSessions.rows fun h old =>
    h != hash && (old.uploadId == s.uploadId || old.temporaryObjectKey == s.temporaryObjectKey)
  if 0 < s.storedBytes ∧ 0 < s.leaseDurationMs ∧ taken = [] then
    some { t with directUploadSessions := t.directUploadSessions.insert hash s }
  else none

/-- `DELETE FROM cas_direct_upload_sessions WHERE hash`. -/
def deleteSession (hash : Hash) : Statement := fun t =>
  some { t with directUploadSessions := t.directUploadSessions.erase hash }

/-! ## Writes of the lease and collection repositories -/

/-- A lease interval. -/
structure NodeLeaseRecord where
  leaseStartedAt : Nat
  leaseExpiresAt : Nat
  deriving DecidableEq, Repr

/-- A child of a node to be deleted, with the number of edges to it. -/
structure NodeGcChildReference where
  hash : Hash
  count : Int
  deriving DecidableEq, Repr

/-- What a collection deletes. -/
structure NodeGcDeletion where
  hash : Hash
  contentSize : Nat
  childReferences : List NodeGcChildReference
  deriving DecidableEq, Repr

/-- The commit after an upload: a lease on the row that is there, or a new row with its edges. -/
inductive UploadedCanonicalNodeCommit where
  | existing (hash : Hash) (lease : NodeLeaseRecord)
  | new (hash : Hash) (node : ParsedNode) (lease : NodeLeaseRecord)
  deriving DecidableEq, Repr

/-- The adoption of an object that has no row. -/
structure AdoptedCanonicalNodePlan where
  hash : Hash
  node : ParsedNode
  storedBytes : Nat
  lease : NodeLeaseRecord
  reservationCreatedAt : Nat
  reservationExpiresAt : Nat
  deriving DecidableEq, Repr

/-- The statements of one edge of a new node: the edge row and the count of its child. -/
def edgeStatements (parent : Hash) : Nat → List Hash → List Statement
  | _, [] => []
  | i, c :: cs => insertEdge parent i c :: addChildRefs c 1 :: edgeStatements parent (i + 1) cs

/-- The batch that publishes a new node, after an optional first statement. -/
def commitNewNode (hash : Hash) (node : ParsedNode) (lease : NodeLeaseRecord) (first : List Statement) : Statement :=
  batch (first ++ insertNode hash node.contentSize node.contentType lease.leaseStartedAt lease.leaseExpiresAt
    :: edgeStatements hash 0 node.refs ++ [deleteReservation hash, deleteSession hash])

/-- Writes to one tenant's tables and canonical objects. -/
inductive TenantWrite where
  | renewNodeLease (hash : Hash) (lease : NodeLeaseRecord)
  | reserveCanonicalUpload (hash : Hash) (reservation : UploadReservation)
  | reserveCanonicalUploadSession (hash : Hash) (session : DirectUploadSession)
  | deleteCanonicalUploadSession (hash : Hash) (uploadId : String)
  | commitUploadedCanonicalNode (plan : UploadedCanonicalNodeCommit)
  | commitAdoptedCanonicalNode (plan : AdoptedCanonicalNodePlan)
  | commitDeletion (deletion : NodeGcDeletion)
  | deleteCanonicalContent (hash : Hash)
  | putCanonicalObject (hash : Hash) (body : Bytes)
  deriving DecidableEq, Repr

/-- Run one write; `none` when the store rejects it. -/
def TenantWrite.run (codec : Codec) : TenantWrite → Statement
  | .renewNodeLease hash lease => setLease hash lease.leaseStartedAt lease.leaseExpiresAt
  | .reserveCanonicalUpload hash r =>
    upsertReservation hash r fun old => { old with storedBytes := r.storedBytes, expiresAt := r.expiresAt }
  | .reserveCanonicalUploadSession hash s =>
    batch [upsertSession hash s,
      upsertReservation hash ⟨s.storedBytes, s.createdAt, s.expiresAt⟩ fun _ => ⟨s.storedBytes, s.createdAt, s.expiresAt⟩]
  | .deleteCanonicalUploadSession hash uploadId => fun t =>
    match t.directUploadSessions.lookup hash with
    | some s => if s.uploadId = uploadId then batch [deleteReservation hash, deleteSession hash] t else some t
    | none => some t
  | .commitUploadedCanonicalNode (.existing hash lease) =>
    batch [setLease hash lease.leaseStartedAt lease.leaseExpiresAt, deleteReservation hash, deleteSession hash]
  | .commitUploadedCanonicalNode (.new hash node lease) => commitNewNode hash node lease []
  | .commitAdoptedCanonicalNode plan =>
    commitNewNode plan.hash plan.node plan.lease
      [upsertReservation plan.hash ⟨plan.storedBytes, plan.reservationCreatedAt, plan.reservationExpiresAt⟩
        fun old => { old with storedBytes := plan.storedBytes }]
  | .commitDeletion d =>
    batch (deleteEdges d.hash :: deleteNode d.hash :: d.childReferences.map fun c => addChildRefs c.hash (-c.count))
  | .deleteCanonicalContent hash => fun t => some { t with objects := t.objects.erase hash }
  | .putCanonicalObject hash body => fun t =>
    -- the bucket checks the digest that the put declares
    if codec.sha256Hex body = hash then some { t with objects := t.objects.insert hash body } else none

end UniDocs.Cas
