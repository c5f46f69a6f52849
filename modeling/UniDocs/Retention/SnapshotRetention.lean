import UniDocs.Lib.Machine
import UniDocs.Lib.Prog
import UniDocs.Lib.Table

/-!
# Snapshot retention

The rows of `portal_versions` with their outcome columns, the CAS of each tenant, and the workers of `createSnapshotRetention`: a
worker selects one version or sweeps, then for each selected row asks UniCAS to retain the snapshot and records the outcome. Any
number of workers overlap; a worker may die between two statements, and each statement may fail or take effect without an answer.
-/

namespace UniDocs.Retention

open Lib

/-! ## UniCAS -/

/-- A blob of a tenant: whether a lease protects it, and its root references, those of snapshots apart from all others. -/
structure CasBlob where
  leased : Bool
  rootRefs : Nat
  others : Nat
  deriving DecidableEq, Repr

/-- The blobs of a tenant and the root reference requests that have been applied, with the hash that each retains. -/
structure Cas where
  blobs : Table String CasBlob
  requests : Table String String

/-- The answers to `retain`, `nodeNotFound` being the 404. -/
inductive Answer where
  | accepted
  | idempotencyConflict
  | nodeNotFound
  | unavailable
  deriving DecidableEq, Repr

/-- `retain` of one blob, as `applyRootRefsUpdate` serves it. -/
def Cas.retain (c : Cas) (requestId hash : String) : Cas × Answer :=
  match c.requests.lookup requestId with
  | some applied => (c, if applied = hash then .accepted else .idempotencyConflict)
  | none =>
    match c.blobs.lookup hash with
    | none => (c, .nodeNotFound)
    | some blob =>
      (⟨c.blobs.insert hash { blob with rootRefs := blob.rootRefs + 1 }, c.requests.insert requestId hash⟩, .accepted)

/-! ## Versions -/

/-- The primary key of `portal_versions`. -/
structure VersionKey where
  tenantId : String
  documentId : String
  versionIdx : Nat
  deriving DecidableEq, Repr

/-- The other columns of `portal_versions` that the retention reads. -/
structure VersionRow where
  snapshotBlobHash : String
  createdAt : Int
  snapshotRetainedAt : Option Int
  snapshotRetainAttemptedAt : Option Int
  snapshotLostAt : Option Int
  deriving DecidableEq, Repr

def snapshotRetainRequestId (documentId : String) (versionIdx : Nat) : String :=
  "portal-version-snapshot:" ++ documentId ++ ":" ++ toString versionIdx

def VersionKey.requestId (k : VersionKey) : String := snapshotRetainRequestId k.documentId k.versionIdx

inductive Column where
  | snapshotRetainedAt
  | snapshotRetainAttemptedAt
  | snapshotLostAt
  deriving DecidableEq, Repr

/-- The `UPDATE` of `record`. -/
def VersionRow.record (column : Column) (now : Int) (row : VersionRow) : VersionRow :=
  if row.snapshotRetainedAt.isNone then
    match column with
    | .snapshotRetainedAt => { row with snapshotRetainedAt := some now }
    | .snapshotRetainAttemptedAt => { row with snapshotRetainAttemptedAt := some now }
    | .snapshotLostAt => { row with snapshotLostAt := some now }
  else row

/-- `COALESCE(snapshot_retain_attempted_at, created_at)`. -/
def VersionRow.waitsSince (row : VersionRow) : Int := row.snapshotRetainAttemptedAt.getD row.createdAt

/-- The rows that `retainVersion` looks for. -/
def VersionRow.isOpen (row : VersionRow) : Bool := row.snapshotRetainedAt.isNone && row.snapshotLostAt.isNone

/-- `ORDER BY` of the sweep. -/
def sweepOrder (a b : VersionKey × VersionRow) : Bool :=
  ((compare a.2.waitsSince b.2.waitsSince).then <| (compare a.1.tenantId b.1.tenantId).then <|
    (compare a.1.documentId b.1.documentId).then (compare a.1.versionIdx b.1.versionIdx)).isLE

/-- The rows that the sweep looks for, in its order. -/
def dueRows (versions : Table VersionKey VersionRow) (before : Int) : List (VersionKey × VersionRow) :=
  (versions.rows fun _ row => row.isOpen && decide (row.waitsSince ≤ before)).mergeSort sweepOrder

/-! ## Workers -/

/-- A row as it was selected. -/
structure Selected where
  key : VersionKey
  hash : String
  deriving DecidableEq, Repr

/-- Where a worker is: about to retain a row, about to record an outcome, or done; with the rows left and the counts so far. -/
inductive Worker where
  | retaining (row : Selected) (rest : List Selected) (retained failed : Nat)
  | recording (row : Selected) (column : Column) (rest : List Selected) (retained failed : Nat)
  | ended (retained failed : Nat)
  deriving DecidableEq, Repr

/-- The loop over the selected rows. -/
def Worker.next (retained failed : Nat) : List Selected → Worker
  | [] => .ended retained failed
  | row :: rest => .retaining row rest retained failed

/-- What `retainRow` records after an answer. -/
def Answer.column : Answer → Column
  | .accepted => .snapshotRetainedAt
  | .nodeNotFound => .snapshotLostAt
  | .idempotencyConflict | .unavailable => .snapshotRetainAttemptedAt

structure State where
  now : Int
  versions : Table VersionKey VersionRow
  cas : Table String Cas
  workers : Table Nat Worker

def State.start (now : Int) : State := ⟨now, ∅, ∅, ∅⟩

/-- The CAS of a tenant. -/
def State.casOf (s : State) (tenantId : String) : Cas := (s.cas.lookup tenantId).getD ⟨∅, ∅⟩

/-- UniCAS has applied the reference of a version. -/
def State.applied (s : State) (k : VersionKey) : Bool := ((s.casOf k.tenantId).requests.lookup k.requestId).isSome

/-- The root references of snapshots to a blob. -/
def State.rootRefs (s : State) (tenantId hash : String) : Nat := (((s.casOf tenantId).blobs.lookup hash).map (·.rootRefs)).getD 0

def State.setWorker (s : State) (worker : Nat) (w : Worker) : State := { s with workers := s.workers.insert worker w }

def State.setCas (s : State) (tenantId : String) (c : Cas) : State := { s with cas := s.cas.insert tenantId c }

/-- A statement on a blob that is there. -/
def State.onBlob (s : State) (tenantId hash : String) (f : CasBlob → CasBlob) : State :=
  let c := s.casOf tenantId
  match c.blobs.lookup hash with
  | some blob => s.setCas tenantId { c with blobs := c.blobs.insert hash (f blob) }
  | none => s

/-- Steps of a worker, commits of versions, what else happens to the blobs of a tenant, and the passing of time. -/
inductive Event where
  | commit (key : VersionKey) (hash : String)
  | retainVersion (worker : Nat) (key : VersionKey)
  | sweep (worker limit graceSeconds : Nat)
  | retain (worker : Nat) (fault : Fault)
  | record (worker : Nat) (fault : Fault)
  | crash (worker : Nat)
  | upload (tenantId hash : String)
  | leaseEnds (tenantId hash : String)
  | refer (tenantId hash : String)
  | unrefer (tenantId hash : String)
  | collect (tenantId hash : String)
  | advance (seconds : Nat)
  deriving DecidableEq, Repr

/-- The selection of `retainVersion`. -/
def State.select (s : State) (key : VersionKey) : List Selected :=
  match s.versions.lookup key with
  | some row => if row.isOpen then [⟨key, row.snapshotBlobHash⟩] else []
  | none => []

/-- The selection of `sweep`. -/
def State.selectDue (s : State) (limit graceSeconds : Nat) : List Selected :=
  ((dueRows s.versions (s.now - graceSeconds)).take limit).map fun r => ⟨r.1, r.2.snapshotBlobHash⟩

/-- The call of UniCAS in `retainRow`. -/
def State.retainRow (s : State) (worker : Nat) (row : Selected) (rest : List Selected) (retained failed : Nat) (fault : Fault) :
    State :=
  if fault = .failed then s.setWorker worker (.recording row .snapshotRetainAttemptedAt rest retained failed)
  else
    match (s.casOf row.key.tenantId).retain row.key.requestId row.hash with
    | (c, answer) =>
      let answer := if fault = .none then answer else .unavailable
      (s.setCas row.key.tenantId c).setWorker worker (.recording row answer.column rest retained failed)

/-- The statement of `record`. -/
def State.recordColumn (s : State) (key : VersionKey) (column : Column) : State :=
  match s.versions.lookup key with
  | some row => { s with versions := s.versions.insert key (row.record column s.now) }
  | none => s

/-- One event; one that is not possible changes nothing. -/
def step (s : State) : Event → State
  | .commit key hash =>
    match s.versions.lookup key with
    | none => { s with versions := s.versions.insert key ⟨hash, s.now, none, none, none⟩ }
    | some _ => s
  | .retainVersion worker key =>
    match s.workers.lookup worker with
    | none => s.setWorker worker (.next 0 0 (s.select key))
    | some _ => s
  | .sweep worker limit graceSeconds =>
    match s.workers.lookup worker with
    | none => s.setWorker worker (.next 0 0 (s.selectDue limit graceSeconds))
    | some _ => s
  | .retain worker fault =>
    match s.workers.lookup worker with
    | some (.retaining row rest retained failed) => s.retainRow worker row rest retained failed fault
    | _ => s
  | .record worker fault =>
    match s.workers.lookup worker with
    | some (.recording row column rest retained failed) =>
      let s := if fault = .failed then s else s.recordColumn row.key column
      let kept := column = .snapshotRetainedAt
      s.setWorker worker (.next (if kept then retained + 1 else retained) (if kept then failed else failed + 1) rest)
    | _ => s
  | .crash worker =>
    match s.workers.lookup worker with
    | some (.retaining _ _ retained failed) | some (.recording _ _ _ retained failed) =>
      s.setWorker worker (.ended retained failed)
    | _ => s
  | .upload tenantId hash =>
    let c := s.casOf tenantId
    let blob := match c.blobs.lookup hash with
      | some blob => { blob with leased := true }
      | none => ⟨true, 0, 0⟩
    s.setCas tenantId { c with blobs := c.blobs.insert hash blob }
  | .leaseEnds tenantId hash => s.onBlob tenantId hash fun blob => { blob with leased := false }
  | .refer tenantId hash => s.onBlob tenantId hash fun blob => { blob with others := blob.others + 1 }
  | .unrefer tenantId hash => s.onBlob tenantId hash fun blob => { blob with others := blob.others - 1 }
  | .collect tenantId hash =>
    let c := s.casOf tenantId
    match c.blobs.lookup hash with
    | some blob =>
      if blob.leased = false ∧ blob.rootRefs = 0 ∧ blob.others = 0 then s.setCas tenantId { c with blobs := c.blobs.erase hash } else s
    | none => s
  | .advance seconds => { s with now := s.now + seconds }

/-! ## The condition -/

/-- The reference of a version is not applied once the version has been recorded as lost. -/
def State.retainsOpen (s : State) (fault : Fault) : Worker → Bool
  | .retaining row _ _ _ =>
    fault = .failed || s.applied row.key || (s.versions.lookup row.key).all (·.snapshotLostAt.isNone) ||
      ((s.casOf row.key.tenantId).blobs.lookup row.hash).isNone
  | .recording _ _ _ _ _ | .ended _ _ => true

/-- No loss is recorded of a version whose reference has been applied since the answer, unless it is recorded as retained. -/
def State.losesUnapplied (s : State) (fault : Fault) : Worker → Bool
  | .recording row .snapshotLostAt _ _ _ =>
    fault = .failed || !s.applied row.key || (s.versions.lookup row.key).all (·.snapshotRetainedAt.isSome)
  | .recording _ _ _ _ _ | .retaining _ _ _ _ | .ended _ _ => true

/-- Between the 404 of a worker for a version and its bookkeeping, and after that, no other worker has the version retained. -/
def OutcomesAgree (s : State) : Event → Prop
  | .retain worker fault => (s.workers.lookup worker).all (s.retainsOpen fault) = true
  | .record worker fault => (s.workers.lookup worker).all (s.losesUnapplied fault) = true
  | _ => True

end UniDocs.Retention
