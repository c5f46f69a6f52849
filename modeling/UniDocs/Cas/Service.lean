import UniDocs.Cas.Store
import UniDocs.Lib.Pool

/-!
# The service state and its calls

One state holds every tenant's store, the memory of every tenant's Durable Object instance, the shared ledger, the
temporary upload objects and the clock. A call is what a program awaits: a query, a write, a batch, an access to the
memory of its instance, or the mutation gate. A call to D1 or R2 may fail, or take effect and lose its answer; an access
to memory does neither.
-/

/-!
## The Root Ref ledger

The tables that record root reference updates: the domain-scoped request identities, the event log of each
`(stackId, refDomain)`, the balance projection of each domain and the revision allocator. They are shared by all
tenants. A commit is one batch over these tables and the node rows of one tenant.
-/

namespace UniDocs.Cas

open Lib

/-- Whose references an update moves: a tenant, in one ref domain. -/
structure RootRefScope where
  stackId : String
  tenantId : String
  refDomain : String
  deriving DecidableEq, Repr

/-- The tenant of a root ref scope. -/
def RootRefScope.tenant (sc : RootRefScope) : Scope := ⟨sc.stackId, sc.tenantId⟩

/-- The owner of an event log. -/
structure DomainKey where
  stackId : String
  refDomain : String
  deriving DecidableEq, Repr

/-- The event log that a root ref scope writes to. -/
def RootRefScope.domain (sc : RootRefScope) : DomainKey := ⟨sc.stackId, sc.refDomain⟩

/-- Signed changes by hash. -/
abbrev Entries := List (Hash × Int)

/-- What a list of changes adds to one hash. -/
def Entries.delta (es : Entries) (h : Hash) : Int := (es.map fun e => if e.1 = h then e.2 else 0).sum

/-- A row of `cas_root_domain_events`; `changes` is the record whose JSON text the column holds. -/
structure RootDomainEvent where
  tenantId : String
  requestId : String
  payloadHash : String
  changes : Entries
  appliedAt : Nat
  deriving DecidableEq, Repr

/-- A row of `cas_root_ref_requests`. -/
structure RootRefRequestRecord where
  payloadHash : String
  revision : Nat
  appliedAt : Nat
  deriving DecidableEq, Repr

/-- The ledger tables. -/
structure Ledger where
  requests : Table (RootRefScope × String) RootRefRequestRecord
  events : Table (DomainKey × Nat) RootDomainEvent
  refs : Table (RootRefScope × Hash) Int
  revisions : Table DomainKey Nat

namespace Ledger

/-- A ledger with no rows. -/
def empty : Ledger := ⟨∅, ∅, ∅, ∅⟩

/-- The last revision a domain has allocated. -/
def revision (l : Ledger) (d : DomainKey) : Nat := (l.revisions.lookup d).getD 0

/-- The projected balance; a missing row means zero. -/
def balance (l : Ledger) (sc : RootRefScope) (h : Hash) : Int := (l.refs.lookup (sc, h)).getD 0

/-- The sum of the recorded deltas of a tenant in a domain for a hash. -/
def recorded (l : Ledger) (sc : RootRefScope) (h : Hash) : Int :=
  l.events.total fun k e => if k.1 = sc.domain ∧ e.tenantId = sc.tenantId then e.changes.delta h else 0

/-- The sum of all domains' projections for a hash of a tenant. -/
def allDomains (l : Ledger) (sc : Scope) (h : Hash) : Int :=
  l.refs.total fun k n => if k.1.tenant = sc ∧ k.2 = h then n else 0

end Ledger

/-- The new projection of one hash; `none` deletes the zero-balance row. -/
structure RootRefProjectionChange where
  hash : Hash
  refCount : Option Int
  deriving DecidableEq, Repr

/-- A validated transition. -/
structure RootRefCommitPlan where
  scope : RootRefScope
  requestId : String
  payloadHash : String
  entries : Entries
  expectedRevision : Nat
  revision : Nat
  projections : List RootRefProjectionChange
  appliedAt : Nat
  deriving DecidableEq, Repr

/-- The revision upsert with its `WHERE`, and whether it changed a row. -/
def upsertRevision (plan : RootRefCommitPlan) (l : Ledger) : Ledger × Bool :=
  match l.revisions.lookup plan.scope.domain with
  | none => ({ l with revisions := l.revisions.insert plan.scope.domain plan.revision }, true)
  | some r =>
    if r = plan.expectedRevision then
      ({ l with revisions := l.revisions.insert plan.scope.domain plan.revision }, true)
    else (l, false)

/-- The projection statement of one hash. -/
def setProjection (sc : RootRefScope) (p : RootRefProjectionChange) (l : Ledger) : Ledger :=
  match p.refCount with
  | none => { l with refs := l.refs.erase (sc, p.hash) }
  | some n => { l with refs := l.refs.insert (sc, p.hash) n }

/-- The statements of each changed hash: its node count and its projection. -/
def commitEntries (plan : RootRefCommitPlan) : Entries → Tenant × Ledger → Option (Tenant × Ledger)
  | [], x => some x
  | (hash, delta) :: es, (t, l) =>
    match addRootRefs hash delta t, plan.projections.find? fun p => p.hash = hash with
    | some t', some p => commitEntries plan es (t', setProjection plan.scope p l)
    | _, _ => none

/-- The event and the request identity, each under its primary key. -/
def recordEvent (plan : RootRefCommitPlan) (l : Ledger) : Option Ledger :=
  match l.events.insertNew (plan.scope.domain, plan.revision)
      ⟨plan.scope.tenantId, plan.requestId, plan.payloadHash, plan.entries, plan.appliedAt⟩,
    l.requests.insertNew (plan.scope, plan.requestId) ⟨plan.payloadHash, plan.revision, plan.appliedAt⟩ with
  | some events, some requests => some { l with events, requests }
  | _, _ => none

/-- The commit batch, with the number of rows its first statement changed (one or none). -/
def commitBatch (plan : RootRefCommitPlan) (t : Tenant) (l : Ledger) : Option ((Tenant × Ledger) × Bool) :=
  match commitEntries plan plan.entries (t, (upsertRevision plan l).1) with
  | none => none
  | some (t', l') =>
    match recordEvent plan l' with
    | none => none
    | some l'' => some ((t', l''), (upsertRevision plan l).2)

end UniDocs.Cas

namespace UniDocs.Cas

open Lib

/-- Errors the operations throw: the two typed errors of the kernels with their HTTP data, a retryable root ref error,
any other error with its message, and the two failures of a store. -/
inductive CasError where
  | nodeOp (status : Nat) (code : String) (message : String)
  | rootRefsValidation (status : Nat) (code : String) (message : String)
  | rootRefsRetryable (message : String)
  | other (message : String)
  | rejected
  | unavailable
  deriving DecidableEq, Repr

/-- The message of an error; the texts of store failures are the platform's. -/
def CasError.message : CasError → String
  | .nodeOp _ _ message => message
  | .rootRefsValidation _ _ message => message
  | .rootRefsRetryable message => message
  | .other message => message
  | .rejected => "rejected by the store"
  | .unavailable => "store unavailable"

/-- How an upload ended, for the requests that joined it. -/
inductive UploadOutcome where
  | ok
  | failed (error : CasError)
  deriving DecidableEq, Repr

/-- Uploads in progress: the request that runs the upload of a hash, and the outcomes settled so far. -/
structure Uploads where
  active : Table Hash Nat
  outcomes : Table Nat UploadOutcome

/-- The memory of a tenant's instance: who holds the mutation gate, the ready cache and the uploads in progress. -/
structure Instance where
  gate : Option Nat
  readyCache : Table Hash Nat
  uploads : Uploads

/-- A freshly started instance. -/
def Instance.fresh : Instance := ⟨none, ∅, ⟨∅, ∅⟩⟩

/-- The state of the service. -/
structure State where
  clock : Nat
  tenant : Scope → Tenant
  inst : Scope → Instance
  temporaries : Table String Bytes
  ledger : Ledger

/-- Positive ready-cache lifetime. -/
def readyCacheTtlMs : Nat := 60000

/-- A cache entry that is still trusted. -/
def State.cachedReady (s : State) (sc : Scope) (h : Hash) : Bool :=
  match (s.inst sc).readyCache.lookup h with
  | some cachedUntil => s.clock ≤ cachedUntil
  | none => false

/-- Replace the store of one tenant. -/
def State.setTenant (s : State) (sc : Scope) (t : Tenant) : State :=
  { s with tenant := Function.update s.tenant sc t }

/-- Replace the memory of one instance. -/
def State.setInst (s : State) (sc : Scope) (m : Instance) : State :=
  { s with inst := Function.update s.inst sc m }

/-- What a program awaits. `query` stands for any read of one tenant's tables or objects, `queryLedger` for any read of
the ledger, `hop` for a message to or from another object, and `stall` for a wait whose end the run does not see. -/
inductive Call : Type → Type 1 where
  | now : Call Nat
  | query {β : Type} (sc : Scope) (f : Tenant → β) : Call (Except CasError β)
  | write (sc : Scope) (w : TenantWrite) : Call (Except CasError Unit)
  | publishCanonicalObject (sc : Scope) (hash : Hash) (body : Bytes) : Call (Except CasError Bool)
  | getTemporary (key : String) : Call (Except CasError (Option Bytes))
  | deleteTemporary (key : String) : Call (Except CasError Unit)
  | cachedReady (sc : Scope) (hash : Hash) : Call Bool
  | cacheReady (sc : Scope) (hashes : List Hash) : Call Unit
  | acquire (sc : Scope) (n : Nat) : Call Unit
  | release (sc : Scope) (n : Nat) : Call Unit
  | uploads {β : Type} (sc : Scope) (f : Uploads → Uploads × β) : Call β
  | completion (sc : Scope) (n : Nat) : Call UploadOutcome
  | queryLedger {β : Type} (f : Ledger → β) : Call (Except CasError β)
  | commitRootRefs (plan : RootRefCommitPlan) : Call (Except CasError Bool)
  | hop : Call (Except CasError Unit)
  | stall : Call Empty

/-- A call to a store: rejected, or unavailable, or done with or without an answer. -/
def storeCall {β : Type} (s : State) (f : Fault) (r : Option (State × β)) : State × Except CasError β :=
  match f, r with
  | .failed, _ => (s, .error .unavailable)
  | .none, some (s', b) => (s', .ok b)
  | .lost, some (s', _) => (s', .error .unavailable)
  | _, none => (s, .error .rejected)

/-- An access to memory, which neither fails nor loses its answer. -/
def memoryCall {β : Type} (f : Fault) (r : State × β) : Option (State × β) :=
  match f with
  | .none => some r
  | _ => none

/-- Record hashes as ready for the cache's lifetime. -/
def cacheUntil (until_ : Nat) : List Hash → Table Hash Nat → Table Hash Nat
  | [], c => c
  | h :: hs, c => cacheUntil until_ hs (c.insert h until_)

/-- The effect of a call; `none` when it has to wait or cannot fail this way. -/
def exec (codec : Codec) {β : Type} (c : Call β) (f : Fault) (s : State) : Option (State × β) :=
  match c with
  | .now => memoryCall f (s, s.clock)
  | .query sc g => some (storeCall s f (some (s, g (s.tenant sc))))
  | .write sc w => some (storeCall s f ((w.run codec (s.tenant sc)).map fun t => (s.setTenant sc t, ())))
  | .publishCanonicalObject sc hash body =>
    some (storeCall s f
      (if hash ∈ (s.tenant sc).objects then some (s, false)
      else ((TenantWrite.putCanonicalObject hash body).run codec (s.tenant sc)).map fun t => (s.setTenant sc t, true)))
  | .getTemporary key => some (storeCall s f (some (s, s.temporaries.lookup key)))
  | .deleteTemporary key => some (storeCall s f (some ({ s with temporaries := s.temporaries.erase key }, ())))
  | .cachedReady sc hash => memoryCall f (s, s.cachedReady sc hash)
  | .cacheReady sc hashes =>
    memoryCall f (s.setInst sc { s.inst sc with
      readyCache := cacheUntil (s.clock + readyCacheTtlMs) hashes (s.inst sc).readyCache }, ())
  | .acquire sc n =>
    match (s.inst sc).gate with
    | none => memoryCall f (s.setInst sc { s.inst sc with gate := some n }, ())
    | some _ => none
  | .release sc n =>
    memoryCall f
      (if (s.inst sc).gate = some n then s.setInst sc { s.inst sc with gate := none } else s, ())
  | .uploads sc g =>
    memoryCall f (s.setInst sc { s.inst sc with uploads := (g (s.inst sc).uploads).1 }, (g (s.inst sc).uploads).2)
  | .completion sc n =>
    match (s.inst sc).uploads.outcomes.lookup n with
    | some outcome => memoryCall f (s, outcome)
    | none => none
  | .queryLedger g => some (storeCall s f (some (s, g s.ledger)))
  | .commitRootRefs plan =>
    some (storeCall s f ((commitBatch plan (s.tenant plan.scope.tenant) s.ledger).map fun r =>
      ({ s.setTenant plan.scope.tenant r.1.1 with ledger := r.1.2 }, r.2)))
  | .hop => some (storeCall s f (some (s, ())))
  | .stall => none

/-- A program of the service. -/
abbrev Op (α : Type) := Prog Call CasError α

/-- The clock. -/
def now : Op Nat := Prog.perform .now

/-- A read of one tenant. -/
def query {β : Type} (sc : Scope) (f : Tenant → β) : Op β := Prog.attempt (.query sc f)

/-- A write to one tenant. -/
def write (sc : Scope) (w : TenantWrite) : Op Unit := Prog.attempt (.write sc w)

/-- A read of the ledger. -/
def queryLedger {β : Type} (f : Ledger → β) : Op β := Prog.attempt (.queryLedger f)

/-- An access to the uploads in progress. -/
def uploads {β : Type} (sc : Scope) (f : Uploads → Uploads × β) : Op β := Prog.perform (.uploads sc f)

end UniDocs.Cas
