import UniDocs.Lib.Machine
import UniDocs.Lib.Table

/-!
# The authority cache of the stack capability verifier

`StackCapabilityVerifier.#resolveAuthority` over the registry that `AuthorityRepository.resolveIssuer` reads. Any number of calls
overlap: a call reads the clock and the cache in one step, and when it needs the registry goes on once its read has an answer or
has failed. The registry answers with what it holds at some moment of the read.
-/

namespace UniDocs.StackAuth

open Lib

/-! ## The registry -/

/-- `ResolvedStackAuthority`. -/
structure Authority where
  stackId : String
  issuer : String
  audience : String
  jwksUri : String
  capabilityMaxLifetimeSeconds : Nat
  deriving DecidableEq, Repr

inductive IssuerStatus where
  | pending
  | active
  | stale
  | incompatible
  | disabled
  deriving DecidableEq, Repr

inductive IssuerMode where
  | external
  | managed
  deriving DecidableEq, Repr

/-- The columns of `cas_stack_oauth_issuers` and of `cas_stack_managed_issuers` that the query reads. -/
structure IssuerRow where
  authority : Authority
  status : IssuerStatus
  mode : IssuerMode
  deriving DecidableEq, Repr

/-- The two tables of issuers. -/
structure Registry where
  oauthIssuers : List IssuerRow
  managedIssuers : List IssuerRow
  deriving DecidableEq, Repr

def Registry.resolveIssuer (r : Registry) (issuer : String) : Option Authority :=
  let external := r.oauthIssuers.filter fun row => row.authority.issuer == issuer && row.status == .active && row.mode == .external
  let managed := r.managedIssuers.filter fun row => row.authority.issuer == issuer && row.status == .active
  (external ++ managed).head?.map (·.authority)

/-! ## The verifier -/

/-- The bounds of `StackVerifierOptions`, as the constructor of the verifier checks them. -/
structure Options where
  cacheTtlMs : Nat
  hardStaleBoundMs : Nat
  ttl_below : cacheTtlMs < hardStaleBoundMs

/-- `DEFAULT_CACHE_TTL_MS` and `DEFAULT_HARD_STALE_BOUND_MS`. -/
def Options.default : Options := ⟨30000, 60000, by decide⟩

structure CachedAuthority where
  authority : Authority
  fetchedAt : Int
  deriving DecidableEq, Repr

/-- What `#resolveAuthority` comes to. -/
inductive Answer where
  | authority (authority : Authority)
  | null
  | authenticationError (code message : String)
  deriving DecidableEq, Repr

def unknownIssuer : Answer := .authenticationError "unknown_issuer" "CAS capability issuer is not registered"

def registryUnavailable : Answer := .authenticationError "registry_unavailable" "CAS authority registry is unavailable"

inductive EventKind where
  | registryStale
  | failClosed
  deriving DecidableEq, Repr

/-- The fields of `StackAuthEvent` that `#resolveAuthority` fills. -/
structure AuthEvent where
  kind : EventKind
  issuer : String
  reason : String
  deriving DecidableEq, Repr

/-- Where a call is: it waits for its read, which may have been evaluated, or has ended. -/
inductive Phase where
  | reading (issuer : String) (now : Int) (cached : Option CachedAuthority) (evaluated : Option (Option Authority))
  | ended (answer : Answer)
  deriving DecidableEq, Repr

/-- What has happened: the registry was written, a read of it was evaluated, a read returned, a record was handed out. -/
inductive Entry where
  | written (time : Int) (registry : Registry)
  | evaluated (time : Int) (call : Nat) (issuer : String) (record : Option Authority)
  | returned (call : Nat) (issuer : String) (startedAt endedAt : Int) (record : Option Authority)
  | handed (time : Int) (call : Nat) (issuer : String) (authority : Authority)
  deriving DecidableEq, Repr

/-- The clock, the registry, and one verifier with its calls. -/
structure State where
  now : Int
  registry : Registry
  authorityCache : Table String CachedAuthority
  remoteKeySets : List String
  calls : Table Nat Phase
  events : List AuthEvent
  trace : List Entry

def State.start (now : Int) (registry : Registry) : State := ⟨now, registry, ∅, [], ∅, [], []⟩

/-- A step of a call, a write of the registry, or the passing of time. -/
inductive Event where
  | resolve (call : Nat) (issuer : String)
  | evaluate (call : Nat)
  | answer (call : Nat)
  | fail (call : Nat)
  | write (registry : Registry)
  | advance (ms : Nat)
  deriving DecidableEq, Repr

def State.setCall (s : State) (call : Nat) (phase : Phase) : State := { s with calls := s.calls.insert call phase }

def State.cacheSet (s : State) (issuer : String) (entry : CachedAuthority) : State :=
  { s with authorityCache := s.authorityCache.insert issuer entry }

def State.cacheDelete (s : State) (issuer : String) : State := { s with authorityCache := s.authorityCache.erase issuer }

def State.onEvent (s : State) (kind : EventKind) (issuer reason : String) : State :=
  { s with events := s.events ++ [⟨kind, issuer, reason⟩] }

/-- The record reaches the verification, which takes the key set of its `jwksUri`. -/
def State.handOut (s : State) (call : Nat) (issuer : String) (authority : Authority) : State :=
  let keySets := if authority.jwksUri ∈ s.remoteKeySets then s.remoteKeySets else s.remoteKeySets ++ [authority.jwksUri]
  { s.setCall call (.ended (.authority authority)) with
    remoteKeySets := keySets, trace := s.trace ++ [.handed s.now call issuer authority] }

/-- `#resolveAuthority` up to its read of the registry. -/
def State.resolveAuthority (opts : Options) (s : State) (call : Nat) (issuer : String) : State :=
  match s.authorityCache.lookup issuer with
  | some cached =>
    if s.now - cached.fetchedAt < opts.cacheTtlMs then s.handOut call issuer cached.authority
    else s.setCall call (.reading issuer s.now (some cached) none)
  | none => s.setCall call (.reading issuer s.now none none)

/-- `#resolveAuthority` from the answer of its read on; with a cached record the two branches do the same here. -/
def State.receive (s : State) (call : Nat) (issuer : String) (now : Int) (cached : Option CachedAuthority)
    (record : Option Authority) : State :=
  match cached, record with
  | some cached, some fresh =>
    let s := { s with remoteKeySets := s.remoteKeySets.erase cached.authority.jwksUri }
    (s.cacheSet issuer ⟨fresh, now⟩).handOut call issuer fresh
  | some _, none => (s.cacheDelete issuer).setCall call (.ended unknownIssuer)
  | none, some authority => (s.cacheSet issuer ⟨authority, now⟩).handOut call issuer authority
  | none, none => s.setCall call (.ended .null)

/-- `#resolveAuthority` from the failure of its read on. -/
def State.unreachable (opts : Options) (s : State) (call : Nat) (issuer : String) (now : Int) (cached : Option CachedAuthority) :
    State :=
  match cached with
  | some cached =>
    if now - cached.fetchedAt ≥ opts.hardStaleBoundMs then
      let s := (s.cacheDelete issuer).onEvent .failClosed issuer "authority registry unreachable past the hard stale bound"
      s.setCall call (.ended registryUnavailable)
    else
      let s := s.onEvent .registryStale issuer "authority registry unreachable; serving cached record within the stale bound"
      s.handOut call issuer cached.authority
  | none => s.setCall call (.ended .null)

/-- One event; one that is not possible changes nothing. -/
def step (opts : Options) (s : State) : Event → State
  | .resolve call issuer =>
    match s.calls.lookup call with
    | none => s.resolveAuthority opts call issuer
    | some _ => s
  | .evaluate call =>
    match s.calls.lookup call with
    | some (.reading issuer now cached none) =>
      let record := s.registry.resolveIssuer issuer
      { s.setCall call (.reading issuer now cached (some record)) with trace := s.trace ++ [.evaluated s.now call issuer record] }
    | _ => s
  | .answer call =>
    match s.calls.lookup call with
    | some (.reading issuer now cached (some record)) =>
      State.receive { s with trace := s.trace ++ [.returned call issuer now s.now record] } call issuer now cached record
    | _ => s
  | .fail call =>
    match s.calls.lookup call with
    | some (.reading issuer now cached _) => s.unreachable opts call issuer now cached
    | _ => s
  | .write registry => { s with registry := registry, trace := s.trace ++ [.written s.now registry] }
  | .advance ms => { s with now := s.now + ms }

/-! ## Conditions -/

/-- The cached record of the call was not younger than the hard stale bound at the start of the read, or still is. -/
def Phase.failsPromptly (opts : Options) (time : Int) : Phase → Bool
  | .reading _ now (some cached) _ =>
    decide (now - cached.fetchedAt ≥ opts.hardStaleBoundMs) || decide (time - cached.fetchedAt < opts.hardStaleBoundMs)
  | .reading _ _ none _ | .ended _ => true

/-- The read of the call has taken less than the hard stale bound. -/
def Phase.answeredPromptly (opts : Options) (time : Int) : Phase → Bool
  | .reading _ now _ _ => decide (time - now < opts.hardStaleBoundMs)
  | .ended _ => true

/-- When a read fails, a cached record that was younger than the hard stale bound at the start of the read still is. -/
def PromptFailure (opts : Options) (s : State) : Event → Prop
  | .fail call => (s.calls.lookup call).all (Phase.failsPromptly opts s.now) = true
  | _ => True

/-- Every read that is answered is answered within the hard stale bound. -/
def PromptAnswer (opts : Options) (s : State) : Event → Prop
  | .answer call => (s.calls.lookup call).all (Phase.answeredPromptly opts s.now) = true
  | _ => True

instance (opts : Options) (s : State) : (e : Event) → Decidable (PromptFailure opts s e)
  | .fail _ => inferInstanceAs (Decidable (_ = true))
  | .resolve _ _ | .evaluate _ | .answer _ | .write _ | .advance _ => inferInstanceAs (Decidable True)

instance (opts : Options) (s : State) : (e : Event) → Decidable (PromptAnswer opts s e)
  | .answer _ => inferInstanceAs (Decidable (_ = true))
  | .resolve _ _ | .evaluate _ | .fail _ | .write _ | .advance _ => inferInstanceAs (Decidable True)

end UniDocs.StackAuth
