import UniDocs.Lib.Journal
import UniDocs.Lib.Table

/-!
# The OAuth stores of the gateway

The tables of the D1 stores and their statements. A batch is one statement: it takes effect as a whole or not at all. The
journal beside the tables is proof-only; each entry is written by the statement that does what the entry says, for the call
that made it.
-/

namespace UniDocs.OAuth

open Lib

/-! ## Rows -/

/-- `GatewayOAuthScope`. -/
inductive Scope where
  | casRead
  | casWrite
  | casManage
  deriving DecidableEq, Repr

def Scope.text : Scope → String
  | casRead => "cas:read"
  | casWrite => "cas:write"
  | casManage => "cas:manage"

/-- `CapabilityPermission`: the text names the tenant and what is permitted there. -/
structure Permission where
  tenantId : String
  scope : Scope
  deriving DecidableEq, Repr

/-- `GatewayOAuthRegisteredClient`. -/
structure Client where
  clientId : String
  redirectUris : List String
  deriving DecidableEq, Repr

/-- `GatewayOAuthTenantMembership`. -/
structure Membership where
  tenantId : String
  scopes : List Scope
  refDomain : Option String
  deriving DecidableEq, Repr

/-- `GatewayOAuthAuthorizationTransaction`. -/
structure Transaction where
  transactionId : String
  clientId : String
  redirectUri : String
  tenantId : String
  principalId : Option String
  requestedScopes : List Scope
  state : Option String
  codeChallenge : String
  createdAt : Int
  expiresAt : Int
  deriving DecidableEq, Repr

/-- `GatewayOAuthStoredAuthorizationCode`. -/
structure StoredCode where
  codeHash : String
  clientId : String
  redirectUri : String
  principalId : String
  tenantId : String
  scopes : List Scope
  permissions : List Permission
  codeChallenge : String
  refDomain : Option String
  createdAt : Int
  expiresAt : Int
  deriving DecidableEq, Repr

/-- `GatewayOAuthStoredRefreshToken`. -/
structure StoredToken where
  tokenHash : String
  familyId : String
  generation : Nat
  clientId : String
  principalId : String
  tenantId : String
  scopes : List Scope
  permissions : List Permission
  refDomain : Option String
  createdAt : Int
  expiresAt : Int
  deriving DecidableEq, Repr

/-- A row of `gateway_oauth_refresh_tokens`. -/
structure RefreshRow extends StoredToken where
  consumedAt : Option Int
  successorHash : Option String
  deriving DecidableEq, Repr

/-- A row of `gateway_oauth_refresh_families`. -/
structure Family where
  clientId : String
  principalId : String
  tenantId : String
  revoked : Bool
  deriving DecidableEq, Repr

/-- What a capability is issued for; the token carries it. -/
structure AccessToken where
  subject : String
  audience : String
  tenantId : String
  permissions : List Permission
  lifetimeSeconds : Int
  jti : String
  refDomain : Option String
  deriving DecidableEq, Repr

/-! ## The state -/

/-- What a call has done. -/
inductive Entry where
  /-- A default tenant was derived from the principal and the email. -/
  | provisioned (principalId : String) (email : Option String) (tenantId : String)
  /-- A transaction was stored. -/
  | started (transaction : Transaction)
  /-- A transaction was consumed. -/
  | taken (transaction : Transaction)
  /-- A code was stored for a transaction that the principal approved as a member. -/
  | approved (transaction : Transaction) (principalId : String) (membership : Membership) (code : StoredCode)
  /-- A code was consumed. -/
  | exchanged (code : StoredCode)
  /-- The first token of a family was stored. -/
  | granted (code : StoredCode) (token : StoredToken)
  /-- A token was consumed and its successor stored. -/
  | rotated (current next : StoredToken)
  /-- A rotation was refused; the token as it was found. -/
  | refused (found : Option RefreshRow)
  /-- An access token was issued in a family. -/
  | issued (familyId : String) (token : AccessToken)
  deriving DecidableEq, Repr

/-- The tables, the clock and the journal. -/
structure State where
  clock : Int
  clients : Table String Client
  memberships : Table (String × String) Membership
  transactions : Table String (Transaction × Bool)
  codes : Table String (StoredCode × Bool)
  families : Table String Family
  tokens : Table String RefreshRow
  journal : List (Nat × Entry)

namespace State

/-- A state with an entry more in its journal. -/
def write (s : State) (i : Nat) (e : Entry) : State := { s with journal := s.journal ++ [(i, e)] }

/-! ## Memberships -/

/-- `defaultForPrincipal`: the first membership by tenant. -/
def defaultForPrincipal (s : State) (principalId : String) : Option Membership :=
  ((s.memberships.rows fun k _ => k.1 = principalId).map (·.2)).foldl
    (fun best m => match best with
      | none => some m
      | some b => if m.tenantId < b.tenantId then some m else some b) none

/-- The membership that `provisionDefault` gives. -/
def ownMembership (tenantId : String) : Membership := ⟨tenantId, [.casRead, .casWrite, .casManage], some "doc"⟩

/-- The `INSERT … ON CONFLICT DO NOTHING` of `provisionDefault`. -/
def insertMembership (s : State) (i : Nat) (principalId : String) (email : Option String) (tenantId : String) : State :=
  let memberships := if (principalId, tenantId) ∈ s.memberships then s.memberships
    else s.memberships.insert (principalId, tenantId) (ownMembership tenantId)
  { s with memberships := memberships }.write i (.provisioned principalId email tenantId)

/-! ## Transactions and codes -/

/-- `putIfAbsent` of a transaction. -/
def putTransaction (s : State) (i : Nat) (transaction : Transaction) : State × Bool :=
  if transaction.transactionId ∈ s.transactions then (s, false)
  else ({ s with transactions := s.transactions.insert transaction.transactionId (transaction, false) }.write i
    (.started transaction), true)

/-- `take` of a transaction: the row, when it was not consumed. -/
def takeTransaction (s : State) (i : Nat) (transactionId : String) : State × Option Transaction :=
  match s.transactions.lookup transactionId with
  | some (transaction, false) =>
    ({ s with transactions := s.transactions.insert transactionId (transaction, true) }.write i (.taken transaction),
      some transaction)
  | _ => (s, none)

/-- `putIfAbsent` of a code. -/
def putCode (s : State) (i : Nat) (transaction : Transaction) (principalId : String) (membership : Membership)
    (code : StoredCode) : State × Bool :=
  if code.codeHash ∈ s.codes then (s, false)
  else ({ s with codes := s.codes.insert code.codeHash (code, false) }.write i
    (.approved transaction principalId membership code), true)

/-- `take` of a code. -/
def takeCode (s : State) (i : Nat) (codeHash : String) : State × Option StoredCode :=
  match s.codes.lookup codeHash with
  | some (code, false) =>
    ({ s with codes := s.codes.insert codeHash (code, true) }.write i (.exchanged code), some code)
  | _ => (s, none)

/-! ## Refresh tokens -/

/-- Whether `UNIQUE (family_id, generation)` is taken. -/
def generationTaken (tokens : Table String RefreshRow) (familyId : String) (generation : Nat) : Bool :=
  tokens.has fun _ row => row.familyId = familyId && row.generation = generation

/-- The two statements of `putInitial`. -/
def putInitial (s : State) (i : Nat) (code : StoredCode) (token : StoredToken) : State × Bool :=
  let families := if token.familyId ∈ s.families then s.families
    else s.families.insert token.familyId ⟨token.clientId, token.principalId, token.tenantId, false⟩
  if families.lookup token.familyId = some ⟨token.clientId, token.principalId, token.tenantId, false⟩ ∧
      token.tokenHash ∉ s.tokens ∧ ¬ generationTaken s.tokens token.familyId token.generation then
    ({ s with families := families, tokens := s.tokens.insert token.tokenHash ⟨token, none, none⟩ }.write i
      (.granted code token), true)
  else ({ s with families := families }, false)

/-- Whether a family is there and not revoked. -/
def familyLive (s : State) (familyId : String) : Bool :=
  match s.families.lookup familyId with
  | some family => !family.revoked
  | none => false

/-- The `UPDATE` of `rotate`: the tokens after it. -/
def consumeToken (s : State) (currentHash nextHash : String) (now : Int) : Table String RefreshRow :=
  match s.tokens.lookup currentHash with
  | some row =>
    if row.consumedAt = none ∧ now < row.expiresAt ∧ nextHash ∉ s.tokens ∧ s.familyLive row.familyId then
      s.tokens.insert currentHash { row with consumedAt := some now, successorHash := some nextHash }
    else s.tokens
  | none => s.tokens

/-- The successor of a token. -/
def successor (current : StoredToken) (nextHash : String) (now : Int) : StoredToken :=
  { current with tokenHash := nextHash, generation := current.generation + 1, createdAt := now }

/-- The batch of `rotate`: whether a successor was inserted, or `none` where the insertion violates a constraint and the batch
is rolled back. -/
def rotate (s : State) (i : Nat) (currentHash nextHash : String) (now : Int) : State × Option Bool :=
  let tokens := s.consumeToken currentHash nextHash now
  match tokens.lookup currentHash with
  | some row =>
    if row.consumedAt = some now ∧ row.successorHash = some nextHash then
      let next := successor row.toStoredToken nextHash now
      if nextHash ∈ tokens ∨ generationTaken tokens next.familyId next.generation then (s, none)
      else ({ s with tokens := tokens.insert nextHash ⟨next, none, none⟩ }.write i (.rotated row.toStoredToken next), some true)
    else (s.write i (.refused (s.tokens.lookup currentHash)), some false)
  | none => (s.write i (.refused none), some false)

/-- `#find`: the token and whether its family is revoked. -/
def findToken (s : State) (tokenHash : String) : Option (RefreshRow × Bool) :=
  match s.tokens.lookup tokenHash with
  | none => none
  | some row => (s.families.lookup row.familyId).map fun family => (row, family.revoked)

/-- A family with `revoked_at` set. -/
def revokeFamily (families : Table String Family) (familyId : String) : Table String Family :=
  match families.lookup familyId with
  | none => families
  | some family => families.insert familyId { family with revoked := true }

/-- Every token of a family with `consumed_at` set. -/
def consumeFamily (tokens : Table String RefreshRow) (familyId : String) (now : Int) : Table String RefreshRow :=
  tokens.updateAll fun _ row =>
    if row.familyId = familyId then { row with consumedAt := some (row.consumedAt.getD now) } else row

/-- The batch of `rotate` after a replay. -/
def replay (s : State) (now : Int) (familyId : String) : State :=
  { s with families := revokeFamily s.families familyId, tokens := consumeFamily s.tokens familyId now }

/-- `revoke`: the family of a token of the client. -/
def revoke (s : State) (tokenHash clientId : String) : State :=
  match s.tokens.lookup tokenHash with
  | none => s
  | some row => if row.clientId = clientId then { s with families := revokeFamily s.families row.familyId } else s

/-! ## Cleanup -/

/-- The batch of `cleanupGatewayOAuthD1`. -/
def cleanup (s : State) (now : Int) : State :=
  let tokens := s.tokens.keep fun _ row => now < row.expiresAt
  { s with
    transactions := s.transactions.keep fun _ row => now < row.1.expiresAt
    codes := s.codes.keep fun _ row => now < row.1.expiresAt
    tokens := tokens
    families := s.families.keep fun familyId _ => tokens.has fun _ row => row.familyId = familyId }

end State

end UniDocs.OAuth
