import Mathlib.Data.Prod.Lex
import Mathlib.Data.String.Basic
import UniDocs.Control.Store
import UniDocs.Lib.Base64
import UniDocs.Lib.JsonWrite
import UniDocs.Lib.Keyset
import UniDocs.Lib.Utf16

/-!
# Control plane listings

`listMembers`, `listStacks` and `listControlAuditEvents` of `ControlPlaneAdminService` with their queries, and the cursors that
continue them. `db k` is the database that the read with number `k` of a call finds. An error is what `#guard` answers with.
-/

namespace UniDocs.Control

open Lib Lib.JsonText Lib.JsNumber Lib.Keyset

/-! ## Cursors -/

/-- `ControlListCursor`, of version 1. -/
structure ListCursor where
  snapshot : Int
  last : JsString
  deriving DecidableEq, Repr

/-- `encodeControlListCursor`: `btoa` throws when a unit of the text is not a byte. -/
def encodeControlListCursor (snapshot : Nat) (last : String) : Option JsString :=
  Base64.btoa (writeObject
    [(JsString.ofString "version", decimal 1), (JsString.ofString "snapshot", decimal snapshot),
      (JsString.ofString "last", quote (JsString.ofString last))])

/-- The checks of `decodeControlListCursor` on the fields of an object. -/
def checkCursorFields (fields : List (JsString × Value)) : Option ListCursor :=
  match fields.lookup (JsString.ofString "version"), fields.lookup (JsString.ofString "snapshot"),
    fields.lookup (JsString.ofString "last") with
  | some (.number version), some (.number snapshot), some (.string last) =>
    if safeInteger version ≠ some 1 then none
    else
      match safeInteger snapshot with
      | none => none
      | some snapshot => if last.length = 0 then none else some ⟨snapshot, last⟩
  | _, _, _ => none

def decodeControlListCursor (value : JsString) : Option ListCursor :=
  match Base64.atob value with
  | none => none
  | some json =>
    match parse json with
    | none => none
    | some (_, tree, _) =>
      match tree.value with
      | .object fields => checkCursorFields fields
      | _ => none

/-! ## Requests -/

/-- What a listing is answered with instead of a page. -/
inductive ListError where
  | invalidRequest (message : String)
  | invalidCursor (message : String)
  | stackMembershipRequired (message : String)
  | serviceUnavailable (message : String)
  deriving DecidableEq, Repr

/-- `listDefaultLimit` and `listMaxLimit`. -/
structure ListOptions where
  listDefaultLimit : Nat
  listMaxLimit : Nat
  positive : 1 ≤ listDefaultLimit

def controlListMaxLimit : Nat := 200

/-- `parseControlListLimit` of a given limit. -/
def parseControlListLimit (value : Int) : Option Nat :=
  if value < 1 ∨ (controlListMaxLimit : Int) < value then none else some value.toNat

def listLimit (options : ListOptions) (value : Option Int) : Except ListError Nat :=
  match value with
  | none => .ok options.listDefaultLimit
  | some value =>
    match parseControlListLimit value with
    | none => .error (.invalidRequest "invalid list limit")
    | some parsed =>
      if options.listMaxLimit < parsed then .error (.invalidRequest "invalid list limit") else .ok parsed

/-- `#cursor`. -/
def readCursor (value : Option JsString) : Except ListError (Option ListCursor) :=
  match value with
  | none => .ok none
  | some value =>
    match decodeControlListCursor value with
    | none => .error (.invalidCursor "malformed cursor")
    | some cursor => .ok (some cursor)

/-- A cursor is bound to the snapshot that it was made under. -/
def checkSnapshot (cursor : Option ListCursor) (snapshot : Nat) : Except ListError Unit :=
  match cursor with
  | none => .ok ()
  | some cursor =>
    if cursor.snapshot ≠ snapshot then .error (.invalidCursor "cursor is bound to an outdated control snapshot") else .ok ()

/-- The items of a page and the cursor of the next one; an error of `btoa` is none of the control plane. -/
def nextPage {ρ : Type} (limit snapshot : Nat) (last : ρ → String) (rows : List ρ) :
    Except ListError (List ρ × Option JsString) :=
  Keyset.page limit (fun row =>
    match encodeControlListCursor snapshot (last row) with
    | some cursor => .ok cursor
    | none => .error (.serviceUnavailable "control plane operation failed")) rows

/-! ## Queries -/

namespace Db

/-- The members of a stack, with the profiles that are known. -/
def stackMembers (d : Db) (stackId : String) : List Member :=
  (d.members.rows fun key _ => key.1 = stackId).map fun row =>
    let identity := d.identities.lookup row.1.2
    ⟨row.1.1, row.1.2, identity.bind IdentityRow.displayName, identity.bind IdentityRow.emailForDisplay⟩

/-- The stacks of an identity; the key of a row is its column `stack_id`. -/
def identityStacks (d : Db) (identity : IdentityKey) : List Stack :=
  (d.casStacks.rows fun stackId _ => d.hasMembership identity stackId).map fun row => { row.2 with stackId := row.1 }

/-- The audit events of a stack; the key of a row is its column `event_id`. -/
def stackAudits (d : Db) (stackId : String) : List AuditRecord :=
  (d.audits.rows fun _ record => record.stackId = some stackId).map fun row => { row.2 with eventId := row.1 }

def getAuditEventCreatedAt (d : Db) (stackId eventId : String) : Option Int :=
  ((d.audits.lookup eventId).filter fun record => record.stackId = some stackId).map AuditRecord.createdAt

end Db

/-- `ORDER BY m.subject`. -/
def memberKey (member : Member) : String := member.identity.subject

/-- `ORDER BY s.stack_id`. -/
def stackKey (stack : Stack) : String := stack.stackId

/-- `ORDER BY created_at, event_id`. -/
def auditKey (record : AuditRecord) : Int ×ₗ String := toLex (record.createdAt, record.eventId)

/-- The order in which the database shows the rows of each query. -/
structure RowOrders where
  members : OrderBy memberKey
  stackRows : OrderBy stackKey
  audits : OrderBy auditKey

/-! ## Listings -/

section Listings

variable (options : ListOptions) (orders : RowOrders) (db : Nat → Db)

def listMembers (identity : IdentityKey) (stackId : String) (requested : Option Int) (value : Option JsString) :
    Except ListError (List Member × Option JsString) := do
  if !(db 0).hasMembership identity stackId then .error (.stackMembershipRequired "not a member of this stack")
  else
    let limit ← listLimit options requested
    let cursor ← readCursor value
    let snapshot := (db 1).snapshot
    checkSnapshot cursor snapshot
    let afterSubject := (cursor.map fun cursor => cursor.last.toText).getD ""
    let rows := orders.members.select afterSubject (limit + 1) ((db 2).stackMembers stackId)
    if (db 3).snapshot ≠ snapshot then .error (.invalidCursor "control data changed while listing")
    else nextPage limit snapshot (fun member => member.identity.subject) rows

def listStacks (identity : IdentityKey) (requested : Option Int) (value : Option JsString) :
    Except ListError (List Stack × Option JsString) := do
  let limit ← listLimit options requested
  let cursor ← readCursor value
  let snapshot := (db 0).snapshot
  checkSnapshot cursor snapshot
  let afterStackId := (cursor.map fun cursor => cursor.last.toText).getD ""
  let rows := orders.stackRows.select afterStackId (limit + 1) ((db 1).identityStacks identity)
  if (db 2).snapshot ≠ snapshot then .error (.invalidCursor "control data changed while listing")
  else nextPage limit snapshot Stack.stackId rows

/-- Where a page of audit events continues: behind the event that is given, or the one of the cursor. -/
def auditStart (d : Db) (stackId : String) (after : Option String) (cursor : Option ListCursor) :
    Except ListError (Int × String) :=
  let afterEventId := match after with
    | some after => after
    | none => (cursor.map fun cursor => cursor.last.toText).getD ""
  if afterEventId.length = 0 then .ok (0, afterEventId)
  else
    match d.getAuditEventCreatedAt stackId afterEventId with
    | some createdAt => .ok (createdAt, afterEventId)
    | none =>
      if after.isSome then .error (.invalidRequest "after references an unknown event")
      else .error (.invalidCursor "cursor references an unknown event")

def listControlAuditEvents (identity : IdentityKey) (stackId : String) (after : Option String) (requested : Option Int)
    (value : Option JsString) : Except ListError (List AuditRecord × Option JsString) := do
  if !(db 0).hasMembership identity stackId then .error (.stackMembershipRequired "not a member of this stack")
  else
    let limit ← listLimit options requested
    let cursor ← readCursor value
    if after.isSome ∧ cursor.isSome then .error (.invalidRequest "cursor and after are mutually exclusive")
    else
      let snapshot := (db 1).snapshot
      checkSnapshot cursor snapshot
      let (afterCreatedAt, afterEventId) ← auditStart (db 2) stackId after cursor
      let rows := orders.audits.select (toLex (afterCreatedAt, afterEventId)) (limit + 1) ((db 3).stackAudits stackId)
      if (db 4).snapshot ≠ snapshot then .error (.invalidCursor "control data changed while listing")
      else nextPage limit snapshot AuditRecord.eventId rows

end Listings

end UniDocs.Control
