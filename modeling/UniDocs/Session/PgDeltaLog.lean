import UniDocs.Lib.CborOrder
import UniDocs.Lib.JsMap
import UniDocs.Lib.Json
import UniDocs.Lib.Machine
import UniDocs.Session.Ports
import UniDocs.SValueCodec.SValue

/-!
# The delta log in Postgres

`PgDeltaLog` over the rows of one session, and the calls of `DocumentSession.apply` that write it, from any number of
replicas. The operations of a delta are written with `JSON.stringify`, stored as JSONB and parsed again by the driver. Under
READ COMMITTED a statement sees the highest version of its own snapshot, which may lack rows in flight, so that version is
given to each statement; the primary key is checked against the rows as they are.
-/

namespace UniDocs.Session

open Lib UniDocs.SValueCodec

/-! ## JSON -/

/-- A JSON value. -/
inductive JsonValue where
  | null
  | bool (value : Bool)
  | number (value : JsNumber)
  | string (value : String)
  | array (items : List JsonValue)
  | object (fields : List (String × JsonValue))

/-- A number as `JSON.stringify` writes it. -/
def jsonNumber : JsNumber → JsonValue
  | .notFinite => .null
  | .negativeZero => .number (.integral 0)
  | value => .number value

mutual
/-- `JSON.stringify`. The brand of an SBlob is a symbol property, which is not written. -/
def jsonStringify : SValue → JsonValue
  | .null => .null
  | .bool value => .bool value
  | .number value => jsonNumber value
  | .string value => .string value
  | .sblob hash => .object [("hash", .string hash.val)]
  | .array items => .array (stringifyItems items)
  | .object properties => .object (stringifyProperties properties)
def stringifyItems : List SValue → List JsonValue
  | [] => []
  | item :: items => jsonStringify item :: stringifyItems items
def stringifyProperties : List (String × SValue) → List (String × JsonValue)
  | [] => []
  | (key, value) :: properties => (key, jsonStringify value) :: stringifyProperties properties
end

/-- JSONB does not hold the character U+0000. -/
def hasNul (text : String) : Bool := text.toList.any fun c => c.toNat == 0

/-- The order in which JSONB keeps the keys of an object: by length, then by bytes. -/
def jsonbKeyLe (field field' : String × JsonValue) : Prop :=
  (utf8 field.1).length < (utf8 field'.1).length ∨
    (utf8 field.1).length = (utf8 field'.1).length ∧ ¬ Cbor.lexLt (utf8 field'.1) (utf8 field.1)

instance (field field' : String × JsonValue) : Decidable (jsonbKeyLe field field') := inferInstanceAs (Decidable (_ ∨ _))

mutual
/-- The cast to `jsonb`: of fields with one key the last one stays. -/
def jsonb : JsonValue → Option JsonValue
  | .string value => if hasNul value then none else some (.string value)
  | .array items => (jsonbItems items).map .array
  | .object fields =>
    (jsonbFields fields).map fun fields => .object ((JsMap.ofList fields).insertionSort jsonbKeyLe)
  | value => some value
def jsonbItems : List JsonValue → Option (List JsonValue)
  | [] => some []
  | item :: items =>
    match jsonb item, jsonbItems items with
    | some item, some items => some (item :: items)
    | _, _ => none
def jsonbFields : List (String × JsonValue) → Option (List (String × JsonValue))
  | [] => some []
  | (key, value) :: fields =>
    if hasNul key then none
    else
      match jsonb value, jsonbFields fields with
      | some value, some fields => some ((key, value) :: fields)
      | _, _ => none
end

mutual
/-- `JSON.parse` in the driver. -/
def jsonParse : JsonValue → SValue
  | .null => .null
  | .bool value => .bool value
  | .number value => .number value
  | .string value => .string value
  | .array items => .array (parseItems items)
  | .object fields => .object (parseFields fields)
def parseItems : List JsonValue → List SValue
  | [] => []
  | item :: items => jsonParse item :: parseItems items
def parseFields : List (String × JsonValue) → List (String × SValue)
  | [] => []
  | (key, value) :: fields => (key, jsonParse value) :: parseFields fields
end

/-! ## The rows of a session -/

/-- A row of `deltas`, beside its version. -/
structure DeltaRow where
  timestamp : Nat
  description : String
  operations : JsonValue

/-- The rows of one session, by version. -/
abbrev PgDeltas := Table Nat DeltaRow

/-- `row.operations as unknown[]`. -/
def operationsOf : SValue → List SValue
  | .array items => items
  | _ => []

def toDelta (version : Nat) (row : DeltaRow) : Delta SValue :=
  ⟨version, row.timestamp, row.description, operationsOf (jsonParse row.operations)⟩

namespace PgDeltas

/-- `COALESCE(MAX(version), 0)`. -/
def head (deltas : PgDeltas) : Nat := (deltas.entries.map fun e => e.1).foldl max 0

/-- The rows under a condition, `ORDER BY version ASC`. -/
def select (deltas : PgDeltas) (p : Nat → Bool) : List (Delta SValue) :=
  ((deltas.rows fun version _ => p version).insertionSort fun r r' => r.1 ≤ r'.1).map fun r => toDelta r.1 r.2

def since (deltas : PgDeltas) (v : Nat) : List (Delta SValue) := deltas.select fun version => decide (v < version)

def range (deltas : PgDeltas) (lo hi : Option Nat) : List (Delta SValue) :=
  deltas.select fun version =>
    (match lo with
      | some lo => decide (lo ≤ version)
      | none => true) &&
    (match hi with
      | some hi => decide (version ≤ hi)
      | none => true)

/-- `append`, whose statement sees `seen` as the highest version. -/
def append (deltas : PgDeltas) (seen : Nat) (d : Delta SValue) : Except SessionError PgDeltas :=
  match jsonb (jsonStringify (.array d.operations)) with
  | none => .error (.failure "unsupported Unicode escape sequence")
  | some operations =>
    if seen + 1 = d.version then
      match deltas.insertNew d.version ⟨d.timestamp, d.description, operations⟩ with
      | some deltas => .ok deltas
      | none => .error (.versionConflict deltas.head d.version)
    else .error (.versionConflict deltas.head d.version)

/-- `remove`, whose statement sees `seen` as the highest version. -/
def remove (deltas : PgDeltas) (seen v : Nat) : PgDeltas := if v = seen then deltas.erase v else deltas

end PgDeltas

/-! ## Calls of apply -/

/-- The operations of a call: the keys of their objects are distinct, as those of JavaScript objects are. -/
structure Operations where
  items : List SValue
  distinct : distinctItems items

/-- Where a call of `apply` is: past its checks with the references to pin, past the append, or at its end. A call is
accepted with the version it returns. -/
inductive Phase where
  | idle
  | checked (ops : Operations) (refs : List Cas.Hash) (description : String) (version : Nat)
  | appended (ops : Operations) (refs : List Cas.Hash) (version : Nat)
  | accepted (ops : Operations) (version : Nat)
  | failed (error : SessionError)

/-- The rows of the session and the calls on it. -/
structure LogState where
  deltas : PgDeltas
  calls : Nat → Phase

/-- A path into a value, as the codec writes it. -/
def pathText (path : List PathStep) : String :=
  path.foldl (fun text step => text ++ (match step with
    | .index index => s!"[{index}]"
    | .key key => "." ++ Json.quote key
    | .anyKey => ".[key]")) "$"

/-- The text of an error of the codec. -/
def failureText : Failure → String
  | .invalid path message => s!"TypeError: Invalid SValue at {pathText path}: {message}"
  | .limit message => s!"TypeError: {message}"
  | .cborg message => s!"Error: {message}"

section Apply

variable (cborg : Cborg)

/-- Steps 0 to 2 of `apply`: the version, the leases of the references (`leased` when the CAS grants them all), and
`config.apply`, which throws `rejected`. -/
def checkApply (deltas : PgDeltas) (ops : Operations) (description : String) (baseVersion : Nat) (leased : Bool)
    (rejected : Option String) : Phase :=
  if deltas.head ≠ baseVersion then .failed (.versionConflict deltas.head (baseVersion + 1))
  else
    match encodeSValueWithRefs cborg (.array ops.items) {} with
    | .error e => .failed (.deltaRejected s!"Delta failed: {failureText e}")
    | .ok encoded =>
      if leased || encoded.refs.isEmpty then
        match rejected with
        | some message => .failed (.deltaRejected s!"Delta failed: {message}")
        | none => .checked ops encoded.refs description (baseVersion + 1)
      else .failed .casClient

/-- What happens in a session: the steps of a call of `apply`, with the answers that it gets (`refused` when the update of
the root references fails), and the appends of creations and rollbacks, whose deltas have no operations. -/
inductive LogEvent where
  | check (call : Nat) (ops : Operations) (description : String) (baseVersion : Nat) (leased : Bool)
      (rejected : Option String)
  | append (call seen timestamp : Nat)
  | rootRefs (call : Nat) (refused : Option String) (seen : Nat)
  | other (seen version timestamp : Nat) (description : String)

/-- The state with a call in another phase. -/
def LogState.setCall (s : LogState) (call : Nat) (phase : Phase) : LogState :=
  { s with calls := Function.update s.calls call phase }

/-- One step. -/
def LogState.step (s : LogState) : LogEvent → LogState
  | .check call ops description baseVersion leased rejected =>
    match s.calls call with
    | .idle => s.setCall call (checkApply cborg s.deltas ops description baseVersion leased rejected)
    | _ => s
  | .append call seen timestamp =>
    match s.calls call with
    | .checked ops refs description version =>
      match s.deltas.append seen ⟨version, timestamp, description, ops.items⟩ with
      | .ok deltas => { s with deltas }.setCall call (.appended ops refs version)
      | .error e => s.setCall call (.failed e)
    | _ => s
  | .rootRefs call refused seen =>
    match s.calls call with
    | .appended ops refs version =>
      match refused, refs with
      | none, _ | some _, [] => s.setCall call (.accepted ops version)
      | some message, _ :: _ =>
        { s with deltas := s.deltas.remove seen version }.setCall call
          (.failed (.rootRefs s!"CAS root-refs failed: {message}"))
    | _ => s
  | .other seen version timestamp description =>
    match s.deltas.append seen ⟨version, timestamp, description, []⟩ with
    | .ok deltas => { s with deltas }
    | .error _ => s

end Apply

/-- No call has begun. -/
def LogState.start (deltas : PgDeltas) : LogState := ⟨deltas, fun _ => .idle⟩

end UniDocs.Session
