import Mathlib.Data.List.Lex
import Mathlib.Data.List.Sort
import Mathlib.Order.Lex
import UniDocs.Lib.JsNumber
import UniDocs.Lib.Utf16

/-!
# JSON values

The value that `JSON.parse` makes of a text, with its numbers as doubles. Two values are the same when they differ at most in the
order of the fields of their objects, that is when they agree once all fields are put into the order of their keys.
-/

namespace Lib

/-! ## The order of strings -/

namespace JsString

/-- `a <= b`: strings are compared by their code units. -/
def UnitsLe (a b : JsString) : Prop := a.map UInt16.toNat ≤ b.map UInt16.toNat

instance (a b : JsString) : Decidable (UnitsLe a b) := inferInstanceAs (Decidable (_ ≤ _))

theorem unitsLe_antisymm {a b : JsString} (h : UnitsLe a b) (h' : UnitsLe b a) : a = b :=
  List.map_injective_iff.mpr (fun _ _ => UInt16.toNat_inj.mp) (le_antisymm h h')

instance : Std.Total UnitsLe := ⟨fun a b => le_total (a.map UInt16.toNat) (b.map UInt16.toNat)⟩

instance : IsTrans JsString UnitsLe := ⟨fun _ _ _ h h' => le_trans h h'⟩

end JsString

/-! ## Values -/

/-- A JSON value; a number that is not finite has no value. -/
inductive JsonValue where
  | null
  | bool (value : Bool)
  | number (value : Option ℚ)
  | string (text : JsString)
  | array (elements : List JsonValue)
  | object (fields : List (JsString × JsonValue))

namespace JsonValue

/-- The double that a number text stands for, if it is finite. -/
def numberOf (text : JsString) : Option ℚ :=
  let x := JsNumber.toDouble (JsNumber.exactValue text)
  if |x| < 2 ^ 1024 then some x else none

mutual

/-- The value of a text, of which the numbers are still texts. -/
def ofValue : JsonText.Value → JsonValue
  | .null => .null
  | .bool value => .bool value
  | .number text => .number (numberOf text)
  | .string text => .string text
  | .array elements => .array (ofValues elements)
  | .object fields => .object (ofFields fields)

def ofValues : List JsonText.Value → List JsonValue
  | [] => []
  | value :: values => ofValue value :: ofValues values

def ofFields : List (JsString × JsonText.Value) → List (JsString × JsonValue)
  | [] => []
  | (key, value) :: fields => (key, ofValue value) :: ofFields fields

end

def parse (text : JsString) : Option JsonValue := (JsonText.parse text).map fun parsed => ofValue parsed.2.1.value

/-- The value of a field, if there is one. -/
def field? (key : JsString) : JsonValue → Option JsonValue
  | .object fields => fields.lookup key
  | _ => none

/-! ## The order of the fields -/

/-- Fields in the order of their keys. -/
def sortFields (fields : List (JsString × JsonValue)) : List (JsString × JsonValue) :=
  fields.insertionSort fun f g => JsString.UnitsLe f.1 g.1

mutual

/-- A value with the fields of all its objects in the order of their keys. -/
def sorted : JsonValue → JsonValue
  | .null => .null
  | .bool value => .bool value
  | .number value => .number value
  | .string text => .string text
  | .array elements => .array (sortedAll elements)
  | .object fields => .object (sortFields (sortedFields fields))

def sortedAll : List JsonValue → List JsonValue
  | [] => []
  | value :: values => sorted value :: sortedAll values

def sortedFields : List (JsString × JsonValue) → List (JsString × JsonValue)
  | [] => []
  | (key, value) :: fields => (key, sorted value) :: sortedFields fields

end

/-- Two values are the same up to the order of fields. -/
def Same (value value' : JsonValue) : Prop := value.sorted = value'.sorted

@[refl] theorem Same.refl (value : JsonValue) : Same value value := rfl

@[symm] theorem Same.symm {value value' : JsonValue} (h : Same value value') : Same value' value := Eq.symm h

theorem Same.trans {value value' value'' : JsonValue} (h : Same value value') (h' : Same value' value'') : Same value value'' :=
  Eq.trans h h'

theorem sortedAll_eq_map (values : List JsonValue) : sortedAll values = values.map sorted := by
  induction values with
  | nil => rfl
  | cons value values ih => rw [sortedAll, List.map_cons, ih]

/-- Arrays are the same where their elements are, one by one. -/
theorem same_array_iff {values values' : List JsonValue} :
    Same (.array values) (.array values') ↔ List.Forall₂ Same values values' := by
  rw [Same, sorted, sorted, sortedAll_eq_map, sortedAll_eq_map, array.injEq, ← List.forall₂_eq_eq_eq,
    List.forall₂_map_left_iff, List.forall₂_map_right_iff]
  exact Iff.rfl

end JsonValue

end Lib
