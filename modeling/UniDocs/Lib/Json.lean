/-!
# JSON values

JSON values, with a number as its text and the fields of an object in their order, the text that they are serialized to, and the
text that a string conversion gives.
-/

namespace Lib

inductive Json where
  | null
  | bool (value : Bool)
  | number (text : String)
  | string (text : String)
  | array (elements : List Json)
  | object (fields : List (String × Json))

namespace Json

/-- The value of a field, if there is one. -/
def field? (name : String) : Json → Option Json
  | .object fields => (fields.find? fun f => f.1 == name).map (·.2)
  | _ => none

def isObject : Json → Bool
  | .object _ => true
  | _ => false

def hexDigit (n : Nat) : Char := if n < 10 then Char.ofNat (48 + n) else Char.ofNat (87 + n)

/-- A character inside a serialized string. -/
def escapeChar (c : Char) : List Char :=
  if c = '"' then ['\\', '"']
  else if c = '\\' then ['\\', '\\']
  else if c.toNat = 8 then ['\\', 'b']
  else if c.toNat = 9 then ['\\', 't']
  else if c.toNat = 10 then ['\\', 'n']
  else if c.toNat = 12 then ['\\', 'f']
  else if c.toNat = 13 then ['\\', 'r']
  else if c.toNat < 32 then ['\\', 'u', '0', '0', hexDigit (c.toNat / 16), hexDigit (c.toNat % 16)]
  else [c]

def quote (s : String) : String := "\"" ++ String.ofList (s.toList.flatMap escapeChar) ++ "\""

mutual

def stringify : Json → String
  | .null => "null"
  | .bool true => "true"
  | .bool false => "false"
  | .number text => text
  | .string text => quote text
  | .array elements => "[" ++ ",".intercalate (stringifyAll elements) ++ "]"
  | .object fields => "\x7b" ++ ",".intercalate (stringifyFields fields) ++ "\x7d"

def stringifyAll : List Json → List String
  | [] => []
  | v :: vs => stringify v :: stringifyAll vs

def stringifyFields : List (String × Json) → List String
  | [] => []
  | (name, v) :: fields => (quote name ++ ":" ++ stringify v) :: stringifyFields fields

end

mutual

/-- `String(value)`. -/
def toText : Json → String
  | .null => "null"
  | .bool true => "true"
  | .bool false => "false"
  | .number text => text
  | .string text => text
  | .array elements => ",".intercalate (joinTexts elements)
  | .object _ => "[object Object]"

/-- The parts of an array that `join` puts together. -/
def joinTexts : List Json → List String
  | [] => []
  | .null :: vs => "" :: joinTexts vs
  | v :: vs => toText v :: joinTexts vs

end

end Json

end Lib
