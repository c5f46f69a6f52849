import UniDocs.Cas.NodeLease
import UniDocs.Codec.Binary
import UniDocs.Lib.JsNumber

/-!
# Node reads

The content of a node is read out of its canonical object: the offset of the content is computed from the row and the
edges, and the range that a request names by its header is moved behind it.
-/

namespace UniDocs.Cas

open Lib Lib.JsonText Lib.JsNumber

/-- A refused read, with the headers of its response. -/
structure NodeReadError where
  status : Nat
  code : String
  message : String
  headers : List (String × String)
  deriving DecidableEq, Repr

/-- The refusal of a range. -/
def rangeNotSatisfiable (size : Nat) : NodeReadError where
  status := 416
  code := NodeOpErrorCodes.invalidRequest
  message := "Range is not satisfiable"
  headers := [("Content-Range", s!"bytes */{size}")]

/-- Bytes of the content, from an offset on. -/
structure ContentRange where
  offset : Nat
  length : Nat
  deriving DecidableEq, Repr

/-- The two groups of `/^bytes=(\d*)-(\d*)$/`, where it matches. -/
def matchRange (header : JsString) : Option (JsString × JsString) :=
  let rest := header.drop 6
  let last := (rest.dropWhile isDigit).drop 1
  if header.take 6 = JsString.ofString "bytes=" ∧ (rest.dropWhile isDigit).head? = some 45 ∧ last.all isDigit = true then
    some (rest.takeWhile isDigit, last)
  else none

/-- `Number` of a group, where it is a safe integer that is not negative. -/
def rangeNumber (digits : JsString) : Option Nat :=
  match safeInteger digits with
  | some n => if n < 0 then none else some n.toNat
  | none => none

/-- `parseNodeContentRange` of a header. -/
def parseNodeContentRange (header : JsString) (size : Nat) : Except NodeReadError ContentRange :=
  match matchRange header with
  | none => .error (rangeNotSatisfiable size)
  | some (first, last) =>
    if (first = [] ∧ last = []) ∨ size = 0 then .error (rangeNotSatisfiable size)
    else if (first ≠ [] ∧ rangeNumber first = none) ∨ (last ≠ [] ∧ rangeNumber last = none) then
      .error (rangeNotSatisfiable size)
    else
      -- a group that is empty gives no number
      match if first = [] then none else rangeNumber first, if last = [] then none else rangeNumber last with
      | none, none => .error (rangeNotSatisfiable size)
      | none, some last =>
        if last = 0 then .error (rangeNotSatisfiable size)
        else .ok ⟨size - min last size, min last size⟩
      | some first, none =>
        if size ≤ first then .error (rangeNotSatisfiable size) else .ok ⟨first, size - 1 - first + 1⟩
      | some first, some last =>
        if size ≤ first ∨ last < first then .error (rangeNotSatisfiable size)
        else .ok ⟨first, min last (size - 1) - first + 1⟩

/-- The first and the last byte of a partial answer. -/
structure AnsweredRange where
  start : Nat
  stop : Nat
  deriving DecidableEq, Repr

/-- An answered read. -/
structure NodeContentStream where
  body : Bytes
  contentType : String
  contentSize : Nat
  range : Option AnsweredRange
  deriving DecidableEq, Repr

/-- Bytes of a canonical object. -/
def readCanonicalRange (t : Tenant) (hash : Hash) (offset length : Nat) : Option Bytes :=
  (t.objects.lookup hash).map fun bytes => (bytes.drop offset).take length

/-- Where the content starts in the canonical object. -/
def physicalOffset (contentType : String) (refs : List Hash) : Nat :=
  UniDocs.Codec.headerSize + (UniDocs.Codec.textEncode contentType).length + refs.length * UniDocs.Codec.hashSize

/-- The content of a node, or the part of it that a range header names; `none` when there is no such node. -/
def readNodeContent (t : Tenant) (hash : Hash) (rangeHeader : Option JsString) :
    Except NodeReadError (Option NodeContentStream) :=
  match t.nodes.lookup hash with
  | none => .ok none
  | some node =>
    let offset := physicalOffset node.contentType (t.refs hash)
    match rangeHeader with
    | none => .ok ((readCanonicalRange t hash offset node.contentSize).map fun body =>
        ⟨body, node.contentType, node.contentSize, none⟩)
    | some header =>
      match parseNodeContentRange header node.contentSize with
      | .error e => .error e
      | .ok range => .ok ((readCanonicalRange t hash (offset + range.offset) range.length).map fun body =>
          ⟨body, node.contentType, node.contentSize, some ⟨range.offset, range.offset + range.length - 1⟩⟩)

end UniDocs.Cas
