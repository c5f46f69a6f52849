import Mathlib.Data.List.Sort
import UniDocs.Lib.JsNumber
import UniDocs.Lib.JsonWrite
import UniDocs.Lib.StyleRuns
import UniDocs.Psd.Layer

/-!
# Runs of a changed text

`text/runs.ts`: the replacement that turns one content into another, and the runs of the content after it. Lengths and
positions count UTF-16 units; the lengths of runs are the numbers of the document, which nothing keeps from being negative or
a fraction. They are added exactly here and as doubles by the code, which is the same for whole numbers up to 2^53. Styles are
compared by their JSON with sorted keys.
-/

namespace UniDocs.Psd

open Lib Lib.JsonText

/-! ## The replaced interval -/

/-- `Replacement`: the units from `start` to before `stop` are replaced by `insert` units. -/
@[ext] structure Replacement where
  start : Nat
  stop : Nat
  insert : Nat
  deriving DecidableEq, Repr

/-- The loop that counts up to a bound, from a count on, as long as a test holds. -/
def countWhile (test : Nat → Bool) : (left count : Nat) → Nat
  | 0, count => count
  | left + 1, count => if test count then countWhile test left (count + 1) else count

def diffRange (before after : JsString) : Replacement :=
  let max := min before.length after.length
  let prefixLength := countWhile (fun i => before[i]? == after[i]?) max 0
  let suffixLength :=
    countWhile (fun i => before[before.length - 1 - i]? == after[after.length - 1 - i]?) (max - prefixLength) 0
  ⟨prefixLength, before.length - suffixLength, after.length - prefixLength - suffixLength⟩

/-! ## Styles -/

/-- `JSON.stringify` of a number. -/
def Number.toJson : Number → JsString
  | finite value => JsNumber.numberText value
  | infinite _ | nan => JsString.ofString "null"

/-- Texts with a comma between them. -/
def joinComma (texts : List JsString) : JsString := List.intercalate [44] texts

/-- The members of an object, sorted by their names, between braces. -/
def sortedObject (members : List (JsString × JsString)) : JsString :=
  123 :: joinComma ((members.insertionSort fun a b => a.1 ≤ b.1).map fun member =>
    JsonText.quote member.1 ++ 58 :: member.2) ++ [125]

mutual

def stableJson : Value → JsString
  | .undefined | .null => JsString.ofString "null"
  | .bool value => JsString.ofString (if value then "true" else "false")
  | .number value => value.toJson
  | .string value => JsonText.quote (JsString.ofString value)
  | .bytes value => sortedObject (value.mapIdx fun i byte => (JsNumber.decimal i, JsNumber.decimal byte.toNat))
  | .array items => 91 :: joinComma (stableItems items) ++ [93]
  | .object entries => sortedObject (stableEntries entries)

/-- `stableJson` over the items of an array. -/
def stableItems : List Value → List JsString
  | [] => []
  | value :: values => stableJson value :: stableItems values

/-- `stableJson` over the entries of an object that are not `undefined`. -/
def stableEntries : List (String × Value) → List (JsString × JsString)
  | [] => []
  | (_, .undefined) :: entries => stableEntries entries
  | (key, value) :: entries => (JsString.ofString key, stableJson value) :: stableEntries entries

end

/-! ## Splitting the runs -/

inductive SpliceError where
  | spansRuns (styles : Nat)
  | lengthMismatch (runsTotal : ℚ) (contentLength : Nat)
  deriving DecidableEq, Repr

/-- `intersects`: the replaced interval meets the run between two positions; a pure insertion meets the run it falls into. -/
def Replacement.intersects (range : Replacement) (low high : ℚ) : Bool :=
  if range.start = range.stop then decide (low ≤ range.start) && decide (range.start < high)
  else decide (range.start < high) && decide (low < range.stop)

/-- The loop that collects the indices of the runs that the interval meets. -/
def touchedFrom (range : Replacement) : ℚ → Nat → List (Run ℚ Value) → List Nat
  | _, _, [] => []
  | position, i, run :: runs =>
    let next := position + run.length
    if range.intersects position next then i :: touchedFrom range next (i + 1) runs
    else touchedFrom range next (i + 1) runs

/-- `touched`: text that is added at the end belongs to the last run. -/
def touched (range : Replacement) (runs : List (Run ℚ Value)) : List Nat :=
  match touchedFrom range 0 0 runs with
  | [] => if 0 < runs.length then [runs.length - 1] else []
  | found => found

/-- The units of a run that are left, `keptBefore + keptAfter`. -/
def Replacement.kept (range : Replacement) (position : ℚ) (run : Run ℚ Value) : ℚ :=
  max 0 (min run.length (range.start - position)) + max 0 (position + run.length - max (range.stop : ℚ) position)

/-- The loop that makes the new runs. -/
def cutFrom (range : Replacement) (insertAt : Option Nat) : ℚ → Nat → List (Run ℚ Value) → List (Run ℚ Value)
  | _, _, [] => []
  | position, i, run :: runs =>
    let length := range.kept position run + if insertAt = some i then (range.insert : ℚ) else 0
    let rest := cutFrom range insertAt (position + run.length) (i + 1) runs
    if 0 < length then ⟨length, run.style⟩ :: rest else rest

def mergeAdjacent (runs : List (Run ℚ Value)) : List (Run ℚ Value) := Runs.merge stableJson runs

/-- The styles of the runs with some indices, each once. -/
def distinctStyles (runs : List (Run ℚ Value)) (indices : List Nat) : List JsString :=
  (indices.filterMap fun i => runs[i]?.map fun run => stableJson run.style).dedup

def spliceRuns (runs : List (Run ℚ Value)) (range : Replacement) (contentLength : Nat) :
    Except SpliceError (List (Run ℚ Value)) :=
  if Runs.total runs ≠ contentLength then .error (.lengthMismatch (Runs.total runs) contentLength)
  else if 1 < (distinctStyles runs (touched range runs)).length then
    .error (.spansRuns (distinctStyles runs (touched range runs)).length)
  else .ok (mergeAdjacent (cutFrom range (touched range runs).head? 0 0 runs))

end UniDocs.Psd
