import UniDocs.Lib.JsString

/-!
# The Markdown document type

A document is its text. A section is found by scanning the lines for its heading, and runs to the next heading of the same
or a higher level; it is replaced and deleted by its text. Case folding of the regular expressions is a parameter: the
code unit that stands for all units that are equal when case is ignored.
-/

namespace UniDocs.Markdown

open Lib

/-- A unit that the dot of a regular expression does not match. -/
def isTerminator (u : UInt16) : Bool := [10, 13, 0x2028, 0x2029].contains u

/-- A string can be cut into two parts of these kinds. -/
def splits (p : JsString → JsString → Bool) (text : JsString) : Bool :=
  (List.range (text.length + 1)).any fun i => p (text.take i) (text.drop i)

/-- `\n` joins and separates lines. -/
def lineFeed : UInt16 := 10

/-- `^(#{1,6})` before a character that is no `#`: the number of them, and the rest of the line. -/
def marker (line : JsString) : Option (Nat × JsString) :=
  let level := (line.takeWhile (· == 35)).length
  if 1 ≤ level && level ≤ 6 then some (level, line.drop level) else none

/-- `/^(#{1,6})\s+(.+)\s*$/`: the level of a heading. -/
def headingLevel (line : JsString) : Option Nat :=
  match marker line with
  | some (level, rest) =>
    if splits (fun gap rest => !gap.isEmpty && gap.all JsString.isSpace &&
      splits (fun title tail => !title.isEmpty && title.all (fun u => !isTerminator u) && tail.all JsString.isSpace) rest) rest then some level
    else none
  | none => none

/-- `/^(#{1,6})\s+/`: the level of a line that ends the sections below it. -/
def openingLevel (line : JsString) : Option Nat :=
  match marker line with
  | some (level, u :: _) => if JsString.isSpace u then some level else none
  | _ => none

section Sections

variable (canonicalize : UInt16 → UInt16)

/-- `headingPattern.test(line)`: the line is a heading with this title, case ignored. -/
def headingPattern (heading line : JsString) : Bool :=
  match marker line with
  | some (_, rest) =>
    splits (fun gap rest => !gap.isEmpty && gap.all JsString.isSpace &&
      splits (fun title tail => title.map canonicalize == heading.map canonicalize && tail.all JsString.isSpace) rest) rest
  | none => false

/-- The first line that is a heading with this title, counted from a line on, and its level. -/
def findStart (heading : JsString) : List JsString → Nat → Option (Nat × Nat)
  | [], _ => none
  | line :: rest, i =>
    match headingLevel line with
    | some level => if headingPattern canonicalize heading line then some (i, level) else findStart heading rest (i + 1)
    | none => findStart heading rest (i + 1)

/-- The line where a section of this level ends: the next heading that is not below it, or the end of the lines. -/
def findEnd (startLevel : Nat) : List JsString → Nat → Nat
  | [], i => i
  | line :: rest, i =>
    match openingLevel line with
    | some level => if level ≤ startLevel then i else findEnd startLevel rest (i + 1)
    | none => findEnd startLevel rest (i + 1)

/-- The lines of a section, the first and the one after the last. -/
def sectionLines (heading : JsString) (lines : List JsString) : Option (Nat × Nat) :=
  match findStart canonicalize heading lines 0 with
  | some (startIdx, startLevel) => some (startIdx, findEnd startLevel (lines.drop (startIdx + 1)) (startIdx + 1))
  | none => none

def getSection (content heading : JsString) : Option JsString :=
  let lines := content.splitOn lineFeed
  (sectionLines canonicalize heading lines).map fun range =>
    [lineFeed].intercalate ((lines.take range.2).drop range.1)

/-- The operations on a document. -/
inductive MOp where
  | setContent (content : JsString)
  | appendSection (heading content : JsString)
  | replaceSection (heading content : JsString)
  | deleteSection (heading : JsString)

/-- The text of a new section: its heading line, an empty line and the content. -/
def sectionText (heading content : JsString) : JsString :=
  JsString.ofString "## " ++ heading ++ JsString.ofString "\n\n" ++ content

/-- One operation on the text. -/
def applyOp (content : JsString) : MOp → Except JsString JsString
  | .setContent content => .ok content
  | .appendSection heading text => .ok (content ++ JsString.ofString "\n\n" ++ sectionText heading text)
  | .replaceSection heading text =>
    match getSection canonicalize content heading with
    | some (u :: rest) => .ok (JsString.replace content (u :: rest) (sectionText heading text))
    | _ => .error (JsString.ofString "Section not found: " ++ heading)
  | .deleteSection heading =>
    match getSection canonicalize content heading with
    | some (u :: rest) => .ok (JsString.replace content (u :: rest) [])
    | _ => .error (JsString.ofString "Section not found: " ++ heading)

def apply (operations : List MOp) (content : JsString) : Except JsString JsString := operations.foldlM (applyOp canonicalize) content

end Sections

end UniDocs.Markdown
