import UniDocs.Lib.JsString

/-!
# JSON texts

The concrete syntax of JSON over code units: a tree that keeps every spelling, so that it renders to the text it was parsed
from, and the value it denotes, in which a repeated key stands for its last occurrence. Pieces of a string, gaps and
numbers carry the proof that they are what the grammar allows.
-/

namespace Lib.JsonText

open Lib

/-! ## Tokens -/

/-- White space of the grammar. -/
def isGap (u : UInt16) : Bool := u == 32 || u == 9 || u == 10 || u == 13

/-- A hexadecimal digit of an escape. -/
def isHexDigit (u : UInt16) : Bool := (48 ≤ u && u ≤ 57) || (65 ≤ u && u ≤ 70) || (97 ≤ u && u ≤ 102)

/-- A unit that stands for itself in a string: neither a control character nor a quotation mark nor a backslash. -/
def isPlain (u : UInt16) : Bool := 32 ≤ u && u != 34 && u != 92

/-- The units after a backslash that stand for one unit: `"`, `\`, `/`, `b`, `f`, `n`, `r` and `t`. -/
def isShortEscape (u : UInt16) : Bool := [34, 92, 47, 98, 102, 110, 114, 116].contains u

/-- The units of a number. -/
def isNumberUnit (u : UInt16) : Bool := (48 ≤ u && u ≤ 57) || [45, 43, 46, 69, 101].contains u

/-- One unit of a string, as it is spelled. -/
inductive Piece where
  | plain (u : UInt16) (h : isPlain u = true)
  | escape (u : UInt16) (h : isShortEscape u = true)
  | unicode (a b c d : UInt16) (h : [a, b, c, d].all isHexDigit = true)

abbrev Gap := { units : JsString // units.all isGap = true }

abbrev NumberToken := { units : JsString // units.all isNumberUnit = true }

inductive Literal where
  | null
  | true
  | false
  deriving DecidableEq, Repr

/-- The spelling of a piece. -/
def Piece.render : Piece → JsString
  | plain u _ => [u]
  | escape u _ => [92, u]
  | unicode a b c d _ => [92, 117, a, b, c, d]

def renderPieces (pieces : List Piece) : JsString := pieces.flatMap Piece.render

def hexValue (u : UInt16) : Nat := if u ≤ 57 then u.toNat - 48 else if u ≤ 70 then u.toNat - 55 else u.toNat - 87

/-- The unit that a piece stands for. -/
def Piece.unit : Piece → UInt16
  | plain u _ => u
  | escape u _ => if u = 98 then 8 else if u = 102 then 12 else if u = 110 then 10 else if u = 114 then 13 else if u = 116 then 9 else u
  | unicode a b c d _ => (((hexValue a * 16 + hexValue b) * 16 + hexValue c) * 16 + hexValue d).toUInt16

/-- The string that a token denotes. -/
def decode (pieces : List Piece) : JsString := pieces.map Piece.unit

def Literal.render : Literal → JsString
  | null => [110, 117, 108, 108]
  | true => [116, 114, 117, 101]
  | false => [102, 97, 108, 115, 101]

/-! ## Trees -/

mutual

/-- A value as it is spelled; the gap of an array or an object is the one of an empty one. -/
inductive Tree where
  | literal (l : Literal)
  | number (token : NumberToken)
  | string (pieces : List Piece)
  | array (gap : Gap) (elements : Elements)
  | object (gap : Gap) (members : Members)

/-- The elements of an array with the gaps around them. -/
inductive Elements where
  | nil
  | cons (before : Gap) (value : Tree) (after : Gap) (rest : Elements)

/-- The members of an object with the gaps around their keys and values. -/
inductive Members where
  | nil
  | cons (before : Gap) (key : List Piece) (afterKey : Gap) (beforeValue : Gap) (value : Tree) (after : Gap) (rest : Members)

end

def renderString (pieces : List Piece) : JsString := 34 :: renderPieces pieces ++ [34]

mutual

/-- The text of a tree. -/
def Tree.render : Tree → JsString
  | .literal l => l.render
  | .number token => token.1
  | .string pieces => renderString pieces
  | .array gap .nil => 91 :: gap.1 ++ [93]
  | .array _ elements => 91 :: elements.render ++ [93]
  | .object gap .nil => 123 :: gap.1 ++ [125]
  | .object _ members => 123 :: members.render ++ [125]

def Elements.render : Elements → JsString
  | .nil => []
  | .cons before value after .nil => before.1 ++ value.render ++ after.1
  | .cons before value after rest => before.1 ++ value.render ++ after.1 ++ 44 :: rest.render

def Members.render : Members → JsString
  | .nil => []
  | .cons before key afterKey beforeValue value after .nil =>
    before.1 ++ renderString key ++ afterKey.1 ++ 58 :: beforeValue.1 ++ value.render ++ after.1
  | .cons before key afterKey beforeValue value after rest =>
    before.1 ++ renderString key ++ afterKey.1 ++ 58 :: beforeValue.1 ++ value.render ++ after.1 ++ 44 :: rest.render

end

/-! ## Values -/

/-- A JSON value; a number is given by its text, and an object has each key once. -/
inductive Value where
  | null
  | bool (value : Bool)
  | number (text : JsString)
  | string (text : JsString)
  | array (elements : List Value)
  | object (fields : List (JsString × Value))

/-- The definition of a property: an existing one keeps its place. -/
def define (key : JsString) (value : Value) (fields : List (JsString × Value)) : List (JsString × Value) :=
  if fields.any (fun f => f.1 == key) then fields.map fun f => if f.1 == key then (key, value) else f
  else fields ++ [(key, value)]

mutual

/-- The value that a tree denotes. -/
def Tree.value : Tree → Value
  | .literal .null => .null
  | .literal .true => .bool true
  | .literal .false => .bool false
  | .number token => .number token.1
  | .string pieces => .string (decode pieces)
  | .array _ elements => .array elements.values
  | .object _ members => .object (members.fields.foldl (fun fields f => define f.1 f.2 fields) [])

def Elements.values : Elements → List Value
  | .nil => []
  | .cons _ value _ rest => value.value :: rest.values

/-- The fields of an object text in their order, repeated keys included. -/
def Members.fields : Members → List (JsString × Value)
  | .nil => []
  | .cons _ key _ _ value _ rest => (decode key, value.value) :: rest.fields

end

/-! ## The parser -/

/-- The gap at the start of a text. -/
def gapOf (text : JsString) : Gap := ⟨text.takeWhile isGap, List.all_takeWhile⟩

/-- The text after the gap at its start. -/
def skipGap (text : JsString) : JsString := text.dropWhile isGap

/-- The rest of a string after its opening quotation mark. -/
def parsePieces : JsString → Option (List Piece × JsString)
  | [] => none
  | u :: rest =>
    if u = 34 then some ([], rest)
    else if u = 92 then
      match rest with
      | [] => none
      | v :: tail =>
        if h : isShortEscape v = true then (parsePieces tail).map fun r => (.escape v h :: r.1, r.2)
        else if v = 117 then
          match tail with
          | a :: b :: c :: d :: tail' =>
            if h : [a, b, c, d].all isHexDigit = true then (parsePieces tail').map fun r => (.unicode a b c d h :: r.1, r.2)
            else none
          | _ => none
        else none
    else if h : isPlain u = true then (parsePieces rest).map fun r => (.plain u h :: r.1, r.2)
    else none

def isDigit (u : UInt16) : Bool := 48 ≤ u && u ≤ 57

/-- The digits at the start of a text, at least one. -/
def digits (text : JsString) : Option (JsString × JsString) :=
  if (text.takeWhile isDigit).isEmpty then none else some (text.takeWhile isDigit, text.dropWhile isDigit)

/-- The whole part of a number: zero, or digits that do not start with zero. -/
def wholePart : JsString → Option (JsString × JsString)
  | 48 :: rest => some ([48], rest)
  | text => digits text

/-- The fraction of a number, if there is one. -/
def fraction : JsString → Option (JsString × JsString)
  | 46 :: rest => (digits rest).map fun r => (46 :: r.1, r.2)
  | text => some ([], text)

/-- The exponent of a number, if there is one. -/
def exponent : JsString → Option (JsString × JsString)
  | e :: rest =>
    if e = 69 || e = 101 then
      match rest with
      | sign :: rest' =>
        if sign = 43 || sign = 45 then (digits rest').map fun r => (e :: sign :: r.1, r.2)
        else (digits rest).map fun r => (e :: r.1, r.2)
      | [] => none
    else some ([], e :: rest)
  | [] => some ([], [])

/-- A number. -/
def parseNumber (text : JsString) : Option (NumberToken × JsString) := do
  let sign := if text.head? = some 45 then [45] else []
  let (whole, t₁) ← wholePart (text.drop sign.length)
  let (part, t₂) ← fraction t₁
  let (power, t₃) ← exponent t₂
  let units : JsString := sign ++ whole ++ part ++ power
  if h : units.all isNumberUnit = true then some (⟨units, h⟩, t₃) else none

/-- A fixed word at the start of a text. -/
def parseLiteral (l : Literal) (text : JsString) : Option (Tree × JsString) :=
  if l.render.isPrefixOf text then some (.literal l, text.drop l.render.length) else none

mutual

/-- A value at the start of a text, and the text after it. -/
def parseValue : Nat → JsString → Option (Tree × JsString)
  | 0, _ => none
  | _, [] => none
  | fuel + 1, u :: rest =>
    if u = 34 then (parsePieces rest).map fun r => (.string r.1, r.2)
    else if u = 91 then
      match skipGap rest with
      | 93 :: t => some (.array (gapOf rest) .nil, t)
      | _ => (parseElements fuel rest).map fun r => (.array ⟨[], rfl⟩ r.1, r.2)
    else if u = 123 then
      match skipGap rest with
      | 125 :: t => some (.object (gapOf rest) .nil, t)
      | _ => (parseMembers fuel rest).map fun r => (.object ⟨[], rfl⟩ r.1, r.2)
    else if u = 110 then parseLiteral .null (u :: rest)
    else if u = 116 then parseLiteral .true (u :: rest)
    else if u = 102 then parseLiteral .false (u :: rest)
    else (parseNumber (u :: rest)).map fun r => (.number r.1, r.2)

/-- The elements of an array up to its closing bracket. -/
def parseElements : Nat → JsString → Option (Elements × JsString)
  | 0, _ => none
  | fuel + 1, text => do
    let (value, t) ← parseValue fuel (skipGap text)
    match skipGap t with
    | 44 :: t' => (parseElements fuel t').map fun r => (.cons (gapOf text) value (gapOf t) r.1, r.2)
    | 93 :: t' => some (.cons (gapOf text) value (gapOf t) .nil, t')
    | _ => none

/-- The members of an object up to its closing brace. -/
def parseMembers : Nat → JsString → Option (Members × JsString)
  | 0, _ => none
  | fuel + 1, text =>
    match skipGap text with
    | 34 :: t => do
      let (key, t₁) ← parsePieces t
      match skipGap t₁ with
      | 58 :: t₂ => do
        let (value, t₃) ← parseValue fuel (skipGap t₂)
        match skipGap t₃ with
        | 44 :: t₄ =>
          (parseMembers fuel t₄).map fun r => (.cons (gapOf text) key (gapOf t₁) (gapOf t₂) value (gapOf t₃) r.1, r.2)
        | 125 :: t₄ => some (.cons (gapOf text) key (gapOf t₁) (gapOf t₂) value (gapOf t₃) .nil, t₄)
        | _ => none
      | _ => none
    | _ => none

end

/-- `JSON.parse`, with the spelling kept: a value with gaps around it and nothing else. -/
def parse (text : JsString) : Option (Gap × Tree × Gap) :=
  match parseValue (text.length + 1) (skipGap text) with
  | some (tree, rest) => if h : rest.all isGap = true then some (gapOf text, tree, ⟨rest, h⟩) else none
  | none => none

/-! ## What is parsed renders to the text -/

theorem gapOf_append (text : JsString) : (gapOf text).1 ++ skipGap text = text := List.takeWhile_append_dropWhile

theorem parsePieces_render : ∀ (n : Nat) {text : JsString} {pieces : List Piece} {rest : JsString}, text.length ≤ n →
    parsePieces text = some (pieces, rest) → text = renderPieces pieces ++ 34 :: rest := by
  intro n
  induction n with
  | zero =>
    intro text pieces rest hlen h
    obtain rfl := List.length_eq_zero_iff.mp (Nat.le_zero.mp hlen)
    cases h
  | succ n ih =>
    intro text pieces rest hlen h
    -- A piece before the rest of the string.
    have hpiece : ∀ {tail : JsString} {p : Piece}, tail.length ≤ n →
        (parsePieces tail).map (fun r => (p :: r.1, r.2)) = some (pieces, rest) →
        p.render ++ tail = renderPieces pieces ++ 34 :: rest := by
      intro tail p hl hm
      obtain ⟨⟨ps, r⟩, hr, he⟩ := Option.map_eq_some_iff.mp hm
      cases he
      rw [ih hl hr, renderPieces, renderPieces, List.flatMap_cons, List.append_assoc]
    rw [parsePieces.eq_def] at h
    split at h
    · cases h
    rename_i u t
    simp only [List.length_cons] at hlen
    split at h
    · rename_i hu
      cases h
      rw [hu]
      rfl
    split at h
    · rename_i hu
      subst hu
      split at h
      · cases h
      rename_i v tail
      simp only [List.length_cons] at hlen
      split at h
      · exact hpiece (by omega) h
      split at h
      · rename_i hv
        subst hv
        split at h
        · rename_i a b c d tail'
          simp only [List.length_cons] at hlen
          split at h
          · exact hpiece (by omega) h
          · cases h
        · cases h
      · cases h
    split at h
    · exact hpiece (by omega) h
    · cases h

variable {text ds rest : JsString}

theorem digits_append (h : digits text = some (ds, rest)) : text = ds ++ rest := by
  rw [digits] at h
  split at h
  · cases h
  · cases h
    exact List.takeWhile_append_dropWhile.symm

theorem wholePart_append (h : wholePart text = some (ds, rest)) : text = ds ++ rest := by
  unfold wholePart at h
  split at h
  · cases h
    rfl
  · exact digits_append h

theorem fraction_append (h : fraction text = some (ds, rest)) : text = ds ++ rest := by
  unfold fraction at h
  split at h
  · obtain ⟨⟨ds', r⟩, hd, he⟩ := Option.map_eq_some_iff.mp h
    cases he
    rw [digits_append hd, List.cons_append]
  · cases h
    rfl

theorem exponent_append (h : exponent text = some (ds, rest)) : text = ds ++ rest := by
  unfold exponent at h
  split at h
  · split at h
    · split at h
      · split at h
        · obtain ⟨⟨ds', r⟩, hd, he⟩ := Option.map_eq_some_iff.mp h
          cases he
          rw [digits_append hd, List.cons_append, List.cons_append]
        · obtain ⟨⟨ds', r⟩, hd, he⟩ := Option.map_eq_some_iff.mp h
          cases he
          rw [digits_append hd, List.cons_append]
      · cases h
    · cases h
      rfl
  · cases h
    rfl

theorem parseNumber_append {text : JsString} {token : NumberToken} {rest : JsString}
    (h : parseNumber text = some (token, rest)) : text = token.1 ++ rest := by
  have hsign : text = (if text.head? = some 45 then [45] else []) ++
      text.drop (if text.head? = some 45 then [45] else [] : JsString).length := by
    split
    · rename_i hhead
      cases text with
      | nil => cases hhead
      | cons u t =>
        cases hhead
        rfl
    · rfl
  simp only [parseNumber] at h
  generalize (if text.head? = some 45 then [45] else [] : JsString) = sign at h hsign
  obtain ⟨⟨whole, t₁⟩, h₁, h⟩ := Option.bind_eq_some_iff.mp h
  obtain ⟨⟨part, t₂⟩, h₂, h⟩ := Option.bind_eq_some_iff.mp h
  obtain ⟨⟨power, t₃⟩, h₃, h⟩ := Option.bind_eq_some_iff.mp h
  simp only at h₁ h₂ h₃ h
  split at h
  · cases h
    rw [hsign, wholePart_append h₁, fraction_append h₂, exponent_append h₃]
    simp only [List.append_assoc]
  · cases h

theorem parseLiteral_render {l : Literal} {text : JsString} {tree : Tree} {rest : JsString}
    (h : parseLiteral l text = some (tree, rest)) : text = tree.render ++ rest := by
  rw [parseLiteral] at h
  split at h
  · rename_i hp
    cases h
    rw [Tree.render]
    exact (List.prefix_iff_eq_append.mp (List.isPrefixOf_iff_prefix.mp hp)).symm
  · cases h

theorem render_array {gap : Gap} {elements : Elements} (h : elements ≠ .nil) :
    (Tree.array gap elements).render = 91 :: elements.render ++ [93] := by
  cases elements with
  | nil => exact absurd rfl h
  | cons before value after rest => rw [Tree.render]; exact fun h => by cases h

theorem render_object {gap : Gap} {members : Members} (h : members ≠ .nil) :
    (Tree.object gap members).render = 123 :: members.render ++ [125] := by
  cases members with
  | nil => exact absurd rfl h
  | cons => rw [Tree.render]; exact fun h => by cases h

theorem render_cons {before after : Gap} {value : Tree} {rest : Elements} (h : rest ≠ .nil) :
    (Elements.cons before value after rest).render = before.1 ++ value.render ++ after.1 ++ 44 :: rest.render := by
  cases rest with
  | nil => exact absurd rfl h
  | cons => rw [Elements.render]; exact fun h => by cases h

theorem render_members_cons {before afterKey beforeValue after : Gap} {key : List Piece} {value : Tree} {rest : Members}
    (h : rest ≠ .nil) : (Members.cons before key afterKey beforeValue value after rest).render =
      before.1 ++ renderString key ++ afterKey.1 ++ 58 :: beforeValue.1 ++ value.render ++ after.1 ++ 44 :: rest.render := by
  cases rest with
  | nil => exact absurd rfl h
  | cons => rw [Members.render]; exact fun h => by cases h

/-- What is parsed is at the start of the text as it is spelled. -/
theorem parseValue_render (fuel : Nat) :
    (∀ {text : JsString} {tree : Tree} {rest : JsString}, parseValue fuel text = some (tree, rest) →
      text = tree.render ++ rest) ∧
    (∀ {text : JsString} {elements : Elements} {rest : JsString}, parseElements fuel text = some (elements, rest) →
      elements ≠ .nil ∧ text = elements.render ++ 93 :: rest) ∧
    ∀ {text : JsString} {members : Members} {rest : JsString}, parseMembers fuel text = some (members, rest) →
      members ≠ .nil ∧ text = members.render ++ 125 :: rest := by
  induction fuel with
  | zero =>
    refine ⟨?_, ?_, ?_⟩
    · intro text tree rest h
      cases text <;> cases h
    · intro text elements rest h
      cases h
    · intro text members rest h
      cases h
  | succ fuel ih =>
    obtain ⟨ihValue, ihElements, ihMembers⟩ := ih
    refine ⟨?_, ?_, ?_⟩
    · intro text tree rest h
      cases text with
      | nil => cases h
      | cons u t =>
        rw [parseValue] at h
        split at h
        · rename_i hu
          obtain ⟨⟨pieces, r⟩, hp, he⟩ := Option.map_eq_some_iff.mp h
          cases he
          rw [hu, parsePieces_render _ (Nat.le_refl _) hp, Tree.render, renderString]
          simp
        split at h
        · rename_i hu
          split at h
          · rename_i t' ht
            cases h
            have hgap := gapOf_append t
            rw [ht] at hgap
            rw [hu, Tree.render, ← hgap]
            simp [hgap]
          · obtain ⟨⟨elements, r⟩, hp, he⟩ := Option.map_eq_some_iff.mp h
            cases he
            obtain ⟨hne, htext⟩ := ihElements hp
            rw [hu, htext, render_array hne]
            simp
        split at h
        · rename_i hu
          split at h
          · rename_i t' ht
            cases h
            have hgap := gapOf_append t
            rw [ht] at hgap
            rw [hu, Tree.render, ← hgap]
            simp [hgap]
          · obtain ⟨⟨members, r⟩, hp, he⟩ := Option.map_eq_some_iff.mp h
            cases he
            obtain ⟨hne, htext⟩ := ihMembers hp
            rw [hu, htext, render_object hne]
            simp
        split at h
        · exact parseLiteral_render h
        split at h
        · exact parseLiteral_render h
        split at h
        · exact parseLiteral_render h
        · obtain ⟨⟨token, r⟩, hp, he⟩ := Option.map_eq_some_iff.mp h
          cases he
          exact parseNumber_append hp
    · intro text elements rest h
      rw [parseElements] at h
      obtain ⟨⟨value, t⟩, hv, h⟩ := Option.bind_eq_some_iff.mp h
      have htext : text = (gapOf text).1 ++ (value.render ++ ((gapOf t).1 ++ skipGap t)) := by
        rw [gapOf_append, ← ihValue hv, gapOf_append]
      simp only at h
      split at h
      · rename_i t' ht
        obtain ⟨⟨elements', r⟩, hp, he⟩ := Option.map_eq_some_iff.mp h
        cases he
        obtain ⟨hne, htail⟩ := ihElements hp
        refine ⟨(by rintro ⟨⟩), ?_⟩
        conv_lhs => rw [htext, ht, htail]
        rw [render_cons hne]
        simp
      · rename_i t' ht
        cases h
        refine ⟨(by rintro ⟨⟩), ?_⟩
        conv_lhs => rw [htext, ht]
        rw [Elements.render]
        simp
      · cases h
    · intro text members rest h
      rw [parseMembers] at h
      split at h
      · rename_i t ht
        obtain ⟨⟨key, t₁⟩, hk, h⟩ := Option.bind_eq_some_iff.mp h
        simp only at h
        split at h
        · rename_i t₂ ht₂
          obtain ⟨⟨value, t₃⟩, hv, h⟩ := Option.bind_eq_some_iff.mp h
          have htext : text = (gapOf text).1 ++ (34 :: (renderPieces key ++ 34 :: ((gapOf t₁).1 ++
              58 :: ((gapOf t₂).1 ++ (value.render ++ ((gapOf t₃).1 ++ skipGap t₃)))))) := by
            rw [gapOf_append t₃, ← ihValue hv, gapOf_append t₂, ← ht₂, gapOf_append t₁, ← parsePieces_render _ (Nat.le_refl _) hk,
              ← ht, gapOf_append]
          simp only at h
          split at h
          · rename_i t₄ ht₄
            obtain ⟨⟨members', r⟩, hp, he⟩ := Option.map_eq_some_iff.mp h
            cases he
            obtain ⟨hne, htail⟩ := ihMembers hp
            refine ⟨(by rintro ⟨⟩), ?_⟩
            conv_lhs => rw [htext, ht₄, htail]
            rw [render_members_cons hne, renderString]
            simp
          · rename_i t₄ ht₄
            cases h
            refine ⟨(by rintro ⟨⟩), ?_⟩
            conv_lhs => rw [htext, ht₄]
            rw [Members.render, renderString]
            simp
          · cases h
        · cases h
      · cases h

theorem parse_render {text : JsString} {before after : Gap} {tree : Tree} (h : parse text = some (before, tree, after)) :
    text = before.1 ++ tree.render ++ after.1 := by
  rw [parse] at h
  split at h
  · rename_i tree' rest hp
    split at h
    · cases h
      rw [List.append_assoc, ← (parseValue_render _).1 hp, gapOf_append]
    · cases h
  · cases h

/-! ## The fuel of a parse -/

theorem skipGap_length (text : JsString) : (skipGap text).length ≤ text.length := by
  have hlen := congrArg List.length (gapOf_append text)
  rw [List.length_append] at hlen
  omega

theorem parsePieces_length {text : JsString} {pieces : List Piece} {rest : JsString}
    (h : parsePieces text = some (pieces, rest)) : rest.length < text.length := by
  rw [parsePieces_render _ (Nat.le_refl _) h, List.length_append, List.length_cons]
  omega

theorem parseLiteral_length {l : Literal} {text : JsString} {tree : Tree} {rest : JsString}
    (h : parseLiteral l text = some (tree, rest)) : rest.length < text.length := by
  have hpos : 0 < l.render.length := by cases l <;> decide
  rw [parseLiteral] at h
  split at h
  · rename_i hp
    have hle := (List.isPrefixOf_iff_prefix.mp hp).length_le
    cases h
    rw [List.length_drop]
    omega
  · cases h

theorem digits_ne (h : digits text = some (ds, rest)) : ds ≠ [] := by
  rw [digits] at h
  split at h
  · cases h
  · rename_i hne
    cases h
    simpa using hne

theorem wholePart_ne (h : wholePart text = some (ds, rest)) : ds ≠ [] := by
  unfold wholePart at h
  split at h
  · cases h
    exact List.cons_ne_nil _ _
  · exact digits_ne h

theorem parseNumber_length {text : JsString} {token : NumberToken} {rest : JsString}
    (h : parseNumber text = some (token, rest)) : rest.length < text.length := by
  have hpos : 0 < token.1.length := by
    simp only [parseNumber] at h
    generalize (if text.head? = some 45 then [45] else [] : JsString) = sign at h
    obtain ⟨⟨whole, t₁⟩, h₁, h⟩ := Option.bind_eq_some_iff.mp h
    obtain ⟨⟨part, t₂⟩, h₂, h⟩ := Option.bind_eq_some_iff.mp h
    obtain ⟨⟨power, t₃⟩, h₃, h⟩ := Option.bind_eq_some_iff.mp h
    simp only at h₁ h₂ h₃ h
    split at h
    · cases h
      have hwhole := List.length_pos_iff.mpr (wholePart_ne h₁)
      simp only [List.length_append]
      omega
    · cases h
  have hlen := congrArg List.length (parseNumber_append h)
  rw [List.length_append] at hlen
  omega

/-- A parse takes something off the text, and as much fuel as it takes units off is enough for it. -/
theorem parseValue_fuel (fuel : Nat) :
    (∀ {text : JsString} {tree : Tree} {rest : JsString}, parseValue fuel text = some (tree, rest) →
      rest.length < text.length ∧
        ∀ fuel', text.length ≤ fuel' + rest.length → parseValue fuel' text = some (tree, rest)) ∧
    (∀ {text : JsString} {elements : Elements} {rest : JsString}, parseElements fuel text = some (elements, rest) →
      rest.length + 1 < text.length ∧
        ∀ fuel', text.length ≤ fuel' + rest.length → parseElements fuel' text = some (elements, rest)) ∧
    ∀ {text : JsString} {members : Members} {rest : JsString}, parseMembers fuel text = some (members, rest) →
      rest.length + 1 < text.length ∧
        ∀ fuel', text.length ≤ fuel' + rest.length → parseMembers fuel' text = some (members, rest) := by
  induction fuel with
  | zero =>
    refine ⟨?_, ?_, ?_⟩
    · intro text tree rest h
      cases text <;> cases h
    · intro text elements rest h
      cases h
    · intro text members rest h
      cases h
  | succ fuel ih =>
    obtain ⟨ihValue, ihElements, ihMembers⟩ := ih
    refine ⟨?_, ?_, ?_⟩
    · intro text tree rest h
      cases text with
      | nil => cases h
      | cons u t =>
        -- What the branches share: the rest is shorter, and one unit of fuel is left for the first unit of the text.
        have hfuel : ∀ {fuel'}, rest.length < (u :: t).length → (u :: t).length ≤ fuel' + rest.length →
            ∃ fuel'', fuel' = fuel'' + 1 ∧ t.length ≤ fuel'' + rest.length := by
          intro fuel' hlt hle
          rw [List.length_cons] at hlt hle
          exact ⟨fuel' - 1, by omega, by omega⟩
        by_cases hstring : u = 34
        · subst hstring
          rw [parseValue, if_pos rfl] at h
          obtain ⟨⟨pieces, r⟩, hp, he⟩ := Option.map_eq_some_iff.mp h
          simp only [Prod.mk.injEq] at he
          obtain ⟨rfl, rfl⟩ := he
          have hlt := parsePieces_length hp
          refine ⟨Nat.lt_succ_of_lt hlt, fun fuel' hle => ?_⟩
          obtain ⟨fuel'', rfl, -⟩ := hfuel (Nat.lt_succ_of_lt hlt) hle
          rw [parseValue, if_pos rfl, hp]
          rfl
        by_cases harray : u = 91
        · subst harray
          rw [parseValue, if_neg (by decide), if_pos rfl] at h
          split at h
          · rename_i t' ht
            cases h
            have hlt := skipGap_length t
            rw [ht, List.length_cons] at hlt
            refine ⟨by rw [List.length_cons]; omega, fun fuel' hle => ?_⟩
            obtain ⟨fuel'', rfl, -⟩ := hfuel (by rw [List.length_cons]; omega) hle
            rw [parseValue, if_neg (by decide), if_pos rfl]
            simp only [ht]
          · rename_i hopen
            obtain ⟨⟨elements, r⟩, hp, he⟩ := Option.map_eq_some_iff.mp h
            simp only [Prod.mk.injEq] at he
            obtain ⟨rfl, rfl⟩ := he
            obtain ⟨hlt, hmore⟩ := ihElements hp
            refine ⟨by rw [List.length_cons]; omega, fun fuel' hle => ?_⟩
            obtain ⟨fuel'', rfl, hle'⟩ := hfuel (by rw [List.length_cons]; omega) hle
            rw [parseValue, if_neg (by decide), if_pos rfl]
            split
            · exact absurd (by assumption) (hopen _)
            · rw [hmore _ hle']
              rfl
        by_cases hobject : u = 123
        · subst hobject
          rw [parseValue, if_neg (by decide), if_neg (by decide), if_pos rfl] at h
          split at h
          · rename_i t' ht
            cases h
            have hlt := skipGap_length t
            rw [ht, List.length_cons] at hlt
            refine ⟨by rw [List.length_cons]; omega, fun fuel' hle => ?_⟩
            obtain ⟨fuel'', rfl, -⟩ := hfuel (by rw [List.length_cons]; omega) hle
            rw [parseValue, if_neg (by decide), if_neg (by decide), if_pos rfl]
            simp only [ht]
          · rename_i hopen
            obtain ⟨⟨members, r⟩, hp, he⟩ := Option.map_eq_some_iff.mp h
            simp only [Prod.mk.injEq] at he
            obtain ⟨rfl, rfl⟩ := he
            obtain ⟨hlt, hmore⟩ := ihMembers hp
            refine ⟨by rw [List.length_cons]; omega, fun fuel' hle => ?_⟩
            obtain ⟨fuel'', rfl, hle'⟩ := hfuel (by rw [List.length_cons]; omega) hle
            rw [parseValue, if_neg (by decide), if_neg (by decide), if_pos rfl]
            split
            · exact absurd (by assumption) (hopen _)
            · rw [hmore _ hle']
              rfl
        -- The other branches use no fuel.
        rw [parseValue, if_neg hstring, if_neg harray, if_neg hobject] at h
        have hlt : rest.length < (u :: t).length := by
          split at h
          · exact parseLiteral_length h
          split at h
          · exact parseLiteral_length h
          split at h
          · exact parseLiteral_length h
          · obtain ⟨⟨token, r⟩, hp, he⟩ := Option.map_eq_some_iff.mp h
            simp only [Prod.mk.injEq] at he
            obtain ⟨rfl, rfl⟩ := he
            exact parseNumber_length hp
        refine ⟨hlt, fun fuel' hle => ?_⟩
        obtain ⟨fuel'', rfl, -⟩ := hfuel hlt hle
        rw [parseValue, if_neg hstring, if_neg harray, if_neg hobject]
        exact h
    · intro text elements rest h
      rw [parseElements] at h
      obtain ⟨⟨value, t⟩, hv, h⟩ := Option.bind_eq_some_iff.mp h
      obtain ⟨hltValue, hmoreValue⟩ := ihValue hv
      have hskip := skipGap_length text
      have hskip' := skipGap_length t
      simp only at h
      split at h
      · rename_i t' ht
        rw [ht, List.length_cons] at hskip'
        obtain ⟨⟨elements', r⟩, hp, he⟩ := Option.map_eq_some_iff.mp h
        simp only [Prod.mk.injEq] at he
        obtain ⟨rfl, rfl⟩ := he
        obtain ⟨hlt, hmore⟩ := ihElements hp
        refine ⟨by omega, fun fuel' hle => ?_⟩
        obtain ⟨fuel'', rfl⟩ : ∃ fuel'', fuel' = fuel'' + 1 := ⟨fuel' - 1, by omega⟩
        rw [parseElements, hmoreValue fuel'' (by omega)]
        simp only [Option.bind_eq_bind, Option.bind_some, ht, hmore fuel'' (by omega), Option.map_some]
      · rename_i t' ht
        rw [ht, List.length_cons] at hskip'
        cases h
        refine ⟨by omega, fun fuel' hle => ?_⟩
        obtain ⟨fuel'', rfl⟩ : ∃ fuel'', fuel' = fuel'' + 1 := ⟨fuel' - 1, by omega⟩
        rw [parseElements, hmoreValue fuel'' (by omega)]
        simp only [Option.bind_eq_bind, Option.bind_some, ht]
      · cases h
    · intro text members rest h
      rw [parseMembers] at h
      have hskip := skipGap_length text
      split at h
      · rename_i t ht
        rw [ht, List.length_cons] at hskip
        obtain ⟨⟨key, t₁⟩, hk, h⟩ := Option.bind_eq_some_iff.mp h
        have hkey := parsePieces_length hk
        have hskip₁ := skipGap_length t₁
        simp only at h
        split at h
        · rename_i t₂ ht₂
          rw [ht₂, List.length_cons] at hskip₁
          obtain ⟨⟨value, t₃⟩, hv, h⟩ := Option.bind_eq_some_iff.mp h
          obtain ⟨hltValue, hmoreValue⟩ := ihValue hv
          have hskip₂ := skipGap_length t₂
          have hskip₃ := skipGap_length t₃
          simp only at h
          split at h
          · rename_i t₄ ht₄
            rw [ht₄, List.length_cons] at hskip₃
            obtain ⟨⟨members', r⟩, hp, he⟩ := Option.map_eq_some_iff.mp h
            simp only [Prod.mk.injEq] at he
            obtain ⟨rfl, rfl⟩ := he
            obtain ⟨hlt, hmore⟩ := ihMembers hp
            refine ⟨by omega, fun fuel' hle => ?_⟩
            obtain ⟨fuel'', rfl⟩ : ∃ fuel'', fuel' = fuel'' + 1 := ⟨fuel' - 1, by omega⟩
            simp only [parseMembers, ht, hk, ht₂, hmoreValue fuel'' (by omega), ht₄, hmore fuel'' (by omega),
              Option.bind_eq_bind, Option.bind_some, Option.map_some]
          · rename_i t₄ ht₄
            rw [ht₄, List.length_cons] at hskip₃
            cases h
            refine ⟨by omega, fun fuel' hle => ?_⟩
            obtain ⟨fuel'', rfl⟩ : ∃ fuel'', fuel' = fuel'' + 1 := ⟨fuel' - 1, by omega⟩
            simp only [parseMembers, ht, hk, ht₂, hmoreValue fuel'' (by omega), ht₄, Option.bind_eq_bind, Option.bind_some]
          · cases h
        · cases h
      · cases h

theorem parse_complete {text : JsString} {fuel : Nat} {tree : Tree} {after : Gap}
    (h : parseValue fuel (skipGap text) = some (tree, after.1)) : parse text = some (gapOf text, tree, after) := by
  have hlen := skipGap_length text
  have henough := ((parseValue_fuel fuel).1 h).2 (text.length + 1) (by omega)
  rw [parse, henough]
  simp only [after.2, dite_true]

end Lib.JsonText
