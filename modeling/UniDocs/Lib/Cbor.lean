import UniDocs.Lib.Bytes

/-!
# CBOR data items

The part of RFC 8949 that a codec with text keys needs: tokens and their shortest encodings, data items as sequences of
tokens, the deterministic order of map entries, and what a decoder builds from the tokens it is given. A decoder is
described against an item: `pull` reads the tokens of that item one by one and says what must come out of it.
-/

namespace Lib.Cbor

/-! ## Floats -/

/-- The double that a narrower binary float denotes, both as bit patterns: `eb` exponent bits and `mb` mantissa bits. -/
def widen (eb mb x : Nat) : Nat :=
  let sign := x / 2 ^ (eb + mb) * 2 ^ 63
  let exponent := x / 2 ^ mb % 2 ^ eb
  let mantissa := x % 2 ^ mb
  let bias := 2 ^ (eb - 1) - 1
  if exponent = 2 ^ eb - 1 then sign + 2047 * 2 ^ 52 + mantissa * 2 ^ (52 - mb)
  else if exponent = 0 then
    if mantissa = 0 then sign
    else
      let lead := mantissa.log2
      sign + (lead + 1024 - bias - mb) * 2 ^ 52 + (mantissa - 2 ^ lead) * 2 ^ (52 - lead)
  else sign + (exponent + 1023 - bias) * 2 ^ 52 + mantissa * 2 ^ (52 - mb)

/-- The narrower float that denotes a double exactly, where there is one. -/
def narrow (eb mb bits : Nat) : Option Nat :=
  let sign := bits / 2 ^ 63 * 2 ^ (eb + mb)
  let exponent := bits / 2 ^ 52 % 2 ^ 11
  let mantissa := bits % 2 ^ 52
  let bias := 2 ^ (eb - 1) - 1
  let candidate :=
    if 1024 - bias ≤ exponent then sign + (exponent + bias - 1023) * 2 ^ mb + mantissa / 2 ^ (52 - mb)
    else sign + (2 ^ 52 + mantissa) / 2 ^ (1024 - bias - exponent + (52 - mb))
  if candidate < 2 ^ (1 + eb + mb) ∧ widen eb mb candidate = bits then some candidate else none

/-- The shortest of the three float encodings that keeps the value. -/
def floatBytes (bits : Nat) : List UInt8 :=
  match narrow 5 10 bits with
  | some half => 0xf9 :: bytesBE 2 half
  | none =>
    match narrow 8 23 bits with
    | some single => 0xfa :: bytesBE 4 single
    | none => 0xfb :: bytesBE 8 bits

/-- The bit pattern of a finite double that is not an integer. -/
def IsFraction (bits : Nat) : Prop :=
  bits < 2 ^ 64 ∧
    (bits / 2 ^ 52 % 2 ^ 11 < 1023 ∧ bits % 2 ^ 63 ≠ 0 ∨
      1023 ≤ bits / 2 ^ 52 % 2 ^ 11 ∧ bits / 2 ^ 52 % 2 ^ 11 < 1075 ∧
        bits % 2 ^ 52 % 2 ^ (1075 - bits / 2 ^ 52 % 2 ^ 11) ≠ 0)

instance (bits : Nat) : Decidable (IsFraction bits) := inferInstanceAs (Decidable (_ ∧ _))

/-! ## Tokens -/

/-- The head of a data item, or a data item without content. A float is given by the bit pattern of its double. -/
inductive Token where
  | int (value : Int)
  | bytes (value : List UInt8)
  | text (value : String)
  | array (length : Nat)
  | map (length : Nat)
  | tag (number : Nat)
  | bool (value : Bool)
  | null
  | float (bits : Nat)
  deriving DecidableEq, Repr

/-- A head: three bits of major type and the argument in its shortest form. -/
def head (major argument : Nat) : List UInt8 :=
  if argument < 24 then [UInt8.ofNat (32 * major + argument)]
  else if argument < 2 ^ 8 then UInt8.ofNat (32 * major + 24) :: bytesBE 1 argument
  else if argument < 2 ^ 16 then UInt8.ofNat (32 * major + 25) :: bytesBE 2 argument
  else if argument < 2 ^ 32 then UInt8.ofNat (32 * major + 26) :: bytesBE 4 argument
  else UInt8.ofNat (32 * major + 27) :: bytesBE 8 argument

/-- The bytes of a token. -/
def Token.encode : Token → List UInt8
  | .int value => if 0 ≤ value then head 0 value.toNat else head 1 (-1 - value).toNat
  | .bytes value => head 2 value.length ++ value
  | .text value => head 3 (utf8 value).length ++ utf8 value
  | .array length => head 4 length
  | .map length => head 5 length
  | .tag number => head 6 number
  | .bool false => [0xf4]
  | .bool true => [0xf5]
  | .null => [0xf6]
  | .float bits => floatBytes bits

/-- A token whose numbers a JavaScript decoder holds exactly. -/
def Token.Valid : Token → Prop
  | .int value => -(2 ^ 53) < value ∧ value < 2 ^ 53
  | .bytes value => value.length < 2 ^ 53
  | .text value => (utf8 value).length < 2 ^ 53
  | .array length => length < 2 ^ 53
  | .map length => length < 2 ^ 53
  | .tag number => number < 2 ^ 53
  | .float bits => IsFraction bits
  | .bool _ | .null => True

/-! ## Items -/

/-- A data item; the keys of maps are texts. -/
inductive Item where
  | int (value : Int)
  | bytes (value : List UInt8)
  | text (value : String)
  | array (items : List Item)
  | map (entries : List (String × Item))
  | tag (number : Nat) (content : Item)
  | bool (value : Bool)
  | null
  | float (bits : Nat)

mutual
/-- The tokens of an item, in the order of its entries. -/
def Item.tokens : Item → List Token
  | .int value => [.int value]
  | .bytes value => [.bytes value]
  | .text value => [.text value]
  | .array items => .array items.length :: tokensOfItems items
  | .map entries => .map entries.length :: tokensOfEntries entries
  | .tag number content => .tag number :: content.tokens
  | .bool value => [.bool value]
  | .null => [.null]
  | .float bits => [.float bits]
def tokensOfItems : List Item → List Token
  | [] => []
  | item :: items => item.tokens ++ tokensOfItems items
def tokensOfEntries : List (String × Item) → List Token
  | [] => []
  | (key, item) :: entries => .text key :: item.tokens ++ tokensOfEntries entries
end

/-- Bytewise lexicographic order. -/
def lexLt : List UInt8 → List UInt8 → Prop
  | _, [] => False
  | [], _ :: _ => True
  | a :: l, b :: r => a < b ∨ a = b ∧ lexLt l r

/-- The deterministic order of map keys: bytewise on their encodings. -/
def keyLt (key key' : String) : Prop := lexLt (Token.encode (.text key)) (Token.encode (.text key'))

mutual
/-- Every map of the item lists its entries in the deterministic order, without repetition. -/
def Item.Canonical : Item → Prop
  | .array items => canonicalItems items
  | .map entries => entries.Pairwise (fun e e' => keyLt e.1 e'.1) ∧ canonicalEntries entries
  | .tag _ content => content.Canonical
  | _ => True
def canonicalItems : List Item → Prop
  | [] => True
  | item :: items => item.Canonical ∧ canonicalItems items
def canonicalEntries : List (String × Item) → Prop
  | [] => True
  | (_, item) :: entries => item.Canonical ∧ canonicalEntries entries
end

/-- The deterministic encoding of a canonical item: its tokens one after the other. -/
def encodeTokens (tokens : List Token) : List UInt8 := tokens.flatMap Token.encode

@[simp] theorem encodeTokens_nil : encodeTokens [] = [] := rfl

@[simp] theorem encodeTokens_cons (token : Token) (tokens : List Token) :
    encodeTokens (token :: tokens) = token.encode ++ encodeTokens tokens := rfl

@[simp] theorem encodeTokens_append (tokens tokens' : List Token) :
    encodeTokens (tokens ++ tokens') = encodeTokens tokens ++ encodeTokens tokens' :=
  List.flatMap_append

/-- A head is never empty. -/
theorem length_head_pos (major argument : Nat) : 1 ≤ (head major argument).length := by
  rw [head]
  split_ifs <;> simp

theorem length_head_le (major argument : Nat) : (head major argument).length ≤ 9 := by
  rw [head]
  split_ifs <;> simp

theorem length_encode_pos (token : Token) : 1 ≤ token.encode.length := by
  cases token with
  | int value =>
    simp only [Token.encode]
    split_ifs
    · exact length_head_pos _ _
    · exact length_head_pos _ _
  | bytes value =>
    have h := length_head_pos 2 value.length
    simp only [Token.encode, List.length_append]
    omega
  | text value =>
    have h := length_head_pos 3 (utf8 value).length
    simp only [Token.encode, List.length_append]
    omega
  | array length => exact length_head_pos _ _
  | map length => exact length_head_pos _ _
  | tag number => exact length_head_pos _ _
  | bool value => cases value <;> exact Nat.le_refl _
  | null => exact Nat.le_refl _
  | float bits =>
    simp only [Token.encode, floatBytes]
    split
    · simp
    · split <;> simp

theorem length_le_encodeTokens (tokens : List Token) : tokens.length ≤ (encodeTokens tokens).length := by
  induction tokens with
  | nil => exact Nat.le_refl _
  | cons token tokens ih =>
    have h := length_encode_pos token
    rw [encodeTokens_cons, List.length_append, List.length_cons]
    omega

/-! ## Decoding -/

/-- What a decoder builds; `custom` is what the decoder of a tag returns. -/
inductive Decoded (τ : Type) where
  | int (value : Int)
  | bytes (value : List UInt8)
  | text (value : String)
  | array (items : List (Decoded τ))
  | map (entries : List (Decoded τ × Decoded τ))
  | bool (value : Bool)
  | null
  | float (bits : Nat)
  | custom (value : τ)

section Pull

variable {σ ε τ : Type} (next : σ → Except ε (Token × σ)) (onTag : Nat → Option (Decoded τ → σ → Except ε (Decoded τ × σ)))

/-- One call of the tokenizer that must give a certain token: its error is the result, another token says nothing. -/
def expect {α : Type} (token : Token) (k : σ → Option (Except ε (α × σ))) (s : σ) : Option (Except ε (α × σ)) :=
  match next s with
  | .error e => some (.error e)
  | .ok (token', s') => if token' = token then k s' else none

/-- Goes on after a part that was read. -/
def andThen {α β : Type} (part : Option (Except ε (α × σ))) (k : α → σ → Option (Except ε (β × σ))) :
    Option (Except ε (β × σ)) :=
  match part with
  | none => none
  | some (.error e) => some (.error e)
  | some (.ok (a, s)) => k a s

mutual
/-- What a decoder returns that is given the tokens of an item: the tokenizer is called once for each of them, its errors
are passed on, and the decoder of a tag is called on the decoded content. -/
def pull : Item → σ → Option (Except ε (Decoded τ × σ))
  | .int value, s => expect next (.int value) (fun s => some (.ok (.int value, s))) s
  | .bytes value, s => expect next (.bytes value) (fun s => some (.ok (.bytes value, s))) s
  | .text value, s => expect next (.text value) (fun s => some (.ok (.text value, s))) s
  | .bool value, s => expect next (.bool value) (fun s => some (.ok (.bool value, s))) s
  | .null, s => expect next .null (fun s => some (.ok (.null, s))) s
  | .float bits, s => expect next (.float bits) (fun s => some (.ok (.float bits, s))) s
  | .array items, s =>
    expect next (.array items.length) (fun s => andThen (pullItems items s) fun vs s => some (.ok (.array vs, s))) s
  | .map entries, s =>
    expect next (.map entries.length) (fun s => andThen (pullEntries entries s) fun vs s => some (.ok (.map vs, s))) s
  | .tag number content, s =>
    match onTag number with
    | none => none
    | some decodeTag => expect next (.tag number) (fun s => andThen (pull content s) fun v s => some (decodeTag v s)) s
def pullItems : List Item → σ → Option (Except ε (List (Decoded τ) × σ))
  | [], s => some (.ok ([], s))
  | item :: items, s =>
    andThen (pull item s) fun v s => andThen (pullItems items s) fun vs s => some (.ok (v :: vs, s))
def pullEntries : List (String × Item) → σ → Option (Except ε (List (Decoded τ × Decoded τ) × σ))
  | [], s => some (.ok ([], s))
  | (key, item) :: entries, s =>
    expect next (.text key) (fun s =>
      andThen (pull item s) fun v s => andThen (pullEntries entries s) fun vs s => some (.ok ((.text key, v) :: vs, s))) s
end

end Pull

end Lib.Cbor
