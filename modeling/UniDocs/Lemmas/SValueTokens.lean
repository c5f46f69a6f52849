import UniDocs.Lemmas.SValueCanonical

/-!
# The bounded tokenizer

The decoder counts tokens where the encoder counts values, and keeps a stack of remaining children where the encoder passes
a depth. Here the stack is related to the depth: after the finished counts are popped it is as high as the next token is
deep. From that follows which values the tokenizer lets through: besides what the encoder checks, the tokens must not be
too many, and an SBlob, which is a tag over a byte string, needs room for one more level and for its 32 bytes.
-/

namespace UniDocs.SValueCodec

open Lib Lib.Cbor UniDocs.Cas UniDocs.Codec

/-! ## Tokens and depths -/

mutual
/-- The number of tokens of a value: keys count, and an SBlob is a tag and a byte string. -/
def SValue.tokenCount : SValue → Nat
  | .sblob _ => 2
  | .array items => 1 + tokenCountOfItems items
  | .object properties => 1 + tokenCountOfProperties properties
  | _ => 1
def tokenCountOfItems : List SValue → Nat
  | [] => 0
  | item :: items => item.tokenCount + tokenCountOfItems items
def tokenCountOfProperties : List (String × SValue) → Nat
  | [] => 0
  | (_, value) :: properties => 1 + value.tokenCount + tokenCountOfProperties properties
end

mutual
/-- The depth of every SBlob of a value that stands at this depth itself. -/
def SValue.blobDepths : SValue → Nat → List Nat
  | .sblob _, depth => [depth]
  | .array items, depth => blobDepthsOfItems items (depth + 1)
  | .object properties, depth => blobDepthsOfProperties properties (depth + 1)
  | _, _ => []
def blobDepthsOfItems : List SValue → Nat → List Nat
  | [], _ => []
  | item :: items, depth => item.blobDepths depth ++ blobDepthsOfItems items depth
def blobDepthsOfProperties : List (String × SValue) → Nat → List Nat
  | [], _ => []
  | (_, value) :: properties, depth => value.blobDepths depth ++ blobDepthsOfProperties properties depth
end

/-- What the library builds for a number. -/
def decodedNumber : JsNumber → Decoded BlobHash
  | .integral value => .int value
  | .fractional bits => .float bits.val
  | .negativeZero => .float (2 ^ 63)
  | .notFinite => .float (0x7ff8 * 2 ^ 48)

mutual
/-- What the library builds for a value. -/
def SValue.decoded : SValue → Decoded BlobHash
  | .null => .null
  | .bool value => .bool value
  | .number value => decodedNumber value
  | .string value => .text value
  | .sblob hash => .custom hash
  | .array items => .array (decodedItems items)
  | .object properties => .map (decodedProperties properties)
def decodedItems : List SValue → List (Decoded BlobHash)
  | [] => []
  | item :: items => item.decoded :: decodedItems items
def decodedProperties : List (String × SValue) → List (Decoded BlobHash × Decoded BlobHash)
  | [] => []
  | (key, value) :: properties => (.text key, value.decoded) :: decodedProperties properties
end

/-! ## The head of a token -/

/-- The declared length of a token is within its limit. -/
def HeadFits (limits : SValueCodecLimits) : Token → Prop
  | .bytes value => value.length ≤ limits.maxByteStringBytes
  | .text value => (utf8 value).length ≤ limits.maxStringBytes
  | .array length => length ≤ limits.maxArrayLength
  | .map length => length ≤ limits.maxMapEntries
  | _ => True

theorem readCborArgument_head {major argument : Nat} {initial : UInt8} {tail : Bytes} (hmajor : major < 8)
    (harg : argument < 2 ^ 53) (hhead : head major argument = initial :: tail) (before after : Bytes) :
    initial.toNat / 32 = major ∧
      readCborArgument (before ++ initial :: tail ++ after) before.length (initial.toNat % 32) = .ok (some argument) := by
  obtain ⟨initial', tail', hhead', hdiv, hcases⟩ := head_spec hmajor (by omega : argument < 2 ^ 64)
  rw [hhead] at hhead'
  obtain ⟨rfl, rfl⟩ := List.cons.inj hhead'
  refine ⟨hdiv, ?_⟩
  rcases hcases with ⟨hmod, hlt, rfl⟩ | ⟨hge, hlt, hlen, hval⟩
  · rw [readCborArgument, if_pos (by omega), hmod]
  · have hwidth : (if initial.toNat % 32 = 24 then 1 else if initial.toNat % 32 = 25 then 2
        else if initial.toNat % 32 = 26 then 4 else if initial.toNat % 32 = 27 then 8 else 0) = tail.length := by
      rw [hlen, argumentWidth]
    have hpos : tail.length ≠ 0 := by
      rw [hlen, argumentWidth]
      split_ifs <;> omega
    have hlong : ¬ (tail.length = 0 ∨ (before ++ initial :: tail ++ after).length < before.length + 1 + tail.length) := by
      simp only [List.length_append, List.length_cons]
      omega
    have hslice : ((before ++ initial :: tail ++ after).drop (before.length + 1)).take tail.length = tail := by
      rw [List.append_assoc, ← List.drop_drop, List.drop_left, List.cons_append, List.drop_succ_cons, List.drop_zero,
        List.take_left]
    have hsafe : ¬ (tail.length = 8 ∧ maxSafeInteger < argument) := by
      simp only [maxSafeInteger]
      omega
    rw [readCborArgument, if_neg (by omega)]
    simp only [hwidth, if_neg hlong, hslice, hval, if_neg hsafe]

theorem getElem?_before (before : Bytes) (initial : UInt8) (rest : Bytes) :
    (before ++ initial :: rest)[before.length]? = some initial := by
  simp

theorem preflightHead_head (limits : SValueCodecLimits) (major : Nat) {argument : Nat} (hlo : 2 ≤ major) (hhi : major ≤ 5)
    (harg : argument < 2 ^ 53) (before after : Bytes) :
    (preflightHead limits (before ++ head major argument ++ after) before.length = .ok () ∧
        ¬ (major = 2 ∧ limits.maxByteStringBytes < argument) ∧ ¬ (major = 3 ∧ limits.maxStringBytes < argument)
        ∧ ¬ (major = 4 ∧ limits.maxArrayLength < argument) ∧ ¬ (major = 5 ∧ limits.maxMapEntries < argument)) ∨
      ((∃ e, preflightHead limits (before ++ head major argument ++ after) before.length = .error e) ∧
        ((major = 2 ∧ limits.maxByteStringBytes < argument) ∨ (major = 3 ∧ limits.maxStringBytes < argument)
        ∨ (major = 4 ∧ limits.maxArrayLength < argument) ∨ (major = 5 ∧ limits.maxMapEntries < argument))) := by
  obtain ⟨initial, tail, hhead, _⟩ := head_spec (by omega : major < 8) (by omega : argument < 2 ^ 64)
  obtain ⟨hdiv, hread⟩ := readCborArgument_head (by omega) harg hhead before after
  have hget : (before ++ initial :: tail ++ after)[before.length]? = some initial := by
    rw [List.append_assoc]
    exact getElem?_before before initial (tail ++ after)
  rw [hhead]
  have hchecked : ¬ (major < 2 ∨ 5 < major) := by omega
  simp only [preflightHead, hget, hdiv, if_neg hchecked, hread, bind, Except.bind, fail]
  split_ifs with h2 h3 h4 h5
  · exact Or.inr ⟨⟨_, rfl⟩, Or.inl h2⟩
  · exact Or.inr ⟨⟨_, rfl⟩, Or.inr (Or.inl h3)⟩
  · exact Or.inr ⟨⟨_, rfl⟩, Or.inr (Or.inr (Or.inl h4))⟩
  · exact Or.inr ⟨⟨_, rfl⟩, Or.inr (Or.inr (Or.inr h5))⟩
  · exact Or.inl ⟨rfl, h2, h3, h4, h5⟩

variable {limits : SValueCodecLimits}

/-- A head of another major type is not checked. -/
theorem preflightHead_other {initial : UInt8} {rest before : Bytes}
    (h : initial.toNat / 32 < 2 ∨ 5 < initial.toNat / 32) :
    preflightHead limits (before ++ initial :: rest) before.length = .ok () := by
  simp only [preflightHead, getElem?_before, if_pos h]
  rfl

theorem preflightHead_token (limits : SValueCodecLimits) {token : Token} (hvalid : token.Valid) (before after : Bytes) :
    (preflightHead limits (before ++ token.encode ++ after) before.length = .ok () ∧ HeadFits limits token) ∨
      ((∃ e, preflightHead limits (before ++ token.encode ++ after) before.length = .error e) ∧ ¬ HeadFits limits token) := by
  have hother : ∀ {major argument : Nat}, major < 8 → argument < 2 ^ 64 → (major < 2 ∨ 5 < major) →
      preflightHead limits (before ++ head major argument ++ after) before.length = .ok () := by
    intro major argument hmajor harg hout
    obtain ⟨initial, tail, hhead, hdiv, _⟩ := head_spec hmajor harg
    rw [hhead, List.append_assoc]
    exact preflightHead_other (by omega)
  have hbyte : ∀ {initial : UInt8} {rest : Bytes}, 5 < initial.toNat / 32 →
      preflightHead limits (before ++ initial :: rest ++ after) before.length = .ok () := by
    intro initial rest hbig
    rw [List.append_assoc]
    exact preflightHead_other (Or.inr hbig)
  cases token with
  | int value =>
    obtain ⟨hlo, hhi⟩ := hvalid
    refine Or.inl ⟨?_, trivial⟩
    simp only [Token.encode]
    split_ifs
    · exact hother (by omega) (by omega) (by omega)
    · exact hother (by omega) (by omega) (by omega)
  | bytes value =>
    simp only [Token.encode, HeadFits, Token.Valid] at hvalid ⊢
    rw [← List.append_assoc, List.append_assoc (before ++ head 2 value.length)]
    rcases preflightHead_head limits 2 (by omega) (by omega) hvalid before (value ++ after) with ⟨h, hfits⟩ | ⟨h, hfits⟩
    · exact Or.inl ⟨h, by omega⟩
    · exact Or.inr ⟨h, by omega⟩
  | text value =>
    simp only [Token.encode, HeadFits, Token.Valid] at hvalid ⊢
    rw [← List.append_assoc, List.append_assoc (before ++ head 3 (utf8 value).length)]
    rcases preflightHead_head limits 3 (by omega) (by omega) hvalid before (utf8 value ++ after) with ⟨h, hfits⟩ | ⟨h, hfits⟩
    · exact Or.inl ⟨h, by omega⟩
    · exact Or.inr ⟨h, by omega⟩
  | array length =>
    simp only [Token.encode, HeadFits, Token.Valid] at hvalid ⊢
    rcases preflightHead_head limits 4 (by omega) (by omega) hvalid before after with ⟨h, hfits⟩ | ⟨h, hfits⟩
    · exact Or.inl ⟨h, by omega⟩
    · exact Or.inr ⟨h, by omega⟩
  | map length =>
    simp only [Token.encode, HeadFits, Token.Valid] at hvalid ⊢
    rcases preflightHead_head limits 5 (by omega) (by omega) hvalid before after with ⟨h, hfits⟩ | ⟨h, hfits⟩
    · exact Or.inl ⟨h, by omega⟩
    · exact Or.inr ⟨h, by omega⟩
  | tag number =>
    simp only [Token.encode, Token.Valid] at hvalid ⊢
    exact Or.inl ⟨hother (by omega) (by omega) (by omega), trivial⟩
  | bool value =>
    cases value
    · exact Or.inl ⟨hbyte (by decide), trivial⟩
    · exact Or.inl ⟨hbyte (by decide), trivial⟩
  | null => exact Or.inl ⟨hbyte (by decide), trivial⟩
  | float bits =>
    refine Or.inl ⟨?_, trivial⟩
    simp only [Token.encode, floatBytes]
    split
    · exact hbyte (by decide)
    · split
      · exact hbyte (by decide)
      · exact hbyte (by decide)

/-! ## One token -/

@[simp] theorem length_countChild (remaining : List Nat) : (countChild remaining).length = remaining.length := by
  cases remaining <;> rfl

@[simp] theorem popFinished_succ (n : Nat) (remaining : List Nat) : popFinished ((n + 1) :: remaining) = (n + 1) :: remaining :=
  rfl

@[simp] theorem popFinished_zero (remaining : List Nat) : popFinished (0 :: remaining) = popFinished remaining := rfl

/-- The stack after a token: the children it announces become the innermost count. -/
def pushChildren (token : Token) (remaining : List Nat) : List Nat :=
  if 0 < childrenOf token then childrenOf token :: remaining else remaining

/-- The tokenizer lets a token through. -/
def TokenFits (limits : SValueCodecLimits) (state : DecodeState) (token : Token) : Prop :=
  HeadFits limits token ∧ state.values + 1 ≤ limits.maxValues
    ∧ (0 < childrenOf token → (popFinished state.remaining).length < limits.maxDepth)

/-- The state after a token. -/
def DecodeState.after (state : DecodeState) (token : Token) : DecodeState :=
  { state with
    pos := state.pos + token.encode.length
    values := state.values + 1
    remaining := pushChildren token (countChild (popFinished state.remaining)) }

variable {state : DecodeState}

theorem boundedNext_token {cborg : Cborg} (hrfc : cborg.Rfc8949) (limits : SValueCodecLimits) {token : Token} (hvalid : token.Valid) {data before after : Bytes}
    (hdata : data = before ++ token.encode ++ after) (hpos : state.pos = before.length) :
    (TokenFits limits state token ∧ boundedNext cborg limits data state = .ok (token, state.after token)) ∨
      (¬ TokenFits limits state token ∧ ∃ e, boundedNext cborg limits data state = .error e) := by
  have hnext := hrfc.next_token before after token hvalid
  rcases preflightHead_token limits hvalid before after with ⟨hpre, hhead⟩ | ⟨⟨e, hpre⟩, hhead⟩
  case inr =>
    refine Or.inr ⟨fun h => hhead h.1, e, ?_⟩
    rw [boundedNext, hdata, hpos, hpre]
    rfl
  by_cases hvalues : state.values + 1 ≤ limits.maxValues
  case neg =>
    refine Or.inr ⟨fun h => hvalues h.2.1, ?_⟩
    have hlt : limits.maxValues < state.values + 1 := by omega
    simp only [boundedNext, hdata, hpos, hpre, if_pos hlt, bind, Except.bind, fail]
    exact ⟨_, rfl⟩
  have hlt : ¬ limits.maxValues < state.values + 1 := by omega
  by_cases hchildren : 0 < childrenOf token
  · by_cases hdepth : (popFinished state.remaining).length < limits.maxDepth
    · refine Or.inl ⟨⟨hhead, hvalues, fun _ => hdepth⟩, ?_⟩
      have hroom : ¬ limits.maxDepth ≤ (popFinished state.remaining).length := by omega
      simp only [boundedNext, hdata, hpos, hpre, hnext, if_neg hlt, if_pos hchildren, length_countChild, if_neg hroom, bind,
        Except.bind, pure, Except.pure, DecodeState.after, pushChildren]
    · refine Or.inr ⟨fun h => hdepth (h.2.2 hchildren), ?_⟩
      have hfull : limits.maxDepth ≤ (popFinished state.remaining).length := by omega
      simp only [boundedNext, hdata, hpos, hpre, hnext, if_neg hlt, if_pos hchildren, length_countChild, if_pos hfull, bind,
        Except.bind, fail]
      exact ⟨_, rfl⟩
  · refine Or.inl ⟨⟨hhead, hvalues, fun h => absurd h hchildren⟩, ?_⟩
    simp only [boundedNext, hdata, hpos, hpre, hnext, if_neg hlt, if_neg hchildren, bind, Except.bind, pure, Except.pure,
      DecodeState.after, pushChildren]

/-! ## Outcomes -/

/-- A part is read with this value into a state as described when it fits, and otherwise the decode ends in an error. -/
def Outcome {α : Type} (part : Option (Except Failure (α × DecodeState))) (value : α) (post : DecodeState → Prop)
    (fits : Prop) : Prop :=
  (fits ∧ ∃ state, part = some (.ok (value, state)) ∧ post state) ∨ (¬ fits ∧ ∃ e, part = some (.error e))

theorem Outcome.ok {α : Type} {value : α} {post : DecodeState → Prop} {fits : Prop} (hfits : fits)
    (hpost : post state) : Outcome (some (.ok (value, state))) value post fits :=
  Or.inl ⟨hfits, state, rfl, hpost⟩

theorem Outcome.imp {α : Type} {part : Option (Except Failure (α × DecodeState))} {value : α}
    {post post' : DecodeState → Prop} {fits fits' : Prop} (h : Outcome part value post fits)
    (hpost : ∀ state, post state → post' state) (hfits : fits ↔ fits') : Outcome part value post' fits' := by
  rcases h with ⟨hf, state, hpart, hp⟩ | ⟨hf, herr⟩
  · exact Or.inl ⟨hfits.mp hf, state, hpart, hpost state hp⟩
  · exact Or.inr ⟨fun h => hf (hfits.mpr h), herr⟩

theorem Outcome.andThen {α β : Type} {part : Option (Except Failure (α × DecodeState))}
    {k : α → DecodeState → Option (Except Failure (β × DecodeState))} {value : α} {result : β}
    {post post' : DecodeState → Prop} {fits fits' : Prop} (h : Outcome part value post fits)
    (hk : ∀ state, post state → Outcome (k value state) result post' fits') :
    Outcome (Cbor.andThen part k) result post' (fits ∧ fits') := by
  rcases h with ⟨hf, state, rfl, hp⟩ | ⟨hf, e, rfl⟩
  · rcases hk state hp with ⟨hf', state', hpart, hp'⟩ | ⟨hf', e, hpart⟩
    · exact Or.inl ⟨⟨hf, hf'⟩, state', hpart, hp'⟩
    · exact Or.inr ⟨fun h => hf' h.2, e, hpart⟩
  · exact Or.inr ⟨fun h => hf h.1, e, rfl⟩

/-- A part followed by something that cannot fail. -/
theorem Outcome.andThen_ok {α β : Type} {part : Option (Except Failure (α × DecodeState))}
    {k : α → DecodeState → Option (Except Failure (β × DecodeState))} {value : α} {result : β}
    {post post' : DecodeState → Prop} {fits : Prop} (h : Outcome part value post fits)
    (hk : ∀ state, post state → ∃ state', k value state = some (.ok (result, state')) ∧ post' state') :
    Outcome (Cbor.andThen part k) result post' fits := by
  rcases h with ⟨hf, state, rfl, hp⟩ | ⟨hf, e, rfl⟩
  · obtain ⟨state', hstate, hp'⟩ := hk state hp
    exact Or.inl ⟨hf, state', hstate, hp'⟩
  · exact Or.inr ⟨hf, e, rfl⟩

theorem Outcome.expect {α : Type} {cborg : Cborg} (hrfc : cborg.Rfc8949) {token : Token}
    (hvalid : token.Valid) {data before after : Bytes} (hdata : data = before ++ token.encode ++ after)
    (hpos : state.pos = before.length) {k : DecodeState → Option (Except Failure (α × DecodeState))} {value : α}
    {post : DecodeState → Prop} {fits : Prop} (hk : Outcome (k (state.after token)) value post fits) :
    Outcome (Cbor.expect (boundedNext cborg limits data) token k state) value post (TokenFits limits state token ∧ fits) := by
  rcases boundedNext_token hrfc limits hvalid hdata hpos with ⟨hfits, hnext⟩ | ⟨hfits, e, hnext⟩
  · simp only [Cbor.expect, hnext, if_true]
    exact hk.imp (fun _ h => h) ⟨fun h => ⟨hfits, h⟩, fun h => h.2⟩
  · simp only [Cbor.expect, hnext]
    exact Or.inr ⟨fun h => hfits h.1, e, rfl⟩

/-- How far a part of the data has been read: its bytes, its tokens, its refs, and the counts that remain. -/
structure Reached (state : DecodeState) (length count : Nat) (refs : List Hash) (remaining : List Nat)
    (state' : DecodeState) : Prop where
  pos : state'.pos = state.pos + length
  values : state'.values = state.values + count
  refs : state'.refs = state.refs ++ refs
  remaining : popFinished state'.remaining = popFinished remaining

/-- There is room for an SBlob at a depth: for its tag, and for the bytes of its hash. -/
def RoomForBlob (limits : SValueCodecLimits) (depth : Nat) : Prop := depth < limits.maxDepth ∧ 32 ≤ limits.maxByteStringBytes

theorem SValue.Fits.depth_le {value : SValue} {depth : Nat} (h : value.Fits limits depth) :
    depth ≤ limits.maxDepth := by
  cases value with
  | null => exact h
  | bool _ => exact h
  | sblob _ => exact h
  | number _ => exact h.1
  | string _ => exact h.1
  | array _ => exact h.1
  | object _ => exact h.1

/-! ## Values -/

theorem decodeSBlob_hash {hash : BlobHash}
    (hroom : state.refs.length + 1 ≤ limits.maxRefs) :
    decodeSBlob limits (.bytes (hexToBytes hash.val)) state =
      .ok (.custom hash, { state with refs := state.refs ++ [hash.val] }) := by
  have hlen := length_hexToBytes hash
  have hchars : hash.val.toList.length = 2 * 32 := by
    rw [String.length_toList]
    exact hash.property.1
  have hback : bytesToHex (hexToBytes hash.val) = hash.val := by
    rw [bytesToHex, hexToBytes, flatMap_byteHex_hexBytes 32 _ hchars hash.property.2, String.ofList_toList]
  have hfew : ¬ limits.maxRefs < (state.refs ++ [hash.val]).length := by
    rw [List.length_append, List.length_singleton]
    omega
  have hblob : createSBlob hash.val = .ok hash := by rw [createSBlob, dif_pos hash.property]
  simp only [decodeSBlob, hlen, ne_eq, not_true_eq_false, if_false, hback, if_neg hfew, hblob, bind, Except.bind, pure,
    Except.pure]

section Pull

variable {cborg : Cborg} {limits : SValueCodecLimits}

section Tokens

variable (hrfc : cborg.Rfc8949)
include hrfc

theorem outcome_token (token : Token) (hvalid : token.Valid) (hchildren : childrenOf token = 0) {data before after : Bytes}
    {state : DecodeState} (hdata : data = before ++ token.encode ++ after) (hpos : state.pos = before.length)
    {value : Decoded BlobHash} :
    Outcome (Cbor.expect (boundedNext cborg limits data) token (fun s => some (.ok (value, s))) state) value
      (Reached state token.encode.length 1 [] (countChild (popFinished state.remaining)))
      (HeadFits limits token ∧ Within limits.maxValues state.values 1) := by
  have hk : Outcome (some (.ok (value, state.after token))) value
      (Reached state token.encode.length 1 [] (countChild (popFinished state.remaining))) True := by
    refine Outcome.ok trivial ⟨rfl, rfl, by simp [DecodeState.after], ?_⟩
    simp [DecodeState.after, pushChildren, hchildren]
  refine (Outcome.expect hrfc hvalid hdata hpos hk).imp (fun _ h => h) ?_
  rw [within_one, TokenFits, hchildren]
  simp

/-- A value of one token that is neither a container nor an SBlob. -/
theorem outcome_scalar (token : Token) (hvalid : token.Valid) (hhead : HeadFits limits token)
    (hchildren : childrenOf token = 0) {data before after : Bytes} {state : DecodeState}
    (hdata : data = before ++ token.encode ++ after) (hpos : state.pos = before.length) {value : Decoded BlobHash} :
    Outcome (Cbor.expect (boundedNext cborg limits data) token (fun s => some (.ok (value, s))) state) value
      (Reached state token.encode.length 1 [] (countChild (popFinished state.remaining)))
      (Within limits.maxValues state.values 1 ∧ ∀ d ∈ ([] : List Nat), RoomForBlob limits d) := by
  refine (outcome_token hrfc token hvalid hchildren hdata hpos).imp (fun _ h => h) ?_
  simp [hhead]

theorem outcome_sblob (hash : BlobHash) {data before after : Bytes} {state : DecodeState}
    (hdata : data = before ++ ((Token.tag sBlobTag).encode ++ (Token.bytes (hexToBytes hash.val)).encode) ++ after)
    (hpos : state.pos = before.length) (hrefs : state.refs.length + 1 ≤ limits.maxRefs) :
    Outcome (pull (boundedNext cborg limits data) (tagDecoders limits) (.tag sBlobTag (.bytes (hexToBytes hash.val))) state)
      (.custom hash)
      (Reached state ((Token.tag sBlobTag).encode ++ (Token.bytes (hexToBytes hash.val)).encode).length 2 [hash.val]
        (countChild (popFinished state.remaining)))
      (Within limits.maxValues state.values 2 ∧ RoomForBlob limits (popFinished state.remaining).length) := by
  have hlen := length_hexToBytes hash
  have htagValid : (Token.tag sBlobTag).Valid := by simp [Token.Valid, sBlobTag]
  have hbytesValid : (Token.bytes (hexToBytes hash.val)).Valid := by
    simp only [Token.Valid, hlen]
    omega
  have htag : data = before ++ (Token.tag sBlobTag).encode ++ ((Token.bytes (hexToBytes hash.val)).encode ++ after) := by
    rw [hdata]
    simp only [List.append_assoc]
  have hbytes : data = (before ++ (Token.tag sBlobTag).encode) ++ (Token.bytes (hexToBytes hash.val)).encode ++ after := by
    rw [hdata]
    simp only [List.append_assoc]
  have hpos' : (state.after (.tag sBlobTag)).pos = (before ++ (Token.tag sBlobTag).encode).length := by
    simp only [DecodeState.after, hpos, List.length_append]
  have hcontent : Outcome (pull (boundedNext cborg limits data) (tagDecoders limits) (.bytes (hexToBytes hash.val))
      (state.after (.tag sBlobTag))) (.bytes (hexToBytes hash.val))
      (Reached (state.after (.tag sBlobTag)) (Token.bytes (hexToBytes hash.val)).encode.length 1 []
        (countChild (popFinished (state.after (.tag sBlobTag)).remaining)))
      (HeadFits limits (.bytes (hexToBytes hash.val)) ∧ Within limits.maxValues (state.after (.tag sBlobTag)).values 1) := by
    rw [pull]
    exact outcome_token hrfc (.bytes (hexToBytes hash.val)) hbytesValid rfl hbytes hpos'
  rw [pull, tagDecoders, if_pos rfl]
  refine (Outcome.expect hrfc htagValid htag hpos (hcontent.andThen_ok ?_)).imp (fun _ h => h) ?_
  · intro state' hreached
    have hrefs' : state'.refs = state.refs := by simpa [DecodeState.after] using hreached.refs
    have hvalues' : state'.values = state.values + 1 + 1 := hreached.values
    refine ⟨{ state' with refs := state'.refs ++ [hash.val] }, ?_, ?_, ?_, ?_, ?_⟩
    · rw [decodeSBlob_hash (by rw [hrefs']; exact hrefs)]
    · simp only [hreached.pos, DecodeState.after, List.length_append, Nat.add_assoc]
    · simp only [hvalues', Nat.add_assoc]
    · simp only [hrefs']
    · simp only [hreached.remaining]
      simp [DecodeState.after, pushChildren, childrenOf, countChild]
  · simp only [TokenFits, HeadFits, childrenOf, hlen, RoomForBlob, DecodeState.after, Within]
    constructor
    · rintro ⟨⟨_, h1, h2⟩, h3, h4⟩
      exact ⟨by omega, h2 (by omega), h3⟩
    · rintro ⟨h1, h2, h3⟩
      exact ⟨⟨trivial, by omega, fun _ => h2⟩, h3, by omega⟩

end Tokens

mutual
theorem pull_value (hrfc : cborg.Rfc8949) (hsafe : limits.Safe) :
    (value : SValue) → (depth : Nat) → value.Fits limits depth → (data before after : Bytes) →
    (state : DecodeState) → data = before ++ encodeTokens value.item.tokens ++ after → state.pos = before.length →
    (popFinished state.remaining).length = depth → Within limits.maxRefs state.refs.length value.refs.length →
    Outcome (pull (boundedNext cborg limits data) (tagDecoders limits) value.item state) value.decoded
      (Reached state (encodeTokens value.item.tokens).length value.tokenCount value.refs
        (countChild (popFinished state.remaining)))
      (Within limits.maxValues state.values value.tokenCount ∧ ∀ d ∈ value.blobDepths depth, RoomForBlob limits d)
  | .null, depth, _, data, before, after, state, hdata, hpos, _, _ => by
    simp only [SValue.item, Item.tokens, encodeTokens_cons, encodeTokens_nil, List.append_nil] at hdata ⊢
    rw [pull]
    exact outcome_scalar hrfc .null trivial trivial rfl hdata hpos
  | .bool value, depth, _, data, before, after, state, hdata, hpos, _, _ => by
    simp only [SValue.item, Item.tokens, encodeTokens_cons, encodeTokens_nil, List.append_nil] at hdata ⊢
    rw [pull]
    exact outcome_scalar hrfc (.bool value) trivial trivial rfl hdata hpos
  | .string value, depth, hfits, data, before, after, state, hdata, hpos, _, _ => by
    simp only [SValue.item, Item.tokens, encodeTokens_cons, encodeTokens_nil, List.append_nil] at hdata ⊢
    rw [pull]
    exact outcome_scalar hrfc (.text value) (text_valid hsafe hfits.2) hfits.2 rfl hdata hpos
  | .number value, depth, hfits, data, before, after, state, hdata, hpos, _, _ => by
    have hvalid := numberItem_tokens_valid hfits.2
    obtain ⟨_, hnumber⟩ := hfits
    cases value with
    | notFinite => exact absurd hnumber id
    | negativeZero => exact absurd hnumber id
    | integral n =>
      simp only [numberItem, Item.tokens, List.mem_singleton, forall_eq] at hvalid
      simp only [SValue.item, numberItem, Item.tokens, encodeTokens_cons, encodeTokens_nil, List.append_nil] at hdata ⊢
      rw [pull]
      exact outcome_scalar hrfc (.int n) hvalid trivial rfl hdata hpos
    | fractional bits =>
      simp only [numberItem, Item.tokens, List.mem_singleton, forall_eq] at hvalid
      simp only [SValue.item, numberItem, Item.tokens, encodeTokens_cons, encodeTokens_nil, List.append_nil] at hdata ⊢
      rw [pull]
      exact outcome_scalar hrfc (.float bits.val) hvalid trivial rfl hdata hpos
  | .sblob hash, depth, _, data, before, after, state, hdata, hpos, hdepth, hrefs => by
    simp only [SValue.item, Item.tokens, encodeTokens_cons, encodeTokens_nil, List.append_nil] at hdata ⊢
    refine (outcome_sblob hrfc hash hdata hpos (within_one.mp hrefs)).imp (fun _ h => h) ?_
    rw [hdepth]
    simp [SValue.tokenCount, SValue.blobDepths]
  | .array items, depth, hfits, data, before, after, state, hdata, hpos, hdepth, hrefs => by
    obtain ⟨hd, hlen, hitems⟩ := hfits
    have hvalid : (Token.array items.length).Valid := by
      have hmax := hsafe.maxArrayLength
      simp only [maxSafeInteger] at hmax
      simp only [Token.Valid]
      omega
    simp only [SValue.item, Item.tokens, encodeTokens_cons, length_itemsOf] at hdata ⊢
    have htoken : data = before ++ (Token.array items.length).encode
        ++ (encodeTokens (tokensOfItems (itemsOf items)) ++ after) := by
      rw [hdata]
      simp only [List.append_assoc]
    have hrest : data = (before ++ (Token.array items.length).encode) ++ encodeTokens (tokensOfItems (itemsOf items))
        ++ after := by
      rw [hdata]
      simp only [List.append_assoc]
    have hpos' : (state.after (.array items.length)).pos = (before ++ (Token.array items.length).encode).length := by
      simp only [DecodeState.after, hpos, List.length_append]
    have hstack : popFinished (state.after (.array items.length)).remaining =
        popFinished ((items.length + 0) :: countChild (popFinished state.remaining)) := by
      cases items with
      | nil => simp [DecodeState.after, pushChildren, childrenOf]
      | cons item items => simp [DecodeState.after, pushChildren, childrenOf]
    have hparts := pull_items hrfc hsafe items (depth + 1) hitems data (before ++ (Token.array items.length).encode) after
      (state.after (.array items.length)) 0 (countChild (popFinished state.remaining)) hrest hpos' hstack
      (by rw [length_countChild, hdepth]) hrefs
    rw [pull]
    simp only [length_itemsOf]
    refine (Outcome.expect hrfc hvalid htoken hpos (hparts.andThen_ok ?_)).imp (fun _ h => h) ?_
    · intro state' hreached
      refine ⟨state', rfl, ?_, ?_, hreached.refs, ?_⟩
      · simp only [hreached.pos, DecodeState.after, List.length_append, Nat.add_assoc]
      · simp only [hreached.values, DecodeState.after, SValue.tokenCount, Nat.add_assoc]
      · rw [hreached.remaining, popFinished_zero]
    · have hroom : 0 < items.length → (popFinished state.remaining).length < limits.maxDepth := by
        intro hpos
        cases items with
        | nil => simp at hpos
        | cons item items =>
          have hle := hitems.1.depth_le
          omega
      simp only [TokenFits, HeadFits, childrenOf, hlen, true_and, SValue.tokenCount, SValue.blobDepths,
        within_add, within_one, DecodeState.after]
      constructor
      · rintro ⟨⟨h1, _⟩, h2, h3⟩
        exact ⟨⟨h1, h2⟩, h3⟩
      · rintro ⟨⟨h1, h2⟩, h3⟩
        exact ⟨⟨h1, hroom⟩, h2, h3⟩
  | .object properties, depth, hfits, data, before, after, state, hdata, hpos, hdepth, hrefs => by
    obtain ⟨hd, hlen, hkeys, hvalues⟩ := hfits
    have hvalid : (Token.map properties.length).Valid := by
      have hmax := hsafe.maxMapEntries
      simp only [maxSafeInteger] at hmax
      simp only [Token.Valid]
      omega
    simp only [SValue.item, Item.tokens, encodeTokens_cons, length_entriesOf] at hdata ⊢
    have htoken : data = before ++ (Token.map properties.length).encode
        ++ (encodeTokens (tokensOfEntries (entriesOf properties)) ++ after) := by
      rw [hdata]
      simp only [List.append_assoc]
    have hrest : data = (before ++ (Token.map properties.length).encode)
        ++ encodeTokens (tokensOfEntries (entriesOf properties)) ++ after := by
      rw [hdata]
      simp only [List.append_assoc]
    have hpos' : (state.after (.map properties.length)).pos = (before ++ (Token.map properties.length).encode).length := by
      simp only [DecodeState.after, hpos, List.length_append]
    have hstack : popFinished (state.after (.map properties.length)).remaining =
        popFinished ((properties.length * 2 + 0) :: countChild (popFinished state.remaining)) := by
      cases properties with
      | nil => simp [DecodeState.after, pushChildren, childrenOf]
      | cons property properties => simp [DecodeState.after, pushChildren, childrenOf]
    have hparts := pull_entries hrfc hsafe properties (depth + 1) hkeys hvalues data (before ++ (Token.map properties.length).encode)
      after (state.after (.map properties.length)) 0 (countChild (popFinished state.remaining)) hrest hpos' hstack
      (by rw [length_countChild, hdepth]) hrefs
    rw [pull]
    simp only [length_entriesOf]
    refine (Outcome.expect hrfc hvalid htoken hpos (hparts.andThen_ok ?_)).imp (fun _ h => h) ?_
    · intro state' hreached
      refine ⟨state', rfl, ?_, ?_, hreached.refs, ?_⟩
      · simp only [hreached.pos, DecodeState.after, List.length_append, Nat.add_assoc]
      · simp only [hreached.values, DecodeState.after, SValue.tokenCount, Nat.add_assoc]
      · rw [hreached.remaining, popFinished_zero]
    · have hroom : 0 < properties.length * 2 → (popFinished state.remaining).length < limits.maxDepth := by
        intro hsome
        cases properties with
        | nil => simp at hsome
        | cons property properties =>
          obtain ⟨key, value⟩ := property
          have hle := hvalues.1.depth_le
          omega
      simp only [TokenFits, HeadFits, childrenOf, hlen, true_and, SValue.tokenCount, SValue.blobDepths,
        within_add, within_one, DecodeState.after]
      constructor
      · rintro ⟨⟨h1, _⟩, h2, h3⟩
        exact ⟨⟨h1, h2⟩, h3⟩
      · rintro ⟨⟨h1, h2⟩, h3⟩
        exact ⟨⟨h1, hroom⟩, h2, h3⟩
theorem pull_items (hrfc : cborg.Rfc8949) (hsafe : limits.Safe) :
    (items : List SValue) → (depth : Nat) → itemsFit limits items depth → (data before after : Bytes) →
    (state : DecodeState) → (extra : Nat) → (outer : List Nat) →
    data = before ++ encodeTokens (tokensOfItems (itemsOf items)) ++ after → state.pos = before.length →
    popFinished state.remaining = popFinished ((items.length + extra) :: outer) → outer.length + 1 = depth →
    Within limits.maxRefs state.refs.length (refsOfItems items).length →
    Outcome (pullItems (boundedNext cborg limits data) (tagDecoders limits) (itemsOf items) state) (decodedItems items)
      (Reached state (encodeTokens (tokensOfItems (itemsOf items))).length (tokenCountOfItems items) (refsOfItems items)
        (extra :: outer))
      (Within limits.maxValues state.values (tokenCountOfItems items) ∧
        ∀ d ∈ blobDepthsOfItems items depth, RoomForBlob limits d)
  | [], depth, _, data, before, after, state, extra, outer, _, _, hstack, _, _ => by
    simp only [itemsOf, pullItems, decodedItems, tokensOfItems, tokenCountOfItems, refsOfItems, blobDepthsOfItems]
    refine Outcome.ok (by simp) ⟨rfl, rfl, by simp, ?_⟩
    simpa using hstack
  | item :: items, depth, hfits, data, before, after, state, extra, outer, hdata, hpos, hstack, hdepth, hrefs => by
    simp only [itemsOf, tokensOfItems, encodeTokens_append] at hdata ⊢
    simp only [refsOfItems, List.length_append, within_add] at hrefs
    obtain ⟨hrefs₁, hrefs₂⟩ := hrefs
    have hopen : popFinished state.remaining = (items.length + extra + 1) :: outer := by
      rw [hstack, List.length_cons, Nat.add_right_comm]
      rfl
    have hfirst := pull_value hrfc hsafe item depth hfits.1 data before (encodeTokens (tokensOfItems (itemsOf items)) ++ after) state
      (by rw [hdata]; simp only [List.append_assoc]) hpos (by rw [hopen, List.length_cons, hdepth]) hrefs₁
    rw [hopen] at hfirst
    have hnext : ∀ state₁, Reached state (encodeTokens item.item.tokens).length item.tokenCount item.refs
        (countChild ((items.length + extra + 1) :: outer)) state₁ →
        Outcome (Cbor.andThen (pullItems (boundedNext cborg limits data) (tagDecoders limits) (itemsOf items) state₁)
          fun vs s => some (.ok (item.decoded :: vs, s))) (decodedItems (item :: items))
          (Reached state (encodeTokens item.item.tokens ++ encodeTokens (tokensOfItems (itemsOf items))).length
            (tokenCountOfItems (item :: items)) (refsOfItems (item :: items)) (extra :: outer))
          (Within limits.maxValues (state.values + item.tokenCount) (tokenCountOfItems items) ∧
            ∀ d ∈ blobDepthsOfItems items depth, RoomForBlob limits d) := by
      intro state₁ hreached
      have hrest := pull_items hrfc hsafe items depth hfits.2 data (before ++ encodeTokens item.item.tokens) after state₁ extra outer
        (by rw [hdata]; simp only [List.append_assoc]) (by rw [hreached.pos, hpos, List.length_append])
        (by rw [hreached.remaining, countChild, Nat.add_sub_cancel]) hdepth
        (by rw [hreached.refs, List.length_append]; exact hrefs₂)
      rw [hreached.values] at hrest
      refine hrest.andThen_ok fun state₂ hreached₂ => ⟨state₂, rfl, ?_, ?_, ?_, hreached₂.remaining⟩
      · rw [hreached₂.pos, hreached.pos, List.length_append, Nat.add_assoc]
      · rw [hreached₂.values, hreached.values, tokenCountOfItems, Nat.add_assoc]
      · rw [hreached₂.refs, hreached.refs, refsOfItems, List.append_assoc]
    rw [pullItems]
    refine (hfirst.andThen hnext).imp (fun _ h => h) ?_
    simp only [tokenCountOfItems, blobDepthsOfItems, within_add, List.mem_append, or_imp, forall_and]
    tauto
theorem pull_entries (hrfc : cborg.Rfc8949) (hsafe : limits.Safe) : (properties : List (String × SValue)) → (depth : Nat) →
    (∀ property ∈ properties, (utf8 property.1).length ≤ limits.maxStringBytes) → propertiesFit limits properties depth →
    (data before after : Bytes) → (state : DecodeState) → (extra : Nat) → (outer : List Nat) →
    data = before ++ encodeTokens (tokensOfEntries (entriesOf properties)) ++ after → state.pos = before.length →
    popFinished state.remaining = popFinished ((properties.length * 2 + extra) :: outer) → outer.length + 1 = depth →
    Within limits.maxRefs state.refs.length (refsOfProperties properties).length →
    Outcome (pullEntries (boundedNext cborg limits data) (tagDecoders limits) (entriesOf properties) state)
      (decodedProperties properties)
      (Reached state (encodeTokens (tokensOfEntries (entriesOf properties))).length (tokenCountOfProperties properties)
        (refsOfProperties properties) (extra :: outer))
      (Within limits.maxValues state.values (tokenCountOfProperties properties) ∧
        ∀ d ∈ blobDepthsOfProperties properties depth, RoomForBlob limits d)
  | [], depth, _, _, data, before, after, state, extra, outer, _, _, hstack, _, _ => by
    simp only [entriesOf, pullEntries, decodedProperties, tokensOfEntries, tokenCountOfProperties, refsOfProperties,
      blobDepthsOfProperties]
    refine Outcome.ok (by simp) ⟨rfl, rfl, by simp, ?_⟩
    simpa using hstack
  | (key, value) :: properties, depth, hkeys, hfits, data, before, after, state, extra, outer, hdata, hpos, hstack, hdepth,
      hrefs => by
    have hkey := hkeys (key, value) (by simp)
    have hvalid := text_valid hsafe hkey
    simp only [entriesOf, tokensOfEntries, List.cons_append, encodeTokens_cons, encodeTokens_append] at hdata ⊢
    simp only [refsOfProperties, List.length_append, within_add] at hrefs
    obtain ⟨hrefs₁, hrefs₂⟩ := hrefs
    have hopen : popFinished state.remaining = (properties.length * 2 + extra + 1 + 1) :: outer := by
      have hcount : ((key, value) :: properties).length * 2 + extra = properties.length * 2 + extra + 1 + 1 := by
        rw [List.length_cons]
        omega
      rw [hstack, hcount]
      rfl
    have hopen' : popFinished (state.after (.text key)).remaining = (properties.length * 2 + extra + 1) :: outer := by
      simp only [DecodeState.after, hopen]
      rfl
    have htoken : data = before ++ (Token.text key).encode
        ++ (encodeTokens value.item.tokens ++ (encodeTokens (tokensOfEntries (entriesOf properties)) ++ after)) := by
      rw [hdata]
      simp only [List.append_assoc]
    have hfirst := pull_value hrfc hsafe value depth hfits.1 data (before ++ (Token.text key).encode)
      (encodeTokens (tokensOfEntries (entriesOf properties)) ++ after) (state.after (.text key))
      (by rw [htoken]; simp only [List.append_assoc]) (by simp only [DecodeState.after, hpos, List.length_append])
      (by rw [hopen', List.length_cons, hdepth]) hrefs₁
    rw [hopen'] at hfirst
    have hnext : ∀ state₁, Reached (state.after (.text key)) (encodeTokens value.item.tokens).length value.tokenCount
        value.refs (countChild ((properties.length * 2 + extra + 1) :: outer)) state₁ →
        Outcome (Cbor.andThen (pullEntries (boundedNext cborg limits data) (tagDecoders limits) (entriesOf properties) state₁)
          fun vs s => some (.ok ((.text key, value.decoded) :: vs, s))) (decodedProperties ((key, value) :: properties))
          (Reached state ((Token.text key).encode ++ (encodeTokens value.item.tokens
              ++ encodeTokens (tokensOfEntries (entriesOf properties)))).length
            (tokenCountOfProperties ((key, value) :: properties)) (refsOfProperties ((key, value) :: properties))
            (extra :: outer))
          (Within limits.maxValues (state.values + 1 + value.tokenCount) (tokenCountOfProperties properties) ∧
            ∀ d ∈ blobDepthsOfProperties properties depth, RoomForBlob limits d) := by
      intro state₁ hreached
      have hrest := pull_entries hrfc hsafe properties depth (fun p hp => hkeys p (by simp [hp])) hfits.2 data
        (before ++ (Token.text key).encode ++ encodeTokens value.item.tokens) after state₁ extra outer
        (by rw [htoken]; simp only [List.append_assoc])
        (by rw [hreached.pos]; simp only [DecodeState.after, hpos, List.length_append])
        (by rw [hreached.remaining, countChild, Nat.add_sub_cancel]) hdepth
        (by rw [hreached.refs, List.length_append]; exact hrefs₂)
      rw [hreached.values] at hrest
      refine hrest.andThen_ok fun state₂ hreached₂ => ⟨state₂, rfl, ?_, ?_, ?_, hreached₂.remaining⟩
      · rw [hreached₂.pos, hreached.pos]
        simp only [DecodeState.after, List.length_append, Nat.add_assoc]
      · rw [hreached₂.values, hreached.values, tokenCountOfProperties]
        simp only [DecodeState.after, Nat.add_assoc]
      · rw [hreached₂.refs, hreached.refs, refsOfProperties]
        simp only [DecodeState.after, List.append_assoc]
    rw [pullEntries]
    refine (Outcome.expect hrfc hvalid htoken hpos (hfirst.andThen hnext)).imp (fun _ h => h) ?_
    simp only [TokenFits, HeadFits, hkey, childrenOf, true_and, Nat.lt_irrefl, false_imp_iff, and_true, DecodeState.after,
      tokenCountOfProperties, blobDepthsOfProperties, within_add, within_one, List.mem_append, or_imp, forall_and,
      Nat.add_assoc]
    tauto
end

end Pull

end UniDocs.SValueCodec
