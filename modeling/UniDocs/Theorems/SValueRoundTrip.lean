import UniDocs.Lemmas.SValueDecode

/-!
# Round trip of the SValue codec

The decoder applies the limits to tokens, the encoder to values. An encoded value is decoded again exactly when its tokens
stay within `maxValues` and every SBlob has room for its tag and its hash bytes; a value beyond that is stored and cannot be
read, under the default limits too.
-/

namespace UniDocs.SValueCodec

open Lib Lib.Cbor UniDocs.Cas UniDocs.Codec

section RoundTrip

variable {cborg : Cborg} (hrfc : cborg.Rfc8949) {limits : SValueCodecLimits} (hsafe : limits.Safe) {value : SValue}
  (hkeys : value.DistinctKeys)
include hrfc hsafe

theorem decode_canonical (hcanonical : value.item.Canonical) (hfits : value.Fits limits 0)
    (hrefs : Within limits.maxRefs 0 value.refs.length) :
    ((Within limits.maxValues 0 value.tokenCount ∧ ∀ d ∈ value.blobDepths 0, RoomForBlob limits d) ∧
      ∃ state : DecodeState, state.refs = value.refs ∧
        cborg.decode (encodeTokens value.item.tokens) (boundedNext cborg limits (encodeTokens value.item.tokens))
          (tagDecoders limits) (fun state => state.pos = (encodeTokens value.item.tokens).length) {}
          = .ok (value.decoded, state)) ∨
    (¬ (Within limits.maxValues 0 value.tokenCount ∧ ∀ d ∈ value.blobDepths 0, RoomForBlob limits d) ∧
      ∃ e, cborg.decode (encodeTokens value.item.tokens) (boundedNext cborg limits (encodeTokens value.item.tokens))
          (tagDecoders limits) (fun state => state.pos = (encodeTokens value.item.tokens).length) {} = .error e) := by
  have hlong := length_le_encodeTokens value.item.tokens
  have houtcome := pull_value hrfc hsafe value 0 hfits (encodeTokens value.item.tokens) [] [] {} (by simp) rfl rfl hrefs
  rcases houtcome with ⟨hroom, state, hpull, hreached⟩ | ⟨hroom, e, hpull⟩
  · have hpos : state.pos = (encodeTokens value.item.tokens).length := by simpa using hreached.pos
    refine Or.inl ⟨hroom, state, by simpa using hreached.refs, ?_⟩
    exact hrfc.decode_ok _ _ _ _ _ _ _ _ hcanonical hlong hpull (by simpa using hpos)
  · exact Or.inr ⟨hroom, e, hrfc.decode_error _ _ _ _ _ _ _ hcanonical hlong hpull⟩

include hkeys

/-- An encodable value is decoded from its bytes when there is room for its tokens and its SBlobs, and otherwise the decoder
throws. -/
theorem decodeSValueWithRefs_encodable {options : SValueCodecOptions} (hlimits : codecLimits options = .ok limits)
    (henc : Encodable cborg limits value) :
    ((value.tokenCount ≤ limits.maxValues ∧ ∀ d ∈ value.blobDepths 0, RoomForBlob limits d) ∧
      decodeSValueWithRefs cborg (encodeTokens (value.canonical cborg).item.tokens) options
        = .ok ⟨value.canonical cborg, (value.canonical cborg).refs⟩) ∨
    (¬ (value.tokenCount ≤ limits.maxValues ∧ ∀ d ∈ value.blobDepths 0, RoomForBlob limits d) ∧
      ∃ e, decodeSValueWithRefs cborg (encodeTokens (value.canonical cborg).item.tokens) options = .error e) := by
  have hroom : (Within limits.maxValues 0 (value.canonical cborg).tokenCount
      ∧ ∀ d ∈ (value.canonical cborg).blobDepths 0, RoomForBlob limits d) ↔
      value.tokenCount ≤ limits.maxValues ∧ ∀ d ∈ value.blobDepths 0, RoomForBlob limits d := by
    have hmem : ∀ d, d ∈ (value.canonical cborg).blobDepths 0 ↔ d ∈ value.blobDepths 0 :=
      fun d => (value.blobDepths_canonical cborg 0).mem_iff
    simp only [value.tokenCount_canonical cborg, hmem, Within]
    constructor
    · rintro ⟨h, h'⟩
      exact ⟨by omega, h'⟩
    · rintro ⟨h, h'⟩
      exact ⟨by omega, h'⟩
  have hshort : ¬ limits.maxEncodedBytes < (encodeTokens (value.canonical cborg).item.tokens).length := by
    have hbytes := henc.bytes
    omega
  have hcanonical := value.item_canonical hrfc hsafe 0 hkeys henc.fits
  rcases decode_canonical hrfc hsafe hcanonical henc.fits henc.refs with ⟨hfits, state, hrefs, hdecode⟩ | ⟨hfits, e, hdecode⟩
  · refine Or.inl ⟨hroom.mp hfits, ?_⟩
    obtain ⟨state', hnormal, _⟩ := normalize_decoded (value.canonical cborg) [] 0 {} henc.fits henc.count
    have hprepared : prepareValue cborg limits (value.canonical cborg) [] 0 {} =
        .ok ((value.canonical cborg).item, PrepareState.add {} (value.canonical cborg).refs (value.canonical cborg).count) := by
      have hspec : Prepares limits (prepareValue cborg limits (value.canonical cborg)) _ _ _ _ := prepareValue_spec _
      rw [value.canonical_canonical] at hspec
      exact (hspec [] 0 {} _).mpr ⟨henc.fits, henc.count, henc.refs, rfl⟩
    have hitem := encode_item hrfc hsafe hkeys henc.fits
    have hagain : encodeDetailed cborg limits (value.canonical cborg) =
        .ok ⟨encodeTokens (value.canonical cborg).item.tokens, (value.canonical cborg).refs⟩ := by
      simp only [encodeDetailed, hprepared, hitem, if_neg hshort, bind, Except.bind, pure, Except.pure]
      simp [PrepareState.add]
    simp only [decodeSValueWithRefs, hlimits, if_neg hshort, hdecode, hnormal, hagain, hrefs, ne_eq, not_true_eq_false,
      if_false, bind, Except.bind, pure, Except.pure]
  · refine Or.inr ⟨fun h => hfits (hroom.mpr h), e, ?_⟩
    simp only [decodeSValueWithRefs, hlimits, if_neg hshort, hdecode, bind, Except.bind]

end RoundTrip

/-- For every value that the encoder accepts under some limits, decoding its bytes under the same limits gives the value back
(with the negative zero as zero and the properties in canonical order) and the same refs, exactly when its tokens, which
count map keys and count an SBlob twice, are at most `maxValues`, every SBlob is nested less deep than `maxDepth`, and
`maxByteStringBytes` has room for a hash wherever there is an SBlob. -/
theorem svalue_round_trip {cborg : Cborg} (hrfc : cborg.Rfc8949) {value : SValue} (hkeys : value.DistinctKeys)
    {options : SValueCodecOptions} {limits : SValueCodecLimits} (hlimits : codecLimits options = .ok limits)
    {encoded : EncodedSValue} (hencoded : encodeSValueWithRefs cborg value options = .ok encoded) :
    decodeSValueWithRefs cborg encoded.data options = .ok ⟨value.canonical cborg, encoded.refs⟩ ↔
      value.tokenCount ≤ limits.maxValues
        ∧ ∀ depth ∈ value.blobDepths 0, depth < limits.maxDepth ∧ 32 ≤ limits.maxByteStringBytes := by
  have hsafe := codecLimits_safe hlimits
  have hdetailed : encodeDetailed cborg limits value = .ok encoded := by
    simpa only [encodeSValueWithRefs, hlimits, bind, Except.bind] using hencoded
  obtain ⟨henc, rfl⟩ := (encodeDetailed_ok_iff hrfc hsafe hkeys).mp hdetailed
  rcases decodeSValueWithRefs_encodable hrfc hsafe hkeys hlimits henc with ⟨hroom, hdecode⟩ | ⟨hroom, e, hdecode⟩
  · exact ⟨fun _ => hroom, fun _ => hdecode⟩
  · refine ⟨fun h => ?_, fun h => absurd h hroom⟩
    rw [hdecode] at h
    cases h

/-! ## A library that follows RFC 8949 -/

/-- The reference decoder and the deterministic encoding of canonical items. -/
def rfcCborg : Cborg where
  encode item := encodeTokens item.tokens
  next data pos :=
    match readToken (data.drop pos) with
    | some (token, rest) => .ok (token, data.length - rest.length)
    | none => .error (.cborg "CBOR decode error: unexpected end of data")
  decode data next onTag done s :=
    match assemble next onTag (.cborg "CBOR decode error: tag not supported") data.length s with
    | .error e => .error e
    | .ok (value, s') =>
      if done s' then .ok (value, s') else .error (.cborg "CBOR decode error: too many terminals, data makes no sense")

theorem rfcCborg_rfc8949 : rfcCborg.Rfc8949 where
  encode_canonical _ _ _ := rfl
  next_token before after token hvalid := by
    have hdrop : (before ++ token.encode ++ after).drop before.length = token.encode ++ after := by
      rw [List.append_assoc, List.drop_left]
    have hlen : (before ++ token.encode ++ after).length - after.length = before.length + token.encode.length := by
      simp only [List.length_append]
      omega
    simp only [rfcCborg, hdrop, readToken_encode hvalid, hlen]
  decode_error data next onTag done s item e _ hlong hpull := by
    have hrun := assemble_pull (.cborg "CBOR decode error: tag not supported") item data.length s _
      (item.depth_le.trans hlong) hpull
    simp only [rfcCborg, hrun]
  decode_ok data next onTag done s s' item value _ hlong hpull hdone := by
    have hrun := assemble_pull (.cborg "CBOR decode error: tag not supported") item data.length s _
      (item.depth_le.trans hlong) hpull
    simp only [rfcCborg, hrun, hdone, if_true]

/-! ## Values that are encoded and not decoded -/

/-- Some hash. -/
def someHash : BlobHash := ⟨String.ofList (List.replicate 64 'a'), by decide⟩

/-- An SBlob inside `n` arrays. -/
def nested : Nat → SValue
  | 0 => .sblob someHash
  | n + 1 => .array [nested n]

theorem nested_distinctKeys (n : Nat) : (nested n).DistinctKeys := by
  induction n with
  | zero => trivial
  | succ n ih => exact ⟨ih, trivial⟩

theorem nested_canonical (cborg : Cborg) (n : Nat) : (nested n).canonical cborg = nested n := by
  induction n with
  | zero => rfl
  | succ n ih => simp only [nested, SValue.canonical, canonicalItems, ih]

theorem nested_fits {limits : SValueCodecLimits} (hone : 1 ≤ limits.maxArrayLength) (n : Nat) :
    ∀ depth, depth + n ≤ limits.maxDepth → (nested n).Fits limits depth := by
  induction n with
  | zero => exact fun depth h => h
  | succ n ih => exact fun depth h => ⟨by omega, hone, ih (depth + 1) (by omega), trivial⟩

theorem nested_count (n : Nat) : (nested n).count = n + 1 := by
  induction n with
  | zero => rfl
  | succ n ih =>
    simp only [nested, SValue.count, countOfItems, ih]
    omega

theorem nested_refs (n : Nat) : (nested n).refs = [someHash.val] := by
  induction n with
  | zero => rfl
  | succ n ih => simp only [nested, SValue.refs, refsOfItems, ih, List.append_nil]

theorem nested_blobDepths (n : Nat) : ∀ depth, (nested n).blobDepths depth = [depth + n] := by
  induction n with
  | zero => exact fun depth => rfl
  | succ n ih =>
    intro depth
    simp only [nested, SValue.blobDepths, blobDepthsOfItems, ih, List.append_nil]
    congr 1
    omega

theorem nested_length (n : Nat) : (encodeTokens (nested n).item.tokens).length = n + 39 := by
  induction n with
  | zero =>
    have hbytes : (hexToBytes someHash.val).length = 32 := length_hexToBytes someHash
    have htag : (head 6 sBlobTag).length = 5 := by decide
    have hhead : (head 2 32).length = 2 := by decide
    simp only [nested, SValue.item, Item.tokens, encodeTokens_cons, encodeTokens_nil, List.append_nil, List.length_append,
      htag, Token.encode, hbytes, hhead]
  | succ n ih =>
    have hhead : (Token.encode (.array 1)).length = 1 := by decide
    simp only [nested, SValue.item, itemsOf, Item.tokens, tokensOfItems, encodeTokens_cons, List.append_nil,
      List.length_append, List.length_singleton, hhead, ih]
    omega

theorem codecLimits_default : codecLimits {} = .ok defaultLimits := rfl

/-- Up to one hundred arrays around an SBlob are within the default limits of the encoder. -/
theorem nested_encodable {n : Nat} (h : n ≤ 100) : Encodable rfcCborg defaultLimits (nested n) where
  fits := by
    rw [nested_canonical]
    exact nested_fits (by decide) n 0 (by simp only [defaultLimits]; omega)
  count := by
    rw [nested_canonical, nested_count]
    exact Or.inr (by simp only [defaultLimits]; omega)
  refs := by
    rw [nested_canonical, nested_refs]
    exact Or.inr (by decide)
  bytes := by
    rw [nested_canonical, nested_length]
    simp only [defaultLimits]
    omega

theorem nested_encoded {n : Nat} (h : n ≤ 100) :
    encodeSValueWithRefs rfcCborg (nested n) {} =
      .ok ⟨encodeTokens ((nested n).canonical rfcCborg).item.tokens, ((nested n).canonical rfcCborg).refs⟩ := by
  have hsafe := codecLimits_safe codecLimits_default
  have hencode := (encodeDetailed_ok_iff rfcCborg_rfc8949 hsafe (nested_distinctKeys n)).mpr ⟨nested_encodable h, rfl⟩
  simp only [encodeSValueWithRefs, codecLimits_default, bind, Except.bind, hencode]

/-- Under the default limits there is a value that is encoded and whose bytes are not decoded: an SBlob inside one hundred
arrays. -/
theorem svalue_round_trip_false :
    ∃ encoded e, encodeSValueWithRefs rfcCborg (nested 100) {} = .ok encoded ∧
      decodeSValueWithRefs rfcCborg encoded.data {} = .error e := by
  have hsafe := codecLimits_safe codecLimits_default
  have henc := nested_encodable (Nat.le_refl 100)
  rcases decodeSValueWithRefs_encodable rfcCborg_rfc8949 hsafe (nested_distinctKeys 100) codecLimits_default henc
    with ⟨hroom, _⟩ | ⟨_, e, hdecode⟩
  · have hdepth := hroom.2 100 (by rw [nested_blobDepths]; simp)
    exact absurd hdepth.1 (by decide)
  · exact ⟨_, e, nested_encoded (Nat.le_refl 100), hdecode⟩

/-- Under the default limits, an SBlob inside two arrays is encoded, and decoded again. -/
theorem svalue_round_trip_nested :
    ∃ encoded, encodeSValueWithRefs rfcCborg (nested 2) {} = .ok encoded ∧
      decodeSValueWithRefs rfcCborg encoded.data {} = .ok ⟨(nested 2).canonical rfcCborg, encoded.refs⟩ := by
  have hencoded := nested_encoded (by decide : 2 ≤ 100)
  have hkeys := nested_distinctKeys 2
  refine ⟨_, hencoded, (svalue_round_trip rfcCborg_rfc8949 hkeys codecLimits_default hencoded).mpr ⟨by decide, ?_⟩⟩
  rw [nested_blobDepths]
  decide

end UniDocs.SValueCodec
