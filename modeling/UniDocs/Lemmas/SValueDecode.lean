import UniDocs.Lemmas.SValueTokens

/-!
# Decoding what was encoded

A value that was decoded is normalized to its canonical form, which is encoded as before. Together with the bounded
tokenizer this says when the bytes of an encoded value are decoded again.
-/

namespace UniDocs.SValueCodec

open Lib Lib.Cbor UniDocs.Cas UniDocs.Codec

/-! ## Normalizing -/

theorem Within.mono {limit start start' count : Nat} (h : Within limit start count) (hle : start' ≤ start) :
    Within limit start' count := by
  rcases h with h | h
  · exact Or.inl h
  · exact Or.inr (by omega)

theorem enterValue_ok {limits : SValueCodecLimits} {path : List PathStep} {depth : Nat} {state : PrepareState}
    (hdepth : depth ≤ limits.maxDepth) (hvalues : Within limits.maxValues state.values 1) :
    enterValue limits path depth state = .ok (state.add [] 1) :=
  enterValue_ok_iff.mpr ⟨hdepth, hvalues, rfl⟩

theorem length_decodedItems (items : List SValue) : (decodedItems items).length = items.length := by
  induction items with
  | nil => rfl
  | cons item items ih => rw [decodedItems, List.length_cons, ih, List.length_cons]

theorem length_decodedProperties (properties : List (String × SValue)) :
    (decodedProperties properties).length = properties.length := by
  induction properties with
  | nil => rfl
  | cons property properties ih =>
    obtain ⟨key, value⟩ := property
    rw [decodedProperties, List.length_cons, ih, List.length_cons]

theorem prepareNumber_fits {value : JsNumber} (h : value.Fits) (path : List PathStep) :
    prepareNumber value path = .ok value := by
  cases value with
  | notFinite => exact absurd h id
  | negativeZero => exact absurd h id
  | integral n =>
    have hsafe : n.natAbs ≤ maxSafeInteger := h
    rw [prepareNumber, if_pos hsafe]
  | fractional bits => rfl

section Normalize

variable {limits : SValueCodecLimits}

mutual
/-- What the library built for a value that passes its checks is normalized to the value. -/
theorem normalize_decoded : (value : SValue) → (path : List PathStep) → (depth : Nat) → (state : PrepareState) →
    value.Fits limits depth → Within limits.maxValues state.values value.count →
    ∃ state', normalizeDecoded limits value.decoded path depth state = .ok (value, state')
      ∧ state'.values ≤ state.values + value.count
  | .sblob hash, path, depth, state, _, _ => ⟨state, rfl, Nat.le_add_right _ _⟩
  | .null, path, depth, state, hfits, hvalues => by
    refine ⟨state.add [] 1, ?_, Nat.le_refl _⟩
    simp only [SValue.decoded, normalizeDecoded, enterValue_ok hfits hvalues, bind, Except.bind, pure, Except.pure]
  | .bool value, path, depth, state, hfits, hvalues => by
    refine ⟨state.add [] 1, ?_, Nat.le_refl _⟩
    simp only [SValue.decoded, normalizeDecoded, enterValue_ok hfits hvalues, bind, Except.bind, pure, Except.pure]
  | .string value, path, depth, state, hfits, hvalues => by
    have hstring : validateString limits value path = .ok () := validateString_ok_iff.mpr hfits.2
    refine ⟨state.add [] 1, ?_, Nat.le_refl _⟩
    simp only [SValue.decoded, normalizeDecoded, enterValue_ok hfits.1 hvalues, hstring, bind, Except.bind, pure, Except.pure]
  | .number value, path, depth, state, hfits, hvalues => by
    have hnumber := prepareNumber_fits hfits.2 path
    refine ⟨state.add [] 1, ?_, Nat.le_refl _⟩
    obtain ⟨hdepth, hfit⟩ := hfits
    cases value with
    | notFinite => exact absurd hfit id
    | negativeZero => exact absurd hfit id
    | integral n =>
      simp only [SValue.decoded, decodedNumber, normalizeDecoded, enterValue_ok hdepth hvalues, hnumber, bind, Except.bind,
        pure, Except.pure]
    | fractional bits =>
      have hbits : numberOfBits bits.val = .fractional bits := by rw [numberOfBits, dif_pos bits.property]
      simp only [SValue.decoded, decodedNumber, normalizeDecoded, enterValue_ok hdepth hvalues, hbits, hnumber, bind,
        Except.bind, pure, Except.pure]
  | .array items, path, depth, state, hfits, hvalues => by
    obtain ⟨hdepth, hlen, hitems⟩ := hfits
    simp only [SValue.count, within_add] at hvalues
    obtain ⟨hone, hmany⟩ := hvalues
    obtain ⟨state', hrun, hle⟩ := normalize_items items 0 path depth (state.add [] 1) hitems hmany
    have hshort : ¬ limits.maxArrayLength < (decodedItems items).length := by
      rw [length_decodedItems]
      omega
    refine ⟨state', ?_, ?_⟩
    · simp only [SValue.decoded, normalizeDecoded, enterValue_ok hdepth hone, if_neg hshort, hrun, bind, Except.bind, pure,
        Except.pure]
    · simp only [PrepareState.add] at hle
      simp only [SValue.count]
      omega
  | .object properties, path, depth, state, hfits, hvalues => by
    obtain ⟨hdepth, hlen, hkeys, hvals⟩ := hfits
    simp only [SValue.count, within_add] at hvalues
    obtain ⟨hone, hmany⟩ := hvalues
    obtain ⟨state', hrun, hle⟩ := normalize_properties properties path depth (state.add [] 1) hkeys hvals hmany
    have hshort : ¬ limits.maxMapEntries < (decodedProperties properties).length := by
      rw [length_decodedProperties]
      omega
    refine ⟨state', ?_, ?_⟩
    · simp only [SValue.decoded, normalizeDecoded, enterValue_ok hdepth hone, if_neg hshort, hrun, bind, Except.bind, pure,
        Except.pure]
    · simp only [PrepareState.add] at hle
      simp only [SValue.count]
      omega
theorem normalize_items : (items : List SValue) → (index : Nat) → (path : List PathStep) → (depth : Nat) →
    (state : PrepareState) → itemsFit limits items (depth + 1) → Within limits.maxValues state.values (countOfItems items) →
    ∃ state', normalizeItems limits (decodedItems items) index path depth state = .ok (items, state')
      ∧ state'.values ≤ state.values + countOfItems items
  | [], index, path, depth, state, _, _ => ⟨state, rfl, Nat.le_refl _⟩
  | item :: items, index, path, depth, state, hfits, hvalues => by
    simp only [countOfItems, within_add] at hvalues
    obtain ⟨state₁, hrun₁, hle₁⟩ := normalize_decoded item (path ++ [.index index]) (depth + 1) state hfits.1 hvalues.1
    obtain ⟨state₂, hrun₂, hle₂⟩ := normalize_items items (index + 1) path depth state₁ hfits.2 (hvalues.2.mono hle₁)
    refine ⟨state₂, ?_, ?_⟩
    · simp only [decodedItems, normalizeItems, hrun₁, hrun₂, bind, Except.bind, pure, Except.pure]
    · simp only [countOfItems]
      omega
theorem normalize_properties : (properties : List (String × SValue)) → (path : List PathStep) → (depth : Nat) →
    (state : PrepareState) → (∀ property ∈ properties, (utf8 property.1).length ≤ limits.maxStringBytes) →
    propertiesFit limits properties (depth + 1) → Within limits.maxValues state.values (countOfProperties properties) →
    ∃ state', normalizeEntries limits (decodedProperties properties) path depth state = .ok (properties, state')
      ∧ state'.values ≤ state.values + countOfProperties properties
  | [], path, depth, state, _, _, _ => ⟨state, rfl, Nat.le_refl _⟩
  | (key, value) :: properties, path, depth, state, hkeys, hfits, hvalues => by
    simp only [countOfProperties, within_add] at hvalues
    have hkey : validateString limits key (path ++ [.anyKey]) = .ok () :=
      validateString_ok_iff.mpr (hkeys (key, value) (by simp))
    obtain ⟨state₁, hrun₁, hle₁⟩ := normalize_decoded value (path ++ [.key key]) (depth + 1) state hfits.1 hvalues.1
    obtain ⟨state₂, hrun₂, hle₂⟩ := normalize_properties properties path depth state₁ (fun p hp => hkeys p (by simp [hp]))
      hfits.2 (hvalues.2.mono hle₁)
    refine ⟨state₂, ?_, ?_⟩
    · simp only [decodedProperties, normalizeEntries, hkey, hrun₁, hrun₂, bind, Except.bind, pure, Except.pure]
    · simp only [countOfProperties]
      omega
end

end Normalize

/-! ## Encoding -/

/-- The value passes the checks of the encoder under these limits. -/
structure Encodable (cborg : Cborg) (limits : SValueCodecLimits) (value : SValue) : Prop where
  fits : (value.canonical cborg).Fits limits 0
  count : Within limits.maxValues 0 (value.canonical cborg).count
  refs : Within limits.maxRefs 0 (value.canonical cborg).refs.length
  bytes : (encodeTokens (value.canonical cborg).item.tokens).length ≤ limits.maxEncodedBytes

section RoundTrip

variable {cborg : Cborg} (hrfc : cborg.Rfc8949) {limits : SValueCodecLimits} (hsafe : limits.Safe) {value : SValue}
  (hkeys : value.DistinctKeys)
include hrfc hsafe hkeys

theorem encode_item (hfits : (value.canonical cborg).Fits limits 0) :
    cborg.encode (value.canonical cborg).item = encodeTokens (value.canonical cborg).item.tokens :=
  hrfc.encode_canonical _ (value.item_canonical hrfc hsafe 0 hkeys hfits)
    ((value.canonical cborg).tokens_valid hsafe 0 hfits)

/-- The encoder succeeds exactly on encodable values, with the bytes of the canonical form and its refs. -/
theorem encodeDetailed_ok_iff {encoded : EncodedSValue} :
    encodeDetailed cborg limits value = .ok encoded ↔
      Encodable cborg limits value
        ∧ encoded = ⟨encodeTokens (value.canonical cborg).item.tokens, (value.canonical cborg).refs⟩ := by
  rw [encodeDetailed, bind_ok_iff]
  constructor
  · rintro ⟨⟨item, state⟩, hprepare, h⟩
    obtain ⟨hfits, hcount, hrefs, heq⟩ := (prepareValue_spec value _ _ _ _).mp hprepare
    cases heq
    have hitem := encode_item hrfc hsafe hkeys hfits
    simp only [hitem] at h
    by_cases hbytes : limits.maxEncodedBytes < (encodeTokens (value.canonical cborg).item.tokens).length
    · simp only [if_pos hbytes, fail, bind, Except.bind, reduceCtorEq] at h
    · simp only [if_neg hbytes, pure_ok_iff] at h
      subst h
      exact ⟨⟨hfits, hcount, hrefs, by omega⟩, by simp [PrepareState.add]⟩
  · rintro ⟨⟨hfits, hcount, hrefs, hbytes⟩, rfl⟩
    refine ⟨_, (prepareValue_spec value [] 0 {} _).mpr ⟨hfits, hcount, hrefs, rfl⟩, ?_⟩
    have hitem := encode_item hrfc hsafe hkeys hfits
    have hshort : ¬ limits.maxEncodedBytes < (encodeTokens (value.canonical cborg).item.tokens).length := by omega
    simp only [hitem, if_neg hshort, pure_ok_iff]
    simp [PrepareState.add]

end RoundTrip

/-! ## Order -/

section Invariance

variable (cborg : Cborg)

theorem tokenCountOfProperties_perm {properties properties' : List (String × SValue)} (h : properties.Perm properties') :
    tokenCountOfProperties properties = tokenCountOfProperties properties' := by
  induction h with
  | nil => rfl
  | cons property _ ih => simp only [tokenCountOfProperties, ih]
  | swap property property' properties => simp only [tokenCountOfProperties]; omega
  | trans _ _ ih₁ ih₂ => exact ih₁.trans ih₂

theorem blobDepthsOfProperties_perm {properties properties' : List (String × SValue)} (h : properties.Perm properties')
    (depth : Nat) : (blobDepthsOfProperties properties depth).Perm (blobDepthsOfProperties properties' depth) := by
  induction h with
  | nil => exact List.Perm.refl _
  | cons property _ ih => exact List.Perm.append_left _ ih
  | swap property property' properties =>
    simp only [blobDepthsOfProperties, ← List.append_assoc]
    exact List.Perm.append_right _ List.perm_append_comm
  | trans _ _ ih₁ ih₂ => exact ih₁.trans ih₂

mutual
theorem SValue.tokenCount_canonical : (value : SValue) → (value.canonical cborg).tokenCount = value.tokenCount
  | .null | .bool _ | .number _ | .string _ | .sblob _ => by simp [SValue.canonical, SValue.tokenCount]
  | .array items => by simp only [SValue.canonical, SValue.tokenCount, tokenCountOfItems_canonical items]
  | .object properties => by
    simp only [SValue.canonical, SValue.tokenCount]
    rw [tokenCountOfProperties_perm (List.perm_insertionSort _ _), tokenCountOfProperties_canonical properties]
theorem tokenCountOfItems_canonical : (items : List SValue) →
    tokenCountOfItems (canonicalItems cborg items) = tokenCountOfItems items
  | [] => rfl
  | item :: items => by
    simp only [canonicalItems, tokenCountOfItems, item.tokenCount_canonical, tokenCountOfItems_canonical items]
theorem tokenCountOfProperties_canonical : (properties : List (String × SValue)) →
    tokenCountOfProperties (canonicalProperties cborg properties) = tokenCountOfProperties properties
  | [] => rfl
  | (_, value) :: properties => by
    simp only [canonicalProperties, tokenCountOfProperties, value.tokenCount_canonical,
      tokenCountOfProperties_canonical properties]
end

mutual
theorem SValue.blobDepths_canonical : (value : SValue) → (depth : Nat) →
    ((value.canonical cborg).blobDepths depth).Perm (value.blobDepths depth)
  | .null, _ | .bool _, _ | .number _, _ | .string _, _ | .sblob _, _ => by simp [SValue.canonical, SValue.blobDepths]
  | .array items, depth => by
    simp only [SValue.canonical, SValue.blobDepths]
    exact blobDepthsOfItems_canonical items (depth + 1)
  | .object properties, depth => by
    simp only [SValue.canonical, SValue.blobDepths]
    exact (blobDepthsOfProperties_perm (List.perm_insertionSort _ _) _).trans
      (blobDepthsOfProperties_canonical properties (depth + 1))
theorem blobDepthsOfItems_canonical : (items : List SValue) → (depth : Nat) →
    (blobDepthsOfItems (canonicalItems cborg items) depth).Perm (blobDepthsOfItems items depth)
  | [], _ => List.Perm.refl _
  | item :: items, depth => (item.blobDepths_canonical depth).append (blobDepthsOfItems_canonical items depth)
theorem blobDepthsOfProperties_canonical : (properties : List (String × SValue)) → (depth : Nat) →
    (blobDepthsOfProperties (canonicalProperties cborg properties) depth).Perm (blobDepthsOfProperties properties depth)
  | [], _ => List.Perm.refl _
  | (_, value) :: properties, depth =>
    (value.blobDepths_canonical depth).append (blobDepthsOfProperties_canonical properties depth)
end

end Invariance

end UniDocs.SValueCodec
