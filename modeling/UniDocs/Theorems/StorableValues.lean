import UniDocs.Theorems.SValueRoundTrip
import UniDocs.Theorems.CanonicalFormat

/-!
# Values that the store admits

`SBlobRuntime.#store` turns an encoded value into a CAS node with one child per SBlob occurrence. The limits of the codec
nest in those of the node format except for the number of children: the codec admits a hundred thousand refs, a node holds
at most 256.
-/

namespace UniDocs.SValueCodec

open Lib Lib.Cbor UniDocs.Cas UniDocs.Codec

def sValueContentType : String := "application/vnd.unidocs.svalue+cbor;version=1"

/-- The service admits the header of the node that `#store` builds for an encoded value. -/
def NodeAdmitted (data : Bytes) (refs : List Hash) : Prop :=
  ∃ decoded total, decodeHeader (encodeHeader data.length sValueContentType refs.length) = .ok decoded
    ∧ validateDecodedHeader decoded = .ok ()
    ∧ validateCanonicalNodeSize decoded.contentSize decoded.contentTypeLength decoded.refCount {} = .ok total

/-! ## Refs -/

section Refs

variable (cborg : Cborg)

theorem refsOfProperties_perm {properties properties' : List (String × SValue)} (h : properties.Perm properties') :
    (refsOfProperties properties).Perm (refsOfProperties properties') := by
  induction h with
  | nil => exact List.Perm.refl _
  | cons property _ ih => exact List.Perm.append_left _ ih
  | swap property property' properties =>
    simp only [refsOfProperties, ← List.append_assoc]
    exact List.Perm.append_right _ List.perm_append_comm
  | trans _ _ ih₁ ih₂ => exact ih₁.trans ih₂

mutual
theorem SValue.refs_canonical : (value : SValue) → (value.canonical cborg).refs.Perm value.refs
  | .null | .bool _ | .number _ | .string _ | .sblob _ => by simp [SValue.canonical, SValue.refs]
  | .array items => by
    simp only [SValue.canonical, SValue.refs]
    exact refsOfItems_canonical items
  | .object properties => by
    simp only [SValue.canonical, SValue.refs]
    exact (refsOfProperties_perm (List.perm_insertionSort _ _)).trans (refsOfProperties_canonical properties)
theorem refsOfItems_canonical : (items : List SValue) → (refsOfItems (canonicalItems cborg items)).Perm (refsOfItems items)
  | [] => List.Perm.refl _
  | item :: items => item.refs_canonical.append (refsOfItems_canonical items)
theorem refsOfProperties_canonical : (properties : List (String × SValue)) →
    (refsOfProperties (canonicalProperties cborg properties)).Perm (refsOfProperties properties)
  | [] => List.Perm.refl _
  | (_, value) :: properties => value.refs_canonical.append (refsOfProperties_canonical properties)
end

end Refs

/-! ## Admission -/

/-- The header of an encoded value passes exactly when it has no more children than a node holds. -/
theorem nodeAdmitted_iff {data : Bytes} {refs : List Hash} (hdata : data.length ≤ defaultLimits.maxEncodedBytes)
    (hrefs : refs.length ≤ defaultLimits.maxRefs) : NodeAdmitted data refs ↔ refs.length ≤ maxNodeRefs := by
  have htype : (textEncode sValueContentType).length = 45 := by decide
  simp only [defaultLimits] at hdata hrefs
  have hsafe : data.length ≤ maxSafeInteger := by
    simp only [maxSafeInteger]
    omega
  have hdecoded := decodeHeader_encodeHeader hsafe (by omega : refs.length < 2 ^ 32)
    (by rw [htype]; omega : (textEncode sValueContentType).length < 2 ^ 16)
  rw [htype] at hdecoded
  constructor
  · rintro ⟨decoded, total, hdec, _, hsize⟩
    rw [hdecoded, Except.ok.injEq] at hdec
    subst hdec
    exact (validateCanonicalNodeSize_ok hsize).2.2.2.2.1
  · intro hfew
    have hfew' := hfew
    simp only [maxNodeRefs] at hfew'
    have htotal : headerSize + 45 + refs.length * hashSize + data.length ≤ Codec.maxCanonicalNodeBytes := by
      simp only [headerSize, hashSize, Codec.maxCanonicalNodeBytes]
      omega
    have hsize := validateCanonicalNodeSize_default (by decide : minContentTypeLength ≤ 45)
      (by decide : 45 ≤ maxContentTypeLength) hfew htotal
    exact ⟨_, _, hdecoded, validateDecodedHeader_ok_iff.mpr ⟨rfl, rfl, rfl, rfl, _, hsize⟩, hsize⟩

/-- For every value that the codec accepts with its default limits, the CAS node that `#store` builds for it is admitted
exactly when the value holds at most 256 SBlobs. -/
theorem svalue_storable {cborg : Cborg} (hrfc : cborg.Rfc8949) {value : SValue} (hkeys : value.DistinctKeys)
    {encoded : EncodedSValue} (hencoded : encodeSValueWithRefs cborg value {} = .ok encoded) :
    NodeAdmitted encoded.data encoded.refs ↔ value.refs.length ≤ maxNodeRefs := by
  have hsafe := codecLimits_safe codecLimits_default
  have hdetailed : encodeDetailed cborg defaultLimits value = .ok encoded := by
    simpa only [encodeSValueWithRefs, codecLimits_default, bind, Except.bind] using hencoded
  obtain ⟨henc, rfl⟩ := (encodeDetailed_ok_iff hrfc hsafe hkeys).mp hdetailed
  have hcount : (value.canonical cborg).refs.length = value.refs.length := (value.refs_canonical cborg).length_eq
  have hmany : (value.canonical cborg).refs.length ≤ defaultLimits.maxRefs := by
    rcases henc.refs with h | h
    · rw [h]
      exact Nat.zero_le _
    · omega
  rw [nodeAdmitted_iff henc.bytes hmany, hcount]

/-- The node of an SBlob inside two arrays is admitted. -/
theorem svalue_storable_nested :
    ∃ encoded, encodeSValueWithRefs rfcCborg (nested 2) {} = .ok encoded ∧ NodeAdmitted encoded.data encoded.refs := by
  have hencoded := nested_encoded (by decide : 2 ≤ 100)
  refine ⟨_, hencoded, (svalue_storable rfcCborg_rfc8949 (nested_distinctKeys 2) hencoded).mpr ?_⟩
  rw [nested_refs]
  decide

/-! ## Too many children -/

/-- An array of `n` SBlobs. -/
def blobs (n : Nat) : List SValue := List.replicate n (.sblob someHash)

theorem blobs_shape (cborg : Cborg) (n : Nat) :
    distinctItems (blobs n) ∧ canonicalItems cborg (blobs n) = blobs n ∧ itemsFit defaultLimits (blobs n) 1
      ∧ countOfItems (blobs n) = n ∧ (refsOfItems (blobs n)).length = n
      ∧ (encodeTokens (tokensOfItems (itemsOf (blobs n)))).length = n * 39 := by
  induction n with
  | zero => exact ⟨trivial, rfl, trivial, rfl, rfl, rfl⟩
  | succ n ih =>
    obtain ⟨hkeys, hcanon, hfits, hcount, hrefs, hbytes⟩ := ih
    have hone : (encodeTokens (SValue.sblob someHash).item.tokens).length = 39 := nested_length 0
    have hsucc : blobs (n + 1) = .sblob someHash :: blobs n := rfl
    rw [hsucc]
    refine ⟨⟨trivial, hkeys⟩, ?_, ⟨by simp [SValue.Fits, defaultLimits], hfits⟩, ?_, ?_, ?_⟩
    · simp only [canonicalItems, SValue.canonical, hcanon]
    · simp only [countOfItems, SValue.count, hcount]
      omega
    · simp only [refsOfItems, SValue.refs, List.length_append, List.length_singleton, hrefs]
      omega
    · simp only [itemsOf, tokensOfItems, encodeTokens_append, List.length_append, hone, hbytes]
      omega

/-- The codec accepts an array of 257 SBlobs under its default limits, and the service refuses its node. -/
theorem svalue_storable_false :
    ∃ encoded, encodeSValueWithRefs rfcCborg (.array (blobs 257)) {} = .ok encoded
      ∧ ¬ NodeAdmitted encoded.data encoded.refs := by
  obtain ⟨hkeys, hcanon, hfits, hcount, hrefs, hbytes⟩ := blobs_shape rfcCborg 257
  have hvalue : (SValue.array (blobs 257)).canonical rfcCborg = .array (blobs 257) := by
    simp only [SValue.canonical, hcanon]
  have hsafe := codecLimits_safe codecLimits_default
  have hlength : (blobs 257).length = 257 := List.length_replicate
  have hhead : (Token.encode (.array 257)).length = 3 := by decide
  have hsize : (encodeTokens (SValue.array (blobs 257)).item.tokens).length = 3 + 257 * 39 := by
    simp only [SValue.item, Item.tokens, length_itemsOf, encodeTokens_cons, List.length_append, hlength, hhead, hbytes]
  have henc : Encodable rfcCborg defaultLimits (.array (blobs 257)) := by
    constructor
    · rw [hvalue]
      exact ⟨Nat.zero_le _, by rw [hlength]; decide, hfits⟩
    · rw [hvalue]
      simp only [SValue.count, hcount]
      exact Or.inr (by decide)
    · rw [hvalue]
      simp only [SValue.refs, hrefs]
      exact Or.inr (by decide)
    · rw [hvalue, hsize]
      decide
  have hdistinct : (SValue.array (blobs 257)).DistinctKeys := hkeys
  have hencode := (encodeDetailed_ok_iff rfcCborg_rfc8949 hsafe hdistinct).mpr ⟨henc, rfl⟩
  rw [hvalue] at hencode
  refine ⟨⟨encodeTokens (SValue.array (blobs 257)).item.tokens, (SValue.array (blobs 257)).refs⟩, ?_, ?_⟩
  · simp only [encodeSValueWithRefs, codecLimits_default, bind, Except.bind, hencode]
  · have hcrowd : (SValue.array (blobs 257)).refs.length = 257 := hrefs
    rw [nodeAdmitted_iff (by rw [hsize]; decide) (by rw [hcrowd]; decide), hcrowd]
    decide

end UniDocs.SValueCodec
