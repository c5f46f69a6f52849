import Mathlib.Algebra.Order.BigOperators.Group.List
import Mathlib.Algebra.Order.Ring.Int
import UniDocs.Lib.Result
import UniDocs.Lemmas.BlobChunks
import UniDocs.Theorems.CanonicalFormat
import UniDocs.Lib.CborReader

/-!
# The nodes of a blob

An index that passes its checks is read back from its encoding and fits a node. A node whose content type the format admits
is stored under its hash; one whose content type it does not admit is refused.
-/

namespace UniDocs.Blob

open Lib Lib.Cbor UniDocs.Cas UniDocs.Codec

/-! ## Validation -/

/-- What `validateBlobIndex` asks for. -/
structure ValidIndex (value : CasBlobIndexV1) : Prop where
  version : value.version = 1
  level_nonneg : 0 ≤ value.level
  level_le : value.level ≤ maxSafeInteger
  size_pos : 0 < value.size
  size_le : value.size ≤ maxSafeInteger
  mediaType : IsMediaType value.mediaType
  children_pos : 1 ≤ value.children.length
  children_le : value.children.length ≤ blobIndexFanout
  sizes_pos : ∀ child ∈ value.children, 0 < child
  total : value.children.sum = value.size

theorem validateSafeSize_ok_iff {value size : Int} {name : String} {allowZero : Bool} :
    validateSafeSize value name allowZero = .ok size ↔
      size = value ∧ value ≤ maxSafeInteger ∧ (if allowZero then 0 ≤ value else 0 < value) := by
  cases allowZero with
  | true =>
    simp only [validateSafeSize, maxSafeInteger, if_true]
    split_ifs with h
    · simp only [false_iff]
      omega
    · simp only [Except.ok.injEq]
      omega
  | false =>
    simp only [validateSafeSize, maxSafeInteger, Bool.false_eq_true, if_false]
    split_ifs with h
    · simp only [false_iff]
      omega
    · simp only [Except.ok.injEq]
      omega

theorem validateChildren_ok_iff {children : List Int} {index : Nat} {total result : Int} (htotal : 0 ≤ total)
    (hsafe : total ≤ maxSafeInteger) :
    validateChildren index total children = .ok result ↔
      (∀ child ∈ children, 0 < child) ∧ result = total + children.sum ∧ result ≤ maxSafeInteger := by
  induction children generalizing index total with
  | nil =>
    simp only [validateChildren, Except.ok.injEq, List.not_mem_nil, false_implies, implies_true, true_and, List.sum_nil]
    omega
  | cons child children ih =>
    simp only [validateChildren, throw_bind, bind_ok_iff, check_ok_iff, validateSafeSize_ok_iff, Bool.false_eq_true, if_false,
      List.mem_cons, forall_eq_or_imp, List.sum_cons]
    constructor
    · rintro ⟨size, ⟨rfl, hle, hpos⟩, hover, hrest⟩
      obtain ⟨hall, hresult, hmax⟩ := (ih (by omega) (by omega)).mp hrest
      exact ⟨⟨hpos, hall⟩, by omega, hmax⟩
    · rintro ⟨⟨hpos, hall⟩, hresult, hmax⟩
      have hsum : 0 ≤ children.sum := List.sum_nonneg fun x hx => (hall x hx).le
      have hover : ¬ (maxSafeInteger : Int) < total + child := by omega
      exact ⟨child, ⟨rfl, by omega, hpos⟩, hover, (ih (by omega) (by omega)).mpr ⟨hall, by omega, hmax⟩⟩

theorem validateBlobIndex_ok_iff {value : CasBlobIndexV1} : validateBlobIndex value = .ok () ↔ ValidIndex value := by
  simp only [validateBlobIndex, throw_bind, bind_ok_iff, check_ok_iff, validateSafeSize_ok_iff, pure_ok_iff,
    validateChildren_ok_iff (Int.le_refl 0) (by decide : (0 : Int) ≤ maxSafeInteger), Bool.false_eq_true, if_false, if_true,
    ne_eq, not_not]
  constructor
  · rintro ⟨hversion, _, ⟨rfl, hlevel, hlevel'⟩, _, ⟨rfl, hsize, hsize'⟩, hmedia, hcount, total, ⟨hpos, htotal, _⟩, heq, _⟩
    exact ⟨hversion, hlevel', hlevel, hsize', hsize, hmedia, by omega, by omega, hpos, by omega⟩
  · intro h
    exact ⟨h.version, _, ⟨rfl, h.level_le, h.level_nonneg⟩, _, ⟨rfl, h.size_le, h.size_pos⟩, h.mediaType,
      by have := h.children_pos; have := h.children_le; omega, _,
      ⟨h.sizes_pos, rfl, by rw [Int.zero_add, h.total]; exact h.size_le⟩, by rw [Int.zero_add, h.total], trivial⟩

/-! ## The wire format -/

theorem length_int_le (value : Int) : (Token.int value).encode.length ≤ 9 := by
  rw [Token.encode]
  split_ifs <;> exact length_head_le _ _

theorem tokensOfItems_ints (values : List Int) : tokensOfItems (values.map Item.int) = values.map Token.int := by
  induction values with
  | nil => rfl
  | cons value values ih => simp [tokensOfItems, Item.tokens, ih]

theorem length_encodeTokens_ints_le (values : List Int) :
    (encodeTokens (values.map Token.int)).length ≤ 9 * values.length := by
  induction values with
  | nil => simp [encodeTokens]
  | cons value values ih =>
    have hvalue := length_int_le value
    have hcons : encodeTokens ((value :: values).map Token.int)
        = (Token.int value).encode ++ encodeTokens (values.map Token.int) := rfl
    rw [hcons, List.length_append, List.length_cons]
    omega

theorem wireValue_tokens (value : CasBlobIndexV1) :
    (wireValue value).tokens = [.map 5, .text "c", .array value.children.length] ++ value.children.map Token.int
      ++ [.text "l", .int value.level, .text "m", .text value.mediaType, .text "s", .int value.size, .text "v",
        .int value.version] := by
  simp [wireValue, Item.tokens, tokensOfEntries, tokensOfItems_ints]

theorem canonicalItems_ints (values : List Int) : canonicalItems (values.map Item.int) := by
  induction values with
  | nil => trivial
  | cons value values ih => exact ⟨trivial, ih⟩

/-- The keys of an index are in the deterministic order. -/
theorem wireValue_canonical (value : CasBlobIndexV1) : (wireValue value).Canonical := by
  have hkey : ∀ a b : String, Token.encode (.text a) = [0x61, (utf8 a).headD 0] →
      Token.encode (.text b) = [0x61, (utf8 b).headD 0] → (utf8 a).headD 0 < (utf8 b).headD 0 → keyLt a b := by
    intro a b ha hb hlt
    rw [keyLt, ha, hb]
    exact Or.inr ⟨rfl, Or.inl hlt⟩
  refine ⟨?_, canonicalItems_ints _, trivial, trivial, trivial, trivial, trivial⟩
  simp only [List.pairwise_cons, List.mem_cons, List.not_mem_nil, or_false, forall_eq_or_imp, forall_eq, false_implies,
    implies_true, List.Pairwise.nil, and_true]
  refine ⟨⟨?_, ?_, ?_, ?_⟩, ⟨?_, ?_, ?_⟩, ⟨?_, ?_⟩, ?_⟩
  all_goals exact hkey _ _ (by decide) (by decide) (by decide)

theorem IsMediaType.length_utf8 {mediaType : String} (h : IsMediaType mediaType) :
    (utf8 mediaType).length = mediaType.length := by
  have htext : utf8 mediaType = textEncode mediaType := rfl
  rw [htext, textEncode_printable h.2.2, List.length_map, String.length_toList]

theorem ValidIndex.tokens_valid {value : CasBlobIndexV1} (h : ValidIndex value) :
    ∀ token ∈ (wireValue value).tokens, token.Valid := by
  have hint : ∀ n : Int, 0 ≤ n → n ≤ maxSafeInteger → (Token.int n).Valid := by
    intro n hpos hle
    simp only [maxSafeInteger] at hle
    constructor <;> omega
  have hchildren : ∀ child ∈ value.children, child ≤ maxSafeInteger := by
    intro child hchild
    have hle := List.single_le_sum (fun x hx => (h.sizes_pos x hx).le) child hchild
    rw [h.total] at hle
    exact hle.trans h.size_le
  have htext : (Token.text value.mediaType).Valid := by
    have hlen := h.mediaType.2.1
    simp only [Token.Valid, h.mediaType.length_utf8]
    omega
  have hcount : (Token.array value.children.length).Valid := by
    have hle := h.children_le
    simp only [blobIndexFanout] at hle
    simp only [Token.Valid]
    omega
  intro token htoken
  rw [wireValue_tokens] at htoken
  simp only [List.mem_append, List.mem_cons, List.not_mem_nil, or_false, List.mem_map] at htoken
  rcases htoken with ((rfl | rfl | rfl) | ⟨child, hchild, rfl⟩) | rfl | rfl | rfl | rfl | rfl | rfl | rfl | rfl
  · simp [Token.Valid]
  · exact (by decide : (utf8 "c").length < 2 ^ 53)
  · exact hcount
  · exact hint child (h.sizes_pos child hchild).le (hchildren child hchild)
  · exact (by decide : (utf8 "l").length < 2 ^ 53)
  · exact hint _ h.level_nonneg h.level_le
  · exact (by decide : (utf8 "m").length < 2 ^ 53)
  · exact htext
  · exact (by decide : (utf8 "s").length < 2 ^ 53)
  · exact hint _ h.size_pos.le h.size_le
  · exact (by decide : (utf8 "v").length < 2 ^ 53)
  · rw [h.version]
    exact hint 1 (by decide) (by decide)

theorem wireValue_no_tag (value : CasBlobIndexV1) (number : Nat) : Token.tag number ∉ (wireValue value).tokens := by
  rw [wireValue_tokens]
  simp

section Codec

variable {cborg : Cborg}

theorem encodeBlobIndex_ok_iff (hrfc : cborg.Rfc8949) {value : CasBlobIndexV1} {content : Bytes} :
    encodeBlobIndex cborg value = .ok content ↔ ValidIndex value ∧ content = encodeTokens (wireValue value).tokens := by
  simp only [encodeBlobIndex, bind_ok_iff, pure_ok_iff]
  constructor
  · rintro ⟨⟨⟩, hvalid, hcontent⟩
    have h := validateBlobIndex_ok_iff.mp hvalid
    rw [hrfc.encode_canonical _ (wireValue_canonical value) h.tokens_valid] at hcontent
    exact ⟨h, hcontent⟩
  · rintro ⟨h, rfl⟩
    exact ⟨(), validateBlobIndex_ok_iff.mpr h,
      (hrfc.encode_canonical _ (wireValue_canonical value) h.tokens_valid).symm⟩

/-- An index takes less than four kilobytes. -/
theorem length_encodeBlobIndex_le (hrfc : cborg.Rfc8949) {value : CasBlobIndexV1} {content : Bytes}
    (h : encodeBlobIndex cborg value = .ok content) : content.length ≤ 4096 := by
  obtain ⟨hvalid, rfl⟩ := (encodeBlobIndex_ok_iff hrfc).mp h
  have hchildren := length_encodeTokens_ints_le value.children
  have hcount := hvalid.children_le
  simp only [blobIndexFanout] at hcount
  have harray := length_head_le 4 value.children.length
  have hlevel := length_int_le value.level
  have hsize := length_int_le value.size
  have hversion := length_int_le value.version
  have hhead := length_head_le 3 (utf8 value.mediaType).length
  have hmedia := hvalid.mediaType.2.1
  have hutf8 := hvalid.mediaType.length_utf8
  have hkeys : (Token.encode (.text "c")).length = 2 ∧ (Token.encode (.text "l")).length = 2
      ∧ (Token.encode (.text "m")).length = 2 ∧ (Token.encode (.text "s")).length = 2
      ∧ (Token.encode (.text "v")).length = 2 ∧ (Token.encode (.map 5)).length = 1 := by decide
  obtain ⟨hc, hl, hm, hs, hv, hmap⟩ := hkeys
  have harray' : (Token.encode (.array value.children.length)).length ≤ 9 := harray
  have htext : (Token.encode (.text value.mediaType)).length ≤ 9 + value.mediaType.length := by
    simp only [Token.encode, List.length_append]
    omega
  rw [wireValue_tokens, encodeTokens_append, encodeTokens_append]
  simp only [encodeTokens, List.flatMap_cons, List.flatMap_nil, List.length_append, List.length_nil] at hchildren ⊢
  omega

theorem map_wireNumber_ints (values : List Int) : (values.map Item.int).map wireNumber = values := by
  rw [List.map_map]
  conv_rhs => rw [← List.map_id values]
  rfl

/-- A valid index is read back from its encoding. -/
theorem decodeBlobIndex_encode (hrfc : cborg.Rfc8949) {value : CasBlobIndexV1} {content : Bytes}
    (h : encodeBlobIndex cborg value = .ok content) : decodeBlobIndex cborg content = .ok value := by
  obtain ⟨hvalid, hcontent⟩ := (encodeBlobIndex_ok_iff hrfc).mp h
  have hdecode := hrfc.decode_encode _ (wireValue_canonical value) hvalid.tokens_valid (wireValue_no_tag value)
  rw [← hcontent] at hdecode
  obtain ⟨entries, hentries⟩ : ∃ entries, wireValue value = .map entries := ⟨_, rfl⟩
  have hkeys : joinedKeys entries = "c,l,m,s,v" := by
    have hlist : String.intercalate "," (["c", "l", "m", "s", "v"].dedup.insertionSort (· ≤ ·)) = "c,l,m,s,v" := by
      decide
    cases hentries
    exact hlist
  have hproperties : property entries "c" = .array (value.children.map Item.int) ∧ property entries "l" = .int value.level
      ∧ property entries "m" = .text value.mediaType ∧ property entries "s" = .int value.size
      ∧ property entries "v" = .int value.version := by
    cases hentries
    simp [property]
  obtain ⟨hc, hl, hm, hs, hv⟩ := hproperties
  have hvalidate := validateBlobIndex_ok_iff.mpr hvalid
  rw [hentries] at hdecode
  simp only [decodeBlobIndex, hdecode, bind, Except.bind, pure, Except.pure, hkeys, ne_eq, not_true_eq_false, if_false,
    hc, hl, hm, hs, hv, wireNumber, wireText, map_wireNumber_ints, hvalidate, h]

end Codec

/-! ## Storing a node -/

section Store

variable {sha256 : Bytes → Bytes}

theorem hashToHex_sha256 (hsha : ∀ bytes, (sha256 bytes).length = hashSize) (bytes : Bytes) :
    ∃ hash, hashToHex (sha256 bytes) = .ok hash ∧ IsHash hash := by
  have hok : hashToHex (sha256 bytes) = .ok (String.ofList ((sha256 bytes).flatMap byteHex)) := by
    rw [hashToHex, if_neg (by rw [hsha]; simp)]
  exact ⟨_, hok, (hashToHex_ok hok).1⟩

theorem storeNodeContent_ok (hsha : ∀ bytes, (sha256 bytes).length = hashSize) (node : Node) (leases : Leases) :
    ∃ hash, IsHash hash ∧ storeNodeContent sha256 leases node.content node.contentType node.refs
      = .ok (leases ++ [(hash, ⟨node.contentType, node.refs, node.content⟩)], hash) := by
  obtain ⟨front, henc⟩ : ∃ front, node.encode = .ok (front ++ node.content) := by
    obtain ⟨raws, henc, _⟩ := node.encode_eq
    exact ⟨_, henc⟩
  have hflat : [front ++ node.content].flatten = front ++ node.content := List.append_nil _
  obtain ⟨parsed, hparsed, hsize, htype, hrefs, hcanon, herror, hbytes⟩ := parse_encode node henc hflat (Or.inr rfl)
  obtain ⟨hash, hhash, his⟩ := hashToHex_sha256 hsha (front ++ node.content)
  have hencode : encodeCanonicalNode node.contentType node.refs node.content = .ok (front ++ node.content) := henc
  have hcontent : parsed.body.bytes.drop (parsed.canonicalSize - parsed.contentSize) = node.content := by
    rw [hbytes, hcanon, hsize]
    apply List.drop_left'
    rw [List.length_append]
    omega
  refine ⟨hash, his, ?_⟩
  simp only [storeNodeContent, leaseNode, hencode, hhash, hparsed, herror, bind, Except.bind, pure, Except.pure, ne_eq,
    not_true_eq_false, if_false, htype, hrefs, hcontent]

/-- Equal headers have equal fields, up to the width of each field. -/
theorem encodeHeader_inj {size size' count count' : Nat} {contentType contentType' : String}
    (h : encodeHeader size contentType count = encodeHeader size' contentType' count') :
    size % 256 ^ 8 = size' % 256 ^ 8 ∧ count % 256 ^ 4 = count' % 256 ^ 4 := by
  simp only [encodeHeader, List.append_assoc] at h
  obtain ⟨_, h⟩ := List.append_inj h rfl
  obtain ⟨_, h⟩ := List.append_inj h rfl
  obtain ⟨_, h⟩ := List.append_inj h rfl
  obtain ⟨hsize, h⟩ := List.append_inj h (by simp)
  obtain ⟨hcount, _⟩ := List.append_inj h (by simp)
  exact ⟨by rw [← natLE_bytesLE, ← natLE_bytesLE, hsize], by rw [← natLE_bytesLE, ← natLE_bytesLE, hcount]⟩

/-- A leaf that was stored has a content type that the format admits. -/
theorem storeNodeContent_mediaType {leases : Leases} {content : Bytes} {contentType : String} {result : Leases × Hash}
    (h : storeNodeContent sha256 leases content contentType [] = .ok result) (hlen : content.length < 2 ^ 64) :
    IsMediaType contentType := by
  simp only [storeNodeContent, leaseNode, bind_ok_iff, pure_ok_iff] at h
  obtain ⟨bytes, hbytes, hash, _, _, ⟨parsed, hparsed, hrest⟩, _⟩ := h
  have herror : parsed.body.error = none := by
    cases herr : parsed.body.error with
    | none => rfl
    | some e =>
      rw [herr] at hrest
      simp only [throw_bind] at hrest
      cases hrest
  obtain ⟨node, _, _, _, _, _, _, hencode⟩ := encode_parse hparsed herror
  have hsource : (ByteStream.mk [bytes] none).bytes = bytes := by simp [ByteStream.bytes]
  rw [hsource] at hencode
  obtain ⟨raws, henc, hraws, hsizes, _⟩ := node.encode_eq
  rw [henc, Except.ok.injEq] at hencode
  have hleaf : bytes = encodeHeader content.length contentType 0 ++ textEncode contentType ++ content := by
    simp only [encodeCanonicalNode, List.mapM_nil, bind, Except.bind, pure, Except.pure, concatenateNodeBytes,
      List.length_nil, List.flatten_nil, List.append_nil, Except.ok.injEq] at hbytes
    exact hbytes.symm
  -- the header fixes the size and the count of refs, so that the content types have the same length
  rw [hleaf] at hencode
  simp only [List.append_assoc] at hencode
  obtain ⟨hheader, hbody⟩ := List.append_inj hencode (by simp)
  obtain ⟨hsize, hcount⟩ := encodeHeader_inj hheader
  have hnode := node.size_le
  have hrefs := node.refs_length
  simp only [Codec.maxCanonicalNodeBytes, maxNodeRefs] at hnode hrefs
  have hcontent : node.content.length = content.length := by omega
  have hleafRefs : raws = [] := List.length_eq_zero_iff.mp (by omega)
  subst hleafRefs
  have htext : (textEncode node.contentType).length = (textEncode contentType).length := by
    have hlength := congrArg List.length hbody
    simp only [List.flatten_nil, List.nil_append, List.length_append] at hlength
    omega
  have hsame : node.contentType = contentType := utf8_injective (List.append_inj hbody htext).1
  rw [← hsame]
  exact ⟨node.contentType_length.1, node.contentType_length.2, node.contentType_printable⟩

end Store

end UniDocs.Blob
