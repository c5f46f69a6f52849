import UniDocs.Codec.Binary

/-!
# Reading and writing canonical nodes

Statements about the parts of `parseCanonicalNodeStream`: the cursor reads a prefix of the stream whatever the cuts are, the
replay passes on everything or ends with an error, and each field of the prefix is the inverse of the one that
`encodeHeader` and `concatenateNodeBytes` write.
-/

namespace UniDocs.Codec

open Lib UniDocs.Cas

/-! ## The cursor -/

theorem StreamCursor.next_none {cursor cursor' : StreamCursor} (h : cursor.next = .ok (none, cursor')) :
    cursor.pending = [] := by
  obtain ⟨⟨chunks, error⟩, remainder⟩ := cursor
  cases remainder with
  | some c => cases h
  | none =>
    cases chunks with
    | nil => rfl
    | cons c chunks => cases h

theorem StreamCursor.next_of_pending {cursor : StreamCursor} (h : cursor.pending ≠ []) :
    ∃ chunk cursor', cursor.next = .ok (some chunk, cursor') := by
  obtain ⟨⟨chunks, error⟩, remainder⟩ := cursor
  cases remainder with
  | some c => exact ⟨c, _, rfl⟩
  | none =>
    cases chunks with
    | nil => exact absurd rfl h
    | cons c chunks => exact ⟨c, _, rfl⟩

/-- What the loop returns has the length asked for, and what is left follows it. -/
theorem StreamCursor.readLoop_sound (length : Nat) (cursor : StreamCursor) (result : Bytes) :
    ∀ {out : Bytes} {rest : StreamCursor}, result.length ≤ length → cursor.readLoop length result = .ok (out, rest) →
      out.length = length ∧ out ++ rest.pending.flatten = result ++ cursor.pending.flatten
        ∧ rest.reader.error = cursor.reader.error := by
  fun_induction StreamCursor.readLoop length cursor result with
  | case1 => intro out rest _ h; cases h
  | case2 => intro out rest _ h; cases h
  | case3 cursor result hlt chunk cursor' hnext take =>
    intro out rest hle h
    obtain ⟨hpend, hrem, herr⟩ := pending_next hnext
    cases h
    have htk : take = length - result.length := by omega
    refine ⟨?_, ?_, herr⟩
    · simp only [List.length_append, List.length_take]
      omega
    · have hp : cursor'.pending = cursor'.reader.chunks := by simp [pending, hrem]
      rw [hpend, hp]
      simp only [pending, Option.toList_some, List.flatten_cons, List.singleton_append, List.append_assoc,
        List.append_cancel_left_eq]
      rw [← List.append_assoc, List.take_append_drop]
  | case4 cursor result hlt chunk cursor' hnext take htake =>
    rename_i ih
    intro out rest hle h
    obtain ⟨hpend, hrem, herr⟩ := pending_next hnext
    have hall : chunk.take take = chunk := List.take_of_length_le (by omega)
    have hle' : (result ++ chunk.take take).length ≤ length := by
      simp only [List.length_append, List.length_take]
      omega
    obtain ⟨hlen, happ, herr'⟩ := ih hle' h
    refine ⟨hlen, ?_, herr'.trans herr⟩
    rw [happ, hpend, hall, List.flatten_cons, List.append_assoc]
  | case5 cursor result hge =>
    intro out rest hle h
    cases h
    exact ⟨by omega, rfl, rfl⟩

theorem StreamCursor.readLoop_complete (length : Nat) (cursor : StreamCursor) (result : Bytes) :
    length ≤ result.length + cursor.pending.flatten.length → ∃ out rest, cursor.readLoop length result = .ok (out, rest) := by
  fun_induction StreamCursor.readLoop length cursor result with
  | case1 cursor result hlt error hnext =>
    intro hle
    have hne : cursor.pending ≠ [] := by
      intro hnil
      rw [hnil, List.flatten_nil, List.length_nil] at hle
      omega
    obtain ⟨chunk, cursor', h⟩ := next_of_pending hne
    rw [hnext] at h
    cases h
  | case2 cursor result hlt _ hnext =>
    intro hle
    rw [next_none hnext, List.flatten_nil, List.length_nil] at hle
    omega
  | case3 => exact fun _ => ⟨_, _, rfl⟩
  | case4 cursor result hlt chunk cursor' hnext take htake ih =>
    intro hle
    apply ih
    rw [(pending_next hnext).1, List.flatten_cons, List.length_append] at hle
    simp only [List.length_append, List.length_take]
    omega
  | case5 => exact fun _ => ⟨_, _, rfl⟩

theorem StreamCursor.readExactly_sound {cursor rest : StreamCursor} {length : Nat} {out : Bytes}
    (h : cursor.readExactly length = .ok (out, rest)) :
    out.length = length ∧ out ++ rest.pending.flatten = cursor.pending.flatten
      ∧ rest.reader.error = cursor.reader.error := by
  have h' := readLoop_sound length cursor [] (Nat.zero_le _) h
  simpa using h'

theorem StreamCursor.readExactly_append {cursor : StreamCursor} {part tail : Bytes}
    (h : cursor.pending.flatten = part ++ tail) :
    ∃ rest, cursor.readExactly part.length = .ok (part, rest) ∧ rest.pending.flatten = tail
      ∧ rest.reader.error = cursor.reader.error := by
  have hle : part.length ≤ ([] : Bytes).length + cursor.pending.flatten.length := by
    rw [h, List.length_append, List.length_nil]
    omega
  obtain ⟨out, rest, hread⟩ := readLoop_complete part.length cursor [] hle
  obtain ⟨hlen, happ, herr⟩ := readExactly_sound hread
  rw [h] at happ
  obtain ⟨rfl, htail⟩ := List.append_inj happ hlen
  exact ⟨rest, hread, htail, herr⟩

/-! ## The replay -/

theorem replayChunks_error (expectedLength : Nat) (error : Option String) (emitted : Nat) (chunks : List Bytes) :
    (replayChunks expectedLength error emitted chunks).error = none ↔
      error = none ∧ emitted + chunks.flatten.length = expectedLength := by
  induction chunks generalizing emitted with
  | nil =>
    cases error with
    | some e => simp [replayChunks]
    | none =>
      by_cases he : emitted = expectedLength
      · simp [replayChunks, he]
      · simp [replayChunks, he]
  | cons chunk chunks ih =>
    rw [List.flatten_cons, List.length_append, replayChunks]
    by_cases hlt : expectedLength < emitted + chunk.length
    · simp only [if_pos hlt, reduceCtorEq, false_iff, not_and]
      intro _
      omega
    · simp only [if_neg hlt, ih, Nat.add_assoc]

theorem replayChunks_bytes {expectedLength : Nat} {error : Option String} {emitted : Nat} {chunks : List Bytes}
    (h : (replayChunks expectedLength error emitted chunks).error = none) :
    (replayChunks expectedLength error emitted chunks).bytes = chunks.flatten := by
  induction chunks generalizing emitted with
  | nil =>
    cases error with
    | some e => simp [replayChunks] at h
    | none =>
      by_cases he : emitted = expectedLength
      · simp [replayChunks, he, ByteStream.bytes]
      · simp [replayChunks, he] at h
  | cons chunk chunks ih =>
    rw [replayChunks] at h ⊢
    by_cases hlt : expectedLength < emitted + chunk.length
    · simp only [if_pos hlt, reduceCtorEq] at h
    · simp only [if_neg hlt] at h ⊢
      have hrest := ih h
      simp only [ByteStream.bytes] at hrest
      simp only [ByteStream.bytes, List.flatten_cons, hrest]

/-! ## The header -/

theorem toNumber_of_lt {n : Nat} (h : n < 2 ^ 53) : toNumber n = n := by
  rw [toNumber, if_pos h]

/-- A size that the double does not represent exactly stays outside the safe range. -/
theorem toNumber_le_iff {n : Nat} : toNumber n ≤ maxSafeInteger ↔ n ≤ maxSafeInteger := by
  by_cases h : n < 2 ^ 53
  · rw [toNumber_of_lt h]
  · have hne : n ≠ 0 := by omega
    have hlog : 53 ≤ n.log2 := (Nat.le_log2 hne).mpr (by omega)
    have hpow : 2 ^ n.log2 ≤ n := Nat.log2_self_le hne
    have hunit : 2 ^ (n.log2 - 52) * 2 ^ 52 = 2 ^ n.log2 := by rw [← Nat.pow_add]; congr 1; omega
    have htwo : 2 ^ 1 ≤ 2 ^ (n.log2 - 52) := Nat.pow_le_pow_right (by omega) (by omega)
    have hquot : 2 ^ 52 ≤ n / 2 ^ (n.log2 - 52) := by
      rw [Nat.le_div_iff_mul_le (by omega), Nat.mul_comm, hunit]
      exact hpow
    have hbig : 2 ^ 53 ≤ n / 2 ^ (n.log2 - 52) * 2 ^ (n.log2 - 52) :=
      calc 2 ^ 53 = 2 ^ 52 * 2 ^ 1 := by norm_num
        _ ≤ n / 2 ^ (n.log2 - 52) * 2 ^ (n.log2 - 52) := Nat.mul_le_mul hquot htwo
    have hnum : 2 ^ 53 ≤ toNumber n := by
      simp only [toNumber, if_neg h]
      split
      · exact hbig.trans (Nat.mul_le_mul_right _ (Nat.le_succ _))
      · exact hbig
    simp only [maxSafeInteger]
    omega

@[simp] theorem length_encodeHeader (contentSize : Nat) (contentType : String) (refCount : Nat) :
    (encodeHeader contentSize contentType refCount).length = headerSize := by
  simp [encodeHeader, headerSize]

/-- The header of sizes that fit their fields is decoded to these sizes. -/
theorem decodeHeader_encodeHeader {contentSize refCount : Nat} {contentType : String} (hsize : contentSize ≤ maxSafeInteger)
    (hrefs : refCount < 2 ^ 32) (htype : (textEncode contentType).length < 2 ^ 16) :
    decodeHeader (encodeHeader contentSize contentType refCount) =
      .ok ⟨[0x55, 0x44], version, 0, contentSize, refCount, (textEncode contentType).length, 0⟩ := by
  have hs : getUint (encodeHeader contentSize contentType refCount) 8 8 = natLE (bytesLE 8 contentSize) := rfl
  have hr : getUint (encodeHeader contentSize contentType refCount) 16 4 = natLE (bytesLE 4 refCount) := rfl
  have ht : getUint (encodeHeader contentSize contentType refCount) 20 2
      = natLE (bytesLE 2 (textEncode contentType).length) := rfl
  have hv : getUint (encodeHeader contentSize contentType refCount) 2 2 = version := rfl
  have hf : getUint (encodeHeader contentSize contentType refCount) 4 4 = 0 := rfl
  have hz : getUint (encodeHeader contentSize contentType refCount) 22 2 = 0 := rfl
  have hg : (encodeHeader contentSize contentType refCount).take 2 = [0x55, 0x44] := rfl
  have hsafe : contentSize < 2 ^ 53 := by simp only [maxSafeInteger] at hsize; omega
  rw [natLE_bytesLE_of_lt (by omega)] at hs hr ht
  rw [decodeHeader, if_neg (by simp), hs, hr, ht, hv, hf, hz, hg, toNumber_of_lt hsafe]

theorem header_slices {header : Bytes} (h : header.length = headerSize) :
    header = header.take 2 ++ (header.drop 2).take 2 ++ (header.drop 4).take 4 ++ (header.drop 8).take 8
      ++ (header.drop 16).take 4 ++ (header.drop 20).take 2 ++ (header.drop 22).take 2 := by
  have hsplit : ∀ m n, header.take m ++ (header.drop m).take n = header.take (m + n) := fun m n => List.take_add.symm
  have hall : header.take 24 = header := List.take_of_length_le (by simp [h, headerSize])
  simp only [hsplit, hall]

theorem encodeHeader_of_decodeHeader {header : Bytes} {decoded : DecodedHeader} {contentType : String}
    (h : decodeHeader header = .ok decoded) (hsig : decoded.signature = [0x55, 0x44]) (hver : decoded.version = version)
    (hflags : decoded.flags = 0) (hres : decoded.reserved = 0) (hsize : decoded.contentSize ≤ maxSafeInteger)
    (htype : (textEncode contentType).length = decoded.contentTypeLength) :
    encodeHeader decoded.contentSize contentType decoded.refCount = header := by
  rw [decodeHeader] at h
  by_cases hlen : header.length = headerSize
  case neg => simp only [ne_eq, hlen, not_false_eq_true, if_true, reduceCtorEq] at h
  simp only [ne_eq, hlen, not_true_eq_false, if_false, Except.ok.injEq] at h
  subst h
  have hle : headerSize = 24 := rfl
  have hfield : ∀ offset width, offset + width ≤ 24 →
      bytesLE width (getUint header offset width) = (header.drop offset).take width := by
    intro offset width hw
    apply bytesLE_natLE_of_length
    rw [List.length_take, List.length_drop, hlen, hle]
    omega
  have hexact : toNumber (getUint header 8 8) = getUint header 8 8 := by
    have hs := toNumber_le_iff.mp hsize
    simp only [maxSafeInteger] at hs
    exact toNumber_of_lt (by omega)
  have hv := hfield 2 2 (by omega)
  have hf := hfield 4 4 (by omega)
  have hz := hfield 22 2 (by omega)
  simp only at hsig hver hflags hres
  rw [hver] at hv
  rw [hflags] at hf
  rw [hres] at hz
  simp only [encodeHeader, htype, hexact, ← hsig, hv, hf, hz, hfield 8 8 (by omega), hfield 16 4 (by omega),
    hfield 20 2 (by omega)]
  exact (header_slices hlen).symm

/-! ## Content types -/

/-- Printable characters take one byte each. -/
theorem textEncode_printable {contentType : String} (h : ∀ c ∈ contentType.toList, IsPrintable c) :
    textEncode contentType = contentType.toList.map fun c => UInt8.ofNat c.toNat := by
  have hchars : ∀ cs : List Char, (∀ c ∈ cs, IsPrintable c) →
      cs.flatMap String.utf8EncodeChar = cs.map fun c => UInt8.ofNat c.toNat := by
    intro cs hcs
    induction cs with
    | nil => rfl
    | cons c cs ih =>
      obtain ⟨_, hc⟩ := hcs c (by simp)
      have hone : String.utf8EncodeChar c = [UInt8.ofNat c.toNat] := by
        have hval : c.val.toNat ≤ 127 := by
          have : c.val.toNat = c.toNat := rfl
          omega
        rw [String.utf8EncodeChar, if_pos hval]
        rfl
      rw [List.flatMap_cons, hone, ih fun x hx => hcs x (by simp [hx]), List.map_cons]
      rfl
  exact hchars _ h

theorem textDecode_textEncode {contentType : String} (h : ∀ c ∈ contentType.toList, IsPrintable c) :
    textDecode (textEncode contentType) = contentType := by
  have hid : (contentType.toList.map fun c => Char.ofNat (UInt8.ofNat c.toNat).toNat) = contentType.toList := by
    conv_rhs => rw [← List.map_id contentType.toList]
    apply List.map_congr_left
    intro c hc
    obtain ⟨_, hle⟩ := h c hc
    have hnat : (UInt8.ofNat c.toNat).toNat = c.toNat := by
      have hmod : (UInt8.ofNat c.toNat).toNat = c.toNat % 256 := by simp
      omega
    rw [hnat, Char.ofNat_toNat]
    rfl
  rw [textDecode, textEncode_printable h, List.map_map]
  have hcomp : (fun b : UInt8 => Char.ofNat b.toNat) ∘ (fun c : Char => UInt8.ofNat c.toNat)
      = fun c => Char.ofNat (UInt8.ofNat c.toNat).toNat := rfl
  rw [hcomp, hid, String.ofList_toList]

theorem textEncode_textDecode {bytes : Bytes} (h : ∀ b ∈ bytes, 0x20 ≤ b.toNat ∧ b.toNat ≤ 0x7e) :
    textEncode (textDecode bytes) = bytes ∧ ∀ c ∈ (textDecode bytes).toList, IsPrintable c := by
  have hnat : ∀ b ∈ bytes, (Char.ofNat b.toNat).toNat = b.toNat := by
    intro b hb
    obtain ⟨_, hle⟩ := h b hb
    rw [Char.ofNat, dif_pos (Or.inl (by omega))]
    rfl
  have hprint : ∀ c ∈ (textDecode bytes).toList, IsPrintable c := by
    intro c hc
    rw [textDecode, String.toList_ofList, List.mem_map] at hc
    obtain ⟨b, hb, rfl⟩ := hc
    rw [IsPrintable, hnat b hb]
    exact h b hb
  refine ⟨?_, hprint⟩
  rw [textEncode_printable hprint, textDecode, String.toList_ofList, List.map_map]
  conv_rhs => rw [← List.map_id bytes]
  apply List.map_congr_left
  intro b hb
  simp only [Function.comp_apply, hnat b hb, UInt8.ofNat_toNat, id_eq]

/-! ## Hashes -/

theorem hexToHash_of_isHash {hash : Hash} (h : IsHash hash) :
    ∃ raw, hexToHash hash = .ok raw ∧ raw.length = hashSize ∧ hashToHex raw = .ok hash := by
  obtain ⟨hlen, hlow⟩ := h
  have hchars : hash.toList.length = 2 * 32 := by rw [String.length_toList]; exact hlen
  have hraw := length_hexBytes 32 hash.toList hchars
  refine ⟨hexBytes hash.toList, ?_, hraw, ?_⟩
  · rw [hexToHash, if_neg (by simp [hlen, hashHexLength, hashSize])]
  · rw [hashToHex, if_neg (by simp [hraw, hashSize]), flatMap_byteHex_hexBytes 32 _ hchars hlow, String.ofList_toList]

theorem hashToHex_ok {raw : Bytes} {hash : Hash} (h : hashToHex raw = .ok hash) :
    IsHash hash ∧ hexToHash hash = .ok raw := by
  rw [hashToHex] at h
  by_cases hlen : raw.length = hashSize
  case neg => simp only [ne_eq, hlen, not_false_eq_true, if_true, reduceCtorEq] at h
  simp only [ne_eq, hlen, not_true_eq_false, if_false, Except.ok.injEq] at h
  subst h
  have hhex : (String.ofList (raw.flatMap byteHex)).length = 64 := by
    rw [String.length_ofList, length_flatMap_byteHex, hlen]
    rfl
  refine ⟨⟨hhex, ?_⟩, ?_⟩
  · intro c hc
    rw [String.toList_ofList, List.mem_flatMap] at hc
    obtain ⟨b, _, hcb⟩ := hc
    exact byteHex_lower b c hcb
  · rw [hexToHash, if_neg (by simp [hhex, hashSize]), String.toList_ofList, hexBytes_flatMap_byteHex]

theorem hashSlices_flatten {hashes : List Bytes} (h : ∀ raw ∈ hashes, raw.length = hashSize) :
    hashSlices hashes.flatten = hashes := by
  induction hashes with
  | nil => rw [List.flatten_nil, hashSlices, if_pos rfl]
  | cons raw hashes ih =>
    have hlen := h raw (by simp)
    have hne : raw ++ hashes.flatten ≠ [] := by
      intro hnil
      have hz := congrArg List.length hnil
      simp only [List.length_append, List.length_nil, hlen, hashSize] at hz
      omega
    rw [List.flatten_cons, hashSlices, if_neg hne, ← hlen, List.take_left, List.drop_left,
      ih fun x hx => h x (by simp [hx])]

theorem flatten_hashSlices (bytes : Bytes) : (hashSlices bytes).flatten = bytes := by
  fun_induction hashSlices bytes with
  | case1 => rfl
  | case2 bytes hne ih => rw [List.flatten_cons, ih, List.take_append_drop]

theorem length_hashSlices (count : Nat) : ∀ bytes : Bytes, bytes.length = count * hashSize →
    (hashSlices bytes).length = count := by
  induction count with
  | zero =>
    intro bytes h
    have hnil : bytes = [] := List.length_eq_zero_iff.mp (by simpa using h)
    rw [hnil, hashSlices, if_pos rfl, List.length_nil]
  | succ count ih =>
    intro bytes h
    have hpos : 0 < bytes.length := by rw [h]; simp [hashSize]
    have hne : bytes ≠ [] := List.length_pos_iff.mp hpos
    rw [hashSlices, if_neg hne, List.length_cons, ih]
    rw [List.length_drop, h, Nat.succ_mul, Nat.add_sub_cancel]

/-! ## Validation -/

theorem resolveLimit_le {value : Option Int} {maximum m : Nat} {name : String} {allowZero : Bool}
    (h : resolveLimit value maximum name allowZero = .ok m) : m ≤ maximum := by
  cases value with
  | none =>
    cases h
    exact Nat.le_refl _
  | some v =>
    simp only [resolveLimit] at h
    by_cases hout : v < ((if allowZero = true then 0 else 1 : Nat) : Int) ∨ (maximum : Int) < v
    · rw [if_pos hout] at h
      cases h
    · rw [if_neg hout] at h
      cases h
      omega

/-- An accepted size is the sum of the parts, within the limits of the format whatever the stricter limits are. -/
theorem validateCanonicalNodeSize_ok {contentSize contentTypeLength refCount total : Nat} {limits : CanonicalNodeLimits}
    (h : validateCanonicalNodeSize contentSize contentTypeLength refCount limits = .ok total) :
    total = headerSize + contentTypeLength + refCount * hashSize + contentSize ∧ contentSize ≤ maxSafeInteger
      ∧ minContentTypeLength ≤ contentTypeLength ∧ contentTypeLength ≤ maxContentTypeLength ∧ refCount ≤ maxNodeRefs
      ∧ total ≤ maxCanonicalNodeBytes := by
  rw [validateCanonicalNodeSize] at h
  cases hb : resolveLimit limits.maxCanonicalNodeBytes maxCanonicalNodeBytes "Canonical node byte limit" false with
  | error e => simp only [hb, bind, Except.bind, reduceCtorEq] at h
  | ok maxBytes =>
    cases hr : resolveLimit limits.maxNodeRefs maxNodeRefs "Child ref limit" true with
    | error e => simp only [hb, hr, bind, Except.bind, reduceCtorEq] at h
    | ok maxRefs =>
      have hbytes := resolveLimit_le hb
      have hrefs := resolveLimit_le hr
      simp only [hb, hr, bind, Except.bind, pure, Except.pure, throw, throwThe, MonadExceptOf.throw] at h
      split_ifs at h with h1 h2 h3 h4 h5
      cases h
      refine ⟨rfl, ?_, ?_, ?_, ?_, ?_⟩ <;> omega

/-- A node within the limits of the format has its size accepted. -/
theorem validateCanonicalNodeSize_default {contentSize contentTypeLength refCount : Nat}
    (hmin : minContentTypeLength ≤ contentTypeLength) (hmax : contentTypeLength ≤ maxContentTypeLength)
    (hrefs : refCount ≤ maxNodeRefs)
    (htotal : headerSize + contentTypeLength + refCount * hashSize + contentSize ≤ maxCanonicalNodeBytes) :
    validateCanonicalNodeSize contentSize contentTypeLength refCount {} =
      .ok (headerSize + contentTypeLength + refCount * hashSize + contentSize) := by
  have hsafe : maxCanonicalNodeBytes ≤ maxSafeInteger := by decide
  have h1 : ¬ maxSafeInteger < contentSize := by omega
  have h2 : ¬ (contentTypeLength < minContentTypeLength ∨ maxContentTypeLength < contentTypeLength) := by omega
  have h3 : ¬ maxNodeRefs < refCount := by omega
  have h4 : ¬ maxSafeInteger < headerSize + contentTypeLength + refCount * hashSize + contentSize := by omega
  have h5 : ¬ maxCanonicalNodeBytes < headerSize + contentTypeLength + refCount * hashSize + contentSize := by omega
  simp only [validateCanonicalNodeSize, resolveLimit, bind, Except.bind, pure, Except.pure, if_neg h1, if_neg h2, if_neg h3,
    if_neg h4, if_neg h5]

/-- A header passes exactly when its fixed fields are those of version 1 and its size is accepted. -/
theorem validateDecodedHeader_ok_iff {decoded : DecodedHeader} :
    validateDecodedHeader decoded = .ok () ↔
      decoded.signature = [0x55, 0x44] ∧ decoded.version = version ∧ decoded.flags = 0 ∧ decoded.reserved = 0
        ∧ ∃ total, validateCanonicalNodeSize decoded.contentSize decoded.contentTypeLength decoded.refCount {} = .ok total := by
  simp only [validateDecodedHeader, bind, Except.bind, pure, Except.pure, throw, throwThe, MonadExceptOf.throw]
  by_cases h1 : decoded.signature = [0x55, 0x44]
  case neg => simp [h1]
  by_cases h2 : decoded.version = version
  case neg => simp [h1, h2]
  by_cases h3 : decoded.flags = 0
  case neg => simp [h1, h2, h3]
  by_cases h4 : decoded.reserved = 0
  case neg => simp [h1, h2, h3, h4]
  cases hsize : validateCanonicalNodeSize decoded.contentSize decoded.contentTypeLength decoded.refCount {} with
  | error e => simp [h1, h2, h3, h4]
  | ok total => simp [h1, h2, h3, h4]

theorem validateContentType_printable {contentType : String} (h : ∀ c ∈ contentType.toList, IsPrintable c)
    (hmin : minContentTypeLength ≤ contentType.length) (hmax : contentType.length ≤ maxContentTypeLength) :
    validateContentType contentType = .ok () := by
  have hlen : (textEncode contentType).length = contentType.length := by
    rw [textEncode_printable h, List.length_map, String.length_toList]
  have hnul : Char.ofNat 0 ∉ contentType.toList := by
    intro hmem
    exact absurd (h _ hmem).1 (by decide)
  have h1 : ¬ contentType.length < minContentTypeLength := by omega
  have h2 : ¬ maxContentTypeLength < contentType.length := by omega
  simp only [validateContentType, hlen, bind, Except.bind, pure, Except.pure, if_neg h1, if_neg h2, if_neg hnul,
    not_not_intro h, if_false]

end UniDocs.Codec
