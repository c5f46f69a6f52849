import UniDocs.Lemmas.CanonicalNodes

/-!
# The canonical format in both directions

Every node the format can hold is read back from its canonical bytes, however the stream is cut, and every stream that is
read to its end without error is the encoding of what the reader returned. The encoding is therefore injective.
-/

namespace UniDocs.Codec

open Lib UniDocs.Cas

/-- The canonical bytes of a node. -/
def Node.encode (node : Node) : Except String Bytes := encodeCanonicalNode node.contentType node.refs node.content

/-! ## Child hashes -/

theorem mapM_hexToHash {refs : List Hash} (h : ∀ ref ∈ refs, IsHash ref) :
    ∃ raws : List Bytes, refs.mapM hexToHash = .ok raws ∧ raws.length = refs.length ∧ (∀ raw ∈ raws, raw.length = hashSize)
      ∧ raws.mapM hashToHex = .ok refs := by
  induction refs with
  | nil => exact ⟨[], rfl, rfl, by simp, rfl⟩
  | cons ref refs ih =>
    obtain ⟨raws, hraws, hlen, hsizes, hback⟩ := ih fun x hx => h x (by simp [hx])
    obtain ⟨raw, hraw, hsize, hhex⟩ := hexToHash_of_isHash (h ref (by simp))
    refine ⟨raw :: raws, ?_, by simp [hlen], ?_, ?_⟩
    · simp only [List.mapM_cons, hraw, hraws, bind, Except.bind, pure, Except.pure]
    · intro x hx
      rcases List.mem_cons.mp hx with rfl | hx
      · exact hsize
      · exact hsizes x hx
    · simp only [List.mapM_cons, hhex, hback, bind, Except.bind, pure, Except.pure]

theorem mapM_hashToHex_ok {raws : List Bytes} {refs : List Hash} (h : raws.mapM hashToHex = .ok refs) :
    refs.mapM hexToHash = .ok raws ∧ refs.length = raws.length ∧ ∀ ref ∈ refs, IsHash ref := by
  induction raws generalizing refs with
  | nil =>
    cases h
    exact ⟨rfl, rfl, by simp⟩
  | cons raw raws ih =>
    rw [List.mapM_cons] at h
    cases hraw : hashToHex raw with
    | error e => simp only [hraw, bind, Except.bind, reduceCtorEq] at h
    | ok ref =>
      cases hraws : raws.mapM hashToHex with
      | error e => simp only [hraw, hraws, bind, Except.bind, reduceCtorEq] at h
      | ok rest =>
        simp only [hraw, hraws, bind, Except.bind, pure, Except.pure, Except.ok.injEq] at h
        subst h
        obtain ⟨hback, hlen, hall⟩ := ih hraws
        obtain ⟨hhash, hhex⟩ := hashToHex_ok hraw
        refine ⟨?_, by simp [hlen], ?_⟩
        · simp only [List.mapM_cons, hhex, hback, bind, Except.bind, pure, Except.pure]
        · intro x hx
          rcases List.mem_cons.mp hx with rfl | hx
          · exact hhash
          · exact hall x hx

/-! ## Writing, then reading -/

/-- The parts of a valid node's encoding. -/
theorem Node.encode_eq (node : Node) :
    ∃ raws : List Bytes, node.encode = .ok (encodeHeader node.content.length node.contentType node.refs.length
        ++ textEncode node.contentType ++ raws.flatten ++ node.content)
      ∧ raws.length = node.refs.length ∧ (∀ raw ∈ raws, raw.length = hashSize) ∧ raws.mapM hashToHex = .ok node.refs := by
  obtain ⟨raws, hraws, hlen, hsizes, hback⟩ := mapM_hexToHash node.refs_hash
  refine ⟨raws, ?_, hlen, hsizes, hback⟩
  simp only [encode, encodeCanonicalNode, hraws, bind, Except.bind, pure, Except.pure, concatenateNodeBytes, hlen]

theorem length_flatten_raws {raws : List Bytes} (h : ∀ raw ∈ raws, raw.length = hashSize) :
    raws.flatten.length = raws.length * hashSize := by
  induction raws with
  | nil => rfl
  | cons raw raws ih =>
    rw [List.flatten_cons, List.length_append, h raw (by simp), ih fun x hx => h x (by simp [hx]), List.length_cons,
      Nat.succ_mul, Nat.add_comm]

theorem Node.length_textEncode (node : Node) : (textEncode node.contentType).length = node.contentType.length := by
  rw [textEncode_printable node.contentType_printable, List.length_map, String.length_toList]

/-- The reader returns a valid node from its canonical bytes, whatever the cuts. -/
theorem parse_encode (node : Node) {bytes : Bytes} (hbytes : node.encode = .ok bytes) {chunks : List Bytes}
    (hchunks : chunks.flatten = bytes) {declared : Option Nat} (hdecl : declared = none ∨ declared = some bytes.length) :
    ∃ parsed, parseCanonicalNodeStream { chunks } declared {} = .ok parsed ∧ parsed.contentSize = node.content.length
      ∧ parsed.contentType = node.contentType ∧ parsed.refs = node.refs ∧ parsed.canonicalSize = bytes.length
      ∧ parsed.body.error = none ∧ parsed.body.bytes = bytes := by
  obtain ⟨raws, henc, hraws, hsizes, hhex⟩ := node.encode_eq
  rw [henc, Except.ok.injEq] at hbytes
  have htext := node.length_textEncode
  have hflat := length_flatten_raws hsizes
  rw [hraws] at hflat
  obtain ⟨hmin, hmax⟩ := node.contentType_length
  have hrefs := node.refs_length
  have hsize := node.size_le
  have htotal : bytes.length = headerSize + node.contentType.length + node.refs.length * hashSize + node.content.length := by
    rw [← hbytes]
    simp only [List.length_append, length_encodeHeader, htext, hflat]
  have hvalid : validateCanonicalNodeSize node.content.length node.contentType.length node.refs.length {} = .ok _ :=
    validateCanonicalNodeSize_default hmin hmax hrefs hsize
  have hsafe : node.content.length ≤ maxSafeInteger := by
    have hle : maxCanonicalNodeBytes ≤ maxSafeInteger := by decide
    omega
  have hcount : node.refs.length < 2 ^ 32 := by simp only [maxNodeRefs] at hrefs; omega
  have hwidth : (textEncode node.contentType).length < 2 ^ 16 := by
    rw [htext]
    simp only [maxContentTypeLength] at hmax
    omega
  have hdecoded := decodeHeader_encodeHeader hsafe hcount hwidth
  rw [htext] at hdecoded
  -- the three reads take the header, the content type and the raw hashes
  have hpend : (StreamCursor.mk { chunks } none).pending.flatten = encodeHeader node.content.length node.contentType
      node.refs.length ++ (textEncode node.contentType ++ (raws.flatten ++ node.content)) := by
    simp only [StreamCursor.pending, Option.toList_none, List.nil_append, hchunks, ← hbytes, List.append_assoc]
  obtain ⟨c1, hread1, hpend1, herr1⟩ := StreamCursor.readExactly_append hpend
  obtain ⟨c2, hread2, hpend2, herr2⟩ := StreamCursor.readExactly_append hpend1
  obtain ⟨c3, hread3, hpend3, herr3⟩ := StreamCursor.readExactly_append hpend2
  rw [length_encodeHeader] at hread1
  rw [htext] at hread2
  rw [hflat] at hread3
  have hheader : validateDecodedHeader ⟨[0x55, 0x44], version, 0, node.content.length, node.refs.length,
      node.contentType.length, 0⟩ = .ok () :=
    validateDecodedHeader_ok_iff.mpr ⟨rfl, rfl, rfl, rfl, _, hvalid⟩
  have hdeclared : (declared.any fun length => decide (length ≠ headerSize + node.contentType.length
      + node.refs.length * hashSize + node.content.length)) = false := by
    rcases hdecl with rfl | rfl
    · rfl
    · rw [htotal]
      simp
  have hprintable : ((textEncode node.contentType).any fun byte => decide (byte < 0x20) || decide (0x7e < byte)) = false := by
    rw [textEncode_printable node.contentType_printable, List.any_eq_false]
    intro b hb
    obtain ⟨c, hc, rfl⟩ := List.mem_map.mp hb
    obtain ⟨hlo, hhi⟩ := node.contentType_printable c hc
    have hnat : (UInt8.ofNat c.toNat).toNat = c.toNat := by
      have hmod : (UInt8.ofNat c.toNat).toNat = c.toNat % 256 := by simp
      omega
    have h32 : (0x20 : UInt8).toNat = 32 := rfl
    have h126 : (0x7e : UInt8).toNat = 126 := rfl
    simp only [Bool.or_eq_true, decide_eq_true_eq, UInt8.lt_iff_toNat_lt, hnat, h32, h126]
    omega
  have hctype := validateContentType_printable node.contentType_printable hmin hmax
  have hdec := textDecode_textEncode node.contentType_printable
  have hslices := hashSlices_flatten hsizes
  have hbody : (StreamCursor.replay c3 (encodeHeader node.content.length node.contentType node.refs.length
      ++ textEncode node.contentType ++ raws.flatten) bytes.length).error = none := by
    rw [StreamCursor.replay, replayChunks_error]
    refine ⟨by rw [herr3, herr2, herr1], ?_⟩
    rw [List.flatten_cons, hpend3, ← hbytes]
    simp only [List.length_append]
    omega
  have hreplay := replayChunks_bytes hbody
  refine ⟨⟨node.content.length, node.contentType, node.refs, bytes.length, c3.replay _ bytes.length⟩, ?_, rfl, rfl, rfl,
    rfl, hbody, ?_⟩
  · simp only [parseCanonicalNodeStream, bind, Except.bind, hread1, hdecoded, hheader, hvalid, hdeclared, hread2, hprintable,
      hdec, hctype, hread3, hslices, hhex, pure, Except.pure, htotal, Bool.false_eq_true, if_false]
  · rw [List.flatten_cons, hpend3, hbytes] at hreplay
    exact hreplay

/-! ## Reading, then writing -/

/-- What a successful parse says of its reads and checks. -/
theorem parse_inversion {source : ByteStream} {declared : Option Nat} {limits : CanonicalNodeLimits}
    {parsed : ParsedCanonicalNodeStream} (h : parseCanonicalNodeStream source declared limits = .ok parsed) :
    ∃ header contentTypeBytes refsBytes decoded c1 c2 c3 total,
      (StreamCursor.mk source none).readExactly headerSize = .ok (header, c1) ∧ decodeHeader header = .ok decoded
      ∧ validateDecodedHeader decoded = .ok ()
      ∧ validateCanonicalNodeSize decoded.contentSize decoded.contentTypeLength decoded.refCount limits = .ok total
      ∧ c1.readExactly decoded.contentTypeLength = .ok (contentTypeBytes, c2)
      ∧ (contentTypeBytes.any fun byte => decide (byte < 0x20) || decide (0x7e < byte)) = false
      ∧ c2.readExactly (decoded.refCount * hashSize) = .ok (refsBytes, c3)
      ∧ (hashSlices refsBytes).mapM hashToHex = .ok parsed.refs ∧ parsed.contentSize = decoded.contentSize
      ∧ parsed.contentType = textDecode contentTypeBytes ∧ parsed.canonicalSize = total
      ∧ parsed.body = c3.replay (header ++ contentTypeBytes ++ refsBytes) total := by
  simp only [parseCanonicalNodeStream, bind, Except.bind, pure, Except.pure, throw, throwThe, MonadExceptOf.throw] at h
  split at h
  · cases h
  rename_i read1 hread1
  obtain ⟨header, c1⟩ := read1
  simp only at h
  split at h
  · cases h
  rename_i decoded hdecoded
  split at h
  · cases h
  rename_i hheader
  split at h
  · cases h
  rename_i total htotal
  split_ifs at h with hdecl
  split at h
  · cases h
  rename_i read2 hread2
  obtain ⟨contentTypeBytes, c2⟩ := read2
  simp only at h
  split_ifs at h with hprint
  split at h
  · cases h
  split at h
  · cases h
  rename_i read3 hread3
  obtain ⟨refsBytes, c3⟩ := read3
  simp only at h
  split at h
  · cases h
  rename_i refs hrefs
  cases h
  exact ⟨header, contentTypeBytes, refsBytes, decoded, c1, c2, c3, total, hread1, hdecoded, hheader, htotal, hread2,
    by simpa using hprint, hread3, hrefs, rfl, rfl, rfl, rfl⟩

/-- A stream that is read to the end without error is the encoding of a valid node with what the reader returned. -/
theorem encode_parse {source : ByteStream} {declared : Option Nat} {limits : CanonicalNodeLimits}
    {parsed : ParsedCanonicalNodeStream} (h : parseCanonicalNodeStream source declared limits = .ok parsed)
    (hend : parsed.body.error = none) :
    ∃ node : Node, node.contentType = parsed.contentType ∧ node.refs = parsed.refs
      ∧ node.content = source.bytes.drop (headerSize + parsed.contentType.length + parsed.refs.length * hashSize)
      ∧ node.content.length = parsed.contentSize ∧ parsed.canonicalSize = source.bytes.length
      ∧ parsed.body.bytes = source.bytes ∧ node.encode = .ok source.bytes := by
  obtain ⟨header, contentTypeBytes, refsBytes, decoded, c1, c2, c3, total, hread1, hdecoded, hheader, htotal, hread2, hprint,
    hread3, hrefs, hsize, htype, hcanon, hbody⟩ := parse_inversion h
  obtain ⟨hlen1, happ1, _⟩ := StreamCursor.readExactly_sound hread1
  obtain ⟨hlen2, happ2, _⟩ := StreamCursor.readExactly_sound hread2
  obtain ⟨hlen3, happ3, _⟩ := StreamCursor.readExactly_sound hread3
  obtain ⟨hsig, hver, hflags, hres, _⟩ := validateDecodedHeader_ok_iff.mp hheader
  obtain ⟨hsum, hsafe, hmin, hmax, hcount, hmaxbytes⟩ := validateCanonicalNodeSize_ok htotal
  have hbytes : source.bytes = header ++ contentTypeBytes ++ refsBytes ++ c3.pending.flatten := by
    have hsource : source.bytes = (StreamCursor.mk source none).pending.flatten := by
      simp [StreamCursor.pending, ByteStream.bytes]
    rw [hsource, ← happ1, ← happ2, ← happ3]
    simp only [List.append_assoc]
  -- the content type
  have hprintable : ∀ b ∈ contentTypeBytes, 0x20 ≤ b.toNat ∧ b.toNat ≤ 0x7e := by
    intro b hb
    have hfalse := List.any_eq_false.mp hprint b hb
    have h32 : (0x20 : UInt8).toNat = 32 := rfl
    have h126 : (0x7e : UInt8).toNat = 126 := rfl
    simp only [Bool.or_eq_true, decide_eq_true_eq, UInt8.lt_iff_toNat_lt, h32, h126] at hfalse
    omega
  obtain ⟨htext, hchars⟩ := textEncode_textDecode hprintable
  rw [← htype] at htext hchars
  have htypelen : parsed.contentType.length = decoded.contentTypeLength := by
    rw [← hlen2, ← htext, textEncode_printable hchars, List.length_map, String.length_toList]
  -- the refs
  obtain ⟨hraws, hrefslen, hhash⟩ := mapM_hashToHex_ok hrefs
  rw [length_hashSlices decoded.refCount refsBytes hlen3] at hrefslen
  -- the length of the whole
  rw [hbody, StreamCursor.replay, replayChunks_error, List.flatten_cons] at hend
  obtain ⟨hnone, hlength⟩ := hend
  have hcontent : c3.pending.flatten.length = decoded.contentSize := by
    simp only [List.length_append, hlen1, hlen2, hlen3, hsum] at hlength
    omega
  have hwhole : source.bytes.length = total := by
    rw [hbytes, ← hlength, Nat.zero_add]
  have hdrop : source.bytes.drop (headerSize + parsed.contentType.length + parsed.refs.length * hashSize)
      = c3.pending.flatten := by
    rw [hbytes]
    apply List.drop_left'
    simp only [List.length_append, hlen1, hlen2, hlen3, htypelen, hrefslen]
  have hmaxlen : headerSize + parsed.contentType.length + parsed.refs.length * hashSize + c3.pending.flatten.length
      ≤ maxCanonicalNodeBytes := by
    rw [htypelen, hrefslen, hcontent, ← hsum]
    exact hmaxbytes
  refine ⟨⟨parsed.contentType, parsed.refs, c3.pending.flatten, by rw [htypelen]; exact ⟨hmin, hmax⟩, hchars,
    by rw [hrefslen]; exact hcount, hhash, hmaxlen⟩, rfl, rfl, hdrop.symm, hcontent.trans hsize.symm,
    hcanon.trans hwhole.symm, ?_, ?_⟩
  · have hquiet : (replayChunks total c3.reader.error 0 ((header ++ contentTypeBytes ++ refsBytes) :: c3.pending)).error
        = none := by
      rw [replayChunks_error, List.flatten_cons]
      exact ⟨hnone, hlength⟩
    rw [hbody, StreamCursor.replay, replayChunks_bytes hquiet, List.flatten_cons, hbytes]
  · have hheaderBytes : encodeHeader decoded.contentSize parsed.contentType decoded.refCount = header :=
      encodeHeader_of_decodeHeader hdecoded hsig hver hflags hres hsafe (by rw [htext, hlen2])
    simp only [Node.encode, encodeCanonicalNode, hraws, bind, Except.bind, pure, Except.pure, concatenateNodeBytes]
    rw [length_hashSlices decoded.refCount refsBytes hlen3, flatten_hashSlices, hcontent, hheaderBytes, htext, hbytes]

/-! ## The format -/

/-- Reading and writing canonical nodes are inverse to each other: the bytes of every valid node, cut into chunks in any way,
are read back as that node and replayed as they are; every stream read to its end without error is the canonical encoding
of the content type, the refs and the content that follows them; and two valid nodes with the same bytes are equal. -/
theorem canonical_node_format :
    (∀ node : Node, ∃ bytes, node.encode = .ok bytes ∧
      ∀ chunks : List Bytes, chunks.flatten = bytes → ∀ declared, (declared = none ∨ declared = some bytes.length) →
        ∃ parsed, parseCanonicalNodeStream { chunks } declared {} = .ok parsed ∧ parsed.contentSize = node.content.length
          ∧ parsed.contentType = node.contentType ∧ parsed.refs = node.refs ∧ parsed.canonicalSize = bytes.length
          ∧ parsed.body.error = none ∧ parsed.body.bytes = bytes) ∧
    (∀ (source : ByteStream) (declared : Option Nat) (limits : CanonicalNodeLimits) (parsed : ParsedCanonicalNodeStream),
      parseCanonicalNodeStream source declared limits = .ok parsed → parsed.body.error = none →
        ∃ node : Node, node.contentType = parsed.contentType ∧ node.refs = parsed.refs
          ∧ node.content = source.bytes.drop (headerSize + parsed.contentType.length + parsed.refs.length * hashSize)
          ∧ node.content.length = parsed.contentSize ∧ parsed.canonicalSize = source.bytes.length
          ∧ parsed.body.bytes = source.bytes ∧ node.encode = .ok source.bytes) ∧
    (∀ (node node' : Node) (bytes : Bytes), node.encode = .ok bytes → node'.encode = .ok bytes → node = node') := by
  refine ⟨?_, ?_, ?_⟩
  · intro node
    obtain ⟨raws, henc, _⟩ := node.encode_eq
    exact ⟨_, henc, fun chunks hchunks declared hdecl => parse_encode node henc hchunks hdecl⟩
  · intro source declared limits parsed h hend
    exact encode_parse h hend
  · intro node node' bytes h h'
    have hsingle : [bytes].flatten = bytes := by simp
    obtain ⟨parsed, hp, _, hct, hrf, _⟩ := parse_encode node h hsingle (Or.inl rfl)
    obtain ⟨parsed', hp', _, hct', hrf', _⟩ := parse_encode node' h' hsingle (Or.inl rfl)
    rw [hp, Except.ok.injEq] at hp'
    subst hp'
    obtain ⟨raws, henc, hraws, hsizes, _⟩ := node.encode_eq
    obtain ⟨raws', henc', hraws', hsizes', _⟩ := node'.encode_eq
    rw [henc, Except.ok.injEq] at h
    rw [henc', Except.ok.injEq, ← h] at h'
    have htype : node'.contentType = node.contentType := hct'.symm.trans hct
    have hrefs : node'.refs = node.refs := hrf'.symm.trans hrf
    have hlen := length_flatten_raws hsizes
    have hlen' := length_flatten_raws hsizes'
    have hcontent := (List.append_inj h' (by
      simp only [List.length_append, length_encodeHeader, htype, hlen, hlen', hraws, hraws', hrefs])).2
    obtain ⟨contentType, refs, content, _, _, _, _, _⟩ := node
    obtain ⟨contentType', refs', content', _, _, _, _, _⟩ := node'
    simp only at htype hrefs hcontent
    subst htype hrefs hcontent
    rfl

/-- A node over one child. -/
def textNode : Node where
  contentType := "text/plain"
  refs := [String.ofList (List.replicate 64 'a')]
  content := [104, 105]
  contentType_length := by decide
  contentType_printable := by decide
  refs_length := by decide
  refs_hash := by decide
  size_le := by decide

/-- The node is read back from a stream with empty chunks and a cut inside the header. -/
theorem canonical_node_format_textNode :
    ∃ bytes parsed, textNode.encode = .ok bytes
      ∧ parseCanonicalNodeStream { chunks := [[], bytes.take 9, [], bytes.drop 9] } (some bytes.length) {} = .ok parsed
      ∧ parsed.refs = textNode.refs ∧ parsed.body.bytes = bytes := by
  obtain ⟨bytes, henc, hparse⟩ := canonical_node_format.1 textNode
  obtain ⟨parsed, hparsed, _, _, hrefs, _, _, hbytes⟩ :=
    hparse [[], bytes.take 9, [], bytes.drop 9] (by simp) (some bytes.length) (Or.inr rfl)
  exact ⟨bytes, parsed, henc, hparsed, hrefs, hbytes⟩

end UniDocs.Codec
