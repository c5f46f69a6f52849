import UniDocs.Lemmas.BlobTree

/-!
# The blob round trip

A blob that was stored is opened with its size and its content type and read back, as a whole and in any range, from every
store that returns what was leased. The tree does not depend on how the source was cut, and `storeBlob` returns exactly when
the content type is one that a node admits, the size is a safe integer and the caller's expectation of the size is met.
-/

namespace UniDocs.Blob

open Lib Lib.Cbor UniDocs.Cas UniDocs.Codec

/-- What `storeBlob` admits. -/
structure Admitted (options : CasBlobWriteOptions) (bytes : Bytes) : Prop where
  contentType : IsMediaType options.contentType
  size : bytes.length ≤ maxSafeInteger
  expected : options.size = none ∨ options.size = some bytes.length

/-- The tree of a blob: a single node, or an index over trees of one height. -/
def BlobTree (cborg : Cborg) (client : CasBlobClient) (leases : Leases) (contentType : String) (hash : Hash)
    (bytes : Bytes) : Prop :=
  (hash, ⟨contentType, [], bytes⟩) ∈ leases ∨
    ∃ height, Subtree cborg client contentType leases (height + 1) hash bytes

/-! ## Storing -/

section Store

variable {cborg : Cborg} {sha256 : Bytes → Bytes} {client : CasBlobClient} {options : CasBlobWriteOptions}

theorem assertExpectedSize_outcome (size : Option Nat) (actual : Nat) :
    Outcome (assertExpectedSize size actual) (fun _ => size = none ∨ size = some actual)
      (¬ (size = none ∨ size = some actual)) := by
  cases size with
  | none => exact Or.inl rfl
  | some expected =>
    by_cases heq : expected = actual
    · simp [assertExpectedSize, heq, Outcome]
    · simp [assertExpectedSize, heq, Outcome]

theorem storeLeaf_ok (hsha : ∀ bytes, (sha256 bytes).length = hashSize) {bytes : Bytes} {contentType : String}
    (hsize : bytes.length ≤ blobChunkBytes) (hmedia : IsMediaType contentType) (leases : Leases) :
    ∃ hash, IsHash hash ∧ storeNodeContent sha256 leases bytes contentType []
      = .ok (leases ++ [(hash, ⟨contentType, [], bytes⟩)], hash) := by
  obtain ⟨hmin, hmax, hprint⟩ := hmedia
  have htotal : headerSize + contentType.length + ([] : List Hash).length * hashSize + bytes.length
      ≤ Codec.maxCanonicalNodeBytes := by
    simp only [blobChunkBytes] at hsize
    simp only [headerSize, List.length_nil, Codec.maxCanonicalNodeBytes]
    omega
  exact storeNodeContent_ok hsha ⟨contentType, [], bytes, ⟨hmin, hmax⟩, hprint, by simp, by simp, htotal⟩ leases

theorem storeLeaf_outcome (hsha : ∀ bytes, (sha256 bytes).length = hashSize) {bytes : Bytes} {contentType : String}
    (hsize : bytes.length ≤ blobChunkBytes) :
    Outcome (storeNodeContent sha256 [] bytes contentType [])
      (fun result => IsMediaType contentType ∧ (result.2, ⟨contentType, [], bytes⟩) ∈ result.1 ∧ IsHash result.2)
      (¬ IsMediaType contentType) := by
  cases hstore : storeNodeContent sha256 [] bytes contentType [] with
  | ok result =>
    have hmedia : IsMediaType contentType := by
      simp only [blobChunkBytes] at hsize
      exact storeNodeContent_mediaType hstore (by omega)
    obtain ⟨hash, hhash, hok⟩ := storeLeaf_ok hsha hsize hmedia []
    rw [hstore, Except.ok.injEq] at hok
    subst hok
    exact ⟨hmedia, by simp, hhash⟩
  | error e =>
    intro hmedia
    obtain ⟨hash, _, hok⟩ := storeLeaf_ok hsha hsize hmedia []
    rw [hstore] at hok
    cases hok

/-- The chunks of a blob become the leaves of a forest, in their order. -/
theorem addChunks_outcome (hrfc : cborg.Rfc8949) (hsha : ∀ bytes, (sha256 bytes).length = hashSize) (mediaType : String)
    (chunks : List Bytes) : ∀ (leases : Leases) (groups : Groups) (items : Bytes),
    (∀ chunk ∈ chunks, 0 < chunk.length ∧ chunk.length ≤ client.chunkBytes) →
    CarryTree.Forest client.indexFanout (Holds cborg client mediaType) leases 0 groups items → groups.length ≤ items.length →
    Outcome (addChunks cborg sha256 client mediaType chunks leases groups items.length)
      (fun result => CarryTree.Forest client.indexFanout (Holds cborg client mediaType) result.1 0 result.2.1
          (items ++ chunks.flatten)
        ∧ result.2.1.length ≤ (items ++ chunks.flatten).length ∧ result.2.2 = (items ++ chunks.flatten).length)
      (¬ (IsMediaType mediaType ∧ (items ++ chunks.flatten).length ≤ maxSafeInteger)) := by
  induction chunks with
  | nil =>
    intro leases groups items _ hforest hlen
    simpa [addChunks, Outcome] using ⟨hforest, hlen⟩
  | cons chunk chunks ih =>
    intro leases groups items hchunks hforest hlen
    obtain ⟨hpos, hle⟩ := hchunks chunk (by simp)
    obtain ⟨hash, hhash, hstore⟩ := storeLeaf_ok hsha (hle.trans client.chunkBytes_le)
      (by decide : IsMediaType blobChunkContentType) leases
    rw [addChunks]
    simp only [hstore, bind, Except.bind]
    have hlaw := storeIndex_law client mediaType hrfc hsha
    have hsub : leases ⊆ leases ++ [(hash, ⟨blobChunkContentType, [], chunk⟩)] := List.subset_append_left _ _
    have hleaf : Holds cborg client mediaType (leases ++ [(hash, ⟨blobChunkContentType, [], chunk⟩)]) 0
        ⟨hash, chunk.length, -1⟩ chunk :=
      ⟨by simp, rfl, List.length_pos_iff.mp hpos, hhash, fun _ => hle, List.mem_append_right _ (by simp)⟩
    have happend := CarryTree.append_outcome "no group left" hlaw client.two_le_indexFanout groups [] (groups.length + 1) _ _
      items chunk (Nat.lt_succ_self _) (CarryTree.Forest.mono hlaw hsub hforest) hleaf
    have hflat : items ++ (chunk :: chunks).flatten = items ++ chunk ++ chunks.flatten := by simp
    rw [hflat]
    refine happend.bind ?_ ?_
    · rintro hno ⟨hmedia, hsafe⟩
      simp only [List.length_append] at hsafe
      refine hno ⟨hmedia, ?_, ?_⟩
      · simp only [List.length_nil]
        omega
      · rw [List.length_append]
        omega
    · rintro ⟨leases', groups'⟩ ⟨rest, hgroups, _, hforest', _, hshape⟩
      simp only [List.nil_append, List.length_nil] at hgroups hforest' ⊢
      subst hgroups
      have hlen' : groups'.length ≤ (items ++ chunk).length := by
        rw [List.length_append]
        rcases hshape with hlength | ⟨top, rfl⟩
        · omega
        · simp only [List.length_append, List.length_replicate, List.length_singleton]
          omega
      have hnext := ih leases' groups' (items ++ chunk) (fun c hc => hchunks c (by simp [hc])) hforest' hlen'
      rwa [List.length_append] at hnext

/-- `storeBlob` returns the root of a tree over the source's bytes, or refuses what it does not admit. -/
theorem storeBlob_outcome (hrfc : cborg.Rfc8949) (hsha : ∀ bytes, (sha256 bytes).length = hashSize) (source : List Bytes) :
    Outcome (storeBlob cborg sha256 client source options)
      (fun result => Admitted options source.flatten
        ∧ BlobTree cborg client result.1 options.contentType result.2.hash source.flatten
        ∧ result.2.size = source.flatten.length ∧ result.2.contentType = options.contentType ∧ IsHash result.2.hash)
      (¬ Admitted options source.flatten) := by
  obtain ⟨hflat, hchunking⟩ := chunkSource_spec client.chunkBytes_pos source
  have hbounds := hchunking.bounds client.chunkBytes_pos
  have hchunk := client.chunkBytes_le
  rw [storeBlob, ← hflat]
  match hchunks : chunkSource client.chunkBytes source with
  | [] =>
    refine (storeLeaf_outcome hsha (by simp)).bind (fun hno h => hno h.contentType) ?_
    rintro ⟨leases, hash⟩ ⟨hmedia, hmem, hhash⟩
    refine (assertExpectedSize_outcome options.size 0).bind (fun hno h => hno (by simpa using h.expected)) ?_
    intro _ hexpected
    exact ⟨⟨hmedia, by simp, by simpa using hexpected⟩, Or.inl hmem, rfl, rfl, hhash⟩
  | [first] =>
    rw [hchunks] at hbounds
    have hfirst : first.length ≤ blobChunkBytes := (hbounds first (by simp)).2.trans hchunk
    have hone : [first].flatten = first := by simp
    rw [hone]
    refine (storeLeaf_outcome hsha hfirst).bind (fun hno h => hno h.contentType) ?_
    rintro ⟨leases, hash⟩ ⟨hmedia, hmem, hhash⟩
    refine (assertExpectedSize_outcome options.size first.length).bind (fun hno h => hno h.expected) ?_
    intro _ hexpected
    refine ⟨⟨hmedia, ?_, hexpected⟩, Or.inl hmem, rfl, rfl, hhash⟩
    simp only [blobChunkBytes] at hfirst
    simp only [maxSafeInteger]
    omega
  | first :: second :: chunks =>
    rw [hchunks] at hbounds hchunking
    have hlong : client.chunkBytes < (first :: second :: chunks).flatten.length := by
      have hfirst := hchunking.1
      have hsecond := (hbounds second (by simp)).1
      simp only [List.flatten_cons, List.length_append]
      omega
    have hadd : Outcome (addChunks cborg sha256 client options.contentType (first :: second :: chunks) [] [] 0) _ _ :=
      addChunks_outcome hrfc hsha options.contentType (first :: second :: chunks) [] [] [] hbounds rfl (Nat.le_refl _)
    rw [List.nil_append] at hadd
    refine hadd.bind (fun hno h => hno ⟨h.contentType, h.size⟩) ?_
    rintro ⟨leases, groups, measuredSize⟩ ⟨hforest, hlen, hmeasured⟩
    simp only at hforest hlen hmeasured ⊢
    have hkept : ∃ group ∈ groups, group ≠ [] := by
      by_contra hnone
      simp only [not_exists, not_and, not_not] at hnone
      rw [hforest.eq_nil hnone] at hlong
      simp at hlong
    obtain ⟨k, group, rest, hne, rfl⟩ := CarryTree.exists_lowest hkept
    rw [CarryTree.forest_replicate (by have := client.two_le_indexFanout; omega), Nat.zero_add] at hforest
    have hfinish := CarryTree.finish_outcome "no group left" (storeIndex_law client options.contentType hrfc hsha)
      client.two_le_indexFanout rest.length rest k ((List.replicate k [] ++ group :: rest).length + 1) group leases _ rfl
      (by simp only [List.length_append, List.length_replicate, List.length_cons]; omega) hne hforest
    refine hfinish.bind ?_ ?_
    · intro hno h
      have hsize := h.size
      simp only [List.length_append, List.length_replicate, List.length_cons] at hlen
      exact hno ⟨h.contentType, by omega, hsize⟩
    rintro ⟨leases', root⟩ ⟨_, height, hroot⟩
    simp only at hroot ⊢
    obtain ⟨height, rfl⟩ : ∃ n, height = n + 1 := by
      cases height with
      | zero =>
        have hshort := hroot.chunk rfl
        omega
      | succ n => exact ⟨n, rfl⟩
    have htree := hroot.tree
    obtain ⟨_, _, _, _, _, _, _, hindex, _⟩ := hroot.tree
    obtain ⟨hvalid, _⟩ := (encodeBlobIndex_ok_iff hrfc).mp hindex
    have hsafe := hvalid.size_le
    simp only at hsafe
    rw [hmeasured]
    refine (assertExpectedSize_outcome options.size _).bind (fun hno h => hno h.expected) ?_
    intro _ hexpected
    exact ⟨⟨hvalid.mediaType, by omega, hexpected⟩, Or.inr ⟨height, htree⟩, rfl, rfl, hroot.hash⟩

end Store

/-! ## Opening and reading -/

section Open

variable {cborg : Cborg} {client : CasBlobClient} {cas : NodeStore} {leases : Leases} {contentType : String} {hash : Hash}
  {bytes : Bytes}

theorem openBlob_blobTree (hrfc : cborg.Rfc8949) (hcas : Returns cas leases) (hne : contentType ≠ blobIndexContentType)
    (htree : BlobTree cborg client leases contentType hash bytes) :
    openBlob cborg cas hash = .ok ⟨hash, bytes.length, contentType⟩ := by
  rcases htree with hmem | ⟨height, refs, parts, content, _, _, htrees, hbytes, hindex, hmem⟩
  · have hread := hcas.readStored hmem
    simp [openBlob, resolveBlobRef, hread, bind, Except.bind, pure, Except.pure, hne]
  · have hread := hcas.readStored hmem
    have hdecode := decodeBlobIndex_encode hrfc hindex
    have hcount := htrees.length_eq
    simp [openBlob, resolveBlobRef, hread, bind, Except.bind, pure, Except.pure, hdecode, hcount]

theorem read_blobTree (hrfc : cborg.Rfc8949) (hcas : Returns cas leases) (hne : contentType ≠ blobIndexContentType)
    (htree : BlobTree cborg client leases contentType hash bytes) :
    ∃ bound, ∀ fuel, bound ≤ fuel →
      readNode cborg cas contentType fuel hash none = .ok bytes
      ∧ ∀ offset length, offset + length ≤ bytes.length →
        readRangeNode cborg cas contentType fuel hash offset length none = .ok ((bytes.drop offset).take length) := by
  rcases htree with hmem | ⟨height, htree⟩
  · refine ⟨1, ?_⟩
    intro fuel hfuel
    obtain ⟨fuel, rfl⟩ : ∃ n, fuel = n + 1 := ⟨fuel - 1, by omega⟩
    have hread := hcas.readStored hmem
    have hleaf : validateLeaf hash [] contentType none = .ok () := by simp [validateLeaf, pure, Except.pure]
    constructor
    · simp only [readNode, hread, bind, Except.bind, pure, Except.pure, if_pos hne, hleaf]
    · intro offset length _
      simp only [readRangeNode, hread, bind, Except.bind, pure, Except.pure, if_pos hne, hleaf, StoredNode.slice]
  · refine ⟨height + 2, ?_⟩
    intro fuel hfuel
    refine ⟨readNode_subtree hrfc hcas (by omega) (Or.inl rfl) htree, ?_⟩
    intro offset length hrange
    exact readRangeNode_subtree hrfc hcas (by omega) (Or.inl rfl) htree hrange

theorem ranged_slice {ref : CasBlobRef} {fuel offset : Nat} {length : Option Nat} (hsize : ref.size = bytes.length)
    (hsafe : bytes.length ≤ maxSafeInteger) (hoffset : offset ≤ bytes.length) (hlength : ∀ n ∈ length, n ≤ maxSafeInteger)
    (hread : ∀ offset length, offset + length ≤ bytes.length →
      readRangeNode cborg cas ref.contentType fuel ref.hash offset length none = .ok ((bytes.drop offset).take length)) :
    ranged cborg cas fuel ref ⟨offset, length⟩ = .ok ((bytes.drop offset).take (length.getD bytes.length)) := by
  have hvalid : validateRange ⟨offset, length⟩ = .ok () := by
    have hoff : ¬ maxSafeInteger < offset := by omega
    have hlen : (length.any fun n => decide (maxSafeInteger < n)) = false := by
      cases length with
      | none => rfl
      | some n => simpa using hlength n rfl
    simp [validateRange, hoff, hlen, pure, Except.pure]
  have hwithin : ¬ ref.size < offset := by omega
  have htake : ∀ l l' : Nat, min l (bytes.length - offset) = min l' (bytes.length - offset) →
      (bytes.drop offset).take l = (bytes.drop offset).take l' := by
    intro l l' hl
    rw [List.take_eq_take_iff, List.length_drop]
    exact hl
  have hcut : (bytes.drop offset).take (min (length.getD (ref.size - offset)) (ref.size - offset))
      = (bytes.drop offset).take (length.getD bytes.length) := by
    apply htake
    cases length with
    | none => simp only [Option.getD_none]; omega
    | some n => simp only [Option.getD_some]; omega
  simp only [ranged, hvalid, bind, Except.bind, if_neg hwithin, pure, Except.pure]
  split_ifs with hzero
  · rw [← hcut, hzero, List.take_zero]
  · rw [hread _ _ (by omega), hcut]

end Open

/-! ## The round trip -/

/-- For every client, every source and every content type but that of an index: `storeBlob` returns exactly when it admits
the blob, and then the same for every way to cut the source; its root is a tree with all leaves at one depth and at most
`indexFanout` children at each index; and in every store that returns what was leased, the blob is opened with its size and
content type, and every read and every ranged read yields exactly the bytes that were asked for. -/
theorem blob_round_trip {cborg : Cborg} (hrfc : cborg.Rfc8949) {sha256 : Bytes → Bytes}
    (hsha : ∀ bytes, (sha256 bytes).length = hashSize) (client : CasBlobClient) (source : List Bytes)
    (options : CasBlobWriteOptions) (hreserved : options.contentType ≠ blobIndexContentType) :
    ((∃ result, storeBlob cborg sha256 client source options = .ok result) ↔ Admitted options source.flatten) ∧
    ∀ leases ref, storeBlob cborg sha256 client source options = .ok (leases, ref) →
      (∀ source' : List Bytes, source'.flatten = source.flatten →
        storeBlob cborg sha256 client source' options = .ok (leases, ref)) ∧
      BlobTree cborg client leases options.contentType ref.hash source.flatten ∧
      ∀ cas, Returns cas leases →
        openBlob cborg cas ref.hash = .ok ⟨ref.hash, source.flatten.length, options.contentType⟩ ∧
        openBlob cborg cas ref.hash = .ok ref ∧
        ∃ bound, ∀ fuel, bound ≤ fuel →
          read cborg cas fuel ref none = .ok source.flatten ∧
          ∀ offset, offset ≤ source.flatten.length → ∀ length : Option Nat, (∀ n ∈ length, n ≤ maxSafeInteger) →
            read cborg cas fuel ref (some ⟨offset, length⟩)
              = .ok ((source.flatten.drop offset).take (length.getD source.flatten.length)) ∧
            ∀ n ∈ length, readBytes cborg cas fuel ref offset n = .ok ((source.flatten.drop offset).take n) := by
  have hstore : Outcome (storeBlob cborg sha256 client source options) _ _ := storeBlob_outcome hrfc hsha source
  constructor
  · constructor
    · rintro ⟨result, hresult⟩
      rw [hresult] at hstore
      exact hstore.1
    · intro hadmitted
      cases hresult : storeBlob cborg sha256 client source options with
      | ok result => exact ⟨result, rfl⟩
      | error e =>
        rw [hresult] at hstore
        exact absurd hadmitted hstore
  · intro leases ref hresult
    rw [hresult] at hstore
    obtain ⟨hadmitted, htree, hsize, htype, _⟩ := hstore
    simp only at htree hsize htype
    have href : (⟨ref.hash, source.flatten.length, options.contentType⟩ : CasBlobRef) = ref := by
      rw [← hsize, ← htype]
    refine ⟨?_, htree, ?_⟩
    · intro source' hsource
      rw [storeBlob, chunkSource_congr client.chunkBytes_pos hsource]
      exact hresult
    · intro cas hcas
      have hopen := openBlob_blobTree hrfc hcas hreserved htree
      obtain ⟨bound, hread⟩ := read_blobTree hrfc hcas hreserved htree
      refine ⟨hopen, by rw [hopen, href], bound, ?_⟩
      intro fuel hfuel
      obtain ⟨hwhole, hrange⟩ := hread fuel hfuel
      rw [← htype] at hwhole hrange
      refine ⟨hwhole, ?_⟩
      intro offset hoffset length hlength
      refine ⟨ranged_slice hsize hadmitted.size hoffset hlength hrange, ?_⟩
      intro n hn
      have hsome : ∀ m ∈ some n, m ≤ maxSafeInteger := by simpa using hlength n hn
      exact ranged_slice hsize hadmitted.size hoffset hsome hrange

/-! ## A small blob -/

/-- A library that reads what it writes. -/
def referenceCborg : Cborg where
  encode item := encodeTokens item.tokens
  decode bytes := match readItem (bytes.length + 1) bytes with
    | some (item, []) => .ok item
    | _ => .error "CBOR decode error"

theorem referenceCborg_rfc8949 : referenceCborg.Rfc8949 where
  encode_canonical := fun _ _ _ => rfl
  decode_encode := by
    intro item _ hvalid _
    have hdepth := item.depth_le
    have hlength := length_le_encodeTokens item.tokens
    have hread := readItem_encode item ((encodeTokens item.tokens).length + 1) [] (by omega) hvalid
    rw [List.append_nil] at hread
    simp only [referenceCborg, hread]

/-- A digest that is the real one on the nodes of a table, each of which is the first whose content it ends with. -/
def nodeDigest (known : List (Bytes × Nat)) (bytes : Bytes) : Bytes :=
  bytesBE hashSize ((known.find? fun (content, _) => content.isSuffixOf bytes).elim 0 Prod.snd)

theorem length_nodeDigest (known : List (Bytes × Nat)) (bytes : Bytes) : (nodeDigest known bytes).length = hashSize :=
  length_bytesBE _ _

/-- The content of an index over children of these sizes. -/
def indexContent (level size : Int) (sizes : List Int) : Bytes :=
  encodeTokens (wireValue ⟨1, level, size, "text/plain", sizes⟩).tokens

/-- The tree of three bytes: the root, the index over two chunks, the one over one chunk, and the chunks. -/
def smallNodes : List (Bytes × Nat) :=
  [(indexContent 1 3 [2, 1], 0x3f283b0f23e25f3f81806d54d3c54975a964246f85230e181be60feb433ed76f),
    (indexContent 0 2 [1, 1], 0xf21b4a3011b44872b98e88329e713d84940520b9fd71fe977dcc7be724e9b092),
    (indexContent 0 1 [1], 0x77ceb0f35886acc7ba0516e7629c63529adb35f8fcbc9b7f65aad8b1b37ed0e4),
    ([1], 0xddbece76ccfbd18b056f770760207c2e58f9f34aaacd4fd0705fcacfd631bb33),
    ([2], 0x44204fb68961e82a1b44ee301e1fea51aaa3517ac25da950ad85fe98093e6bc9),
    ([3], 0x10b7cf806e9ec362e154478a3146e4209ffe55468b20b2f9010bb11fd4dcaedd)]

def smallDigest : Bytes → Bytes := nodeDigest smallNodes

/-- One byte a chunk, two children an index. -/
def smallClient : CasBlobClient where
  chunkBytes := 1
  indexFanout := 2
  chunkBytes_pos := by decide
  chunkBytes_le := by decide
  two_le_indexFanout := by decide
  indexFanout_le := by decide

theorem returns_lookup {leases : Leases} (h : (leases.map Prod.fst).Nodup) :
    Returns (fun hash => leases.lookup hash) leases := by
  intro hash node hmem
  induction leases with
  | nil => simp at hmem
  | cons lease leases ih =>
    obtain ⟨hash', node'⟩ := lease
    rw [List.map_cons, List.nodup_cons] at h
    rcases List.mem_cons.mp hmem with heq | hrest
    · cases heq
      exact List.lookup_cons_self
    · have hne : (hash == hash') = false := by
        simp only [beq_eq_false_iff_ne, ne_eq]
        rintro rfl
        exact h.1 (List.mem_map.mpr ⟨_, hrest, rfl⟩)
      simp only [List.lookup_cons, hne]
      exact ih h.2 hrest

/-- Three bytes make a tree with a lifted right edge; a range that runs over the end is read back from it. -/
theorem blob_round_trip_small :
    ∃ leases ref cas fuel, storeBlob referenceCborg smallDigest smallClient [[1], [], [2, 3]] { contentType := "text/plain" }
        = .ok (leases, ref)
      ∧ Returns cas leases ∧ openBlob referenceCborg cas ref.hash = .ok ref
      ∧ read referenceCborg cas fuel ref none = .ok [1, 2, 3]
      ∧ read referenceCborg cas fuel ref (some ⟨1, some 5⟩) = .ok [2, 3] := by
  have hrun : (storeBlob referenceCborg smallDigest smallClient [[1], [], [2, 3]] { contentType := "text/plain" }).toOption.any
      (fun result => decide (result.1.map Prod.fst).Nodup) = true := by
    decide +kernel
  obtain ⟨⟨leases, ref⟩, hresult, hnodup⟩ := (Option.any_eq_true _ _).mp hrun
  have hstore : storeBlob referenceCborg smallDigest smallClient [[1], [], [2, 3]] { contentType := "text/plain" }
      = .ok (leases, ref) := ok_of_toOption hresult
  obtain ⟨_, hround⟩ := blob_round_trip referenceCborg_rfc8949 (length_nodeDigest smallNodes) smallClient [[1], [], [2, 3]]
    { contentType := "text/plain" } (by decide)
  obtain ⟨_, _, hreads⟩ := hround leases ref hstore
  have hcas := returns_lookup (of_decide_eq_true hnodup)
  obtain ⟨_, hopen, bound, hread⟩ := hreads _ hcas
  obtain ⟨hwhole, hrange⟩ := hread bound (Nat.le_refl _)
  exact ⟨leases, ref, _, bound, hstore, hcas, hopen, hwhole, (hrange 1 (by decide) (some 5) (by simp [maxSafeInteger])).1⟩

theorem not_admitted {source : List Bytes} {options : CasBlobWriteOptions} (h : ¬ Admitted options source.flatten) :
    ¬ ∃ result, storeBlob referenceCborg smallDigest smallClient source options = .ok result := by
  rintro ⟨result, hresult⟩
  have hstore : Outcome (storeBlob referenceCborg smallDigest smallClient source options) _ _ :=
    storeBlob_outcome referenceCborg_rfc8949 (length_nodeDigest smallNodes) source
  rw [hresult] at hstore
  exact h hstore.1

/-- A content type without characters is refused, and so is a blob whose size is not a safe integer. -/
theorem blob_round_trip_false :
    (¬ ∃ result, storeBlob referenceCborg smallDigest smallClient [[1], [2]] { contentType := "" } = .ok result) ∧
    ¬ ∃ result, storeBlob referenceCborg smallDigest smallClient [List.replicate (2 ^ 53) 0] { contentType := "text/plain" }
      = .ok result := by
  constructor
  · refine not_admitted fun h => ?_
    exact absurd h.contentType (by decide)
  · refine not_admitted fun h => ?_
    have hsize := h.size
    rw [List.flatten_cons, List.flatten_nil, List.append_nil, List.length_replicate, maxSafeInteger] at hsize
    omega

end UniDocs.Blob
