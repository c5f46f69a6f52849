import UniDocs.Lemmas.BlobNodes

/-!
# The tree of a blob

A tree of a given height over some bytes, as the leased nodes hold it: the chunks are its leaves, all at the same depth, and
every index has between one and `indexFanout` children. `storeIndex` builds such trees, and both readers return their bytes
from any store that returns what was leased.
-/

namespace UniDocs.Blob

open Lib Lib.Cbor UniDocs.Cas UniDocs.Codec

section Tree

variable (cborg : Cborg) (client : CasBlobClient) (mediaType : String)

/-- The node with this hash is the root of a tree over these bytes: a chunk at height zero, else an index whose children are
trees that are one lower. -/
def Subtree (leases : Leases) : Nat → Hash → Bytes → Prop
  | 0, hash, bytes => (hash, ⟨blobChunkContentType, [], bytes⟩) ∈ leases
  | height + 1, hash, bytes => ∃ (refs : List Hash) (parts : List Bytes) (content : Bytes),
    1 ≤ refs.length ∧ refs.length ≤ client.indexFanout ∧ List.Forall₂ (Subtree leases height) refs parts
      ∧ bytes = parts.flatten
      ∧ encodeBlobIndex cborg ⟨1, height, bytes.length, mediaType, parts.map fun part => (part.length : Int)⟩ = .ok content
      ∧ (hash, ⟨blobIndexContentType, refs, content⟩) ∈ leases

/-- A node of the tree that is being built. -/
structure Holds (leases : Leases) (height : Nat) (node : BlobTreeNode) (bytes : Bytes) : Prop where
  level : node.level = (height : Int) - 1
  size : node.size = bytes.length
  nonempty : bytes ≠ []
  hash : IsHash node.hash
  chunk : height = 0 → bytes.length ≤ client.chunkBytes
  tree : Subtree cborg client mediaType leases height node.hash bytes

/-- What an index can say of its children: its media type, its level and its size. -/
structure Fits (height : Nat) (bytes : Bytes) : Prop where
  mediaType : IsMediaType mediaType
  height : height ≤ maxSafeInteger
  size : bytes.length ≤ maxSafeInteger

variable {cborg client mediaType}

theorem Subtree.mono {leases leases' : Leases} (hsub : leases ⊆ leases') {height : Nat} {hash : Hash} {bytes : Bytes}
    (h : Subtree cborg client mediaType leases height hash bytes) : Subtree cborg client mediaType leases' height hash bytes := by
  induction height generalizing hash bytes with
  | zero => exact hsub h
  | succ height ih =>
    obtain ⟨refs, parts, content, hpos, hle, hparts, hbytes, hcontent, hmem⟩ := h
    exact ⟨refs, parts, content, hpos, hle, hparts.imp fun _ _ => ih, hbytes, hcontent, hsub hmem⟩

/-! ## Building an index -/

section Build

variable {leases : Leases} {height : Nat} {nodes : List BlobTreeNode} {parts : List Bytes}

theorem sum_sizes (h : List.Forall₂ (Holds cborg client mediaType leases height) nodes parts) :
    (nodes.map BlobTreeNode.size).sum = parts.flatten.length
      ∧ (nodes.map fun node => (node.size : Int)) = parts.map fun part => (part.length : Int) := by
  induction h with
  | nil => exact ⟨rfl, rfl⟩
  | cons hnode _ ih =>
    obtain ⟨hsum, hmap⟩ := ih
    constructor
    · rw [List.map_cons, List.sum_cons, hnode.size, hsum, List.flatten_cons, List.length_append]
    · rw [List.map_cons, List.map_cons, hnode.size, hmap]

theorem sum_lengths (parts : List Bytes) : (parts.map fun part => (part.length : Int)).sum = parts.flatten.length := by
  induction parts with
  | nil => rfl
  | cons part parts ih =>
    rw [List.map_cons, List.sum_cons, ih, List.flatten_cons, List.length_append]
    push_cast
    rfl

theorem Holds.forall (h : List.Forall₂ (Holds cborg client mediaType leases height) nodes parts) :
    (∀ node ∈ nodes, node.level = (height : Int) - 1 ∧ IsHash node.hash) ∧ (∀ part ∈ parts, part ≠ [])
      ∧ List.Forall₂ (Subtree cborg client mediaType leases height) (nodes.map BlobTreeNode.hash) parts := by
  induction h with
  | nil => exact ⟨by simp, by simp, List.Forall₂.nil⟩
  | cons hnode _ ih =>
    obtain ⟨hnodes, hparts, htrees⟩ := ih
    refine ⟨?_, ?_, List.Forall₂.cons hnode.tree htrees⟩
    · intro node hmem
      rcases List.mem_cons.mp hmem with rfl | hmem
      · exact ⟨hnode.level, hnode.hash⟩
      · exact hnodes node hmem
    · intro part hmem
      rcases List.mem_cons.mp hmem with rfl | hmem
      · exact hnode.nonempty
      · exact hparts part hmem

/-- The index over some trees of one height is valid exactly when it can say what it has to. -/
theorem validIndex_iff (mediaType : String) (height : Nat) (hne : parts ≠ []) (hle : parts.length ≤ blobIndexFanout) (hparts : ∀ part ∈ parts, part ≠ []) :
    ValidIndex ⟨1, height, parts.flatten.length, mediaType, parts.map fun part => (part.length : Int)⟩ ↔
      Fits mediaType height parts.flatten := by
  have hpos : 0 < parts.flatten.length := by
    obtain ⟨part, rest, rfl⟩ := List.exists_cons_of_ne_nil hne
    have hpart := List.length_pos_iff.mpr (hparts part (by simp))
    rw [List.flatten_cons, List.length_append]
    omega
  have hcount : 1 ≤ parts.length := List.length_pos_iff.mpr hne
  constructor
  · intro h
    have hlevel := h.level_le
    have hsize := h.size_le
    simp only at hlevel hsize
    exact ⟨h.mediaType, by omega, by omega⟩
  · intro h
    have hheight : (height : Int) ≤ maxSafeInteger := Int.ofNat_le.mpr h.height
    have hsize : (parts.flatten.length : Int) ≤ maxSafeInteger := Int.ofNat_le.mpr h.size
    have hpos' : (0 : Int) < parts.flatten.length := Int.ofNat_lt.mpr hpos
    have hmap : (parts.map fun part => (part.length : Int)).length = parts.length := List.length_map _
    refine ⟨rfl, Int.natCast_nonneg height, hheight, hpos', hsize, h.mediaType, by rw [hmap]; exact hcount,
      by rw [hmap]; exact hle, ?_, sum_lengths parts⟩
    intro child hchild
    obtain ⟨part, hpart, rfl⟩ := List.mem_map.mp hchild
    have := List.length_pos_iff.mpr (hparts part hpart)
    omega

theorem storeIndex_outcome {sha256 : Bytes → Bytes} (hrfc : cborg.Rfc8949)
    (hsha : ∀ bytes, (sha256 bytes).length = hashSize) (hne : nodes ≠ []) (hle : nodes.length ≤ client.indexFanout)
    (h : List.Forall₂ (Holds cborg client mediaType leases height) nodes parts) :
    Outcome (storeIndex cborg sha256 mediaType leases nodes)
      (fun result => leases ⊆ result.1 ∧ Holds cborg client mediaType result.1 (height + 1) result.2 parts.flatten)
      (¬ Fits mediaType height parts.flatten) := by
  obtain ⟨hsum, hsizes⟩ := sum_sizes h
  obtain ⟨hnodes, hparts, htrees⟩ := Holds.forall h
  have hlength := h.length_eq
  have hfanout := client.indexFanout_le
  have hpartsNe : parts ≠ [] := by
    rintro rfl
    exact hne (List.length_eq_zero_iff.mp hlength)
  have hvalid := validIndex_iff mediaType height hpartsNe (by omega) hparts
  obtain ⟨first, rest, hcons⟩ := List.exists_cons_of_ne_nil hne
  have hlevel : first.level + 1 = height := by
    rw [(hnodes first (by simp [hcons])).1]
    omega
  have hsame : (nodes.any fun child => decide (child.level ≠ (height : Int) - 1)) = false := by
    rw [List.any_eq_false]
    intro node hmem
    simp [(hnodes node hmem).1]
  have hunfold : storeIndex cborg sha256 mediaType leases nodes = (do
      let content ← encodeBlobIndex cborg
        ⟨1, height, parts.flatten.length, mediaType, parts.map fun part => (part.length : Int)⟩
      let stored ← storeNodeContent sha256 leases content blobIndexContentType (nodes.map BlobTreeNode.hash)
      return (stored.1, ⟨stored.2, parts.flatten.length, height⟩)) := by
    subst hcons
    simp only [storeIndex, hlevel, hsame, Bool.false_eq_true, if_false, hsum, hsizes]
  rw [hunfold]
  cases hencode : encodeBlobIndex cborg
      ⟨1, height, parts.flatten.length, mediaType, parts.map fun part => (part.length : Int)⟩ with
  | error e =>
    intro hfits
    have hok := (encodeBlobIndex_ok_iff hrfc).mpr ⟨hvalid.mpr hfits, rfl⟩
    rw [hencode] at hok
    cases hok
  | ok content =>
    have hcontent := length_encodeBlobIndex_le hrfc hencode
    have hrefs : (nodes.map BlobTreeNode.hash).length ≤ maxNodeRefs := by
      rw [List.length_map]
      exact hle.trans hfanout
    have htype : blobIndexContentType.length = 48 := by decide
    have hsize : headerSize + blobIndexContentType.length + (nodes.map BlobTreeNode.hash).length * hashSize + content.length
        ≤ Codec.maxCanonicalNodeBytes := by
      simp only [maxNodeRefs] at hrefs
      simp only [headerSize, hashSize, Codec.maxCanonicalNodeBytes, htype]
      omega
    obtain ⟨hash, hhash, hstore⟩ := storeNodeContent_ok hsha
      ⟨blobIndexContentType, nodes.map BlobTreeNode.hash, content, by decide, by decide, hrefs, by
        intro ref href
        obtain ⟨node, hmem, rfl⟩ := List.mem_map.mp href
        exact (hnodes node hmem).2, hsize⟩ leases
    simp only at hstore
    simp only [hstore, bind, Except.bind, pure, Except.pure, Outcome]
    have hsub : leases ⊆ leases ++ [(hash, ⟨blobIndexContentType, nodes.map BlobTreeNode.hash, content⟩)] :=
      List.subset_append_left _ _
    refine ⟨hsub, by simp, rfl, ?_, hhash, by simp, ?_⟩
    · obtain ⟨part, parts, rfl⟩ := List.exists_cons_of_ne_nil hpartsNe
      have hpart := hparts part (by simp)
      simp [hpart]
    · refine ⟨nodes.map BlobTreeNode.hash, parts, content, ?_, by simpa using hle, htrees.imp fun _ _ ht => ht.mono hsub, rfl,
        hencode, by simp⟩
      rw [List.length_map]
      exact List.length_pos_iff.mpr hne

end Build

theorem storeIndex_law (client : CasBlobClient) (mediaType : String) {sha256 : Bytes → Bytes} (hrfc : cborg.Rfc8949)
    (hsha : ∀ bytes, (sha256 bytes).length = hashSize) :
    CarryTree.Law client.indexFanout groupIndex (storeIndex cborg sha256 mediaType) (· ⊆ ·)
      (Holds cborg client mediaType) (Fits mediaType) where
  refl := fun leases => List.Subset.refl leases
  trans := List.Subset.trans
  mono := fun hsub h => ⟨h.level, h.size, h.nonempty, h.hash, h.chunk, h.tree.mono hsub⟩
  slot_eq := by
    intro leases height node bytes h
    have hlevel := h.level
    simp only [groupIndex]
    omega
  fits := by
    intro height height' front back hle h
    have hsize := h.size
    rw [List.length_append] at hsize
    exact ⟨h.mediaType, hle.trans h.height, by omega⟩
  combine := fun hne hle h => storeIndex_outcome hrfc hsha hne hle h

/-! ## Reading a tree -/

/-- The store returns every node that was leased. -/
def Returns (cas : NodeStore) (leases : Leases) : Prop := ∀ hash node, (hash, node) ∈ leases → cas hash = some node

theorem Returns.readStored {cas : NodeStore} {leases : Leases} (h : Returns cas leases) {hash : Hash} {node : StoredNode}
    (hmem : (hash, node) ∈ leases) : readStored cas hash = .ok node := by
  rw [Blob.readStored, h hash node hmem]

theorem mapM_forall₂ {α β ε : Type} {f : α → Except ε β} {as : List α} {bs : List β}
    (h : List.Forall₂ (fun a b => f a = .ok b) as bs) : as.mapM f = .ok bs := by
  induction h with
  | nil => rfl
  | cons ha _ ih => simp only [List.mapM_cons, ha, ih, bind, Except.bind, pure, Except.pure]

section Reading

variable {cas : NodeStore} {leases : Leases}

theorem Subtree.index (hrfc : cborg.Rfc8949) (hash : Hash) {height : Nat} {bytes : Bytes} {refs : List Hash}
    {parts : List Bytes} {content : Bytes} (htrees : List.Forall₂ (Subtree cborg client mediaType leases height) refs parts)
    (hcontent : encodeBlobIndex cborg ⟨1, height, bytes.length, mediaType, parts.map fun part => (part.length : Int)⟩
      = .ok content) {expectedLevel : Option Int} (hlevel : expectedLevel = none ∨ expectedLevel = some (height : Int)) :
    decodeBlobIndex cborg content = .ok ⟨1, height, bytes.length, mediaType, parts.map fun part => (part.length : Int)⟩
      ∧ validateIndex hash mediaType height (parts.map fun part => (part.length : Int)).length refs.length expectedLevel
        mediaType = .ok () := by
  refine ⟨decodeBlobIndex_encode hrfc hcontent, ?_⟩
  have hcount : (parts.map fun part => (part.length : Int)).length = refs.length := by
    rw [List.length_map, htrees.length_eq]
  have hexpected : (expectedLevel.any fun expected => decide ((height : Int) ≠ expected)) = false := by
    rcases hlevel with rfl | rfl <;> simp
  rw [validateIndex, if_neg]
  rw [hcount, hexpected]
  simp

theorem validateLeaf_chunk (hash : Hash) {expectedLevel : Option Int}
    (hlevel : expectedLevel = none ∨ expectedLevel = some (-1)) :
    validateLeaf hash [] blobChunkContentType expectedLevel = .ok () := by
  rcases hlevel with rfl | rfl <;> simp [validateLeaf, pure, Except.pure]

theorem readNode_subtree (hrfc : cborg.Rfc8949) (hcas : Returns cas leases) {height : Nat} :
    ∀ {fuel : Nat} {hash : Hash} {bytes : Bytes} {expectedLevel : Option Int}, height < fuel →
      (expectedLevel = none ∨ expectedLevel = some ((height : Int) - 1)) →
      Subtree cborg client mediaType leases height hash bytes →
      readNode cborg cas mediaType fuel hash expectedLevel = .ok bytes := by
  induction height with
  | zero =>
    intro fuel hash bytes expectedLevel hfuel hlevel h
    obtain ⟨fuel, rfl⟩ : ∃ n, fuel = n + 1 := ⟨fuel - 1, by omega⟩
    have hread := hcas.readStored h
    have hne : blobChunkContentType ≠ blobIndexContentType := by decide
    have hleaf := validateLeaf_chunk hash (by simpa using hlevel)
    simp only [readNode, hread, bind, Except.bind, pure, Except.pure, if_pos hne, hleaf]
  | succ height ih =>
    intro fuel hash bytes expectedLevel hfuel hlevel h
    obtain ⟨fuel, rfl⟩ : ∃ n, fuel = n + 1 := ⟨fuel - 1, by omega⟩
    obtain ⟨refs, parts, content, _, _, htrees, hbytes, hcontent, hmem⟩ := h
    have hread := hcas.readStored hmem
    have hlevel' : expectedLevel = none ∨ expectedLevel = some (height : Int) := by
      rcases hlevel with rfl | rfl
      · exact Or.inl rfl
      · exact Or.inr (by simp)
    obtain ⟨hdecode, hindex⟩ := Subtree.index hrfc hash htrees hcontent hlevel'
    have hchildren : refs.mapM (fun ref => readNode cborg cas mediaType fuel ref (some ((height : Int) - 1))) = .ok parts := by
      refine mapM_forall₂ (htrees.imp fun ref part htree => ?_)
      exact ih (by omega) (Or.inr rfl) htree
    simp only [readNode, hread, bind, Except.bind, pure, Except.pure, ne_eq, not_true_eq_false, if_false, hdecode, hindex,
      hchildren, hbytes]

theorem forall₂_zip_sizes {P : Hash → Bytes → Prop} {refs : List Hash} {parts : List Bytes}
    (h : List.Forall₂ P refs parts) : List.Forall₂ (fun child part => child.1.toNat = part.length ∧ P child.2 part)
      ((parts.map fun part => (part.length : Int)).zip refs) parts := by
  induction h with
  | nil => exact List.Forall₂.nil
  | cons hpart _ ih => exact List.Forall₂.cons ⟨by simp, hpart⟩ ih

theorem readRangeNode_subtree (hrfc : cborg.Rfc8949) (hcas : Returns cas leases) {height : Nat} :
    ∀ {fuel : Nat} {hash : Hash} {bytes : Bytes} {expectedLevel : Option Int} {offset length : Nat}, height < fuel →
      (expectedLevel = none ∨ expectedLevel = some ((height : Int) - 1)) →
      Subtree cborg client mediaType leases height hash bytes → offset + length ≤ bytes.length →
      readRangeNode cborg cas mediaType fuel hash offset length expectedLevel = .ok ((bytes.drop offset).take length) := by
  induction height with
  | zero =>
    intro fuel hash bytes expectedLevel offset length hfuel hlevel h _
    obtain ⟨fuel, rfl⟩ : ∃ n, fuel = n + 1 := ⟨fuel - 1, by omega⟩
    have hread := hcas.readStored h
    have hne : blobChunkContentType ≠ blobIndexContentType := by decide
    have hleaf := validateLeaf_chunk hash (by simpa using hlevel)
    simp only [readRangeNode, hread, bind, Except.bind, pure, Except.pure, if_pos hne, hleaf, StoredNode.slice]
  | succ height ih =>
    intro fuel hash bytes expectedLevel offset length hfuel hlevel h hrange
    obtain ⟨fuel, rfl⟩ : ∃ n, fuel = n + 1 := ⟨fuel - 1, by omega⟩
    obtain ⟨refs, parts, content, _, _, htrees, hbytes, hcontent, hmem⟩ := h
    have hread := hcas.readStored hmem
    have hlevel' : expectedLevel = none ∨ expectedLevel = some (height : Int) := by
      rcases hlevel with rfl | rfl
      · exact Or.inl rfl
      · exact Or.inr (by simp)
    obtain ⟨hdecode, hindex⟩ := Subtree.index hrfc hash htrees hcontent hlevel'
    have hchildren := forall₂_zip_sizes (htrees.imp fun ref part htree o l (hle : o + l ≤ part.length) =>
      ih (by omega : height < fuel) (Or.inr rfl : some ((height : Int) - 1) = none ∨ _) htree hle)
    have hslice : readRangeChildren
        (fun ref offset length => readRangeNode cborg cas mediaType fuel ref offset length (some ((height : Int) - 1)))
        offset (offset + length) 0 ((parts.map fun part => (part.length : Int)).zip refs)
        = .ok ((parts.flatten.take (offset + length - 0)).drop (offset - 0)) := readRangeChildren_slice hchildren 0
    simp only [readRangeNode, hread, bind, Except.bind, ne_eq, not_true_eq_false, if_false, hdecode, hindex]
    rw [hslice, ← hbytes, Nat.sub_zero, Nat.sub_zero, List.drop_take, Nat.add_sub_cancel_left]

end Reading

end Tree

end UniDocs.Blob
