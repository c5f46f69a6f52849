import UniDocs.Blob.BlobClient

/-!
# Chunks and ranges

`chunkSource` cuts the bytes of its source into full chunks and one last chunk, wherever the source itself was cut.
`readRangeChildren` returns the slice of its children's bytes that the range asks for.
-/

namespace UniDocs.Blob

open Lib UniDocs.Cas UniDocs.Codec

/-! ## Cutting a source -/

/-- Chunks of `n` bytes, of which the last may be shorter and none is empty. -/
def Chunking (n : Nat) : List Bytes → Prop
  | [] => True
  | [last] => 0 < last.length ∧ last.length ≤ n
  | chunk :: next :: chunks => chunk.length = n ∧ Chunking n (next :: chunks)

theorem Chunking.bounds {n : Nat} (hn : 0 < n) {chunks : List Bytes} (h : Chunking n chunks) :
    ∀ chunk ∈ chunks, 0 < chunk.length ∧ chunk.length ≤ n := by
  intro chunk hchunk
  fun_induction Chunking n chunks with
  | case1 => simp at hchunk
  | case2 last =>
    rw [List.mem_singleton] at hchunk
    subst hchunk
    exact h
  | case3 first next chunks ih =>
    rcases List.mem_cons.mp hchunk with rfl | hrest
    · exact ⟨by omega, by omega⟩
    · exact ih h.2 hrest

theorem Chunking.append {n : Nat} (hn : 0 < n) {full chunks : List Bytes} (hfull : ∀ chunk ∈ full, chunk.length = n)
    (h : Chunking n chunks) : Chunking n (full ++ chunks) := by
  induction full with
  | nil => exact h
  | cons chunk full ih =>
    have htail := ih fun x hx => hfull x (by simp [hx])
    have hlen := hfull chunk (by simp)
    rw [List.cons_append]
    cases hrest : full ++ chunks with
    | nil => exact ⟨by omega, by omega⟩
    | cons next rest =>
      rw [hrest] at htail
      exact ⟨hlen, htail⟩

/-- A first chunk is at most as long as what follows it allows: two chunkings of the same bytes begin alike. -/
theorem Chunking.head_length {n : Nat} {chunk : Bytes} {chunks : List Bytes} (h : Chunking n (chunk :: chunks)) :
    chunk.length = min n (chunk ++ chunks.flatten).length := by
  cases chunks with
  | nil =>
    obtain ⟨_, hle⟩ := h
    simp only [List.flatten_nil, List.append_nil]
    omega
  | cons next rest =>
    have hlen := h.1
    simp only [List.length_append]
    omega

theorem Chunking.tail {n : Nat} {chunk : Bytes} {chunks : List Bytes} (h : Chunking n (chunk :: chunks)) :
    Chunking n chunks := by
  cases chunks with
  | nil => trivial
  | cons next rest => exact h.2

theorem Chunking.unique {n : Nat} (hn : 0 < n) {chunks chunks' : List Bytes} (h : Chunking n chunks)
    (h' : Chunking n chunks') (heq : chunks.flatten = chunks'.flatten) : chunks = chunks' := by
  induction chunks generalizing chunks' with
  | nil =>
    cases chunks' with
    | nil => rfl
    | cons chunk' chunks' =>
      have hpos := (h'.bounds hn chunk' (by simp)).1
      have hzero := congrArg List.length heq
      simp only [List.flatten_nil, List.length_nil, List.flatten_cons, List.length_append] at hzero
      omega
  | cons chunk chunks ih =>
    cases chunks' with
    | nil =>
      have hpos := (h.bounds hn chunk (by simp)).1
      have hzero := congrArg List.length heq
      simp only [List.flatten_nil, List.length_nil, List.flatten_cons, List.length_append] at hzero
      omega
    | cons chunk' chunks' =>
      rw [List.flatten_cons, List.flatten_cons] at heq
      have hlen : chunk.length = chunk'.length := by rw [h.head_length, h'.head_length, heq]
      obtain ⟨rfl, hrest⟩ := List.append_inj heq hlen
      rw [ih h.tail h'.tail hrest]

/-- The inner loop: full chunks come out, and less than a chunk is kept. -/
theorem fillChunks_spec {n : Nat} (fuel : Nat) (chunk rest : Bytes) (hchunk : chunk.length < n) (hfuel : rest.length ≤ fuel) :
    (fillChunks n fuel chunk rest).1.flatten ++ (fillChunks n fuel chunk rest).2 = chunk ++ rest
      ∧ (∀ full ∈ (fillChunks n fuel chunk rest).1, full.length = n) ∧ (fillChunks n fuel chunk rest).2.length < n := by
  induction fuel generalizing chunk rest with
  | zero =>
    have hrest : rest = [] := List.length_eq_zero_iff.mp (by omega)
    simp [fillChunks, hrest, hchunk]
  | succ fuel ih =>
    rw [fillChunks]
    by_cases hrest : rest = []
    · simp [hrest, hchunk]
    have hpos : 0 < rest.length := List.length_pos_iff.mpr hrest
    simp only [if_neg hrest]
    by_cases hfull : (chunk ++ rest.take (min (n - chunk.length) rest.length)).length = n
    · obtain ⟨hflat, hall, hlast⟩ := ih [] (rest.drop (min (n - chunk.length) rest.length)) (by simpa using (by omega))
        (by simp only [List.length_drop]; omega)
      simp only [if_pos hfull, List.flatten_cons, List.append_assoc, hflat, List.nil_append, List.take_append_drop]
      refine ⟨trivial, ?_, hlast⟩
      intro full hmem
      rcases List.mem_cons.mp hmem with rfl | hmem
      · exact hfull
      · exact hall full hmem
    · have hshort : (chunk ++ rest.take (min (n - chunk.length) rest.length)).length < n := by
        simp only [List.length_append, List.length_take] at hfull ⊢
        omega
      obtain ⟨hflat, hall, hlast⟩ := ih _ (rest.drop (min (n - chunk.length) rest.length)) hshort
        (by simp only [List.length_drop]; omega)
      simp only [if_neg hfull]
      refine ⟨?_, hall, hlast⟩
      rw [hflat, List.append_assoc, List.take_append_drop]

theorem chunkLoop_spec {n : Nat} (source : List Bytes) (chunk : Bytes) (hchunk : chunk.length < n) :
    (chunkLoop n chunk source).flatten = chunk ++ source.flatten ∧ Chunking n (chunkLoop n chunk source) := by
  induction source generalizing chunk with
  | nil =>
    rw [chunkLoop]
    split_ifs with hpos
    · exact ⟨by simp, hpos, by omega⟩
    · have hnil : chunk = [] := List.length_eq_zero_iff.mp (by omega)
      exact ⟨by simp [hnil], trivial⟩
  | cons value source ih =>
    obtain ⟨hflat, hfull, hlast⟩ := fillChunks_spec value.length chunk value hchunk (Nat.le_refl _)
    obtain ⟨hrest, hchunking⟩ := ih (fillChunks n value.length chunk value).2 hlast
    rw [chunkLoop]
    refine ⟨?_, Chunking.append (by omega) hfull hchunking⟩
    rw [List.flatten_append, hrest, ← List.append_assoc, hflat, List.flatten_cons, List.append_assoc]

theorem chunkSource_spec {n : Nat} (hn : 0 < n) (source : List Bytes) :
    (chunkSource n source).flatten = source.flatten ∧ Chunking n (chunkSource n source) := by
  simpa [chunkSource] using chunkLoop_spec source [] (by simpa using hn)

theorem chunkSource_congr {n : Nat} (hn : 0 < n) {source source' : List Bytes} (h : source.flatten = source'.flatten) :
    chunkSource n source = chunkSource n source' := by
  obtain ⟨hflat, hchunking⟩ := chunkSource_spec hn source
  obtain ⟨hflat', hchunking'⟩ := chunkSource_spec hn source'
  exact hchunking.unique hn hchunking' (by rw [hflat, hflat', h])

/-! ## Ranges over children -/

/-- The part of one child that a range asks for. -/
theorem readIntersection_slice {part : Bytes} {read : Nat → Nat → Except String Bytes}
    (hread : ∀ o l, o + l ≤ part.length → read o l = .ok ((part.drop o).take l)) (offset stop start : Nat) :
    readIntersection read offset stop start (start + part.length)
      = .ok ((part.take (stop - start)).drop (offset - start)) := by
  rw [readIntersection, List.drop_take]
  split_ifs with h
  · rw [hread _ _ (by omega)]
    have hoff : max offset start - start = offset - start := by omega
    have htake : ∀ l l' : Nat, min l (part.length - (offset - start)) = min l' (part.length - (offset - start)) →
        (part.drop (offset - start)).take l = (part.drop (offset - start)).take l' := by
      intro l l' hl
      rw [List.take_eq_take_iff, List.length_drop]
      exact hl
    rw [hoff, htake _ (stop - start - (offset - start)) (by omega)]
  · have hempty : ((part.drop (offset - start)).take (stop - start - (offset - start))).length = 0 := by
      simp only [List.length_take, List.length_drop]
      omega
    rw [List.length_eq_zero_iff.mp hempty]

/-- The loop over the children returns the part of their bytes between two positions. -/
theorem readRangeChildren_slice {read : Hash → Nat → Nat → Except String Bytes} {offset stop : Nat}
    {children : List (Int × Hash)} {parts : List Bytes}
    (h : List.Forall₂ (fun child part => child.1.toNat = part.length ∧
      ∀ o l, o + l ≤ part.length → read child.2 o l = .ok ((part.drop o).take l)) children parts) (start : Nat) :
    readRangeChildren read offset stop start children = .ok ((parts.flatten.take (stop - start)).drop (offset - start)) := by
  induction h generalizing start with
  | nil => simp [readRangeChildren]
  | @cons child part children parts hchild _ ih =>
    obtain ⟨size, ref⟩ := child
    obtain ⟨hsize, hread⟩ := hchild
    simp only at hsize hread
    rw [readRangeChildren]
    simp only [hsize, readIntersection_slice hread, bind, Except.bind]
    split_ifs with hend
    · have hwithin : stop - start ≤ part.length := by omega
      rw [List.flatten_cons, List.take_append_of_le_length hwithin]
      rfl
    · have hbeyond : stop - start = part.length + (stop - (start + part.length)) := by omega
      have hskip : offset - start - part.length = offset - (start + part.length) := by omega
      have hwhole : part.take (stop - start) = part := List.take_of_length_le (by omega)
      rw [ih]
      simp only [pure, Except.pure]
      rw [List.flatten_cons, hwhole, hbeyond, List.take_length_add_append, List.drop_append, hskip]

end UniDocs.Blob
