import UniDocs.Cas.NodeRead
import UniDocs.Lemmas.TenantWrites
import UniDocs.Theorems.CanonicalFormat

/-!
# Range reads of node content

A committed node is read back by ranges of its content: the offset that is computed from the row and the edges is where the
content starts in the canonical object, so a range never meets the header, the type or a reference. A header selects bytes
only while its numbers are safe integers; a larger number is refused even where a clamp would have named bytes.
-/

namespace UniDocs.Cas

open Lib Lib.JsonText Lib.JsNumber

/-! ## The forms of a range -/

/-- A number in digits. -/
def IsDigits (digits : JsString) : Prop := digits ≠ [] ∧ ∀ u ∈ digits, isDigit u = true

theorem isDigits_of_all {digits : JsString} (hne : digits ≠ []) (hall : digits.all isDigit = true) : IsDigits digits :=
  ⟨hne, List.all_eq_true.mp hall⟩

/-- `bytes=`, a first position, a hyphen and a last one. -/
def rangeText (first last : JsString) : JsString := JsString.ofString "bytes=" ++ (first ++ 45 :: last)

/-- The bytes that a range header selects of a content, by their first and last position, where only the admitted numbers
may stand in the header. -/
inductive Selects (admits : Nat → Prop) (size : Nat) : JsString → Nat → Nat → Prop where
  | bounded {first last : JsString} (hfirst : IsDigits first) (hlast : IsDigits last) (hafirst : admits (digitsValue first))
      (halast : admits (digitsValue last)) (hsize : digitsValue first < size) (hle : digitsValue first ≤ digitsValue last) :
      Selects admits size (rangeText first last) (digitsValue first) (min (digitsValue last) (size - 1))
  | openEnded {first : JsString} (hfirst : IsDigits first) (hafirst : admits (digitsValue first))
      (hsize : digitsValue first < size) : Selects admits size (rangeText first []) (digitsValue first) (size - 1)
  | suffix {last : JsString} (hlast : IsDigits last) (halast : admits (digitsValue last)) (hpos : 0 < digitsValue last)
      (hsize : 0 < size) : Selects admits size (rangeText [] last) (size - min (digitsValue last) size) (size - 1)

/-- A number that is a safe integer. -/
def IsSafe (n : Nat) : Prop := (n : Int) ≤ maxSafeInteger

/-- What is selected lies in the content. -/
theorem Selects.bounds {admits : Nat → Prop} {size : Nat} {header : JsString} {start stop : Nat}
    (h : Selects admits size header start stop) : start ≤ stop ∧ stop < size := by
  cases h with
  | bounded hfirst hlast hafirst halast hsize hle => omega
  | openEnded hfirst hafirst hsize => omega
  | suffix hlast halast hpos hsize => omega

/-! ## Parsing -/

/-- The pattern matches the texts of ranges, with their two parts as groups. -/
theorem matchRange_iff {header first last : JsString} : matchRange header = some (first, last) ↔
    header = rangeText first last ∧ (∀ u ∈ first, isDigit u = true) ∧ ∀ u ∈ last, isDigit u = true := by
  constructor
  · intro h
    simp only [matchRange] at h
    split at h
    · rename_i hmatch
      obtain ⟨hbytes, hhyphen, hlast⟩ := hmatch
      cases h
      obtain ⟨tail, htail⟩ : ∃ tail, (header.drop 6).dropWhile isDigit = 45 :: tail := List.head?_eq_some_iff.mp hhyphen
      refine ⟨?_, fun u hu => List.mem_takeWhile_imp hu, fun u hu => List.all_eq_true.mp hlast u hu⟩
      calc header = header.take 6 ++ header.drop 6 := (List.take_append_drop 6 header).symm
        _ = JsString.ofString "bytes=" ++ ((header.drop 6).takeWhile isDigit ++ (header.drop 6).dropWhile isDigit) := by
          rw [hbytes, List.takeWhile_append_dropWhile]
        _ = rangeText ((header.drop 6).takeWhile isDigit) (((header.drop 6).dropWhile isDigit).drop 1) := by
          rw [htail, rangeText, List.drop_succ_cons, List.drop_zero]
    · cases h
  · rintro ⟨rfl, hfirst, hlast⟩
    have hlen : (JsString.ofString "bytes=").length = 6 := by decide
    have htake : (rangeText first last).take 6 = JsString.ofString "bytes=" := List.take_left' hlen
    have hdrop : (rangeText first last).drop 6 = first ++ 45 :: last := List.drop_left' hlen
    have hwhile : (first ++ 45 :: last).takeWhile isDigit = first := by
      rw [List.takeWhile_append_of_pos hfirst, List.takeWhile_cons_of_neg (by decide), List.append_nil]
    have hrest : (first ++ 45 :: last).dropWhile isDigit = 45 :: last := by
      rw [List.dropWhile_append_of_pos hfirst, List.dropWhile_cons_of_neg (by decide)]
    simp only [matchRange, htake, hdrop, hwhile, hrest]
    exact if_pos ⟨trivial, rfl, List.all_eq_true.mpr hlast⟩

theorem rangeNumber_digits {digits : JsString} (h : ∀ u ∈ digits, isDigit u = true) :
    (IsSafe (digitsValue digits) ∧ rangeNumber digits = some (digitsValue digits)) ∨
      (¬ IsSafe (digitsValue digits) ∧ rangeNumber digits = none) := by
  by_cases hsafe : (digitsValue digits : Int) ≤ maxSafeInteger
  · refine Or.inl ⟨hsafe, ?_⟩
    rw [rangeNumber, safeInteger_digits h hsafe]
    exact if_neg (by omega)
  · refine Or.inr ⟨hsafe, ?_⟩
    rw [rangeNumber, safeInteger_digits_none h (by omega)]

/-- A range that is selected is parsed to its offset and its length. -/
theorem parse_of_selects {size : Nat} {header : JsString} {start stop : Nat} (h : Selects IsSafe size header start stop) :
    parseNodeContentRange header size = .ok ⟨start, stop - start + 1⟩ := by
  have hnumber : ∀ {digits : JsString}, IsDigits digits → IsSafe (digitsValue digits) →
      rangeNumber digits = some (digitsValue digits) := by
    intro digits hdigits hsafe
    rcases rangeNumber_digits hdigits.2 with ⟨_, hsome⟩ | ⟨hlarge, _⟩
    · exact hsome
    · exact absurd hsafe hlarge
  cases h with
  | @bounded first last hfirst hlast hafirst halast hsize hle =>
    rw [parseNodeContentRange, matchRange_iff.mpr ⟨rfl, hfirst.2, hlast.2⟩]
    have hsizes : size ≠ 0 := by omega
    simp only [hfirst.1, hlast.1, hsizes, hnumber hfirst hafirst, hnumber hlast halast, or_false, if_false, reduceCtorEq,
      and_false]
    exact if_neg (by omega)
  | @openEnded first hfirst hafirst hsize =>
    rw [parseNodeContentRange, matchRange_iff.mpr ⟨rfl, hfirst.2, by simp⟩]
    have hsizes : size ≠ 0 := by omega
    simp only [hfirst.1, hsizes, hnumber hfirst hafirst, false_and, or_false, if_false, if_true, reduceCtorEq, and_false,
      ne_eq, not_true_eq_false]
    exact if_neg (by omega)
  | @suffix last hlast halast hpos hsize =>
    rw [parseNodeContentRange, matchRange_iff.mpr ⟨rfl, by simp, hlast.2⟩]
    have hsizes : size ≠ 0 := by omega
    simp only [hlast.1, hsizes, hnumber hlast halast, and_false, or_false, if_false, if_true, reduceCtorEq,
      ne_eq, not_true_eq_false, false_and, if_neg (Nat.ne_of_gt hpos)]
    congr 2
    omega

theorem selects_or_refused (header : JsString) (size : Nat) :
    (∃ start stop, Selects IsSafe size header start stop) ∨
      parseNodeContentRange header size = .error (rangeNotSatisfiable size) := by
  rw [parseNodeContentRange]
  split
  · exact Or.inr rfl
  · rename_i first last hmatch
    obtain ⟨rfl, hfirst, hlast⟩ := matchRange_iff.mp hmatch
    by_cases hempty : (first = [] ∧ last = []) ∨ size = 0
    · exact Or.inr (if_pos hempty)
    rw [if_neg hempty]
    by_cases hlarge : (first ≠ [] ∧ rangeNumber first = none) ∨ (last ≠ [] ∧ rangeNumber last = none)
    · exact Or.inr (if_pos hlarge)
    rw [if_neg hlarge]
    have hsafe : ∀ {digits : JsString}, (∀ u ∈ digits, isDigit u = true) → ¬ rangeNumber digits = none →
        IsSafe (digitsValue digits) ∧ rangeNumber digits = some (digitsValue digits) := by
      intro digits hdigits hsome
      rcases rangeNumber_digits hdigits with hsafe | ⟨_, hnone⟩
      · exact hsafe
      · exact absurd hnone hsome
    by_cases hf : first = []
    · subst hf
      have hl : last ≠ [] := fun hl => hempty (Or.inl ⟨rfl, hl⟩)
      obtain ⟨hsl, hnl⟩ := hsafe hlast fun hnone => hlarge (Or.inr ⟨hl, hnone⟩)
      simp only [hl, hnl, if_true, if_false]
      by_cases hzero : digitsValue last = 0
      · exact Or.inr (if_pos hzero)
      · exact Or.inl ⟨_, _, .suffix ⟨hl, hlast⟩ hsl (by omega) (by omega)⟩
    · obtain ⟨hsf, hnf⟩ := hsafe hfirst fun hnone => hlarge (Or.inl ⟨hf, hnone⟩)
      by_cases hl : last = []
      · subst hl
        simp only [hf, hnf, if_true, if_false]
        by_cases hsize : size ≤ digitsValue first
        · exact Or.inr (if_pos hsize)
        · exact Or.inl ⟨_, _, .openEnded ⟨hf, hfirst⟩ hsf (by omega)⟩
      · obtain ⟨hsl, hnl⟩ := hsafe hlast fun hnone => hlarge (Or.inr ⟨hl, hnone⟩)
        simp only [hf, hl, hnf, hnl, if_false]
        by_cases hrange : size ≤ digitsValue first ∨ digitsValue last < digitsValue first
        · exact Or.inr (if_pos hrange)
        · exact Or.inl ⟨_, _, .bounded ⟨hf, hfirst⟩ ⟨hl, hlast⟩ hsf hsl (by omega) (by omega)⟩

/-! ## Committed nodes -/

/-- A node that is committed: its row, its edges in order and its object. -/
structure NodeRecorded (t : Tenant) (hash : Hash) (node : ParsedNode) (bytes : Bytes) : Prop where
  row : ∃ row, t.nodes.lookup hash = some row ∧ row.contentSize = node.contentSize ∧ row.contentType = node.contentType
  refs : t.refs hash = node.refs
  object : t.objects.lookup hash = some bytes

/-- The edges of a parent are read in the order of their ordinals. -/
theorem refs_of_lookup {t : Tenant} {p : Hash} {cs : List Hash} (h : ∀ i, t.edges.lookup (p, i) = cs[i]?) : t.refs p = cs := by
  let ordinalLe : (Hash × Nat) × Hash → (Hash × Nat) × Hash → Prop := fun a b => a.1.2 ≤ b.1.2
  have : Std.Total ordinalLe := ⟨fun a b => Nat.le_total a.1.2 b.1.2⟩
  have : IsTrans _ ordinalLe := ⟨fun a b c => Nat.le_trans⟩
  have hmem : ∀ e, e ∈ t.edges.rows (fun k _ => k.1 == p) ↔ e ∈ cs.zipIdx.map fun c => ((p, c.2), c.1) := by
    rintro ⟨⟨q, i⟩, c⟩
    rw [AList.mem_rows, List.mem_map, beq_iff_eq]
    constructor
    · rintro ⟨hlookup, rfl⟩
      rw [h i] at hlookup
      exact ⟨(c, i), List.mk_mem_zipIdx_iff_getElem?.mpr hlookup, rfl⟩
    · rintro ⟨⟨c', i'⟩, hc, heq⟩
      cases heq
      exact ⟨(h _).trans (List.mk_mem_zipIdx_iff_getElem?.mp hc), rfl⟩
  have hordered : (cs.zipIdx.map fun c => ((p, c.2), c.1)).Pairwise fun a b => a.1.2 < b.1.2 := by
    rw [List.pairwise_map, ← List.pairwise_map (f := Prod.snd) (R := fun a b => a < b), List.zipIdx_map_snd]
    exact List.pairwise_lt_range'
  have hperm : ((t.edges.rows fun k _ => k.1 == p).insertionSort ordinalLe).Perm
      (cs.zipIdx.map fun c => ((p, c.2), c.1)) := by
    refine (List.perm_insertionSort ordinalLe _).trans ?_
    refine (List.perm_ext_iff_of_nodup ?_ ?_).mpr hmem
    · exact (AList.nodup_rows _ _).of_map
    · exact hordered.imp fun hlt heq => by rw [heq] at hlt; exact lt_irrefl _ hlt
  have hsort : (t.edges.rows fun k _ => k.1 == p).insertionSort ordinalLe = cs.zipIdx.map fun c => ((p, c.2), c.1) := by
    refine hperm.eq_of_pairwise ?_ (List.pairwise_insertionSort ordinalLe _) (hordered.imp Nat.le_of_lt)
    rintro ⟨⟨q, i⟩, c⟩ ⟨⟨q', i'⟩, c'⟩ ha hb hle hge
    have hi : i = i' := Nat.le_antisymm hle hge
    obtain ⟨⟨c₁, i₁⟩, hc₁, heq₁⟩ := List.mem_map.mp (hperm.subset ha)
    obtain ⟨⟨c₂, i₂⟩, hc₂, heq₂⟩ := List.mem_map.mp hb
    cases heq₁
    cases heq₂
    subst hi
    have hsame := (List.mk_mem_zipIdx_iff_getElem?.mp hc₁).symm.trans (List.mk_mem_zipIdx_iff_getElem?.mp hc₂)
    cases hsame
    rfl
  calc t.refs p = ((t.edges.rows fun k _ => k.1 == p).insertionSort ordinalLe).map Prod.snd := rfl
    _ = cs := by
      rw [hsort, List.map_map]
      exact List.zipIdx_map_fst 0 cs

/-- The edges of a new node, by induction over its refs from an ordinal on: they are the refs, and no other edge changes. -/
theorem lookup_edgeStatements {p : Hash} {cs : List Hash} : ∀ {i : Nat} {t t' : Tenant},
    batch (edgeStatements p i cs) t = some t' →
    ∀ j, t'.edges.lookup (p, j) = if i ≤ j ∧ j < i + cs.length then cs[j - i]? else t.edges.lookup (p, j) := by
  induction cs with
  | nil =>
    intro i t t' hb j
    cases hb
    exact (if_neg (by simp only [List.length_nil]; omega)).symm
  | cons c cs ih =>
    intro i t t' hb j
    obtain ⟨t₁, h1, hb₁⟩ := TenantWritesAux.batch_cons hb
    obtain ⟨t₂, h2, hb₂⟩ := TenantWritesAux.batch_cons hb₁
    obtain ⟨edges, hinsert, rfl⟩ := Option.map_eq_some_iff.mp h1
    obtain ⟨_, rfl⟩ := AList.lookup_insertNew hinsert
    have he := (TenantWritesAux.addChildRefs_spec h2).1
    rw [ih hb₂ j, he, AList.lookup_insert_eq, List.length_cons]
    by_cases hj : j = i
    · subst hj
      rw [if_neg (by omega), if_pos rfl, if_pos (by omega), Nat.sub_self, List.getElem?_cons_zero]
    · have hne : (p, j) ≠ (p, i) := fun heq => hj (Prod.mk.inj heq).2
      rw [if_neg hne]
      by_cases hrange : i + 1 ≤ j ∧ j < i + 1 + cs.length
      · obtain ⟨k, rfl⟩ : ∃ k, j = i + 1 + k := ⟨j - (i + 1), by omega⟩
        rw [if_pos hrange, if_pos (by omega), show i + 1 + k - (i + 1) = k by omega, show i + 1 + k - i = k + 1 by omega,
          List.getElem?_cons_succ]
      · rw [if_neg hrange, if_neg (by omega)]

theorem recorded_of_commit {codec : Codec} {hash : Hash} {node : ParsedNode} {lease : NodeLeaseRecord} {bytes : Bytes}
    {t t' : Tenant} (ht : RefCounts t) (hrefs : ∀ c ∈ node.refs, c ∈ t.nodes) (hobject : t.objects.lookup hash = some bytes)
    (h : (TenantWrite.commitUploadedCanonicalNode (.new hash node lease)).run codec t = some t') :
    NodeRecorded t' hash node bytes := by
  have hcommit : commitNewNode hash node lease [] t = some t' := h
  have hnew := TenantWritesAux.commitNewNode_spec ht hrefs (by simp) hcommit
  refine ⟨⟨_, hnew.row, rfl, rfl⟩, refs_of_lookup ?_, by rw [hnew.objects]; exact hobject⟩
  intro i
  have hnone : t.edges.lookup (hash, i) = none := by
    cases hedge : t.edges.lookup (hash, i) with
    | none => rfl
    | some c => exact absurd (ht.endpoints _ _ _ hedge).1 hnew.fresh
  rw [commitNewNode, List.nil_append, TenantWritesAux.batch_append] at hcommit
  obtain ⟨t₂, hb₂, hlast⟩ := Option.bind_eq_some_iff.mp hcommit
  obtain ⟨t₁, hinsert, hedges⟩ := TenantWritesAux.batch_cons hb₂
  have he₁ := (TenantWritesAux.insertNode_spec ht hinsert).2.2.1
  have he := (TenantWritesAux.release_sameGraph hlast).edges
  rw [he, lookup_edgeStatements hedges i, he₁, hnone]
  by_cases hi : i < node.refs.length
  · rw [if_pos (by omega), Nat.sub_zero]
  · rw [if_neg (by omega), List.getElem?_eq_none (by omega)]

/-! ## Reads -/

/-- The node is read by ranges: the whole content without a header, the bytes that a header selects, and a refusal as not
satisfiable where a header selects none. -/
def AnswersRanges (admits : Nat → Prop) (t : Tenant) (hash : Hash) (node : UniDocs.Codec.Node) : Prop :=
  readNodeContent t hash none = .ok (some ⟨node.content, node.contentType, node.content.length, none⟩) ∧
  ∀ header,
    (∀ start stop, Selects admits node.content.length header start stop → stop < node.content.length ∧
      readNodeContent t hash (some header) = .ok (some
        ⟨(node.content.drop start).take (stop + 1 - start), node.contentType, node.content.length, some ⟨start, stop⟩⟩)) ∧
    ((¬ ∃ start stop, Selects admits node.content.length header start stop) →
      readNodeContent t hash (some header) = .error (rangeNotSatisfiable node.content.length))

theorem readCanonicalRange_content {t : Tenant} {hash : Hash} {node : UniDocs.Codec.Node} {bytes : Bytes}
    (hobject : t.objects.lookup hash = some bytes)
    (hcontent : node.content = bytes.drop (UniDocs.Codec.headerSize + node.contentType.length
      + node.refs.length * UniDocs.Codec.hashSize)) (start length : Nat) :
    readCanonicalRange t hash (physicalOffset node.contentType node.refs + start) length
      = some ((node.content.drop start).take length) := by
  rw [readCanonicalRange, hobject, Option.map_some, physicalOffset, node.length_textEncode, hcontent, List.drop_drop]

theorem answersRanges_of_recorded {t : Tenant} {hash : Hash} {node : UniDocs.Codec.Node} {bytes : Bytes}
    (h : NodeRecorded t hash ⟨node.content.length, node.contentType, node.refs⟩ bytes)
    (hcontent : node.content = bytes.drop (UniDocs.Codec.headerSize + node.contentType.length
      + node.refs.length * UniDocs.Codec.hashSize)) : AnswersRanges IsSafe t hash node := by
  obtain ⟨row, hrow, hsize, htype⟩ := h.row
  have hread := readCanonicalRange_content h.object hcontent
  simp only at hsize htype
  refine ⟨?_, fun header => ⟨?_, ?_⟩⟩
  · have hwhole := hread 0 node.content.length
    rw [Nat.add_zero, List.drop_zero, List.take_length] at hwhole
    simp only [readNodeContent, hrow, hsize, htype, h.refs, hwhole, Option.map_some]
  · intro start stop hselects
    obtain ⟨hle, hlt⟩ := hselects.bounds
    have hparse := parse_of_selects hselects
    have hlength : stop + 1 - start = stop - start + 1 := by omega
    have hstop : start + (stop - start + 1) - 1 = stop := by omega
    refine ⟨hlt, ?_⟩
    simp only [readNodeContent, hrow, hsize, htype, h.refs, hparse, hread, Option.map_some, hlength, hstop]
  · intro hnone
    have hparse := (selects_or_refused header node.content.length).resolve_left hnone
    simp only [readNodeContent, hrow, hsize, hparse]

/-- The commit of an upload records its row, its edges in order and its object; and where a stream that holds one canonical
node is recorded so, the content of that node is read by ranges whose numbers are safe integers. -/
theorem node_ranges :
    (∀ (codec : Codec) (hash : Hash) (node : ParsedNode) (lease : NodeLeaseRecord) (bytes : Bytes) (t t' : Tenant),
      RefCounts t → (∀ c ∈ node.refs, c ∈ t.nodes) → t.objects.lookup hash = some bytes →
        (TenantWrite.commitUploadedCanonicalNode (.new hash node lease)).run codec t = some t' →
        NodeRecorded t' hash node bytes) ∧
    ∀ (source : UniDocs.Codec.ByteStream) (declared : Option Nat) (limits : UniDocs.Codec.CanonicalNodeLimits)
      (parsed : UniDocs.Codec.ParsedCanonicalNodeStream),
      UniDocs.Codec.parseCanonicalNodeStream source declared limits = .ok parsed → parsed.body.error = none →
      ∀ (t : Tenant) (hash : Hash),
        NodeRecorded t hash ⟨parsed.contentSize, parsed.contentType, parsed.refs⟩ source.bytes →
        ∃ node : UniDocs.Codec.Node, node.encode = .ok source.bytes ∧ node.contentType = parsed.contentType
          ∧ node.refs = parsed.refs ∧ node.content.length = parsed.contentSize ∧ AnswersRanges IsSafe t hash node := by
  refine ⟨fun _ _ _ _ _ _ _ => recorded_of_commit, ?_⟩
  intro source declared limits parsed hparse hend t hash hrecorded
  obtain ⟨node, htype, hrefs, hcontent, hsize, _, _, hencode⟩ := UniDocs.Codec.encode_parse hparse hend
  rw [← htype, ← hrefs, ← hsize] at hrecorded
  rw [← htype, ← hrefs] at hcontent
  exact ⟨node, hencode, htype, hrefs, hsize, answersRanges_of_recorded hrecorded hcontent⟩

theorem plainText_length : UniDocs.Codec.minContentTypeLength ≤ "text/plain".length ∧
    "text/plain".length ≤ UniDocs.Codec.maxContentTypeLength := by
  decide

theorem plainText_printable : ∀ c ∈ "text/plain".toList, UniDocs.Codec.IsPrintable c := by
  decide

/-- A node with the content `x` and no references. -/
def letterNode : UniDocs.Codec.Node where
  contentType := "text/plain"
  refs := []
  content := [120]
  contentType_length := plainText_length
  contentType_printable := plainText_printable
  refs_length := by decide
  refs_hash := by decide
  size_le := by decide

/-- The hash under which the node is stored. -/
def letterHash : Hash := "a5895917042135f3717d54b15435765ca09c1d0dcaa4e37f52675808751e4f70"

/-- A node with the content `word` that refers to the letter. -/
def wordNode : UniDocs.Codec.Node where
  contentType := "text/plain"
  refs := [letterHash]
  content := [119, 111, 114, 100]
  contentType_length := plainText_length
  contentType_printable := plainText_printable
  refs_length := by decide
  refs_hash := by decide
  size_le := by decide

def wordHash : Hash := "7ed36f6afb884f711e96458785f380fdf616046723116500f1e0046beb44ad31"

/-- A tenant that holds the node's object and no row yet. -/
def uploadedTenant (bytes : Bytes) : Tenant := { Tenant.empty with objects := Tenant.empty.objects.insert letterHash bytes }

/-- The tenant after the commit of the node. -/
def committedTenant (bytes : Bytes) : Tenant :=
  { uploadedTenant bytes with nodes := Tenant.empty.nodes.insert letterHash ⟨1, "text/plain", 0, 60000, 0, 0⟩ }

/-- The tenant with the committed letter that holds the object of the word and no row of it yet. -/
def uploadedWord (letter bytes : Bytes) : Tenant :=
  { committedTenant letter with objects := (committedTenant letter).objects.insert wordHash bytes }

theorem uploadedWord_counts (letter bytes : Bytes) : RefCounts (uploadedWord letter bytes) := by
  have hnodes : ∀ h row, (uploadedWord letter bytes).nodes.lookup h = some row →
      row = ⟨1, "text/plain", 0, 60000, 0, 0⟩ := by
    intro h row hrow
    have hinsert : (Tenant.empty.nodes.insert letterHash ⟨1, "text/plain", 0, 60000, 0, 0⟩).lookup h = some row := hrow
    rw [AList.lookup_insert_eq] at hinsert
    split at hinsert
    · exact (Option.some.inj hinsert).symm
    · cases hinsert
  refine ⟨fun h row hrow => ?_, fun _ _ _ h => (by cases h), fun h row hrow => ?_⟩
  · rw [hnodes h row hrow]
    rfl
  · rw [hnodes h row hrow]

/-- A range that starts behind the first byte and runs over the end is read from a node that refers to another one. -/
theorem node_ranges_word : ∃ (source : UniDocs.Codec.ByteStream) (t : Tenant) (node : UniDocs.Codec.Node),
    wordNode.encode = .ok source.bytes ∧ node.refs = [letterHash] ∧ node.content.length = 4 ∧
      readNodeContent t wordHash (some (rangeText [49] [57])) = .ok (some
        ⟨(node.content.drop 1).take 3, node.contentType, 4, some ⟨1, 3⟩⟩) := by
  obtain ⟨letter, _⟩ : ∃ letter, letterNode.encode = .ok letter := ⟨_, letterNode.encode_eq.choose_spec.1⟩
  obtain ⟨bytes, hencode⟩ : ∃ bytes, wordNode.encode = .ok bytes := ⟨_, wordNode.encode_eq.choose_spec.1⟩
  have hchunks : [bytes].flatten = bytes := by simp
  obtain ⟨parsed, hparsed, hsize, htype, hrefs, _, hend, _⟩ :=
    UniDocs.Codec.parse_encode wordNode hencode hchunks (Or.inl rfl)
  let plan : UploadedCanonicalNodeCommit := .new wordHash ⟨4, "text/plain", [letterHash]⟩ ⟨0, 60000⟩
  obtain ⟨t, hcommit⟩ : ∃ t, (TenantWrite.commitUploadedCanonicalNode plan).run ⟨fun _ _ => .error "", fun _ => wordHash⟩
      (uploadedWord letter bytes) = some t := ⟨_, rfl⟩
  have hrecorded := node_ranges.1 _ wordHash ⟨4, "text/plain", [letterHash]⟩ ⟨0, 60000⟩ bytes (uploadedWord letter bytes) t
    (uploadedWord_counts letter bytes) ?_ (AList.lookup_insert _) hcommit
  · have hlength : parsed.contentSize = 4 := hsize
    rw [← hlength, ← show parsed.contentType = "text/plain" from htype,
      ← show parsed.refs = [letterHash] from hrefs] at hrecorded
    obtain ⟨node, _, _, hnodeRefs, hnode, _, hranges⟩ := node_ranges.2 ⟨[bytes], none⟩ none {} parsed hparsed hend _ _
      (by rw [show (UniDocs.Codec.ByteStream.mk [bytes] none).bytes = bytes from hchunks]; exact hrecorded)
    rw [hlength] at hnode
    have hselects : Selects IsSafe node.content.length (rangeText [49] [57]) 1 3 := by
      rw [hnode]
      refine .bounded (isDigits_of_all ?_ ?_) (isDigits_of_all ?_ ?_) (show ((digitsValue [49] : Nat) : Int) ≤ maxSafeInteger from ?_)
        (show ((digitsValue [57] : Nat) : Int) ≤ maxSafeInteger from ?_) ?_ ?_ <;> decide
    have hbytes : wordNode.encode = .ok (UniDocs.Codec.ByteStream.mk [bytes] none).bytes := by
      rw [hencode, UniDocs.Codec.ByteStream.bytes, hchunks]
    refine ⟨⟨[bytes], none⟩, t, node, hbytes, hnodeRefs.trans hrefs, hnode, ?_⟩
    have hread := ((hranges _).1 1 3 hselects).2
    rw [hnode] at hread
    exact hread
  · simp only [List.mem_singleton]
    rintro c rfl
    exact AList.mem_insert _ |>.mpr (.inl rfl)

/-- A header with a number that is no safe integer is refused, though the bytes up to that number are the whole content. -/
theorem node_ranges_false : ∃ (source : UniDocs.Codec.ByteStream) (parsed : UniDocs.Codec.ParsedCanonicalNodeStream)
    (t : Tenant), UniDocs.Codec.parseCanonicalNodeStream source none {} = .ok parsed ∧ parsed.body.error = none ∧
      NodeRecorded t letterHash ⟨parsed.contentSize, parsed.contentType, parsed.refs⟩ source.bytes ∧
      ∀ node : UniDocs.Codec.Node, node.content.length = parsed.contentSize →
        ¬ AnswersRanges (fun _ => True) t letterHash node := by
  obtain ⟨bytes, hencode⟩ : ∃ bytes, letterNode.encode = .ok bytes := ⟨_, letterNode.encode_eq.choose_spec.1⟩
  have hchunks : [bytes].flatten = bytes := by simp
  obtain ⟨parsed, hparsed, hsize, htype, hrefs, _, hend, _⟩ :=
    UniDocs.Codec.parse_encode letterNode hencode hchunks (Or.inl rfl)
  refine ⟨⟨[bytes], none⟩, parsed, committedTenant bytes, hparsed, hend, ⟨⟨_, AList.lookup_insert _, ?_, ?_⟩, ?_, ?_⟩, ?_⟩
  · exact hsize.symm
  · exact htype.symm
  · rw [show parsed.refs = [] from hrefs]
    rfl
  · rw [show (UniDocs.Codec.ByteStream.mk [bytes] none).bytes = bytes from hchunks]
    exact AList.lookup_insert _
  · rintro node hnode ⟨_, hranges⟩
    have hone : node.content.length = 1 := hnode.trans hsize
    -- 9007199254740992
    let last : JsString := [57, 48, 48, 55, 49, 57, 57, 50, 53, 52, 55, 52, 48, 57, 57, 50]
    have hfirst : IsDigits [48] := isDigits_of_all (by decide) (by decide)
    have hlast : IsDigits last := isDigits_of_all (by decide) (by decide)
    have hvalue : digitsValue last = 9007199254740992 := by decide
    have hselects : Selects (fun _ => True) node.content.length (rangeText [48] last) 0 0 := by
      rw [hone]
      exact .bounded hfirst hlast trivial trivial (by decide) (by decide)
    have hlarge : rangeNumber last = none := by
      rcases rangeNumber_digits hlast.2 with ⟨hsafe, _⟩ | ⟨_, hnone⟩
      · rw [IsSafe, hvalue] at hsafe
        exact absurd hsafe (by decide)
      · exact hnone
    have hparse : parseNodeContentRange (rangeText [48] last) 1 = .error (rangeNotSatisfiable 1) := by
      rw [parseNodeContentRange, matchRange_iff.mpr ⟨rfl, hfirst.2, hlast.2⟩]
      simp only [hfirst.1, false_and, if_false, Nat.one_ne_zero, or_self]
      exact if_pos (Or.inr ⟨hlast.1, hlarge⟩)
    have hread : readNodeContent (committedTenant bytes) letterHash (some (rangeText [48] last)) =
        .error (rangeNotSatisfiable 1) := by
      have hrow : (committedTenant bytes).nodes.lookup letterHash = some ⟨1, "text/plain", 0, 60000, 0, 0⟩ :=
        AList.lookup_insert _
      simp only [readNodeContent, hrow, hparse]
    have hok := ((hranges _).1 0 0 hselects).2
    rw [hread] at hok
    cases hok

end UniDocs.Cas
