import UniDocs.Lemmas.SValuePrepare
import UniDocs.Lib.CborOrder

/-!
# Canonical values

The order of `sortedKeys` is the deterministic order of CBOR map keys, so that a canonical value is written as a canonical
item, and its canonical form is itself. Every token of a value that passes its checks is one that the tokenizer can hold.
-/

namespace UniDocs.SValueCodec

open Lib Lib.Cbor UniDocs.Cas UniDocs.Codec

/-! ## The order of keys -/

/-- The comparison of `sortedKeys` is not positive exactly on equal bytes and in lexicographic order. -/
theorem compareBytes_le_iff : ∀ l r : Bytes, compareBytes l r ≤ 0 ↔ l = r ∨ lexLt l r
  | [], [] => by simp [compareBytes]
  | [], b :: r => by
    simp only [compareBytes, List.length_cons, lexLt, or_true, iff_true]
    omega
  | a :: l, [] => by
    simp only [compareBytes, List.length_cons, lexLt, or_false, reduceCtorEq, iff_false]
    omega
  | a :: l, b :: r => by
    simp only [compareBytes, lexLt, List.cons.injEq, ne_eq]
    by_cases hab : a = b
    · subst hab
      simp only [not_true_eq_false, if_false, true_and, compareBytes_le_iff l r]
      constructor
      · rintro (h | h)
        · exact Or.inl h
        · exact Or.inr (Or.inr h)
      · rintro (h | h | h)
        · exact Or.inl h
        · exact absurd (UInt8.lt_iff_toNat_lt.mp h) (Nat.lt_irrefl _)
        · exact Or.inr h
    · simp only [hab, not_false_eq_true, if_true, false_and, false_or, or_false, UInt8.lt_iff_toNat_lt]
      have hne : a.toNat ≠ b.toNat := fun h => hab (UInt8.toNat.inj h)
      omega

section Order

variable {cborg : Cborg}

/-- The entries of objects, ordered by key. -/
abbrev entryLe (cborg : Cborg) {α : Type} (entry entry' : String × α) : Prop := keyLe cborg entry.1 entry'.1

instance {α : Type} : Std.Total (entryLe cborg (α := α)) where
  total := by
    intro entry entry'
    simp only [entryLe, keyLe, compareBytes_le_iff]
    rcases lexLt_trichotomy (cborg.encode (.text entry.1)) (cborg.encode (.text entry'.1)) with h | h | h
    · exact Or.inl (Or.inr h)
    · exact Or.inl (Or.inl h)
    · exact Or.inr (Or.inr h)

instance {α : Type} : IsTrans (String × α) (entryLe cborg) where
  trans := by
    intro a b c
    simp only [entryLe, keyLe, compareBytes_le_iff]
    rintro (h | h) (h' | h')
    · exact Or.inl (h.trans h')
    · exact Or.inr (h ▸ h')
    · exact Or.inr (h' ▸ h)
    · exact Or.inr (lexLt_trans _ _ _ h h')

theorem pairwise_sorted {α : Type} (entries : List (String × α)) :
    (entries.insertionSort (entryLe cborg)).Pairwise (entryLe cborg) :=
  List.pairwise_insertionSort _ _

/-! ## Idempotence -/

theorem JsNumber.canonical_canonical (value : JsNumber) : value.canonical.canonical = value.canonical := by
  cases value <;> rfl

mutual
theorem SValue.canonical_canonical : (value : SValue) → (value.canonical cborg).canonical cborg = value.canonical cborg
  | .null | .bool _ | .string _ | .sblob _ => by simp only [SValue.canonical]
  | .number value => by simp only [SValue.canonical, JsNumber.canonical_canonical]
  | .array items => by simp only [SValue.canonical, canonicalItems_canonicalItems items]
  | .object properties => by
    have heach := canonicalProperties_fixed properties
    have hfixed : canonicalProperties cborg ((canonicalProperties cborg properties).insertionSort (entryLe cborg)) =
        (canonicalProperties cborg properties).insertionSort (entryLe cborg) := by
      rw [canonicalProperties_eq_map]
      conv_rhs => rw [← List.map_id ((canonicalProperties cborg properties).insertionSort (entryLe cborg))]
      apply List.map_congr_left
      intro property hmem
      have hvalue := heach property ((List.mem_insertionSort _).mp hmem)
      simp only [hvalue, id_eq]
    simp only [SValue.canonical]
    rw [hfixed, (pairwise_sorted _).insertionSort_eq]
theorem canonicalItems_canonicalItems : (items : List SValue) →
    canonicalItems cborg (canonicalItems cborg items) = canonicalItems cborg items
  | [] => rfl
  | item :: items => by
    simp only [canonicalItems, item.canonical_canonical, canonicalItems_canonicalItems items]
theorem canonicalProperties_fixed : (properties : List (String × SValue)) →
    ∀ property ∈ canonicalProperties cborg properties, property.2.canonical cborg = property.2
  | [], property, h => by cases h
  | (key, value) :: properties, property, h => by
    rw [canonicalProperties] at h
    rcases List.mem_cons.mp h with rfl | h
    · exact value.canonical_canonical
    · exact canonicalProperties_fixed properties property h
end

end Order

/-! ## Valid tokens -/

/-- Limits that `codecLimits` has let through. -/
structure SValueCodecLimits.Safe (limits : SValueCodecLimits) : Prop where
  maxArrayLength : limits.maxArrayLength ≤ maxSafeInteger
  maxMapEntries : limits.maxMapEntries ≤ maxSafeInteger
  maxStringBytes : limits.maxStringBytes ≤ maxSafeInteger

theorem codecLimit_le {name : String} {value : Option Int} {default limit : Nat}
    (h : codecLimit name value default = .ok limit) (hd : default ≤ maxSafeInteger) : limit ≤ maxSafeInteger := by
  cases value with
  | none =>
    cases h
    exact hd
  | some value =>
    rw [codecLimit] at h
    by_cases hout : value < 0 ∨ (maxSafeInteger : Int) < value
    · simp only [if_pos hout, reduceCtorEq] at h
    · simp only [if_neg hout, Except.ok.injEq] at h
      omega

theorem codecLimits_safe {options : SValueCodecOptions} {limits : SValueCodecLimits}
    (h : codecLimits options = .ok limits) : limits.Safe := by
  simp only [codecLimits, bind_ok_iff, pure_ok_iff] at h
  obtain ⟨a, ha, b, hb, c, hc, d, hd, m, hm, f, hf, g, hg, v, hv, rfl⟩ := h
  exact ⟨codecLimit_le ha (by decide), codecLimit_le hm (by decide), codecLimit_le hg (by decide)⟩

theorem length_hexToBytes (hash : BlobHash) : (hexToBytes hash.val).length = 32 := by
  apply length_hexBytes
  rw [String.length_toList]
  exact hash.property.1

theorem numberItem_tokens_valid {value : JsNumber} (h : value.Fits) :
    ∀ token ∈ (numberItem value).tokens, token.Valid := by
  intro token htoken
  cases value with
  | notFinite => exact absurd h id
  | negativeZero => exact absurd h id
  | integral n =>
    simp only [numberItem, Item.tokens, List.mem_singleton] at htoken
    simp only [JsNumber.Fits, maxSafeInteger] at h
    subst htoken
    simp only [Token.Valid]
    omega
  | fractional bits =>
    simp only [numberItem, Item.tokens, List.mem_singleton] at htoken
    subst htoken
    exact bits.property

theorem length_itemsOf (items : List SValue) : (itemsOf items).length = items.length := by
  induction items with
  | nil => rfl
  | cons item items ih => rw [itemsOf, List.length_cons, ih, List.length_cons]

theorem entriesOf_eq_map (properties : List (String × SValue)) :
    entriesOf properties = properties.map fun property => (property.1, property.2.item) := by
  induction properties with
  | nil => rfl
  | cons property properties ih =>
    obtain ⟨key, value⟩ := property
    rw [entriesOf, ih, List.map_cons]

theorem length_entriesOf (properties : List (String × SValue)) : (entriesOf properties).length = properties.length := by
  rw [entriesOf_eq_map, List.length_map]

section Valid

variable {limits : SValueCodecLimits}

theorem text_valid (hsafe : limits.Safe) {text : String} (h : (utf8 text).length ≤ limits.maxStringBytes) : (Token.text text).Valid := by
  have hmax := hsafe.maxStringBytes
  simp only [maxSafeInteger] at hmax
  simp only [Token.Valid]
  omega

mutual
theorem SValue.tokens_valid (hsafe : limits.Safe) : (value : SValue) → (depth : Nat) → value.Fits limits depth →
    ∀ token ∈ value.item.tokens, token.Valid
  | .null, _, _ | .bool _, _, _ => by
    intro token h
    simp only [SValue.item, Item.tokens, List.mem_singleton] at h
    subst h
    trivial
  | .number value, _, hfits => numberItem_tokens_valid hfits.2
  | .string value, _, hfits => by
    intro token h
    simp only [SValue.item, Item.tokens, List.mem_singleton] at h
    subst h
    exact text_valid hsafe hfits.2
  | .sblob hash, _, _ => by
    intro token h
    simp only [SValue.item, Item.tokens, List.mem_cons, List.not_mem_nil, or_false] at h
    rcases h with rfl | rfl
    · simp [Token.Valid, sBlobTag]
    · simp only [Token.Valid, length_hexToBytes]
      omega
  | .array items, depth, hfits => by
    obtain ⟨_, hlen, hitems⟩ := hfits
    intro token h
    simp only [SValue.item, Item.tokens, List.mem_cons] at h
    rcases h with rfl | h
    · have hmax := hsafe.maxArrayLength
      simp only [maxSafeInteger] at hmax
      simp only [Token.Valid, length_itemsOf]
      omega
    · exact tokensOfItems_valid hsafe items (depth + 1) hitems token h
  | .object properties, depth, hfits => by
    obtain ⟨_, hlen, hkeys, hvalues⟩ := hfits
    intro token h
    simp only [SValue.item, Item.tokens, List.mem_cons] at h
    rcases h with rfl | h
    · have hmax := hsafe.maxMapEntries
      simp only [maxSafeInteger] at hmax
      simp only [Token.Valid, length_entriesOf]
      omega
    · exact tokensOfEntries_valid hsafe properties (depth + 1) hkeys hvalues token h
theorem tokensOfItems_valid (hsafe : limits.Safe) : (items : List SValue) → (depth : Nat) → itemsFit limits items depth →
    ∀ token ∈ tokensOfItems (itemsOf items), token.Valid
  | [], _, _, token, h => by cases h
  | item :: items, depth, hfits, token, h => by
    rw [itemsOf, tokensOfItems] at h
    rcases List.mem_append.mp h with h | h
    · exact item.tokens_valid hsafe depth hfits.1 token h
    · exact tokensOfItems_valid hsafe items depth hfits.2 token h
theorem tokensOfEntries_valid (hsafe : limits.Safe) : (properties : List (String × SValue)) → (depth : Nat) →
    (∀ property ∈ properties, (utf8 property.1).length ≤ limits.maxStringBytes) → propertiesFit limits properties depth →
    ∀ token ∈ tokensOfEntries (entriesOf properties), token.Valid
  | [], _, _, _, token, h => by cases h
  | (key, value) :: properties, depth, hkeys, hfits, token, h => by
    rw [entriesOf, tokensOfEntries, List.cons_append, List.mem_cons, List.mem_append] at h
    rcases h with rfl | h | h
    · exact text_valid hsafe (hkeys (key, value) (by simp))
    · exact value.tokens_valid hsafe depth hfits.1 token h
    · exact tokensOfEntries_valid hsafe properties depth (fun p hp => hkeys p (by simp [hp])) hfits.2 token h
end

end Valid

/-! ## Canonical items -/

theorem propertiesFit_of_mem {limits : SValueCodecLimits} {properties : List (String × SValue)} {depth : Nat}
    (h : propertiesFit limits properties depth) {entry : String × SValue} (hmem : entry ∈ properties) :
    entry.2.Fits limits depth := by
  induction properties with
  | nil => cases hmem
  | cons property properties ih =>
    obtain ⟨key, value⟩ := property
    rcases List.mem_cons.mp hmem with rfl | hmem
    · exact h.1
    · exact ih h.2 hmem

theorem entriesOf_canonical_of_mem {properties : List (String × SValue)}
    (h : ∀ entry ∈ properties, entry.2.item.Canonical) : canonicalEntries (entriesOf properties) := by
  induction properties with
  | nil => trivial
  | cons property properties ih =>
    obtain ⟨key, value⟩ := property
    exact ⟨h (key, value) (by simp), ih fun entry hentry => h entry (by simp [hentry])⟩

theorem text_encode {cborg : Cborg} (hrfc : cborg.Rfc8949) {text : String} (h : (Token.text text).Valid) :
    cborg.encode (.text text) = (Token.text text).encode := by
  rw [hrfc.encode_canonical (.text text) trivial (by simpa [Item.tokens] using h)]
  simp [encodeTokens, Item.tokens]

/-- Texts with the same encoding are equal. -/
theorem text_encode_inj {text text' : String} (h : (Token.text text).Valid) (h' : (Token.text text').Valid)
    (heq : (Token.text text).encode = (Token.text text').encode) : text = text' := by
  have hread := readToken_encode h []
  rw [heq, readToken_encode h' []] at hread
  simpa using hread.symm

theorem pairwise_keyLt {cborg : Cborg} (hrfc : cborg.Rfc8949) {entries : List (String × SValue)}
    (hvalid : ∀ entry ∈ entries, (Token.text entry.1).Valid) (hnodup : (entries.map Prod.fst).Nodup)
    (hsorted : entries.Pairwise (entryLe cborg)) : entries.Pairwise fun entry entry' => keyLt entry.1 entry'.1 := by
  have hne : entries.Pairwise fun entry entry' => entry.1 ≠ entry'.1 := List.pairwise_map.mp hnodup
  have hboth := hsorted.and hne
  refine List.Pairwise.imp_of_mem ?_ hboth
  rintro entry entry' hmem hmem' ⟨hle, hkeys⟩
  have hv := hvalid entry hmem
  have hv' := hvalid entry' hmem'
  simp only [entryLe, keyLe, compareBytes_le_iff, text_encode hrfc hv, text_encode hrfc hv'] at hle
  rcases hle with hle | hle
  · exact absurd (text_encode_inj hv hv' hle) hkeys
  · exact hle

section Canonical

variable {cborg : Cborg} {limits : SValueCodecLimits}

mutual
theorem SValue.item_canonical (hrfc : cborg.Rfc8949) (hsafe : limits.Safe) :
    (value : SValue) → (depth : Nat) → value.DistinctKeys →
    (value.canonical cborg).Fits limits depth → (value.canonical cborg).item.Canonical
  | .null, _, _, _ | .bool _, _, _, _ | .string _, _, _, _ | .sblob _, _, _, _ => by
    simp [SValue.canonical, SValue.item, Item.Canonical]
  | .number value, _, _, _ => by
    simp only [SValue.canonical, SValue.item]
    cases value.canonical <;> simp [numberItem, Item.Canonical]
  | .array items, depth, hkeys, hfits => by
    simp only [SValue.canonical, SValue.item, Item.Canonical]
    simp only [SValue.canonical, SValue.Fits] at hfits
    exact itemsOf_canonical hrfc hsafe items (depth + 1) hkeys hfits.2.2
  | .object properties, depth, hkeys, hfits => by
    obtain ⟨hnodup, hdistinct⟩ := hkeys
    simp only [SValue.canonical, SValue.Fits] at hfits
    obtain ⟨_, _, hkeyFits, hvalues⟩ := hfits
    have hperm := List.perm_insertionSort (entryLe cborg) (canonicalProperties cborg properties)
    have hnames : (((canonicalProperties cborg properties).insertionSort (entryLe cborg)).map Prod.fst).Nodup := by
      rw [(hperm.map Prod.fst).nodup_iff, canonicalProperties_eq_map, List.map_map]
      exact hnodup
    have hvalid : ∀ entry ∈ (canonicalProperties cborg properties).insertionSort (entryLe cborg),
        (Token.text entry.1).Valid := fun entry hentry => text_valid hsafe (hkeyFits entry hentry)
    simp only [SValue.canonical, SValue.item, Item.Canonical, entriesOf_eq_map]
    refine ⟨?_, ?_⟩
    · rw [List.pairwise_map]
      exact pairwise_keyLt hrfc hvalid hnames (pairwise_sorted _)
    · rw [← entriesOf_eq_map]
      apply entriesOf_canonical_of_mem
      intro entry hentry
      have hmem := (List.mem_insertionSort _).mp hentry
      exact canonicalProperties_item hrfc hsafe properties (depth + 1) hdistinct
        (fun entry' hentry' => propertiesFit_of_mem hvalues ((List.mem_insertionSort _).mpr hentry')) entry hmem
theorem itemsOf_canonical (hrfc : cborg.Rfc8949) (hsafe : limits.Safe) :
    (items : List SValue) → (depth : Nat) → distinctItems items →
    itemsFit limits (canonicalItems cborg items) depth → Cbor.canonicalItems (itemsOf (canonicalItems cborg items))
  | [], _, _, _ => by simp [canonicalItems, itemsOf, Cbor.canonicalItems]
  | item :: items, depth, hkeys, hfits => by
    simp only [canonicalItems, itemsOf, Cbor.canonicalItems]
    exact ⟨item.item_canonical hrfc hsafe depth hkeys.1 hfits.1, itemsOf_canonical hrfc hsafe items depth hkeys.2 hfits.2⟩
theorem canonicalProperties_item (hrfc : cborg.Rfc8949) (hsafe : limits.Safe) :
    (properties : List (String × SValue)) → (depth : Nat) → distinctProperties properties →
    (∀ entry ∈ canonicalProperties cborg properties, entry.2.Fits limits depth) →
    ∀ entry ∈ canonicalProperties cborg properties, entry.2.item.Canonical
  | [], _, _, _, entry, h => by cases h
  | (key, value) :: properties, depth, hkeys, hfits, entry, h => by
    rw [canonicalProperties] at h hfits
    rcases List.mem_cons.mp h with rfl | h
    · exact value.item_canonical hrfc hsafe depth hkeys.1 (hfits (key, value.canonical cborg) (by simp))
    · exact canonicalProperties_item hrfc hsafe properties depth hkeys.2 (fun e he => hfits e (by simp [he])) entry h
end

end Canonical

end UniDocs.SValueCodec
