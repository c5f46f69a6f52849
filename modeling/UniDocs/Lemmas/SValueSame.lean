import UniDocs.Lemmas.SValueDecode

/-!
# Equality of values

Two values are the same when they have the same content: objects as finite maps, in whatever order their properties are
listed, and the negative zero as zero. Values that pass their checks have one canonical form exactly when they are the same,
and one canonical form is written as one item.
-/

namespace UniDocs.SValueCodec

open Lib Lib.Cbor UniDocs.Cas UniDocs.Codec

mutual
/-- The values are equal: item by item, and property by property under the same keys. -/
def SValue.Same : SValue → SValue → Prop
  | .null, .null => True
  | .bool value, .bool value' => value = value'
  | .number value, .number value' => value.canonical = value'.canonical
  | .string value, .string value' => value = value'
  | .sblob hash, .sblob hash' => hash = hash'
  | .array items, .array items' => sameItems items items'
  | .object properties, .object properties' =>
    (∀ key, key ∈ properties.map Prod.fst ↔ key ∈ properties'.map Prod.fst) ∧ sameProperties properties properties'
  | _, _ => False
def sameItems : List SValue → List SValue → Prop
  | [], [] => True
  | item :: items, item' :: items' => item.Same item' ∧ sameItems items items'
  | _, _ => False
def sameProperties : List (String × SValue) → List (String × SValue) → Prop
  | [], _ => True
  | (key, value) :: properties, properties' =>
    (∀ value', (key, value') ∈ properties' → value.Same value') ∧ sameProperties properties properties'
end

/-! ## Properties -/

theorem distinctProperties_of_mem {properties : List (String × SValue)} (h : distinctProperties properties)
    {property : String × SValue} (hmem : property ∈ properties) : property.2.DistinctKeys := by
  induction properties with
  | nil => cases hmem
  | cons first properties ih =>
    obtain ⟨key, value⟩ := first
    rcases List.mem_cons.mp hmem with rfl | hmem
    · exact h.1
    · exact ih h.2 hmem

theorem value_unique {α : Type} {properties : List (String × α)} (hnodup : (properties.map Prod.fst).Nodup) {key : String}
    {value value' : α} (h : (key, value) ∈ properties) (h' : (key, value') ∈ properties) : value = value' := by
  induction properties with
  | nil => cases h
  | cons first properties ih =>
    rw [List.map_cons, List.nodup_cons] at hnodup
    have hother : ∀ w : α, (key, w) ∈ properties → first.1 ≠ key := by
      rintro w hw rfl
      exact hnodup.1 (List.mem_map.mpr ⟨_, hw, rfl⟩)
    rcases List.mem_cons.mp h with rfl | hrest
    · rcases List.mem_cons.mp h' with heq | hrest'
      · simpa using heq.symm
      · exact absurd rfl (hother _ hrest')
    · rcases List.mem_cons.mp h' with rfl | hrest'
      · exact absurd rfl (hother _ hrest)
      · exact ih hnodup.2 hrest hrest'

theorem sameProperties_forall {properties properties' : List (String × SValue)} :
    sameProperties properties properties' ↔
      ∀ key value, (key, value) ∈ properties → ∀ value', (key, value') ∈ properties' → value.Same value' := by
  induction properties with
  | nil => simp [sameProperties]
  | cons first properties ih =>
    obtain ⟨key, value⟩ := first
    simp only [sameProperties, ih, List.mem_cons, Prod.mk.injEq]
    constructor
    · rintro ⟨hfirst, hrest⟩ k v (⟨rfl, rfl⟩ | hmem)
      · exact hfirst
      · exact hrest k v hmem
    · exact fun h => ⟨h key value (.inl ⟨rfl, rfl⟩), fun k v hmem => h k v (.inr hmem)⟩

section Canonical

variable {cborg : Cborg} {limits limits' : SValueCodecLimits}

theorem mem_canonicalProperties {properties : List (String × SValue)} {key : String} {value : SValue} :
    (key, value) ∈ canonicalProperties cborg properties ↔ ∃ v, (key, v) ∈ properties ∧ v.canonical cborg = value := by
  rw [canonicalProperties_eq_map, List.mem_map]
  constructor
  · rintro ⟨⟨key', v⟩, hmem, heq⟩
    simp only [Prod.mk.injEq] at heq
    obtain ⟨rfl, rfl⟩ := heq
    exact ⟨v, hmem, rfl⟩
  · rintro ⟨v, hmem, rfl⟩
    exact ⟨(key, v), hmem, rfl⟩

theorem keys_canonicalProperties (cborg : Cborg) (properties : List (String × SValue)) :
    (canonicalProperties cborg properties).map Prod.fst = properties.map Prod.fst := by
  rw [canonicalProperties_eq_map, List.map_map]
  rfl

/-- Objects with distinct and valid keys are sorted to one list exactly when they have the same entries. -/
theorem insertionSort_eq_iff (hrfc : cborg.Rfc8949) (hsafe : limits.Safe) {entries : List (String × SValue)}
    (entries' : List (String × SValue)) (hnodup : (entries.map Prod.fst).Nodup)
    (hvalid : ∀ entry ∈ entries, (utf8 entry.1).length ≤ limits.maxStringBytes) :
    entries.insertionSort (entryLe cborg) = entries'.insertionSort (entryLe cborg) ↔ entries.Perm entries' := by
  have hperm := List.perm_insertionSort (entryLe cborg) entries
  have hperm' := List.perm_insertionSort (entryLe cborg) entries'
  constructor
  · intro h
    exact hperm.symm.trans (h ▸ hperm')
  · intro h
    have hstrict : ∀ l : List (String × SValue), l.Perm entries → l.Pairwise (entryLe cborg) →
        l.Pairwise fun entry entry' => keyLt entry.1 entry'.1 := fun l hl hsorted =>
      pairwise_keyLt hrfc (fun entry hentry => text_valid hsafe (hvalid entry (hl.mem_iff.mp hentry)))
        ((hl.map Prod.fst).nodup_iff.mpr hnodup) hsorted
    refine List.Perm.eq_of_pairwise ?_ (hstrict _ hperm (pairwise_sorted _))
      (hstrict _ (hperm'.trans h.symm) (pairwise_sorted _)) (hperm.trans (h.trans hperm'.symm))
    exact fun entry entry' _ _ hlt hlt' => absurd hlt' (lexLt_asymm _ _ hlt)

/-- Objects have the same canonical entries exactly when they have the same keys, and under each key values with one
canonical form. -/
theorem canonicalProperties_perm_iff {properties properties' : List (String × SValue)}
    (hnodup : (properties.map Prod.fst).Nodup) (hnodup' : (properties'.map Prod.fst).Nodup) :
    (canonicalProperties cborg properties).Perm (canonicalProperties cborg properties') ↔
      (∀ key, key ∈ properties.map Prod.fst ↔ key ∈ properties'.map Prod.fst) ∧
        ∀ key value, (key, value) ∈ properties → ∀ value', (key, value') ∈ properties' →
          value.canonical cborg = value'.canonical cborg := by
  have hkeys := keys_canonicalProperties cborg properties
  have hkeys' := keys_canonicalProperties cborg properties'
  constructor
  · intro hperm
    refine ⟨fun key => ?_, fun key value hmem value' hmem' => ?_⟩
    · have hall := (hperm.map Prod.fst).mem_iff (a := key)
      rwa [hkeys, hkeys'] at hall
    · have hleft : (key, value.canonical cborg) ∈ canonicalProperties cborg properties' :=
        hperm.mem_iff.mp (mem_canonicalProperties.mpr ⟨value, hmem, rfl⟩)
      have hright : (key, value'.canonical cborg) ∈ canonicalProperties cborg properties' :=
        mem_canonicalProperties.mpr ⟨value', hmem', rfl⟩
      exact value_unique (hkeys' ▸ hnodup') hleft hright
  · rintro ⟨hsame, hvalues⟩
    have hmem : ∀ {key : String} {ps : List (String × SValue)}, key ∈ ps.map Prod.fst → ∃ value, (key, value) ∈ ps := by
      intro key ps hkey
      obtain ⟨⟨_, value⟩, hin, rfl⟩ := List.mem_map.mp hkey
      exact ⟨value, hin⟩
    have hentries : (canonicalProperties cborg properties).Nodup := List.Nodup.of_map Prod.fst (hkeys ▸ hnodup)
    have hentries' : (canonicalProperties cborg properties').Nodup := List.Nodup.of_map Prod.fst (hkeys' ▸ hnodup')
    rw [List.perm_ext_iff_of_nodup hentries hentries']
    rintro ⟨key, c⟩
    simp only [mem_canonicalProperties]
    constructor
    · rintro ⟨value, hin, rfl⟩
      obtain ⟨value', hin'⟩ := hmem ((hsame key).mp (List.mem_map.mpr ⟨_, hin, rfl⟩))
      exact ⟨value', hin', (hvalues key value hin value' hin').symm⟩
    · rintro ⟨value', hin', rfl⟩
      obtain ⟨value, hin⟩ := hmem ((hsame key).mpr (List.mem_map.mpr ⟨_, hin', rfl⟩))
      exact ⟨value, hin, hvalues key value hin value' hin'⟩

mutual
/-- Values that pass their checks have one canonical form exactly when they are the same. -/
theorem SValue.canonical_eq_iff (hrfc : cborg.Rfc8949) (hsafe : limits.Safe) :
    (v w : SValue) → (depth : Nat) → v.DistinctKeys → w.DistinctKeys →
    (v.canonical cborg).Fits limits depth → (w.canonical cborg).Fits limits' depth →
    (v.canonical cborg = w.canonical cborg ↔ v.Same w)
  | .null, w, _, _, _, _, _ | .bool _, w, _, _, _, _, _ | .number _, w, _, _, _, _, _ | .string _, w, _, _, _, _, _
  | .sblob _, w, _, _, _, _, _ => by
    cases w <;> simp [SValue.canonical, SValue.Same]
  | .array items, w, depth, hv, hw, hfits, hfits' => by
    cases w with
    | array items' =>
      simp only [SValue.canonical, SValue.Fits] at hfits hfits'
      have hitems := sameItems_iff hrfc hsafe items items' (depth + 1) hv hw hfits.2.2 hfits'.2.2
      simp only [SValue.canonical, SValue.Same, SValue.array.injEq, hitems]
    | _ => simp [SValue.canonical, SValue.Same]
  | .object properties, w, depth, hv, hw, hfits, hfits' => by
    cases w with
    | object properties' =>
      obtain ⟨hnodup, hdistinct⟩ := hv
      obtain ⟨hnodup', hdistinct'⟩ := hw
      simp only [SValue.canonical, SValue.Fits] at hfits hfits'
      obtain ⟨_, _, hkeys, hvalues⟩ := hfits
      obtain ⟨_, _, _, hvalues'⟩ := hfits'
      have hkeysNodup : ((canonicalProperties cborg properties).map Prod.fst).Nodup :=
        (keys_canonicalProperties cborg properties).symm ▸ hnodup
      have hsort := insertionSort_eq_iff hrfc hsafe (canonicalProperties cborg properties') hkeysNodup
        fun entry hentry => hkeys entry ((List.mem_insertionSort _).mpr hentry)
      have hsame := sameProperties_iff hrfc hsafe properties (depth + 1) hdistinct
        (fun entry hentry => propertiesFit_of_mem hvalues ((List.mem_insertionSort _).mpr hentry)) properties' hdistinct'
        fun entry hentry => propertiesFit_of_mem hvalues' ((List.mem_insertionSort _).mpr hentry)
      simp only [SValue.canonical, SValue.Same, SValue.object.injEq]
      rw [hsort, canonicalProperties_perm_iff hnodup hnodup', hsame]
    | _ => simp [SValue.canonical, SValue.Same]
theorem sameItems_iff (hrfc : cborg.Rfc8949) (hsafe : limits.Safe) :
    (items items' : List SValue) → (depth : Nat) → distinctItems items → distinctItems items' →
    itemsFit limits (canonicalItems cborg items) depth → itemsFit limits' (canonicalItems cborg items') depth →
    (canonicalItems cborg items = canonicalItems cborg items' ↔ sameItems items items')
  | [], [], _, _, _, _, _ => by simp [sameItems]
  | [], _ :: _, _, _, _, _, _ => by simp [canonicalItems, sameItems]
  | _ :: _, [], _, _, _, _, _ => by simp [canonicalItems, sameItems]
  | item :: items, item' :: items', depth, hv, hw, hfits, hfits' => by
    have hitem := item.canonical_eq_iff hrfc hsafe item' depth hv.1 hw.1 hfits.1 hfits'.1
    have hitems := sameItems_iff hrfc hsafe items items' depth hv.2 hw.2 hfits.2 hfits'.2
    simp only [canonicalItems, sameItems, List.cons.injEq, hitem, hitems]
theorem sameProperties_iff (hrfc : cborg.Rfc8949) (hsafe : limits.Safe) :
    (properties : List (String × SValue)) → (depth : Nat) → distinctProperties properties →
    (∀ entry ∈ canonicalProperties cborg properties, entry.2.Fits limits depth) → (properties' : List (String × SValue)) →
    distinctProperties properties' → (∀ entry ∈ canonicalProperties cborg properties', entry.2.Fits limits' depth) →
    (sameProperties properties properties' ↔
      ∀ key value, (key, value) ∈ properties → ∀ value', (key, value') ∈ properties' →
        value.canonical cborg = value'.canonical cborg)
  | [], _, _, _, _, _, _ => by simp [sameProperties]
  | (key, value) :: properties, depth, hv, hfits, properties', hw, hfits' => by
    have hrest := sameProperties_iff hrfc hsafe properties depth hv.2 (fun entry hentry => hfits entry (by simp [canonicalProperties, hentry]))
      properties' hw hfits'
    have hvalue : ∀ value', (key, value') ∈ properties' →
        (value.canonical cborg = value'.canonical cborg ↔ value.Same value') := fun value' hmem =>
      value.canonical_eq_iff hrfc hsafe value' depth hv.1 (distinctProperties_of_mem hw hmem)
        (hfits (key, value.canonical cborg) (by simp [canonicalProperties]))
        (hfits' (key, value'.canonical cborg) (mem_canonicalProperties.mpr ⟨value', hmem, rfl⟩))
    simp only [sameProperties, hrest]
    constructor
    · rintro ⟨hfirst, hothers⟩ k v hmem v' hmem'
      rcases List.mem_cons.mp hmem with heq | hmem
      · simp only [Prod.mk.injEq] at heq
        obtain ⟨rfl, rfl⟩ := heq
        exact (hvalue v' hmem').mpr (hfirst v' hmem')
      · exact hothers k v hmem v' hmem'
    · intro h
      refine ⟨fun value' hmem' => (hvalue value' hmem').mp (h key value (by simp) value' hmem'), ?_⟩
      exact fun k v hmem v' hmem' => h k v (by simp [hmem]) v' hmem'
end

end Canonical

/-! ## Values and items -/

theorem bytesToHex_hexToBytes (hash : BlobHash) : bytesToHex (hexToBytes hash.val) = hash.val := by
  have hchars : hash.val.toList.length = 2 * 32 := by
    rw [String.length_toList]
    exact hash.property.1
  rw [bytesToHex, hexToBytes, flatMap_byteHex_hexBytes 32 _ hchars hash.property.2, String.ofList_toList]

theorem hexToBytes_inj {hash hash' : BlobHash} (h : hexToBytes hash.val = hexToBytes hash'.val) : hash = hash' := by
  apply Subtype.ext
  rw [← bytesToHex_hexToBytes hash, h, bytesToHex_hexToBytes hash']

theorem numberItem_inj {value value' : JsNumber} (hfits : value.Fits) (hfits' : value'.Fits)
    (h : numberItem value = numberItem value') : value = value' := by
  cases value with
  | negativeZero => exact absurd hfits id
  | notFinite => exact absurd hfits id
  | integral n =>
    cases value' with
    | negativeZero => exact absurd hfits' id
    | notFinite => exact absurd hfits' id
    | integral m => simpa [numberItem] using h
    | fractional bits => simp [numberItem] at h
  | fractional bits =>
    cases value' with
    | negativeZero => exact absurd hfits' id
    | notFinite => exact absurd hfits' id
    | integral m => simp [numberItem] at h
    | fractional bits' =>
      simp only [numberItem, Item.float.injEq] at h
      rw [Subtype.ext h]

section Items

variable {limits limits' : SValueCodecLimits}

mutual
/-- Values that pass their checks and are written as one item are equal. -/
theorem SValue.item_inj : (v w : SValue) → (depth : Nat) → v.Fits limits depth → w.Fits limits' depth →
    v.item = w.item → v = w
  | .null, w, _, _, hw, h | .bool _, w, _, _, hw, h | .string _, w, _, _, hw, h => by
    cases w with
    | number n => cases n <;> simp [SValue.item, numberItem] at h
    | _ => simp_all [SValue.item]
  | .number n, w, _, hv, hw, h => by
    cases w with
    | number m =>
      simp only [SValue.item] at h
      rw [numberItem_inj hv.2 hw.2 h]
    | _ => cases n <;> simp [SValue.item, numberItem] at h
  | .sblob hash, w, _, _, hw, h => by
    cases w with
    | sblob hash' =>
      simp only [SValue.item, Item.tag.injEq, Item.bytes.injEq, true_and] at h
      rw [hexToBytes_inj h]
    | number n => cases n <;> simp [SValue.item, numberItem] at h
    | _ => simp [SValue.item] at h
  | .array items, w, depth, hv, hw, h => by
    cases w with
    | array items' =>
      simp only [SValue.item, Item.array.injEq] at h
      rw [itemsOf_inj items items' (depth + 1) hv.2.2 hw.2.2 h]
    | number n => cases n <;> simp [SValue.item, numberItem] at h
    | _ => simp [SValue.item] at h
  | .object properties, w, depth, hv, hw, h => by
    cases w with
    | object properties' =>
      simp only [SValue.item, Item.map.injEq] at h
      rw [entriesOf_inj properties properties' (depth + 1) hv.2.2.2 hw.2.2.2 h]
    | number n => cases n <;> simp [SValue.item, numberItem] at h
    | _ => simp [SValue.item] at h
theorem itemsOf_inj : (items items' : List SValue) → (depth : Nat) → itemsFit limits items depth →
    itemsFit limits' items' depth → itemsOf items = itemsOf items' → items = items'
  | [], [], _, _, _, _ => rfl
  | [], _ :: _, _, _, _, h => by simp [itemsOf] at h
  | _ :: _, [], _, _, _, h => by simp [itemsOf] at h
  | item :: items, item' :: items', depth, hv, hw, h => by
    simp only [itemsOf, List.cons.injEq] at h
    rw [item.item_inj item' depth hv.1 hw.1 h.1, itemsOf_inj items items' depth hv.2 hw.2 h.2]
theorem entriesOf_inj : (properties properties' : List (String × SValue)) → (depth : Nat) →
    propertiesFit limits properties depth → propertiesFit limits' properties' depth →
    entriesOf properties = entriesOf properties' → properties = properties'
  | [], [], _, _, _, _ => rfl
  | [], (_, _) :: _, _, _, _, h => by simp [entriesOf] at h
  | (_, _) :: _, [], _, _, _, h => by simp [entriesOf] at h
  | (key, value) :: properties, (key', value') :: properties', depth, hv, hw, h => by
    simp only [entriesOf, List.cons.injEq, Prod.mk.injEq] at h
    rw [h.1.1, value.item_inj value' depth hv.1 hw.1 h.1.2, entriesOf_inj properties properties' depth hv.2 hw.2 h.2]
end

end Items

/-! ## References in the bytes -/

/-- The hashes of the tagged byte strings among some tokens, in their order. -/
def taggedHashes : List Token → List Hash
  | .tag number :: .bytes value :: tokens =>
    if number = sBlobTag then bytesToHex value :: taggedHashes tokens else taggedHashes tokens
  | _ :: tokens => taggedHashes tokens
  | [] => []

/-- The SBlobs that occur in some bytes, in the order of their tagged byte strings. -/
def blobHashes (data : Bytes) : Option (List Hash) := (tokensOf data).map taggedHashes

theorem taggedHashes_cons {token : Token} (h : ∀ number, token ≠ .tag number) (tokens : List Token) :
    taggedHashes (token :: tokens) = taggedHashes tokens := by
  cases token with
  | tag number => exact absurd rfl (h number)
  | _ => simp only [taggedHashes]

mutual
theorem SValue.taggedHashes_tokens : (value : SValue) → (rest : List Token) →
    taggedHashes (value.item.tokens ++ rest) = value.refs ++ taggedHashes rest
  | .null, rest | .bool _, rest | .string _, rest => by
    simp only [SValue.item, Item.tokens, List.cons_append, List.nil_append, SValue.refs]
    rw [taggedHashes_cons (by simp)]
  | .number value, rest => by
    cases value
    all_goals
      simp only [SValue.item, numberItem, Item.tokens, List.cons_append, List.nil_append, SValue.refs]
      rw [taggedHashes_cons (by simp)]
  | .sblob hash, rest => by
    simp only [SValue.item, Item.tokens, List.cons_append, List.nil_append, SValue.refs, taggedHashes, if_true,
      bytesToHex_hexToBytes]
  | .array items, rest => by
    simp only [SValue.item, Item.tokens, List.cons_append, SValue.refs]
    rw [taggedHashes_cons (by simp), taggedHashes_items items rest]
  | .object properties, rest => by
    simp only [SValue.item, Item.tokens, List.cons_append, SValue.refs]
    rw [taggedHashes_cons (by simp), taggedHashes_entries properties rest]
theorem taggedHashes_items : (items : List SValue) → (rest : List Token) →
    taggedHashes (tokensOfItems (itemsOf items) ++ rest) = refsOfItems items ++ taggedHashes rest
  | [], rest => rfl
  | item :: items, rest => by
    simp only [itemsOf, tokensOfItems, refsOfItems, List.append_assoc]
    rw [item.taggedHashes_tokens, taggedHashes_items items rest]
theorem taggedHashes_entries : (properties : List (String × SValue)) → (rest : List Token) →
    taggedHashes (tokensOfEntries (entriesOf properties) ++ rest) = refsOfProperties properties ++ taggedHashes rest
  | [], rest => rfl
  | (key, value) :: properties, rest => by
    simp only [entriesOf, tokensOfEntries, refsOfProperties, List.cons_append, List.append_assoc]
    rw [taggedHashes_cons (by simp), value.taggedHashes_tokens, taggedHashes_entries properties rest]
end

end UniDocs.SValueCodec
