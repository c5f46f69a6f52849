import UniDocs.Lemmas.SValueSame
import UniDocs.Session.PgDeltaLog

/-!
# What JSON keeps of a value

A value with distinct keys and finite numbers comes back from JSONB as the same value exactly when there is no SBlob in it: an
SBlob comes back as an object with a `hash`.
-/

namespace UniDocs.SValueCodec

mutual
/-- No SBlob occurs in the value. -/
def SValue.Plain : SValue → Prop
  | .sblob _ => False
  | .array items => plainItems items
  | .object properties => plainProperties properties
  | _ => True
def plainItems : List SValue → Prop
  | [] => True
  | item :: items => item.Plain ∧ plainItems items
def plainProperties : List (String × SValue) → Prop
  | [] => True
  | (_, value) :: properties => value.Plain ∧ plainProperties properties
end

mutual
/-- Every number in the value is finite. -/
def SValue.Finite : SValue → Prop
  | .number value => value ≠ .notFinite
  | .array items => finiteItems items
  | .object properties => finiteProperties properties
  | _ => True
def finiteItems : List SValue → Prop
  | [] => True
  | item :: items => item.Finite ∧ finiteItems items
def finiteProperties : List (String × SValue) → Prop
  | [] => True
  | (_, value) :: properties => value.Finite ∧ finiteProperties properties
end

theorem plainProperties_forall {properties : List (String × SValue)} :
    plainProperties properties ↔ ∀ key value, (key, value) ∈ properties → value.Plain := by
  induction properties with
  | nil => simp [plainProperties]
  | cons first properties ih =>
    obtain ⟨key, value⟩ := first
    simp only [plainProperties, ih, List.mem_cons, Prod.mk.injEq]
    constructor
    · rintro ⟨hfirst, hrest⟩ k v (⟨rfl, rfl⟩ | hmem)
      · exact hfirst
      · exact hrest k v hmem
    · exact fun h => ⟨h key value (.inl ⟨rfl, rfl⟩), fun k v hmem => h k v (.inr hmem)⟩

section Fits

variable {cborg : Cborg} {limits : SValueCodecLimits}

mutual
theorem SValue.finite_of_fits : (value : SValue) → (depth : Nat) → (value.canonical cborg).Fits limits depth → value.Finite
  | .null, _, _ | .bool _, _, _ | .string _, _, _ | .sblob _, _, _ => by simp only [SValue.Finite]
  | .number value, _, h => by
    simp only [SValue.canonical, SValue.Fits] at h
    simp only [SValue.Finite]
    rintro rfl
    exact h.2
  | .array items, depth, h => by
    simp only [SValue.canonical, SValue.Fits] at h
    exact finiteItems_of_fit items (depth + 1) h.2.2
  | .object properties, depth, h => by
    simp only [SValue.canonical, SValue.Fits] at h
    exact finiteProperties_of_fit properties (depth + 1) fun entry hentry =>
      propertiesFit_of_mem h.2.2.2 ((List.mem_insertionSort _).mpr hentry)
theorem finiteItems_of_fit : (items : List SValue) → (depth : Nat) → itemsFit limits (canonicalItems cborg items) depth →
    finiteItems items
  | [], _, _ => trivial
  | item :: items, depth, h => ⟨item.finite_of_fits depth h.1, finiteItems_of_fit items depth h.2⟩
theorem finiteProperties_of_fit : (properties : List (String × SValue)) → (depth : Nat) →
    (∀ entry ∈ canonicalProperties cborg properties, entry.2.Fits limits depth) → finiteProperties properties
  | [], _, _ => trivial
  | (key, value) :: properties, depth, h =>
    ⟨value.finite_of_fits depth (h (key, value.canonical cborg) (by simp [canonicalProperties])),
      finiteProperties_of_fit properties depth fun entry hentry => h entry (by simp [canonicalProperties, hentry])⟩
end

end Fits

end UniDocs.SValueCodec

namespace UniDocs.Session

open Lib UniDocs.SValueCodec

/-! ## Fields -/

theorem stringifyProperties_eq_map (properties : List (String × SValue)) :
    stringifyProperties properties = properties.map fun p => (p.1, jsonStringify p.2) := by
  induction properties with
  | nil => rfl
  | cons first properties ih =>
    obtain ⟨key, value⟩ := first
    rw [stringifyProperties, ih, List.map_cons]

theorem parseFields_eq_map (fields : List (String × JsonValue)) :
    parseFields fields = fields.map fun f => (f.1, jsonParse f.2) := by
  induction fields with
  | nil => rfl
  | cons first fields ih =>
    obtain ⟨key, value⟩ := first
    rw [parseFields, ih, List.map_cons]

theorem jsonbFields_some {fields stored : List (String × JsonValue)} (h : jsonbFields fields = some stored) :
    stored.map Prod.fst = fields.map Prod.fst ∧
      ∀ key value, (key, value) ∈ stored → ∃ v, (key, v) ∈ fields ∧ jsonb v = some value := by
  induction fields generalizing stored with
  | nil =>
    cases h
    exact ⟨rfl, fun _ _ hmem => by cases hmem⟩
  | cons first fields ih =>
    obtain ⟨key, v⟩ := first
    rw [jsonbFields] at h
    split at h
    · cases h
    · split at h
      · rename_i value rest hvalue hrest
        cases h
        obtain ⟨hkeys, hmem⟩ := ih hrest
        refine ⟨by simp [hkeys], fun k w hw => ?_⟩
        rcases List.mem_cons.mp hw with heq | hw
        · simp only [Prod.mk.injEq] at heq
          obtain ⟨rfl, rfl⟩ := heq
          exact ⟨v, by simp, hvalue⟩
        · obtain ⟨v', hin, hv'⟩ := hmem k w hw
          exact ⟨v', by simp [hin], hv'⟩
      · cases h

/-- An object with distinct keys comes back with its keys, and under each of them the value as stored and parsed. -/
theorem parse_jsonb_object {properties : List (String × SValue)} (hnodup : (properties.map Prod.fst).Nodup) {j : JsonValue}
    (h : jsonb (jsonStringify (.object properties)) = some j) :
    ∃ properties', jsonParse j = .object properties' ∧ (properties'.map Prod.fst).Perm (properties.map Prod.fst) ∧
      ∀ key value', (key, value') ∈ properties' →
        ∃ value j', (key, value) ∈ properties ∧ jsonb (jsonStringify value) = some j' ∧ value' = jsonParse j' := by
  rw [jsonStringify, jsonb, Option.map_eq_some_iff] at h
  obtain ⟨stored, hstored, rfl⟩ := h
  obtain ⟨hkeys, hvalues⟩ := jsonbFields_some hstored
  have hall : stored.map Prod.fst = properties.map Prod.fst := by
    rw [hkeys, stringifyProperties_eq_map, List.map_map]
    rfl
  have hlist : JsMap.ofList stored = stored := JsMap.ofList_eq (hall.symm ▸ hnodup)
  have hperm := List.perm_insertionSort jsonbKeyLe stored
  refine ⟨_, rfl, ?_, ?_⟩
  · rw [parseFields_eq_map, List.map_map, hlist]
    have hfst := hperm.map Prod.fst
    rw [hall] at hfst
    exact hfst
  · intro key value' hmem
    rw [parseFields_eq_map, hlist] at hmem
    obtain ⟨⟨k, j'⟩, hin, heq⟩ := List.mem_map.mp hmem
    simp only [Prod.mk.injEq] at heq
    obtain ⟨rfl, rfl⟩ := heq
    obtain ⟨v, hv, hj⟩ := hvalues k j' (hperm.mem_iff.mp hin)
    rw [stringifyProperties_eq_map] at hv
    obtain ⟨⟨k', value⟩, hvalue, heq⟩ := List.mem_map.mp hv
    simp only [Prod.mk.injEq] at heq
    obtain ⟨rfl, rfl⟩ := heq
    exact ⟨value, j', hvalue, hj, rfl⟩

/-! ## Values -/

theorem jsonNumber_same {value : JsNumber} (h : value ≠ .notFinite) :
    (SValue.number value).Same (jsonParse (jsonNumber value)) := by
  cases value with
  | notFinite => exact absurd rfl h
  | _ => rfl

mutual
/-- A value comes back from JSONB as the same value exactly when no SBlob is in it. -/
theorem parse_jsonb_same_iff : (value : SValue) → value.DistinctKeys → value.Finite → (j : JsonValue) →
    jsonb (jsonStringify value) = some j → (value.Same (jsonParse j) ↔ value.Plain)
  | .null, _, _, j, h | .bool _, _, _, j, h => by
    cases h
    simp [jsonStringify, jsonParse, SValue.Same, SValue.Plain]
  | .number value, _, hfinite, j, h => by
    have hnumber := jsonNumber_same hfinite
    have hj : j = jsonNumber value := by
      rw [jsonStringify] at h
      cases value <;> exact (Option.some.inj h).symm
    rw [hj]
    simp [hnumber, SValue.Plain]
  | .string value, _, _, j, h => by
    rw [jsonStringify, jsonb] at h
    split at h
    · cases h
    · cases h
      simp [jsonParse, SValue.Same, SValue.Plain]
  | .sblob hash, _, _, j, h => by
    rw [jsonStringify, jsonb, Option.map_eq_some_iff] at h
    obtain ⟨stored, _, rfl⟩ := h
    simp [jsonParse, SValue.Same, SValue.Plain]
  | .array items, hkeys, hfinite, j, h => by
    rw [jsonStringify, jsonb, Option.map_eq_some_iff] at h
    obtain ⟨stored, hstored, rfl⟩ := h
    have hitems := parse_jsonbItems_same_iff items hkeys hfinite stored hstored
    simp only [jsonParse, SValue.Same, SValue.Plain, hitems]
  | .object properties, hkeys, hfinite, j, h => by
    obtain ⟨hnodup, hdistinct⟩ := hkeys
    obtain ⟨properties', hparse, hperm, hvalues⟩ := parse_jsonb_object hnodup h
    have heach := parse_jsonbProperties_same_iff properties hdistinct hfinite
    -- What stands under a key was stored for the one value under this key.
    have hback : ∀ key value value', (key, value) ∈ properties → (key, value') ∈ properties' →
        (value.Same value' ↔ value.Plain) := by
      intro key value value' hmem hmem'
      obtain ⟨w, j', hw, hj', rfl⟩ := hvalues key value' hmem'
      have hone := value_unique hnodup hmem hw
      subst hone
      exact heach key value hmem j' hj'
    rw [hparse]
    simp only [SValue.Same, SValue.Plain, sameProperties_forall, plainProperties_forall]
    constructor
    · rintro ⟨_, hsame⟩ key value hmem
      have hin : key ∈ properties'.map Prod.fst := hperm.mem_iff.mpr (List.mem_map.mpr ⟨_, hmem, rfl⟩)
      obtain ⟨⟨_, value'⟩, hmem', rfl⟩ := List.mem_map.mp hin
      exact (hback _ _ _ hmem hmem').mp (hsame _ _ hmem _ hmem')
    · intro hplain
      refine ⟨fun key => hperm.symm.mem_iff, fun key value hmem value' hmem' => ?_⟩
      exact (hback key value value' hmem hmem').mpr (hplain key value hmem)
theorem parse_jsonbItems_same_iff : (items : List SValue) → distinctItems items → finiteItems items →
    (stored : List JsonValue) → jsonbItems (stringifyItems items) = some stored →
    (sameItems items (parseItems stored) ↔ plainItems items)
  | [], _, _, stored, h => by
    cases h
    simp [parseItems, sameItems, plainItems]
  | item :: items, hkeys, hfinite, stored, h => by
    rw [stringifyItems, jsonbItems] at h
    split at h
    · rename_i j rest hj hrest
      cases h
      have hitem := parse_jsonb_same_iff item hkeys.1 hfinite.1 j hj
      have hitems := parse_jsonbItems_same_iff items hkeys.2 hfinite.2 rest hrest
      simp only [parseItems, sameItems, plainItems, hitem, hitems]
    · cases h
theorem parse_jsonbProperties_same_iff : (properties : List (String × SValue)) → distinctProperties properties →
    finiteProperties properties → ∀ key value, (key, value) ∈ properties → ∀ j, jsonb (jsonStringify value) = some j →
    (value.Same (jsonParse j) ↔ value.Plain)
  | [], _, _, _, _, hmem, _, _ => by cases hmem
  | (k, v) :: properties, hkeys, hfinite, key, value, hmem, j, h => by
    rcases List.mem_cons.mp hmem with heq | hmem
    · have hvalue : value = v := (Prod.mk.inj heq).2
      rw [hvalue] at h ⊢
      exact parse_jsonb_same_iff v hkeys.1 hfinite.1 j h
    · exact parse_jsonbProperties_same_iff properties hkeys.2 hfinite.2 key value hmem j h
end

end UniDocs.Session
