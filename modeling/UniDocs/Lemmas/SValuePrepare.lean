import UniDocs.SValueCodec.SValue
import UniDocs.Lib.Result

/-!
# What preparing a value amounts to

The encoder walks a value with two counters and one depth. Here a value is described without a walk: its canonical form,
the item it is written as, its refs in canonical order, the number of its nodes and the checks that each node passes. A
preparation succeeds exactly when the checks hold and both counters stay within their limits.
-/

namespace UniDocs.SValueCodec

open Lib Lib.Cbor UniDocs.Cas UniDocs.Codec

/-! ## The shape of a value -/

/-- The number that the encoder writes for a number. -/
def JsNumber.canonical : JsNumber → JsNumber
  | .negativeZero => .integral 0
  | value => value

mutual
/-- The value with every object in the order of its encoded keys and the negative zero read as zero. -/
def SValue.canonical (cborg : Cborg) : SValue → SValue
  | .null => .null
  | .bool value => .bool value
  | .number value => .number value.canonical
  | .string value => .string value
  | .sblob hash => .sblob hash
  | .array items => .array (canonicalItems cborg items)
  | .object properties =>
    .object ((canonicalProperties cborg properties).insertionSort fun property property' => keyLe cborg property.1 property'.1)
def canonicalItems (cborg : Cborg) : List SValue → List SValue
  | [] => []
  | item :: items => item.canonical cborg :: canonicalItems cborg items
def canonicalProperties (cborg : Cborg) : List (String × SValue) → List (String × SValue)
  | [] => []
  | (key, value) :: properties => (key, value.canonical cborg) :: canonicalProperties cborg properties
end

mutual
/-- The CBOR item of a value, its properties in the order listed. -/
def SValue.item : SValue → Item
  | .null => .null
  | .bool value => .bool value
  | .number value => numberItem value
  | .string value => .text value
  | .sblob hash => .tag sBlobTag (.bytes (hexToBytes hash.val))
  | .array items => .array (itemsOf items)
  | .object properties => .map (entriesOf properties)
def itemsOf : List SValue → List Item
  | [] => []
  | item :: items => item.item :: itemsOf items
def entriesOf : List (String × SValue) → List (String × Item)
  | [] => []
  | (key, value) :: properties => (key, value.item) :: entriesOf properties
end

mutual
/-- The hashes of the SBlobs in a value, in the order listed. -/
def SValue.refs : SValue → List Hash
  | .sblob hash => [hash.val]
  | .array items => refsOfItems items
  | .object properties => refsOfProperties properties
  | _ => []
def refsOfItems : List SValue → List Hash
  | [] => []
  | item :: items => item.refs ++ refsOfItems items
def refsOfProperties : List (String × SValue) → List Hash
  | [] => []
  | (_, value) :: properties => value.refs ++ refsOfProperties properties
end

mutual
/-- The number of nodes of a value; keys do not count. -/
def SValue.count : SValue → Nat
  | .array items => 1 + countOfItems items
  | .object properties => 1 + countOfProperties properties
  | _ => 1
def countOfItems : List SValue → Nat
  | [] => 0
  | item :: items => item.count + countOfItems items
def countOfProperties : List (String × SValue) → Nat
  | [] => 0
  | (_, value) :: properties => value.count + countOfProperties properties
end

section Fits

variable (limits : SValueCodecLimits)

/-- A number that is written as it is. -/
def JsNumber.Fits : JsNumber → Prop
  | .notFinite | .negativeZero => False
  | .integral value => value.natAbs ≤ maxSafeInteger
  | .fractional _ => True

mutual
/-- Every node of a value at this depth passes its own checks. -/
def SValue.Fits : SValue → Nat → Prop
  | .null, depth | .bool _, depth | .sblob _, depth => depth ≤ limits.maxDepth
  | .number value, depth => depth ≤ limits.maxDepth ∧ value.Fits
  | .string value, depth => depth ≤ limits.maxDepth ∧ (utf8 value).length ≤ limits.maxStringBytes
  | .array items, depth => depth ≤ limits.maxDepth ∧ items.length ≤ limits.maxArrayLength ∧ itemsFit items (depth + 1)
  | .object properties, depth =>
    depth ≤ limits.maxDepth ∧ properties.length ≤ limits.maxMapEntries
      ∧ (∀ property ∈ properties, (utf8 property.1).length ≤ limits.maxStringBytes) ∧ propertiesFit properties (depth + 1)
def itemsFit : List SValue → Nat → Prop
  | [], _ => True
  | item :: items, depth => item.Fits depth ∧ itemsFit items depth
def propertiesFit : List (String × SValue) → Nat → Prop
  | [], _ => True
  | (_, value) :: properties, depth => value.Fits depth ∧ propertiesFit properties depth
end

end Fits

theorem canonicalProperties_eq_map (cborg : Cborg) (properties : List (String × SValue)) :
    canonicalProperties cborg properties = properties.map fun property => (property.1, property.2.canonical cborg) := by
  induction properties with
  | nil => rfl
  | cons property properties ih =>
    obtain ⟨key, value⟩ := property
    rw [canonicalProperties, ih, List.map_cons]

theorem length_canonicalItems (cborg : Cborg) (items : List SValue) : (canonicalItems cborg items).length = items.length := by
  induction items with
  | nil => rfl
  | cons item items ih => rw [canonicalItems, List.length_cons, ih, List.length_cons]

theorem prepareEach_eq_map (cborg : Cborg) (limits : SValueCodecLimits) (properties : List (String × SValue)) :
    prepareEach cborg limits properties =
      properties.map fun property => (property.1, prepareValue cborg limits property.2) := by
  induction properties with
  | nil => rfl
  | cons property properties ih =>
    obtain ⟨key, value⟩ := property
    rw [prepareEach, ih, List.map_cons]

theorem insertionSort_map_values {α β : Type} (cborg : Cborg) (f : α → β) (entries : List (String × α)) :
    (entries.map fun entry => (entry.1, f entry.2)).insertionSort (fun entry entry' => keyLe cborg entry.1 entry'.1) =
      (entries.insertionSort fun entry entry' => keyLe cborg entry.1 entry'.1).map fun entry => (entry.1, f entry.2) := by
  symm
  apply List.map_insertionSort
  intro a _ b _
  exact Iff.rfl

/-! ## Counters -/

/-- A counter that starts at `start` and takes `count` steps stays within its limit at every step. -/
def Within (limit start count : Nat) : Prop := count = 0 ∨ start + count ≤ limit

theorem within_add {limit start m n : Nat} :
    Within limit start (m + n) ↔ Within limit start m ∧ Within limit (start + m) n := by
  simp only [Within]
  omega

@[simp] theorem within_zero (limit start : Nat) : Within limit start 0 := Or.inl rfl

theorem within_one {limit start : Nat} : Within limit start 1 ↔ start + 1 ≤ limit := by
  simp only [Within]
  omega

/-- The counters after a part with these refs and this many nodes. -/
def PrepareState.add (state : PrepareState) (refs : List Hash) (count : Nat) : PrepareState :=
  ⟨state.refs ++ refs, state.values + count⟩

theorem PrepareState.add_add (state : PrepareState) (refs refs' : List Hash) (count count' : Nat) :
    (state.add refs count).add refs' count' = state.add (refs ++ refs') (count + count') := by
  simp only [add, List.append_assoc, Nat.add_assoc]

@[simp] theorem PrepareState.add_nil (state : PrepareState) : state.add [] 0 = state := by
  simp [add]

/-- A preparation succeeds exactly when the checks hold and the counters stay within their limits, and then with this
result. -/
def Prepares {α : Type} (limits : SValueCodecLimits) (run : Prepare α) (fits : Nat → Prop) (result : α) (refs : List Hash)
    (count : Nat) : Prop :=
  ∀ path depth state r, run path depth state = .ok r ↔
    fits depth ∧ Within limits.maxValues state.values count ∧ Within limits.maxRefs state.refs.length refs.length
      ∧ r = (result, state.add refs count)

/-! ## Steps -/

variable {limits : SValueCodecLimits} {path : List PathStep}

theorem enterValue_ok_iff {depth : Nat} {state state' : PrepareState} :
    enterValue limits path depth state = .ok state' ↔
      depth ≤ limits.maxDepth ∧ Within limits.maxValues state.values 1 ∧ state' = state.add [] 1 := by
  rw [enterValue, within_one]
  have hadd : state.add [] 1 = { state with values := state.values + 1 } := by simp [PrepareState.add]
  split_ifs with h1 h2
  · constructor
    · intro h
      cases h
    · rintro ⟨hdepth, _⟩
      omega
  · constructor
    · intro h
      cases h
    · rintro ⟨_, hvalues, _⟩
      omega
  · rw [hadd, Except.ok.injEq, eq_comm]
    have h1' : depth ≤ limits.maxDepth := by omega
    have h2' : state.values + 1 ≤ limits.maxValues := by omega
    simp [h1', h2']

theorem validateString_ok_iff {value : String} {u : Unit} :
    validateString limits value path = .ok u ↔ (utf8 value).length ≤ limits.maxStringBytes := by
  rw [validateString]
  split_ifs with h
  · simp [fail, h]
  · simp only [true_iff]
    omega

theorem prepareNumber_ok_iff {value value' : JsNumber} :
    prepareNumber value path = .ok value' ↔ value.canonical.Fits ∧ value' = value.canonical := by
  cases value with
  | notFinite => simp [prepareNumber, fail, JsNumber.canonical, JsNumber.Fits]
  | negativeZero =>
    have hzero : (JsNumber.integral 0).Fits := Nat.zero_le _
    simp [prepareNumber, JsNumber.canonical, hzero, eq_comm]
  | fractional bits =>
    have hfits : (JsNumber.fractional bits).Fits := trivial
    simp [prepareNumber, JsNumber.canonical, hfits, eq_comm]
  | integral n =>
    rw [prepareNumber]
    split_ifs with h
    · simp [JsNumber.canonical, JsNumber.Fits, h, eq_comm]
    · simp [JsNumber.canonical, JsNumber.Fits, h, fail]

theorem pushRef_ok_iff {hash : Hash} {state state' : PrepareState} :
    pushRef limits hash path state = .ok state' ↔
      Within limits.maxRefs state.refs.length 1 ∧ state' = state.add [hash] 0 := by
  rw [pushRef, within_one]
  have hadd : state.add [hash] 0 = { state with refs := state.refs ++ [hash] } := by simp [PrepareState.add]
  split_ifs with h
  · constructor
    · intro hok
      cases hok
    · rintro ⟨hrefs, _⟩
      omega
  · rw [hadd, Except.ok.injEq, eq_comm]
    have h' : state.refs.length + 1 ≤ limits.maxRefs := by omega
    simp [h']

/-- The key checks of `sortedKeys`. -/
theorem forM_validateString_ok_iff {α : Type} {properties : List (String × α)}
    {u : Unit} :
    (properties.forM fun property => validateString limits property.1 path) = .ok u ↔
      ∀ property ∈ properties, (utf8 property.1).length ≤ limits.maxStringBytes := by
  induction properties with
  | nil => exact ⟨fun _ => by simp, fun _ => rfl⟩
  | cons property properties ih =>
    have hcons : ((property :: properties).forM fun property => validateString limits property.1 path) =
        validateString limits property.1 path >>= fun _ =>
          properties.forM fun property => validateString limits property.1 path := rfl
    rw [hcons, bind_ok_iff]
    simp only [validateString_ok_iff, ih, List.mem_cons, forall_eq_or_imp, exists_const]

theorem sortedKeys_ok_iff {α : Type} {cborg : Cborg} {properties sorted : List (String × α)}
    :
    sortedKeys cborg limits properties path = .ok sorted ↔
      properties.length ≤ limits.maxMapEntries ∧ (∀ property ∈ properties, (utf8 property.1).length ≤ limits.maxStringBytes)
        ∧ sorted = properties.insertionSort fun property property' => keyLe cborg property.1 property'.1 := by
  simp only [sortedKeys]
  split_ifs with h
  · simp [fail, bind, Except.bind, h]
  · have h' : properties.length ≤ limits.maxMapEntries := by omega
    have hpure : ∀ x : List (String × α), (pure x : Except Failure _) = .ok sorted ↔ sorted = x := by
      intro x
      simp [pure, Except.pure, eq_comm]
    simp only [bind_ok_iff, forM_validateString_ok_iff, hpure, h', true_and, exists_and_left, exists_const]

/-! ## Preparing -/

section Prepare

variable {cborg : Cborg} {limits : SValueCodecLimits}

theorem prepareProperties_spec (properties : List (String × SValue))
    (h : ∀ property ∈ properties, Prepares limits (prepareValue cborg limits property.2)
      ((property.2.canonical cborg).Fits limits) (property.2.canonical cborg).item (property.2.canonical cborg).refs
      (property.2.canonical cborg).count) :
    Prepares limits (prepareProperties (properties.map fun property => (property.1, prepareValue cborg limits property.2)))
      (fun depth => propertiesFit limits (properties.map fun property => (property.1, property.2.canonical cborg)) (depth + 1))
      (entriesOf (properties.map fun property => (property.1, property.2.canonical cborg)))
      (refsOfProperties (properties.map fun property => (property.1, property.2.canonical cborg)))
      (countOfProperties (properties.map fun property => (property.1, property.2.canonical cborg))) := by
  induction properties with
  | nil =>
    intro path depth state r
    simp [prepareProperties, propertiesFit, entriesOf, refsOfProperties, countOfProperties, eq_comm]
  | cons property properties ih =>
    intro path depth state r
    have hfirst := h property (by simp)
    have hrest := ih fun x hx => h x (by simp [hx])
    simp only [List.map_cons, prepareProperties, propertiesFit, entriesOf, refsOfProperties, countOfProperties, bind_ok_iff,
      pure_ok_iff, List.length_append, within_add]
    constructor
    · rintro ⟨⟨item, s₁⟩, hone, ⟨entries, s₂⟩, hmany, rfl⟩
      obtain ⟨hf, hv, hr, heq⟩ := (hfirst _ _ _ _).mp hone
      cases heq
      obtain ⟨hf', hv', hr', heq'⟩ := (hrest _ _ _ _).mp hmany
      cases heq'
      refine ⟨⟨hf, hf'⟩, ⟨hv, hv'⟩, ⟨hr, ?_⟩, ?_⟩
      · simpa [PrepareState.add] using hr'
      · simp only [PrepareState.add_add]
    · rintro ⟨⟨hf, hf'⟩, ⟨hv, hv'⟩, ⟨hr, hr'⟩, rfl⟩
      refine ⟨_, (hfirst _ _ _ _).mpr ⟨hf, hv, hr, rfl⟩, _, (hrest _ _ _ _).mpr ⟨hf', hv', ?_, rfl⟩, ?_⟩
      · simpa [PrepareState.add] using hr'
      · simp only [PrepareState.add_add]

mutual
/-- A value is prepared exactly when its canonical form passes every check, and as that form is written. -/
theorem prepareValue_spec : (value : SValue) → Prepares limits (prepareValue cborg limits value)
    ((value.canonical cborg).Fits limits) (value.canonical cborg).item (value.canonical cborg).refs
    (value.canonical cborg).count
  | .null | .bool _ => by
    intro path depth state r
    simp only [prepareValue, SValue.canonical, SValue.Fits, SValue.item, SValue.refs, SValue.count, bind_ok_iff,
      enterValue_ok_iff, pure_ok_iff, List.length_nil, within_zero, true_and]
    constructor
    · rintro ⟨s, ⟨hd, hv, rfl⟩, rfl⟩
      exact ⟨hd, hv, rfl⟩
    · rintro ⟨hd, hv, rfl⟩
      exact ⟨_, ⟨hd, hv, rfl⟩, rfl⟩
  | .number value => by
    intro path depth state r
    simp only [prepareValue, SValue.canonical, SValue.Fits, SValue.item, SValue.refs, SValue.count, bind_ok_iff,
      enterValue_ok_iff, prepareNumber_ok_iff, pure_ok_iff, List.length_nil, within_zero, true_and]
    constructor
    · rintro ⟨s, ⟨hd, hv, rfl⟩, n, ⟨hn, rfl⟩, rfl⟩
      exact ⟨⟨hd, hn⟩, hv, rfl⟩
    · rintro ⟨⟨hd, hn⟩, hv, rfl⟩
      exact ⟨_, ⟨hd, hv, rfl⟩, _, ⟨hn, rfl⟩, rfl⟩
  | .string value => by
    intro path depth state r
    simp only [prepareValue, SValue.canonical, SValue.Fits, SValue.item, SValue.refs, SValue.count, bind_ok_iff,
      enterValue_ok_iff, validateString_ok_iff, pure_ok_iff, List.length_nil, within_zero, true_and]
    constructor
    · rintro ⟨s, ⟨hd, hv, rfl⟩, _, hs, rfl⟩
      exact ⟨⟨hd, hs⟩, hv, rfl⟩
    · rintro ⟨⟨hd, hs⟩, hv, rfl⟩
      exact ⟨_, ⟨hd, hv, rfl⟩, (), hs, rfl⟩
  | .sblob hash => by
    intro path depth state r
    simp only [prepareValue, SValue.canonical, SValue.Fits, SValue.item, SValue.refs, SValue.count, bind_ok_iff,
      enterValue_ok_iff, pushRef_ok_iff, pure_ok_iff, List.length_singleton]
    constructor
    · rintro ⟨s, ⟨hd, hv, rfl⟩, s', ⟨hr, rfl⟩, rfl⟩
      refine ⟨hd, hv, by simpa [PrepareState.add] using hr, ?_⟩
      simp [PrepareState.add]
    · rintro ⟨hd, hv, hr, rfl⟩
      refine ⟨_, ⟨hd, hv, rfl⟩, _, ⟨by simpa [PrepareState.add] using hr, rfl⟩, ?_⟩
      simp [PrepareState.add]
  | .array items => by
    intro path depth state r
    have hitems := prepareItems_spec items 0
    have hlen : (canonicalItems cborg items).length = items.length := length_canonicalItems cborg items
    simp only [prepareValue, SValue.canonical, SValue.Fits, SValue.item, SValue.refs, SValue.count, bind_ok_iff,
      enterValue_ok_iff, hlen, within_add]
    by_cases hmax : items.length ≤ limits.maxArrayLength
    case neg =>
      have hlt : limits.maxArrayLength < items.length := by omega
      simp [fail, bind, Except.bind, hmax, hlt]
    have hlt : ¬ limits.maxArrayLength < items.length := by omega
    simp only [if_neg hlt, bind_ok_iff, pure_ok_iff]
    constructor
    · rintro ⟨s, ⟨hd, hv, rfl⟩, ⟨out, s'⟩, hrun, rfl⟩
      obtain ⟨hf, hv', hr, heq⟩ := (hitems _ _ _ _).mp hrun
      cases heq
      refine ⟨⟨hd, hmax, hf⟩, ⟨hv, hv'⟩, by simpa [PrepareState.add] using hr, ?_⟩
      simp only [PrepareState.add_add, List.nil_append]
    · rintro ⟨⟨hd, _, hf⟩, ⟨hv, hv'⟩, hr, rfl⟩
      refine ⟨_, ⟨hd, hv, rfl⟩, _, (hitems _ _ _ _).mpr ⟨hf, hv', by simpa [PrepareState.add] using hr, rfl⟩, ?_⟩
      simp only [PrepareState.add_add, List.nil_append]
  | .object properties => by
    intro path depth state r
    have heach := prepareEach_spec properties
    have hsorted : ∀ property ∈ properties.insertionSort fun p p' => keyLe cborg p.1 p'.1,
        Prepares limits (prepareValue cborg limits property.2) ((property.2.canonical cborg).Fits limits)
          (property.2.canonical cborg).item (property.2.canonical cborg).refs (property.2.canonical cborg).count := by
      intro property hmem
      exact heach property ((List.mem_insertionSort _).mp hmem)
    have hrun := prepareProperties_spec _ hsorted
    have hcanon : (canonicalProperties cborg properties).insertionSort (fun p p' => keyLe cborg p.1 p'.1) =
        (properties.insertionSort fun p p' => keyLe cborg p.1 p'.1).map fun p => (p.1, p.2.canonical cborg) := by
      rw [canonicalProperties_eq_map]
      exact insertionSort_map_values cborg (SValue.canonical cborg) properties
    have htasks : (prepareEach cborg limits properties).insertionSort (fun p p' => keyLe cborg p.1 p'.1) =
        (properties.insertionSort fun p p' => keyLe cborg p.1 p'.1).map fun p => (p.1, prepareValue cborg limits p.2) := by
      rw [prepareEach_eq_map]
      exact insertionSort_map_values cborg (prepareValue cborg limits) properties
    have hlen : (prepareEach cborg limits properties).length = properties.length := by
      rw [prepareEach_eq_map, List.length_map]
    have hkeys : (∀ p ∈ prepareEach cborg limits properties, (utf8 p.1).length ≤ limits.maxStringBytes) ↔
        ∀ p ∈ (properties.insertionSort fun p p' => keyLe cborg p.1 p'.1).map fun p => (p.1, p.2.canonical cborg),
          (utf8 p.1).length ≤ limits.maxStringBytes := by
      simp only [prepareEach_eq_map, List.mem_map, List.mem_insertionSort, forall_exists_index, and_imp,
        forall_apply_eq_imp_iff₂]
    simp only [prepareValue, SValue.canonical, SValue.Fits, SValue.item, SValue.refs, SValue.count, bind_ok_iff,
      enterValue_ok_iff, sortedKeys_ok_iff, pure_ok_iff, hcanon, htasks, hlen, hkeys, List.length_map,
      List.length_insertionSort, within_add]
    constructor
    · rintro ⟨s, ⟨hd, hv, rfl⟩, sorted, ⟨hmax, hk, rfl⟩, ⟨out, s'⟩, hrun', rfl⟩
      obtain ⟨hf, hv', hr, heq⟩ := (hrun _ _ _ _).mp hrun'
      cases heq
      refine ⟨⟨hd, hmax, hk, hf⟩, ⟨hv, hv'⟩, by simpa [PrepareState.add] using hr, ?_⟩
      simp only [PrepareState.add_add, List.nil_append]
    · rintro ⟨⟨hd, hmax, hk, hf⟩, ⟨hv, hv'⟩, hr, rfl⟩
      refine ⟨_, ⟨hd, hv, rfl⟩, _, ⟨hmax, hk, rfl⟩, _,
        (hrun _ _ _ _).mpr ⟨hf, hv', by simpa [PrepareState.add] using hr, rfl⟩, ?_⟩
      simp only [PrepareState.add_add, List.nil_append]
theorem prepareItems_spec : (items : List SValue) → (index : Nat) →
    Prepares limits (prepareItems cborg limits items index)
      (fun depth => itemsFit limits (canonicalItems cborg items) (depth + 1)) (itemsOf (canonicalItems cborg items))
      (refsOfItems (canonicalItems cborg items)) (countOfItems (canonicalItems cborg items))
  | [], index => by
    intro path depth state r
    simp [prepareItems, canonicalItems, itemsFit, itemsOf, refsOfItems, countOfItems, eq_comm]
  | value :: values, index => by
    intro path depth state r
    have hfirst := prepareValue_spec value
    have hrest := prepareItems_spec values (index + 1)
    simp only [prepareItems, canonicalItems, itemsFit, itemsOf, refsOfItems, countOfItems, bind_ok_iff,
      pure_ok_iff, List.length_append, within_add]
    constructor
    · rintro ⟨⟨item, s₁⟩, hone, ⟨items, s₂⟩, hmany, rfl⟩
      obtain ⟨hf, hv, hr, heq⟩ := (hfirst _ _ _ _).mp hone
      cases heq
      obtain ⟨hf', hv', hr', heq'⟩ := (hrest _ _ _ _).mp hmany
      cases heq'
      refine ⟨⟨hf, hf'⟩, ⟨hv, hv'⟩, ⟨hr, ?_⟩, ?_⟩
      · simpa [PrepareState.add] using hr'
      · simp only [PrepareState.add_add]
    · rintro ⟨⟨hf, hf'⟩, ⟨hv, hv'⟩, ⟨hr, hr'⟩, rfl⟩
      refine ⟨_, (hfirst _ _ _ _).mpr ⟨hf, hv, hr, rfl⟩, _, (hrest _ _ _ _).mpr ⟨hf', hv', ?_, rfl⟩, ?_⟩
      · simpa [PrepareState.add] using hr'
      · simp only [PrepareState.add_add]
theorem prepareEach_spec : (properties : List (String × SValue)) → ∀ property ∈ properties,
    Prepares limits (prepareValue cborg limits property.2) ((property.2.canonical cborg).Fits limits)
      (property.2.canonical cborg).item (property.2.canonical cborg).refs (property.2.canonical cborg).count
  | [], property, h => by cases h
  | (key, value) :: properties, property, h => by
    rcases List.mem_cons.mp h with rfl | h
    · exact prepareValue_spec value
    · exact prepareEach_spec properties property h
end

end Prepare

end UniDocs.SValueCodec
