import Mathlib.Data.List.Pairwise
import Mathlib.Data.List.Sort
import UniDocs.Lib.CborReader

/-!
# The order of map entries

A writer of deterministic CBOR sorts the entries of every map, so that it does not matter in which order they come. Here the
sort is a function on items, and a canonical item is what it makes of any rearrangement of that item's maps. At the end the
tokens of some bytes are read one after the other, without assembling them.
-/

namespace Lib.Cbor

/-! ## The order of keys -/

theorem lexLt_asymm : ∀ l r : List UInt8, lexLt l r → ¬ lexLt r l
  | _, [], h, _ => by cases ‹List UInt8› <;> simp [lexLt] at h
  | [], _ :: _, _, h => by simp [lexLt] at h
  | a :: l, b :: r, h, h' => by
    simp only [lexLt] at h h'
    rcases h with h | ⟨rfl, h⟩
    · rcases h' with h' | ⟨rfl, _⟩
      · exact UInt8.lt_asymm h h'
      · exact UInt8.lt_irrefl _ h
    · rcases h' with h' | ⟨_, h'⟩
      · exact UInt8.lt_irrefl _ h'
      · exact lexLt_asymm l r h h'

theorem lexLt_trans : ∀ l m r : List UInt8, lexLt l m → lexLt m r → lexLt l r
  | _, _, [], _, h => by cases ‹List UInt8› <;> simp [lexLt] at h
  | [], _, _ :: _, _, _ => by simp [lexLt]
  | _ :: _, [], _ :: _, h, _ => by simp [lexLt] at h
  | a :: l, b :: m, c :: r, h, h' => by
    simp only [lexLt] at h h' ⊢
    rcases h with h | ⟨rfl, h⟩
    · rcases h' with h' | ⟨rfl, _⟩
      · exact Or.inl (UInt8.lt_trans h h')
      · exact Or.inl h
    · rcases h' with h' | ⟨rfl, h'⟩
      · exact Or.inl h'
      · exact Or.inr ⟨rfl, lexLt_trans l m r h h'⟩

theorem lexLt_trichotomy : ∀ l r : List UInt8, lexLt l r ∨ l = r ∨ lexLt r l
  | [], [] => Or.inr (Or.inl rfl)
  | [], _ :: _ => Or.inl (by simp [lexLt])
  | _ :: _, [] => Or.inr (Or.inr (by simp [lexLt]))
  | a :: l, b :: r => by
    simp only [lexLt, List.cons.injEq]
    rcases Nat.lt_trichotomy a.toNat b.toNat with h | h | h
    · exact Or.inl (Or.inl (UInt8.lt_iff_toNat_lt.mpr h))
    · have hab : a = b := UInt8.toNat.inj h
      subst hab
      rcases lexLt_trichotomy l r with h' | h' | h'
      · exact Or.inl (Or.inr ⟨rfl, h'⟩)
      · exact Or.inr (Or.inl ⟨rfl, h'⟩)
      · exact Or.inr (Or.inr (Or.inr ⟨rfl, h'⟩))
    · exact Or.inr (Or.inr (Or.inl (UInt8.lt_iff_toNat_lt.mpr h)))

/-- Whether one byte string comes before another. -/
def lexLtDecidable : (l r : List UInt8) → Decidable (lexLt l r)
  | _, [] => .isFalse (by cases ‹List UInt8› <;> simp [lexLt])
  | [], _ :: _ => .isTrue (by simp [lexLt])
  | a :: l, b :: r =>
    have := lexLtDecidable l r
    inferInstanceAs (Decidable (a < b ∨ a = b ∧ lexLt l r))

instance (l r : List UInt8) : Decidable (lexLt l r) := lexLtDecidable l r

section Entries

variable {α : Type}

/-- An entry may stand before another: the key of the other does not come first. -/
def inOrder (entry entry' : String × α) : Prop := ¬ keyLt entry'.1 entry.1

instance (entry entry' : String × α) : Decidable (inOrder entry entry') := inferInstanceAs (Decidable (¬ lexLt _ _))

instance : Std.Total (inOrder (α := α)) where
  total entry entry' := by
    by_cases h : keyLt entry'.1 entry.1
    · exact Or.inr (lexLt_asymm _ _ h)
    · exact Or.inl h

instance : IsTrans (String × α) inOrder where
  trans entry entry' entry'' h h' hback := by
    rcases lexLt_trichotomy (Token.encode (.text entry.1)) (Token.encode (.text entry'.1)) with hlt | heq | hlt
    · exact h' (lexLt_trans _ _ _ hback hlt)
    · rw [inOrder, keyLt, ← heq] at h'
      exact h' hback
    · exact h hlt

/-- Entries in the strict order have the keys of any two of them in one order or the other. -/
theorem keyLt_or_keyLt {entries : List (String × α)} (hsorted : entries.Pairwise fun e e' => keyLt e.1 e'.1)
    {entry entry' : String × α} (h : entry ∈ entries) (h' : entry' ∈ entries) (hne : entry ≠ entry') :
    keyLt entry.1 entry'.1 ∨ keyLt entry'.1 entry.1 := by
  have hor : entries.Pairwise fun e e' => keyLt e.1 e'.1 ∨ keyLt e'.1 e.1 := hsorted.imp Or.inl
  have : Std.Symm fun e e' : String × α => keyLt e.1 e'.1 ∨ keyLt e'.1 e.1 := ⟨fun _ _ h => h.symm⟩
  exact hor.forall h h' hne

theorem insertionSort_of_perm {entries entries' : List (String × α)}
    (hsorted : entries.Pairwise fun e e' => keyLt e.1 e'.1) (hperm : entries'.Perm entries) :
    entries'.insertionSort inOrder = entries := by
  have hall : (entries'.insertionSort inOrder).Perm entries := (List.perm_insertionSort inOrder entries').trans hperm
  have hweak : entries.Pairwise inOrder := hsorted.imp fun h => lexLt_asymm _ _ h
  refine List.Perm.eq_of_pairwise ?_ (List.pairwise_insertionSort inOrder entries') hweak hall
  intro entry entry' hmem hmem' h h'
  by_contra hne
  rcases keyLt_or_keyLt hsorted (hall.mem_iff.mp hmem) hmem' hne with hlt | hlt
  · exact h' hlt
  · exact h hlt

end Entries

/-! ## Sorting items -/

mutual
/-- The item with the entries of every map in the order of their keys. -/
def Item.sort : Item → Item
  | .array items => .array (sortItems items)
  | .map entries => .map ((sortEntries entries).insertionSort inOrder)
  | .tag number content => .tag number content.sort
  | item => item
def sortItems : List Item → List Item
  | [] => []
  | item :: items => item.sort :: sortItems items
def sortEntries : List (String × Item) → List (String × Item)
  | [] => []
  | (key, item) :: entries => (key, item.sort) :: sortEntries entries
end

mutual
/-- The item with the entries of every map as `enumerate` lists them. -/
def Item.reorder (enumerate : List (String × Item) → List (String × Item)) : Item → Item
  | .array items => .array (reorderItems enumerate items)
  | .map entries => .map (enumerate (reorderEntries enumerate entries))
  | .tag number content => .tag number (content.reorder enumerate)
  | item => item
def reorderItems (enumerate : List (String × Item) → List (String × Item)) : List Item → List Item
  | [] => []
  | item :: items => item.reorder enumerate :: reorderItems enumerate items
def reorderEntries (enumerate : List (String × Item) → List (String × Item)) : List (String × Item) → List (String × Item)
  | [] => []
  | (key, item) :: entries => (key, item.reorder enumerate) :: reorderEntries enumerate entries
end

theorem sortEntries_eq_map (entries : List (String × Item)) :
    sortEntries entries = entries.map fun entry => (entry.1, entry.2.sort) := by
  induction entries with
  | nil => rfl
  | cons entry entries ih =>
    obtain ⟨key, item⟩ := entry
    rw [sortEntries, ih, List.map_cons]

section Reorder

variable {enumerate : List (String × Item) → List (String × Item)}

mutual
/-- However the entries of its maps are listed, sorting gives a canonical item back. -/
theorem Item.sort_reorder (henum : ∀ entries, (enumerate entries).Perm entries) :
    (item : Item) → item.Canonical → (item.reorder enumerate).sort = item
  | .int _, _ | .bytes _, _ | .text _, _ | .bool _, _ | .null, _ | .float _, _ => by simp only [Item.reorder, Item.sort]
  | .array items, h => by
    have hitems := sortItems_reorderItems henum items h
    simp only [Item.reorder, Item.sort, hitems]
  | .tag number content, h => by
    have hcontent := content.sort_reorder henum h
    simp only [Item.reorder, Item.sort, hcontent]
  | .map entries, h => by
    obtain ⟨hsorted, hcanonical⟩ := h
    have hentries := sortEntries_reorderEntries henum entries hcanonical
    have hperm : (sortEntries (enumerate (reorderEntries enumerate entries))).Perm entries := by
      have hmap := (henum (reorderEntries enumerate entries)).map fun entry => (entry.1, entry.2.sort)
      rwa [← sortEntries_eq_map, ← sortEntries_eq_map, hentries] at hmap
    simp only [Item.reorder, Item.sort]
    rw [insertionSort_of_perm hsorted hperm]
theorem sortItems_reorderItems (henum : ∀ entries, (enumerate entries).Perm entries) :
    (items : List Item) → canonicalItems items → sortItems (reorderItems enumerate items) = items
  | [], _ => rfl
  | item :: items, h => by
    simp only [reorderItems, sortItems, item.sort_reorder henum h.1, sortItems_reorderItems henum items h.2]
theorem sortEntries_reorderEntries (henum : ∀ entries, (enumerate entries).Perm entries) :
    (entries : List (String × Item)) → canonicalEntries entries → sortEntries (reorderEntries enumerate entries) = entries
  | [], _ => rfl
  | (key, item) :: entries, h => by
    simp only [reorderEntries, sortEntries, item.sort_reorder henum h.1, sortEntries_reorderEntries henum entries h.2]
end

end Reorder

/-! ## Tokens from bytes -/

/-- Reads tokens up to the end of some bytes; the fuel bounds their number. -/
def readTokens : Nat → List UInt8 → Option (List Token)
  | _, [] => some []
  | 0, _ :: _ => none
  | fuel + 1, data => do
    let (token, data) ← readToken data
    let tokens ← readTokens fuel data
    return token :: tokens

/-- The tokens of some bytes. -/
def tokensOf (data : List UInt8) : Option (List Token) := readTokens data.length data

theorem readTokens_encode {tokens : List Token} : ∀ {fuel : Nat}, tokens.length ≤ fuel → (∀ token ∈ tokens, token.Valid) →
    readTokens fuel (encodeTokens tokens) = some tokens := by
  induction tokens with
  | nil =>
    intro fuel _ _
    cases fuel <;> rfl
  | cons token tokens ih =>
    intro fuel hfuel hvalid
    obtain ⟨fuel, rfl⟩ : ∃ n, fuel = n + 1 := ⟨fuel - 1, by simp only [List.length_cons] at hfuel; omega⟩
    have hread := readToken_encode (hvalid token (by simp)) (encodeTokens tokens)
    have hrest : readTokens fuel (encodeTokens tokens) = some tokens :=
      ih (by simpa using hfuel) fun t ht => hvalid t (by simp [ht])
    have hpos := length_encode_pos token
    rw [encodeTokens_cons]
    cases hdata : token.encode ++ encodeTokens tokens with
    | nil =>
      have hnil := (List.append_eq_nil_iff.mp hdata).1
      simp [hnil] at hpos
    | cons byte data =>
      rw [hdata] at hread
      simp [readTokens, hread, hrest]

/-- Valid tokens are read back from their encoding. -/
theorem tokensOf_encodeTokens {tokens : List Token} (h : ∀ token ∈ tokens, token.Valid) :
    tokensOf (encodeTokens tokens) = some tokens :=
  readTokens_encode (length_le_encodeTokens tokens) h

theorem item_eq_of_encode {item item' : Item} (hvalid : ∀ token ∈ item.tokens, token.Valid)
    (hvalid' : ∀ token ∈ item'.tokens, token.Valid) (h : encodeTokens item.tokens = encodeTokens item'.tokens) :
    item = item' := by
  have hread := readItem_encode item (item.depth + item'.depth) [] (by omega) hvalid
  have hread' := readItem_encode item' (item.depth + item'.depth) [] (by omega) hvalid'
  rw [h, hread'] at hread
  simpa using hread.symm

end Lib.Cbor
