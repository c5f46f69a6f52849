import UniDocs.Lib.Cbor

/-!
# A reference decoder

Reads tokens back from their encodings and assembles items from tokens. It shows that what `pull` asks of a decoder can be
met, and it is what the statements about a decoder are run with.
-/

namespace Lib.Cbor

/-! ## Heads -/

/-- The number of argument bytes that follow an initial byte with this additional information. -/
def argumentWidth (additional : Nat) : Nat :=
  if additional = 24 then 1 else if additional = 25 then 2 else if additional = 26 then 4 else if additional = 27 then 8
  else 0

/-- A head is one initial byte, with the major type in its upper bits, and the argument bytes its lower bits announce. -/
theorem head_spec {major argument : Nat} (hmajor : major < 8) (harg : argument < 2 ^ 64) :
    ∃ initial tail, head major argument = initial :: tail ∧ initial.toNat / 32 = major ∧
      (initial.toNat % 32 = argument ∧ argument < 24 ∧ tail = [] ∨
        24 ≤ initial.toNat % 32 ∧ initial.toNat % 32 < 28 ∧ tail.length = argumentWidth (initial.toNat % 32)
          ∧ natBE tail = argument) := by
  have hinitial : ∀ additional < 32, (UInt8.ofNat (32 * major + additional)).toNat = 32 * major + additional := by
    intro additional hadd
    have hmod : (UInt8.ofNat (32 * major + additional)).toNat = (32 * major + additional) % 256 := by simp
    omega
  rw [head]
  split_ifs with h1 h2 h3 h4
  · refine ⟨_, [], rfl, ?_, Or.inl ⟨?_, h1, rfl⟩⟩
    · rw [hinitial _ (by omega)]; omega
    · rw [hinitial _ (by omega)]; omega
  all_goals
    refine ⟨_, _, rfl, ?_, Or.inr ?_⟩
    · rw [hinitial _ (by omega)]; omega
    · rw [hinitial _ (by omega)]
      refine ⟨by omega, by omega, ?_, natBE_bytesBE_of_lt (by omega)⟩
      rw [length_bytesBE]
      have hrem : ∀ k < 32, (32 * major + k) % 32 = k := by intro k hk; omega
      rw [hrem _ (by omega)]
      rfl

/-- Reads a head: the major type, the argument and what follows. -/
def readHead : List UInt8 → Option (Nat × Nat × List UInt8)
  | [] => none
  | initial :: rest =>
    let additional := initial.toNat % 32
    let width := argumentWidth additional
    if additional < 24 then some (initial.toNat / 32, additional, rest)
    else if 28 ≤ additional ∨ rest.length < width then none
    else some (initial.toNat / 32, natBE (rest.take width), rest.drop width)

theorem readHead_head {major argument : Nat} (hmajor : major < 8) (harg : argument < 2 ^ 64) (rest : List UInt8) :
    readHead (head major argument ++ rest) = some (major, argument, rest) := by
  obtain ⟨initial, tail, hhead, hdiv, hcases⟩ := head_spec hmajor harg
  rw [hhead, List.cons_append, readHead]
  rcases hcases with ⟨hmod, hlt, rfl⟩ | ⟨hge, hlt, hlen, hval⟩
  · simp only [hmod, hlt, if_true, hdiv, List.nil_append]
  · have hbound : ¬ (28 ≤ initial.toNat % 32 ∨ (tail ++ rest).length < argumentWidth (initial.toNat % 32)) := by
      rw [List.length_append, hlen]
      omega
    have hsmall : ¬ initial.toNat % 32 < 24 := by omega
    simp only [if_neg hsmall, if_neg hbound]
    rw [← hlen, List.take_left, List.drop_left, hval, hdiv]

/-! ## Tokens -/

/-- Reads a token with one of the major types before the simple values. -/
def readHeadToken (data : List UInt8) : Option (Token × List UInt8) :=
  match readHead data with
  | some (0, argument, rest) => some (.int argument, rest)
  | some (1, argument, rest) => some (.int (-1 - argument), rest)
  | some (2, argument, rest) =>
    if rest.length < argument then none else some (.bytes (rest.take argument), rest.drop argument)
  | some (3, argument, rest) =>
    if rest.length < argument then none
    else (String.fromUTF8? (rest.take argument).toByteArray).map fun text => (.text text, rest.drop argument)
  | some (4, argument, rest) => some (.array argument, rest)
  | some (5, argument, rest) => some (.map argument, rest)
  | some (6, argument, rest) => some (.tag argument, rest)
  | _ => none

/-- Reads the token at the start of some bytes. -/
def readToken : List UInt8 → Option (Token × List UInt8)
  | [] => none
  | initial :: rest =>
    if initial = 0xf4 then some (.bool false, rest)
    else if initial = 0xf5 then some (.bool true, rest)
    else if initial = 0xf6 then some (.null, rest)
    else if initial = 0xf9 then
      if rest.length < 2 then none else some (.float (widen 5 10 (natBE (rest.take 2))), rest.drop 2)
    else if initial = 0xfa then
      if rest.length < 4 then none else some (.float (widen 8 23 (natBE (rest.take 4))), rest.drop 4)
    else if initial = 0xfb then
      if rest.length < 8 then none else some (.float (natBE (rest.take 8)), rest.drop 8)
    else readHeadToken (initial :: rest)

theorem fromUTF8_utf8 (text : String) : String.fromUTF8? (utf8 text).toByteArray = some text := by
  have hbytes : (utf8 text).toByteArray = text.toByteArray := String.utf8Encode_toList
  rw [hbytes, String.fromUTF8?, dif_pos text.isValidUTF8]
  rfl

theorem utf8_injective {text text' : String} (h : utf8 text = utf8 text') : text = text' := by
  have hread := fromUTF8_utf8 text
  rw [h, fromUTF8_utf8, Option.some.injEq] at hread
  exact hread.symm

theorem readToken_head {major argument : Nat} (hmajor : major < 7) (harg : argument < 2 ^ 64) (rest : List UInt8) :
    readToken (head major argument ++ rest) = readHeadToken (head major argument ++ rest) := by
  obtain ⟨initial, tail, hhead, hdiv, _⟩ := head_spec (by omega : major < 8) harg
  have hne : ∀ b : UInt8, 7 ≤ b.toNat / 32 → initial ≠ b := by
    rintro b hb rfl
    omega
  rw [hhead, List.cons_append, readToken, if_neg (hne 0xf4 (by decide)), if_neg (hne 0xf5 (by decide)),
    if_neg (hne 0xf6 (by decide)), if_neg (hne 0xf9 (by decide)), if_neg (hne 0xfa (by decide)),
    if_neg (hne 0xfb (by decide))]

theorem narrow_some {eb mb bits x : Nat} (h : narrow eb mb bits = some x) :
    x < 2 ^ (1 + eb + mb) ∧ widen eb mb x = bits := by
  simp only [narrow] at h
  split at h
  all_goals
    split_ifs at h with hcond
    cases h
    exact hcond

theorem readToken_float {bits : Nat} (h : bits < 2 ^ 64) (rest : List UInt8) :
    readToken (floatBytes bits ++ rest) = some (.float bits, rest) := by
  have htake : ∀ k n : Nat, n < 256 ^ k → natBE ((bytesBE k n ++ rest).take k) = n := by
    intro k n hn
    rw [List.take_left' (length_bytesBE k n), natBE_bytesBE_of_lt hn]
  have hdrop : ∀ k n : Nat, (bytesBE k n ++ rest).drop k = rest := fun k n => List.drop_left' (length_bytesBE k n)
  have hlen : ∀ k n : Nat, ¬ (bytesBE k n ++ rest).length < k := by
    intro k n
    rw [List.length_append, length_bytesBE]
    omega
  rw [floatBytes]
  split
  · rename_i half hhalf
    obtain ⟨hlt, hwiden⟩ := narrow_some hhalf
    have hread : readToken (0xf9 :: (bytesBE 2 half ++ rest)) = if (bytesBE 2 half ++ rest).length < 2 then none
        else some (.float (widen 5 10 (natBE ((bytesBE 2 half ++ rest).take 2))), (bytesBE 2 half ++ rest).drop 2) := rfl
    rw [List.cons_append, hread, if_neg (hlen 2 half), htake 2 half (by omega), hdrop, hwiden]
  · split
    · rename_i single hsingle
      obtain ⟨hlt, hwiden⟩ := narrow_some hsingle
      have hread : readToken (0xfa :: (bytesBE 4 single ++ rest)) = if (bytesBE 4 single ++ rest).length < 4 then none
          else some (.float (widen 8 23 (natBE ((bytesBE 4 single ++ rest).take 4))), (bytesBE 4 single ++ rest).drop 4) :=
        rfl
      rw [List.cons_append, hread, if_neg (hlen 4 single), htake 4 single (by omega), hdrop, hwiden]
    · have hread : readToken (0xfb :: (bytesBE 8 bits ++ rest)) = if (bytesBE 8 bits ++ rest).length < 8 then none
          else some (.float (natBE ((bytesBE 8 bits ++ rest).take 8)), (bytesBE 8 bits ++ rest).drop 8) := rfl
      rw [List.cons_append, hread, if_neg (hlen 8 bits), htake 8 bits (by omega), hdrop]

/-- A token is read back from its encoding, whatever follows. -/
theorem readToken_encode {token : Token} (h : token.Valid) (rest : List UInt8) :
    readToken (token.encode ++ rest) = some (token, rest) := by
  cases token with
  | int value =>
    obtain ⟨hlo, hhi⟩ := h
    simp only [Token.encode]
    split_ifs with hsign
    · have hlt : value.toNat < 2 ^ 64 := by omega
      rw [readToken_head (by omega) hlt, readHeadToken, readHead_head (by omega) hlt]
      simp only [Option.some.injEq, Prod.mk.injEq, Token.int.injEq, and_true]
      omega
    · have hlt : (-1 - value).toNat < 2 ^ 64 := by omega
      rw [readToken_head (by omega) hlt, readHeadToken, readHead_head (by omega) hlt]
      simp only [Option.some.injEq, Prod.mk.injEq, Token.int.injEq, and_true]
      omega
  | bytes value =>
    have hlt : value.length < 2 ^ 64 := by simp only [Token.Valid] at h; omega
    simp only [Token.encode, List.append_assoc]
    rw [readToken_head (by omega) hlt, readHeadToken, readHead_head (by omega) hlt]
    simp only [List.length_append, List.take_left, List.drop_left]
    rw [if_neg (by omega)]
  | text value =>
    have hlt : (utf8 value).length < 2 ^ 64 := by simp only [Token.Valid] at h; omega
    simp only [Token.encode, List.append_assoc]
    rw [readToken_head (by omega) hlt, readHeadToken, readHead_head (by omega) hlt]
    simp only [List.length_append, List.take_left, List.drop_left, fromUTF8_utf8, Option.map_some]
    rw [if_neg (by omega)]
  | array length =>
    have hlt : length < 2 ^ 64 := by simp only [Token.Valid] at h; omega
    simp only [Token.encode]
    rw [readToken_head (by omega) hlt, readHeadToken, readHead_head (by omega) hlt]
    rfl
  | map length =>
    have hlt : length < 2 ^ 64 := by simp only [Token.Valid] at h; omega
    simp only [Token.encode]
    rw [readToken_head (by omega) hlt, readHeadToken, readHead_head (by omega) hlt]
    rfl
  | tag number =>
    have hlt : number < 2 ^ 64 := by simp only [Token.Valid] at h; omega
    simp only [Token.encode]
    rw [readToken_head (by omega) hlt, readHeadToken, readHead_head (by omega) hlt]
    rfl
  | bool value =>
    cases value
    · rfl
    · rfl
  | null => rfl
  | float bits => exact readToken_float h.1 rest

/-! ## Items -/

section Assemble

variable {σ ε τ : Type} (next : σ → Except ε (Token × σ)) (onTag : Nat → Option (Decoded τ → σ → Except ε (Decoded τ × σ)))
  (stuck : ε)

/-- Runs a reader a number of times. -/
def times {α : Type} (read : σ → Except ε (α × σ)) : Nat → σ → Except ε (List α × σ)
  | 0, s => .ok ([], s)
  | n + 1, s => do
    let (a, s) ← read s
    let (as, s) ← times read n s
    return (a :: as, s)

/-- Reads a key and a value. -/
def pair {α : Type} (read : σ → Except ε (α × σ)) (s : σ) : Except ε ((α × α) × σ) := do
  let (key, s) ← read s
  let (value, s) ← read s
  return ((key, value), s)

/-- Assembles one item from the tokens that the tokenizer gives; `stuck` is the error for a tag without decoder and for
items nested deeper than the fuel. -/
def assemble : Nat → σ → Except ε (Decoded τ × σ)
  | 0, _ => .error stuck
  | fuel + 1, s => do
    let (token, s) ← next s
    match token with
    | .int value => return (.int value, s)
    | .bytes value => return (.bytes value, s)
    | .text value => return (.text value, s)
    | .bool value => return (.bool value, s)
    | .null => return (.null, s)
    | .float bits => return (.float bits, s)
    | .array length => do
      let (items, s) ← times (assemble fuel) length s
      return (.array items, s)
    | .map length => do
      let (entries, s) ← times (pair (assemble fuel)) length s
      return (.map entries, s)
    | .tag number =>
      match onTag number with
      | none => .error stuck
      | some decodeTag => do
        let (content, s) ← assemble fuel s
        decodeTag content s

mutual
/-- The nesting of an item. -/
def Item.depth : Item → Nat
  | .array items => 1 + depthOfItems items
  | .map entries => 1 + depthOfEntries entries
  | .tag _ content => 1 + content.depth
  | _ => 1
def depthOfItems : List Item → Nat
  | [] => 0
  | item :: items => max item.depth (depthOfItems items)
def depthOfEntries : List (String × Item) → Nat
  | [] => 0
  | (_, item) :: entries => max 1 (max item.depth (depthOfEntries entries))
end

mutual
theorem Item.depth_le : (item : Item) → item.depth ≤ item.tokens.length
  | .int _ | .bytes _ | .text _ | .bool _ | .null | .float _ => by simp [Item.depth, Item.tokens]
  | .array items => by
    have h := depthOfItems_le items
    simp only [Item.depth, Item.tokens, List.length_cons]
    omega
  | .map entries => by
    have h := depthOfEntries_le entries
    simp only [Item.depth, Item.tokens, List.length_cons]
    omega
  | .tag _ content => by
    have h := content.depth_le
    simp only [Item.depth, Item.tokens, List.length_cons]
    omega
theorem depthOfItems_le : (items : List Item) → depthOfItems items ≤ (tokensOfItems items).length
  | [] => by simp [depthOfItems]
  | item :: items => by
    have h := item.depth_le
    have hs := depthOfItems_le items
    simp only [depthOfItems, tokensOfItems, List.length_append]
    omega
theorem depthOfEntries_le : (entries : List (String × Item)) → depthOfEntries entries ≤ (tokensOfEntries entries).length
  | [] => by simp [depthOfEntries]
  | (_, item) :: entries => by
    have h := item.depth_le
    have hs := depthOfEntries_le entries
    simp only [depthOfEntries, tokensOfEntries, List.length_append, List.length_cons]
    omega
end

variable {next onTag}

theorem expect_some {α : Type} {token : Token} {k : σ → Option (Except ε (α × σ))} {s : σ} {r : Except ε (α × σ)}
    (h : expect next token k s = some r) :
    (∃ e, next s = .error e ∧ r = .error e) ∨ ∃ s', next s = .ok (token, s') ∧ k s' = some r := by
  rw [expect] at h
  split at h
  · rename_i e he
    cases h
    exact Or.inl ⟨e, he, rfl⟩
  · rename_i token' s' hok
    split_ifs at h with heq
    subst heq
    exact Or.inr ⟨s', hok, h⟩

theorem andThen_some {α β : Type} {part : Option (Except ε (α × σ))} {k : α → σ → Option (Except ε (β × σ))}
    {r : Except ε (β × σ)} (h : andThen part k = some r) :
    (∃ e, part = some (.error e) ∧ r = .error e) ∨ ∃ a s, part = some (.ok (a, s)) ∧ k a s = some r := by
  match part, h with
  | some (.error e), h =>
    cases h
    exact Or.inl ⟨e, rfl, rfl⟩
  | some (.ok (a, s)), h => exact Or.inr ⟨a, s, rfl, h⟩

mutual
/-- The reference decoder returns what `pull` says. -/
theorem assemble_pull : (item : Item) → (fuel : Nat) → (s : σ) → (r : Except ε (Decoded τ × σ)) → item.depth ≤ fuel →
    pull next onTag item s = some r → assemble next onTag stuck fuel s = r
  | item, 0, s, r, hfuel, h => by cases item <;> simp [Item.depth] at hfuel
  | .int value, fuel + 1, s, r, hfuel, h | .bytes value, fuel + 1, s, r, hfuel, h | .text value, fuel + 1, s, r, hfuel, h
  | .bool value, fuel + 1, s, r, hfuel, h | .null, fuel + 1, s, r, hfuel, h | .float bits, fuel + 1, s, r, hfuel, h => by
    rw [pull] at h
    rcases expect_some h with ⟨e, he, rfl⟩ | ⟨s', hok, hk⟩
    · simp only [assemble, he, bind, Except.bind]
    · cases hk
      simp only [assemble, hok, bind, Except.bind, pure, Except.pure]
  | .array items, fuel + 1, s, r, hfuel, h => by
    rw [pull] at h
    have hdepth : depthOfItems items ≤ fuel := by simp only [Item.depth] at hfuel; omega
    rcases expect_some h with ⟨e, he, rfl⟩ | ⟨s', hok, hk⟩
    · simp only [assemble, he, bind, Except.bind]
    · rcases andThen_some hk with ⟨e, he, rfl⟩ | ⟨vs, s'', hvs, hret⟩
      · have hitems := times_pullItems items fuel s' _ hdepth he
        simp only [assemble, hok, hitems, bind, Except.bind]
      · have hitems := times_pullItems items fuel s' _ hdepth hvs
        cases hret
        simp only [assemble, hok, hitems, bind, Except.bind, pure, Except.pure]
  | .map entries, fuel + 1, s, r, hfuel, h => by
    rw [pull] at h
    have hdepth : depthOfEntries entries ≤ fuel := by simp only [Item.depth] at hfuel; omega
    rcases expect_some h with ⟨e, he, rfl⟩ | ⟨s', hok, hk⟩
    · simp only [assemble, he, bind, Except.bind]
    · rcases andThen_some hk with ⟨e, he, rfl⟩ | ⟨vs, s'', hvs, hret⟩
      · have hentries := times_pullEntries entries fuel s' _ hdepth he
        simp only [assemble, hok, hentries, bind, Except.bind]
      · have hentries := times_pullEntries entries fuel s' _ hdepth hvs
        cases hret
        simp only [assemble, hok, hentries, bind, Except.bind, pure, Except.pure]
  | .tag number content, fuel + 1, s, r, hfuel, h => by
    rw [pull] at h
    have hdepth : content.depth ≤ fuel := by simp only [Item.depth] at hfuel; omega
    cases htag : onTag number with
    | none => simp only [htag, reduceCtorEq] at h
    | some decodeTag =>
      simp only [htag] at h
      rcases expect_some h with ⟨e, he, rfl⟩ | ⟨s', hok, hk⟩
      · simp only [assemble, he, bind, Except.bind]
      · rcases andThen_some hk with ⟨e, he, rfl⟩ | ⟨v, s'', hv, hret⟩
        · have hcontent := assemble_pull content fuel s' _ hdepth he
          simp only [assemble, hok, htag, hcontent, bind, Except.bind]
        · have hcontent := assemble_pull content fuel s' _ hdepth hv
          cases hret
          simp only [assemble, hok, htag, hcontent, bind, Except.bind]
theorem times_pullItems : (items : List Item) → (fuel : Nat) → (s : σ) → (r : Except ε (List (Decoded τ) × σ)) →
    depthOfItems items ≤ fuel → pullItems next onTag items s = some r →
    times (assemble next onTag stuck fuel) items.length s = r
  | [], fuel, s, r, _, h => by
    cases h
    rfl
  | item :: items, fuel, s, r, hfuel, h => by
    rw [pullItems] at h
    simp only [depthOfItems] at hfuel
    rw [List.length_cons, times]
    rcases andThen_some h with ⟨e, he, rfl⟩ | ⟨v, s', hv, hrest⟩
    · have hitem := assemble_pull item fuel s _ (by omega) he
      simp only [hitem, bind, Except.bind]
    · have hitem := assemble_pull item fuel s _ (by omega) hv
      rcases andThen_some hrest with ⟨e, he, rfl⟩ | ⟨vs, s'', hvs, hret⟩
      · have hitems := times_pullItems items fuel s' _ (by omega) he
        simp only [hitem, hitems, bind, Except.bind]
      · have hitems := times_pullItems items fuel s' _ (by omega) hvs
        cases hret
        simp only [hitem, hitems, bind, Except.bind, pure, Except.pure]
theorem times_pullEntries : (entries : List (String × Item)) → (fuel : Nat) → (s : σ) →
    (r : Except ε (List (Decoded τ × Decoded τ) × σ)) → depthOfEntries entries ≤ fuel →
    pullEntries next onTag entries s = some r →
    times (pair (assemble next onTag stuck fuel)) entries.length s = r
  | [], fuel, s, r, _, h => by
    cases h
    rfl
  | (key, item) :: entries, 0, s, r, hfuel, h => by
    simp only [depthOfEntries] at hfuel
    omega
  | (key, item) :: entries, fuel + 1, s, r, hfuel, h => by
    rw [pullEntries] at h
    simp only [depthOfEntries] at hfuel
    rw [List.length_cons, times]
    rcases expect_some h with ⟨e, he, rfl⟩ | ⟨s₁, hok, hk⟩
    · have hkey : assemble next onTag stuck (fuel + 1) s = .error e := by simp only [assemble, he, bind, Except.bind]
      simp only [pair, hkey, bind, Except.bind]
    · have hkey : assemble next onTag stuck (fuel + 1) s = .ok (.text key, s₁) := by
        simp only [assemble, hok, bind, Except.bind, pure, Except.pure]
      rcases andThen_some hk with ⟨e, he, rfl⟩ | ⟨v, s₂, hv, hrest⟩
      · have hitem := assemble_pull item (fuel + 1) s₁ _ (by omega) he
        simp only [pair, hkey, hitem, bind, Except.bind]
      · have hitem := assemble_pull item (fuel + 1) s₁ _ (by omega) hv
        rcases andThen_some hrest with ⟨e, he, rfl⟩ | ⟨vs, s₃, hvs, hret⟩
        · have hentries := times_pullEntries entries (fuel + 1) s₂ _ (by omega) he
          simp only [pair, hkey, hitem, hentries, bind, Except.bind, pure, Except.pure]
        · have hentries := times_pullEntries entries (fuel + 1) s₂ _ (by omega) hvs
          cases hret
          simp only [pair, hkey, hitem, hentries, bind, Except.bind, pure, Except.pure]
end

end Assemble

/-! ## Items from bytes -/

/-- Runs a reader of bytes a number of times. -/
def readMany {α : Type} (read : List UInt8 → Option (α × List UInt8)) : Nat → List UInt8 → Option (List α × List UInt8)
  | 0, data => some ([], data)
  | n + 1, data => do
    let (a, data) ← read data
    let (as, data) ← readMany read n data
    return (a :: as, data)

/-- Reads a text and a value. -/
def readEntry (read : List UInt8 → Option (Item × List UInt8)) (data : List UInt8) :
    Option ((String × Item) × List UInt8) := do
  let (.text key, data) ← readToken data | none
  let (item, data) ← read data
  return ((key, item), data)

/-- Reads one item; the fuel bounds its nesting. -/
def readItem : Nat → List UInt8 → Option (Item × List UInt8)
  | 0, _ => none
  | fuel + 1, data => do
    let (token, data) ← readToken data
    match token with
    | .int value => return (.int value, data)
    | .bytes value => return (.bytes value, data)
    | .text value => return (.text value, data)
    | .bool value => return (.bool value, data)
    | .null => return (.null, data)
    | .float bits => return (.float bits, data)
    | .array length => do
      let (items, data) ← readMany (readItem fuel) length data
      return (.array items, data)
    | .map length => do
      let (entries, data) ← readMany (readEntry (readItem fuel)) length data
      return (.map entries, data)
    | .tag number => do
      let (content, data) ← readItem fuel data
      return (.tag number content, data)

mutual
theorem readItem_encode : (item : Item) → (fuel : Nat) → (rest : List UInt8) → item.depth ≤ fuel →
    (∀ token ∈ item.tokens, token.Valid) → readItem fuel (encodeTokens item.tokens ++ rest) = some (item, rest)
  | item, 0, rest, hfuel, _ => by cases item <;> simp [Item.depth] at hfuel
  | .int value, fuel + 1, rest, _, hvalid | .bytes value, fuel + 1, rest, _, hvalid | .text value, fuel + 1, rest, _, hvalid
  | .bool value, fuel + 1, rest, _, hvalid | .null, fuel + 1, rest, _, hvalid | .float bits, fuel + 1, rest, _, hvalid => by
    simp only [Item.tokens, List.mem_singleton, forall_eq] at hvalid
    have htoken := readToken_encode hvalid rest
    simp [readItem, Item.tokens, encodeTokens, htoken]
  | .array items, fuel + 1, rest, hfuel, hvalid => by
    simp only [Item.depth] at hfuel
    have htoken := readToken_encode (hvalid (.array items.length) (by simp [Item.tokens]))
      (encodeTokens (tokensOfItems items) ++ rest)
    have hitems := readMany_items items fuel rest (by omega) fun token ht => hvalid token (by simp [Item.tokens, ht])
    have hcons : encodeTokens (Item.array items).tokens
        = (Token.array items.length).encode ++ encodeTokens (tokensOfItems items) := rfl
    rw [hcons, List.append_assoc]
    simp [readItem, htoken, hitems]
  | .map entries, fuel + 1, rest, hfuel, hvalid => by
    simp only [Item.depth] at hfuel
    have htoken := readToken_encode (hvalid (.map entries.length) (by simp [Item.tokens]))
      (encodeTokens (tokensOfEntries entries) ++ rest)
    have hentries := readMany_entries entries fuel rest (by omega) fun token ht => hvalid token (by simp [Item.tokens, ht])
    have hcons : encodeTokens (Item.map entries).tokens
        = (Token.map entries.length).encode ++ encodeTokens (tokensOfEntries entries) := rfl
    rw [hcons, List.append_assoc]
    simp [readItem, htoken, hentries]
  | .tag number content, fuel + 1, rest, hfuel, hvalid => by
    simp only [Item.depth] at hfuel
    have htoken := readToken_encode (hvalid (.tag number) (by simp [Item.tokens])) (encodeTokens content.tokens ++ rest)
    have hcontent := readItem_encode content fuel rest (by omega) fun token ht => hvalid token (by simp [Item.tokens, ht])
    have hcons : encodeTokens (Item.tag number content).tokens = (Token.tag number).encode ++ encodeTokens content.tokens := rfl
    rw [hcons, List.append_assoc]
    simp [readItem, htoken, hcontent]
theorem readMany_items : (items : List Item) → (fuel : Nat) → (rest : List UInt8) → depthOfItems items ≤ fuel →
    (∀ token ∈ tokensOfItems items, token.Valid) →
    readMany (readItem fuel) items.length (encodeTokens (tokensOfItems items) ++ rest) = some (items, rest)
  | [], fuel, rest, _, _ => by simp [readMany, tokensOfItems, encodeTokens]
  | item :: items, fuel, rest, hfuel, hvalid => by
    simp only [depthOfItems] at hfuel
    have hitem := readItem_encode item fuel (encodeTokens (tokensOfItems items) ++ rest) (by omega) fun token ht =>
      hvalid token (by simp [tokensOfItems, ht])
    have hitems := readMany_items items fuel rest (by omega) fun token ht => hvalid token (by simp [tokensOfItems, ht])
    have hcons : encodeTokens (tokensOfItems (item :: items)) = encodeTokens item.tokens ++ encodeTokens (tokensOfItems items) := by
      simp [tokensOfItems, encodeTokens]
    rw [hcons, List.append_assoc]
    simp [readMany, hitem, hitems]
theorem readMany_entries : (entries : List (String × Item)) → (fuel : Nat) → (rest : List UInt8) →
    depthOfEntries entries ≤ fuel → (∀ token ∈ tokensOfEntries entries, token.Valid) →
    readMany (readEntry (readItem fuel)) entries.length (encodeTokens (tokensOfEntries entries) ++ rest)
      = some (entries, rest)
  | [], fuel, rest, _, _ => by simp [readMany, tokensOfEntries, encodeTokens]
  | (key, item) :: entries, fuel, rest, hfuel, hvalid => by
    simp only [depthOfEntries] at hfuel
    have hkey := readToken_encode (hvalid (.text key) (by simp [tokensOfEntries]))
      (encodeTokens item.tokens ++ (encodeTokens (tokensOfEntries entries) ++ rest))
    have hitem := readItem_encode item fuel (encodeTokens (tokensOfEntries entries) ++ rest) (by omega) fun token ht =>
      hvalid token (by simp [tokensOfEntries, ht])
    have hentries := readMany_entries entries fuel rest (by omega) fun token ht =>
      hvalid token (by simp [tokensOfEntries, ht])
    have hcons : encodeTokens (tokensOfEntries ((key, item) :: entries))
        = (Token.text key).encode ++ encodeTokens item.tokens ++ encodeTokens (tokensOfEntries entries) := by
      simp [tokensOfEntries, encodeTokens]
    rw [hcons, List.append_assoc, List.append_assoc]
    simp [readMany, readEntry, hkey, hitem, hentries]
end

end Lib.Cbor
