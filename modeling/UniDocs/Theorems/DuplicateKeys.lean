import UniDocs.Cas.RootRefs
import Mathlib.Data.List.TakeWhile

/-!
# Duplicate hash keys

What the expression finds in the text of a request is read off the tree of the text: a key whose spelling is a hash, or ends
in an escaped quotation mark and a hash. Keys that spell a hash with escapes are not found, keys that only end in one are,
and the object a key belongs to makes no difference.
-/

namespace UniDocs.Cas

open Lib Lib.JsonText

/-! ## Literally spelled hashes -/

/-- The hash after an escaped quotation mark at the end of a key. -/
def hashAfterQuote : List Piece → List JsString
  | [] => []
  | .escape u _ :: rest => if u = 34 && isHashText (renderPieces rest) then [renderPieces rest] else hashAfterQuote rest
  | _ :: rest => hashAfterQuote rest

/-- The hash that a key spells literally, as a whole or behind an escaped quotation mark at its end. -/
def spelledHash (key : List Piece) : List JsString :=
  if isHashText (renderPieces key) then [renderPieces key] else hashAfterQuote key

mutual

/-- The literally spelled hashes of the keys of a text, in their order. -/
def spelledHashes : Tree → List JsString
  | .array _ elements => spelledInElements elements
  | .object _ members => spelledInMembers members
  | _ => []

def spelledInElements : Elements → List JsString
  | .nil => []
  | .cons _ value _ rest => spelledHashes value ++ spelledInElements rest

def spelledInMembers : Members → List JsString
  | .nil => []
  | .cons _ key _ _ value _ rest => spelledHash key ++ spelledHashes value ++ spelledInMembers rest

end

/-! ## Repeated hash keys -/

/-- The keys of an object that are hashes, as they are denoted and in their order. -/
def hashKeysOf (members : Members) : List JsString := (members.fields.map Prod.fst).filter isHashText

mutual

/-- No object of the text has a hash key twice. -/
def repeatsNone : Tree → Bool
  | .array _ elements => repeatsNoneInElements elements
  | .object _ members => (hashKeysOf members).Nodup && repeatsNoneInMembers members
  | _ => true

def repeatsNoneInElements : Elements → Bool
  | .nil => true
  | .cons _ value _ rest => repeatsNone value && repeatsNoneInElements rest

def repeatsNoneInMembers : Members → Bool
  | .nil => true
  | .cons _ _ _ _ value _ rest => repeatsNone value && repeatsNoneInMembers rest

end

/-- The last member of an object with a given key. -/
def lastMember (name : JsString) : Members → Option Tree
  | .nil => none
  | .cons _ key _ _ value _ rest => (lastMember name rest).or (if decode key = name then some value else none)

/-- The hash keys of the object that the `changes` member denotes, if it is an object. -/
def changesKeys (members : Members) : List JsString :=
  match lastMember (JsString.ofString "changes") members with
  | some (.object _ changes) => hashKeysOf changes
  | _ => []

/-- The body is accepted. -/
def Accepted (text : JsString) : Prop := ∃ body, parseRootRefsBody text = .ok body

/-- Duplicate detection is complete on a text: an accepted text has no hash key twice in its changes, and a text without a
repeated hash key is accepted. -/
def DetectsDuplicates (text : JsString) (gap : Gap) (members : Members) : Prop :=
  (Accepted text → (changesKeys members).Nodup) ∧ (repeatsNone (.object gap members) = true → Accepted text)

/-! ## The search in a text -/

theorem hashKeys_skip (n : Nat) (text : JsString) : hashKeys n text = hashKeys 0 (text.drop n) := by
  induction text generalizing n with
  | nil => cases n <;> rfl
  | cons u rest ih =>
    cases n with
    | zero => rfl
    | succ n => rw [hashKeys, ih, List.drop_succ_cons]

/-- Nothing is found where no quotation mark stands. -/
theorem hashKeys_noQuote {units rest : JsString} (h : ∀ u ∈ units, u ≠ 34) : hashKeys 0 (units ++ rest) = hashKeys 0 rest := by
  induction units with
  | nil => rfl
  | cons u units ih =>
    have hu : hashKeyAt (u :: (units ++ rest)) = none := by
      have hne : (u == 34) = false := by simpa using h u List.mem_cons_self
      simp [hashKeyAt, h u List.mem_cons_self]
    rw [List.cons_append, hashKeys, hu]
    exact ih fun v hv => h v (List.mem_cons_of_mem _ hv)

variable {u : UInt16}

theorem hashKeys_unit (rest : JsString) (h : u ≠ 34) : hashKeys 0 (u :: rest) = hashKeys 0 rest :=
  @hashKeys_noQuote [u] rest fun v hv => by rw [List.mem_singleton.mp hv]; exact h

theorem isHashUnit_ne (h : isHashUnit u = true) : u ≠ 34 ∧ u ≠ 92 := by
  constructor <;> (rintro rfl; revert h; decide)

theorem isGap_ne (h : isGap u = true) : u ≠ 34 ∧ u ≠ 58 ∧ isHashUnit u = false ∧ JsString.isSpace u = true := by
  simp only [isGap, Bool.or_eq_true, beq_iff_eq] at h
  rcases h with ((rfl | rfl) | rfl) | rfl <;> decide

theorem isNumberUnit_ne (h : isNumberUnit u = true) : u ≠ 34 := by
  rintro rfl
  revert h
  decide

theorem isHexDigit_ne (h : isHexDigit u = true) : u ≠ 34 := by
  rintro rfl
  revert h
  decide

theorem isPlain_ne (h : isPlain u = true) : u ≠ 34 := by
  rintro rfl
  revert h
  decide

theorem gap_noQuote (gap : Gap) : ∀ u ∈ gap.1, u ≠ 34 := fun u hu => (isGap_ne (List.all_eq_true.mp gap.2 u hu)).1

variable {pieces : List Piece}

/-- Inside a string a quotation mark comes after a backslash. -/
theorem before_quote : ∀ {before after : JsString}, renderPieces pieces = before ++ 34 :: after →
    ∃ before', before = before' ++ [92] := by
  induction pieces with
  | nil =>
    intro before after h
    simp [renderPieces] at h
  | cons p rest ih =>
    intro before after h
    have hcons : p.render ++ renderPieces rest = before ++ 34 :: after := by
      rw [← h, renderPieces, renderPieces, List.flatMap_cons]
    rcases List.append_eq_append_iff.mp hcons with ⟨middle, hb, hr⟩ | ⟨middle, hp, hr⟩
    · obtain ⟨before', rfl⟩ := ih hr
      exact ⟨p.render ++ before', by rw [hb, List.append_assoc]⟩
    · -- The mark is in the first piece, unless it starts the rest.
      cases middle with
      | nil =>
        obtain ⟨before', hbefore⟩ := @ih [] after (by simpa using hr.symm)
        simp at hbefore
      | cons v middle =>
        rw [List.cons_append, List.cons.injEq] at hr
        obtain ⟨rfl, -⟩ := hr
        cases p with
        | plain u hu =>
          rw [Piece.render] at hp
          have hmem : (34 : UInt16) ∈ [u] := by rw [hp]; simp
          exact absurd (List.mem_singleton.mp hmem).symm (isPlain_ne hu)
        | escape u hu =>
          rw [Piece.render] at hp
          cases before with
          | nil => simp at hp
          | cons w before =>
            rw [List.cons_append, List.cons.injEq] at hp
            obtain ⟨rfl, hp⟩ := hp
            cases before with
            | nil => exact ⟨[], rfl⟩
            | cons w' before => simp at hp
        | unicode a b c d hhex =>
          rw [Piece.render] at hp
          have hmem : (34 : UInt16) ∈ [92, 117, a, b, c, d] := by rw [hp]; simp
          simp only [List.all_cons, List.all_nil, Bool.and_true, Bool.and_eq_true] at hhex
          obtain ⟨ha, hb, hc, hd⟩ := hhex
          simp only [List.mem_cons, List.not_mem_nil, or_false] at hmem
          rcases hmem with h | h | h | h | h | h
          · exact absurd h (by decide)
          · exact absurd h (by decide)
          · exact absurd h.symm (isHexDigit_ne ha)
          · exact absurd h.symm (isHexDigit_ne hb)
          · exact absurd h.symm (isHexDigit_ne hc)
          · exact absurd h.symm (isHexDigit_ne hd)

/-- A colon follows, after white space. -/
def ColonFollows (rest : JsString) : Prop := (rest.dropWhile JsString.isSpace).head? = some 58

variable {rest : JsString}

theorem hashKeyAt_quote {found : JsString × Nat}
    (h : hashKeyAt (34 :: (renderPieces pieces ++ 34 :: rest)) = some found) :
    isHashText (renderPieces pieces) = true ∧ ColonFollows rest ∧
      found = (renderPieces pieces, 67 + (rest.takeWhile JsString.isSpace).length) := by
  simp only [hashKeyAt, decide_true, Bool.true_and] at h
  split at h
  · rename_i hhash
    simp only [isHashText, Bool.and_eq_true, beq_iff_eq, List.all_eq_true] at hhash
    obtain ⟨hlen, hunits⟩ := hhash
    have hfull : 64 ≤ (renderPieces pieces).length := by
      by_contra hlt
      -- The closing quotation mark would be among the 64 units.
      have hmem : (34 : UInt16) ∈ (renderPieces pieces ++ 34 :: rest).take 64 := by
        rw [List.take_append]
        refine List.mem_append_right _ ?_
        have hpos : 64 - (renderPieces pieces).length = (64 - (renderPieces pieces).length - 1) + 1 := by omega
        rw [hpos, List.take_succ_cons]
        exact List.mem_cons_self
      exact (isHashUnit_ne (hunits _ hmem)).1 rfl
    rw [List.take_append_of_le_length hfull] at hunits hlen h
    rw [List.drop_append_of_le_length hfull] at h
    split at h
    · rename_i t ht
      by_cases hexact : (renderPieces pieces).length = 64
      · have hdrop : (renderPieces pieces).drop 64 = [] := List.drop_eq_nil_iff.mpr (by omega)
        rw [hdrop, List.nil_append, List.cons.injEq] at ht
        obtain ⟨-, rfl⟩ := ht
        rw [List.take_of_length_le (by omega)] at h hunits
        split at h
        · rename_i t' ht'
          cases h
          refine ⟨?_, ?_, rfl⟩
          · simp only [isHashText, Bool.and_eq_true, beq_iff_eq, List.all_eq_true]
            exact ⟨hexact, hunits⟩
          · rw [ColonFollows, ht']
            rfl
        · cases h
      · -- The unit before a quotation mark inside the string is a backslash, which is no digit.
        exfalso
        obtain ⟨tail, htail⟩ : ∃ tail, (renderPieces pieces).drop 64 = 34 :: tail := by
          cases hd : (renderPieces pieces).drop 64 with
          | nil =>
            have hle := List.drop_eq_nil_iff.mp hd
            omega
          | cons w tail =>
            rw [hd, List.cons_append, List.cons.injEq] at ht
            exact ⟨tail, by rw [ht.1]⟩
        have hsplit : renderPieces pieces = (renderPieces pieces).take 64 ++ 34 :: tail := by
          rw [← htail, List.take_append_drop]
        obtain ⟨before, hbefore⟩ := before_quote hsplit
        have hmem : (92 : UInt16) ∈ (renderPieces pieces).take 64 := by
          rw [hbefore]
          simp
        exact (isHashUnit_ne (hunits _ hmem)).2 rfl
    · cases h
  · cases h

/-- Neither a colon nor a digit of a hash follows. -/
def NoKeyFollows (rest : JsString) : Prop := ¬ ColonFollows rest ∧ ∀ u, rest.head? = some u → isHashUnit u = false

/-- At the closing quotation mark nothing is found. -/
theorem hashKeyAt_closing (h : ∀ u, rest.head? = some u → isHashUnit u = false) :
    hashKeyAt (34 :: rest) = none := by
  have hno : isHashText (rest.take 64) = false := by
    cases rest with
    | nil => rfl
    | cons u rest =>
      have hu := h u rfl
      simp [isHashText, hu]
  simp [hashKeyAt, hno]

/-- A piece that is no escaped quotation mark. -/
theorem hashKeys_piece {p : Piece} (h : ∀ hu, p ≠ .escape 34 hu) :
    hashKeys 0 (p.render ++ rest) = hashKeys 0 rest := by
  refine hashKeys_noQuote ?_
  intro u hu
  cases p with
  | plain v hv =>
    rw [List.mem_singleton.mp hu]
    exact isPlain_ne hv
  | escape v hv =>
    rw [Piece.render, List.mem_cons, List.mem_singleton] at hu
    rcases hu with rfl | rfl
    · decide
    · rintro rfl
      exact h hv rfl
  | unicode a b c d hhex =>
    simp only [List.all_cons, List.all_nil, Bool.and_true, Bool.and_eq_true] at hhex
    obtain ⟨ha, hb, hc, hd⟩ := hhex
    simp only [Piece.render, List.mem_cons, List.not_mem_nil, or_false] at hu
    rcases hu with rfl | rfl | rfl | rfl | rfl | rfl
    · decide
    · decide
    · exact isHexDigit_ne ha
    · exact isHexDigit_ne hb
    · exact isHexDigit_ne hc
    · exact isHexDigit_ne hd

/-- A gap and a colon behind a quotation mark: the expression reads over the gap. -/
theorem spaces_gap (gap : Gap) (rest : JsString) : (gap.1 ++ 58 :: rest).takeWhile JsString.isSpace = gap.1 ∧
    (gap.1 ++ 58 :: rest).dropWhile JsString.isSpace = 58 :: rest := by
  have hgap : ∀ u ∈ gap.1, JsString.isSpace u = true := fun u hu => (isGap_ne (List.all_eq_true.mp gap.2 u hu)).2.2.2
  refine ⟨?_, ?_⟩
  · rw [List.takeWhile_append_of_pos hgap, List.takeWhile_cons_of_neg (by decide), List.append_nil]
  · rw [List.dropWhile_append_of_pos hgap, List.dropWhile_cons_of_neg (by decide)]

/-- At a quotation mark before the rest of a key, the expression matches exactly when that rest is a hash. -/
theorem hashKeys_quote {gap : Gap} :
    hashKeys 0 (34 :: (renderPieces pieces ++ 34 :: (gap.1 ++ 58 :: rest))) =
      if isHashText (renderPieces pieces) then renderPieces pieces :: hashKeys 0 rest
      else hashKeys 0 (renderPieces pieces ++ 34 :: (gap.1 ++ 58 :: rest)) := by
  obtain ⟨htake, hdrop⟩ := spaces_gap gap rest
  split
  · rename_i hhash
    have hlen : (renderPieces pieces).length = 64 := by
      simp only [isHashText, Bool.and_eq_true, beq_iff_eq] at hhash
      exact hhash.1
    have hat : hashKeyAt (34 :: (renderPieces pieces ++ 34 :: (gap.1 ++ 58 :: rest))) =
        some (renderPieces pieces, 67 + gap.1.length) := by
      rw [hashKeyAt, List.take_left' hlen, List.drop_left' hlen, hhash]
      simp only [decide_true, Bool.and_self, if_true, hdrop, htake]
    rw [hashKeys, hat]
    simp only
    rw [hashKeys_skip]
    congr 2
    have hsplit : renderPieces pieces ++ 34 :: (gap.1 ++ 58 :: rest) = (renderPieces pieces ++ 34 :: (gap.1 ++ [58])) ++ rest := by
      simp
    rw [hsplit]
    refine List.drop_left' ?_
    simp only [List.length_append, List.length_cons, List.length_nil, hlen]
    omega
  · rename_i hhash
    rw [hashKeys]
    split
    · rename_i hash length hat
      exact absurd (hashKeyAt_quote hat).1 hhash
    · rfl

theorem hashKeys_restOfKey {gap : Gap} :
    hashKeys 0 (renderPieces pieces ++ 34 :: (gap.1 ++ 58 :: rest)) = hashAfterQuote pieces ++ hashKeys 0 rest := by
  induction pieces with
  | nil =>
    have hclose : hashKeyAt (34 :: (gap.1 ++ 58 :: rest)) = none := by
      refine hashKeyAt_closing ?_
      intro u hu
      cases hgap : gap.1 with
      | nil =>
        rw [hgap] at hu
        cases hu
        decide
      | cons v units =>
        rw [hgap] at hu
        cases hu
        exact (isGap_ne (List.all_eq_true.mp gap.2 u (by rw [hgap]; exact List.mem_cons_self))).2.2.1
    have hcolon : hashKeys 0 (58 :: rest) = hashKeys 0 rest := hashKeys_unit rest (by decide)
    show hashKeys 0 (34 :: (gap.1 ++ 58 :: rest)) = hashKeys 0 rest
    rw [hashKeys, hclose]
    simp only
    rw [hashKeys_noQuote (gap_noQuote gap)]
    exact hcolon
  | cons p pieces ih =>
    have hcons : renderPieces (p :: pieces) = p.render ++ renderPieces pieces := List.flatMap_cons
    rw [hcons, List.append_assoc]
    by_cases hp : ∃ hu, p = .escape 34 hu
    · obtain ⟨hu, rfl⟩ := hp
      have hslash : ∀ t : JsString, hashKeys 0 (92 :: t) = hashKeys 0 t := fun t => hashKeys_unit t (by decide)
      show hashKeys 0 (92 :: 34 :: (renderPieces pieces ++ 34 :: (gap.1 ++ 58 :: rest))) = _
      rw [hslash, hashKeys_quote, hashAfterQuote, ih]
      simp only [decide_true, Bool.true_and]
      split <;> rfl
    · rw [hashKeys_piece (fun hu h => hp ⟨hu, h⟩), ih]
      cases p with
      | plain u hu => rfl
      | escape u hu =>
        have hne : u ≠ 34 := by
          rintro rfl
          exact hp ⟨hu, rfl⟩
        rw [hashAfterQuote]
        simp [hne]
      | unicode a b c d hhex => rfl

theorem hashKeys_key {key : List Piece} {gap : Gap} :
    hashKeys 0 (renderString key ++ (gap.1 ++ 58 :: rest)) = spelledHash key ++ hashKeys 0 rest := by
  have htext : renderString key ++ (gap.1 ++ 58 :: rest) = 34 :: (renderPieces key ++ 34 :: (gap.1 ++ 58 :: rest)) := by
    simp [renderString]
  rw [htext, hashKeys_quote, hashKeys_restOfKey, spelledHash]
  split <;> rfl

theorem hashKeys_string (h : NoKeyFollows rest) :
    hashKeys 0 (renderString pieces ++ rest) = hashKeys 0 rest := by
  -- No quotation mark in the string starts a match, since no colon follows the closing one.
  have hquote : ∀ ps : List Piece, hashKeys 0 (34 :: (renderPieces ps ++ 34 :: rest)) = hashKeys 0 (renderPieces ps ++ 34 :: rest) := by
    intro ps
    rw [hashKeys]
    split
    · rename_i hash length hat
      exact absurd (hashKeyAt_quote hat).2.1 h.1
    · rfl
  have hrest : ∀ ps : List Piece, hashKeys 0 (renderPieces ps ++ 34 :: rest) = hashKeys 0 rest := by
    intro ps
    induction ps with
    | nil =>
      show hashKeys 0 (34 :: rest) = _
      rw [hashKeys, hashKeyAt_closing h.2]
    | cons p ps ih =>
      have hcons : renderPieces (p :: ps) = p.render ++ renderPieces ps := List.flatMap_cons
      rw [hcons, List.append_assoc]
      by_cases hp : ∃ hu, p = .escape 34 hu
      · obtain ⟨hu, rfl⟩ := hp
        have hslash : ∀ t : JsString, hashKeys 0 (92 :: t) = hashKeys 0 t := fun t => hashKeys_unit t (by decide)
        show hashKeys 0 (92 :: 34 :: (renderPieces ps ++ 34 :: rest)) = _
        rw [hslash, hquote, ih]
      · rw [hashKeys_piece (fun hu h => hp ⟨hu, h⟩), ih]
  have htext : renderString pieces ++ rest = 34 :: (renderPieces pieces ++ 34 :: rest) := by
    simp [renderString]
  rw [htext, hquote, hrest]

/-! ## The search in the text of a tree -/

theorem noKeyFollows_gap {gap : Gap} (hspace : JsString.isSpace u = false) (hcolon : u ≠ 58)
    (hunit : isHashUnit u = false) : NoKeyFollows (gap.1 ++ u :: rest) := by
  have hgap : ∀ v ∈ gap.1, JsString.isSpace v = true := fun v hv => (isGap_ne (List.all_eq_true.mp gap.2 v hv)).2.2.2
  refine ⟨?_, ?_⟩
  · rw [ColonFollows, List.dropWhile_append_of_pos hgap, List.dropWhile_cons_of_neg (by simp [hspace])]
    intro h
    exact hcolon (Option.some.inj h)
  · intro v hv
    cases hg : gap.1 with
    | nil =>
      rw [hg] at hv
      cases hv
      exact hunit
    | cons w units =>
      rw [hg] at hv
      cases hv
      exact (isGap_ne (List.all_eq_true.mp gap.2 v (by rw [hg]; exact List.mem_cons_self))).2.2.1

theorem noKeyFollows_end (gap : Gap) : NoKeyFollows gap.1 := by
  have hgap : ∀ v ∈ gap.1, JsString.isSpace v = true := fun v hv => (isGap_ne (List.all_eq_true.mp gap.2 v hv)).2.2.2
  refine ⟨?_, ?_⟩
  · rw [ColonFollows, List.dropWhile_eq_nil_iff.mpr hgap]
    intro h
    cases h
  · intro v hv
    exact (isGap_ne (List.all_eq_true.mp gap.2 v (List.mem_of_mem_head? hv))).2.2.1

theorem literal_noQuote (l : Literal) : ∀ u ∈ l.render, u ≠ 34 := by
  cases l <;> simp [Literal.render]

mutual

theorem hashKeys_tree (t : Tree) {rest : JsString} (h : NoKeyFollows rest) :
    hashKeys 0 (t.render ++ rest) = spelledHashes t ++ hashKeys 0 rest := by
  cases t with
  | literal l =>
    rw [Tree.render, hashKeys_noQuote (literal_noQuote l), spelledHashes]
    · rfl
    · exact fun _ _ h => by cases h
    · exact fun _ _ h => by cases h
  | number token =>
    rw [Tree.render, hashKeys_noQuote fun u hu => isNumberUnit_ne (List.all_eq_true.mp token.2 u hu), spelledHashes]
    · rfl
    · exact fun _ _ h => by cases h
    · exact fun _ _ h => by cases h
  | string pieces =>
    rw [Tree.render, hashKeys_string h, spelledHashes]
    · rfl
    · exact fun _ _ h => by cases h
    · exact fun _ _ h => by cases h
  | array gap elements =>
    have hopen : ∀ t : JsString, hashKeys 0 (91 :: t) = hashKeys 0 t := fun t => hashKeys_unit t (by decide)
    have hclose : ∀ t : JsString, hashKeys 0 (93 :: t) = hashKeys 0 t := fun t => hashKeys_unit t (by decide)
    by_cases hnil : elements = .nil
    · subst hnil
      rw [Tree.render, spelledHashes, spelledInElements]
      show hashKeys 0 (91 :: (gap.1 ++ [93] ++ rest)) = hashKeys 0 rest
      rw [hopen, List.append_assoc, hashKeys_noQuote (gap_noQuote gap)]
      exact hclose rest
    · rw [render_array hnil, spelledHashes]
      have htext : 91 :: elements.render ++ [93] ++ rest = 91 :: (elements.render ++ 93 :: rest) := by simp
      rw [htext, hopen, hashKeys_elements elements]
  | object gap members =>
    have hopen : ∀ t : JsString, hashKeys 0 (123 :: t) = hashKeys 0 t := fun t => hashKeys_unit t (by decide)
    have hclose : ∀ t : JsString, hashKeys 0 (125 :: t) = hashKeys 0 t := fun t => hashKeys_unit t (by decide)
    by_cases hnil : members = .nil
    · subst hnil
      rw [Tree.render, spelledHashes, spelledInMembers]
      show hashKeys 0 (123 :: (gap.1 ++ [125] ++ rest)) = hashKeys 0 rest
      rw [hopen, List.append_assoc, hashKeys_noQuote (gap_noQuote gap)]
      exact hclose rest
    · rw [render_object hnil, spelledHashes]
      have htext : 123 :: members.render ++ [125] ++ rest = 123 :: (members.render ++ 125 :: rest) := by simp
      rw [htext, hopen, hashKeys_members members]

/-- The elements of an array up to its closing bracket. -/
theorem hashKeys_elements (elements : Elements) {rest : JsString} :
    hashKeys 0 (elements.render ++ 93 :: rest) = spelledInElements elements ++ hashKeys 0 rest := by
  have hclose : hashKeys 0 (93 :: rest) = hashKeys 0 rest := hashKeys_unit _ (by decide)
  cases elements with
  | nil => exact hclose
  | cons before value after others =>
    by_cases hnil : others = .nil
    · subst hnil
      have htext : (Elements.cons before value after .nil).render ++ 93 :: rest =
          before.1 ++ (value.render ++ (after.1 ++ 93 :: rest)) := by
        rw [Elements.render]
        simp
      rw [htext, hashKeys_noQuote (gap_noQuote before),
        hashKeys_tree value (noKeyFollows_gap (by decide) (by decide) (by decide)),
        hashKeys_noQuote (gap_noQuote after), hclose, spelledInElements, spelledInElements, List.append_nil]
    · have htext : (Elements.cons before value after others).render ++ 93 :: rest =
          before.1 ++ (value.render ++ (after.1 ++ 44 :: (others.render ++ 93 :: rest))) := by
        rw [render_cons hnil]
        simp
      have hcomma : hashKeys 0 (44 :: (others.render ++ 93 :: rest)) = hashKeys 0 (others.render ++ 93 :: rest) :=
        hashKeys_unit _ (by decide)
      rw [htext, hashKeys_noQuote (gap_noQuote before),
        hashKeys_tree value (noKeyFollows_gap (by decide) (by decide) (by decide)),
        hashKeys_noQuote (gap_noQuote after), hcomma, hashKeys_elements others, spelledInElements, List.append_assoc]

/-- The members of an object up to its closing brace. -/
theorem hashKeys_members (members : Members) {rest : JsString} :
    hashKeys 0 (members.render ++ 125 :: rest) = spelledInMembers members ++ hashKeys 0 rest := by
  have hclose : hashKeys 0 (125 :: rest) = hashKeys 0 rest := hashKeys_unit _ (by decide)
  cases members with
  | nil => exact hclose
  | cons before key afterKey beforeValue value after others =>
    by_cases hnil : others = .nil
    · subst hnil
      have htext : (Members.cons before key afterKey beforeValue value after .nil).render ++ 125 :: rest =
          before.1 ++ (renderString key ++ (afterKey.1 ++ 58 :: (beforeValue.1 ++ (value.render ++ (after.1 ++ 125 :: rest))))) := by
        rw [Members.render]
        simp
      rw [htext, hashKeys_noQuote (gap_noQuote before), hashKeys_key, hashKeys_noQuote (gap_noQuote beforeValue),
        hashKeys_tree value (noKeyFollows_gap (by decide) (by decide) (by decide)),
        hashKeys_noQuote (gap_noQuote after), hclose, spelledInMembers, spelledInMembers, List.append_nil, List.append_assoc]
    · have htext : (Members.cons before key afterKey beforeValue value after others).render ++ 125 :: rest =
          before.1 ++ (renderString key ++ (afterKey.1 ++ 58 :: (beforeValue.1 ++ (value.render ++
            (after.1 ++ 44 :: (others.render ++ 125 :: rest)))))) := by
        rw [render_members_cons hnil]
        simp
      have hcomma : hashKeys 0 (44 :: (others.render ++ 125 :: rest)) = hashKeys 0 (others.render ++ 125 :: rest) :=
        hashKeys_unit _ (by decide)
      rw [htext, hashKeys_noQuote (gap_noQuote before), hashKeys_key, hashKeys_noQuote (gap_noQuote beforeValue),
        hashKeys_tree value (noKeyFollows_gap (by decide) (by decide) (by decide)),
        hashKeys_noQuote (gap_noQuote after), hcomma, hashKeys_members others, spelledInMembers, List.append_assoc,
        List.append_assoc]

end

theorem hashKeys_text {text : JsString} {before after : Gap} {tree : Tree} (h : parse text = some (before, tree, after)) :
    hashKeys 0 text = spelledHashes tree := by
  have hend : hashKeys 0 (after.1 ++ []) = [] := hashKeys_noQuote (gap_noQuote after)
  rw [parse_render h, List.append_assoc, hashKeys_noQuote (gap_noQuote before), hashKeys_tree tree (noKeyFollows_end after)]
  rw [List.append_nil] at hend
  rw [hend, List.append_nil]

/-! ## Acceptance -/

theorem firstRepeated_none {seen hashes : List JsString} :
    firstRepeated seen hashes = none ↔ hashes.Nodup ∧ ∀ hash ∈ hashes, hash ∉ seen := by
  induction hashes generalizing seen with
  | nil => simp [firstRepeated]
  | cons hash rest ih =>
    rw [firstRepeated]
    split
    · rename_i hseen
      simp only [List.contains_iff_mem] at hseen
      simp [hseen]
    · rename_i hseen
      simp only [List.contains_iff_mem] at hseen
      rw [ih, List.nodup_cons]
      constructor
      · rintro ⟨hnodup, hmem⟩
        refine ⟨⟨fun h => hmem hash h List.mem_cons_self, hnodup⟩, ?_⟩
        intro other hother
        rcases List.mem_cons.mp hother with rfl | h
        · exact hseen
        · exact fun hs => hmem other h (List.mem_cons_of_mem _ hs)
      · rintro ⟨⟨hnot, hnodup⟩, hmem⟩
        refine ⟨hnodup, ?_⟩
        intro other hother hin
        rcases List.mem_cons.mp hin with rfl | h
        · exact hnot hother
        · exact hmem other (List.mem_cons_of_mem _ hother) h

theorem accepted_iff {text : JsString} {before after gap : Gap} {members : Members}
    (h : parse text = some (before, .object gap members, after)) :
    Accepted text ↔ (spelledInMembers members).Nodup := by
  have hkeys : hashKeys 0 text = spelledInMembers members := by
    rw [hashKeys_text h, spelledHashes]
  have hnone : firstRepeated [] (hashKeys 0 text) = none ↔ (spelledInMembers members).Nodup := by
    rw [firstRepeated_none, hkeys]
    simp
  rw [← hnone]
  constructor
  · rintro ⟨body, hbody⟩
    rw [parseRootRefsBody] at hbody
    split at hbody
    · cases hbody
    · assumption
  · intro hfirst
    rw [Accepted, parseRootRefsBody, hfirst, h]
    exact ⟨_, rfl⟩

/-! ## Duplicate detection -/

/-- Duplicate detection is complete on the text of an object exactly when two keys of the changes that denote one hash come
with two keys of the text that spell one hash literally, and two such keys come with an object that has a hash key twice. -/
theorem detectsDuplicates_iff {text : JsString} {before after gap : Gap} {members : Members}
    (h : parse text = some (before, .object gap members, after)) :
    DetectsDuplicates text gap members ↔
      (¬ (changesKeys members).Nodup → ¬ (spelledInMembers members).Nodup) ∧
        (¬ (spelledInMembers members).Nodup → repeatsNone (.object gap members) = false) := by
  rw [DetectsDuplicates, accepted_iff h]
  constructor
  · rintro ⟨hchanges, haccept⟩
    refine ⟨fun hnot hspelled => hnot (hchanges hspelled), ?_⟩
    intro hspelled
    rw [← Bool.not_eq_true]
    exact fun hnone => hspelled (haccept hnone)
  · rintro ⟨hspelled, hrepeats⟩
    refine ⟨?_, ?_⟩
    · intro hdistinct
      by_contra hnot
      exact hspelled hnot hdistinct
    · intro hnone
      by_contra hnot
      rw [hrepeats hnot] at hnone
      cases hnone

/-- A text with two keys in `changes`: the first spells the hash of 64 digits `a`, the second the same hash with an escape. -/
def escapedKeyText : JsString :=
  JsString.ofString "\x7b\"requestId\":\"r\",\"changes\":\x7b\"" ++ List.replicate 64 97 ++
    JsString.ofString "\":1,\"\\u0061" ++ List.replicate 63 97 ++ JsString.ofString "\":2\x7d\x7d"

/-- What the text holds, and that it parses. -/
def parsedObject (text : JsString) : Option (Gap × Members) :=
  match parse text with
  | some (_, .object gap members, _) => some (gap, members)
  | _ => none

theorem parse_of_parsedObject {text : JsString} {gap : Gap} {members : Members} (h : parsedObject text = some (gap, members)) :
    ∃ before after, parse text = some (before, .object gap members, after) := by
  rw [parsedObject] at h
  split at h
  · cases h
    exact ⟨_, _, by assumption⟩
  · cases h

theorem escapedKeyText_checked : (parsedObject escapedKeyText).any (fun o =>
    !decide (changesKeys o.2).Nodup && decide (spelledInMembers o.2).Nodup) = true := by
  decide +kernel

/-- On the text with the escaped key the request is accepted although its changes have a hash key twice. -/
theorem detectsDuplicates_false : ¬ ∀ (text : JsString) (before after gap : Gap) (members : Members),
    parse text = some (before, .object gap members, after) → DetectsDuplicates text gap members := by
  intro hall
  obtain ⟨⟨gap, members⟩, hobject, hcheck⟩ := (Option.any_eq_true _ _).mp escapedKeyText_checked
  obtain ⟨before, after, hparse⟩ := parse_of_parsedObject hobject
  simp only [Bool.and_eq_true, Bool.not_eq_true', decide_eq_true_eq, decide_eq_false_iff_not] at hcheck
  have hspelled := ((hall _ _ _ _ _ hparse).1 ((accepted_iff hparse).mpr hcheck.2))
  exact hcheck.1 hspelled

/-- The characterisation at the text with the escaped key. -/
theorem detectsDuplicates_escapedKeyText : ∃ before after gap members,
    parse escapedKeyText = some (before, .object gap members, after) ∧
      (DetectsDuplicates escapedKeyText gap members ↔
        (¬ (changesKeys members).Nodup → ¬ (spelledInMembers members).Nodup) ∧
          (¬ (spelledInMembers members).Nodup → repeatsNone (.object gap members) = false)) := by
  obtain ⟨⟨gap, members⟩, hobject, -⟩ := (Option.any_eq_true _ _).mp escapedKeyText_checked
  obtain ⟨before, after, hparse⟩ := parse_of_parsedObject hobject
  exact ⟨before, after, gap, members, hparse, detectsDuplicates_iff hparse⟩

end UniDocs.Cas
