import Mathlib.Tactic.ByContra
import UniDocs.Typeset.FontRegistry

/-!
# Which fonts are needed

The binary search answers for the ranges it searches. The fonts that `loadFonts` needs are the ones that are offered first for
some code point of the text requested in some font, and a resolver over them answers as one over the whole index exactly where
the font that the index offers is among them.
-/

namespace UniDocs.Typeset

open Lib (JsString)
open Lib.JsString (codePoints)

/-! ## The binary search -/

/-- A code point lies in the range at a place. -/
def InRange (ranges : List (Nat × Nat)) (codePoint i : Nat) : Prop :=
  ∃ range, ranges[i]? = some range ∧ range.1 ≤ codePoint ∧ codePoint ≤ range.2

/-- The ranges before a place lie below its range, and those behind it above. -/
theorem FontCoverage.apart (coverage : FontCoverage) {i j : Nat} {a b : Nat × Nat} (hij : i < j)
    (ha : coverage.ranges[i]? = some a) (hb : coverage.ranges[j]? = some b) : a.2 < b.1 := by
  obtain ⟨hi, rfl⟩ := List.getElem?_eq_some_iff.mp ha
  obtain ⟨hj, rfl⟩ := List.getElem?_eq_some_iff.mp hb
  exact List.pairwise_iff_getElem.mp coverage.ascending i j hi hj hij

theorem searchRanges_iff (coverage : FontCoverage) (codePoint : Nat) (steps : Nat) : ∀ lo stop, stop ≤ coverage.ranges.length →
    stop - lo ≤ steps → (searchRanges coverage.ranges codePoint steps lo stop = true ↔
      ∃ i, lo ≤ i ∧ i < stop ∧ InRange coverage.ranges codePoint i) := by
  induction steps with
  | zero =>
    intro lo stop _ hsteps
    refine ⟨nofun, fun ⟨i, hlo, hstop, _⟩ => ?_⟩
    omega
  | succ steps ih =>
    intro lo stop hlength hsteps
    unfold searchRanges
    split
    · rename_i hlt
      have hlow : lo ≤ (lo + (stop - 1)) / 2 := by omega
      have hhigh : (lo + (stop - 1)) / 2 < stop := by omega
      generalize (lo + (stop - 1)) / 2 = mid at hlow hhigh
      have hget : coverage.ranges[mid]? = some coverage.ranges[mid] := List.getElem?_eq_getElem (by omega)
      generalize coverage.ranges[mid] = range at hget
      have hrange : range.1 ≤ range.2 := coverage.ordered range (List.mem_of_getElem? hget)
      dsimp only
      rw [hget]
      dsimp only
      split
      · rename_i hbelow
        rw [ih lo mid (by omega) (by omega)]
        constructor
        · rintro ⟨i, hi, him, hin⟩
          exact ⟨i, hi, by omega, hin⟩
        · rintro ⟨i, hi, his, other, hother, hfirst, hlast⟩
          refine ⟨i, hi, ?_, other, hother, hfirst, hlast⟩
          by_contra hge
          rcases Nat.lt_or_eq_of_le (Nat.le_of_not_lt hge) with hmid | rfl
          · have := coverage.apart hmid hget hother
            omega
          · rw [hget] at hother
            cases hother
            omega
      · split
        · rename_i habove
          rw [ih (mid + 1) stop hlength (by omega)]
          constructor
          · rintro ⟨i, hi, his, hin⟩
            exact ⟨i, by omega, his, hin⟩
          · rintro ⟨i, hi, his, other, hother, hfirst, hlast⟩
            refine ⟨i, ?_, his, other, hother, hfirst, hlast⟩
            by_contra hlt'
            rcases Nat.lt_or_eq_of_le (Nat.le_of_lt_succ (Nat.lt_of_not_le hlt')) with hmid | rfl
            · have := coverage.apart hmid hother hget
              omega
            · rw [hget] at hother
              cases hother
              omega
        · rename_i hbelow habove
          exact ⟨fun _ => ⟨mid, hlow, hhigh, range, hget, by omega, by omega⟩, fun _ => rfl⟩
    · rename_i hge
      refine ⟨nofun, fun ⟨i, hlo, hstop, _⟩ => ?_⟩
      omega

theorem coversCodePoint_iff (coverage : FontCoverage) (codePoint : Nat) :
    coversCodePoint coverage codePoint = true ↔ coverage.Holds codePoint := by
  rw [coversCodePoint, searchRanges_iff coverage codePoint _ _ _ (Nat.le_refl _) (by omega)]
  constructor
  · rintro ⟨i, _, _, range, hget, hin⟩
    exact ⟨range, List.mem_of_getElem? hget, hin⟩
  · rintro ⟨range, hmem, hin⟩
    obtain ⟨i, hi, rfl⟩ := List.getElem_of_mem hmem
    exact ⟨i, Nat.zero_le i, hi, _, List.getElem?_eq_getElem hi, hin⟩

/-! ## Restricted candidates -/

/-- Of the candidates that pass another test, the first that is known is the first known of all, if that one passes. -/
theorem find?_restricted_eq_iff {T : Type} (passes knows : T → Bool) (candidates : List T) :
    (candidates.find? fun candidate => passes candidate && knows candidate) = candidates.find? knows ↔
      ∀ candidate, candidates.find? knows = some candidate → passes candidate = true := by
  induction candidates with
  | nil => simp
  | cons candidate candidates ih =>
    rw [List.find?_cons, List.find?_cons]
    cases hknows : knows candidate with
    | false =>
      rw [Bool.and_false]
      exact ih
    | true =>
      rw [Bool.and_true]
      cases hpasses : passes candidate with
      | true => simpa using hpasses
      | false =>
        constructor
        · intro heq
          have hfound := List.find?_some heq
          rw [hpasses, Bool.false_and] at hfound
          exact absurd hfound Bool.false_ne_true
        · intro hall
          have hpass := hall candidate rfl
          rw [hpasses] at hpass
          exact absurd hpass Bool.false_ne_true

theorem find?_restricted_some {T : Type} {passes knows : T → Bool} {candidates : List T} {candidate : T}
    (h : (candidates.find? fun candidate => passes candidate && knows candidate) = some candidate) :
    passes candidate = true ∧ knows candidate = true := by
  have hboth := List.find?_some h
  exact Bool.and_eq_true_iff.mp hboth

/-- What is not known at all is not known among fewer candidates. -/
theorem find?_restricted_eq_none {T : Type} (passes knows : T → Bool) {candidates : List T} (h : candidates.find? knows = none) :
    (candidates.find? fun candidate => passes candidate && knows candidate) = none := by
  rw [List.find?_eq_none] at h ⊢
  intro candidate hmem hboth
  exact h candidate hmem (Bool.and_eq_true_iff.mp hboth).2

/-! ## The faces of a resolver -/

variable {N : Type}

theorem lookup_indexedFaces (index : FontIndex N) (name : String) :
    (indexedFaces index).lookup name = (index.lookup name).map RegisteredFont.face := by
  unfold indexedFaces
  induction index with
  | nil => rfl
  | cons entry index ih =>
    rw [List.map_cons, List.lookup_cons, List.lookup_cons, ih]
    cases name == entry.1 <;> rfl

/-- The faces of the fonts that are needed. -/
def neededFaces (needed : List String) (index : FontIndex N) : List (String × FontFace N) :=
  needed.filterMap fun name => (index.lookup name).map fun found => (name, found.face)

theorem lookup_neededFaces (needed : List String) (index : FontIndex N) (name : String) :
    (neededFaces needed index).lookup name = if name ∈ needed then (index.lookup name).map RegisteredFont.face else none := by
  unfold neededFaces
  induction needed with
  | nil => rfl
  | cons first needed ih =>
    rw [List.filterMap_cons]
    by_cases hname : name = first
    · subst hname
      rw [if_pos List.mem_cons_self]
      cases hfound : index.lookup name with
      | none =>
        rw [hfound] at ih
        rw [Option.map_none, ih]
        simp
      | some found => simp
    · have hmem : (name ∈ first :: needed) ↔ name ∈ needed := by simp [hname]
      have hne : (name == first) = false := by simpa using hname
      cases index.lookup first with
      | none => simp only [Option.map_none, ih, hmem]
      | some found => simp only [Option.map_some, List.lookup_cons, hne, ih, hmem]

variable {index : FontIndex N}

/-- A face knows what the index says about its font. -/
theorem loadedKnows_indexedFaces (hindex : index.Faithful) :
    loadedKnows (indexedFaces index) = indexKnows index := by
  funext name codePoint
  rw [loadedKnows, indexKnows, lookup_indexedFaces]
  cases hfound : index.lookup name with
  | none => rfl
  | some found =>
    obtain ⟨before, after, hindexed, _⟩ := List.lookup_eq_some_iff.mp hfound
    have hmem : (name, found) ∈ index := by simp [hindexed]
    rw [Option.map_some, Bool.eq_iff_iff, coversCodePoint_iff]
    exact hindex _ hmem codePoint

theorem loadedKnows_neededFaces (hindex : index.Faithful) (needed : List String) (name : String)
    (codePoint : Nat) :
    loadedKnows (neededFaces needed index) name codePoint = (decide (name ∈ needed) && indexKnows index name codePoint) := by
  rw [← loadedKnows_indexedFaces hindex, loadedKnows, loadedKnows, lookup_neededFaces, lookup_indexedFaces]
  by_cases hmem : name ∈ needed
  · rw [if_pos hmem, decide_eq_true hmem, Bool.true_and]
  · rw [if_neg hmem, decide_eq_false hmem, Bool.false_and]

/-- The face of a font of the index. -/
def indexedFace (index : FontIndex N) (name : String) : Option (LoadedFace N) :=
  (index.lookup name).map fun found => ⟨name, found.face⟩

variable {name : String}

theorem name_indexedFace {codePoint : Nat} (h : indexKnows index name codePoint = true) :
    (indexedFace index name).map LoadedFace.name = some name := by
  unfold indexKnows at h
  unfold indexedFace
  split at h
  · rename_i found hfound
    rw [hfound]
    rfl
  · cases h

theorem name_bind_indexedFace {found : Option String} {codePoint : Nat}
    (h : ∀ name, found = some name → indexKnows index name codePoint = true) :
    (found.bind (indexedFace index)).map LoadedFace.name = found := by
  cases found with
  | none => rfl
  | some name => exact name_indexedFace (h name rfl)

variable {fallbacks : List String}

theorem firstCovering_known {requested : Option String} {codePoint : Nat}
    (h : firstCovering index fallbacks requested codePoint = some name) :
    indexKnows index name codePoint = true := by
  unfold firstCovering pick at h
  exact List.find?_some (p := fun candidate => indexKnows index candidate codePoint) h

/-- The resolver over the whole index. -/
theorem resolveFaceChain_indexedFaces (hindex : index.Faithful) (fallbacks : List String) (codePoint : Nat)
    (requested : Option String) : resolveFaceChain (indexedFaces index) fallbacks codePoint requested =
      (firstCovering index fallbacks requested codePoint).bind (indexedFace index) := by
  rw [resolveFaceChain, loadedKnows_indexedFaces hindex, ← firstCovering]
  cases firstCovering index fallbacks requested codePoint with
  | none => rfl
  | some name =>
    show ((indexedFaces index).lookup name).map (LoadedFace.mk name) = indexedFace index name
    rw [lookup_indexedFaces, indexedFace, Option.map_map]
    rfl

/-- The resolver over the faces of some fonts. -/
theorem resolveFaceChain_neededFaces (hindex : index.Faithful) (needed fallbacks : List String)
    (codePoint : Nat) (requested : Option String) : resolveFaceChain (neededFaces needed index) fallbacks codePoint requested =
      ((candidates requested fallbacks).find? fun name => decide (name ∈ needed) && indexKnows index name codePoint).bind
        (indexedFace index) := by
  have hknows : (fun name => loadedKnows (neededFaces needed index) name codePoint) =
      fun name => decide (name ∈ needed) && indexKnows index name codePoint :=
    funext fun name => loadedKnows_neededFaces hindex needed name codePoint
  rw [resolveFaceChain, pick, hknows]
  cases hfound : (candidates requested fallbacks).find? fun name => decide (name ∈ needed) && indexKnows index name codePoint with
  | none => rfl
  | some name =>
    have hneeded : name ∈ needed := of_decide_eq_true (find?_restricted_some hfound).1
    show ((neededFaces needed index).lookup name).map (LoadedFace.mk name) = indexedFace index name
    rw [lookup_neededFaces, if_pos hneeded, indexedFace, Option.map_map]
    rfl

/-- The resolver over the faces of some fonts finds the face that the whole index offers exactly if its font is one of them. -/
theorem resolveFace_eq_iff (hindex : index.Faithful) (needed fallbacks : List String) (codePoint : Nat)
    (requested : Option String) :
    resolveFaceChain (neededFaces needed index) fallbacks codePoint requested =
        resolveFaceChain (indexedFaces index) fallbacks codePoint requested ↔
      ∀ name, firstCovering index fallbacks requested codePoint = some name → name ∈ needed := by
  have hpicked : ((candidates requested fallbacks).find? fun name => decide (name ∈ needed) && indexKnows index name codePoint) =
      firstCovering index fallbacks requested codePoint ↔
        ∀ name, firstCovering index fallbacks requested codePoint = some name → name ∈ needed := by
    simpa [firstCovering, pick] using find?_restricted_eq_iff (fun name => decide (name ∈ needed))
      (fun name => indexKnows index name codePoint) (candidates requested fallbacks)
  rw [resolveFaceChain_neededFaces hindex, resolveFaceChain_indexedFaces hindex, ← hpicked]
  refine ⟨fun heq => ?_, fun heq => by rw [heq]⟩
  have hnames := congrArg (Option.map LoadedFace.name) heq
  rw [name_bind_indexedFace fun name hname => (find?_restricted_some hname).2,
    name_bind_indexedFace fun name hname => firstCovering_known hname] at hnames
  exact hnames

theorem resolveFace_eq_none (hindex : index.Faithful) (needed : List String)
    {codePoint : Nat} {requested : Option String}
    (h : resolveFaceChain (indexedFaces index) fallbacks codePoint requested = none) :
    resolveFaceChain (neededFaces needed index) fallbacks codePoint requested = none := by
  rw [resolveFaceChain_indexedFaces hindex] at h
  have hnames := congrArg (Option.map LoadedFace.name) h
  rw [name_bind_indexedFace fun name hname => firstCovering_known hname] at hnames
  rw [resolveFaceChain_neededFaces hindex, find?_restricted_eq_none _ _ hnames]
  rfl

/-! ## The fonts that are needed -/

theorem mem_addName {names : List String} {name other : String} : name ∈ addName names other ↔ name ∈ names ∨ name = other := by
  unfold addName
  split
  · rename_i hmem
    exact ⟨Or.inl, fun h => h.elim id fun heq => heq ▸ hmem⟩
  · simp

theorem mem_foldl_addName (added : List String) : ∀ {names : List String},
    name ∈ added.foldl addName names ↔ name ∈ names ∨ name ∈ added := by
  induction added with
  | nil => simp
  | cons other added ih =>
    intro names
    rw [List.foldl_cons, ih, mem_addName, List.mem_cons, or_assoc]

theorem mem_addFound {names : List String} {found : Option String} :
    name ∈ addFound names found ↔ name ∈ names ∨ found = some name := by
  cases found with
  | none => simp [addFound]
  | some other => rw [addFound, mem_addName, Option.some.injEq, eq_comm (a := name)]

theorem mem_foldl_addFound (find : Nat → Option String) (points : List Nat) : ∀ {names : List String},
    name ∈ points.foldl (fun names codePoint => addFound names (find codePoint)) names ↔
      name ∈ names ∨ ∃ codePoint ∈ points, find codePoint = some name := by
  induction points with
  | nil => simp
  | cons codePoint points ih =>
    intro names
    rw [List.foldl_cons, ih, mem_addFound, List.exists_mem_cons_iff, or_assoc]

/-- The loop that puts the names of a set in order. -/
theorem mem_foldl_ordered (needed names : List String) : ∀ {result : List String},
    name ∈ names.foldl (fun result name => if name ∈ needed then addName result name else result) result ↔
      name ∈ result ∨ (name ∈ names ∧ name ∈ needed) := by
  induction names with
  | nil => simp
  | cons other names ih =>
    intro result
    rw [List.foldl_cons, ih, List.mem_cons]
    by_cases hmem : other ∈ needed
    · rw [if_pos hmem, mem_addName]
      constructor
      · rintro ((hin | rfl) | ⟨hin, hneed⟩)
        · exact Or.inl hin
        · exact Or.inr ⟨Or.inl rfl, hmem⟩
        · exact Or.inr ⟨Or.inr hin, hneed⟩
      · rintro (hin | ⟨rfl | hin, hneed⟩)
        · exact Or.inl (Or.inl hin)
        · exact Or.inl (Or.inr rfl)
        · exact Or.inr ⟨hin, hneed⟩
    · rw [if_neg hmem]
      constructor
      · rintro (hin | ⟨hin, hneed⟩)
        · exact Or.inl hin
        · exact Or.inr ⟨Or.inr hin, hneed⟩
      · rintro (hin | ⟨rfl | hin, hneed⟩)
        · exact Or.inl hin
        · exact absurd hneed hmem
        · exact Or.inr ⟨hin, hneed⟩

theorem mem_selectFonts {requested : Option String} {content : JsString}
    : name ∈ selectFonts index requested fallbacks content ↔
      ∃ codePoint ∈ codePoints content, firstCovering index fallbacks requested codePoint = some name := by
  rw [selectFonts, mem_foldl_ordered, mem_foldl_addFound]
  simp only [List.not_mem_nil, false_or]
  refine and_iff_right_of_imp ?_
  rintro ⟨codePoint, _, hfound⟩
  exact List.mem_of_find?_eq_some hfound

variable [Arithmetic N]

/-- The text that is requested in a font: its stretches one behind the other. -/
def requestedText (upper : Char → List Char) (text : LayerText N) (font : Option String) : JsString :=
  ((stretches text).filter fun stretch => stretch.style.font = font).flatMap (Stretch.chars upper text.content)

omit [Arithmetic N] in
theorem lookup_pushChars (out : List (Option String × JsString)) (font key : Option String) (string : JsString) :
    (pushChars out font string).lookup key =
      if key = font ∧ string ≠ [] then some ((out.lookup key).getD [] ++ string) else out.lookup key := by
  unfold pushChars
  cases string with
  | nil => simp
  | cons unit units =>
    rw [if_pos (List.length_pos_of_ne_nil (List.cons_ne_nil _ _)), Lib.JsMap.lookup_set]
    by_cases hkey : key = font
    · simp [hkey]
    · simp [hkey]

theorem lookup_charsByRequestedFont (upper : Char → List Char) (text : LayerText N) (font : Option String) :
    (charsByRequestedFont upper text).lookup font =
      if requestedText upper text font = [] then none else some (requestedText upper text font) := by
  have hfold : ∀ (pieces : List (Stretch N)) (out : List (Option String × JsString)),
      let more := (pieces.filter fun stretch => stretch.style.font = font).flatMap (Stretch.chars upper text.content)
      (pieces.foldl (fun out stretch => pushChars out stretch.style.font (stretch.chars upper text.content)) out).lookup font =
        if more = [] then out.lookup font else some ((out.lookup font).getD [] ++ more) := by
    intro pieces
    induction pieces with
    | nil => simp
    | cons stretch pieces ih =>
      intro out
      rw [List.foldl_cons]
      dsimp only at ih ⊢
      rw [ih, lookup_pushChars]
      by_cases hfont : stretch.style.font = font
      · rw [List.filter_cons_of_pos (by simpa using hfont), List.flatMap_cons]
        by_cases hempty : stretch.chars upper text.content = []
        · simp [hempty]
        · simp [hempty, hfont]
      · have hother : ¬ (font = stretch.style.font ∧ stretch.chars upper text.content ≠ []) := fun h => hfont h.1.symm
        rw [List.filter_cons_of_neg (by simpa using hfont), if_neg hother]
  rw [charsByRequestedFont, hfold]
  rfl

theorem nodup_charsByRequestedFont (upper : Char → List Char) (text : LayerText N) :
    ((charsByRequestedFont upper text).map Prod.fst).Nodup := by
  unfold charsByRequestedFont
  refine List.foldlRecOn (motive := fun out => (List.map Prod.fst out).Nodup) (stretches text) _ List.nodup_nil
    fun out hout stretch _ => ?_
  unfold pushChars
  split
  · exact Lib.JsMap.nodup_set _ hout
  · exact hout

theorem mem_neededFonts {upper : Char → List Char} {text : LayerText N}
    : name ∈ neededFonts upper text index fallbacks ↔
      ∃ font, ∃ codePoint ∈ codePoints (requestedText upper text font),
        firstCovering index fallbacks font codePoint = some name := by
  have hfold : ∀ (entries : List (Option String × JsString)) (needed : List String),
      name ∈ entries.foldl (fun needed entry => (selectFonts index entry.1 fallbacks entry.2).foldl addName needed) needed ↔
        name ∈ needed ∨ ∃ entry ∈ entries, name ∈ selectFonts index entry.1 fallbacks entry.2 := by
    intro entries
    induction entries with
    | nil => simp
    | cons entry entries ih =>
      intro needed
      rw [List.foldl_cons, ih, mem_foldl_addName, List.exists_mem_cons_iff, or_assoc]
  rw [neededFonts, hfold]
  constructor
  · rintro (hin | ⟨⟨font, chars⟩, hentry, hname⟩)
    · cases hin
    · obtain ⟨codePoint, hpoint, hfound⟩ := mem_selectFonts.mp hname
      have hlookup := (Lib.JsMap.lookup_iff (nodup_charsByRequestedFont upper text)).mpr hentry
      rw [lookup_charsByRequestedFont] at hlookup
      split at hlookup
      · cases hlookup
      · cases hlookup
        exact ⟨font, codePoint, hpoint, hfound⟩
  · rintro ⟨font, codePoint, hpoint, hfound⟩
    have hchars : requestedText upper text font ≠ [] := by
      intro hempty
      rw [hempty] at hpoint
      cases hpoint
    have hlookup := lookup_charsByRequestedFont upper text font
    rw [if_neg hchars, Lib.JsMap.lookup_iff (nodup_charsByRequestedFont upper text)] at hlookup
    exact Or.inr ⟨_, hlookup, mem_selectFonts.mpr ⟨codePoint, hpoint, hfound⟩⟩

end UniDocs.Typeset
