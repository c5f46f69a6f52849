import Mathlib.Order.Defs.PartialOrder
import UniDocs.Lib.Result
import UniDocs.Lib.Tree

/-!
# Traversals of trees

A forest with a step taken at each of its values, where a step reads and writes a state and may fail. What a traversal makes is
compared with its forest value by value.
-/

namespace Lib

variable {α β γ σ ε : Type}

/-- A step that reads and writes a state and may fail. -/
abbrev Step (σ ε : Type) := StateT σ (Except ε)

theorem run_bind_ok_iff {x : Step σ ε α} {f : α → Step σ ε β} {s : σ} {r : β × σ} :
    (x >>= f) s = .ok r ↔ ∃ a t, x s = .ok (a, t) ∧ f a t = .ok r := by
  show (x s >>= fun p => f p.1 p.2) = .ok r ↔ _
  rw [bind_ok_iff]
  exact ⟨fun ⟨p, h, h'⟩ => ⟨p.1, p.2, h, h'⟩, fun ⟨a, t, h, h'⟩ => ⟨(a, t), h, h'⟩⟩

theorem run_pure_ok_iff {a b : α} {s t : σ} : (pure a : Step σ ε α) s = .ok (b, t) ↔ b = a ∧ t = s :=
  pure_ok_iff.trans Prod.ext_iff

theorem run_lift_ok_iff {x : Except ε α} {a : α} {s t : σ} : (StateT.lift x : Step σ ε α) s = .ok (a, t) ↔ x = .ok a ∧ t = s := by
  show (x >>= fun a => pure (a, s)) = .ok (a, t) ↔ _
  rw [bind_ok_iff]
  constructor
  · rintro ⟨b, hb, h⟩
    obtain ⟨rfl, rfl⟩ := Prod.ext_iff.mp (pure_ok_iff.mp h)
    exact ⟨hb, rfl⟩
  · rintro ⟨ha, rfl⟩
    exact ⟨a, ha, rfl⟩

/-! ## Values that may be missing -/

theorem rel_map {R : α → γ → Prop} {g : β → γ} {o : Option α} {r : Option β} (h : Option.Rel (fun a b => R a (g b)) o r) :
    Option.Rel R o (r.map g) := by
  cases h with
  | some hr => exact .some hr
  | none => exact .none

/-- A step that succeeds at the value, if there is one. -/
theorem mapM_ok (le : σ → σ → Prop) [IsPreorder σ le] {f : α → Step σ ε β} {Q : α → β → Prop} {o : Option α} {s u : σ}
    (hf : ∀ a, o = some a → ∀ b t, f a s = .ok (b, t) → le s t ∧ (le t u → Q a b)) {r : Option β} {t : σ}
    (h : o.mapM f s = .ok (r, t)) : le s t ∧ (le t u → Option.Rel Q o r) := by
  cases o with
  | none =>
    obtain ⟨rfl, rfl⟩ := run_pure_ok_iff.mp h
    exact ⟨refl_of le _, fun _ => .none⟩
  | some a =>
    simp only [Option.mapM_some, map_eq_pure_bind, run_bind_ok_iff, run_pure_ok_iff] at h
    obtain ⟨b, _, hb, rfl, rfl⟩ := h
    obtain ⟨hle, hq⟩ := hf a rfl b _ hb
    exact ⟨hle, fun hfinal => .some (hq hfinal)⟩

theorem mapM_back {f : α → Step σ ε β} {l : β → α} {s : σ} (hf : ∀ a b t, f a s = .ok (b, t) → t = s ∧ l b = a)
    {o : Option α} {r : Option β} {t : σ} (h : o.mapM f s = .ok (r, t)) : t = s ∧ r.map l = o := by
  cases o with
  | none =>
    obtain ⟨rfl, rfl⟩ := run_pure_ok_iff.mp h
    exact ⟨rfl, rfl⟩
  | some a =>
    simp only [Option.mapM_some, map_eq_pure_bind, run_bind_ok_iff, run_pure_ok_iff] at h
    obtain ⟨b, _, hb, rfl, rfl⟩ := h
    exact ⟨(hf a b _ hb).1, congrArg some (hf a b _ hb).2⟩

/-- A step that succeeds wherever there is a value, and another one that takes its result back. -/
theorem mapM_total {δ : Type} {f : β → Step σ ε γ} {g : γ → Step σ ε β} {l : δ → β} {R : α → β → Prop} {S : α → γ → Prop} {s : σ}
    (hf : ∀ a d, R a (l d) → ∃ c, f (l d) s = .ok (c, s) ∧ S a c ∧ g c s = .ok (l d, s)) {o : Option α} {p : Option δ}
    (h : Option.Rel R o (p.map l)) :
    ∃ r, (p.map l).mapM f s = .ok (r, s) ∧ Option.Rel S o r ∧ r.mapM g s = .ok (p.map l, s) := by
  cases p with
  | none =>
    cases h
    exact ⟨none, rfl, .none, rfl⟩
  | some d =>
    cases h with | some hr =>
    obtain ⟨c, hc, hs, hg⟩ := hf _ d hr
    refine ⟨some c, ?_, .some hs, ?_⟩ <;>
      simp only [Option.map_some, Option.mapM_some, map_eq_pure_bind, run_bind_ok_iff, run_pure_ok_iff]
    · exact ⟨c, s, hc, rfl, rfl⟩
    · exact ⟨l d, s, hg, rfl, rfl⟩

/-! ## Lists -/

theorem list_mapM_back {f : α → Step σ ε β} {load : β → α} {s : σ} (hf : ∀ a b t, f a s = .ok (b, t) → t = s ∧ load b = a) :
    ∀ {l : List α} {r : List β} {t : σ}, l.mapM f s = .ok (r, t) → t = s ∧ r.map load = l := by
  intro l
  induction l with
  | nil =>
    intro r t h
    obtain ⟨rfl, rfl⟩ := run_pure_ok_iff.mp h
    exact ⟨rfl, rfl⟩
  | cons a l ih =>
    intro r t h
    simp only [List.mapM_cons, run_bind_ok_iff, run_pure_ok_iff] at h
    obtain ⟨b, _, hb, bs, _, hbs, rfl, rfl⟩ := h
    obtain ⟨rfl, hload⟩ := hf a b _ hb
    obtain ⟨rfl, hrest⟩ := ih hbs
    exact ⟨rfl, by rw [List.map_cons, hload, hrest]⟩

theorem list_mapM_total {f : α → Step σ ε β} {load : β → α} {s : σ} (hf : ∀ b, f (load b) s = .ok (b, s)) (l : List β) :
    (l.map load).mapM f s = .ok (l, s) := by
  induction l with
  | nil => rfl
  | cons b l ih =>
    simp only [List.map_cons, List.mapM_cons, run_bind_ok_iff, run_pure_ok_iff]
    exact ⟨b, s, hf b, l, s, ih, rfl, rfl⟩

/-! ## Forests -/

namespace RoseTree

mutual

def traverseTree (f : α → Step σ ε β) : RoseTree α → Step σ ε (RoseTree β)
  | node value none => do
    let value ← f value
    return node value none
  | node value (some children) => do
    let value ← f value
    let children ← traverse f children
    return node value (some children)

/-- A step at each value of a forest, in preorder. -/
def traverse (f : α → Step σ ε β) : List (RoseTree α) → Step σ ε (List (RoseTree β))
  | [] => pure []
  | t :: ts => do
    let t ← traverseTree f t
    let ts ← traverse f ts
    return t :: ts

end

/-- Forests of one shape, with related values at the same places. -/
inductive Related (R : α → β → Prop) : List (RoseTree α) → List (RoseTree β) → Prop
  | nil : Related R [] []
  | leaf {a : α} {b : β} {ts : List (RoseTree α)} {us : List (RoseTree β)} (value : R a b) (rest : Related R ts us) :
      Related R (node a none :: ts) (node b none :: us)
  | branch {a : α} {b : β} {cs ts : List (RoseTree α)} {ds us : List (RoseTree β)} (value : R a b)
      (children : Related R cs ds) (rest : Related R ts us) : Related R (node a (some cs) :: ts) (node b (some ds) :: us)

variable {R : α → β → Prop} {ts : List (RoseTree α)} {us : List (RoseTree β)}

theorem Related.eq {us : List (RoseTree α)} (h : Related (fun a b => b = a) ts us) : us = ts := by
  induction h with
  | nil => rfl
  | leaf value _ ih => rw [value, ih]
  | branch value _ _ ihc ih => rw [value, ihc, ih]

/-- The second forest beside itself. -/
theorem Related.diagonal (h : Related R ts us) : Related (fun b b' => b' = b ∧ ∃ a, R a b) us us := by
  induction h with
  | nil => exact .nil
  | leaf value _ ih => exact .leaf ⟨rfl, _, value⟩ ih
  | branch value _ _ ihc ih => exact .branch ⟨rfl, _, value⟩ ihc ih

theorem Related.comp {S : β → γ → Prop} {T : α → γ → Prop} {vs : List (RoseTree γ)} (h : Related R ts us) (h' : Related S us vs)
    (hT : ∀ a b c, R a b → S b c → T a c) : Related T ts vs := by
  induction h generalizing vs with
  | nil =>
    cases h'
    exact .nil
  | leaf value _ ih =>
    obtain _ | ⟨value', rest'⟩ := h'
    exact .leaf (hT _ _ _ value value') (ih rest')
  | branch value _ _ ihc ih =>
    obtain _ | _ | ⟨value', children', rest'⟩ := h'
    exact .branch (hT _ _ _ value value') (ihc children') (ih rest')

/-- Each value beside itself, with what is known of it. -/
theorem related_self {P : α → Prop} (ts : List (RoseTree α)) (h : ∀ a ∈ values ts, P a) :
    Related (fun a b => b = a ∧ P a) ts ts := by
  induction ts using forest_induction with
  | nil => exact .nil
  | cons value children rest ihc ihr =>
    have hvalue : P value := h value (by simp)
    have hrest := ihr fun a ha => h a (by simp [ha])
    cases children with
    | none => exact .leaf ⟨rfl, hvalue⟩ hrest
    | some children => exact .branch ⟨rfl, hvalue⟩ (ihc fun a ha => h a (by simp_all)) hrest

/-- A traversal that succeeds has made each value by a step that succeeded; the state moves on, and ends as the final one. -/
theorem traverse_ok (le : σ → σ → Prop) [IsPreorder σ le] {f : β → Step σ ε γ} {Q : α → γ → Prop} {i e : σ}
    (hf : ∀ a b, R a b → ∀ s, le i s → ∀ c t, f b s = .ok (c, t) → le s t ∧ (le t e → Q a c)) (h : Related R ts us) :
    ∀ {vs : List (RoseTree γ)} {s t : σ}, le i s → traverse f us s = .ok (vs, t) →
      le s t ∧ (le t e → Related Q ts vs) := by
  induction h with
  | nil =>
    intro vs s t _ h
    obtain ⟨rfl, rfl⟩ := run_pure_ok_iff.mp (by rwa [traverse] at h)
    exact ⟨refl_of le _, fun _ => .nil⟩
  | leaf value _ ih =>
    intro vs s t hs h
    simp only [traverse, traverseTree, run_bind_ok_iff, run_pure_ok_iff] at h
    obtain ⟨_, s₁, ⟨c, _, hc, rfl, rfl⟩, ws, s₂, hrest, rfl, rfl⟩ := h
    obtain ⟨hle, hq⟩ := hf _ _ value s hs c _ hc
    obtain ⟨hle', hws⟩ := ih (trans_of le hs hle) hrest
    exact ⟨trans_of le hle hle', fun hfinal => .leaf (hq (trans_of le hle' hfinal)) (hws hfinal)⟩
  | branch value _ _ ihc ih =>
    intro vs s t hs h
    simp only [traverse, traverseTree, run_bind_ok_iff, run_pure_ok_iff] at h
    obtain ⟨_, s₁, ⟨c, s₂, hc, cs, s₃, hbelow, rfl, rfl⟩, ws, s₄, hrest, rfl, rfl⟩ := h
    obtain ⟨hle, hq⟩ := hf _ _ value s hs c _ hc
    obtain ⟨hle₁, hcs⟩ := ihc (trans_of le hs hle) hbelow
    obtain ⟨hle₂, hws⟩ := ih (trans_of le (trans_of le hs hle) hle₁) hrest
    refine ⟨trans_of le hle (trans_of le hle₁ hle₂), fun hfinal => ?_⟩
    exact .branch (hq (trans_of le hle₁ (trans_of le hle₂ hfinal))) (hcs (trans_of le hle₂ hfinal)) (hws hfinal)

theorem traverse_read {f : α → Step σ ε β} {s : σ} (hf : ∀ a b t, f a s = .ok (b, t) → t = s) {us : List (RoseTree β)} {t : σ}
    (h : traverse f ts s = .ok (us, t)) : t = s ∧ Related (fun a b => f a s = .ok (b, s)) ts us := by
  obtain ⟨rfl, hrel⟩ := traverse_ok (· = ·) (e := t) (i := s) (Q := fun a b => f a s = .ok (b, s))
    (fun a b ⟨hab, _⟩ s' hs c t h => by
      subst hab hs
      obtain rfl := hf _ _ _ h
      exact ⟨rfl, fun _ => h⟩)
    (related_self ts fun _ _ => trivial) rfl h
  exact ⟨rfl, hrel rfl⟩

/-- A traversal whose steps all succeed and leave the state as it is. -/
theorem traverse_total {f : β → Step σ ε γ} {s : σ} {S : α → γ → Prop}
    (hf : ∀ a b, R a b → ∃ c, f b s = .ok (c, s) ∧ S a c) (h : Related R ts us) :
    ∃ vs, traverse f us s = .ok (vs, s) ∧ Related S ts vs := by
  induction h with
  | nil => exact ⟨[], by rw [traverse]; rfl, .nil⟩
  | leaf value _ ih =>
    obtain ⟨c, hc, hs⟩ := hf _ _ value
    obtain ⟨vs, hvs, hrest⟩ := ih
    refine ⟨_, ?_, .leaf hs hrest⟩
    simp only [traverse, traverseTree, run_bind_ok_iff, run_pure_ok_iff]
    exact ⟨_, s, ⟨c, s, hc, rfl, rfl⟩, vs, s, hvs, rfl, rfl⟩
  | branch value _ _ ihc ih =>
    obtain ⟨c, hc, hs⟩ := hf _ _ value
    obtain ⟨ws, hws, hchildren⟩ := ihc
    obtain ⟨vs, hvs, hrest⟩ := ih
    refine ⟨_, ?_, .branch hs hchildren hrest⟩
    simp only [traverse, traverseTree, run_bind_ok_iff, run_pure_ok_iff]
    exact ⟨_, s, ⟨c, s, hc, ws, s, hws, rfl, rfl⟩, vs, s, hvs, rfl, rfl⟩

end RoseTree

end Lib
