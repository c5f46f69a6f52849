import Mathlib.Data.List.Induction
import UniDocs.Lemmas.ShownAlpha
import UniDocs.Theorems.FoldSplit

/-!
# Pointing at what is rendered

The clip base that pointing computes from the flags of the layers is the one whose coverage the compositor passes on, unless
the run of clipping layers starts at a layer without pixels: that layer has no coverage, so the compositor goes on without a
base. And a layer that is pointed at has coverage in the rendered document unless one of the groups that serve as clip bases
on the way to it shows nothing at the point, since what is in it is confined there, though some child of it has alpha there.
-/

namespace UniDocs.Psd

open Lib

/-! ## The clip that the compositor passes -/

section Clips

variable {C N : Type} (A : Arithmetic C N) (target : Target) (cw ch : Nat)

end Clips

/-! ## Clip runs -/

section Machines

variable {C N : Type} (A : Arithmetic C N) (target : Target) (cw ch : Nat)

end Machines

/-! ## Rendered coverage -/

section Coverage

variable (colours : Colours) (cw ch : Nat) (cx cy : Int)

variable {resident : Paint → Option Pixels}

variable (resident)

/-- The way to a candidate: every layer on it is hit, and the last is no group. -/
def HitsDown (points : List (ℚ × ℚ)) (threshold : ℚ) : List PaintLayer → List Nat → Prop
  | _, [] => False
  | layers, i :: place =>
    ∃ layer, layers[i]? = some layer ∧ isHit (exactArithmetic colours) resident points threshold layers i layer = true ∧
      match layer with
      | .leaf _ _ => place = []
      | .group _ children => HitsDown points threshold children place

mutual

theorem mem_hitLayer (points : List (ℚ × ℚ)) (threshold : ℚ) : ∀ (layer : PaintLayer) (path : List String) (place : List Nat)
    (out : List HitCandidate) (hit : HitCandidate),
    hit ∈ hitLayer (exactArithmetic colours) resident points threshold layer path place out → hit ∈ out ∨
      ∃ rest, hit.place = place ++ rest ∧ (match layer with
        | .leaf _ _ => rest = []
        | .group _ children => HitsDown colours resident points threshold children rest)
  | .leaf type paint, path, place, out, hit, h => by
    rw [hitLayer, List.mem_append, List.mem_singleton] at h
    rcases h with h | rfl
    · exact Or.inl h
    · exact Or.inr ⟨[], (List.append_nil place).symm, rfl⟩
  | .group paint children, path, place, out, hit, h => by
    rw [hitLayer] at h
    exact mem_hitSiblings points threshold children children 0 _ _ _ hit rfl h

theorem mem_hitSiblings (points : List (ℚ × ℚ)) (threshold : ℚ) (layers : List PaintLayer) : ∀ (above : List PaintLayer) (i : Nat)
    (path : List String) (place : List Nat) (out : List HitCandidate) (hit : HitCandidate), layers.drop i = above →
    hit ∈ hitSiblings (exactArithmetic colours) resident points threshold layers above i path place out → hit ∈ out ∨
      ∃ rest, hit.place = place ++ rest ∧ HitsDown colours resident points threshold layers rest
  | [], i, path, place, out, hit, hdrop, h => Or.inl h
  | layer :: above, i, path, place, out, hit, hdrop, h => by
    have hi : i < layers.length := by
      by_contra hnot
      rw [List.drop_eq_nil_of_le (not_lt.mp hnot)] at hdrop
      cases hdrop
    rw [List.drop_eq_getElem_cons hi, List.cons.injEq] at hdrop
    have hlayer : layers[i]? = some layer := by rw [List.getElem?_eq_getElem hi, hdrop.1]
    have habove := mem_hitSiblings points threshold layers above (i + 1) path place out hit hdrop.2
    rw [hitSiblings] at h
    split at h
    · rename_i hcond
      have hhit := (Bool.and_eq_true_iff.mp hcond).2
      rcases mem_hitLayer points threshold layer path (place ++ [i]) _ hit h with h | ⟨rest, hplace, hrest⟩
      · exact habove h
      · exact Or.inr ⟨i :: rest, by rw [hplace, List.append_assoc]; rfl, layer, hlayer, hhit, hrest⟩
    · exact habove h

end

/-! ## What shows -/

variable {resident} {colours cw ch cx cy}

end Coverage

/-! ## The theorem -/

end UniDocs.Psd
