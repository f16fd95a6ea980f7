import Mathlib.Algebra.Order.Field.Basic
import Mathlib.Tactic.Linarith
import Mathlib.Tactic.Ring

/-!
# Weighted votes

A motion passes when the weight in its favour is a given share of the weight of all votes. Votes
that are still missing cannot change this when it passes with all of them against it, or fails with
all of them in its favour.
-/

namespace WeightedVotes

variable {𝕜 : Type} [Field 𝕜] [LinearOrder 𝕜] [IsStrictOrderedRing 𝕜]

/-- The weight `a` out of a positive weight `t` reaches the share `θ`. -/
def Passes (θ a t : 𝕜) : Prop := 0 < t ∧ θ * t ≤ a

variable {θ a t u x y : 𝕜}

/-- A motion that passes would pass with everything that is missing in its favour. -/
theorem Passes.best (h : Passes θ (a + x) (t + x + y)) (hθ : θ ≤ 1) (hxy : x + y ≤ u) (hy : 0 ≤ y) :
    Passes θ (a + u) (t + u) := by
  obtain ⟨hpos, hshare⟩ := h
  have hle : θ * (u - x - y) ≤ u - x - y := mul_le_of_le_one_left (by linarith) hθ
  have hsplit : θ * (t + u) = θ * (t + x + y) + θ * (u - x - y) := by ring
  exact ⟨by linarith, by linarith⟩

end WeightedVotes
