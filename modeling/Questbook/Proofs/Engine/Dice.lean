/-
Questbook/Proofs/Engine/Dice.lean

The numbers that dice show.

The dice are not part of the engine: they may show what they like, as long as each number is at
least zero and below one.  Under a chance that is not strictly between the two this makes no
difference, since none of these numbers is above zero where the chance is not, and all of them are
below it where it is.

Main result: `Dice.lt_iff`.
-/
import Mathlib
import Questbook.Engine.State
import Questbook.Proofs.Decimal.Signs

namespace Questbook.Dice

open Float.Model Float.Model.UnpackedFloat

variable {x limit : Float}

/-- Each number that the dice show is at least zero and below one. -/
def InRange (d : Dice) : Prop := ∀ roll, 0 ≤ d roll ∧ d roll < 1

theorem InRange.rest {d : Dice} (h : d.InRange) : d.rest.InRange := fun roll => h (roll + 1)

/-- A chance that is not strictly between zero and one is above every number in the range of the
dice, if it is positive, and above none of them, if it is not. -/
theorem lt_iff (hx : 0 ≤ x ∧ x < 1) (hlimit : ¬ (0 < limit ∧ limit < 1)) :
    x < limit ↔ 0 < limit := by
  have hzero : (0 : Float).toModel.unpack = .zero .positive := rfl
  have hone : (1 : Float).toModel.unpack = .finite .positive (2 ^ 52) (-52) (by norm_num) := rfl
  rw [Signs.le_iff, Signs.lt_iff, hzero, hone] at hx
  rw [Signs.lt_iff, Signs.lt_iff, hzero, hone] at hlimit
  rw [Signs.lt_iff, Signs.lt_iff, hzero]
  generalize x.toModel.unpack = u at hx ⊢
  generalize limit.toModel.unpack = v at hlimit ⊢
  obtain ⟨hle, hlt⟩ := hx
  cases u with
  | notANumber => cases hle
  | infinity s =>
    cases s with
    | positive => exact absurd hlt Bool.false_ne_true
    | negative => exact absurd hle Bool.false_ne_true
  | zero s => rw [Signs.zero_lt s .positive]
  | finite s a e ha =>
    cases s with
    | negative => cases hle
    | positive =>
      cases v with
      | notANumber => rfl
      | infinity t => cases t <;> rfl
      | zero t => rfl
      | finite t m f hm =>
        cases t with
        | negative => rfl
        | positive =>
          -- The limit is one or more, and what is shown is less.
          have hpositive : (zero .positive).lt (finite .positive m f hm) = true := rfl
          rw [Signs.positive_lt_iff] at hlt hlimit ⊢
          refine iff_of_true ?_ hpositive
          by_contra hnot
          exact hlimit ⟨hpositive, by omega⟩

end Questbook.Dice
