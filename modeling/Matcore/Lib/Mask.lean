import Mathlib.Data.Nat.Notation
import Mathlib.Logic.Basic

/-!
# Masks

A mask covers another when it has all of its bits; a single bit is covered when it is set.
-/

namespace Mask

variable {w : ℕ} {mask a b : BitVec w} {i : ℕ}

/-- Every bit of `required` is set. -/
def Covers (mask required : BitVec w) : Prop := mask &&& required = required

instance (mask required : BitVec w) : Decidable (Covers mask required) :=
  inferInstanceAs (Decidable (mask &&& required = required))

theorem covers_iff :
    Covers mask a ↔ ∀ i, a.getLsbD i = true → mask.getLsbD i = true := by
  unfold Covers
  constructor
  · intro h i hi
    rw [← h, BitVec.getLsbD_and, Bool.and_eq_true] at hi
    exact hi.1
  · intro h
    refine BitVec.eq_of_getLsbD_eq fun i _ => ?_
    rw [BitVec.getLsbD_and]
    cases ha : a.getLsbD i with
    | true => rw [h i ha, Bool.and_true]
    | false => rw [Bool.and_false]

theorem covers_or : Covers mask (a ||| b) ↔ Covers mask a ∧ Covers mask b := by
  simp only [covers_iff, BitVec.getLsbD_or, Bool.or_eq_true]
  constructor
  · exact fun h => ⟨fun i hi => h i (Or.inl hi), fun i hi => h i (Or.inr hi)⟩
  · rintro ⟨ha, hb⟩ i (hi | hi)
    · exact ha i hi
    · exact hb i hi

/-- A bit that is not masked out is set. -/
theorem covers_bit (hw : i < w) :
    Covers mask (BitVec.twoPow w i) ↔ mask &&& BitVec.twoPow w i ≠ 0 := by
  have hpow : BitVec.twoPow w i ≠ 0 := by
    intro h
    have hbit := congrArg (fun x => x.getLsbD i) h
    simp [hw] at hbit
  unfold Covers
  rw [BitVec.and_twoPow]
  split
  · exact iff_of_true rfl hpow
  · exact iff_of_false (fun h => hpow h.symm) (fun h => h rfl)

end Mask
