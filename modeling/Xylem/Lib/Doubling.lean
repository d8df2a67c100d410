import Mathlib.Algebra.Group.Nat.Defs
import Mathlib.Data.Nat.Log

namespace Xylem.Lib

/-- The loop `while (cap < needed) cap *= 2`, for at most the given number of rounds. -/
def doubling : Nat → Nat → Nat → Nat
  | 0, cap, _ => cap
  | rounds + 1, cap, needed => if cap < needed then doubling rounds (cap * 2) needed else cap

variable {rounds cap needed bound : Nat}

theorem self_le_doubling (rounds cap needed : Nat) : cap ≤ doubling rounds cap needed := by
  induction rounds generalizing cap with
  | zero => exact Nat.le_refl _
  | succ rounds ih =>
    unfold doubling
    split
    · exact Nat.le_trans (by omega) (ih _)
    · exact Nat.le_refl _

/-- The loop stays below twice what is needed, or does nothing. -/
theorem doubling_le (rounds cap needed : Nat) : doubling rounds cap needed ≤ max cap (2 * needed) := by
  induction rounds generalizing cap with
  | zero => exact Nat.le_max_left _ _
  | succ rounds ih =>
    unfold doubling
    split
    · exact Nat.le_trans (ih _) (by omega)
    · exact Nat.le_max_left _ _

theorem mul_pow_le_iff {k : Nat} (pos : 0 < cap) (within : cap ≤ bound) :
    cap * 2 ^ k ≤ bound ↔ k ≤ Nat.log 2 (bound / cap) := by
  rw [Nat.le_log_iff_pow_le (by decide) (Nat.div_pos within pos).ne', Nat.le_div_iff_mul_le pos, Nat.mul_comm]

section

variable (enough : needed ≤ cap * 2 ^ rounds)
include enough

/-- The loop ends at the first of the doublings that is enough, if it has the rounds for it. -/
theorem doubling_eq : ∃ k, doubling rounds cap needed = cap * 2 ^ k ∧ needed ≤ cap * 2 ^ k ∧
      ∀ j, needed ≤ cap * 2 ^ j → k ≤ j := by
  induction rounds generalizing cap with
  | zero => exact ⟨0, by simp [doubling], enough, fun _ _ => Nat.zero_le _⟩
  | succ rounds ih =>
    unfold doubling
    split
    · rename_i short
      obtain ⟨k, eq, fits, least⟩ := ih (show needed ≤ cap * 2 * 2 ^ rounds by rwa [Nat.mul_assoc, ← Nat.pow_succ'])
      refine ⟨k + 1, ?_, ?_, fun j fitsJ => ?_⟩
      · rw [eq, Nat.mul_assoc, ← Nat.pow_succ']
      · rwa [Nat.pow_succ', ← Nat.mul_assoc]
      · cases j with
        | zero => omega
        | succ j =>
          rw [Nat.pow_succ', ← Nat.mul_assoc] at fitsJ
          exact Nat.succ_le_succ (least j fitsJ)
    · exact ⟨0, by simp, by simpa using Nat.not_lt.mp ‹_›, fun _ _ => Nat.zero_le _⟩

theorem le_doubling : needed ≤ doubling rounds cap needed := by
  obtain ⟨k, eq, fits, -⟩ := doubling_eq enough
  rwa [eq]

/-- The largest doubling of `cap` within `bound`. -/
def roomiest (cap bound : Nat) : Nat := cap * 2 ^ Nat.log 2 (bound / cap)

/-- The loop stays within a bound exactly if the largest doubling within it is enough. -/
theorem doubling_le_iff (pos : 0 < cap) (within : cap ≤ bound) :
    doubling rounds cap needed ≤ bound ↔ needed ≤ roomiest cap bound := by
  obtain ⟨k, eq, fits, least⟩ := doubling_eq enough
  rw [eq, mul_pow_le_iff pos within]
  constructor
  · intro le
    exact fits.trans (Nat.mul_le_mul_left _ (Nat.pow_le_pow_right (by decide) le))
  · exact least _

end

end Xylem.Lib
