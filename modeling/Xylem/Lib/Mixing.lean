import Mathlib.Logic.Function.Basic

namespace Xylem.Lib

open BitVec

/-- A word xored with itself shifted down: each bit is found from those above it. -/
theorem xorShift_injective {w k : Nat} (pos : 0 < k) : Function.Injective fun x : BitVec w => x ^^^ x >>> k := by
  intro x y same
  -- Induction on the distance from the top, since a bit is xored with one `k` above it.
  have above : ∀ n i, w ≤ i + n → x.getLsbD i = y.getLsbD i := by
    intro n
    induction n with
    | zero =>
      intro i out
      rw [getLsbD_of_ge x i out, getLsbD_of_ge y i out]
    | succ n ih =>
      intro i near
      have bit := congrArg (fun v => v.getLsbD i) same
      simpa [ih (k + i) (by omega)] using bit
  exact eq_of_getLsbD_eq fun i _ => above w i (by omega)

theorem xorShift64_injective (k : UInt64) (pos : 0 < k.toNat % 64) :
    Function.Injective fun x : UInt64 => x ^^^ x >>> k := by
  intro x y same
  apply UInt64.toBitVec_inj.mp
  apply xorShift_injective pos
  simpa [← UInt64.toBitVec_inj] using same

theorem mul64_injective {c : UInt64} (d : UInt64) (unit : c * d = 1) : Function.Injective fun x : UInt64 => x * c := by
  intro x y same
  have back := congrArg (· * d) same
  simpa only [UInt64.mul_assoc, unit, UInt64.mul_one] using back

/-- The byte of a word that starts at bit `k`, at its place. -/
def byteAt {w : Nat} (x : BitVec w) (k : Nat) : BitVec w := ((x >>> k).setWidth 8).setWidth w <<< k

theorem getElem_byteAt {w i : Nat} (x : BitVec w) (k : Nat) (inside : i < w) :
    (byteAt x k)[i] = (decide (k ≤ i ∧ i < k + 8) && x[i]) := by
  by_cases low : k ≤ i <;> by_cases high : i < k + 8 <;> simp [byteAt, *] <;> grind

end Xylem.Lib
