import Mathlib.Order.Lattice.Nat

namespace Xylem.Container

open Nat UInt64

/-- `xylem_ringbuf_t`. -/
structure Ringbuf where
  buf : List UInt8
  wpos : UInt64
  rpos : UInt64
  mask : UInt32
  esz : UInt32

def ringbufRounddownPow2 (n : UInt32) : UInt32 :=
  if n = 0 then 0
  else
    let n := n ||| n >>> 1
    let n := n ||| n >>> 2
    let n := n ||| n >>> 4
    let n := n ||| n >>> 8
    let n := n ||| n >>> 16
    (n + 1) >>> 1

def uint32Max : UInt64 := 0xFFFFFFFF

variable (esize bufsize : UInt64)

def xylemRingbufCreate : Option Ringbuf :=
  if esize = 0 ∨ bufsize < esize then none
  else if esize > uint32Max then none
  else
    let elemCount := bufsize / esize
    if elemCount = 0 then none
    else
      let elemCount := if elemCount > uint32Max then uint32Max else elemCount
      let cap := ringbufRounddownPow2 elemCount.toUInt32
      if cap = 0 then none
      else some ⟨List.replicate (cap.toUInt64 * esize).toNat 0, 0, 0, cap - 1, esize.toUInt32⟩

def Ringbuf.xylemRingbufCap (ring : Ringbuf) : UInt64 := (ring.mask + 1).toUInt64

/-- Bit `i` of `m` is set if one of the `k` bits of `n` from `i` on is. -/
def Smeared (n k m : Nat) : Prop := ∀ i, m.testBit i = true ↔ ∃ j < k, n.testBit (i + j) = true

theorem Smeared.double {n k m : Nat} (smeared : Smeared n k m) : Smeared n (2 * k) (m ||| m >>> k) := by
  intro i
  rw [testBit_or, testBit_shiftRight, Bool.or_eq_true, smeared i, smeared (k + i)]
  constructor
  · rintro (⟨j, lt, set⟩ | ⟨j, lt, set⟩)
    · exact ⟨j, by omega, set⟩
    · exact ⟨k + j, by omega, by rwa [show i + (k + j) = k + i + j by omega]⟩
  · rintro ⟨j, lt, set⟩
    by_cases low : j < k
    · exact Or.inl ⟨j, low, set⟩
    · exact Or.inr ⟨j - k, by omega, by rwa [show k + i + (j - k) = i + j by omega]⟩

theorem Smeared.eq {n m : Nat} (smeared : Smeared n 32 m) (pos : n ≠ 0) (small : n < 2 ^ 32) :
    m = 2 ^ (n.log2 + 1) - 1 := by
  apply eq_of_testBit_eq
  intro i
  rw [testBit_two_pow_sub_one, Bool.eq_iff_iff, smeared i, decide_eq_true_iff]
  constructor
  · rintro ⟨j, -, set⟩
    have := (le_log2 pos).mpr (ge_two_pow_of_testBit set)
    omega
  · intro below
    have top := (log2_lt pos).mpr small
    exact ⟨n.log2 - i, by omega, by rw [show i + (n.log2 - i) = n.log2 by omega]; exact testBit_log2 pos⟩

/-- The sum overflows for the numbers with the top bit. -/
theorem ringbufRounddownPow2_toNat {n : UInt32} (pos : n ≠ 0) :
    (ringbufRounddownPow2 n).toNat = if n.toNat < 2 ^ 31 then 2 ^ n.toNat.log2 else 0 := by
  have nonzero : n.toNat ≠ 0 := fun zero => pos (UInt32.toNat_inj.mp zero)
  have first : Smeared n.toNat 1 n.toNat := fun i => by simp
  have smeared := first.double.double.double.double.double.eq nonzero n.toNat_lt
  have top := (log2_lt nonzero).mpr n.toNat_lt
  have half : n.toNat < 2 ^ 31 ↔ n.toNat.log2 < 31 := (log2_lt nonzero).symm
  rw [ringbufRounddownPow2, if_neg pos]
  simp only [UInt32.toNat_shiftRight, UInt32.toNat_add, UInt32.toNat_or, UInt32.reduceToNat, Nat.reduceMod,
    Nat.reduceMul, Nat.mul_one] at smeared ⊢
  rw [smeared, Nat.sub_add_cancel Nat.one_le_two_pow, shiftRight_one]
  split
  · rename_i lt
    have lt := half.mp lt
    rw [mod_eq_of_lt (Nat.pow_lt_pow_right (by decide) (by omega)), Nat.pow_succ, Nat.mul_div_cancel _ (by decide)]
  · rename_i ge
    have ge := mt half.mpr ge
    rw [show n.toNat.log2 + 1 = 32 by omega]

/-- How many entries the buffer of a ring has room for. -/
def ringbufCount : Nat := min (bufsize.toNat / esize.toNat) (2 ^ 32 - 1)

theorem xylemRingbufCreate_eq {esize bufsize : UInt64} (pos : 0 < esize) (small : esize ≤ uint32Max)
    (room : esize ≤ bufsize) : ∃ n : UInt32, n.toNat = ringbufCount esize bufsize ∧ n ≠ 0 ∧
      xylemRingbufCreate esize bufsize =
        let cap := ringbufRounddownPow2 n
        if cap = 0 then none
        else some ⟨List.replicate (cap.toUInt64 * esize).toNat 0, 0, 0, cap - 1, esize.toUInt32⟩ := by
  have pos' := lt_iff_toNat_lt.mp pos
  have room' := le_iff_toNat_le.mp room
  have quotient : (bufsize / esize).toNat = bufsize.toNat / esize.toNat := UInt64.toNat_div _ _
  have one : 1 ≤ bufsize.toNat / esize.toNat := (Nat.one_le_div_iff pos').mpr room'
  have some_ : bufsize / esize ≠ 0 := fun zero => by simp [zero] at quotient; omega
  have counts : (if bufsize / esize > uint32Max then uint32Max else bufsize / esize).toUInt32.toNat =
      ringbufCount esize bufsize := by
    have top : uint32Max.toNat = 2 ^ 32 - 1 := rfl
    simp only [toNat_toUInt32, ringbufCount, ← quotient, apply_ite UInt64.toNat, gt_iff_lt, lt_iff_toNat_lt]
    split <;> omega
  refine ⟨_, counts, fun zero => ?_, ?_⟩
  · rw [zero] at counts
    have : ringbufCount esize bufsize = 0 := counts.symm
    unfold ringbufCount at this
    omega
  · have nonzero : ¬(esize = 0 ∨ bufsize < esize) := by
      rw [lt_iff_toNat_lt, ← UInt64.toNat_inj]
      exact not_or.mpr ⟨Nat.ne_of_gt pos', by omega⟩
    rw [xylemRingbufCreate, if_neg nonzero, if_neg (UInt64.not_lt.mpr small), if_neg some_]

/-- The capacity is the largest power of two that the buffer has room for, if that is below `2 ^ 31`; from there on
nothing is created. -/
theorem ringbuf_capacity_iff {esize bufsize : UInt64} (pos : 0 < esize) (small : esize ≤ uint32Max)
    (room : esize ≤ bufsize) :
    (∃ ring k, xylemRingbufCreate esize bufsize = some ring ∧ ring.xylemRingbufCap.toNat = 2 ^ k ∧
      2 ^ k ≤ ringbufCount esize bufsize ∧ ringbufCount esize bufsize < 2 ^ (k + 1)) ↔
    ringbufCount esize bufsize < 2 ^ 31 := by
  obtain ⟨n, counts, nonzero, created⟩ := xylemRingbufCreate_eq pos small room
  have cap := ringbufRounddownPow2_toNat nonzero
  have some_ : n.toNat ≠ 0 := fun zero => nonzero (UInt32.toNat_inj.mp zero)
  rw [created, ← counts]
  constructor
  · rintro ⟨ring, k, is, -, -, -⟩
    by_contra large
    rw [if_neg large] at cap
    rw [if_pos (UInt32.toNat_inj.mp cap)] at is
    cases is
  · intro fits
    rw [if_pos fits] at cap
    have positive : ringbufRounddownPow2 n ≠ 0 := fun zero => by
      rw [zero] at cap
      exact absurd cap.symm (Nat.two_pow_pos _).ne'
    refine ⟨_, n.toNat.log2, if_neg positive, ?_, Nat.log2_self_le some_, Nat.lt_log2_self⟩
    simp [Ringbuf.xylemRingbufCap, cap]

theorem ringbuf_capacity_bytes : ∃ ring k, xylemRingbufCreate 1 5 = some ring ∧
    ring.xylemRingbufCap.toNat = 2 ^ k ∧ 2 ^ k ≤ ringbufCount 1 5 ∧ ringbufCount 1 5 < 2 ^ (k + 1) :=
  (ringbuf_capacity_iff (by decide) (by decide) (by decide)).mpr (by decide)

theorem ringbuf_large_refused : xylemRingbufCreate 1 0x80000000 = none := by decide

end Xylem.Container
