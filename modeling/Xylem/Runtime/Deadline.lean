import Mathlib.Order.Lattice.Nat
import Xylem.Runtime.Timer

namespace Xylem.Runtime

open SchedulerTimer UInt64

/-- The functions that make a deadline of a relative timeout. -/
inductive TimeoutCaller
  | channelCoro
  | channelThrd
  | streamDial
  | streamDialUnix
  | wsHandshake
  | timerStart

namespace TimeoutCaller

/-- The deadline at the time `now`. `xylem_channel_recv_timeout` starts a timer in a coroutine and counts by itself in
a thread. -/
def deadline (now timeoutMs : UInt64) : TimeoutCaller → UInt64
  | .channelCoro | .timerStart => deadlineAt now timeoutMs
  | .channelThrd => now + timeoutMs
  | .streamDial =>
    if timeoutMs > 0 then if timeoutMs ≥ uint64Max - now then uint64Max else now + timeoutMs else 0
  | .streamDialUnix => if timeoutMs > 0 then now + timeoutMs else 0
  | .wsHandshake => now + if timeoutMs != 0 then timeoutMs else 10000

/-- The sum is made without a look at the range of the clock. -/
def wraps : TimeoutCaller → Bool
  | .channelThrd | .streamDialUnix | .wsHandshake => true
  | _ => false

variable {now timeoutMs : UInt64}

theorem left_toNat (now : UInt64) : (uint64Max - now).toNat = uint64Max.toNat - now.toNat :=
  UInt64.toNat_sub_of_le _ _ (le_iff_toNat_le.mpr (Nat.le_of_lt_succ now.toNat_lt))

theorem deadline_toNat (caller : TimeoutCaller) (pos : 0 < timeoutMs) : (caller.deadline now timeoutMs).toNat =
    if caller.wraps then (now.toNat + timeoutMs.toNat) % 2 ^ 64 else min (now.toNat + timeoutMs.toNat) uint64Max.toNat := by
  have clock := now.toNat_lt
  have top : uint64Max.toNat = 2 ^ 64 - 1 := rfl
  have some_ : (timeoutMs != 0) = true := bne_iff_ne.mpr fun zero => by simp [zero] at pos
  rw [lt_iff_toNat_lt] at pos
  cases caller <;>
    simp only [deadline, deadlineAt, wraps, if_pos pos, if_pos some_, apply_ite UInt64.toNat, UInt64.toNat_add,
      gt_iff_lt, ge_iff_le, lt_iff_toNat_lt, le_iff_toNat_le, left_toNat, if_true, Bool.false_eq_true, if_false]
  case channelCoro | timerStart | streamDial => split <;> omega

end TimeoutCaller

/-- A deadline is not early, and later for a longer timeout, exactly if its caller saturates or the sum is within the
clock. A timer that is firing makes its deadline when the fire is over. -/
theorem timeouts_saturate_iff (now timeoutMs : UInt64) (pos : 0 < timeoutMs) : (∀ caller : TimeoutCaller,
      now.toNat + min timeoutMs.toNat (2 ^ 64 - 1 - now.toNat) ≤ (caller.deadline now timeoutMs).toNat ∧
        (∀ less, 0 < less → less ≤ timeoutMs → caller.deadline now less ≤ caller.deadline now timeoutMs) ↔
      caller.wraps = false ∨ now.toNat + timeoutMs.toNat < 2 ^ 64) ∧
    ∀ (timer : SchedulerTimer) repeatMs, (timer.state ≠ .firing →
        (timer.start now timeoutMs repeatMs).timeout = TimeoutCaller.timerStart.deadline now timeoutMs) ∧
      (timer.state = .firing → timer.stopPending = false → ∀ before,
        ((timer.start before timeoutMs repeatMs).finishFire now).timeout =
          TimeoutCaller.timerStart.deadline now timeoutMs) := by
  have top : uint64Max.toNat = 2 ^ 64 - 1 := rfl
  have clock := now.toNat_lt
  have range := timeoutMs.toNat_lt
  refine ⟨fun caller => ?_, fun timer repeatMs => ⟨fun idle => ?_, fun firing going before => ?_⟩⟩
  · rw [caller.deadline_toNat pos]
    constructor
    · rintro ⟨late, -⟩
      by_contra wraps
      simp only [not_or, Bool.not_eq_false] at wraps
      rw [if_pos wraps.1] at late
      omega
    · intro fits
      refine ⟨?_, fun less some_ shorter => ?_⟩
      · split
        · rename_i wraps
          have := fits.resolve_left (by simp [wraps])
          omega
        · omega
      · have shorter := UInt64.le_iff_toNat_le.mp shorter
        rw [UInt64.le_iff_toNat_le, caller.deadline_toNat pos, caller.deadline_toNat some_]
        split
        · rename_i wraps
          have := fits.resolve_left (by simp [wraps])
          omega
        · omega
  · simp only [start, schedule, arm, settle]
    split
    · exact absurd ‹_› idle
    all_goals rfl
  · simp [start, schedule, arm, settle, finishFire, firing, going, TimeoutCaller.deadline]

theorem timeouts_saturate_short : (TimeoutCaller.channelThrd.deadline 5 7).toNat = 12 := by
  have late := (((timeouts_saturate_iff 5 7 (by decide)).1 .channelThrd).mpr (Or.inr (by decide))).1
  exact Nat.le_antisymm (by decide) late

/-- A thread that waits for nearly the whole range of the clock is late from the start. -/
theorem timeouts_wrap : TimeoutCaller.channelThrd.deadline 5 (uint64Max - 1) < 5 ∧
    TimeoutCaller.streamDialUnix.deadline 5 (uint64Max - 1) < 5 ∧
    TimeoutCaller.wsHandshake.deadline 5 (uint64Max - 1) < 5 := by decide

end Xylem.Runtime
