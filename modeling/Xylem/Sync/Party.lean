import Mathlib.Logic.Function.Basic

namespace Xylem.Sync

/-- `_waiter_kind_t`: what kind of party calls a primitive. -/
inductive Kind
  | coro
  | thrd
  deriving DecidableEq

/-- The token counts of the threads' wake objects (`thrd_wake_t.count`). -/
abbrev Tokens (ι : Type*) := ι → Nat

variable {ι : Type*} [DecidableEq ι] (tokens : Tokens ι) (i : ι)

def thrdWakeSignal : Tokens ι := Function.update tokens i (tokens i + 1)

theorem thrdWakeSignal_apply (i j : ι) :
    thrdWakeSignal tokens i j = if j = i then tokens i + 1 else tokens j := Function.update_apply ..

/-- `_thrd_wake_try`: the compare-and-swap loop as one read-modify-write. -/
def thrdWakeTry : Option (Tokens ι) :=
  if tokens i = 0 then none else some (Function.update tokens i (tokens i - 1))

theorem thrdWakeTry_eq_some {tokens tokens' : Tokens ι} {i : ι} :
    thrdWakeTry tokens i = some tokens' ↔ 0 < tokens i ∧ tokens' = Function.update tokens i (tokens i - 1) := by
  unfold thrdWakeTry
  split <;> simp_all [Nat.pos_iff_ne_zero, eq_comm]

end Xylem.Sync
