import Xylem.Sync.Mutex

namespace Xylem.Sync.Mutex

open State Option

variable {ι : Type*} (kind : ι → Kind) (i : ι)

/-- The outcomes of `_mutex_try_take`: where the call goes on with the lock, and where without it. -/
inductive Pc.Tries : Pc ι → Pc ι → Pc ι → Prop
  | lockCoro : kind i = .coro → Tries .lock .out .commit
  | lockThrd : kind i = .thrd → Tries .lock .out (.spin 0)
  | refused : Tries .refused .out .commit
  | resumed : Tries .resumed .out .commit
  | spin {tries} : Tries (.spin tries) .out (.spin (tries + 1))
  | spun {tries} : Tries (.spin tries) .out .enter
  | awake : Tries .awake .out (.spin 0)
  | check : Tries .check (.leave true) .push
  | trylock : Tries .out .out .out

inductive Pc.Enters : Pc ι → Pc ι → Prop
  | commit : Enters .commit .commitCheck
  | enter : Enters .enter .check
  | unlock : Enters .unlock .pop

inductive Pc.Leaves : Pc ι → Pc ι → Prop
  | park : Leaves (.commitLeave true) .parked
  | refuse : Leaves (.commitLeave false) .refused
  | took : Leaves (.leave true) .out
  | await : Leaves (.leave false) .await
  | wake {w} : Leaves (.release (some w)) (.wake w)
  | done : Leaves (.release none) .out

inductive Pc.Pushes : Pc ι → Pc ι → Prop
  | coro : Pushes .commitPush (.commitLeave true)
  | thrd : Pushes .push (.leave false)

variable [DecidableEq ι] (kind : ι → Kind) (σ : State ι) (tokens : Tokens ι) (i : ι)

/-- What a step of party `i` can do to the mutex and the tokens. -/
inductive Move : State ι → Tokens ι → Prop
  | call : σ.pc i = .out → Move (σ.goto i .lock) tokens
  | take {taken failed} : (σ.pc i).Tries kind i taken failed → σ.locked = false →
      Move ({ σ with locked := true, held := Function.update σ.held i true }.goto i taken) tokens
  | fail {taken failed} : (σ.pc i).Tries kind i taken failed → σ.locked = true → Move (σ.goto i failed) tokens
  | free : σ.pc i = .commitCheck → σ.locked = false → Move (σ.goto i (.commitLeave false)) tokens
  | busy : σ.pc i = .commitCheck → σ.locked = true → Move (σ.goto i .commitPush) tokens
  | enter {pc} : (σ.pc i).Enters pc → σ.guard = false → Move { σ.goto i pc with guard := true } tokens
  | leave {pc} : (σ.pc i).Leaves pc → Move (σ.spinUnlock i pc) tokens
  | push {pc} : (σ.pc i).Pushes pc → Move ((σ.mutexPushWaiter i).goto i pc) tokens
  | pop {w rest} : σ.pc i = .pop → σ.waiters = w :: rest →
      Move ({ σ with waiters := rest }.goto i (.release (some w))) tokens
  | popNone : σ.pc i = .pop → σ.waiters = [] → Move (σ.goto i (.release none)) tokens
  | await : σ.pc i = .await → 0 < tokens i → Move (σ.goto i .awake) (Function.update tokens i (tokens i - 1))
  | wakeCoro {w} : σ.pc i = .wake w → σ.pc w = .parked → w ≠ i → kind w = .coro →
      Move ((σ.goto i .out).goto w .resumed) tokens
  | wakeThrd {w} : σ.pc i = .wake w → kind w = .thrd → Move (σ.goto i .out) (thrdWakeSignal tokens w)
  | unlock : σ.pc i = .out → σ.held i = true →
      Move { σ.goto i .unlock with locked := false, held := Function.update σ.held i false } tokens

variable {kind : ι → Kind} {σ σ' : State ι} {tokens tokens' : Tokens ι}
  {i : ι} {pc : Pc ι}

theorem State.tryTake_move {taken failed : Pc ι} (tries : (σ.pc i).Tries kind i taken failed) :
    Move kind σ tokens i (σ.tryTake i taken failed) tokens := by
  unfold tryTake mutexTryTake
  cases locked : σ.locked
  · exact .take tries locked
  · exact .fail tries locked

theorem State.spinLock_eq_some :
    σ.spinLock i pc = some σ' ↔ σ.guard = false ∧ σ' = { σ.goto i pc with guard := true } := by
  unfold spinLock
  cases σ.guard <;> simp [eq_comm]

theorem State.spinLock_move (enters : (σ.pc i).Enters pc)
    (step : (σ.spinLock i pc).map (·, tokens) = some (σ', tokens')) : Move kind σ tokens i σ' tokens' := by
  obtain ⟨_, locked, same⟩ := map_eq_some_iff.mp step
  cases same
  obtain ⟨free, rfl⟩ := spinLock_eq_some.mp locked
  exact .enter enters free

theorem State.mutexWake_move {w : ι} (at_ : σ.pc i = .wake w)
    (step : (σ.goto i .out).mutexWake kind tokens w = some (σ', tokens')) : Move kind σ tokens i σ' tokens' := by
  unfold mutexWake at step
  split at step
  · rename_i coro
    split at step
    · rename_i parked
      cases step
      by_cases self : w = i
      · subst self; simp [goto] at parked
      · exact .wakeCoro at_ (by simpa [goto, self] using parked) self coro
    · cases step
  · rename_i thrd
    cases step
    exact .wakeThrd at_ thrd

theorem State.run_move (step : σ.run kind tokens i = some (σ', tokens')) : Move kind σ tokens i σ' tokens' := by
  unfold run at step
  split at step <;> rename_i at_
  · cases step
  · cases step
  · cases step
    refine tryTake_move ?_
    rw [at_]
    split
    · exact .lockCoro ‹_›
    · exact .lockThrd ‹_›
  · exact spinLock_move (at_ ▸ .commit) step
  · cases step
    split
    · exact .busy at_ ‹_›
    · exact .free at_ (Bool.eq_false_iff.mpr ‹_›)
  · cases step; exact .push (at_ ▸ .coro)
  · rename_i stay
    cases step
    cases stay
    · exact .leave (at_ ▸ .refuse)
    · exact .leave (at_ ▸ .park)
  · cases step; exact tryTake_move (at_ ▸ .refused)
  · cases step; exact tryTake_move (at_ ▸ .resumed)
  · cases step
    refine tryTake_move ?_
    rw [at_]
    split
    · exact .spin
    · exact .spun
  · exact spinLock_move (at_ ▸ .enter) step
  · cases step; exact tryTake_move (at_ ▸ .check)
  · cases step; exact .push (at_ ▸ .thrd)
  · rename_i took
    cases step
    cases took
    · exact .leave (at_ ▸ .await)
    · exact .leave (at_ ▸ .took)
  · obtain ⟨_, taken, same⟩ := map_eq_some_iff.mp step
    cases same
    obtain ⟨some_, rfl⟩ := thrdWakeTry_eq_some.mp taken
    exact .await at_ some_
  · cases step; exact tryTake_move (at_ ▸ .awake)
  · exact spinLock_move (at_ ▸ .unlock) step
  · cases step
    unfold mutexPopWaiter
    split
    · exact .popNone at_ ‹_›
    · exact .pop at_ ‹_›
  · rename_i target
    cases step
    cases target
    · exact .leave (at_ ▸ .done)
    · exact .leave (at_ ▸ .wake)
  · exact mutexWake_move at_ step

theorem State.step_move {act : Act ι} (step : σ.step kind tokens act = some (σ', tokens')) :
    Move kind σ tokens act.party σ' tokens' := by
  cases act with
  | lock i =>
    obtain ⟨at_, same⟩ := ite_none_right_eq_some.mp step
    cases same
    exact .call at_
  | trylock i =>
    obtain ⟨at_, same⟩ := ite_none_right_eq_some.mp step
    cases same
    exact tryTake_move (show (σ.pc i).Tries kind i .out .out by rw [at_]; exact .trylock)
  | unlock i =>
    obtain ⟨⟨at_, held⟩, same⟩ := ite_none_right_eq_some.mp step
    cases same
    exact .unlock at_ held
  | run i => exact run_move step

end Xylem.Sync.Mutex
