import Xylem.Sync.Cond

namespace Xylem.Sync.Cond

open State WaitList
open Option (ite_none_right_eq_some map_eq_some_iff)

variable {ι : Type*}

inductive Pc.Enters : Pc ι → Pc ι → Prop
  | commit : Enters .commit .commitPush
  | enter : Enters .enter .push
  | expired : Enters .expired .cancel
  | signal : Enters .signal .signalPop
  | broadcast : Enters .broadcast .broadcastPop

/-- Steps that queue the waiter; a timed coroutine goes on to start its timer. -/
inductive Pc.Pushes : Call → Pc ι → Pc ι → Prop
  | coro {call} : Pushes call .commitPush .commitUnlock
  | arms {call} : 0 < call.timeoutMs → Pushes call .commitPush .commitArm
  | thrd {call} : Pushes call .push .leave

inductive Pc.Leaves : Pc ι → Pc ι → Prop
  | park : Leaves .commitLeave .parked
  | unlock : Leaves .leave .unlock
  | drain : Leaves (.cancelLeave false) .drain
  | gone : Leaves (.cancelLeave true) (.lock false)
  | signal {target} : Leaves (.signalLeave target) (.wake target.toList)
  | broadcast {drained} : Leaves (.broadcastLeave drained) (.wake drained)

variable (call : Call) (fired : Bool)

inductive Pc.Moves : Pc ι → Pc ι → Prop
  | untimed : call = .wait → Moves .resumed (.lock true)
  | timed : Moves .resumed (.stop fired)
  | expire : Moves .await .expired
  | miss : Moves .cancel (.cancelLeave false)
  | signal : Moves .out .signal
  | broadcast : Moves .out .broadcast
  | none_ : Moves .signalPop (.signalLeave none)
  | done : Moves (.wake []) .out

inductive Pc.Calls : Pc ι → Pc ι → MutexCall → Prop
  | commitUnlock : Calls .commitUnlock .commitLeave .unlock
  | unlock : Calls .unlock .await .unlock
  | lock {notified} : Calls (.lock notified) (.ret notified) .lock

inductive Pc.Begins : Kind → Pc ι → Prop
  | coro : Begins .coro .commit
  | thrd : Begins .thrd .enter

variable [DecidableEq ι]

/-- The waiter is about to be woken. -/
def State.woken (σ : State ι) (r : Record ι) : State ι :=
  { σ with wakes := Function.update σ.wakes r (σ.wakes r + 1) }

variable (kind : ι → Kind) (σ : State ι) (tokens : Tokens ι)

/-- What a step of an agent, a party or a timeout callback, can do to the condition variable and the tokens, and the
call of the mutex it begins. -/
inductive Move :
    ι ⊕ Record ι → State ι → Tokens ι → MutexCall → Prop
  | begin {i call pc} : σ.pc i = .out → Pc.Begins (kind i) pc →
      Move (.inl i) ({ σ with toFrame := σ.begin i call }.goto i pc) tokens .none
  | poll {i} : σ.pc i = .out →
      Move (.inl i) ({ σ with toFrame := σ.begin i (.timedwait 0) }.goto i (.ret false)) tokens .none
  | enter {i pc} : (σ.pc i).Enters pc → σ.list.guard = false →
      Move (.inl i) { σ.goto i pc with list := { σ.list with guard := true } } tokens .none
  | push {i pc} : Pc.Pushes (σ.call (σ.waiter i)) (σ.pc i) pc →
      Move (.inl i) ((σ.condPushWaiter i).goto i pc) tokens .none
  | arm {i} : σ.pc i = .commitArm →
      Move (.inl i) ({ σ with list := σ.list.timerStart (σ.waiter i) }.goto i .commitUnlock) tokens .none
  | calls {i pc call} : Pc.Calls (σ.pc i) pc call → Move (.inl i) (σ.goto i pc) tokens call
  | leave {i pc} : (σ.pc i).Leaves pc → Move (.inl i) (σ.spinUnlock.goto i pc) tokens .none
  | moves {i pc} : Pc.Moves (σ.call (σ.waiter i)) (σ.list.timerFired (σ.waiter i)) (σ.pc i) pc →
      Move (.inl i) (σ.goto i pc) tokens .none
  | stop {i fired} : σ.pc i = .stop fired →
      Move (.inl i) ({ σ with list := σ.list.timerStop (σ.waiter i) }.goto i (.lock !fired)) tokens .none
  | await {i} : σ.pc i = .await ∨ σ.pc i = .drain → 0 < tokens i →
      Move (.inl i) (σ.goto i (.lock true)) (Function.update tokens i (tokens i - 1)) .none
  | hit {i} : σ.pc i = .cancel → σ.waiter i ∈ σ.list.waiters → Move (.inl i)
        ({ σ with list := σ.list.removeWaiter (σ.waiter i) }.goto i (.cancelLeave true)) tokens .none
  | ret {i got} : σ.pc i = .ret got → Move (.inl i) { σ with toFrame := σ.returns i .out got } tokens .none
  | pop {i r rest} : σ.pc i = .signalPop → σ.list.waiters = r :: rest → Move (.inl i) ({ σ with
        list := { σ.list with waiters := rest, popped := σ.list.popped ++ [r] }
        handed := r :: σ.handed }.goto i (.signalLeave (some r))) tokens .none
  | popAll {i} : σ.pc i = .broadcastPop → Move (.inl i) ({ σ with
        list := { σ.list with waiters := [], popped := σ.list.popped ++ σ.list.waiters }
        handed := σ.list.waiters ++ σ.handed }.goto i (.broadcastLeave σ.list.waiters)) tokens .none
  | wakeCoro {i r rest} : σ.pc i = .wake (r :: rest) → r.1 ≠ i → σ.pc r.1 = .parked → σ.waiter r.1 = r →
      kind r.1 = .coro →
      Move (.inl i) (((σ.woken r).goto i (.wake rest)).goto r.1 .resumed) tokens .none
  | wakeThrd {i r rest} : σ.pc i = .wake (r :: rest) → kind r.1 = .thrd →
      Move (.inl i) ((σ.woken r).goto i (.wake rest)) (thrdWakeSignal tokens r.1) .none
  | timer {r list} : σ.list.TimerMove r list → Move (.inr r) { σ with list := list } tokens .none
  | timerCoro {r} : σ.list.timer r = .wake → σ.pc r.1 = .parked → σ.waiter r.1 = r → kind r.1 = .coro →
      Move (.inr r) ({ σ.woken r with list := σ.list.setTimer r .done }.goto r.1 .resumed) tokens .none
  | timerThrd {r} : σ.list.timer r = .wake → kind r.1 = .thrd →
      Move (.inr r) { σ.woken r with list := σ.list.setTimer r .done } (thrdWakeSignal tokens r.1) .none

variable {kind : ι → Kind} {σ σ' : State ι} {tokens tokens' : Tokens ι} {call : MutexCall} {i : ι}

def Act.agent : Act ι → ι ⊕ Record ι
  | .call i _ | .signal i | .broadcast i | .run i | .expire i => .inl i
  | .timer r => .inr r

theorem State.spinLock_move {pc : Pc ι} (enters : (σ.pc i).Enters pc)
    (step : (σ.spinLock i pc).map (·, tokens, MutexCall.none) = some (σ', tokens', call)) :
    Move kind σ tokens (.inl i) σ' tokens' call := by
  unfold spinLock at step
  split at step
  · cases step
  · cases step
    exact .enter enters (Bool.eq_false_iff.mpr ‹_›)

theorem State.run_move (step : σ.run kind tokens i = some (σ', tokens', call)) :
    Move kind σ tokens (.inl i) σ' tokens' call := by
  unfold run at step
  split at step <;> rename_i at_
  · cases step
  · cases step
  · exact spinLock_move (at_ ▸ .commit) step
  · cases step
    split
    · exact .push (at_ ▸ .arms ‹_›)
    · exact .push (at_ ▸ .coro)
  · cases step; exact .arm at_
  · cases step; exact .calls (at_ ▸ .commitUnlock)
  · cases step; exact .leave (at_ ▸ .park)
  · split at step <;> rename_i made <;> cases step
    · exact .moves (at_ ▸ .untimed made)
    · exact .moves (at_ ▸ .timed)
  · cases step; exact .stop at_
  · exact spinLock_move (at_ ▸ .enter) step
  · cases step; exact .push (at_ ▸ .thrd)
  · cases step; exact .leave (at_ ▸ .unlock)
  · cases step; exact .calls (at_ ▸ .unlock)
  · obtain ⟨_, taken, same⟩ := map_eq_some_iff.mp step
    cases same
    obtain ⟨some_, rfl⟩ := thrdWakeTry_eq_some.mp taken
    exact .await (Or.inl at_) some_
  · obtain ⟨_, taken, same⟩ := map_eq_some_iff.mp step
    cases same
    obtain ⟨some_, rfl⟩ := thrdWakeTry_eq_some.mp taken
    exact .await (Or.inr at_) some_
  · exact spinLock_move (at_ ▸ .expired) step
  · cases step
    unfold condCancelWaiter cancelWaiter
    by_cases queued : σ.waiter i ∈ σ.list.waiters
    · simp only [queued, if_true]
      exact .hit at_ queued
    · simp only [queued, if_false]
      exact .moves (at_ ▸ .miss)
  · rename_i cancelled
    cases step
    cases cancelled
    · exact .leave (at_ ▸ .drain)
    · exact .leave (at_ ▸ .gone)
  · cases step; exact .calls (at_ ▸ .lock)
  · cases step; exact .ret at_
  · exact spinLock_move (at_ ▸ .signal) step
  · unfold condPopWaiter popWaiter at step
    cases queue : σ.list.waiters with
    | nil =>
      simp only [queue] at step
      cases step
      exact .moves (at_ ▸ .none_)
    | cons r rest =>
      simp only [queue] at step
      cases step
      exact .pop at_ queue
  · cases step; exact .leave (at_ ▸ .signal)
  · exact spinLock_move (at_ ▸ .broadcast) step
  · rw [condPopAll, popAll_eq _ _ (Nat.le_refl _)] at step
    cases step
    exact .popAll at_
  · cases step; exact .leave (at_ ▸ .broadcast)
  · cases step; exact .moves (at_ ▸ .done)
  · rename_i r rest
    obtain ⟨_, woke, same⟩ := map_eq_some_iff.mp step
    cases same
    unfold condWake at woke
    split at woke <;> rename_i kinds
    · obtain ⟨⟨parked, current⟩, same⟩ := ite_none_right_eq_some.mp woke
      cases same
      have other : r.1 ≠ i := fun self => by simp [goto, Frame.goto, self] at parked
      exact .wakeCoro at_ other (by simpa [goto, Frame.goto, other] using parked) current kinds
    · cases woke
      exact .wakeThrd at_ kinds

theorem State.condTimeoutCb_move {r : Record ι} (step : σ.condTimeoutCb kind tokens r = some (σ', tokens')) :
    Move kind σ tokens (.inr r) σ' tokens' .none := by
  unfold condTimeoutCb at step
  split at step <;> rename_i at_
  · unfold condWake at step
    split at step <;> rename_i kinds
    · obtain ⟨⟨parked, current⟩, same⟩ := ite_none_right_eq_some.mp step
      cases same
      exact .timerCoro at_ parked current kinds
    · cases step
      exact .timerThrd at_ kinds
  · obtain ⟨_, ran, same⟩ := map_eq_some_iff.mp step
    cases same
    exact .timer (timeoutCb_move ran)

theorem State.condWait_move {made : Call} (out : σ.pc i = .out) :
    Move kind σ tokens (.inl i) (σ.condWait kind i made) tokens .none := by
  unfold condWait
  by_cases zero : made = .timedwait 0
  · subst zero
    exact .poll out
  · rw [if_neg zero]
    refine .begin out ?_
    cases kind i
    · exact .coro
    · exact .thrd

theorem State.step_move {act : Act ι} (step : σ.step kind tokens act = some (σ', tokens', call)) :
    Move kind σ tokens act.agent σ' tokens' call := by
  cases act with
  | call i made =>
    obtain ⟨at_, same⟩ := ite_none_right_eq_some.mp step
    cases same
    exact condWait_move at_
  | signal i =>
    obtain ⟨at_, same⟩ := ite_none_right_eq_some.mp step
    cases same
    exact .moves (at_ ▸ .signal)
  | broadcast i =>
    obtain ⟨at_, same⟩ := ite_none_right_eq_some.mp step
    cases same
    exact .moves (at_ ▸ .broadcast)
  | run i => exact run_move step
  | expire i =>
    obtain ⟨⟨at_, _⟩, same⟩ := ite_none_right_eq_some.mp step
    cases same
    exact .moves (at_ ▸ .expire)
  | timer r =>
    obtain ⟨_, ran, same⟩ := map_eq_some_iff.mp step
    cases same
    exact condTimeoutCb_move ran

end Xylem.Sync.Cond
