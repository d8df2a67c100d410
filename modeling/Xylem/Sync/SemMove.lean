import Xylem.Sync.Sem

namespace Xylem.Sync.Sem

open State Option WaitList

variable {ι : Type*}

inductive Pc.Enters : Pc ι → Pc ι → Prop
  | commit : Enters .commit .commitTry
  | enter : Enters .enter .check
  | expired : Enters .expired .cancel
  | post : Enters .post .pop

/-- `_sem_try_take` with a token left. -/
inductive Pc.Takes : Pc ι → Pc ι → Prop
  | wait : Takes .wait (.ret true)
  | coro : Takes .commitTry (.commitLeave false)
  | thrd : Takes .check (.leave true)

/-- `_sem_try_take` inside the guard without a token left. -/
inductive Pc.Fails : Pc ι → Pc ι → Prop
  | coro : Fails .commitTry .commitPush
  | thrd : Fails .check .push

/-- Steps that queue the waiter; a timed coroutine goes on to start its timer. -/
inductive Pc.Pushes : Call → Pc ι → Pc ι → Prop
  | coro {call} : call.timeoutMs = 0 → Pushes call .commitPush (.commitLeave true)
  | arms {call} : 0 < call.timeoutMs → Pushes call .commitPush .commitArm
  | thrd {call} : Pushes call .push (.leave false)

inductive Pc.Leaves : Pc ι → Pc ι → Prop
  | park : Leaves (.commitLeave true) .parked
  | refuse : Leaves (.commitLeave false) .resumed
  | await : Leaves (.leave false) .await
  | took : Leaves (.leave true) (.ret true)
  | drain : Leaves (.cancelLeave false) .drain
  | gone : Leaves (.cancelLeave true) (.ret false)
  | wake {r} : Leaves (.postLeave (some r)) (.wake r)
  | done : Leaves (.postLeave none) .out

theorem State.semTryTake_eq_some {σ σ' : State ι} {i : ι} :
    σ.semTryTake i = some σ' ↔ 0 < σ.count ∧ σ' = σ.takeToken i := by
  unfold semTryTake
  split <;> simp_all [Nat.pos_iff_ne_zero, eq_comm]

theorem State.semTryTake_eq_none {σ : State ι} {i : ι} : σ.semTryTake i = none ↔ σ.count = 0 := by
  unfold semTryTake
  split <;> simp_all

variable [DecidableEq ι] (kind : ι → Kind) (σ : State ι) (tokens : Tokens ι)

/-- What a step of an agent, a party or a timeout callback, can do to the semaphore and the tokens. -/
inductive Move : ι ⊕ Record ι → State ι → Tokens ι → Prop
  | begin {i call} : σ.pc i = .out → Move (.inl i) ({ σ with toFrame := σ.begin i call }.goto i .wait) tokens
  | pollTake {i} : σ.pc i = .out → 0 < σ.count → Move (.inl i)
        (({ σ with toFrame := σ.begin i (.timedwait 0) }.takeToken i).goto i (.ret true)) tokens
  | pollMiss {i} : σ.pc i = .out → σ.count = 0 →
      Move (.inl i) ({ σ with toFrame := σ.begin i (.timedwait 0) }.goto i (.ret false)) tokens
  | slowCoro {i} : σ.pc i = .wait → kind i = .coro → Move (.inl i) (σ.goto i .commit) tokens
  | slowThrd {i} : σ.pc i = .wait → kind i = .thrd → Move (.inl i) (σ.goto i .enter) tokens
  | enter {i pc} : (σ.pc i).Enters pc → σ.list.guard = false →
      Move (.inl i) { σ.goto i pc with list := { σ.list with guard := true } } tokens
  | take {i pc} : (σ.pc i).Takes pc → 0 < σ.count → Move (.inl i) ((σ.takeToken i).goto i pc) tokens
  | fail {i pc} : (σ.pc i).Fails pc → σ.count = 0 → Move (.inl i) (σ.goto i pc) tokens
  | push {i pc} : Pc.Pushes (σ.call (σ.waiter i)) (σ.pc i) pc → Move (.inl i) ((σ.semPushWaiter i).goto i pc) tokens
  | arm {i} : σ.pc i = .commitArm →
      Move (.inl i) ({ σ with list := σ.list.timerStart (σ.waiter i) }.goto i (.commitLeave true)) tokens
  | leave {i pc} : (σ.pc i).Leaves pc → Move (.inl i) (σ.spinUnlock.goto i pc) tokens
  | resumed {i} : σ.pc i = .resumed → σ.call (σ.waiter i) = .wait → Move (.inl i) (σ.goto i (.ret true)) tokens
  | fired {i} : σ.pc i = .resumed → Move (.inl i) (σ.goto i (.stop (σ.list.timerFired (σ.waiter i)))) tokens
  | stop {i fired} : σ.pc i = .stop fired →
      Move (.inl i) ({ σ with list := σ.list.timerStop (σ.waiter i) }.goto i (.ret !fired)) tokens
  | await {i} : σ.pc i = .await ∨ σ.pc i = .drain → 0 < tokens i →
      Move (.inl i) (σ.goto i (.ret true)) (Function.update tokens i (tokens i - 1))
  | expire {i} : σ.pc i = .await → Move (.inl i) (σ.goto i .expired) tokens
  | hit {i} : σ.pc i = .cancel → σ.waiter i ∈ σ.list.waiters → Move (.inl i)
        ({ σ with list := σ.list.removeWaiter (σ.waiter i) }.goto i (.cancelLeave true)) tokens
  | miss {i} : σ.pc i = .cancel → Move (.inl i) (σ.goto i (.cancelLeave false)) tokens
  | ret {i got} : σ.pc i = .ret got → Move (.inl i) (σ.returns i got) tokens
  | post {i} : σ.pc i = .out → Move (.inl i) (σ.goto i .post) tokens
  | pop {i r rest} : σ.pc i = .pop → σ.list.waiters = r :: rest → Move (.inl i) ({ σ with
        list := { σ.list with waiters := rest, popped := σ.list.popped ++ [r] }
        posts := σ.posts + 1
        handed := r :: σ.handed }.goto i (.postLeave (some r))) tokens
  | popNone {i} : σ.pc i = .pop → σ.list.waiters = [] → Move (.inl i) (σ.goto i .bank) tokens
  | bank {i} : σ.pc i = .bank → Move (.inl i)
        ({ σ with count := (σ.count + 1) % 2 ^ 32, posts := σ.posts + 1 }.goto i (.postLeave none)) tokens
  | wakeCoro {i r} : σ.pc i = .wake r → r.1 ≠ i → σ.pc r.1 = .parked → σ.waiter r.1 = r → kind r.1 = .coro →
      Move (.inl i) ((σ.goto i .out).goto r.1 .resumed) tokens
  | wakeThrd {i r} : σ.pc i = .wake r → kind r.1 = .thrd → Move (.inl i) (σ.goto i .out) (thrdWakeSignal tokens r.1)
  | timer {r list} : σ.list.TimerMove r list → Move (.inr r) { σ with list := list } tokens
  | timerCoro {r} : σ.list.timer r = .wake → σ.pc r.1 = .parked → σ.waiter r.1 = r → kind r.1 = .coro →
      Move (.inr r) ({ σ with list := σ.list.setTimer r .done }.goto r.1 .resumed) tokens
  | timerThrd {r} : σ.list.timer r = .wake → kind r.1 = .thrd →
      Move (.inr r) { σ with list := σ.list.setTimer r .done } (thrdWakeSignal tokens r.1)

variable {kind : ι → Kind} {σ σ' : State ι} {tokens tokens' : Tokens ι}

def Act.agent : Act ι → ι ⊕ Record ι
  | .call i _ | .post i | .run i | .expire i => .inl i
  | .timer r => .inr r

theorem State.spinLock_move {i : ι} {pc : Pc ι} (enters : (σ.pc i).Enters pc)
    (step : (σ.spinLock i pc).map (·, tokens) = some (σ', tokens')) : Move kind σ tokens (.inl i) σ' tokens' := by
  unfold spinLock at step
  split at step
  · cases step
  · cases step
    exact .enter enters (Bool.eq_false_iff.mpr ‹_›)

theorem State.run_move {i : ι} (step : σ.run kind tokens i = some (σ', tokens')) :
    Move kind σ tokens (.inl i) σ' tokens' := by
  unfold run at step
  split at step <;> rename_i at_
  · cases step
  · cases step
  · split at step <;> rename_i tried <;> cases step
    · obtain ⟨some_, rfl⟩ := semTryTake_eq_some.mp tried
      exact .take (at_ ▸ .wait) some_
    · split
      · exact .slowCoro at_ ‹_›
      · exact .slowThrd at_ ‹_›
  · exact spinLock_move (at_ ▸ .commit) step
  · split at step <;> rename_i tried <;> cases step
    · obtain ⟨some_, rfl⟩ := semTryTake_eq_some.mp tried
      exact .take (at_ ▸ .coro) some_
    · exact .fail (at_ ▸ .coro) (semTryTake_eq_none.mp tried)
  · cases step
    split
    · exact .push (at_ ▸ .arms ‹_›)
    · exact .push (at_ ▸ .coro (by omega))
  · cases step; exact .arm at_
  · rename_i stay
    cases step
    cases stay
    · exact .leave (at_ ▸ .refuse)
    · exact .leave (at_ ▸ .park)
  · split at step <;> rename_i call <;> cases step
    · exact .resumed at_ call
    · exact .fired at_
  · cases step; exact .stop at_
  · exact spinLock_move (at_ ▸ .enter) step
  · split at step <;> rename_i tried <;> cases step
    · obtain ⟨some_, rfl⟩ := semTryTake_eq_some.mp tried
      exact .take (at_ ▸ .thrd) some_
    · exact .fail (at_ ▸ .thrd) (semTryTake_eq_none.mp tried)
  · cases step; exact .push (at_ ▸ .thrd)
  · rename_i took
    cases step
    cases took
    · exact .leave (at_ ▸ .await)
    · exact .leave (at_ ▸ .took)
  · obtain ⟨_, taken, same⟩ := map_eq_some_iff.mp step
    cases same
    obtain ⟨some_, rfl⟩ := thrdWakeTry_eq_some.mp taken
    exact .await (Or.inl at_) some_
  · obtain ⟨_, taken, same⟩ := map_eq_some_iff.mp step
    cases same
    obtain ⟨some_, rfl⟩ := thrdWakeTry_eq_some.mp taken
    exact .await (Or.inr at_) some_
  · exact spinLock_move (at_ ▸ .expired) step
  · cases step
    unfold semCancelWaiter cancelWaiter
    by_cases queued : σ.waiter i ∈ σ.list.waiters
    · simp only [queued, if_true]
      exact .hit at_ queued
    · simp only [queued, if_false]
      exact .miss at_
  · rename_i cancelled
    cases step
    cases cancelled
    · exact .leave (at_ ▸ .drain)
    · exact .leave (at_ ▸ .gone)
  · cases step; exact .ret at_
  · exact spinLock_move (at_ ▸ .post) step
  · unfold semPopWaiter popWaiter at step
    cases queue : σ.list.waiters with
    | nil =>
      simp only [queue] at step
      cases step
      exact .popNone at_ queue
    | cons r rest =>
      simp only [queue] at step
      cases step
      exact .pop at_ queue
  · cases step; exact .bank at_
  · rename_i target
    cases step
    cases target
    · exact .leave (at_ ▸ .done)
    · exact .leave (at_ ▸ .wake)
  · rename_i r
    unfold semWake at step
    split at step <;> rename_i kinds
    · obtain ⟨⟨parked, current⟩, same⟩ := ite_none_right_eq_some.mp step
      cases same
      have other : r.1 ≠ i := fun self => by simp [goto, Frame.goto, self] at parked
      exact .wakeCoro at_ other (by simpa [goto, Frame.goto, other] using parked) current kinds
    · cases step
      exact .wakeThrd at_ kinds

theorem State.semTimeoutCb_move {r : Record ι} (step : σ.semTimeoutCb kind tokens r = some (σ', tokens')) :
    Move kind σ tokens (.inr r) σ' tokens' := by
  unfold semTimeoutCb at step
  split at step <;> rename_i at_
  · unfold semWake at step
    split at step <;> rename_i kinds
    · obtain ⟨⟨parked, current⟩, same⟩ := ite_none_right_eq_some.mp step
      cases same
      exact .timerCoro at_ parked current kinds
    · cases step
      exact .timerThrd at_ kinds
  · obtain ⟨_, ran, same⟩ := map_eq_some_iff.mp step
    cases same
    exact .timer (timeoutCb_move ran)

theorem State.step_move {act : Act ι} (step : σ.step kind tokens act = some (σ', tokens')) :
    Move kind σ tokens act.agent σ' tokens' := by
  cases act with
  | call i call =>
    obtain ⟨at_, same⟩ := ite_none_right_eq_some.mp step
    cases same
    unfold semWait
    by_cases zero : call = .timedwait 0
    · subst zero
      simp only [if_true]
      split <;> rename_i tried
      · obtain ⟨some_, rfl⟩ := semTryTake_eq_some.mp tried
        exact .pollTake at_ some_
      · exact .pollMiss at_ ((semTryTake_eq_none (σ := { σ with toFrame := σ.begin i _ })).mp tried)
    · simp only [zero, if_false]
      exact .begin at_
  | post i =>
    obtain ⟨at_, same⟩ := ite_none_right_eq_some.mp step
    cases same
    exact .post at_
  | run i => exact run_move step
  | expire i =>
    obtain ⟨⟨at_, _⟩, same⟩ := ite_none_right_eq_some.mp step
    cases same
    exact .expire at_
  | timer r => exact semTimeoutCb_move step

end Xylem.Sync.Sem
