import Xylem.Lib.Run
import Xylem.Sync.Frame

namespace Xylem.Sync.Cond

variable (ι : Type*)

inductive Pc
  | out
  /-- `_cond_wait_commit_cb`, run after the coroutine has yielded. -/
  | commit
  | commitPush
  | commitArm
  | commitUnlock
  | commitLeave
  | parked
  | resumed
  /-- `_cond_timedwait_coro` after it has read `timer_fired`. -/
  | stop (fired : Bool)
  | enter
  | push
  | leave
  | unlock
  /-- `thrd_wake_wait` or `thrd_wake_timedwait`. -/
  | await
  | expired
  | cancel
  | cancelLeave (cancelled : Bool)
  /-- The second `thrd_wake_wait` of `_cond_timedwait_thrd`. -/
  | drain
  | lock (notified : Bool)
  /-- About to return, with the mutex. -/
  | ret (notified : Bool)
  /-- `xylem_cond_signal`. -/
  | signal
  | signalPop
  | signalLeave (target : Option (Record ι))
  /-- `xylem_cond_broadcast`. -/
  | broadcast
  | broadcastPop
  | broadcastLeave (drained : List (Record ι))
  /-- `_cond_wake` or `_cond_wake_all` with the waiters that are left. -/
  | wake (targets : List (Record ι))
  deriving DecidableEq

/-- `struct xylem_cond_s` and its users; `wakes` records how often each waiter was woken. -/
structure State extends Frame ι (Pc ι) where
  wakes : Record ι → Nat

inductive Act
  | call (i : ι) (call : Call)
  | signal (i : ι)
  | broadcast (i : ι)
  | run (i : ι)
  /-- `thrd_wake_timedwait` gives up. -/
  | expire (i : ι)
  | timer (r : Record ι)

/-- The call of the user's mutex that a step begins. -/
inductive MutexCall
  | none
  | lock
  | unlock

variable {ι : Type*}

def create : State ι := ⟨.init .out, fun _ => 0⟩

section Step

variable [DecidableEq ι]

def State.goto (σ : State ι) (i : ι) (pc : Pc ι) : State ι := { σ with toFrame := σ.toFrame.goto i pc }

variable (kind : ι → Kind) (σ : State ι) (tokens : Tokens ι) (i : ι)

namespace State

def spinLock (pc : Pc ι) : Option (State ι) :=
  if σ.list.guard then none else some { σ.goto i pc with list := { σ.list with guard := true } }

def spinUnlock : State ι := { σ with list := { σ.list with guard := false } }

def condPushWaiter : State ι := { σ with list := σ.list.pushWaiter (σ.waiter i) }

/-- `_cond_pop_waiter`, which hands the signal over. -/
def condPopWaiter : State ι × Option (Record ι) :=
  ({ σ with list := σ.list.popWaiter.1, handed := σ.list.popWaiter.2.toList ++ σ.handed }, σ.list.popWaiter.2)

/-- The loop of `xylem_cond_broadcast`, which runs inside the guard. -/
def condPopAll : State ι × List (Record ι) :=
  let popped := σ.list.popAll σ.list.waiters.length
  ({ σ with list := popped.1, handed := popped.2 ++ σ.handed }, popped.2)

/-- `_cond_cancel_waiter` by the waiter itself. -/
def condCancelWaiter : State ι × Bool :=
  ({ σ with list := (σ.list.cancelWaiter (σ.waiter i)).1 }, (σ.list.cancelWaiter (σ.waiter i)).2)

/-- `_cond_wake`: readying a coroutine that is not parked would abort, which is no step. -/
def condWake (r : Record ι) : Option (State ι × Tokens ι) :=
  let woken := { σ with wakes := Function.update σ.wakes r (σ.wakes r + 1) }
  match kind r.1 with
  | .coro => if σ.pc r.1 = .parked ∧ σ.waiter r.1 = r then some (woken.goto r.1 .resumed, tokens) else none
  | .thrd => some (woken, thrdWakeSignal tokens r.1)

/-- One step of a call in progress outside the mutex, and the mutex call it begins. -/
def run :
    Option (State ι × Tokens ι × MutexCall) :=
  let stay := fun σ : State ι => (σ, tokens, MutexCall.none)
  match σ.pc i with
  | .out | .parked => none
  | .commit => (σ.spinLock i .commitPush).map stay
  | .commitPush =>
    some (stay ((σ.condPushWaiter i).goto i
      (if 0 < (σ.call (σ.waiter i)).timeoutMs then .commitArm else .commitUnlock)))
  | .commitArm => some (stay ({ σ with list := σ.list.timerStart (σ.waiter i) }.goto i .commitUnlock))
  | .commitUnlock => some (σ.goto i .commitLeave, tokens, .unlock)
  | .commitLeave => some (stay (σ.spinUnlock.goto i .parked))
  | .resumed =>
    match σ.call (σ.waiter i) with
    | .wait => some (stay (σ.goto i (.lock true)))
    | .timedwait _ => some (stay (σ.goto i (.stop (σ.list.timerFired (σ.waiter i)))))
  | .stop fired => some (stay ({ σ with list := σ.list.timerStop (σ.waiter i) }.goto i (.lock !fired)))
  | .enter => (σ.spinLock i .push).map stay
  | .push => some (stay ((σ.condPushWaiter i).goto i .leave))
  | .leave => some (stay (σ.spinUnlock.goto i .unlock))
  | .unlock => some (σ.goto i .await, tokens, .unlock)
  | .await | .drain => (thrdWakeTry tokens i).map (σ.goto i (.lock true), ·, .none)
  | .expired => (σ.spinLock i .cancel).map stay
  | .cancel => some (stay ((σ.condCancelWaiter i).1.goto i (.cancelLeave (σ.condCancelWaiter i).2)))
  | .cancelLeave cancelled => some (stay (σ.spinUnlock.goto i (if cancelled then .lock false else .drain)))
  | .lock notified => some (σ.goto i (.ret notified), tokens, .lock)
  | .ret notified => some (stay { σ with toFrame := σ.returns i .out notified })
  | .signal => (σ.spinLock i .signalPop).map stay
  | .signalPop => some (stay (σ.condPopWaiter.1.goto i (.signalLeave σ.condPopWaiter.2)))
  | .signalLeave target => some (stay (σ.spinUnlock.goto i (.wake target.toList)))
  | .broadcast => (σ.spinLock i .broadcastPop).map stay
  | .broadcastPop => some (stay (σ.condPopAll.1.goto i (.broadcastLeave σ.condPopAll.2)))
  | .broadcastLeave drained => some (stay (σ.spinUnlock.goto i (.wake drained)))
  | .wake [] => some (stay (σ.goto i .out))
  | .wake (r :: rest) => ((σ.goto i (.wake rest)).condWake kind tokens r).map fun s => (s.1, s.2, .none)

/-- `xylem_cond_wait` and `xylem_cond_timedwait`: a zero timeout returns at once. -/
def condWait (call : Call) : State ι :=
  let σ : State ι := { σ with toFrame := σ.begin i call }
  if call = .timedwait 0 then σ.goto i (.ret false)
  else σ.goto i (match kind i with | .coro => .commit | .thrd => .enter)

def condTimeoutCb (r : Record ι) :
    Option (State ι × Tokens ι) :=
  if σ.list.timer r = .wake then { σ with list := σ.list.setTimer r .done }.condWake kind tokens r
  else (σ.list.timeoutCb r).map fun list => ({ σ with list := list }, tokens)

/-- One step of the condition variable: a call begins, or a call in progress or a timeout callback takes a step. -/
def step : Act ι → Option (State ι × Tokens ι × MutexCall)
  | .call i call => if σ.pc i = .out then some (σ.condWait kind i call, tokens, .none) else none
  | .signal i => if σ.pc i = .out then some (σ.goto i .signal, tokens, .none) else none
  | .broadcast i => if σ.pc i = .out then some (σ.goto i .broadcast, tokens, .none) else none
  | .run i => σ.run kind tokens i
  | .expire i =>
    if σ.pc i = .await ∧ 0 < (σ.call (σ.waiter i)).timeoutMs then some (σ.goto i .expired, tokens, .none) else none
  | .timer r => (σ.condTimeoutCb kind tokens r).map fun s => (s.1, s.2, .none)

end State

end Step

end Xylem.Sync.Cond
