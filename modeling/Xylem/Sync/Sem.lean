import Mathlib.Algebra.Group.Nat.Defs
import Xylem.Lib.Run
import Xylem.Sync.Frame

namespace Xylem.Sync.Sem

variable (ι : Type*)

inductive Pc
  | out
  /-- A wait before its first `_sem_try_take`. -/
  | wait
  /-- `_sem_wait_commit_cb`, run after the coroutine has yielded. -/
  | commit
  | commitTry
  | commitPush
  | commitArm
  | commitLeave (stay : Bool)
  | parked
  | resumed
  /-- `_sem_timedwait_coro` after it has read `timer_fired`. -/
  | stop (fired : Bool)
  | enter
  | check
  | push
  | leave (took : Bool)
  /-- `thrd_wake_wait` or `thrd_wake_timedwait`. -/
  | await
  | expired
  | cancel
  | cancelLeave (cancelled : Bool)
  /-- The second `thrd_wake_wait` of `_sem_timedwait_thrd`. -/
  | drain
  /-- The wait is about to return. -/
  | ret (got : Bool)
  /-- `xylem_sem_post`. -/
  | post
  | pop
  | bank
  | postLeave (target : Option (Record ι))
  | wake (target : Record ι)
  deriving DecidableEq

/-- `struct xylem_sem_s` and its users. The last two fields record the posts performed and the waits that returned with
a token. -/
structure State extends Frame ι (Pc ι) where
  count : Nat
  posts : Nat
  successes : Nat

inductive Act
  | call (i : ι) (call : Call)
  | post (i : ι)
  | run (i : ι)
  /-- `thrd_wake_timedwait` gives up. -/
  | expire (i : ι)
  | timer (r : Record ι)

variable {ι : Type*}

def create (value : Nat) : State ι := ⟨.init .out, value, 0, 0⟩

section Step

variable [DecidableEq ι]

def State.goto (σ : State ι) (i : ι) (pc : Pc ι) : State ι := { σ with toFrame := σ.toFrame.goto i pc }

variable (kind : ι → Kind) (σ : State ι) (tokens : Tokens ι) (i : ι)

namespace State

def takeToken : State ι :=
  { σ with toFrame := σ.hand (σ.waiter i), count := σ.count - 1 }

/-- `_sem_try_take`: the compare-and-swap loop as one read-modify-write. -/
def semTryTake : Option (State ι) :=
  if σ.count = 0 then none else some (σ.takeToken i)

def returns (σ : State ι) (i : ι) (got : Bool) : State ι :=
  { σ with
    toFrame := σ.toFrame.returns i .out got
    successes := if got then σ.successes + 1 else σ.successes }

def spinLock (pc : Pc ι) : Option (State ι) :=
  if σ.list.guard then none else some { σ.goto i pc with list := { σ.list with guard := true } }

def spinUnlock : State ι := { σ with list := { σ.list with guard := false } }

def semPushWaiter : State ι := { σ with list := σ.list.pushWaiter (σ.waiter i) }

/-- `_sem_pop_waiter`, which hands the token of a post over. -/
def semPopWaiter : State ι × Option (Record ι) :=
  match σ.list.popWaiter with
  | (list, some r) => ({ σ with list := list, posts := σ.posts + 1, handed := r :: σ.handed }, some r)
  | (_, none) => (σ, none)

/-- `_sem_cancel_waiter` by the waiter itself. -/
def semCancelWaiter : State ι × Bool :=
  match σ.list.cancelWaiter (σ.waiter i) with
  | (list, cancelled) => ({ σ with list := list }, cancelled)

/-- `_sem_wake`: readying a coroutine that is not parked would abort, which is no step. -/
def semWake (r : Record ι) : Option (State ι × Tokens ι) :=
  match kind r.1 with
  | .coro => if σ.pc r.1 = .parked ∧ σ.waiter r.1 = r then some (σ.goto r.1 .resumed, tokens) else none
  | .thrd => some (σ, thrdWakeSignal tokens r.1)

def run : Option (State ι × Tokens ι) :=
  match σ.pc i with
  | .out | .parked => none
  | .wait =>
    match σ.semTryTake i with
    | some σ' => some (σ'.goto i (.ret true), tokens)
    | none => some (σ.goto i (match kind i with | .coro => .commit | .thrd => .enter), tokens)
  | .commit => (σ.spinLock i .commitTry).map (·, tokens)
  | .commitTry =>
    match σ.semTryTake i with
    | some σ' => some (σ'.goto i (.commitLeave false), tokens)
    | none => some (σ.goto i .commitPush, tokens)
  | .commitPush =>
    some ((σ.semPushWaiter i).goto i
      (if 0 < (σ.call (σ.waiter i)).timeoutMs then .commitArm else .commitLeave true), tokens)
  | .commitArm => some ({ σ with list := σ.list.timerStart (σ.waiter i) }.goto i (.commitLeave true), tokens)
  | .commitLeave stay => some (σ.spinUnlock.goto i (if stay then .parked else .resumed), tokens)
  | .resumed =>
    match σ.call (σ.waiter i) with
    | .wait => some (σ.goto i (.ret true), tokens)
    | .timedwait _ => some (σ.goto i (.stop (σ.list.timerFired (σ.waiter i))), tokens)
  | .stop fired => some ({ σ with list := σ.list.timerStop (σ.waiter i) }.goto i (.ret !fired), tokens)
  | .enter => (σ.spinLock i .check).map (·, tokens)
  | .check =>
    match σ.semTryTake i with
    | some σ' => some (σ'.goto i (.leave true), tokens)
    | none => some (σ.goto i .push, tokens)
  | .push => some ((σ.semPushWaiter i).goto i (.leave false), tokens)
  | .leave took => some (σ.spinUnlock.goto i (if took then .ret true else .await), tokens)
  | .await | .drain => (thrdWakeTry tokens i).map (σ.goto i (.ret true), ·)
  | .expired => (σ.spinLock i .cancel).map (·, tokens)
  | .cancel => some ((σ.semCancelWaiter i).1.goto i (.cancelLeave (σ.semCancelWaiter i).2), tokens)
  | .cancelLeave cancelled => some (σ.spinUnlock.goto i (if cancelled then .ret false else .drain), tokens)
  | .ret got => some (σ.returns i got, tokens)
  | .post => (σ.spinLock i .pop).map (·, tokens)
  | .pop =>
    match σ.semPopWaiter with
    | (σ', some r) => some (σ'.goto i (.postLeave (some r)), tokens)
    | (σ', none) => some (σ'.goto i .bank, tokens)
  | .bank => some ({ σ with count := (σ.count + 1) % 2 ^ 32, posts := σ.posts + 1 }.goto i (.postLeave none), tokens)
  | .postLeave target => some (σ.spinUnlock.goto i (match target with | some r => .wake r | none => .out), tokens)
  | .wake r => (σ.goto i .out).semWake kind tokens r

/-- `xylem_sem_wait` and `xylem_sem_timedwait`: a zero timeout is one attempt. -/
def semWait (call : Call) : State ι :=
  let σ := { σ with toFrame := σ.begin i call }
  if call = .timedwait 0 then
    match σ.semTryTake i with
    | some σ' => σ'.goto i (.ret true)
    | none => σ.goto i (.ret false)
  else σ.goto i .wait

def semTimeoutCb (r : Record ι) :
    Option (State ι × Tokens ι) :=
  if σ.list.timer r = .wake then { σ with list := σ.list.setTimer r .done }.semWake kind tokens r
  else (σ.list.timeoutCb r).map fun list => ({ σ with list := list }, tokens)

/-- One step of the semaphore: a call begins, or a call in progress or a timeout callback takes a step. -/
def step : Act ι → Option (State ι × Tokens ι)
  | .call i call => if σ.pc i = .out then some (σ.semWait i call, tokens) else none
  | .post i => if σ.pc i = .out then some (σ.goto i .post, tokens) else none
  | .run i => σ.run kind tokens i
  | .expire i =>
    if σ.pc i = .await ∧ 0 < (σ.call (σ.waiter i)).timeoutMs then some (σ.goto i .expired, tokens) else none
  | .timer r => σ.semTimeoutCb kind tokens r

end State

end Step

end Xylem.Sync.Sem
