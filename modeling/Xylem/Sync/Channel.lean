import Xylem.Container.Mpsc
import Xylem.Lib.Run
import Xylem.Sync.WaitList

namespace Xylem.Sync.Channel

open Container

variable (ι : Type*)

/-- The n-th message of a sender. -/
abbrev Msg := ι × Nat

/-- `ch->waiter`: one of the states of `_channel_waiter_state_t` or the waiter of the receiver. -/
inductive Word
  | none
  | wait
  | closed
  | waiter (r : Record ι)
  deriving DecidableEq

/-- Where `_channel_timeout_cb` of a timed coroutine receive is. -/
inductive TimerPc
  | idle
  | armed
  | transition
  | wake (r : Record ι)
  | done
  deriving DecidableEq

inductive Pc
  | out
  /-- `xylem_channel_send`. -/
  | send
  | sendCount
  | sendClear
  | sendPush
  | sendLink (prev : Option (Msg ι))
  | sendTransition
  | sendWake (r : Record ι)
  /-- `xylem_channel_close`. -/
  | close
  | closeWake (r : Record ι)
  /-- The `mpsc_pop` of `_channel_try_take`. -/
  | pop (at_ : Mpsc.PopPc (Msg ι))
  | took (m : Msg ι)
  /-- `_channel_timedwait_coro` before its first load of `timer_fired`. -/
  | fired
  | closed
  /-- `_channel_wait_pending_send`. -/
  | pending
  /-- A coroutine before it stores `CHANNEL_WAITER_WAIT`. -/
  | reserve
  | reserved
  | reservedClosed
  | reservedFired
  | unreserve
  /-- `_channel_wait_commit_cb`, run after the coroutine has yielded. -/
  | commit
  | parked
  /-- `_channel_publish_waiter` of a thread. -/
  | publish
  | published
  | publishedPop
  | withdraw
  /-- `thrd_wake_wait` or `thrd_wake_timedwait`. -/
  | await
  /-- `_channel_cancel_waiter` of a timed thread. -/
  | cancel
  | drain
  | stop (payload : Option (Msg ι))
  | ret (payload : Option (Msg ι))
  | aborted
  deriving DecidableEq

/-- `struct xylem_channel_s` and its users. A party numbers its receives with `epoch`, and `sends` counts its pushes.
The last two fields record the messages in the order of their pushes and those that receives returned. -/
structure State where
  queue : Mpsc.Queue (Msg ι)
  waiter : Word ι
  receiving : Bool
  count : Nat
  timer : Record ι → TimerPc ι
  timerFired : Record ι → Bool
  pc : ι → Pc ι
  epoch : ι → Nat
  call : Record ι → Call
  sends : ι → Nat
  sent : List (Msg ι)
  received : List (Msg ι)

inductive Act
  | send (i : ι)
  | close (i : ι)
  | recv (i : ι) (call : Call)
  | run (i : ι)
  /-- `thrd_wake_timedwait` gives up. -/
  | expire (i : ι)
  | timer (r : Record ι)

variable {ι : Type*}

def create : State ι where
  queue := Mpsc.init
  waiter := .none
  receiving := false
  count := 0
  timer _ := .idle
  timerFired _ := false
  pc _ := .out
  epoch _ := 0
  call _ := .wait
  sends _ := 0
  sent := []
  received := []

variable (σ : State ι) (i : ι)

def State.record : Record ι := (i, σ.epoch i)

def State.message : Msg ι := (i, σ.sends i + 1)

section Step

variable [DecidableEq ι] (σ : State ι) (i : ι)

def State.goto (pc : Pc ι) : State ι := { σ with pc := Function.update σ.pc i pc }

/-- A compare-and-swap of the waiter word by a party, with where it goes on success and on failure. -/
def State.casWaiter (expected next : Word ι) (success failure : Pc ι) : State ι :=
  if σ.waiter = expected then { σ with waiter := next }.goto i success else σ.goto i failure

/-- `_channel_transition_waiter` to `CHANNEL_WAITER_NONE`: the loop as one read-modify-write. -/
def State.channelTransitionNone : State ι × Option (Record ι) :=
  match σ.waiter with
  | .none | .closed => (σ, none)
  | .wait => ({ σ with waiter := .none }, none)
  | .waiter r => ({ σ with waiter := .none }, some r)

/-- `_channel_transition_waiter` to `CHANNEL_WAITER_CLOSED`; a second close aborts. -/
def State.channelTransitionClosed : Option (State ι × Option (Record ι)) :=
  match σ.waiter with
  | .closed => none
  | .none | .wait => some ({ σ with waiter := .closed }, none)
  | .waiter r => some ({ σ with waiter := .closed }, some r)

variable (kind : ι → Kind) (σ : State ι) (tokens : Tokens ι) (r : Record ι)

/-- `_channel_wake`: readying a coroutine that is not parked would abort, which is no step. -/
def State.channelWake :
    Option (State ι × Tokens ι) :=
  match kind r.1 with
  | .coro => if σ.pc r.1 = .parked ∧ σ.record r.1 = r then some (σ.goto r.1 (.pop .start), tokens) else none
  | .thrd => some (σ, thrdWakeSignal tokens r.1)

variable (i : ι)

namespace State

/-- A receive ends with a payload: a timed coroutine stops its timer first. -/
def finish (payload : Option (Msg ι)) : Pc ι :=
  if kind i = .coro ∧ 0 < (σ.call (σ.record i)).timeoutMs then .stop payload else .ret payload

/-- Where a receive goes on after a `_channel_try_take` without a message. -/
def missed : Pc ι :=
  match σ.call (σ.record i) with
  | .timedwait 0 => .ret none
  | .timedwait (_ + 1) => if kind i = .coro then .fired else .closed
  | .wait => .closed

/-- `scheduler_timer_stop`: a callback that has begun runs to its end. -/
def timerStop : State ι :=
  if σ.timer r = .armed then { σ with timer := Function.update σ.timer r .done } else σ

def run : Option (State ι × Tokens ι) :=
  let timed := decide (0 < (σ.call (σ.record i)).timeoutMs)
  let again : Pc ι := .pop .start
  match σ.pc i with
  | .out | .parked | .aborted => none
  | .send => some (σ.goto i (if σ.waiter = .closed then .aborted else .sendCount), tokens)
  | .sendCount => some ({ σ with count := σ.count + 1 }.goto i .sendClear, tokens)
  | .sendClear => some ({ σ with queue := σ.queue.clear (some (σ.message i)) }.goto i .sendPush, tokens)
  | .sendPush =>
    some ({ σ with
      queue := σ.queue.exchange (some (σ.message i))
      sends := Function.update σ.sends i (σ.sends i + 1)
      sent := σ.sent ++ [σ.message i] }.goto i (.sendLink σ.queue.tail), tokens)
  | .sendLink prev => some ({ σ with queue := σ.queue.link prev (some (i, σ.sends i)) }.goto i .sendTransition, tokens)
  | .sendTransition =>
    some (σ.channelTransitionNone.1.goto i
      (match σ.channelTransitionNone.2 with | some r => .sendWake r | none => .out), tokens)
  | .sendWake r => (σ.goto i .out).channelWake kind tokens r
  | .close =>
    match σ.channelTransitionClosed with
    | none => some (σ.goto i .aborted, tokens)
    | some (σ', some r) => some (σ'.goto i (.closeWake r), tokens)
    | some (σ', none) => some (σ'.goto i .out, tokens)
  | .closeWake r => (σ.goto i .out).channelWake kind tokens r
  | .pop at_ =>
    match σ.queue.pop at_ with
    | (queue, .goto at_) => some ({ σ with queue := queue }.goto i (.pop at_), tokens)
    | (queue, .done (some m)) => some ({ σ with queue := queue }.goto i (.took m), tokens)
    | (queue, .done none) => some ({ σ with queue := queue }.goto i (σ.missed kind i), tokens)
  | .took m => some ({ σ with count := σ.count - 1 }.goto i (σ.finish kind i (some m)), tokens)
  | .fired => some (σ.goto i (if σ.timerFired (σ.record i) then .stop none else .closed), tokens)
  | .closed =>
    some (σ.goto i (if σ.waiter = .closed then .pending
      else match kind i with | .coro => .reserve | .thrd => .publish), tokens)
  | .pending => some (σ.goto i (if σ.count = 0 then σ.finish kind i none else again), tokens)
  | .reserve =>
    some (σ.casWaiter i .none .wait .reserved (if σ.waiter = .closed then again else .aborted), tokens)
  | .reserved => some (σ.goto i (if σ.queue.canPop then .unreserve else .reservedClosed), tokens)
  | .reservedClosed =>
    some (σ.goto i (if σ.waiter = .closed then .unreserve else if timed then .reservedFired else .commit), tokens)
  | .reservedFired => some (σ.goto i (if σ.timerFired (σ.record i) then .unreserve else .commit), tokens)
  | .unreserve => some (σ.casWaiter i .wait .none again again, tokens)
  | .commit => some (σ.casWaiter i .wait (.waiter (σ.record i)) .parked again, tokens)
  | .publish => some (σ.casWaiter i .none (.waiter (σ.record i)) .published again, tokens)
  | .published => some (σ.goto i (if σ.waiter = .closed then .withdraw else .publishedPop), tokens)
  | .publishedPop => some (σ.goto i (if σ.queue.canPop then .withdraw else .await), tokens)
  | .withdraw => some (σ.casWaiter i (.waiter (σ.record i)) .none again .await, tokens)
  | .await | .drain => (thrdWakeTry tokens i).map (σ.goto i again, ·)
  | .cancel => some (σ.casWaiter i (.waiter (σ.record i)) .none (.ret none) .drain, tokens)
  | .stop payload => some ((σ.timerStop (σ.record i)).goto i (.ret payload), tokens)
  | .ret payload =>
    some ({ σ with receiving := false, received := σ.received ++ payload.toList }.goto i .out, tokens)

/-- `xylem_channel_recv` and `xylem_channel_recv_timeout`: a timed coroutine starts its timer. -/
def channelRecv (call : Call) : State ι :=
  let r := (i, σ.epoch i + 1)
  let σ : State ι := { σ with
    receiving := true
    epoch := Function.update σ.epoch i (σ.epoch i + 1)
    call := Function.update σ.call r call
    timer := if kind i = .coro ∧ 0 < call.timeoutMs then Function.update σ.timer r .armed else σ.timer }
  σ.goto i (.pop .start)

/-- `_channel_timeout_cb`: it may find the waiter of a later receive. -/
def channelTimeoutCb (t : Record ι) :
    Option (State ι × Tokens ι) :=
  let set := fun (σ : State ι) pc => { σ with timer := Function.update σ.timer t pc }
  match σ.timer t with
  | .idle | .done => none
  | .armed => some ({ set σ .transition with timerFired := Function.update σ.timerFired t true }, tokens)
  | .transition =>
    some (set σ.channelTransitionNone.1
      (match σ.channelTransitionNone.2 with | some r => .wake r | none => .done), tokens)
  | .wake r => (set σ .done).channelWake kind tokens r

/-- One step of the channel: a call begins, or a call in progress or a timeout callback takes a step. A second receiver
would abort, which is no step. -/
def step : Act ι → Option (State ι × Tokens ι)
  | .send i => if σ.pc i = .out then some (σ.goto i .send, tokens) else none
  | .close i => if σ.pc i = .out then some (σ.goto i .close, tokens) else none
  | .recv i call => if σ.pc i = .out ∧ σ.receiving = false then some (σ.channelRecv kind i call, tokens) else none
  | .run i => σ.run kind tokens i
  | .expire i =>
    if σ.pc i = .await ∧ 0 < (σ.call (σ.record i)).timeoutMs then some (σ.goto i .cancel, tokens) else none
  | .timer t => σ.channelTimeoutCb kind tokens t

end State

end Step

def Pc.sending : Pc ι → Bool
  | .send | .sendCount | .sendClear | .sendPush | .sendLink _ | .sendTransition | .sendWake _ => true
  | _ => false

/-- The users keep the contract: sends do not race with the only close. -/
def State.Contract : Act ι → Prop
  | .send _ => σ.waiter ≠ .closed ∧ ∀ j, σ.pc j ≠ .close
  | .close _ => σ.waiter ≠ .closed ∧ ∀ j, σ.pc j ≠ .close ∧ (σ.pc j).sending = false
  | _ => True

end Xylem.Sync.Channel
