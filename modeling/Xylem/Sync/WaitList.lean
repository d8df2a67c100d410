import Mathlib.Data.List.Nodup
import Xylem.Sync.Party

namespace Xylem.Sync

open List

/-- The call a waiter makes. -/
inductive Call
  | wait
  | timedwait (timeoutMs : Nat)
  deriving DecidableEq

/-- `timeout_ms` of the waiter: an untimed wait has none. -/
def Call.timeoutMs : Call → Nat
  | .wait => 0
  | .timedwait timeoutMs => timeoutMs

/-- One wait of a party: its `_waiter_t`. -/
abbrev Record (ι : Type*) := ι × Nat

/-- Where the timeout callback of a timed coroutine wait is (`_sem_timeout_cb`, `_cond_timeout_cb`). -/
inductive TimerPc
  | idle
  | armed
  | enter
  | cancel
  | leave (hit : Bool)
  | wake
  | done
  deriving DecidableEq

/-- Inside the guard. -/
@[grind] def TimerPc.guarded : TimerPc → Bool
  | .cancel | .leave _ => true
  | _ => false

/-- The callback has cancelled its waiter and is going to wake it. -/
@[grind] def TimerPc.hits : TimerPc → Bool
  | .leave hit => hit
  | .wake => true
  | _ => false

/-- The guarded waiter queue of a semaphore or a condition variable with the timers of its waiters. The last three
fields record what happened: who was queued, who was taken out of the queue in turn, and who by a cancellation. -/
structure WaitList (ι : Type*) where
  guard : Bool
  waiters : List (Record ι)
  timer : Record ι → TimerPc
  timerFired : Record ι → Bool
  pushed : List (Record ι)
  popped : List (Record ι)
  cancelled : Record ι → Bool

namespace WaitList

variable {ι : Type*}

def init : WaitList ι := ⟨false, [], fun _ => .idle, fun _ => false, [], [], fun _ => false⟩

variable (l : WaitList ι)

/-- `_sem_push_waiter`, `_cond_push_waiter`. -/
def pushWaiter (r : Record ι) : WaitList ι :=
  { l with waiters := l.waiters ++ [r], pushed := l.pushed ++ [r] }

/-- `_sem_pop_waiter`, `_cond_pop_waiter`. -/
def popWaiter : WaitList ι × Option (Record ι) :=
  match l.waiters with
  | [] => (l, none)
  | r :: rest => ({ l with waiters := rest, popped := l.popped ++ [r] }, some r)

theorem popWaiter_eq : l.popWaiter.1.waiters = l.waiters.tail ∧ l.popWaiter.2 = l.waiters.head? := by
  unfold popWaiter
  split <;> rename_i queue <;> simp [queue]

/-- The loop of `xylem_cond_broadcast`: waiters are popped until there is none. -/
def popAll : Nat → WaitList ι → WaitList ι × List (Record ι)
  | 0, l => (l, [])
  | n + 1, l =>
    match l.popWaiter with
    | (l, none) => (l, [])
    | (l, some r) => ((popAll n l).1, r :: (popAll n l).2)

theorem popAll_eq (n : Nat) (enough : l.waiters.length ≤ n) :
    l.popAll n = ({ l with waiters := [], popped := l.popped ++ l.waiters }, l.waiters) := by
  obtain ⟨guard, waiters, timer, fired, pushed, popped, cancelled⟩ := l
  induction waiters generalizing n popped with
  | nil => cases n <;> simp [popAll, popWaiter]
  | cons r rest ih =>
    cases n with
    | zero => cases enough
    | succ n => simp [popAll, popWaiter, ih n (popped ++ [r]) (Nat.le_of_succ_le_succ enough)]

/-- Waiters are taken out in the order in which they came in, except those that were cancelled. -/
structure Fifo : Prop where
  nodup : l.pushed.Nodup
  order : l.pushed.filter (fun r => !l.cancelled r) = l.popped ++ l.waiters
  known : ∀ r, l.cancelled r = true → r ∈ l.pushed

variable {l : WaitList ι} {r : Record ι}

theorem init_fifo : (init : WaitList ι).Fifo := ⟨nodup_nil, rfl, nofun⟩

section

variable (fifo : l.Fifo)
include fifo

theorem Fifo.mem_pushed (queued : r ∈ l.waiters) : r ∈ l.pushed :=
  mem_of_mem_filter (fifo.order ▸ mem_append_right _ queued)

theorem Fifo.not_cancelled (queued : r ∈ l.waiters) : l.cancelled r = false := by
  have kept := (mem_filter.mp (fifo.order ▸ mem_append_right _ queued : r ∈ l.pushed.filter _)).2
  simpa using kept

theorem Fifo.nodup_waiters : (l.popped ++ l.waiters).Nodup := fifo.order ▸ fifo.nodup.filter _

theorem Fifo.push (fresh : r ∉ l.pushed) : (l.pushWaiter r).Fifo where
  nodup := fifo.nodup.append (nodup_singleton r) (by simpa using fresh)
  order := by
    have kept : l.cancelled r = false := Bool.eq_false_iff.mpr fun gone => fresh (fifo.known r gone)
    simp [pushWaiter, filter_append, fifo.order, kept]
  known s gone := mem_append_left _ (fifo.known s gone)

theorem Fifo.pop {rest : List (Record ι)} (queue : l.waiters = r :: rest) :
    Fifo { l with waiters := rest, popped := l.popped ++ [r] } where
  nodup := fifo.nodup
  order := by simpa [queue] using fifo.order
  known := fifo.known

theorem Fifo.popAll : Fifo { l with waiters := [], popped := l.popped ++ l.waiters } where
  nodup := fifo.nodup
  order := by simpa using fifo.order
  known := fifo.known

end

variable [DecidableEq ι] (l : WaitList ι) (r : Record ι)

def removeWaiter : WaitList ι :=
  { l with waiters := l.waiters.erase r, cancelled := Function.update l.cancelled r true }

/-- `_sem_cancel_waiter`, `_cond_cancel_waiter`: a waiter is marked `queued` as long as it is in the list. -/
def cancelWaiter : WaitList ι × Bool :=
  if r ∈ l.waiters then (l.removeWaiter r, true) else (l, false)

def setTimer (pc : TimerPc) : WaitList ι :=
  { l with timer := Function.update l.timer r pc }

/-- `scheduler_timer_start` of a waiter's timer. -/
def timerStart : WaitList ι := l.setTimer r .armed

/-- `scheduler_timer_stop`: a callback that has begun runs to its end. -/
def timerStop : WaitList ι :=
  if l.timer r = .armed then l.setTimer r .done else l

/-- The timeout callback has taken its waiter out of the queue: `timer_fired` is stored. -/
def timeoutHit : WaitList ι :=
  { (l.removeWaiter r).setTimer r (.leave true) with timerFired := Function.update l.timerFired r true }

def timeoutCb : Option (WaitList ι) :=
  match l.timer r with
  | .armed => some (l.setTimer r .enter)
  | .enter => if l.guard then none else some { l.setTimer r .cancel with guard := true }
  | .cancel =>
    match l.cancelWaiter r with
    | (_, true) => some (l.timeoutHit r)
    | (l, false) => some (l.setTimer r (.leave false))
  | .leave hit => some { l.setTimer r (if hit then .wake else .done) with guard := false }
  | .idle | .wake | .done => none

/-- What a step of a timeout callback can do to the queue before its wake. -/
inductive TimerMove : WaitList ι → Prop
  | fire : l.timer r = .armed → TimerMove (l.setTimer r .enter)
  | enter : l.timer r = .enter → l.guard = false → TimerMove { l.setTimer r .cancel with guard := true }
  | hit : l.timer r = .cancel → r ∈ l.waiters → TimerMove (l.timeoutHit r)
  | miss : l.timer r = .cancel → r ∉ l.waiters → TimerMove (l.setTimer r (.leave false))
  | leave {hit} : l.timer r = .leave hit → TimerMove { l.setTimer r (if hit then .wake else .done) with guard := false }

theorem timeoutCb_move {l l' : WaitList ι} {r : Record ι} (step : l.timeoutCb r = some l') : l.TimerMove r l' := by
  unfold timeoutCb at step
  split at step <;> rename_i at_
  · cases step; exact .fire at_
  · split at step
    · cases step
    · cases step
      exact .enter at_ (Bool.eq_false_iff.mpr ‹_›)
  · unfold cancelWaiter at step
    by_cases queued : r ∈ l.waiters
    · simp only [queued, if_true] at step
      cases step
      exact .hit at_ queued
    · simp only [queued, if_false] at step
      cases step
      exact .miss at_ queued
  · cases step; exact .leave at_
  all_goals cases step

variable {l : WaitList ι} {r : Record ι}

theorem Fifo.cancel (fifo : l.Fifo) (queued : r ∈ l.waiters) : (l.removeWaiter r).Fifo where
  nodup := fifo.nodup
  order := by
    have split := nodup_append.mp fifo.nodup_waiters
    have popped : l.popped.filter (· != r) = l.popped :=
      filter_eq_self.mpr fun s here => by simpa using fun same : s = r => split.2.2 s here r queued same
    calc l.pushed.filter (fun s => !Function.update l.cancelled r true s)
        = (l.pushed.filter fun s => !l.cancelled s).filter (· != r) := by
          rw [filter_filter]
          refine filter_congr fun s _ => ?_
          by_cases same : s = r <;> simp [same]
      _ = l.popped ++ l.waiters.erase r := by
          rw [fifo.order, filter_append, popped, split.2.1.erase_eq_filter]
  known s gone := by
    by_cases same : s = r
    · exact same.symm ▸ fifo.mem_pushed queued
    · exact fifo.known s (by simpa [removeWaiter, same] using gone)

end WaitList

end Xylem.Sync
