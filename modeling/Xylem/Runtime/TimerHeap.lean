import Mathlib.Data.List.MinMax
import Mathlib.Data.List.Nodup
import Xylem.Lib.Run
import Xylem.Runtime.Timer

namespace Xylem.Runtime

open Lib List Option SchedulerTimer
open Function (update_of_ne update_self)

variable {ι κ : Type}

/-- The timers of a scheduler and the heaps of its workers, seen whenever a `timer_lock` is free. `passes` counts the
passes of `_sched_timer_process_due` over the heap, which any worker may make. -/
structure TimerHeaps (ι κ : Type) where
  timer : ι → SchedulerTimer
  heap : κ → List ι
  nextDeadline : κ → UInt64
  passes : κ → Nat
  destroyed : ι → Bool

/-- `call` and `returns` are the callback of an arm, inline or in a coroutine of its own; the coroutine may fail to
start. -/
inductive TimerAct (ι κ : Type)
  | start (i : ι) (now timeout repeatMs : UInt64)
  | stop (i : ι)
  | reset (i : ι) (now timeout : UInt64)
  | destroy (i : ι)
  | beginPass (w : κ)
  | take (i : ι) (now : UInt64)
  | call (i : ι) (a : Nat)
  | launchFails (i : ι) (a : Nat)
  | returns (i : ι) (a : Nat)
  | complete (i : ι) (a : Nat) (now : UInt64)
  | endPass (w : κ)

variable (timer : ι → SchedulerTimer) (heap : List ι)

/-- The timeout at the root of a heap. -/
def heapDeadline : UInt64 :=
  match heap.argmin fun i => (timer i).timeout.toNat with
  | some i => (timer i).timeout
  | none => uint64Max

/-- The deadline is that of the root of the heap. -/
def HeapExact (deadline : UInt64) : Prop :=
  heap = [] ∧ deadline = uint64Max ∨ ∃ i ∈ heap, deadline = (timer i).timeout

theorem heapDeadline_le {timer : ι → SchedulerTimer} {heap : List ι} {i : ι} (member : i ∈ heap) :
    heapDeadline timer heap ≤ (timer i).timeout := by
  unfold heapDeadline
  split
  · rename_i root is
    exact UInt64.le_iff_toNat_le.mpr (le_of_mem_argmin (f := fun i => (timer i).timeout.toNat) member is)
  · rename_i none_
    rw [argmin_eq_none.mp none_] at member
    cases member

theorem heapDeadline_exact : HeapExact timer heap (heapDeadline timer heap) := by
  unfold heapDeadline
  split
  · rename_i root is
    exact .inr ⟨root, argmin_mem is, rfl⟩
  · rename_i none_
    exact .inl ⟨argmin_eq_none.mp none_, rfl⟩

variable [DecidableEq ι] [DecidableEq κ]

namespace TimerHeaps

def init (spawn : ι → Bool) : TimerHeaps ι κ where
  timer i := .create (spawn i)
  heap _ := []
  nextDeadline _ := uint64Max
  passes _ := 0
  destroyed _ := false

variable (owner : ι → κ) (s : TimerHeaps ι κ)

def heapInsert (i : ι) : TimerHeaps ι κ :=
  { s with heap := Function.update s.heap (owner i) (i :: s.heap (owner i)) }

def heapRemove (i : ι) : TimerHeaps ι κ :=
  { s with heap := Function.update s.heap (owner i) ((s.heap (owner i)).erase i) }

/-- `_sched_timer_publish_next_deadline`. -/
def publish (w : κ) : TimerHeaps ι κ :=
  { s with nextDeadline := Function.update s.nextDeadline w (heapDeadline s.timer (s.heap w)) }

def setTimer (i : ι) (t : SchedulerTimer) : TimerHeaps ι κ :=
  { s with timer := Function.update s.timer i t }

/-- The switch in `scheduler_timer_start` and `scheduler_timer_reset`. -/
def rearm (i : ι) (t : SchedulerTimer) : TimerHeaps ι κ :=
  match (s.timer i).state with
  | .firing => s.setTimer i t
  | .queued => ((s.heapRemove owner i).setTimer i t).heapInsert owner i
  | .idle => (s.setTimer i t).heapInsert owner i

def schedulerTimerStart (i : ι) (now timeout repeatMs : UInt64) : TimerHeaps ι κ :=
  (s.rearm owner i ((s.timer i).start now timeout repeatMs)).publish (owner i)

def schedulerTimerReset (i : ι) (now timeout : UInt64) : TimerHeaps ι κ :=
  (s.rearm owner i ((s.timer i).reset now timeout).1).publish (owner i)

def schedulerTimerStop (i : ι) : TimerHeaps ι κ :=
  let t := (s.timer i).stop.1
  let next := match (s.timer i).state with
    | .queued => (s.heapRemove owner i).setTimer i t
    | .firing | .idle => s.setTimer i t
  next.publish (owner i)

def schedTimerFinishFire (i : ι) (now : UInt64) : TimerHeaps ι κ :=
  let t := s.timer i
  let next := s.setTimer i (t.finishFire now)
  if t.stopPending then next
  else if t.resetPending then next.heapInsert owner i
  else if t.repeatMs > 0 then next.heapInsert owner i
  else next

def schedTimerComplete (i : ι) (a : Nat) (now : UInt64) : TimerHeaps ι κ :=
  let s := s.setTimer i ((s.timer i).advance a .done)
  match (s.timer i).state with
  | .firing => (s.schedTimerFinishFire owner i now).publish (owner i)
  | .idle | .queued => s

def step : TimerAct ι κ → Option (TimerHeaps ι κ)
  | .start i now timeout repeatMs =>
    if s.destroyed i then none else some (s.schedulerTimerStart owner i now timeout repeatMs)
  | .stop i => if s.destroyed i then none else some (s.schedulerTimerStop owner i)
  | .reset i now timeout => if s.destroyed i then none else some (s.schedulerTimerReset owner i now timeout)
  | .destroy i =>
    if s.destroyed i then none
    else some { s.schedulerTimerStop owner i with destroyed := Function.update s.destroyed i true }
  | .beginPass w => some { s with passes := Function.update s.passes w (s.passes w + 1) }
  | .take i now =>
    let heap := s.heap (owner i)
    if s.passes (owner i) = 0 then none
    else if i ∈ heap ∧ (∀ j ∈ heap, (s.timer i).timeout ≤ (s.timer j).timeout) ∧ (s.timer i).timeout ≤ now then
      -- `heap_dequeue` removes the root
      some ((s.heapRemove owner i).setTimer i (s.timer i).take)
    else none
  | .call i a => if (s.timer i).arms a = .taken then some (s.setTimer i ((s.timer i).advance a .running)) else none
  | .launchFails i a =>
    if (s.timer i).arms a = .taken ∧ (s.timer i).spawn then some (s.setTimer i ((s.timer i).advance a .returned))
    else none
  | .returns i a => if (s.timer i).arms a = .running then some (s.setTimer i ((s.timer i).advance a .returned)) else none
  | .complete i a now =>
    if (s.timer i).arms a = .returned then some (s.schedTimerComplete owner i a now) else none
  | .endPass w =>
    if s.passes w = 0 then none
    else some { s.publish w with passes := Function.update s.passes w (s.passes w - 1) }

/-- A timer with its new state, and the heap of its owner as the states before and after ask for it. -/
def put (i : ι) (t : SchedulerTimer) : TimerHeaps ι κ :=
  let heap := if (s.timer i).state = .queued then (s.heap (owner i)).erase i else s.heap (owner i)
  { s with
    timer := Function.update s.timer i t
    heap := Function.update s.heap (owner i) (if t.state = .queued then i :: heap else heap) }

def locked (i : ι) (t : SchedulerTimer) : TimerHeaps ι κ :=
  (s.put owner i t).publish (owner i)

structure Inv : Prop where
  good : ∀ i, (s.timer i).Good
  nodup : ∀ w, (s.heap w).Nodup
  mem : ∀ w i, i ∈ s.heap w ↔ w = owner i ∧ (s.timer i).state = .queued
  early : ∀ w, ∀ i ∈ s.heap w, s.nextDeadline w ≤ (s.timer i).timeout
  exact_ : ∀ w, s.passes w = 0 → HeapExact s.timer (s.heap w) (s.nextDeadline w)

variable {owner : ι → κ} {s : TimerHeaps ι κ}

@[simp] theorem put_timer_self (i : ι) (t : SchedulerTimer) : (s.put owner i t).timer i = t := update_self ..

theorem put_timer_of_ne {i j : ι} (other : j ≠ i) (t : SchedulerTimer) : (s.put owner i t).timer j = s.timer j :=
  update_of_ne other ..

theorem put_heap_of_ne {i : ι} {w : κ} (other : w ≠ owner i) (t : SchedulerTimer) :
    (s.put owner i t).heap w = s.heap w :=
  update_of_ne other ..

section Operations

variable {i : ι} {u : SchedulerTimer}

theorem put_of_leaves (queued : (s.timer i).state = .queued) (leaves : u.state ≠ .queued) :
    (s.heapRemove owner i).setTimer i u = s.put owner i u := by
  simp [setTimer, heapRemove, put, queued, leaves]

theorem put_of_stays (out : (s.timer i).state ≠ .queued) (stays : u.state ≠ .queued) :
    s.setTimer i u = s.put owner i u := by
  simp [setTimer, put, out, stays]

theorem put_of_enters (out : (s.timer i).state ≠ .queued) (enters : u.state = .queued) :
    (s.setTimer i u).heapInsert owner i = s.put owner i u := by
  simp [setTimer, heapInsert, put, out, enters]

theorem put_of_again (queued : (s.timer i).state = .queued) (enters : u.state = .queued) :
    ((s.heapRemove owner i).setTimer i u).heapInsert owner i = s.put owner i u := by
  simp [setTimer, heapInsert, heapRemove, put, queued, enters]

theorem rearm_eq (state : u.state = if (s.timer i).state = .firing then .firing else .queued) :
    s.rearm owner i u = s.put owner i u := by
  unfold rearm
  split <;> rename_i is <;> simp [is] at state
  · exact put_of_stays (by simp [is]) (by simp [state])
  · exact put_of_again is state
  · exact put_of_enters (by simp [is]) state

theorem schedulerTimerStart_eq (now timeout repeatMs : UInt64) :
    s.schedulerTimerStart owner i now timeout repeatMs = s.locked owner i ((s.timer i).start now timeout repeatMs) := by
  rw [schedulerTimerStart, rearm_eq (u := (s.timer i).start now timeout repeatMs) (schedule_state now timeout)]
  rfl

theorem schedulerTimerReset_eq (now timeout : UInt64) :
    s.schedulerTimerReset owner i now timeout = s.locked owner i ((s.timer i).reset now timeout).1 := by
  rw [schedulerTimerReset, rearm_eq (u := ((s.timer i).reset now timeout).1) (schedule_state now timeout)]
  rfl

theorem schedulerTimerStop_eq : s.schedulerTimerStop owner i = s.locked owner i (s.timer i).stop.1 := by
  unfold schedulerTimerStop locked
  dsimp only
  split <;> rename_i is
  · rw [put_of_leaves is (by simp [stop, is])]
  all_goals rw [put_of_stays (by simp [is]) (by simp [stop, settle, is])]

theorem schedTimerComplete_eq {a : Nat} (firing : (s.timer i).state = .firing) (now : UInt64) :
    s.schedTimerComplete owner i a now = s.locked owner i ((s.timer i).complete a now) := by
  have out : (s.timer i).state ≠ .queued := by simp [firing]
  have set : (s.setTimer i ((s.timer i).advance a .done)).timer i = (s.timer i).advance a .done := update_self ..
  have state : ((s.timer i).advance a .done).state = .firing := firing
  have twice : ∀ u, (s.setTimer i ((s.timer i).advance a .done)).setTimer i u = s.setTimer i u := by
    simp [setTimer]
  have finish : (s.setTimer i ((s.timer i).advance a .done)).schedTimerFinishFire owner i now =
      s.put owner i (((s.timer i).advance a .done).finishFire now) := by
    unfold schedTimerFinishFire
    simp only [set, twice]
    generalize (s.timer i).advance a .done = t
    split
    · exact put_of_stays out (by simp [finishFire, *])
    split
    · exact put_of_enters out (by simp [finishFire, *])
    split
    · exact put_of_enters out (by simp [finishFire, *])
    · exact put_of_stays out (by simp [finishFire, *])
  unfold schedTimerComplete
  simp only [set, state, finish, locked, complete, firing]

end Operations

section

variable (inv : s.Inv owner)
include inv

/-- The heap of the owner without the timer, and with it if its new state says so. -/
theorem Inv.put_heap (i : ι) (t : SchedulerTimer) : (s.put owner i t).heap (owner i) =
      if t.state = .queued then i :: (s.heap (owner i)).erase i else (s.heap (owner i)).erase i := by
  have taken : (if (s.timer i).state = .queued then (s.heap (owner i)).erase i else s.heap (owner i)) =
      (s.heap (owner i)).erase i := by
    split
    · rfl
    · rename_i not
      exact (erase_of_not_mem fun member => not ((inv.mem _ _).mp member).2).symm
  unfold put
  dsimp only
  rw [update_self, taken]

theorem Inv.put_nodup (i : ι) (t : SchedulerTimer) (w : κ) : ((s.put owner i t).heap w).Nodup := by
  by_cases same : w = owner i
  · rw [same, inv.put_heap]
    have rest := (inv.nodup (owner i)).erase i
    split
    · exact nodup_cons.mpr ⟨fun member => (List.Nodup.mem_erase_iff (inv.nodup _)).mp member |>.1 rfl, rest⟩
    · exact rest
  · rw [put_heap_of_ne same]
    exact inv.nodup w

theorem Inv.put_mem (i : ι) (t : SchedulerTimer) (w : κ) (j : ι) :
    j ∈ (s.put owner i t).heap w ↔ w = owner j ∧ ((s.put owner i t).timer j).state = .queued := by
  have erased : ∀ j, j ∈ (s.heap (owner i)).erase i ↔ j ≠ i ∧ j ∈ s.heap (owner i) := fun j =>
    List.Nodup.mem_erase_iff (inv.nodup _)
  by_cases is : j = i
  · rw [is, put_timer_self]
    by_cases same : w = owner i
    · rw [same, inv.put_heap]
      split
      · rename_i queued
        simp [queued]
      · rename_i not
        simp [erased, not]
    · rw [put_heap_of_ne same, inv.mem]
      simp [same]
  · rw [put_timer_of_ne is, ← inv.mem]
    by_cases same : w = owner i
    · rw [same, inv.put_heap]
      split <;> simp [erased, is]
    · rw [put_heap_of_ne same]

/-- What a heap says does not depend on a timer that is not in it. -/
theorem Inv.put_early {i : ι} {w : κ} (other : w ≠ owner i) (t : SchedulerTimer) :
    (∀ j ∈ (s.put owner i t).heap w, s.nextDeadline w ≤ ((s.put owner i t).timer j).timeout) ∧
      (s.passes w = 0 → HeapExact (s.put owner i t).timer ((s.put owner i t).heap w) (s.nextDeadline w)) := by
  have same : ∀ j ∈ s.heap w, (s.put owner i t).timer j = s.timer j := fun j member =>
    put_timer_of_ne (fun is => other (by rw [← is]; exact ((inv.mem w j).mp member).1)) t
  rw [put_heap_of_ne other]
  refine ⟨fun j member => by rw [same j member]; exact inv.early w j member, fun none_ => ?_⟩
  rcases inv.exact_ w none_ with empty | ⟨j, member, is⟩
  · exact .inl empty
  · exact .inr ⟨j, member, by rw [same j member]; exact is⟩

theorem Inv.put_good (i : ι) {t : SchedulerTimer} (good : t.Good) (j : ι) : ((s.put owner i t).timer j).Good := by
  by_cases is : j = i
  · rw [is, put_timer_self]
    exact good
  · rw [put_timer_of_ne is]
    exact inv.good j

end

omit [DecidableEq ι] in
theorem publish_deadline {v w : κ} {P : Prop}
    (others : v ≠ w → (∀ i ∈ s.heap v, s.nextDeadline v ≤ (s.timer i).timeout) ∧
      (P → HeapExact s.timer (s.heap v) (s.nextDeadline v))) :
    (∀ i ∈ s.heap v, (s.publish w).nextDeadline v ≤ (s.timer i).timeout) ∧
      (P → HeapExact s.timer (s.heap v) ((s.publish w).nextDeadline v)) := by
  unfold publish
  dsimp only
  by_cases same : v = w
  · subst same
    rw [update_self]
    exact ⟨fun i member => heapDeadline_le member, fun _ => heapDeadline_exact _ _⟩
  · rw [update_of_ne same]
    exact others same

/-- An operation under the lock keeps the invariant if it keeps the timer good. -/
theorem Inv.locked (inv : s.Inv owner) (i : ι) {t : SchedulerTimer} (good : t.Good) :
    (s.locked owner i t).Inv owner := by
  have deadline := fun w => publish_deadline fun other : w ≠ owner i => inv.put_early other t
  exact ⟨inv.put_good i good, inv.put_nodup i t, inv.put_mem i t, fun w => (deadline w).1, fun w => (deadline w).2⟩

/-- The root of a heap is taken in a pass. The published deadline waits for the end of the pass. -/
theorem Inv.take (inv : s.Inv owner) {i : ι} (pass : s.passes (owner i) ≠ 0) (queued : (s.timer i).state = .queued) :
    (s.put owner i (s.timer i).take).Inv owner := by
  refine ⟨inv.put_good i ((inv.good i).take queued), inv.put_nodup i _, inv.put_mem i _, fun w j member => ?_,
    fun w none_ => ?_⟩
  · by_cases same : w = owner i
    · have is : j ≠ i := fun is => by
        rw [inv.put_mem, is, put_timer_self] at member
        cases member.2
      rw [put_timer_of_ne is]
      rw [inv.put_mem, put_timer_of_ne is, ← inv.mem] at member
      exact inv.early w j member
    · exact (inv.put_early same _).1 j member
  · by_cases same : w = owner i
    · exact absurd (same ▸ none_) pass
    · exact (inv.put_early same _).2 none_

omit [DecidableEq κ] in
theorem Inv.setTimer (inv : s.Inv owner) (i : ι) {t : SchedulerTimer} (good : t.Good)
    (state : t.state = (s.timer i).state) (timeout : t.timeout = (s.timer i).timeout) : (s.setTimer i t).Inv owner := by
  have same : ∀ j, ((s.setTimer i t).timer j).state = (s.timer j).state ∧
      ((s.setTimer i t).timer j).timeout = (s.timer j).timeout := fun j => by
    unfold TimerHeaps.setTimer
    by_cases is : j = i
    · simp [is, state, timeout]
    · simp [update_of_ne is]
  refine ⟨fun j => ?_, inv.nodup, fun w j => ?_, fun w j member => ?_, fun w none_ => ?_⟩
  · unfold TimerHeaps.setTimer
    by_cases is : j = i
    · simpa [is] using good
    · simpa [update_of_ne is] using inv.good j
  · rw [(same j).1]
    exact inv.mem w j
  · rw [(same j).2]
    exact inv.early w j member
  · rcases inv.exact_ w none_ with empty | ⟨j, member, is⟩
    · exact .inl empty
    · exact .inr ⟨j, member, by rw [(same j).2]; exact is⟩

omit [DecidableEq ι] [DecidableEq κ] in
theorem inv_init (owner : ι → κ) (spawn : ι → Bool) : (init spawn : TimerHeaps ι κ).Inv owner :=
  ⟨fun _ => good_create _, fun _ => nodup_nil, fun _ _ => by simp [init, create],
    fun _ _ member => (nomatch member), fun _ _ => .inl ⟨rfl, rfl⟩⟩

/-- What a step does: an operation under the lock of the owner, the taking of a root, a stage of a fire outside the
lock, or the begin or end of a pass. -/
inductive Move (owner : ι → κ) (s : TimerHeaps ι κ) : TimerHeaps ι κ → Prop
  | locked {i t destroyed} : t.Good → (s.timer i).Keeps t → Move owner s { s.locked owner i t with destroyed }
  | take {i} : s.passes (owner i) ≠ 0 → (s.timer i).state = .queued → Move owner s (s.put owner i (s.timer i).take)
  | stage {i a next} : ((s.timer i).arms a).inFlight = true → Arm.inFlight next = true →
      Move owner s (s.setTimer i ((s.timer i).advance a next))
  | beginPass {w} : Move owner s { s with passes := Function.update s.passes w (s.passes w + 1) }
  | endPass {w} : Move owner s { s.publish w with passes := Function.update s.passes w (s.passes w - 1) }

variable {t : TimerHeaps ι κ} {act : TimerAct ι κ}

section

variable (moved : s.step owner act = some t)
include moved

theorem Inv.move (inv : s.Inv owner) : Move owner s t := by
  cases act with
  | start i now timeout repeatMs =>
    obtain ⟨-, is⟩ := ite_none_left_eq_some.mp moved
    rw [schedulerTimerStart_eq] at is
    cases is
    exact .locked ((inv.good i).start now timeout repeatMs) ((inv.good i).keeps_start now timeout repeatMs)
  | stop i | destroy i =>
    obtain ⟨-, is⟩ := ite_none_left_eq_some.mp moved
    rw [schedulerTimerStop_eq] at is
    cases is
    exact .locked (inv.good i).stop (s.timer i).keeps_stop
  | reset i now timeout =>
    obtain ⟨-, is⟩ := ite_none_left_eq_some.mp moved
    rw [schedulerTimerReset_eq] at is
    cases is
    exact .locked ((inv.good i).reset now timeout) ((inv.good i).keeps_reset now timeout)
  | beginPass w =>
    cases moved
    exact .beginPass
  | take i now =>
    obtain ⟨pass, moved⟩ := ite_none_left_eq_some.mp moved
    obtain ⟨root, is⟩ := ite_none_right_eq_some.mp moved
    have queued := ((inv.mem _ _).mp root.1).2
    rw [put_of_leaves queued (show TimerState.firing ≠ .queued by decide)] at is
    cases is
    exact .take pass queued
  | call i a | returns i a =>
    obtain ⟨at_, is⟩ := ite_none_right_eq_some.mp moved
    cases is
    exact .stage (by rw [at_]; rfl) rfl
  | launchFails i a =>
    obtain ⟨at_, is⟩ := ite_none_right_eq_some.mp moved
    cases is
    exact .stage (by rw [at_.1]; rfl) rfl
  | complete i a now =>
    obtain ⟨returned, moved⟩ := ite_none_right_eq_some.mp moved
    rw [schedTimerComplete_eq ((inv.good i).fires.mp ⟨a, by rw [returned]; rfl⟩)] at moved
    cases moved
    exact .locked ((inv.good i).complete returned now) ((inv.good i).keeps_complete returned now)
  | endPass w =>
    obtain ⟨-, is⟩ := ite_none_left_eq_some.mp moved
    cases is
    exact .endPass

theorem Inv.step (inv : s.Inv owner) : t.Inv owner := by
  cases inv.move moved with
  | @locked i _ _ good =>
    have next := inv.locked i good
    exact ⟨next.good, next.nodup, next.mem, next.early, next.exact_⟩
  | take pass queued => exact inv.take pass queued
  | stage flight stays => exact inv.setTimer _ ((inv.good _).advance flight stays) rfl rfl
  | @beginPass w =>
    refine ⟨inv.good, inv.nodup, inv.mem, inv.early, fun v none_ => ?_⟩
    by_cases same : v = w
    · subst same
      simp at none_
    · exact inv.exact_ v (by simpa [update_of_ne same] using none_)
  | @endPass w =>
    have deadline := fun v => publish_deadline fun other : v ≠ w =>
      ⟨inv.early v, fun none_ : Function.update s.passes w (s.passes w - 1) v = 0 =>
        inv.exact_ v (by simpa [update_of_ne other] using none_)⟩
    exact ⟨inv.good, inv.nodup, inv.mem, fun v => (deadline v).1, fun v => (deadline v).2⟩

end

end TimerHeaps

end Xylem.Runtime
