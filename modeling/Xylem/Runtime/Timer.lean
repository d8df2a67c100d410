import Mathlib.Logic.Function.Basic

namespace Xylem.Runtime

open Function (update_of_ne)

inductive TimerState
  | idle
  | queued
  | firing
deriving DecidableEq

/-- What has become of an arm, a request to run the callback once. A pending arm is in the heap, or deferred until the
running callback has returned; `start` replaces it, `stop` and `reset` remove it, and the end of a fire drops it if a
stop is pending. -/
inductive Arm
  | unused
  | pending
  | taken
  | running
  | returned
  | done
  | replaced
  | removed
  | dropped
deriving DecidableEq

/-- The arm was taken off the heap, and its fire is not complete. -/
def Arm.inFlight : Arm → Bool
  | .taken | .running | .returned => true
  | _ => false

/-- `scheduler_timer_s`. The arms so far are numbered; `arms` says what has become of each. -/
structure SchedulerTimer where
  state : TimerState
  stopPending : Bool
  resetPending : Bool
  timeout : UInt64
  repeatMs : UInt64
  spawn : Bool
  arms : Nat → Arm
  used : Nat

def uint64Max : UInt64 := 0xFFFFFFFFFFFFFFFF

/-- A time from now on, within the range of the clock. -/
def deadlineAt (now timeout : UInt64) : UInt64 :=
  if timeout > uint64Max - now then uint64Max else now + timeout

namespace SchedulerTimer

def create (spawn : Bool) : SchedulerTimer :=
  { state := .idle, stopPending := false, resetPending := false, timeout := 0, repeatMs := 0, spawn,
    arms := fun _ => .unused, used := 0 }

variable (t : SchedulerTimer)

/-- The pending arm, if there is one, comes to its end. -/
def settle (fate : Arm) : SchedulerTimer :=
  { t with arms := fun a => if t.arms a = .pending then fate else t.arms a }

def arm : SchedulerTimer :=
  { t with arms := Function.update t.arms t.used .pending, used := t.used + 1 }

variable (now timeout : UInt64)

/-- What `start` and `reset` do to the state: a fire in progress defers them. -/
def schedule : SchedulerTimer :=
  match t.state with
  | .firing => { t with resetPending := true, timeout }
  | .queued | .idle => { t with timeout := deadlineAt now timeout, resetPending := false, state := .queued }

/-- `scheduler_timer_start`, the part under the lock. -/
def start (now timeout repeatMs : UInt64) : SchedulerTimer :=
  { (t.settle .replaced).arm with repeatMs }.schedule now timeout

/-- `scheduler_timer_stop`, with its result. -/
def stop : SchedulerTimer × Bool :=
  match t.state with
  | .queued => ({ t.settle .removed with state := .idle, stopPending := false, resetPending := false }, true)
  | .firing => ({ t.settle .removed with stopPending := true, resetPending := false }, t.resetPending)
  | .idle => (t, false)

/-- `scheduler_timer_reset`, with its result. -/
def reset : SchedulerTimer × Bool :=
  ({ (t.settle .removed).arm with repeatMs := if t.repeatMs != 0 then timeout else t.repeatMs }.schedule now timeout,
    t.state == .queued || t.state == .firing && t.resetPending)

def finishFire (now : UInt64) : SchedulerTimer :=
  if t.stopPending then { t.settle .dropped with stopPending := false, resetPending := false, state := .idle }
  else if t.resetPending then
    { t with timeout := deadlineAt now t.timeout, resetPending := false, state := .queued }
  else if t.repeatMs > 0 then { t.arm with timeout := deadlineAt now t.repeatMs, state := .queued }
  else { t with state := .idle }

/-- `_sched_timer_process_due` takes the timer off the heap. -/
def take : SchedulerTimer := { t.settle .taken with state := .firing }

/-- An arm of which the fire goes on. -/
def advance (a : Nat) (next : Arm) : SchedulerTimer :=
  { t with arms := Function.update t.arms a next }

/-- `_sched_timer_complete`, the part under the lock. -/
def complete (a : Nat) (now : UInt64) : SchedulerTimer :=
  match t.state with
  | .firing => (t.advance a .done).finishFire now
  | .idle | .queued => t.advance a .done

/-- The arms agree with the state: one is pending if the timer is queued or a reset is deferred, one is in flight if
the timer is firing, and the pending flags are for a fire in progress. -/
structure Good : Prop where
  flags : t.stopPending = true ∨ t.resetPending = true → t.state = .firing
  pending : (∃ a, t.arms a = .pending) ↔ t.state = .queued ∨ t.resetPending = true
  one : ∀ a b, t.arms a = .pending → t.arms b = .pending → a = b
  fires : (∃ a, (t.arms a).inFlight = true) ↔ t.state = .firing
  oneFire : ∀ a b, (t.arms a).inFlight = true → (t.arms b).inFlight = true → a = b
  fresh : ∀ a, t.used ≤ a → t.arms a = .unused

variable {t : SchedulerTimer}

theorem good_create (spawn : Bool) : (create spawn).Good := by
  refine ⟨?_, ?_, ?_, ?_, ?_, fun _ _ => rfl⟩ <;> simp [create, Arm.inFlight]

variable {fate next : Arm} {a : Nat} {u : SchedulerTimer}

theorem settle_pending (ends : fate ≠ .pending) (a : Nat) : (t.settle fate).arms a ≠ .pending := by
  unfold settle
  dsimp only
  split
  · exact ends
  · assumption

theorem settle_inFlight (ends : fate.inFlight = false) (a : Nat) :
    ((t.settle fate).arms a).inFlight = (t.arms a).inFlight := by
  unfold settle
  dsimp only
  split
  · rename_i is
    rw [ends, is]
    rfl
  · rfl

theorem Good.settle_fresh (good : t.Good) (fate : Arm) (a : Nat) (late : t.used ≤ a) :
    (t.settle fate).arms a = .unused := by
  unfold settle
  simp [good.fresh a late]

theorem arm_pending (none_ : ∀ a, t.arms a ≠ .pending) : t.arm.arms a = .pending ↔ a = t.used := by
  by_cases same : a = t.used
  · subst same
    simp [arm]
  · simp [arm, none_ a, same]

theorem arm_inFlight (fresh : t.arms t.used = .unused) (a : Nat) : (t.arm.arms a).inFlight = (t.arms a).inFlight := by
  by_cases same : a = t.used
  · subst same
    simp [arm, fresh, Arm.inFlight]
  · simp [arm, update_of_ne same]

theorem arm_fresh (fresh : ∀ a, t.used ≤ a → t.arms a = .unused) (a : Nat) (late : t.used + 1 ≤ a) :
    t.arm.arms a = .unused := by
  unfold arm
  dsimp only
  rw [update_of_ne (by omega)]
  exact fresh a (by omega)

section

variable (good : t.Good)
include good

theorem Good.rearm (ends : fate ≠ .pending) (rests : fate.inFlight = false)
    (arms : u.arms = (t.settle fate).arm.arms) (used : u.used = t.used + 1)
    (waits : u.state = .queued ∨ u.resetPending = true) (fires : u.state = .firing ↔ t.state = .firing)
    (flags : u.stopPending = true ∨ u.resetPending = true → u.state = .firing) : u.Good := by
  have none_ : ∀ a, (t.settle fate).arms a ≠ .pending := settle_pending ends
  have fresh : ∀ a, t.used ≤ a → (t.settle fate).arms a = .unused := good.settle_fresh fate
  have pending : ∀ a, u.arms a = .pending ↔ a = t.used := fun a => by rw [arms]; exact arm_pending none_
  have flight : ∀ a, (u.arms a).inFlight = (t.arms a).inFlight := fun a => by
    rw [arms, arm_inFlight (fresh _ (Nat.le_refl _)), settle_inFlight rests]
  refine ⟨flags, ⟨fun _ => waits, fun _ => ⟨t.used, (pending _).mpr rfl⟩⟩, fun a b is is' => ?_, ?_, ?_, fun a late => ?_⟩
  · rw [(pending a).mp is, (pending b).mp is']
  · simp only [flight, good.fires, fires]
  · simpa only [flight] using good.oneFire
  · rw [arms]
    exact arm_fresh fresh a (used ▸ late)

theorem Good.schedule (ends : fate ≠ .pending) (rests : fate.inFlight = false)
    (arms : u.arms = (t.settle fate).arm.arms) (used : u.used = t.used + 1) (state : u.state = t.state)
    (stopPending : u.stopPending = t.stopPending) (now timeout : UInt64) : (u.schedule now timeout).Good := by
  unfold SchedulerTimer.schedule
  split
  · rename_i firing
    exact good.rearm ends rests arms used (.inr rfl) (by rw [← state]) fun _ => firing
  all_goals
    rename_i other
    have stop : t.stopPending ≠ true := fun is => by
      have firing := good.flags (.inl is)
      rw [← state, other] at firing
      cases firing
    refine good.rearm ends rests arms used (.inl rfl) ?_ fun set => ?_
    · simp [← state, other]
    · rcases set with set | set
      · exact absurd (stopPending ▸ set) stop
      · cases set

theorem Good.start (now timeout repeatMs : UInt64) : (t.start now timeout repeatMs).Good := by
  refine good.schedule (show Arm.replaced ≠ .pending by decide) rfl ?_ ?_ ?_ ?_ now timeout <;> rfl

theorem Good.reset (now timeout : UInt64) : (t.reset now timeout).1.Good := by
  refine good.schedule (show Arm.removed ≠ .pending by decide) rfl ?_ ?_ ?_ ?_ now timeout <;> rfl

theorem Good.ended (ends : fate ≠ .pending) (rests : fate.inFlight = false)
    (arms : u.arms = (t.settle fate).arms) (used : u.used = t.used)
    (waits : ¬(u.state = .queued ∨ u.resetPending = true)) (fires : u.state = .firing ↔ t.state = .firing)
    (flags : u.stopPending = true → u.state = .firing) : u.Good := by
  have none_ : ∀ a, u.arms a ≠ .pending := fun a => by rw [arms]; exact settle_pending ends a
  have flight : ∀ a, (u.arms a).inFlight = (t.arms a).inFlight := fun a => by rw [arms, settle_inFlight rests]
  refine ⟨fun set => ?_, ⟨fun ⟨a, is⟩ => absurd is (none_ a), fun is => absurd is waits⟩,
    fun a _ is => absurd is (none_ a), ?_, ?_, fun a late => ?_⟩
  · rcases set with set | set
    · exact flags set
    · exact absurd (.inr set) waits
  · simp only [flight, good.fires, fires]
  · simpa only [flight] using good.oneFire
  · rw [arms]
    exact good.settle_fresh fate a (used ▸ late)

theorem Good.stop : t.stop.1.Good := by
  unfold SchedulerTimer.stop
  split
  · rename_i queued
    exact good.ended (show Arm.removed ≠ .pending by decide) rfl rfl rfl (by simp) (by simp [queued]) (by simp)
  · rename_i firing
    exact good.ended (show Arm.removed ≠ .pending by decide) rfl rfl rfl (by simp [settle, firing]) Iff.rfl fun _ => firing
  · exact good

end

theorem schedule_arms (now timeout : UInt64) : (t.schedule now timeout).arms = t.arms := by
  unfold SchedulerTimer.schedule
  split <;> rfl

theorem schedule_state (now timeout : UInt64) :
    (t.schedule now timeout).state = if t.state = .firing then .firing else .queued := by
  unfold SchedulerTimer.schedule
  split <;> simp_all

theorem good_of_over (state : u.state ≠ .firing) (clear : u.stopPending = false ∧ u.resetPending = false)
    (pending : (∃ a, u.arms a = .pending) ↔ u.state = .queued)
    (one : ∀ a b, u.arms a = .pending → u.arms b = .pending → a = b) (finished : ∀ a, (u.arms a).inFlight = false)
    (fresh : ∀ a, u.used ≤ a → u.arms a = .unused) : u.Good := by
  refine ⟨fun set => ?_, ?_, one, ?_, fun a _ is => ?_, fresh⟩
  · rw [clear.1, clear.2] at set
    simp at set
  · rw [clear.2]
    simpa using pending
  · simp [finished, state]
  · rw [finished a] at is
    cases is

section

variable (good : t.Good)
include good

theorem Good.take (queued : t.state = .queued) : t.take.Good := by
  have clear : t.stopPending = false ∧ t.resetPending = false := by
    constructor <;> refine Bool.eq_false_iff.mpr fun set => ?_
    · have := good.flags (.inl set)
      rw [queued] at this
      cases this
    · have := good.flags (.inr set)
      rw [queued] at this
      cases this
  have none_ : ∀ a, (t.arms a).inFlight = false := fun a => by
    refine Bool.eq_false_iff.mpr fun is => ?_
    have := good.fires.mp ⟨a, is⟩
    rw [queued] at this
    cases this
  obtain ⟨a, is⟩ := good.pending.mpr (.inl queued)
  have flight : ∀ b, (t.take.arms b).inFlight = true ↔ b = a := fun b => by
    unfold SchedulerTimer.take settle
    dsimp only
    split
    · rename_i also
      simp [Arm.inFlight, good.one b a also is]
    · rename_i no
      rw [none_ b]
      exact ⟨fun never => (nomatch never), fun same => absurd (same ▸ is) no⟩
  refine ⟨fun _ => rfl, ?_, fun b _ also => absurd also (settle_pending (by decide) b), ?_, ?_, good.settle_fresh _⟩
  · refine ⟨fun ⟨b, also⟩ => absurd also (settle_pending (by decide) b), fun waits => ?_⟩
    rcases waits with waits | waits
    · cases waits
    · rw [show t.take.resetPending = t.resetPending from rfl, clear.2] at waits
      cases waits
  · exact ⟨fun _ => rfl, fun _ => ⟨a, (flight a).mpr rfl⟩⟩
  · intro b c isB isC
    rw [(flight b).mp isB, (flight c).mp isC]

theorem Good.advance (now_ : (t.arms a).inFlight = true) (stays : next.inFlight = true) : (t.advance a next).Good := by
  have known : t.arms a ≠ .unused := fun is => by rw [is] at now_; cases now_
  have flight : ∀ b, ((t.advance a next).arms b).inFlight = (t.arms b).inFlight := fun b => by
    unfold SchedulerTimer.advance
    by_cases same : b = a
    · subst same
      simp [stays, now_]
    · simp [update_of_ne same]
  have pending : ∀ b, (t.advance a next).arms b = .pending ↔ t.arms b = .pending := fun b => by
    unfold SchedulerTimer.advance
    by_cases same : b = a
    · subst same
      have notPending : t.arms b ≠ .pending := fun is => by rw [is] at now_; cases now_
      have notNext : next ≠ .pending := fun is => by rw [is] at stays; cases stays
      simp [notPending, notNext]
    · simp [update_of_ne same]
  refine ⟨good.flags, ?_, ?_, ?_, ?_, fun b late => ?_⟩
  · simp only [pending]
    exact good.pending
  · simpa only [pending] using good.one
  · simp only [flight]
    exact good.fires
  · simpa only [flight] using good.oneFire
  · have other : b ≠ a := fun same => known (same ▸ good.fresh b late)
    exact (update_of_ne other _ _).trans (good.fresh b late)

/-- A timer whose fire is over and whose state is not yet set. -/
structure Finishing (t : SchedulerTimer) : Prop where
  pending : (∃ a, t.arms a = .pending) ↔ t.resetPending = true
  one : ∀ a b, t.arms a = .pending → t.arms b = .pending → a = b
  finished : ∀ a, (t.arms a).inFlight = false
  fresh : ∀ a, t.used ≤ a → t.arms a = .unused

omit good in
theorem Finishing.finishFire (finishing : t.Finishing) (now : UInt64) : (t.finishFire now).Good := by
  have pending := finishing.pending
  unfold SchedulerTimer.finishFire
  split
  · have none_ : ∀ a, (t.settle .dropped).arms a ≠ .pending := settle_pending (by decide)
    refine good_of_over (by simp) ⟨rfl, rfl⟩ (by simp [none_]) (fun a _ is => absurd is (none_ a)) (fun a => ?_)
      fun a late => ?_
    · exact (settle_inFlight rfl a).trans (finishing.finished a)
    · change (if t.arms a = .pending then Arm.dropped else t.arms a) = .unused
      rw [finishing.fresh a late, if_neg (by decide)]
  rename_i running
  rw [Bool.not_eq_true] at running
  split
  · rename_i deferred
    exact good_of_over (by simp) ⟨running, rfl⟩ (by simpa [deferred] using pending) finishing.one finishing.finished
      finishing.fresh
  rename_i notDeferred
  rw [Bool.not_eq_true] at notDeferred
  have none_ : ∀ a, t.arms a ≠ .pending := fun a is => by
    have := pending.mp ⟨a, is⟩
    rw [notDeferred] at this
    cases this
  split
  · refine good_of_over (by simp) ⟨running, notDeferred⟩ ?_ (fun a b is is' => ?_) (fun a => ?_)
      (arm_fresh finishing.fresh)
    · exact ⟨fun _ => rfl, fun _ => ⟨t.used, (arm_pending none_).mpr rfl⟩⟩
    · rw [(arm_pending none_).mp is, (arm_pending none_).mp is']
    · exact (arm_inFlight (finishing.fresh _ (Nat.le_refl _)) a).trans (finishing.finished a)
  · exact good_of_over (by simp) ⟨running, notDeferred⟩ (by simp [none_]) finishing.one finishing.finished finishing.fresh

theorem Good.finishing (is : t.arms a = .returned) : (t.advance a .done).Finishing := by
  have firing : t.state = .firing := good.fires.mp ⟨a, by rw [is]; rfl⟩
  have pending : ∀ b, (t.advance a .done).arms b = .pending ↔ t.arms b = .pending := fun b => by
    unfold SchedulerTimer.advance
    by_cases same : b = a
    · subst same
      simp [is]
    · simp [update_of_ne same]
  refine ⟨?_, ?_, fun b => ?_, fun b late => ?_⟩
  · have waits := good.pending
    simp only [firing, reduceCtorEq, false_or] at waits
    simp only [pending]
    exact waits
  · simpa only [pending] using good.one
  · unfold SchedulerTimer.advance
    by_cases same : b = a
    · subst same
      simp [Arm.inFlight]
    · refine Bool.eq_false_iff.mpr fun also => same (good.oneFire b a ?_ (by rw [is]; rfl))
      simpa [update_of_ne same] using also
  · have other : b ≠ a := fun same => by
      rw [← same, good.fresh b late] at is
      cases is
    exact (update_of_ne other _ _).trans (good.fresh b late)

theorem Good.complete_eq (is : t.arms a = .returned) (now : UInt64) :
    t.complete a now = (t.advance a .done).finishFire now := by
  unfold SchedulerTimer.complete
  rw [good.fires.mp ⟨a, by rw [is]; rfl⟩]

theorem Good.complete (is : t.arms a = .returned) (now : UInt64) : (t.complete a now).Good := by
  rw [good.complete_eq is]
  exact (good.finishing is).finishFire now

/-- An arm that was removed stays so, whatever is done with the timer. -/
def Keeps (t u : SchedulerTimer) : Prop := ∀ a, t.arms a = .removed → u.arms a = .removed

omit good in
theorem keeps_settle (t : SchedulerTimer) (fate : Arm) : t.Keeps (t.settle fate) := fun a is => by
  unfold settle
  simp [is]

theorem Good.keeps_arm (used : u.used = t.used) (keeps : t.Keeps u) : t.Keeps u.arm := fun a is => by
  have old : a ≠ u.used := fun same => by
    rw [same, used, good.fresh _ (Nat.le_refl _)] at is
    cases is
  exact (update_of_ne old _ _).trans (keeps a is)

theorem Good.keeps_start (now timeout repeatMs : UInt64) : t.Keeps (t.start now timeout repeatMs) := fun a is => by
  rw [SchedulerTimer.start, schedule_arms]
  exact good.keeps_arm (u := t.settle .replaced) rfl (t.keeps_settle _) a is

theorem Good.keeps_reset (now timeout : UInt64) : t.Keeps (t.reset now timeout).1 := fun a is => by
  rw [SchedulerTimer.reset, schedule_arms]
  exact good.keeps_arm (u := t.settle .removed) rfl (t.keeps_settle _) a is

omit good in
theorem keeps_advance {b : Nat} (flight : t.arms b ≠ .removed) : t.Keeps (t.advance b next) :=
  fun a is => (update_of_ne (fun same : a = b => flight (same ▸ is)) _ _).trans is

theorem Good.keeps_complete {b : Nat} (returned : t.arms b = .returned) (now : UInt64) :
    t.Keeps (t.complete b now) := fun a is => by
  have fresh := (good.finishing returned).fresh
  have kept : (t.advance b .done).arms a = .removed := keeps_advance (by rw [returned]; decide) a is
  rw [good.complete_eq returned]
  unfold SchedulerTimer.finishFire
  split
  · exact (t.advance b .done).keeps_settle _ a kept
  split
  · exact kept
  split
  · have old : a ≠ (t.advance b .done).used := fun same => by
      rw [same, fresh _ (Nat.le_refl _)] at kept
      cases kept
    exact (update_of_ne old _ _).trans kept
  · exact kept

end

theorem keeps_stop (t : SchedulerTimer) : t.Keeps t.stop.1 := fun a is => by
  unfold SchedulerTimer.stop
  split
  · exact t.keeps_settle _ a is
  · exact t.keeps_settle _ a is
  · exact is

end SchedulerTimer

end Xylem.Runtime
