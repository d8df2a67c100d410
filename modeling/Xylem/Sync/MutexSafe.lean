import Xylem.Lib.Flag
import Xylem.Lib.Ledger
import Xylem.Sync.MutexMove

namespace Xylem.Sync.Mutex

open State List Function

variable {ι : Type*}

/-- Inside the guard. -/
@[grind] def Pc.guarded : Pc ι → Bool
  | .commitCheck | .commitPush | .commitLeave _ | .check | .push | .leave _ | .pop | .release _ => true
  | _ => false

/-- The popped waiter that an unlock is going to wake. -/
@[grind] def Pc.hand : Pc ι → Option ι
  | .release target => target
  | .wake w => some w
  | _ => none

/-- Registered as a waiter, or waiting for the wake that follows. -/
@[grind] def Pc.waits : Pc ι → Bool
  | .commitLeave stay => stay
  | .leave took => !took
  | .parked | .await => true
  | _ => false

/-- A party that found the lock taken and is about to register itself. -/
@[grind] def Pc.registers : Pc ι → Bool
  | .commitPush | .push => true
  | _ => false

/-- Which kind of party can be at a program point. -/
@[grind] def Pc.Fits (kind : Kind) : Pc ι → Prop
  | .commit | .commitCheck | .commitPush | .commitLeave _ | .parked | .refused | .resumed => kind = .coro
  | .spin _ | .enter | .check | .push | .leave _ | .await | .awake => kind = .thrd
  | _ => True

/-- Points between which a party moves without touching the guard or a registration. -/
structure Pc.Alike (p q : Pc ι) : Prop where
  guarded : q.guarded = p.guarded
  hand : q.hand = p.hand
  waits : q.waits = p.waits

theorem Pc.Tries.alike {kind : ι → Kind} {i : ι} {p q r : Pc ι} (tries : p.Tries kind i q r) :
    p.Alike q ∧ p.Alike r := by
  cases tries <;> exact ⟨⟨rfl, rfl, rfl⟩, ⟨rfl, rfl, rfl⟩⟩

theorem Pc.Tries.fits {kind : ι → Kind} {i : ι} {p q r : Pc ι} (tries : p.Tries kind i q r) (fits : p.Fits (kind i)) :
    q.Fits (kind i) ∧ r.Fits (kind i) := by
  cases tries <;> simp_all [Pc.Fits]

variable {p q : Pc ι} {place : ι → Lib.Place ι}

theorem Pc.Enters.fits {kind : Kind} (enters : p.Enters q) (fits : p.Fits kind) : q.Fits kind := by
  cases enters <;> exact fits

theorem Pc.Leaves.fits {kind : Kind} (leaves : p.Leaves q) (fits : p.Fits kind) : q.Fits kind := by
  cases leaves <;> first | exact fits | exact trivial

theorem Pc.Pushes.fits {kind : Kind} (pushes : p.Pushes q) (fits : p.Fits kind) : q.Fits kind := by
  cases pushes <;> exact fits

theorem Pc.Enters.inside (enters : p.Enters q) : q.hand = p.hand ∧ q.waits = p.waits ∧ p.waits = false := by
  cases enters <;> exact ⟨rfl, rfl, rfl⟩

theorem Pc.Leaves.outside (leaves : p.Leaves q) :
    p.guarded = true ∧ q.guarded = false ∧ q.hand = p.hand ∧ q.waits = p.waits := by
  cases leaves <;> exact ⟨rfl, rfl, rfl, rfl⟩

theorem Pc.Pushes.queues (pushes : p.Pushes q) :
    q.guarded = p.guarded ∧ p.hand = none ∧ q.hand = none ∧ p.waits = false ∧ q.waits = true := by
  cases pushes <;> exact ⟨rfl, rfl, rfl, rfl, rfl⟩

theorem Pc.Pushes.registers (pushes : p.Pushes q) : p.registers = true := by cases pushes <;> rfl

theorem Pc.not_waits_of_registers (registers : p.registers = true) : p.waits = false := by
  unfold Pc.registers at registers
  split at registers <;> first | rfl | cases registers

def State.Exclusive (σ : State ι) : Prop := Lib.Flag σ.locked fun i => σ.held i = true

def State.Guarded (σ : State ι) : Prop := Lib.Flag σ.guard fun i => (σ.pc i).guarded = true

/-- Every registered waiter is queued, about to be signalled by one unlock, or signalled. -/
def State.Ledger (σ : State ι) (tokens : Tokens ι) : (ι → Lib.Place ι) → Prop :=
  Lib.Ledger σ.waiters (fun a w => (σ.pc a).hand = some w) tokens fun w => (σ.pc w).waits = true

variable {kind : ι → Kind} {σ σ' : State ι} {tokens tokens' : Tokens ι} {i : ι}

theorem Pc.Alike.registered (alike : p.Alike q) {P : Prop} (before : p.guarded = true → p.waits = true → P)
    (inside : q.guarded = true) (waits : q.waits = true) : P :=
  before (alike.guarded ▸ inside) (alike.waits ▸ waits)

variable [DecidableEq ι]

theorem Move.exclusive (move : Move kind σ tokens i σ' tokens') (flag : σ.Exclusive) : σ'.Exclusive := by
  cases move with
  | take _ free => exact Lib.Flag.goto_enter (c := id) flag free
  | unlock _ held => exact Lib.Flag.goto_leave (c := id) flag held rfl
  | _ => exact flag

theorem Move.guarded (move : Move kind σ tokens i σ' tokens') (flag : σ.Guarded) : σ'.Guarded := by
  cases move with
  | take tries => exact flag.goto tries.alike.1.guarded
  | fail tries => exact flag.goto tries.alike.2.guarded
  | enter _ free => exact flag.goto_enter free
  | leave leaves => exact flag.goto_leave leaves.outside.1 leaves.outside.2.1
  | push pushes => exact flag.goto pushes.queues.1
  | wakeCoro at_ parked other =>
    refine Lib.Flag.goto (flag.goto (by rw [at_]; rfl)) ?_
    simp [goto, other, parked, Pc.guarded]
  | call at_ | free at_ | busy at_ | pop at_ | popNone at_ | await at_ | wakeThrd at_ | unlock at_ =>
    exact flag.goto (by rw [at_]; rfl)

theorem State.goto_pc (i j : ι) (p : Pc ι) : (σ.goto i p).pc j = if j = i then p else σ.pc j := update_apply ..

theorem State.Ledger.goto (ledger : σ.Ledger tokens place) (hand : p.hand = (σ.pc i).hand)
    (waits : p.waits = (σ.pc i).waits) : (σ.goto i p).Ledger tokens place := by
  refine Lib.Ledger.keep ledger (fun a r => ?_) (fun r => ?_) (fun _ _ => rfl)
  all_goals rw [goto_pc]; grind

theorem Move.ledger (move : Move kind σ tokens i σ' tokens') (ledger : σ.Ledger tokens place)
    (clean : (σ.pc i).registers = true → tokens i = 0) :
    ∃ place', σ'.Ledger tokens' place' := by
  cases move with
  | take tries => exact ⟨place, ledger.goto tries.alike.1.hand tries.alike.1.waits⟩
  | fail tries => exact ⟨place, ledger.goto tries.alike.2.hand tries.alike.2.waits⟩
  | enter enters => exact ⟨place, ledger.goto enters.inside.1 enters.inside.2.1⟩
  | leave leaves => exact ⟨place, ledger.goto leaves.outside.2.2.1 leaves.outside.2.2.2⟩
  | call at_ | free at_ | busy at_ | popNone at_ | unlock at_ =>
    exact ⟨place, ledger.goto (by rw [at_]; rfl) (by rw [at_]; rfl)⟩
  | @push pc pushes =>
    obtain ⟨_, hand, hand', waits, waits'⟩ := pushes.queues
    refine ⟨_, Lib.Ledger.enqueue ledger (by simp [waits]) (clean pushes.registers) (fun a r => ?_) (fun r => ?_)⟩
    all_goals rw [goto_pc]; grind [mutexPushWaiter]
  | @pop w rest at_ waiters =>
    have here : w ∈ σ.waiters := by simp [waiters]
    have fresh : w ∉ rest := (nodup_cons.mp (waiters ▸ ledger.nodup)).1
    refine ⟨_, Lib.Ledger.take (a := i) ledger here (waiters ▸ sublist_cons_self w rest) (fun r => ?_) (fun a r => ?_) (fun r => ?_)⟩
    · grind [goto]
    · rw [goto_pc]; grind
    · rw [goto_pc]; grind
  | @wakeCoro w at_ parked other =>
    refine ⟨_, Lib.Ledger.ready (r := w) (a := i) ledger (by simp [at_, Pc.hand]) (fun a r => ?_) (fun r => ?_)⟩
    all_goals simp only [goto_pc]; grind
  | @wakeThrd w at_ =>
    refine ⟨_, Lib.Ledger.signal (r := w) (a := i) ledger (by simp [at_, Pc.hand]) (fun a r => ?_) (fun r => ?_)
      (by simp [thrdWakeSignal]) (fun r other _ => by simp [thrdWakeSignal, other])⟩
    all_goals simp only [goto_pc]; grind
  | await at_ some_ =>
    refine ⟨_, Lib.Ledger.consume (r := i) ledger (by simp [at_, Pc.waits]) some_ (fun a r => ?_) (fun r => ?_)
      (fun r other _ => by simp [other])⟩
    all_goals simp only [goto_pc]; grind

/-- A registration is made and the guard given back before anyone else can take the registration. -/
def State.Registered (σ : State ι) : Prop :=
  ∀ i, (σ.pc i).guarded = true → (σ.pc i).waits = true → i ∈ σ.waiters

omit [DecidableEq ι] in
theorem State.Ledger.at_hand {w : ι} (ledger : σ.Ledger tokens place) (registered : σ.Registered)
    (here : (σ.pc i).hand = some w) : σ.pc w = .parked ∨ σ.pc w = .await := by
  have at_ := (ledger.handed i w).mp here
  have waits := (ledger.waiting w).mpr (by simp [at_])
  have outside : (σ.pc w).guarded ≠ true := fun inside =>
    nomatch at_.symm.trans ((ledger.queued w).mp (registered w inside waits))
  cases pc : σ.pc w <;> simp_all [Pc.guarded, Pc.waits]

theorem State.Registered.goto (registered : σ.Registered) (here : p.guarded = true → p.waits = true → i ∈ σ.waiters) :
    (σ.goto i p).Registered := by
  intro j
  rw [goto_pc]
  split
  · rename_i at_; exact at_ ▸ here
  · exact registered j

theorem Move.registered (move : Move kind σ tokens i σ' tokens') (guard : σ.Guarded) (registered : σ.Registered) :
    σ'.Registered := by
  cases move with
  | take tries => exact State.Registered.goto registered (tries.alike.1.registered (registered i))
  | fail tries => exact registered.goto (tries.alike.2.registered (registered i))
  | enter enters =>
    exact registered.goto fun _ waits => absurd waits (by rw [enters.inside.2.1, enters.inside.2.2]; decide)
  | leave leaves => exact registered.goto fun inside => absurd inside (by rw [leaves.outside.2.1]; decide)
  | push pushes =>
    have more : (σ.mutexPushWaiter i).Registered := fun j inside waits =>
      mem_append_left _ (registered j inside waits)
    exact more.goto fun _ _ => mem_append_right _ mem_cons_self
  | @pop w rest at_ =>
    -- only the popping party is inside the guard, and it has not registered
    have alone : State.Registered { σ with waiters := rest } := fun j inside waits => by
      have same := guard.unique j i inside (by simp [at_, Pc.guarded])
      simp [same, at_, Pc.waits] at waits
    exact alone.goto fun _ => nofun
  | wakeCoro => exact (registered.goto (p := .out) nofun).goto nofun
  | call | popNone | await | wakeThrd | unlock => exact registered.goto nofun
  | free | busy => exact registered.goto fun _ => nofun

def State.Fits (kind : ι → Kind) (σ : State ι) : Prop := ∀ i, (σ.pc i).Fits (kind i)

theorem State.Fits.goto (fits : σ.Fits kind) (here : p.Fits (kind i)) : (σ.goto i p).Fits kind := by
  intro j
  rw [goto_pc]
  split
  · rename_i at_; exact at_ ▸ here
  · exact fits j

theorem Move.fits (move : Move kind σ tokens i σ' tokens') (fits : σ.Fits kind) : σ'.Fits kind := by
  have own := fits i
  cases move with
  | take tries => exact State.Fits.goto fits (tries.fits own).1
  | fail tries => exact fits.goto (tries.fits own).2
  | enter enters => exact fits.goto (enters.fits own)
  | leave leaves => exact fits.goto (leaves.fits own)
  | push pushes => exact State.Fits.goto fits (pushes.fits own)
  | free at_ | busy at_ | await at_ =>
    rw [at_] at own
    exact fits.goto own
  | wakeCoro _ _ _ coro => exact State.Fits.goto (fits.goto trivial) coro
  | call | pop | popNone | wakeThrd | unlock => exact State.Fits.goto fits trivial

theorem State.goto_clean (waits : p.waits = (σ.pc i).waits ∨ (σ.pc i).waits = false) (j : ι) :
    ((σ.pc j).waits = false → tokens j = tokens j) ∧
      ((σ.pc j).waits = true → ((σ.goto i p).pc j).waits = false → tokens j = 0) := by
  refine ⟨fun _ => rfl, fun before after => ?_⟩
  rw [goto_pc] at after
  grind

theorem Move.clean (move : Move kind σ tokens i σ' tokens') (ledger : σ.Ledger tokens place) (j : ι) :
    ((σ.pc j).waits = false → tokens' j = tokens j) ∧
      ((σ.pc j).waits = true → (σ'.pc j).waits = false → tokens' j = 0) := by
  cases move with
  | take tries => exact goto_clean (.inl tries.alike.1.waits) j
  | fail tries => exact goto_clean (.inl tries.alike.2.waits) j
  | enter enters => exact goto_clean (.inr enters.inside.2.2) j
  | leave leaves => exact goto_clean (.inl leaves.outside.2.2.2) j
  | push pushes => exact goto_clean (.inr pushes.queues.2.2.2.1) j
  | call at_ | free at_ | busy at_ | pop at_ | popNone at_ | unlock at_ =>
    exact goto_clean (.inr (by rw [at_]; rfl)) j
  | @wakeCoro w at_ parked =>
    have hand := (ledger.handed i w).mp (by simp [at_, Pc.hand])
    have spent := ledger.spent w (by simp [parked, Pc.waits]) (by simp [hand])
    refine ⟨fun _ => rfl, fun before after => ?_⟩
    simp only [goto_pc] at after
    grind
  | @wakeThrd w at_ =>
    have waits := (ledger.waiting w).mpr (by simp [(ledger.handed i w).mp (by simp [at_, Pc.hand])])
    simp only [goto_pc, thrdWakeSignal_apply]
    grind
  | await at_ some_ =>
    have one : tokens i = 1 := ledger.given i (by_contra fun away => Nat.pos_iff_ne_zero.mp some_
      (ledger.spent i (by simp [at_, Pc.waits]) away))
    simp only [goto_pc, update_apply]
    grind

theorem Move.tokenless (move : Move kind σ tokens i σ' tokens') (tokenless : ∀ j, kind j = .coro → tokens j = 0) (j : ι)
    (coro : kind j = .coro) : tokens' j = 0 := by
  have before := tokenless j coro
  cases move <;> grind [thrdWakeSignal_apply, update_apply]

end Xylem.Sync.Mutex
