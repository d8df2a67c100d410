import Mathlib.Tactic.Cases
import Xylem.Lib.Run
import Xylem.Sync.Party

namespace Xylem.Sync.Mutex

def mutexSpinTries : Nat := 128

variable (ι : Type*)

inductive Pc
  | out
  /-- `xylem_mutex_lock`, before its first `_mutex_try_take`. -/
  | lock
  /-- `_mutex_wait_commit_cb`, run after the coroutine has yielded. -/
  | commit
  | commitCheck
  | commitPush
  | commitLeave (stay : Bool)
  | parked
  /-- `_mutex_wait_coro` after a refused commit. -/
  | refused
  /-- `_mutex_wait_coro` after a wake. -/
  | resumed
  /-- `_mutex_spin_take`. -/
  | spin (tries : Nat)
  | enter
  | check
  | push
  | leave (took : Bool)
  /-- `thrd_wake_wait`. -/
  | await
  | awake
  /-- `xylem_mutex_unlock` after its store. -/
  | unlock
  | pop
  | release (target : Option ι)
  | wake (target : ι)
  deriving DecidableEq

/-- `struct xylem_mutex_s`, with where its users are and who of them has taken the lock and not released it yet. -/
structure State where
  locked : Bool
  guard : Bool
  waiters : List ι
  pc : ι → Pc ι
  held : ι → Bool

inductive Act
  | lock (i : ι)
  | trylock (i : ι)
  | unlock (i : ι)
  | run (i : ι)

variable {ι : Type*}

def Act.party : Act ι → ι
  | .lock i | .trylock i | .unlock i | .run i => i

def create : State ι := ⟨false, false, [], fun _ => .out, fun _ => false⟩

section Step

variable [DecidableEq ι] (kind : ι → Kind) (σ : State ι) (tokens : Tokens ι) (i : ι) (pc : Pc ι)

namespace State

def goto : State ι := { σ with pc := Function.update σ.pc i pc }

def mutexTryTake : Option (State ι) :=
  if σ.locked then none else some { σ with locked := true, held := Function.update σ.held i true }

/-- `_mutex_try_take`: with the lock the call goes on at `taken`, without it at `failed`. -/
def tryTake (taken failed : Pc ι) : State ι :=
  match σ.mutexTryTake i with
  | some σ' => σ'.goto i taken
  | none => σ.goto i failed

/-- `spin_lock`: a party that finds the guard taken has not moved. -/
def spinLock : Option (State ι) :=
  if σ.guard then none else some { σ.goto i pc with guard := true }

def spinUnlock : State ι := { σ.goto i pc with guard := false }

def mutexPushWaiter : State ι := { σ with waiters := σ.waiters ++ [i] }

def mutexPopWaiter : State ι × Option ι :=
  match σ.waiters with
  | [] => (σ, none)
  | w :: rest => ({ σ with waiters := rest }, some w)

/-- `_mutex_wake`: readying a coroutine that is not parked would abort, which is no step. -/
def mutexWake (w : ι) : Option (State ι × Tokens ι) :=
  match kind w with
  | .coro => if σ.pc w = .parked then some (σ.goto w .resumed, tokens) else none
  | .thrd => some (σ, thrdWakeSignal tokens w)

def run : Option (State ι × Tokens ι) :=
  match σ.pc i with
  | .out | .parked => none
  | .lock => some (σ.tryTake i .out (match kind i with | .coro => .commit | .thrd => .spin 0), tokens)
  | .commit => (σ.spinLock i .commitCheck).map (·, tokens)
  | .commitCheck => some (σ.goto i (if σ.locked then .commitPush else .commitLeave false), tokens)
  | .commitPush => some ((σ.mutexPushWaiter i).goto i (.commitLeave true), tokens)
  | .commitLeave stay => some (σ.spinUnlock i (if stay then .parked else .refused), tokens)
  | .refused | .resumed => some (σ.tryTake i .out .commit, tokens)
  | .spin tries =>
    some (σ.tryTake i .out (if tries + 1 < mutexSpinTries then .spin (tries + 1) else .enter), tokens)
  | .enter => (σ.spinLock i .check).map (·, tokens)
  | .check => some (σ.tryTake i (.leave true) .push, tokens)
  | .push => some ((σ.mutexPushWaiter i).goto i (.leave false), tokens)
  | .leave took => some (σ.spinUnlock i (if took then .out else .await), tokens)
  | .await => (thrdWakeTry tokens i).map (σ.goto i .awake, ·)
  | .awake => some (σ.tryTake i .out (.spin 0), tokens)
  | .unlock => (σ.spinLock i .pop).map (·, tokens)
  | .pop => some (σ.mutexPopWaiter.1.goto i (.release σ.mutexPopWaiter.2), tokens)
  | .release target =>
    some (σ.spinUnlock i (match target with | some w => .wake w | none => .out), tokens)
  | .wake w => (σ.goto i .out).mutexWake kind tokens w

/-- One step of the mutex: a call begins, or one of the calls in progress takes a step. Only who holds the lock
unlocks it. -/
def step : Act ι → Option (State ι × Tokens ι)
  | .lock i => if σ.pc i = .out then some (σ.goto i .lock, tokens) else none
  | .trylock i => if σ.pc i = .out then some (σ.tryTake i .out .out, tokens) else none
  | .unlock i =>
    if σ.pc i = .out ∧ σ.held i then
      some ({ σ.goto i .unlock with locked := false, held := Function.update σ.held i false }, tokens)
    else none
  | .run i => σ.run kind tokens i

end State

end Step

end Xylem.Sync.Mutex
