import Mathlib.Data.Option.Basic
import Xylem.Sync.WaitRecord

namespace Xylem.Sync

universe u v

/-- What the program points of a primitive with a guarded waiter queue mean: how far the current wait is, whether the
party is inside the guard, whether it has just queued its waiter, which waiters it is going to wake, and which kind of
party can be there. -/
class Points (ι : outParam (Type u)) (P : Type v) where
  phase : P → Phase
  guarded : P → Bool
  registering : P → Bool
  hands : P → List (Record ι)
  kind : P → Option Kind
  inside : ∀ p, registering p = true → guarded p = true

/-- The waiter queue of such a primitive and its users. A party numbers its waits with `epoch`; `handed` are the waits
that own what they wait for and have not returned, `result` is what each wait returned. -/
structure Frame (ι : Type u) (P : Type v) where
  list : WaitList ι
  pc : ι → P
  epoch : ι → Nat
  call : Record ι → Call
  handed : List (Record ι)
  result : Record ι → Option Bool

variable {ι : Type u} {P : Type v}

namespace Frame

def init (pc : P) : Frame ι P := ⟨.init, fun _ => pc, fun _ => 0, fun _ => .wait, [], fun _ => none⟩

def waiter (f : Frame ι P) (i : ι) : Record ι := (i, f.epoch i)

variable [DecidableEq ι] (f : Frame ι P) (i : ι) (p : P)

def goto : Frame ι P := { f with pc := Function.update f.pc i p }

def begin (call : Call) : Frame ι P :=
  { f with
    epoch := Function.update f.epoch i (f.epoch i + 1)
    call := Function.update f.call (i, f.epoch i + 1) call }

/-- The current wait of a party gets what it waits for. -/
def hand (r : Record ι) : Frame ι P := { f with handed := r :: f.handed }

def returns (got : Bool) : Frame ι P :=
  { f.goto i p with
    result := Function.update f.result (f.waiter i) (some got)
    handed := if got then f.handed.erase (f.waiter i) else f.handed }

end Frame

variable (kind : Kind) (call : Call) (fired : Bool)

/-- How the phase of a wait changes in a step that leaves the queue alone. -/
inductive PhaseStep : Phase → Phase → Prop
  | same {p} : PhaseStep p p
  | refuse : kind = .coro → PhaseStep (.ending true) .resumed
  | untimed : call.timeoutMs = 0 → PhaseStep .resumed (.ending true)
  | fired : PhaseStep .resumed (.ending !fired)

theorem PhaseStep.waiting_eq {kind : Kind} {call : Call} {fired : Bool} {p q : Phase}
    (step : PhaseStep kind call fired p q) : q.waiting = p.waiting := by
  cases step <;> rfl

open Points

/-- A point for parties of a kind. -/
def Fits [Points ι P] (k : Kind) (p : P) : Prop := ∀ k', Points.kind p = some k' → k = k'

/-- The point a party goes to: it fits the party, and the waiters in its hands stay. -/
structure Goes [Points ι P] (k : Kind) (p q : P) : Prop where
  fits : Fits k q
  hands : hands q = hands p

variable [DecidableEq ι] [Points ι P] (kind : ι → Kind) (f : Frame ι P) (tokens : Tokens ι)

/-- What a step of an agent, a party or a timeout callback, can do to a queue with its users and to the tokens. -/
inductive FrameMove :
    ι ⊕ Record ι → Frame ι P → Tokens ι → Prop
  | begin {i p call} : phase (f.pc i) = .idle → guarded (f.pc i) = false → Goes (kind i) (f.pc i) p →
      guarded p = false → phase p = .before → FrameMove (.inl i) ((f.begin i call).goto i p) tokens
  | pollTake {i p} : phase (f.pc i) = .idle → guarded (f.pc i) = false → Goes (kind i) (f.pc i) p →
      guarded p = false → phase p = .ending true →
      FrameMove (.inl i)
        (((f.begin i (.timedwait 0)).hand ((f.begin i (.timedwait 0)).waiter i)).goto i p) tokens
  | pollMiss {i p} : phase (f.pc i) = .idle → guarded (f.pc i) = false → Goes (kind i) (f.pc i) p →
      guarded p = false → phase p = .ending false →
      FrameMove (.inl i) ((f.begin i (.timedwait 0)).goto i p) tokens
  | goto {i p} : Goes (kind i) (f.pc i) p → guarded p = guarded (f.pc i) →
      (registering p = true → registering (f.pc i) = true) →
      PhaseStep (kind i) (f.call (f.waiter i)) (f.list.timerFired (f.waiter i)) (phase (f.pc i)) (phase p) →
      FrameMove (.inl i) (f.goto i p) tokens
  | enter {i p} : f.list.guard = false → Goes (kind i) (f.pc i) p → registering p = false → phase p = phase (f.pc i) →
      FrameMove (.inl i) { f.goto i p with list := { f.list with guard := true } } tokens
  | leave {i p} : guarded (f.pc i) = true → Goes (kind i) (f.pc i) p → guarded p = false →
      PhaseStep (kind i) (f.call (f.waiter i)) (f.list.timerFired (f.waiter i)) (phase (f.pc i)) (phase p) →
      FrameMove (.inl i) { f.goto i p with list := { f.list with guard := false } } tokens
  | take {i p} : Goes (kind i) (f.pc i) p → guarded p = guarded (f.pc i) → registering p = false →
      phase (f.pc i) = .before → phase p = .ending true →
      FrameMove (.inl i) ((f.hand (f.waiter i)).goto i p) tokens
  | push {i p arming} : Goes (kind i) (f.pc i) p → guarded (f.pc i) = true → guarded p = true →
      phase (f.pc i) = .before → phase p = .waits arming →
      (arming = true → 0 < (f.call (f.waiter i)).timeoutMs) →
      FrameMove (.inl i) ({ f with list := f.list.pushWaiter (f.waiter i) }.goto i p) tokens
  | arm {i p} : Goes (kind i) (f.pc i) p → guarded p = true → registering (f.pc i) = true → kind i = .coro →
      phase (f.pc i) = .waits true → phase p = .waits false →
      FrameMove (.inl i) ({ f with list := f.list.timerStart (f.waiter i) }.goto i p) tokens
  | stop {i p} : Goes (kind i) (f.pc i) p → guarded (f.pc i) = false → guarded p = false → phase p = phase (f.pc i) →
      FrameMove (.inl i) ({ f with list := f.list.timerStop (f.waiter i) }.goto i p) tokens
  | returns {i p got} : Goes (kind i) (f.pc i) p → guarded (f.pc i) = false → guarded p = false →
      phase (f.pc i) = .ending got → phase p = .idle → FrameMove (.inl i) (f.returns i p got) tokens
  | pop {i p r rest} : f.list.waiters = r :: rest → Fits (kind i) p → guarded (f.pc i) = true → guarded p = true →
      registering (f.pc i) = false → registering p = false → phase p = phase (f.pc i) →
      hands (f.pc i) = [] → hands p = [r] →
      FrameMove (.inl i)
        (({ f with list := { f.list with waiters := rest, popped := f.list.popped ++ [r] } }.hand r).goto i p) tokens
  | popAll {i p} : Fits (kind i) p → guarded (f.pc i) = true → guarded p = true →
      registering (f.pc i) = false → registering p = false → phase p = phase (f.pc i) →
      hands (f.pc i) = [] → hands p = f.list.waiters →
      FrameMove (.inl i)
        ({ f with
          list := { f.list with waiters := [], popped := f.list.popped ++ f.list.waiters }
          handed := f.list.waiters ++ f.handed }.goto i p) tokens
  | cancel {i p} : f.waiter i ∈ f.list.waiters → Goes (kind i) (f.pc i) p → guarded (f.pc i) = true →
      guarded p = true → registering (f.pc i) = false → registering p = false → kind i = .thrd →
      (phase (f.pc i)).waiting = true → phase p = .ending false →
      FrameMove (.inl i) ({ f with list := f.list.removeWaiter (f.waiter i) }.goto i p) tokens
  | consume {i p arming} : 0 < tokens i → Goes (kind i) (f.pc i) p → guarded (f.pc i) = false → guarded p = false →
      kind i = .thrd → phase (f.pc i) = .waits arming → phase p = .ending true →
      FrameMove (.inl i) (f.goto i p) (Function.update tokens i (tokens i - 1))
  | wakeCoro {i p r q arming} : hands (f.pc i) = r :: hands p → Fits (kind i) p → guarded (f.pc i) = false →
      guarded p = false → phase p = phase (f.pc i) → r.1 ≠ i → f.waiter r.1 = r → kind r.1 = .coro →
      Goes .coro (f.pc r.1) q → guarded (f.pc r.1) = false → guarded q = false → phase (f.pc r.1) = .waits arming →
      phase q = .resumed → FrameMove (.inl i) ((f.goto i p).goto r.1 q) tokens
  | wakeThrd {i p r} : hands (f.pc i) = r :: hands p → Fits (kind i) p → guarded (f.pc i) = false →
      guarded p = false → phase p = phase (f.pc i) → kind r.1 = .thrd →
      FrameMove (.inl i) (f.goto i p) (thrdWakeSignal tokens r.1)
  | timer {r list} : f.list.TimerMove r list → FrameMove (.inr r) { f with list := list } tokens
  | timerCoro {r q arming} : f.list.timer r = .wake → f.waiter r.1 = r → kind r.1 = .coro →
      Goes .coro (f.pc r.1) q → guarded (f.pc r.1) = false → guarded q = false → phase (f.pc r.1) = .waits arming →
      phase q = .resumed →
      FrameMove (.inr r) ({ f with list := f.list.setTimer r .done }.goto r.1 q) tokens
  | timerThrd {r} : f.list.timer r = .wake → kind r.1 = .thrd →
      FrameMove (.inr r) { f with list := f.list.setTimer r .done } (thrdWakeSignal tokens r.1)

end Xylem.Sync
