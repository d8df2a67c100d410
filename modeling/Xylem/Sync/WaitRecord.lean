import Mathlib.Logic.Relation
import Xylem.Sync.WaitList

namespace Xylem.Sync

/-- How far a wait is: not begun, not registered yet, registered or about to be woken (and perhaps before the start of
its timer), resumed as a coroutine, about to return with a result, or returned. -/
inductive Phase
  | fresh
  | before
  | waits (arming : Bool)
  | resumed
  | ending (got : Bool)
  | idle

/-- Registered, or waiting for the wake that follows. -/
def Phase.waiting : Phase → Bool
  | .waits _ => true
  | _ => false

/-- One wait: how far it is, where its waiter is, what happened to it, and the call it belongs to. `timed` calls have a
positive timeout, `polled` ones a zero timeout. -/
structure View where
  phase : Phase
  queued : Prop
  pushed : Prop
  handed : Prop
  cancelled : Bool
  fired : Bool
  result : Option Bool
  timer : TimerPc
  timed : Prop
  polled : Prop

variable (kind : Kind) (v : View)

inductive ViewStep : View → Prop
  | begin (timed polled : Prop) : v.phase = .fresh →
      ViewStep { v with phase := .before, timed := timed, polled := polled }
  | take : v.phase = .before → ViewStep { v with phase := .ending true, handed := True }
  | giveUp : v.phase = .before → v.polled → ViewStep { v with phase := .ending false }
  | push (arming : Bool) : v.phase = .before → (arming = true → v.timed) →
      ViewStep { v with phase := .waits arming, pushed := True, queued := True }
  | arm : v.phase = .waits true → kind = .coro → ViewStep { v with phase := .waits false, timer := .armed }
  | timer (pc : TimerPc) : v.timer ≠ .idle → ViewStep { v with timer := pc }
  | grant : v.queued → ViewStep { v with queued := False, handed := True }
  | hit (pc : TimerPc) : v.queued → v.timer ≠ .idle →
      ViewStep { v with queued := False, cancelled := true, fired := true, timer := pc }
  | cancel : v.queued → kind = .thrd → ViewStep { v with phase := .ending false, queued := False, cancelled := true }
  | refuse : v.phase = .ending true → kind = .coro → ViewStep { v with phase := .resumed }
  | ready {arming : Bool} : v.phase = .waits arming → ¬ v.queued → kind = .coro → ViewStep { v with phase := .resumed }
  | consume {arming : Bool} : v.phase = .waits arming → ¬ v.queued → kind = .thrd →
      ViewStep { v with phase := .ending true }
  | untimed : v.phase = .resumed → ¬ v.timed → ViewStep { v with phase := .ending true }
  | fired : v.phase = .resumed → ViewStep { v with phase := .ending !v.fired }
  | returns {got : Bool} : v.phase = .ending got →
      ViewStep { v with phase := .idle, result := some got, handed := False }

/-- What is known of a wait in each phase: who is neither queued nor cancelled owns what it waited for, and the result
tells whether it was cancelled. -/
structure View.Sound : Prop where
  timer : v.timer ≠ .idle → v.timed ∧ kind = .coro
  fired : kind = .coro → v.fired = v.cancelled ∧ (v.cancelled = true → v.timed)
  phase : match v.phase with
    | .fresh | .before =>
      v.result = none ∧ ¬ v.pushed ∧ ¬ v.queued ∧ ¬ v.handed ∧ v.cancelled = false ∧ v.timer = .idle
    | .waits arming =>
      v.result = none ∧ (arming = true → v.timed) ∧ (kind = .thrd → v.cancelled = false) ∧
        (v.queued → ¬ v.handed ∧ v.cancelled = false) ∧ (¬ v.queued → (v.handed ↔ v.cancelled = false))
    | .resumed => v.result = none ∧ ¬ v.queued ∧ (v.handed ↔ v.cancelled = false) ∧ kind = .coro
    | .ending got =>
      v.result = none ∧ ¬ v.queued ∧ (v.handed ↔ got = true) ∧ (got = true ∨ ¬ v.polled → v.cancelled = !got)
    | .idle => ¬ v.queued ∧ ¬ v.handed ∧ ∀ got, v.result = some got → ¬ v.polled → v.cancelled = !got

variable {kind : Kind} {v w : View}

section

variable (sound : v.Sound kind) {got : Bool}
include sound

namespace View.Sound

theorem waits (queued : v.queued) : ∃ arming, v.phase = .waits arming := by
  have phase := sound.phase
  cases at_ : v.phase <;> simp_all

theorem not_handed (at_ : v.phase = .fresh ∨ v.phase = .before) : ¬ v.handed := by
  have phase := sound.phase
  rcases at_ with at_ | at_ <;> simp only [at_] at phase <;> exact phase.2.2.2.1

theorem handed_iff (at_ : v.phase = .ending got) : v.handed ↔ got = true := by
  have phase := sound.phase
  simp only [at_] at phase
  exact phase.2.2.1

theorem not_handed_queued (queued : v.queued) : ¬ v.handed := by
  obtain ⟨arming, at_⟩ := sound.waits queued
  have phase := sound.phase
  simp only [at_] at phase
  exact (phase.2.2.2.1 queued).1

/-- A wait that has returned was cancelled exactly if it returned without a token. -/
theorem cancelled_iff (returned : v.result = some got) (real : ¬ v.polled) : v.cancelled = !got := by
  have phase := sound.phase
  cases at_ : v.phase <;> simp only [at_, returned] at phase
  all_goals first | exact phase.2.2 got rfl real | exact absurd phase.1 (by simp)

theorem open_ (handed : v.handed) : v.result = none := by
  have phase := sound.phase
  cases at_ : v.phase <;> simp only [at_] at phase
  case idle => exact absurd handed phase.2.1
  all_goals exact phase.1

end View.Sound

end

theorem ViewStep.sound (step : ViewStep kind v w) (sound : v.Sound kind) : w.Sound kind := by
  obtain ⟨timer, fired, phase⟩ := sound
  cases step with
  | begin timed polled at_ =>
    simp only [at_] at phase
    exact ⟨fun armed => absurd phase.2.2.2.2.2 armed, fun coro => by simp [fired coro, phase], phase⟩
  | take at_ | giveUp at_ | refuse at_ | ready at_ | consume at_ | fired at_ | untimed at_ =>
    simp only [at_] at phase
    exact ⟨timer, fired, by simp_all⟩
  | push arming at_ timed =>
    simp only [at_] at phase
    exact ⟨timer, fired, phase.1, timed, by simp [phase]⟩
  | arm at_ coro =>
    simp only [at_] at phase
    exact ⟨fun _ => ⟨phase.2.1 trivial, coro⟩, fired, by simp_all⟩
  | timer pc armed =>
    refine ⟨fun _ => timer armed, fired, ?_⟩
    cases at_ : v.phase <;> simp_all
  | grant queued =>
    obtain ⟨arming, at_⟩ := View.Sound.waits ⟨timer, fired, phase⟩ queued
    simp only [at_] at phase
    exact ⟨timer, fired, by simp_all⟩
  | hit pc queued armed =>
    obtain ⟨arming, at_⟩ := View.Sound.waits ⟨timer, fired, phase⟩ queued
    simp only [at_] at phase
    exact ⟨fun _ => timer armed, fun _ => by simp [timer armed], by simp_all⟩
  | cancel queued thrd =>
    obtain ⟨arming, at_⟩ := View.Sound.waits ⟨timer, fired, phase⟩ queued
    simp only [at_] at phase
    exact ⟨timer, by simp [thrd], by simp_all⟩
  | returns at_ =>
    simp only [at_] at phase
    refine ⟨timer, fired, phase.2.1, not_false, fun got returned real => ?_⟩
    cases returned
    exact phase.2.2.2 (Or.inr real)

/-- A chain of such steps. -/
abbrev ViewSteps (kind : Kind) : View → View → Prop := Relation.ReflTransGen (ViewStep kind)

theorem ViewSteps.sound (steps : ViewSteps kind v w) (sound : v.Sound kind) : w.Sound kind := by
  induction steps with
  | refl => exact sound
  | tail _ step ih => exact step.sound ih

end Xylem.Sync
