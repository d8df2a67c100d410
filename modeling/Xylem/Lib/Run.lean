import Mathlib.Logic.Relation

namespace Xylem.Lib

open List

variable {σ τ α β : Type*} (step : σ → α → Option σ) (ok : σ → α → Prop) (init : σ)

/-- The states a partial transition function reaches from `init` along actions
that the guard `ok` allows in the state they are taken in. -/
inductive Reach : σ → Prop
  | start : Reach init
  | next {s t a} : Reach s → ok s a → step s a = some t → Reach t

variable {step : σ → α → Option σ} {ok : σ → α → Prop} {init : σ}
  {s : σ} {weak : σ → α → Prop} {schedule : List α}

/-- What holds at the start and survives every allowed step holds in every reachable state.
The step may use that the state it leaves is itself reachable. -/
theorem Reach.invariant {Inv : σ → Prop} (start : Inv init)
    (keeps : ∀ s a t, Reach step ok init s → Inv s → ok s a → step s a = some t → Inv t)
    (reach : Reach step ok init s) : Inv s := by
  induction reach with
  | start => exact start
  | next previous allowed moved ih => exact keeps _ _ _ previous ih allowed moved

theorem Reach.mono (le : ∀ s a, ok s a → weak s a) (reach : Reach step ok init s) : Reach step weak init s := by
  induction reach with
  | start => exact .start
  | next _ allowed moved ih => exact .next ih (le _ _ allowed) moved

theorem Reach.trans {mid : σ} (first : Reach step ok init mid) (second : Reach step ok mid s) :
    Reach step ok init s := by
  induction second with
  | start => exact first
  | next _ allowed moved ih => exact .next ih allowed moved

def runAll (step : σ → α → Option σ) : σ → List α → Option σ
  | s, [] => some s
  | s, a :: rest => (step s a).bind fun t => runAll step t rest

theorem runAll_append (step : σ → α → Option σ) (s : σ) (first second : List α) :
    runAll step s (first ++ second) = (runAll step s first).bind fun t => runAll step t second := by
  induction first generalizing s with
  | nil => rfl
  | cons a rest ih =>
    rw [cons_append, runAll, runAll]
    cases step s a with
    | none => rfl
    | some t => exact ih t

/-- A schedule whose every action the guard allows in the state it is taken in. -/
def AllowedRun (step : σ → α → Option σ) (ok : σ → α → Prop) : σ → List α → Prop
  | _, [] => True
  | s, a :: rest => ok s a ∧ ∀ t, step s a = some t → AllowedRun step ok t rest

instance AllowedRun.decidable [∀ s a, Decidable (ok s a)] : (s : σ) → (acts : List α) → Decidable (AllowedRun step ok s acts)
  | _, [] => isTrue trivial
  | s, a :: rest =>
    have : Decidable (∀ t, step s a = some t → AllowedRun step ok t rest) :=
      match step s a with
      | none => isTrue nofun
      | some t =>
        have := AllowedRun.decidable t rest
        decidable_of_iff (AllowedRun step ok t rest) ⟨fun run _ is => Option.some.inj is ▸ run, fun all => all t rfl⟩
    inferInstanceAs (Decidable (_ ∧ _))

/-- Where the guard says exactly which steps stay good, the allowed schedules are those that stay good throughout. -/
theorem allowedRun_iff (Inv Good : σ → Prop) (keeps : ∀ s a t, Inv s → Good s → step s a = some t → Inv t)
    (stays : ∀ s a, Inv s → Good s → (ok s a ↔ ∀ t, step s a = some t → Good t))
    (inv : Inv s) (good : Good s) (schedule : List α) :
    AllowedRun step ok s schedule ↔ ∀ k t, runAll step s (schedule.take k) = some t → Good t := by
  induction schedule generalizing s with
  | nil =>
    refine ⟨fun _ k t run => ?_, fun _ => trivial⟩
    rw [take_nil] at run
    cases run
    exact good
  | cons a rest ih =>
    constructor
    · rintro ⟨allowed, later⟩ k t run
      cases k with
      | zero => cases run; exact good
      | succ k =>
        obtain ⟨u, moved, run⟩ := Option.bind_eq_some_iff.mp run
        exact (ih (keeps s a u inv good moved) ((stays s a inv good).mp allowed u moved)).mp (later u moved) k t run
    · intro always
      have next : ∀ t, step s a = some t → Good t := fun t moved =>
        always 1 t (by rw [take_succ_cons, runAll, moved]; rfl)
      refine ⟨(stays s a inv good).mpr next, fun t moved => ?_⟩
      refine (ih (keeps s a t inv good moved) (next t moved)).mpr fun k u run => always (k + 1) u ?_
      rw [take_succ_cons, runAll, moved]
      exact run

theorem AllowedRun.mono (Inv : σ → Prop)
    (keeps : ∀ s a t, Inv s → ok s a → step s a = some t → Inv t) (le : ∀ s a, Inv s → ok s a → weak s a)
    (inv : Inv s) (allowed : AllowedRun step ok s schedule) :
    AllowedRun step weak s schedule := by
  induction schedule generalizing s with
  | nil => trivial
  | cons a rest ih =>
    exact ⟨le s a inv allowed.1, fun t moved => ih (keeps s a t inv allowed.1 moved) (allowed.2 t moved)⟩

/-- The transition function without the steps that the guard rules out. -/
def guarded (step : σ → α → Option σ) (ok : σ → α → Prop) [∀ s a, Decidable (ok s a)] (s : σ) (a : α) : Option σ :=
  if ok s a then step s a else none

theorem runAll_reach [∀ s a, Decidable (ok s a)] {t : σ}
    (run : runAll (guarded step ok) s schedule = some t) : Reach step ok s t := by
  induction schedule generalizing s with
  | nil => cases Option.some.inj run; exact .start
  | cons a rest ih =>
    obtain ⟨mid, moved, run⟩ := Option.bind_eq_some_iff.mp run
    unfold guarded at moved
    split at moved
    · rename_i allowed
      exact Reach.trans (.next .start allowed moved) (ih run)
    · cases moved

/-- A schedule that runs through reaches a state that can be tested. -/
theorem exists_reach [∀ s a, Decidable (ok s a)] (schedule : List α) {P : σ → Prop} [DecidablePred P]
    (run : ((runAll (guarded step ok) s schedule).any fun t => decide (P t)) = true) :
    ∃ t, Reach step ok s t ∧ P t := by
  cases ran : runAll (guarded step ok) s schedule with
  | none => simp [ran] at run
  | some t => exact ⟨t, runAll_reach ran, by simpa [ran] using run⟩

/-- Forward simulation: every concrete step is an abstract step or leaves the abstract state alone. -/
theorem Reach.simulate {stepA : τ → β → Option τ} {okA : τ → β → Prop} {initA : τ} {Rel : σ → τ → Prop}
    (start : Rel init initA)
    (keeps : ∀ s a t x, Reach step ok init s → Reach stepA okA initA x → Rel s x → ok s a → step s a = some t →
      Rel t x ∨ ∃ b y, okA x b ∧ stepA x b = some y ∧ Rel t y)
    (reach : Reach step ok init s) : ∃ x, Reach stepA okA initA x ∧ Rel s x := by
  induction reach with
  | start => exact ⟨initA, .start, start⟩
  | next previous allowed moved ih =>
    obtain ⟨x, reachA, related⟩ := ih
    rcases keeps _ _ _ x previous reachA related allowed moved with still | ⟨b, y, allowedA, movedA, related'⟩
    · exact ⟨x, reachA, still⟩
    · exact ⟨y, .next reachA allowedA movedA, related'⟩

end Xylem.Lib
