import Mathlib.Logic.Function.Basic

namespace Xylem.Lib

open Function (update update_of_ne update_self)

variable {α : Type*}

/-- A flag that is up whenever someone is inside, and never for two at a time. -/
structure Flag (up : Bool) (inside : α → Prop) : Prop where
  raised : ∀ a, inside a → up = true
  unique : ∀ a b, inside a → inside b → a = b

variable {up up' : Bool} {inside inside' : α → Prop} {a : α}

theorem Flag.nobody (down : ∀ a, ¬ inside a) : Flag up inside :=
  ⟨fun a here => absurd here (down a), fun a _ here => absurd here (down a)⟩

section

variable (flag : Flag up inside)
include flag

theorem Flag.empty (down : up = false) (a : α) : ¬ inside a := fun here =>
  absurd ((flag.raised a here).symm.trans down) (by decide)

theorem Flag.mono (fewer : ∀ a, inside' a → inside a) : Flag up inside' :=
  ⟨fun a here => flag.raised a (fewer a here), fun a b here there => flag.unique a b (fewer a here) (fewer b there)⟩

theorem Flag.enter (down : up = false) (only : ∀ b, inside' b → b = a ∨ inside b) : Flag true inside' := by
  have alone : ∀ b, inside' b → b = a := fun b here => (only b here).resolve_right (flag.empty down b)
  exact ⟨fun _ _ => rfl, fun b c here there => (alone b here).trans (alone c there).symm⟩

theorem Flag.leave (here : inside a) (gone : ∀ b, inside' b → b ≠ a ∧ inside b) : Flag up' inside' :=
  Flag.nobody fun b there => (gone b there).1 (flag.unique b a (gone b there).2 here)

end

section Update

variable {P : Type*} [DecidableEq α] {pc : α → P} {c : P → Bool} {i : α} {p : P}

section

variable (flag : Flag up fun a => c (pc a) = true)
include flag

theorem Flag.goto (same : c p = c (pc i)) : Flag up fun a => c (update pc i p a) = true := by
  refine flag.mono fun a here => ?_
  by_cases at_ : a = i
  · subst at_
    rwa [update_self, same] at here
  · rwa [update_of_ne at_] at here

theorem Flag.goto_enter (down : up = false) : Flag true fun a => c (update pc i p a) = true := by
  refine flag.enter (a := i) down fun a here => ?_
  by_cases at_ : a = i
  · exact Or.inl at_
  · exact Or.inr (by rwa [update_of_ne at_] at here)

theorem Flag.goto_leave (here : c (pc i) = true)
    (out : c p = false) : Flag up' fun a => c (update pc i p a) = true := by
  refine flag.leave here fun a there => ?_
  by_cases at_ : a = i
  · subst at_
    rw [update_self, out] at there
    cases there
  · exact ⟨at_, by rwa [update_of_ne at_] at there⟩

end

end Update

end Xylem.Lib
