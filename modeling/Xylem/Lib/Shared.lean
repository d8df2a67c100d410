import Mathlib.Logic.Function.Basic

namespace Xylem.Lib

/-- A device whose waiting users are woken by tokens. Its invariant depends on the tokens of those users only. -/
structure Device (ι S : Type*) where
  waits : S → ι → Bool
  Inv : S → (ι → Nat) → Prop
  frame : ∀ {s t t'}, Inv s t → (∀ i, waits s i = true → t' i = t i) → Inv s t'

variable {ι S : Type*}

/-- What a step that `actor` makes, or that no user makes, may do: it touches the tokens of waiting users only, a wait
ends without a token left, and only the actor begins to wait. -/
structure Device.Step (D : Device ι S) (s : S) (t : ι → Nat) (actor : ι → Prop) (s' : S) (t' : ι → Nat) : Prop where
  inv : (∀ i, actor i → D.waits s i = false → t i = 0) → D.Inv s' t'
  quiet : ∀ i, D.waits s i = false → t' i = t i
  spent : ∀ i, D.waits s i = true → D.waits s' i = false → t' i = 0
  enters : ∀ i, D.waits s' i = true → D.waits s i = true ∨ actor i

variable {O : Type*} {S : O → Type*}

/-- Devices that share the tokens of their users: nobody waits at two of them, and who waits at none has no token. -/
structure Shared (D : ∀ o, Device ι (S o)) (s : ∀ o, S o) (t : ι → Nat) : Prop where
  inv : ∀ o, (D o).Inv (s o) t
  alone : ∀ o o' i, (D o).waits (s o) i = true → (D o').waits (s o') i = true → o = o'
  clean : ∀ i, (∀ o, (D o).waits (s o) i = false) → t i = 0

variable {D : ∀ o, Device ι (S o)} {s s' : ∀ o, S o} {t t' : ι → Nat} {o : O} {actor : ι → Prop}

theorem Shared.step (shared : Shared D s t) (step : (D o).Step (s o) t actor (s' o) t')
    (others : ∀ o', o' ≠ o → s' o' = s o')
    (free : ∀ i, actor i → ∀ o', o' ≠ o → (D o').waits (s o') i = false) : Shared D s' t' := by
  -- who waits at the device that moves has waited there before, or waits nowhere else
  have alone : ∀ o' i, (D o).waits (s' o) i = true → (D o').waits (s' o') i = true → o' = o := by
    intro o' i here there
    by_contra other
    rw [others o' other] at there
    rcases step.enters i here with before | acts
    · exact other (shared.alone o' o i there before)
    · exact absurd ((free i acts o' other).symm.trans there) (by decide)
  have clean : ∀ i, actor i → (D o).waits (s o) i = false → t i = 0 := fun i acts away =>
    shared.clean i fun o' => by
      by_cases here : o' = o
      · exact here ▸ away
      · exact free i acts o' here
  refine ⟨fun o' => ?_, fun o₁ o₂ i here there => ?_, fun i nowhere => ?_⟩
  · by_cases here : o' = o
    · subst here; exact step.inv clean
    · rw [others o' here]
      refine (D o').frame (shared.inv o') fun i waits => step.quiet i (Bool.eq_false_iff.mpr fun both => ?_)
      exact here (shared.alone o' o i waits both)
  · by_cases first : o₁ = o
    · subst first; exact (alone o₂ i here there).symm
    · by_cases second : o₂ = o
      · subst second; exact alone o₁ i there here
      · rw [others o₁ first] at here
        rw [others o₂ second] at there
        exact shared.alone o₁ o₂ i here there
  · by_cases before : (D o).waits (s o) i = true
    · exact step.spent i before (nowhere o)
    · have away : (D o).waits (s o) i = false := by simpa using before
      rw [step.quiet i away]
      refine shared.clean i fun o' => ?_
      by_cases here : o' = o
      · exact here ▸ away
      · exact others o' here ▸ nowhere o'

end Xylem.Lib
