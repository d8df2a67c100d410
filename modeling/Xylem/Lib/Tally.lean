import Mathlib.Data.List.Nodup

namespace Xylem.Lib

open List

variable {α : Type*}

/-- Exactly `n` have the property. -/
def Tally (inside : α → Prop) (n : Nat) : Prop := ∃ l : List α, l.Nodup ∧ (∀ a, a ∈ l ↔ inside a) ∧ l.length = n

variable {inside inside' : α → Prop} {n : Nat} {a : α}

theorem Tally.zero (nobody : ∀ a, ¬ inside a) : Tally inside 0 := ⟨[], nodup_nil, fun a => by simp [nobody], rfl⟩

theorem Tally.congr (tally : Tally inside n) (same : ∀ a, inside' a ↔ inside a) : Tally inside' n := by
  obtain ⟨l, nodup, mem, length⟩ := tally
  exact ⟨l, nodup, fun a => (mem a).trans (same a).symm, length⟩

theorem Tally.enter (tally : Tally inside n) (out : ¬ inside a) (more : ∀ b, inside' b ↔ b = a ∨ inside b) :
    Tally inside' (n + 1) := by
  obtain ⟨l, nodup, mem, length⟩ := tally
  refine ⟨a :: l, nodup_cons.mpr ⟨fun here => out ((mem a).mp here), nodup⟩, fun b => ?_, by simp [length]⟩
  rw [mem_cons, mem, more]

theorem Tally.leave [DecidableEq α] (tally : Tally inside n) (here : inside a)
    (fewer : ∀ b, inside' b ↔ inside b ∧ b ≠ a) : Tally inside' (n - 1) ∧ 0 < n := by
  obtain ⟨l, nodup, mem, rfl⟩ := tally
  have at_ : a ∈ l := (mem a).mpr here
  refine ⟨⟨l.erase a, nodup.erase a, fun b => ?_, length_erase_of_mem at_⟩, length_pos_of_mem at_⟩
  rw [nodup.mem_erase_iff, mem, fewer, and_comm]

end Xylem.Lib
