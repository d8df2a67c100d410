import Mathlib.Data.List.Count
import Mathlib.Data.List.Nodup

namespace Xylem.Lib

open List

variable {α : Type*}

/-- Everything that parties still have to do, each party a list of operations of which it does the first next. -/
abbrev Work (α : Type*) := List (List α)

variable {work : Work α} {i : Nat} {op : α} {rest : List α}

theorem Work.split (at_ : work[i]? = some (op :: rest)) (more : List α) :
    ∃ before after, work.flatten = before ++ op :: (rest ++ after) ∧
      (work.set i (more ++ rest)).flatten = before ++ (more ++ (rest ++ after)) := by
  obtain ⟨bound, here⟩ := List.getElem?_eq_some_iff.mp at_
  refine ⟨(work.take i).flatten, (work.drop (i + 1)).flatten, ?_, ?_⟩
  · conv_lhs => rw [← take_append_drop i work, drop_eq_getElem_cons bound, here]
    simp
  · rw [set_eq_take_append_cons_drop, if_pos bound]
    simp

section Backed

variable (needs holds : α → Bool)

/-- Every operation that needs a holder is one, or comes before one. -/
def Backed : List α → Prop
  | [] => True
  | op :: rest => (needs op = true → holds op = true ∨ ∃ later ∈ rest, holds later = true) ∧ Backed rest

variable {needs holds}

theorem Backed.append {first second : List α} (backed : Backed needs holds second)
    (covered : Backed needs holds first ∨ ∃ later ∈ second, holds later = true) :
    Backed needs holds (first ++ second) := by
  induction first with
  | nil => exact backed
  | cons op rest ih =>
    refine ⟨fun need => ?_, ih (covered.imp_left And.right)⟩
    rcases covered with ⟨head, -⟩ | ⟨later, here, holder⟩
    · rcases head need with self | ⟨later, here, holder⟩
      · exact .inl self
      · exact .inr ⟨later, mem_append_left _ here, holder⟩
    · exact .inr ⟨later, mem_append_right _ here, holder⟩

/-- The operation is replaced by operations that are backed, or it was itself backed by what comes after it. -/
theorem Backed.refill {more : List α} (backed : Backed needs holds (op :: rest))
    (covered : Backed needs holds more ∨ needs op = true ∧ holds op = false) :
    Backed needs holds (more ++ rest) := by
  refine backed.2.append (covered.imp_right fun ⟨need, self⟩ => ?_)
  exact (backed.1 need).resolve_left (by rw [self]; decide)

theorem Backed.holder {program : List α} (backed : Backed needs holds program) (member : op ∈ program)
    (need : needs op = true) : ∃ later ∈ program, holds later = true := by
  induction program with
  | nil => cases member
  | cons first rest ih =>
    rcases mem_cons.mp member with rfl | later
    · rcases backed.1 need with self | ⟨later, here, holder⟩
      · exact ⟨op, mem_cons_self, self⟩
      · exact ⟨later, mem_cons_of_mem _ here, holder⟩
    · obtain ⟨after, here, holder⟩ := ih backed.2 later
      exact ⟨after, mem_cons_of_mem _ here, holder⟩

end Backed

end Xylem.Lib
