import Mathlib.Algebra.Group.Nat.Defs

namespace Xylem.Lib

open List Option

/-- The low `count` bytes of a number as they lie in memory, the lowest first. -/
def littleEndian : (count value : Nat) → List UInt8
  | 0, _ => []
  | count + 1, value => UInt8.ofNat value :: littleEndian count (value / 256)

theorem littleEndian_length (count value : Nat) : (littleEndian count value).length = count := by
  induction count generalizing value with
  | zero => rfl
  | succ count ih => rw [littleEndian, length_cons, ih]

theorem littleEndian_inj {count left right : Nat} (leftFits : left < 256 ^ count) (rightFits : right < 256 ^ count)
    (same : littleEndian count left = littleEndian count right) : left = right := by
  induction count generalizing left right with
  | zero => omega
  | succ count ih =>
    obtain ⟨low, high⟩ := List.cons.inj same
    have byte := congrArg UInt8.toNat low
    rw [UInt8.toNat_ofNat', UInt8.toNat_ofNat'] at byte
    rw [Nat.pow_succ] at leftFits rightFits
    have rest := ih (Nat.div_lt_of_lt_mul (by omega)) (Nat.div_lt_of_lt_mul (by omega)) high
    omega

variable (text : Option (List UInt8))

/-- The size of an optional text with the zero at its end, which no text at all does not have. -/
def fieldSize : Nat := text.elim 0 fun bytes => bytes.length + 1

def fieldBody : List UInt8 := text.elim [] fun bytes => bytes ++ [0]

/-- An optional text behind its size. -/
def field : List UInt8 := littleEndian 8 (fieldSize text) ++ fieldBody text

theorem fieldBody_length : (fieldBody text).length = fieldSize text := by
  cases text with
  | none => rfl
  | some bytes =>
    rw [fieldBody, elim_some, length_append]
    rfl

variable {left right : Option (List UInt8)} {leftRest rightRest : List UInt8}

theorem fieldBody_inj (same : fieldBody left = fieldBody right) : left = right := by
  have some_ : ∀ bytes : List UInt8, fieldBody (some bytes) ≠ fieldBody none := fun bytes none => by
    rw [fieldBody, fieldBody, elim_some, elim_none] at none
    exact absurd none (by simp)
  cases left with
  | none =>
    cases right with
    | none => rfl
    | some bytes => exact absurd same.symm (some_ bytes)
  | some bytes =>
    cases right with
    | none => exact absurd same (some_ bytes)
    | some others => rw [append_cancel_right same]

theorem field_append_inj (leftFits : fieldSize left < 2 ^ 64) (rightFits : fieldSize right < 2 ^ 64)
    (same : field left ++ leftRest = field right ++ rightRest) : left = right ∧ leftRest = rightRest := by
  rw [field, field, append_assoc, append_assoc] at same
  obtain ⟨size, same⟩ := append_inj same (by rw [littleEndian_length, littleEndian_length])
  have sized : fieldSize left = fieldSize right := littleEndian_inj leftFits rightFits size
  obtain ⟨body, rest⟩ := append_inj same (by rw [fieldBody_length, fieldBody_length, sized])
  exact ⟨fieldBody_inj body, rest⟩

theorem fields_append_inj {left right : List (Option (List UInt8))} (length : left.length = right.length)
    (leftFits : ∀ text ∈ left, fieldSize text < 2 ^ 64) (rightFits : ∀ text ∈ right, fieldSize text < 2 ^ 64)
    (same : left.flatMap field ++ leftRest = right.flatMap field ++ rightRest) :
    left = right ∧ leftRest = rightRest := by
  induction left generalizing right with
  | nil =>
    obtain rfl : right = [] := length_eq_zero_iff.mp length.symm
    exact ⟨rfl, same⟩
  | cons text left ih =>
    cases right with
    | nil => cases length
    | cons other right =>
      rw [flatMap_cons, flatMap_cons, append_assoc, append_assoc] at same
      obtain ⟨first, same⟩ := field_append_inj (leftFits text (mem_cons_self ..))
        (rightFits other (mem_cons_self ..)) same
      obtain ⟨others, rest⟩ := ih (Nat.succ.inj length) (fun text isIn => leftFits text (mem_cons_of_mem _ isIn))
        (fun text isIn => rightFits text (mem_cons_of_mem _ isIn)) same
      rw [first, others]
      exact ⟨rfl, rest⟩

end Xylem.Lib
