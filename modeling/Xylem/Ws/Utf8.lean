import Xylem.Ws.Frame

namespace Xylem.Ws

open List Option UInt8

variable (b : UInt8)

/-- A byte of the form `10xxxxxx`. -/
def wsUtf8Tail : Bool := b &&& 0xC0 == 0x80

/-- `ws_utf8_validate`. Its inner loop over a run of ASCII bytes is the first case taken again. -/
def wsUtf8Validate : List UInt8 → Bool
  | [] => true
  | b :: rest =>
    if b ≤ 0x7F then wsUtf8Validate rest
    else if b &&& 0xE0 == 0xC0 then
      if b < 0xC2 then false
      else
        match rest with
        | b1 :: rest => if !wsUtf8Tail b1 then false else wsUtf8Validate rest
        | _ => false
    else if b &&& 0xF0 == 0xE0 then
      match rest with
      | b1 :: b2 :: rest =>
        if !wsUtf8Tail b1 || !wsUtf8Tail b2 then false
        else if b == 0xE0 && b1 < 0xA0 then false
        else if b == 0xED && b1 ≥ 0xA0 then false
        else wsUtf8Validate rest
      | _ => false
    else if b &&& 0xF8 == 0xF0 then
      if b > 0xF4 then false
      else
        match rest with
        | b1 :: b2 :: b3 :: rest =>
          if !wsUtf8Tail b1 || !wsUtf8Tail b2 || !wsUtf8Tail b3 then false
          else if b == 0xF0 && b1 < 0x90 then false
          else if b == 0xF4 && b1 > 0x8F then false
          else wsUtf8Validate rest
        | _ => false
    else false

/-- Well-formed UTF-8: the shortest encodings of Unicode scalar values, one after the other. -/
def Utf8 (bytes : List UInt8) : Prop := ∃ text : List Char, bytes = text.flatMap String.utf8EncodeChar

theorem wsUtf8Tail_iff : wsUtf8Tail b = true ↔ 0x80 ≤ b.toNat ∧ b.toNat ≤ 0xBF := by
  revert b
  apply forall_of_fin
  decide +kernel

theorem wsUtf8_two_iff : (b &&& 0xE0 == 0xC0) = true ↔ 0xC0 ≤ b.toNat ∧ b.toNat ≤ 0xDF := by
  revert b
  apply forall_of_fin
  decide +kernel

theorem wsUtf8_three_iff : (b &&& 0xF0 == 0xE0) = true ↔ 0xE0 ≤ b.toNat ∧ b.toNat ≤ 0xEF := by
  revert b
  apply forall_of_fin
  decide +kernel

theorem wsUtf8_four_iff : (b &&& 0xF8 == 0xF0) = true ↔ 0xF0 ≤ b.toNat ∧ b.toNat ≤ 0xF7 := by
  revert b
  apply forall_of_fin
  decide +kernel

/-- The checks of the validator as ranges of byte values. -/
inductive Utf8Step : List UInt8 → List UInt8 → Prop
  | one {b rest} : b.toNat ≤ 0x7F → Utf8Step (b :: rest) rest
  | two {b b1 rest} : 0xC2 ≤ b.toNat → b.toNat ≤ 0xDF → wsUtf8Tail b1 → Utf8Step (b :: b1 :: rest) rest
  | three {b b1 b2 rest} : 0xE0 ≤ b.toNat → b.toNat ≤ 0xEF → wsUtf8Tail b1 → wsUtf8Tail b2 →
      (b.toNat = 0xE0 → 0xA0 ≤ b1.toNat) → (b.toNat = 0xED → b1.toNat < 0xA0) →
      Utf8Step (b :: b1 :: b2 :: rest) rest
  | four {b b1 b2 b3 rest} : 0xF0 ≤ b.toNat → b.toNat ≤ 0xF4 → wsUtf8Tail b1 → wsUtf8Tail b2 → wsUtf8Tail b3 →
      (b.toNat = 0xF0 → 0x90 ≤ b1.toNat) → (b.toNat = 0xF4 → b1.toNat ≤ 0x8F) →
      Utf8Step (b :: b1 :: b2 :: b3 :: rest) rest

variable {bytes rest : List UInt8} {b v : UInt8}

theorem guard_failed {p : Prop} [Decidable p] (fails : b.toNat = v.toNat → ¬p) : (b == v && decide p) = false := by
  rw [Bool.and_eq_false_imp]
  intro is
  exact decide_eq_false (fails (congrArg UInt8.toNat (eq_of_beq is)))

theorem Utf8Step.validate (step : Utf8Step bytes rest) : wsUtf8Validate bytes = wsUtf8Validate rest := by
  have ascii : ∀ b : UInt8, b ≤ 0x7F ↔ b.toNat ≤ 0x7F := fun _ => le_iff_toNat_le
  cases step with
  | @one b _ low =>
    conv_lhs => unfold wsUtf8Validate
    exact if_pos ((ascii b).mpr low)
  | @two b b1 _ low high tail =>
    have large : ¬b < 0xC2 := by rw [lt_iff_toNat_lt]; exact Nat.not_lt.mpr low
    rw [wsUtf8Validate, if_neg (by rw [ascii]; omega), if_pos ((wsUtf8_two_iff b).mpr (by omega)), if_neg large]
    simp [tail]
  | @three b b1 b2 _ low high tail1 tail2 e0 ed =>
    have overlong : (b == 0xE0 && decide (b1 < 0xA0)) = false :=
      guard_failed fun is low => Nat.not_lt.mpr (e0 is) (lt_iff_toNat_lt.mp low)
    have surrogate : (b == 0xED && decide (b1 ≥ 0xA0)) = false :=
      guard_failed fun is high => Nat.not_lt.mpr (le_iff_toNat_le.mp high) (ed is)
    rw [wsUtf8Validate, if_neg (by rw [ascii]; omega), if_neg (by rw [wsUtf8_two_iff]; omega),
      if_pos ((wsUtf8_three_iff b).mpr (by omega))]
    simp only [tail1, tail2, overlong, surrogate, Bool.not_true, Bool.or_self, Bool.false_eq_true, if_false]
  | @four b b1 b2 b3 _ low high tail1 tail2 tail3 f0 f4 =>
    have inside : ¬b > 0xF4 := by
      change ¬0xF4 < b
      rw [lt_iff_toNat_lt]
      exact Nat.not_lt.mpr high
    have overlong : (b == 0xF0 && decide (b1 < 0x90)) = false :=
      guard_failed fun is low => Nat.not_lt.mpr (f0 is) (lt_iff_toNat_lt.mp low)
    have beyond : (b == 0xF4 && decide (b1 > 0x8F)) = false :=
      guard_failed fun is high => Nat.not_lt.mpr (f4 is) (lt_iff_toNat_lt.mp high)
    rw [wsUtf8Validate, if_neg (by rw [ascii]; omega), if_neg (by rw [wsUtf8_two_iff]; omega),
      if_neg (by rw [wsUtf8_three_iff]; omega), if_pos ((wsUtf8_four_iff b).mpr (by omega)), if_neg inside]
    simp only [tail1, tail2, tail3, overlong, beyond, Bool.not_true, Bool.or_self, Bool.false_eq_true, if_false]

theorem guard_passed {p : Prop} [Decidable p] (passed : ¬(b == v && decide p) = true)
    (is : b.toNat = v.toNat) : ¬p := by
  intro holds
  simp [UInt8.toNat_inj.mp is, holds] at passed

/-- What the validator accepts starts with an accepted character. -/
theorem wsUtf8Validate_step (valid : wsUtf8Validate bytes = true) :
    bytes = [] ∨ ∃ rest, Utf8Step bytes rest ∧ wsUtf8Validate rest = true := by
  unfold wsUtf8Validate at valid
  split at valid
  · exact .inl rfl
  rename_i b rest
  refine .inr ?_
  simp only [le_iff_toNat_le, lt_iff_toNat_lt, gt_iff_lt, ge_iff_le, wsUtf8_two_iff, wsUtf8_three_iff,
    wsUtf8_four_iff] at valid
  split at valid
  · rename_i low
    exact ⟨rest, .one low, valid⟩
  split at valid
  · rename_i range
    split at valid
    · cases valid
    rename_i low
    split at valid
    · rename_i b1 rest
      split at valid
      · cases valid
      rename_i tail
      exact ⟨rest, .two (Nat.not_lt.mp low) range.2 (by simpa using tail), valid⟩
    · cases valid
  split at valid
  · rename_i range
    split at valid
    · rename_i b1 b2 rest
      split at valid
      · cases valid
      rename_i tails
      split at valid
      · cases valid
      rename_i overlong
      split at valid
      · cases valid
      rename_i surrogate
      simp only [Bool.or_eq_true, Bool.not_eq_true', not_or, Bool.not_eq_false] at tails
      exact ⟨rest, .three range.1 range.2 tails.1 tails.2
        (fun is => Nat.not_lt.mp (guard_passed overlong is))
        (fun is => Nat.not_le.mp (guard_passed surrogate is)), valid⟩
    · cases valid
  split at valid
  · rename_i range
    split at valid
    · cases valid
    rename_i high
    split at valid
    · rename_i b1 b2 b3 rest
      split at valid
      · cases valid
      rename_i tails
      split at valid
      · cases valid
      rename_i overlong
      split at valid
      · cases valid
      rename_i beyond
      simp only [Bool.or_eq_true, Bool.not_eq_true', not_or, Bool.not_eq_false] at tails
      exact ⟨rest, .four range.1 (Nat.not_lt.mp high) tails.1.1 tails.1.2 tails.2
        (fun is => Nat.not_lt.mp (guard_passed overlong is))
        (fun is => Nat.not_lt.mp (guard_passed beyond is)), valid⟩
    · cases valid
  · cases valid

theorem exists_char {v : Nat} (valid : v.isValidChar) : ∃ c : Char, c.val.toNat = v := by
  refine ⟨Char.ofNat v, ?_⟩
  rw [Char.ofNat, dif_pos valid]
  rfl

theorem ofNat_eq {n : Nat} (is : n = b.toNat) : UInt8.ofNat n = b := by
  rw [is, UInt8.ofNat_toNat]

/-- One accepted character is one scalar value in its shortest encoding. -/
theorem utf8Step_iff : Utf8Step bytes rest ↔ ∃ c : Char, bytes = String.utf8EncodeChar c ++ rest := by
  constructor
  · intro step
    cases step with
    | @one b _ low =>
      obtain ⟨c, is⟩ := exists_char (v := b.toNat) (by left; omega)
      refine ⟨c, ?_⟩
      simp only [String.utf8EncodeChar, is, if_pos low, UInt8.ofNat_toNat, cons_append, nil_append]
    | @two b b1 _ low high tail =>
      have tail := (wsUtf8Tail_iff b1).mp tail
      obtain ⟨c, is⟩ := exists_char (v := (b.toNat - 0xC0) * 64 + (b1.toNat - 0x80)) (by left; omega)
      refine ⟨c, ?_⟩
      simp only [String.utf8EncodeChar, is]
      rw [if_neg (by omega), if_pos (by omega), ofNat_eq (b := b) (by omega), ofNat_eq (b := b1) (by omega)]
      rfl
    | @three b b1 b2 _ low high tail1 tail2 e0 ed =>
      have tail1 := (wsUtf8Tail_iff b1).mp tail1
      have tail2 := (wsUtf8Tail_iff b2).mp tail2
      obtain ⟨c, is⟩ := exists_char
        (v := (b.toNat - 0xE0) * 4096 + (b1.toNat - 0x80) * 64 + (b2.toNat - 0x80))
        (by simp only [Nat.isValidChar]; omega)
      refine ⟨c, ?_⟩
      simp only [String.utf8EncodeChar, is]
      rw [if_neg (by omega), if_neg (by omega), if_pos (by omega), ofNat_eq (b := b) (by omega),
        ofNat_eq (b := b1) (by omega), ofNat_eq (b := b2) (by omega)]
      rfl
    | @four b b1 b2 b3 _ low high tail1 tail2 tail3 f0 f4 =>
      have tail1 := (wsUtf8Tail_iff b1).mp tail1
      have tail2 := (wsUtf8Tail_iff b2).mp tail2
      have tail3 := (wsUtf8Tail_iff b3).mp tail3
      obtain ⟨c, is⟩ := exists_char
        (v := (b.toNat - 0xF0) * 262144 + (b1.toNat - 0x80) * 4096 + (b2.toNat - 0x80) * 64 + (b3.toNat - 0x80))
        (by simp only [Nat.isValidChar]; omega)
      refine ⟨c, ?_⟩
      simp only [String.utf8EncodeChar, is]
      rw [if_neg (by omega), if_neg (by omega), if_neg (by omega), ofNat_eq (b := b) (by omega),
        ofNat_eq (b := b1) (by omega), ofNat_eq (b := b2) (by omega),
        ofNat_eq (b := b3) (by omega)]
      rfl
  · rintro ⟨c, rfl⟩
    have valid : c.val.toNat.isValidChar := c.valid
    simp only [Nat.isValidChar] at valid
    have byte : ∀ {n}, n < 256 → (UInt8.ofNat n).toNat = n := fun lt => by
      rw [toNat_ofNat']
      exact Nat.mod_eq_of_lt lt
    unfold String.utf8EncodeChar
    dsimp only
    split
    · exact .one (by rw [byte (by omega)]; assumption)
    split
    · refine .two ?_ ?_ ?_
      · rw [byte (by omega)]; omega
      · rw [byte (by omega)]; omega
      · rw [wsUtf8Tail_iff, byte (by omega)]; omega
    split
    · refine .three ?_ ?_ ?_ ?_ ?_ ?_
      · rw [byte (by omega)]; omega
      · rw [byte (by omega)]; omega
      · rw [wsUtf8Tail_iff, byte (by omega)]; omega
      · rw [wsUtf8Tail_iff, byte (by omega)]; omega
      · rw [byte (by omega), byte (by omega)]; omega
      · rw [byte (by omega), byte (by omega)]; omega
    · refine .four ?_ ?_ ?_ ?_ ?_ ?_ ?_
      · rw [byte (by omega)]; omega
      · rw [byte (by omega)]; omega
      · rw [wsUtf8Tail_iff, byte (by omega)]; omega
      · rw [wsUtf8Tail_iff, byte (by omega)]; omega
      · rw [wsUtf8Tail_iff, byte (by omega)]; omega
      · rw [byte (by omega), byte (by omega)]; omega
      · rw [byte (by omega), byte (by omega)]; omega

/-- The validator accepts exactly well-formed UTF-8. -/
theorem wsUtf8Validate_eq_true_iff (bytes : List UInt8) : wsUtf8Validate bytes = true ↔ Utf8 bytes := by
  constructor
  · intro valid
    induction size : bytes.length using Nat.strong_induction_on generalizing bytes with
    | _ n ih =>
      rcases wsUtf8Validate_step valid with rfl | ⟨rest, step, still⟩
      · exact ⟨[], rfl⟩
      · obtain ⟨c, rfl⟩ := utf8Step_iff.mp step
        have shorter : rest.length < n := by
          have := c.utf8Size_pos
          rw [← size, length_append, String.length_utf8EncodeChar]
          omega
        obtain ⟨text, rfl⟩ := ih _ shorter rest still rfl
        exact ⟨c :: text, rfl⟩
  · rintro ⟨text, rfl⟩
    induction text with
    | nil => rfl
    | cons c text ih =>
      rw [flatMap_cons, (utf8Step_iff.mpr ⟨c, rfl⟩).validate]
      exact ih

instance (bytes : List UInt8) : Decidable (Utf8 bytes) := decidable_of_iff _ (wsUtf8Validate_eq_true_iff bytes)

/-- `ws_utf8_validate` over the first `len` bytes of a buffer, from position `i` on; `none` is a read past the buffer. -/
def wsUtf8ValidateAt (data : List UInt8) (len i : Nat) : Option Bool :=
  if i < len then do
    let b ← data[i]?
    if b ≤ 0x7F then wsUtf8ValidateAt data len (i + 1)
    else if b &&& 0xE0 == 0xC0 then
      if b < 0xC2 then some false
      else if i + 1 ≥ len then some false
      else
        let b1 ← data[i + 1]?
        if !wsUtf8Tail b1 then some false else wsUtf8ValidateAt data len (i + 2)
    else if b &&& 0xF0 == 0xE0 then
      if i + 2 ≥ len then some false
      else
        let b1 ← data[i + 1]?
        let b2 ← data[i + 2]?
        if !wsUtf8Tail b1 || !wsUtf8Tail b2 then some false
        else if b == 0xE0 && b1 < 0xA0 then some false
        else if b == 0xED && b1 ≥ 0xA0 then some false
        else wsUtf8ValidateAt data len (i + 3)
    else if b &&& 0xF8 == 0xF0 then
      if b > 0xF4 then some false
      else if i + 3 ≥ len then some false
      else
        let b1 ← data[i + 1]?
        let b2 ← data[i + 2]?
        let b3 ← data[i + 3]?
        if !wsUtf8Tail b1 || !wsUtf8Tail b2 || !wsUtf8Tail b3 then some false
        else if b == 0xF0 && b1 < 0x90 then some false
        else if b == 0xF4 && b1 > 0x8F then some false
        else wsUtf8ValidateAt data len (i + 4)
    else some false
  else some true
termination_by len - i

/-- The scan by positions is the one over the bytes that are left. -/
theorem wsUtf8ValidateAt_eq (data : List UInt8) (i : Nat) :
    wsUtf8ValidateAt data data.length i = some (wsUtf8Validate (data.drop i)) := by
  induction left : data.length - i using Nat.strong_induction_on generalizing i with
  | _ n ih =>
    unfold wsUtf8ValidateAt
    by_cases inside : i < data.length
    · rw [if_pos inside, List.getElem?_eq_getElem inside, drop_eq_getElem_cons inside]
      conv_rhs => unfold wsUtf8Validate
      -- the reads after the first one, and what is left after them, in terms of what is left after the first
      have next : ∀ k, wsUtf8ValidateAt data data.length (i + 1 + k) = some (wsUtf8Validate ((data.drop (i + 1)).drop k)) := by
        intro k
        rw [drop_drop]
        exact ih _ (by omega) _ rfl
      have get : ∀ k, data[i + 1 + k]? = (data.drop (i + 1))[k]? := fun k => List.getElem?_drop.symm
      have size : ∀ k, i + 1 + k ≥ data.length ↔ (data.drop (i + 1)).length ≤ k := fun k => by
        rw [length_drop]
        omega
      have next0 := next 0
      have size0 := size 0
      have get0 := get 0
      simp only [Nat.add_zero] at next0 size0 get0
      simp only [bind_eq_bind, bind_some, next0, next 1, next 2, next 3, get0, get 1, get 2, size0, size 1, size 2]
      generalize data.drop (i + 1) = rest
      rcases rest with _ | ⟨b1, _ | ⟨b2, _ | ⟨b3, rest⟩⟩⟩
      all_goals
        simp only [length_cons, length_nil, drop_zero, drop_succ_cons, drop_nil,
          List.getElem?_cons_zero, List.getElem?_cons_succ, bind_some, apply_ite some, Nat.reduceAdd, Nat.reduceLeDiff,
          Nat.le_refl, Nat.zero_le, if_true, if_false]
    · rw [if_neg inside, drop_eq_nil_of_le (Nat.le_of_not_lt inside)]
      rfl

/-- The validator accepts exactly well-formed UTF-8, and reads within the given length. -/
theorem utf8_validate_exact (data : List UInt8) : wsUtf8ValidateAt data data.length 0 = some (decide (Utf8 data)) := by
  rw [wsUtf8ValidateAt_eq, List.drop_zero, Option.some.injEq, Bool.eq_iff_iff, wsUtf8Validate_eq_true_iff,
    decide_eq_true_iff]

end Xylem.Ws
