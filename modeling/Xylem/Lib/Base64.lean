import Xylem.Lib.Ascii

namespace Xylem.Lib.Base64

open List

def alphabet : List UInt8 := ascii "ABCDEFGHIJKLMNOPQRSTUVWXYZabcdefghijklmnopqrstuvwxyz0123456789+/"

def character (value : Nat) : UInt8 := alphabet.getD value 0

/-- The last `count` groups of six bits of a number, the most significant first. -/
def groups : Nat → Nat → List Nat
  | 0, _ => []
  | count + 1, value => groups count (value / 64) ++ [value % 64]

/-- Three bytes give four characters; what is left gets zero bits up to a whole group, and padding. -/
def encode : List UInt8 → List UInt8
  | a :: b :: c :: rest =>
    (groups 4 ((a.toNat * 256 + b.toNat) * 256 + c.toNat)).map character ++ encode rest
  | [a, b] => (groups 3 ((a.toNat * 256 + b.toNat) * 4)).map character ++ ascii "="
  | [a] => (groups 2 (a.toNat * 16)).map character ++ ascii "=="
  | [] => []

theorem character_inj {i j : Nat} (left : i < 64) (right : j < 64) (same : character i = character j) : i = j := by
  have all : ∀ i < 64, ∀ j < 64, character i = character j → i = j := by decide +kernel
  exact all i left j right same

variable {count left right : Nat}

theorem groups_lt {value : Nat} : ∀ group ∈ groups count value, group < 64 := by
  induction count generalizing value with
  | zero => exact fun _ member => absurd member not_mem_nil
  | succ count ih =>
    intro group member
    rcases mem_append.mp member with earlier | last
    · exact ih group earlier
    · rw [mem_singleton.mp last]
      exact Nat.mod_lt _ (by decide)

theorem groups_length (count value : Nat) : (groups count value).length = count := by
  induction count generalizing value with
  | zero => rfl
  | succ count ih =>
    rw [groups, length_append, ih]
    rfl

theorem groups_inj (leftSmall : left < 64 ^ count) (rightSmall : right < 64 ^ count)
    (same : groups count left = groups count right) : left = right := by
  induction count generalizing left right with
  | zero => omega
  | succ count ih =>
    obtain ⟨earlier, last⟩ := append_inj same (by rw [groups_length, groups_length])
    rw [Nat.pow_succ] at leftSmall rightSmall
    have high := ih (Nat.div_lt_of_lt_mul (by omega)) (Nat.div_lt_of_lt_mul (by omega)) earlier
    have low : left % 64 = right % 64 := head_eq_of_cons_eq last
    omega

theorem encode_mem {text : List UInt8} {c : UInt8} (isIn : c ∈ encode text) : c ∈ alphabet ++ ascii "=" := by
  have letter : ∀ {count value : Nat}, c ∈ (groups count value).map character → c ∈ alphabet ++ ascii "=" := by
    intro count value isIn
    obtain ⟨group, among, rfl⟩ := mem_map.mp isIn
    have all : ∀ group < 64, character group ∈ alphabet ++ ascii "=" := by decide +kernel
    exact all group (groups_lt group among)
  fun_induction encode text with
  | case1 a b cc rest ih =>
    rcases mem_append.mp isIn with here | later
    · exact letter here
    · exact ih later
  | case2 =>
    rcases mem_append.mp isIn with here | later
    · exact letter here
    · exact mem_append_right _ later
  | case3 =>
    rcases mem_append.mp isIn with here | later
    · exact letter here
    · rw [show ascii "==" = ascii "=" ++ ascii "=" by decide, mem_append, or_self] at later
      exact mem_append_right _ later
  | case4 => cases isIn

theorem encode_length (text : List UInt8) : (encode text).length = (text.length + 2) / 3 * 4 := by
  fun_induction encode text with
  | case1 a b c rest ih =>
    rw [length_append, length_map, groups_length, ih]
    simp only [length_cons]
    omega
  | case2 =>
    rw [length_append, length_map, groups_length, show (ascii "=").length = 1 from rfl]
    simp only [length_cons, length_nil]
  | case3 =>
    rw [length_append, length_map, groups_length, show (ascii "==").length = 2 from rfl]
    simp only [length_cons, length_nil]
  | case4 => rfl

theorem characters_inj {leftRest rightRest : List UInt8} (leftSmall : left < 64 ^ count)
    (rightSmall : right < 64 ^ count)
    (same : (groups count left).map character ++ leftRest = (groups count right).map character ++ rightRest) :
    left = right ∧ leftRest = rightRest := by
  obtain ⟨front, rest⟩ := append_inj same (by simp only [length_map, groups_length])
  refine ⟨groups_inj leftSmall rightSmall ?_, rest⟩
  have inj : ∀ xs ys : List Nat, (∀ x ∈ xs, x < 64) → (∀ y ∈ ys, y < 64) → xs.map character = ys.map character →
      xs = ys := by
    intro xs
    induction xs with
    | nil =>
      intro ys _ _ equal
      exact (map_eq_nil_iff.mp equal.symm).symm
    | cons x xs ih =>
      intro ys small smaller equal
      cases ys with
      | nil => cases equal
      | cons y ys =>
        obtain ⟨heads, tails⟩ := List.cons.inj equal
        rw [character_inj (small x (mem_cons_self ..)) (smaller y (mem_cons_self ..)) heads,
          ih ys (fun z member => small z (mem_cons_of_mem _ member))
            (fun z member => smaller z (mem_cons_of_mem _ member)) tails]
  exact inj _ _ groups_lt groups_lt front

theorem encode_inj {left right : List UInt8} (length : left.length = right.length) (same : encode left = encode right) :
    left = right := by
  induction left using encode.induct generalizing right with
  | case1 a b c rest ih =>
    match right, length with
    | a' :: b' :: c' :: rest', length =>
      have bounds := And.intro (And.intro a.toNat_lt b.toNat_lt) (And.intro c.toNat_lt a'.toNat_lt)
      have others := And.intro b'.toNat_lt c'.toNat_lt
      obtain ⟨number, later⟩ := characters_inj (by omega) (by omega) same
      have parts : a.toNat = a'.toNat ∧ b.toNat = b'.toNat ∧ c.toNat = c'.toNat := by omega
      rw [UInt8.toNat_inj.mp parts.1, UInt8.toNat_inj.mp parts.2.1, UInt8.toNat_inj.mp parts.2.2,
        ih (by simpa using length) later]
  | case2 a b =>
    match right, length with
    | [a', b'], _ =>
      have bounds := And.intro (And.intro a.toNat_lt b.toNat_lt) (And.intro b'.toNat_lt a'.toNat_lt)
      obtain ⟨number, -⟩ := characters_inj (by omega) (by omega) same
      have parts : a.toNat = a'.toNat ∧ b.toNat = b'.toNat := by omega
      rw [UInt8.toNat_inj.mp parts.1, UInt8.toNat_inj.mp parts.2]
  | case3 a =>
    match right, length with
    | [a'], _ =>
      have bounds := And.intro a.toNat_lt a'.toNat_lt
      obtain ⟨number, -⟩ := characters_inj (by omega) (by omega) same
      rw [UInt8.toNat_inj.mp (by omega : a.toNat = a'.toNat)]
  | case4 => exact (length_eq_zero_iff.mp length.symm).symm

end Xylem.Lib.Base64
