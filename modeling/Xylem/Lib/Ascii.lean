import Mathlib.Algebra.GroupWithZero.Nat

namespace Xylem.Lib

open List Nat

/-- The bytes of a text that is written in ASCII. -/
def ascii (text : String) : List UInt8 := text.toList.map fun c => UInt8.ofNat c.toNat

/-- The first part of the text that starts with the pattern, as `strstr` finds it. -/
def strstr (pattern : List UInt8) : List UInt8 → Option (List UInt8)
  | [] => if pattern = [] then some [] else none
  | c :: rest => if pattern.isPrefixOf (c :: rest) then some (c :: rest) else strstr pattern rest

def isDigit (c : UInt8) : Bool := 0x30 ≤ c && c ≤ 0x39

/-- The value of a row of decimal digits. -/
def decimal (digits : List UInt8) : Nat := digits.foldl (fun value c => 10 * value + (c.toNat - 0x30)) 0

variable (n : Nat)

/-- A number in decimal digits, as `printf` writes it. -/
def printed : List UInt8 := ascii (toString n)

theorem printed_eq : printed n = (Nat.toDigits 10 n).map fun c => UInt8.ofNat c.toNat := by
  rw [printed, ascii, toString_eq_ofList_toDigits, String.toList_ofList]

theorem printed_of_lt {n : Nat} (digit : n < 10) : printed n = [UInt8.ofNat (0x30 + n)] := by
  rw [printed_eq, toDigits_of_lt_base digit]
  decide +revert

theorem printed_of_ge {n : Nat} (more : 10 ≤ n) : printed n = printed (n / 10) ++ [UInt8.ofNat (0x30 + n % 10)] := by
  have last := printed_of_lt (mod_lt n (by decide : 10 > 0))
  rw [printed_eq, toDigits_of_lt_base (mod_lt n (by decide : 10 > 0))] at last
  rw [printed_eq, toDigits_of_base_le (by decide) more, map_append, ← printed_eq, last]

theorem printed_isDigit {n : Nat} {c : UInt8} (isIn : c ∈ printed n) : isDigit c = true := by
  induction n using Nat.strongRecOn with
  | ind n ih =>
    have digit : ∀ k < 10, isDigit (UInt8.ofNat (0x30 + k)) = true := by decide
    rcases Nat.lt_or_ge n 10 with small | more
    · rw [printed_of_lt small, mem_singleton] at isIn
      rw [isIn]
      exact digit n small
    · rw [printed_of_ge more, mem_append, mem_singleton] at isIn
      rcases isIn with earlier | last
      · exact ih (n / 10) (by omega) earlier
      · rw [last]
        exact digit (n % 10) (by omega)

theorem printed_length_le {n k : Nat} (some_ : 0 < k) (small : n < 10 ^ k) : (printed n).length ≤ k := by
  rw [printed_eq, length_map]
  exact (length_toDigits_le_iff (by decide) some_).mpr small

theorem decimal_printed : decimal (printed n) = n := by
  induction n using Nat.strongRecOn with
  | ind n ih =>
    have digit : ∀ k < 10, (UInt8.ofNat (0x30 + k)).toNat - 0x30 = k := by decide
    rcases Nat.lt_or_ge n 10 with small | more
    · rw [printed_of_lt small, decimal, foldl_cons, foldl_nil, digit n small]
      omega
    · have front := ih (n / 10) (by omega)
      rw [decimal] at front
      rw [printed_of_ge more, decimal, foldl_append, front, foldl_cons, foldl_nil,
        digit (n % 10) (by omega)]
      omega

theorem strstr_suffix {pattern text found : List UInt8} (finds : strstr pattern text = some found) : found <:+ text := by
  induction text with
  | nil =>
    rw [strstr] at finds
    split at finds
    · cases finds
      exact suffix_refl _
    · cases finds
  | cons c rest ih =>
    rw [strstr] at finds
    split at finds
    · cases finds
      exact suffix_refl _
    · exact (ih finds).trans (suffix_cons ..)

end Xylem.Lib
