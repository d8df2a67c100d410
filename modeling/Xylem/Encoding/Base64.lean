import Xylem.Lib.Base64

namespace Xylem.Encoding

open Lib List Nat Base64

def b64EncStd : List UInt8 := ascii "ABCDEFGHIJKLMNOPQRSTUVWXYZabcdefghijklmnopqrstuvwxyz0123456789+/"

/-- What `_base64_encode` writes. -/
def base64Loop (table : List UInt8) (padding : Bool) : List UInt8 → List UInt8
  | a :: b :: c :: rest =>
    let val := a.toUInt32 <<< 16 ||| b.toUInt32 <<< 8 ||| c.toUInt32
    table.getD (val >>> 18).toNat 0 :: table.getD ((val >>> 12) &&& 0x3F).toNat 0 ::
      table.getD ((val >>> 6) &&& 0x3F).toNat 0 :: table.getD (val &&& 0x3F).toNat 0 :: base64Loop table padding rest
  | [a, b] =>
    let val := a.toUInt32 <<< 16 ||| b.toUInt32 <<< 8
    table.getD (val >>> 18).toNat 0 :: table.getD ((val >>> 12) &&& 0x3F).toNat 0 ::
      table.getD ((val >>> 6) &&& 0x3F).toNat 0 :: if padding then ascii "=" else []
  | [a] =>
    let val := a.toUInt32 <<< 16
    table.getD (val >>> 18).toNat 0 :: table.getD ((val >>> 12) &&& 0x3F).toNat 0 ::
      if padding then ascii "==" else []
  | [] => []

variable (src : List UInt8) (dlen : Nat) (table : List UInt8) (padding : Bool)

/-- `_base64_encode`; `none` if the destination is too short. -/
def base64Encode : Option (List UInt8) :=
  if dlen < (src.length + 2) / 3 * 4 then none else some (base64Loop table padding src)

def base64EncodeSize (slen : Nat) : Nat := (slen + 2) / 3 * 4

def base64EncodeStd : Option (List UInt8) := base64Encode src dlen b64EncStd true

theorem base64_val (a b c : UInt8) :
    (a.toUInt32 <<< 16 ||| b.toUInt32 <<< 8 ||| c.toUInt32).toNat = (a.toNat * 256 + b.toNat) * 256 + c.toNat := by
  have first := a.toNat_lt
  have second := b.toNat_lt
  have third := c.toNat_lt
  have high : a.toNat <<< 16 ||| b.toNat <<< 8 = (a.toNat * 256 + b.toNat) <<< 8 := by
    rw [← shiftLeft_add_eq_or_of_lt (by rw [shiftLeft_eq]; omega)]
    simp only [shiftLeft_eq]
    omega
  rw [UInt32.toNat_or, UInt32.toNat_or, UInt32.toNat_shiftLeft, UInt32.toNat_shiftLeft]
  simp only [UInt8.toNat_toUInt32]
  have small : a.toNat <<< 16 % 2 ^ 32 = a.toNat <<< 16 := mod_eq_of_lt (by rw [shiftLeft_eq]; omega)
  have smaller : b.toNat <<< 8 % 2 ^ 32 = b.toNat <<< 8 := mod_eq_of_lt (by rw [shiftLeft_eq]; omega)
  change (a.toNat <<< 16 % 2 ^ 32 ||| b.toNat <<< 8 % 2 ^ 32) ||| c.toNat = _
  rw [small, smaller, high, ← shiftLeft_add_eq_or_of_lt (by omega), shiftLeft_eq]

theorem base64_group (val n : UInt32) (below : n.toNat < 32) :
    ((val >>> n) &&& 0x3F).toNat = val.toNat / 2 ^ n.toNat % 64 := by
  have mask : (0x3F : UInt32).toNat = 2 ^ 6 - 1 := rfl
  rw [UInt32.toNat_and, UInt32.toNat_shiftRight, mod_eq_of_lt below, shiftRight_eq_div_pow, mask,
    and_two_pow_sub_one_eq_mod]

theorem base64_groups {val : Nat} (small : val < 2 ^ 24) :
    Base64.groups 4 val = [val / 2 ^ 18, val / 2 ^ 12 % 64, val / 2 ^ 6 % 64, val % 64] := by
  have first : val / 64 / 64 / 64 % 64 = val / 2 ^ 18 := by omega
  have second : val / 64 / 64 % 64 = val / 2 ^ 12 % 64 := by omega
  have third : val / 64 % 64 = val / 2 ^ 6 % 64 := by omega
  simp only [groups, nil_append, cons_append, first, second, third]

theorem base64Loop_eq : base64Loop b64EncStd true src = Base64.encode src := by
  have top : ∀ val : UInt32, (val >>> 18).toNat = val.toNat / 2 ^ 18 := fun val => by
    rw [UInt32.toNat_shiftRight, shiftRight_eq_div_pow]
    rfl
  have second : ∀ val : UInt32, ((val >>> 12) &&& 0x3F).toNat = val.toNat / 2 ^ 12 % 64 := fun val =>
    base64_group val 12 (by decide)
  have third : ∀ val : UInt32, ((val >>> 6) &&& 0x3F).toNat = val.toNat / 2 ^ 6 % 64 := fun val =>
    base64_group val 6 (by decide)
  have last : ∀ val : UInt32, (val &&& 0x3F).toNat = val.toNat % 64 := fun val => by
    have mask : (0x3F : UInt32).toNat = 2 ^ 6 - 1 := rfl
    rw [UInt32.toNat_and, mask, and_two_pow_sub_one_eq_mod]
  induction src using base64Loop.induct with
  | case1 a b c rest ih =>
    have bounds := And.intro a.toNat_lt (And.intro b.toNat_lt c.toNat_lt)
    rw [base64Loop, encode, ih, base64_groups (by omega), top, second, third, last, base64_val]
    rfl
  | case2 a b =>
    have bounds := And.intro a.toNat_lt b.toNat_lt
    have val : (a.toUInt32 <<< 16 ||| b.toUInt32 <<< 8).toNat = (a.toNat * 256 + b.toNat) * 256 := by
      simpa using base64_val a b 0
    have groups : groups 3 ((a.toNat * 256 + b.toNat) * 4) =
        [(a.toNat * 256 + b.toNat) * 256 / 2 ^ 18, (a.toNat * 256 + b.toNat) * 256 / 2 ^ 12 % 64,
          (a.toNat * 256 + b.toNat) * 256 / 2 ^ 6 % 64] := by
      have first : (a.toNat * 256 + b.toNat) * 4 / 64 / 64 % 64 = (a.toNat * 256 + b.toNat) * 256 / 2 ^ 18 := by omega
      have middle : (a.toNat * 256 + b.toNat) * 4 / 64 % 64 = (a.toNat * 256 + b.toNat) * 256 / 2 ^ 12 % 64 := by omega
      have end_ : (a.toNat * 256 + b.toNat) * 4 % 64 = (a.toNat * 256 + b.toNat) * 256 / 2 ^ 6 % 64 := by omega
      simp only [groups, nil_append, cons_append, first, middle, end_]
    rw [base64Loop, encode, groups, top, second, third, val]
    rfl
  | case3 a =>
    have bound := a.toNat_lt
    have val : (a.toUInt32 <<< 16).toNat = a.toNat * 65536 := by
      have zero := base64_val a 0 0
      rw [show (0 : UInt8).toUInt32 = 0 from rfl, UInt32.zero_shiftLeft, UInt32.or_zero, UInt32.or_zero] at zero
      exact zero.trans (by rw [show (0 : UInt8).toNat = 0 from rfl]; omega)
    have groups : groups 2 (a.toNat * 16) = [a.toNat * 65536 / 2 ^ 18, a.toNat * 65536 / 2 ^ 12 % 64] := by
      have first : a.toNat * 16 / 64 % 64 = a.toNat * 65536 / 2 ^ 18 := by omega
      have second : a.toNat * 16 % 64 = a.toNat * 65536 / 2 ^ 12 % 64 := by omega
      simp only [groups, nil_append, cons_append, first, second]
    rw [base64Loop, encode, groups, top, second, val]
    rfl
  | case4 => rfl

theorem base64EncodeStd_eq {src : List UInt8} {dlen : Nat} (room : (src.length + 2) / 3 * 4 ≤ dlen) :
    base64EncodeStd src dlen = some (Base64.encode src) := by
  rw [base64EncodeStd, base64Encode, if_neg (by omega), base64Loop_eq]

/-- `xylem_base64_encode_size` with the `int` that it computes in. -/
def base64EncodeSizeInt (slen : Int) : Int := ((slen + 2).bmod (2 ^ 32)).tdiv 3 * 4 |>.bmod (2 ^ 32)

/-- `_base64_encode` for a source of any size. -/
def base64EncodeInt (src : List UInt8) (dlen : Int) (table : List UInt8) (padding : Bool) : Option (List UInt8) :=
  if dlen < base64EncodeSizeInt src.length then none else some (base64Loop table padding src)

theorem base64Loop_length (src : List UInt8) :
    (base64Loop table padding src).length = if padding then (src.length + 2) / 3 * 4 else (src.length * 4 + 2) / 3 := by
  fun_induction base64Loop table padding src with
  | case1 a b c rest val ih =>
    simp only [length_cons, ih]
    split <;> omega
  | case2 a b val => cases padding <;> simp [ascii]
  | case3 a val => cases padding <;> simp [ascii]
  | case4 => simp

/-- From `3 * 2 ^ 29` on, the product is negative, or positive again where the sum is negative. -/
theorem base64EncodeSizeInt_eq {slen : Nat} (int : slen < 2 ^ 31) :
    base64EncodeSizeInt slen = if slen + 2 < 3 * 2 ^ 29 then ((slen + 2) / 3 * 4 : Int)
      else if slen + 2 < 2 ^ 31 then ((slen + 2) / 3 * 4 : Int) - 4294967296 else 1431655768 := by
  unfold base64EncodeSizeInt
  rcases Nat.lt_or_ge (slen + 2) (2 ^ 31) with small | wraps
  · have sum : ((slen : Int) + 2).bmod (2 ^ 32) = slen + 2 := Int.bmod_eq_of_le (by omega) (by omega)
    rw [sum, Int.tdiv_eq_ediv_of_nonneg (by omega), Int.bmod_def]
    split <;> omega
  · have last : slen = 2 ^ 31 - 2 ∨ slen = 2 ^ 31 - 1 := by omega
    rcases last with rfl | rfl <;> decide

/-- As long as the size is one of an `int`, natural numbers say the same. -/
theorem base64Encode_eq {src : List UInt8} (small : src.length + 2 < 3 * 2 ^ 29) (dlen : Nat) :
    base64Encode src dlen table padding = base64EncodeInt src dlen table padding := by
  have size := @base64EncodeSizeInt_eq src.length (by omega)
  rw [if_pos small] at size
  unfold base64Encode base64EncodeInt
  rw [size]
  exact if_congr (by omega) rfl rfl

/-- Encoding stays inside the destination, and the size that is computed is enough, exactly if the size is below `2 ^ 31`. -/
theorem base64_encode_fits_iff {src : List UInt8} (int : src.length < 2 ^ 31) :
    (∀ dlen table padding out, base64EncodeInt src dlen table padding = some out →
      out.length ≤ dlen ∧ (base64EncodeSizeInt src.length < 0 ∨ out.length ≤ base64EncodeSizeInt src.length)) ↔
    src.length + 2 < 3 * 2 ^ 29 := by
  have size := base64EncodeSizeInt_eq int
  constructor
  · intro fits
    refine Nat.lt_of_not_le fun large => ?_
    rw [if_neg (Nat.not_lt.mpr large)] at size
    obtain ⟨inside, -⟩ := fits 1431655768 b64EncStd true _ (if_neg (by split at size <;> omega))
    rw [base64Loop_length, if_pos rfl] at inside
    omega
  · intro small dlen table padding out encoded
    rw [if_pos small] at size
    obtain ⟨room, same⟩ := Option.ite_none_left_eq_some.mp encoded
    cases same
    rw [base64Loop_length]
    split <;> omega

theorem base64_encode_fits_word :
    ∃ out : List UInt8, base64EncodeInt (ascii "word") 8 b64EncStd true = some out ∧ out.length ≤ (8 : Int) :=
  have is : base64EncodeInt (ascii "word") 8 b64EncStd true = some _ := if_neg (by decide)
  ⟨_, is, ((@base64_encode_fits_iff (ascii "word") (by decide)).mpr (by decide) _ _ _ _ is).1⟩

/-- The size of `3 * 2 ^ 29 - 2` bytes is negative, so that they fit anywhere. -/
theorem base64_encode_overruns : ∃ out,
    base64EncodeInt (List.replicate (3 * 2 ^ 29 - 2) 0) 0 b64EncStd true = some out ∧ out.length = 2 ^ 31 := by
  refine ⟨_, if_neg ?_, ?_⟩
  · rw [List.length_replicate]
    decide
  · rw [base64Loop_length, List.length_replicate]
    rfl

end Xylem.Encoding
