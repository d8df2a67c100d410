import Mathlib.Data.Finset.Card
import Mathlib.Algebra.Group.Defs

namespace Xylem.Lib

open List

variable {α : Type*}

/-- A shard followed by zeros up to `len` symbols. -/
def padTo [Zero α] (len : Nat) (shard : List α) : List α := shard ++ List.replicate (len - shard.length) 0

theorem padTo_length [Zero α] {len : Nat} {shard : List α} (fits : shard.length ≤ len) :
    (padTo len shard).length = len := by
  simp only [padTo, length_append, length_replicate]
  omega

/-- A systematic erasure code: from `dataShards` shards of one length it computes `parityShards`
more of that length, and it restores marked shards of a word from the unmarked ones. -/
structure Erasure (α : Type*) where
  dataShards : Nat
  parityShards : Nat
  encode : List (List α) → Nat → Option (List (List α))
  reconstruct : List (List α) → List Bool → Nat → Option (List (List α))
  parityCount : ∀ {data len parity}, encode data len = some parity → parity.length = parityShards
  parityLength : ∀ {data len parity}, encode data len = some parity → ∀ shard ∈ parity, shard.length = len

namespace Erasure

variable (code : Erasure α)

def total : Nat := code.dataShards + code.parityShards

variable (len : Nat)

/-- The data and parity shards of one word, all of length `len`. -/
structure Word (data parity : List (List α)) : Prop where
  dataCount : data.length = code.dataShards
  dataLength : ∀ shard ∈ data, shard.length = len
  encoded : code.encode data len = some parity

/-- `received` agrees with the word at every position that is not marked as lost, and at least
`dataShards` positions are not marked. -/
structure Suffices (word received : List (List α)) (marks : List Bool) : Prop where
  count : received.length = code.total
  marked : marks.length = code.total
  equal : ∀ shard ∈ received, shard.length = len
  agrees : ∀ i < code.total, marks.getD i true = false → received.getD i [] = word.getD i []
  enough : code.dataShards ≤ ((Finset.range code.total).filter fun i => marks.getD i true = false).card

/-- Every data can be encoded, and any `dataShards` shards of a word restore its data. -/
structure Correct : Prop where
  encodes : ∀ (data : List (List α)) (len : Nat), 0 < len → data.length = code.dataShards →
    (∀ shard ∈ data, shard.length = len) → ∃ parity, code.Word len data parity
  restores : ∀ (len : Nat) (data parity received : List (List α)) (marks : List Bool), 0 < len →
    code.Word len data parity → code.Suffices len (data ++ parity) received marks →
    ∃ out, code.reconstruct received marks len = some out ∧ ∀ i < code.dataShards, out.getD i [] = data.getD i []

variable (a b : List UInt8)

/-- The first `len` symbols of two shards, combined. -/
def xorShards : List UInt8 :=
  (List.range len).map fun i => a.getD i 0 ^^^ b.getD i 0

theorem xorShards_comm : xorShards len a b = xorShards len b a := by
  simp only [xorShards, UInt8.xor_comm]

theorem xorShards_left {len : Nat} {a b : List UInt8} (length : b.length = len) :
    xorShards len a (xorShards len a b) = b := by
  refine ext_getElem (by simp [xorShards, length]) fun i inside _ => ?_
  have below : i < len := by simpa [xorShards] using inside
  have own : i < b.length := by omega
  simp only [xorShards, getElem_map, getElem_range, getD_eq_getElem?_getD, getElem?_map, getElem?_range below,
    Option.map_some, Option.getD_some, getElem?_eq_getElem own]
  rw [← UInt8.xor_assoc, UInt8.xor_self, UInt8.zero_xor]

/-- The exclusive or of two data shards as the only parity shard. -/
def xor : Erasure UInt8 where
  dataShards := 2
  parityShards := 1
  encode data len := if len = 0 then none else some [xorShards len (data.getD 0 []) (data.getD 1 [])]
  reconstruct received marks len :=
    if len = 0 ∨ 1 < marks.count true then none
    else some [
      if marks.getD 0 true then xorShards len (received.getD 1 []) (received.getD 2 []) else received.getD 0 [],
      if marks.getD 1 true then xorShards len (received.getD 0 []) (received.getD 2 []) else received.getD 1 [],
      received.getD 2 []]
  parityCount encoded := by
    split at encoded
    · cases encoded
    · cases encoded
      rfl
  parityLength encoded := by
    split at encoded
    · cases encoded
    · cases encoded
      simp [xorShards]

theorem xor_correct : xor.Correct := by
  constructor
  · intro data len pos count lengths
    exact ⟨_, count, lengths, if_neg (by omega)⟩
  · intro len data parity received marks pos word enough
    obtain ⟨a, b, rfl⟩ := length_eq_two.mp word.dataCount
    have encoded := word.encoded
    simp only [xor, if_neg (Nat.pos_iff_ne_zero.mp pos)] at encoded
    cases encoded
    have lengthA : a.length = len := word.dataLength a (by simp)
    have lengthB : b.length = len := word.dataLength b (by simp)
    obtain ⟨x, y, z, rfl⟩ := length_eq_three.mp enough.count
    obtain ⟨m, n, o, rfl⟩ := length_eq_three.mp enough.marked
    have first := enough.agrees 0 (by decide)
    have second := enough.agrees 1 (by decide)
    have third := enough.agrees 2 (by decide)
    have card := enough.enough
    have few : ¬ (len = 0 ∨ 1 < [m, n, o].count true) := by
      rintro (zero | many)
      · omega
      · revert many card
        cases m <;> cases n <;> cases o <;> decide
    refine ⟨_, if_neg few, ?_⟩
    intro i data
    have data : i < 2 := data
    have either : i = 0 ∨ i = 1 := by omega
    simp only [getD_cons_zero, getD_cons_succ, cons_append, nil_append] at first second third
    rcases either with rfl | rfl
    · cases m with
      | false => exact first rfl
      | true =>
        have kept : n = false ∧ o = false := by revert card; cases n <;> cases o <;> decide
        simp only [getD_cons_zero, getD_cons_succ, second kept.1, third kept.2, if_true]
        rw [xorShards_comm len a b]
        exact xorShards_left lengthA
    · cases n with
      | false => exact second rfl
      | true =>
        have kept : m = false ∧ o = false := by revert card; cases m <;> cases o <;> decide
        simp only [getD_cons_zero, getD_cons_succ, first kept.1, third kept.2, if_true]
        exact xorShards_left lengthB

end Erasure

end Xylem.Lib
