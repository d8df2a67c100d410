import Mathlib.Data.FinEnum
import Xylem.Lib.Mixing
import Xylem.Lib.Run

namespace Xylem.Utils

open Function

/-- `_utils_splitmix64`. -/
def utilsSplitmix64 (x : UInt64) : UInt64 :=
  let x := x + 0x9E3779B97F4A7C15
  let x := (x ^^^ x >>> 30) * 0xBF58476D1CE4E5B9
  let x := (x ^^^ x >>> 27) * 0x94D049BB133111EB
  x ^^^ x >>> 31

theorem utilsSplitmix64_bijective : Bijective utilsSplitmix64 := by
  refine Finite.injective_iff_bijective.mp fun x y same => ?_
  have third := Lib.xorShift64_injective 31 (by decide) same
  have second := Lib.xorShift64_injective 27 (by decide) (Lib.mul64_injective 0x319642B2D24D8EC3 (by decide) third)
  have first := Lib.xorShift64_injective 30 (by decide) (Lib.mul64_injective 0x96DE1B173F119089 (by decide) second)
  exact (UInt64.add_left_inj _).mp first

/-- Where a thread is in `xylem_utils_getprng`: `draw` is the number of draws that were counted before its own. -/
inductive Pc
  | out
  | check (min max : Int32)
  | exchange (min max : Int32) (s : UInt64)
  | count (min max : Int32)
  | mix (min max : Int32) (seq : UInt64) (draw : Nat)

/-- The statics and the threads. `draws` does not wrap around, and `drawn` has the word `r` of a finished draw with what
the call returned. -/
structure Prng where
  seed : UInt64
  counter : UInt64
  threads : Nat → Pc
  draws : Nat
  drawn : Nat → Option (UInt64 × Int32)

inductive Act
  | call (min max : Int32)
  /-- `got` is what `platform_info_getrandom` gives, and `clock` the time xored with the address of `seed`. -/
  | run (got : Option UInt64) (clock : UInt64)

namespace Prng

def init : Prng := ⟨0, 0, fun _ => .out, 0, fun _ => none⟩

/-- The seed that a thread offers. -/
def offer (got : Option UInt64) (clock : UInt64) : UInt64 :=
  if got = none ∨ got = some 0 then clock ||| 1 else got.getD 0

variable (p : Prng)

def goto (t : Nat) (pc : Pc) : Prng := { p with threads := update p.threads t pc }

/-- A thread goes on by one atomic access. -/
def step (act : Nat × Act) : Option Prng :=
  let t := act.1
  match p.threads t, act.2 with
  | .out, .call min max => some (p.goto t (.check min max))
  | .check min max, .run got clock =>
    some (p.goto t (if p.seed = 0 then .exchange min max (offer got clock) else .count min max))
  | .exchange min max s, .run _ _ => some ({ p with seed := if p.seed = 0 then s else p.seed }.goto t (.count min max))
  | .count min max, .run _ _ =>
    some ({ p with counter := p.counter + 1, draws := p.draws + 1 }.goto t (.mix min max p.counter p.draws))
  | .mix min max seq draw, .run _ _ =>
    let r := utilsSplitmix64 (seq + p.seed)
    -- C leaves an `int` that overflows and an empty range undefined.
    let value := min + (r % (max - min + 1).toInt64.toUInt64).toUInt32.toInt32
    some ({ p with drawn := update p.drawn draw (some (r, value)) }.goto t .out)
  | _, _ => none

abbrev Reachable : Prng → Prop := Lib.Reach step (fun _ _ => True) init

end Prng

/-- What a thread relies on. -/
def Pc.Knows (seed : UInt64) : Pc → Prop
  | .exchange _ _ s => s ≠ 0
  | .count _ _ => seed ≠ 0
  | .mix _ _ seq draw => seed ≠ 0 ∧ seq = UInt64.ofNat draw
  | _ => True

/-- The seed stays as it is from the first draw on. -/
structure Prng.Inv (p : Prng) : Prop where
  counted : p.counter = UInt64.ofNat p.draws
  knows : ∀ t, (p.threads t).Knows p.seed
  words : ∀ n d, p.drawn n = some d → p.seed ≠ 0 ∧ d.1 = utilsSplitmix64 (UInt64.ofNat n + p.seed)

namespace Prng

theorem offer_ne_zero (got : Option UInt64) (clock : UInt64) : offer got clock ≠ 0 := by
  unfold offer
  split
  · exact fun zero => absurd (UInt64.or_eq_zero_iff.mp zero).2 (by decide)
  · cases got <;> simp_all

namespace Inv

variable {p : Prng} {t : Nat} (inv : p.Inv)
include inv

theorem goto {pc : Pc} (knows : pc.Knows p.seed) : (p.goto t pc).Inv where
  counted := inv.counted
  knows := (forall_update_iff p.threads fun _ pc => pc.Knows p.seed).mpr ⟨knows, fun u _ => inv.knows u⟩
  words := inv.words

theorem exchange {s : UInt64} (unset : p.seed = 0) : { p with seed := s : Prng }.Inv := by
  refine ⟨inv.counted, fun u => ?_, fun n d done => absurd unset (inv.words n d done).1⟩
  have knows := inv.knows u
  cases pc : p.threads u <;> rw [pc, unset] at knows
  · trivial
  · trivial
  · exact knows
  · exact absurd rfl knows
  · exact absurd rfl knows.1

theorem finish {n : Nat} {d : UInt64 × Int32} (set : p.seed ≠ 0)
    (word : d.1 = utilsSplitmix64 (UInt64.ofNat n + p.seed)) :
    { p with drawn := update p.drawn n (some d) : Prng }.Inv := by
  refine ⟨inv.counted, inv.knows, fun m e done => ?_⟩
  rcases eq_or_ne m n with rfl | other
  · cases (update_self m _ p.drawn).symm.trans done
    exact ⟨set, word⟩
  · exact inv.words m e ((update_of_ne other _ _).symm.trans done)

theorem step {q : Prng} {act : Nat × Act} (moved : p.step act = some q) : q.Inv := by
  obtain ⟨t, act⟩ := act
  have knows := inv.knows t
  simp only [Prng.step] at moved
  split at moved <;> cases moved <;> rename_i pc <;> rw [pc] at knows
  · exact inv.goto trivial
  · by_cases unset : p.seed = 0
    · rw [if_pos unset]
      exact inv.goto (offer_ne_zero _ _)
    · rw [if_neg unset]
      exact inv.goto unset
  · by_cases unset : p.seed = 0
    · rw [if_pos unset]
      exact (inv.exchange unset).goto knows
    · rw [if_neg unset]
      exact inv.goto unset
  · have more : { p with counter := p.counter + 1, draws := p.draws + 1 : Prng }.Inv :=
      ⟨by simp [inv.counted, UInt64.ofNat_add], inv.knows, inv.words⟩
    exact more.goto ⟨knows, inv.counted⟩
  · exact (inv.finish knows.1 (by rw [knows.2])).goto trivial

end Inv

theorem Reachable.inv {p : Prng} (reach : p.Reachable) : p.Inv := by
  have start : init.Inv := ⟨rfl, fun _ => trivial, by simp [init]⟩
  exact reach.invariant start fun _ _ _ _ inv _ moved => inv.step moved

end Prng

/-- Draws less than `2 ^ 64` apart have different words, whichever threads made them. -/
theorem getprng_full_period (p : Prng) (reach : p.Reachable) : Bijective utilsSplitmix64 ∧
    ∀ i j a b, p.drawn i = some a → p.drawn j = some b → i < j → j < i + 2 ^ 64 → a.1 ≠ b.1 := by
  refine ⟨utilsSplitmix64_bijective, fun i j a b first second later near same => ?_⟩
  rw [(reach.inv.words i a first).2, (reach.inv.words j b second).2] at same
  have counts := (UInt64.add_left_inj _).mp (utilsSplitmix64_bijective.1 same)
  have mods : i % 2 ^ 64 = j % 2 ^ 64 := congrArg UInt64.toNat counts
  omega

/-- Two threads that both find no seed. -/
theorem getprng_full_period_two : ∃ (p : Prng) (a b : UInt64 × Int32),
    p.Reachable ∧ p.drawn 0 = some a ∧ p.drawn 1 = some b ∧ a.1 ≠ b.1 := by
  obtain ⟨p, reach, first, second⟩ : ∃ p : Prng, p.Reachable ∧ (p.drawn 0).isSome ∧ (p.drawn 1).isSome :=
    Lib.exists_reach ((0, .call 1 6) :: (1, .call 0 255) :: (0, .run (some 7) 0) :: (1, .run none 8) ::
      [0, 1, 0, 1, 1, 0].map fun t => (t, .run none 0)) (by decide)
  obtain ⟨a, first⟩ := Option.isSome_iff_exists.mp first
  obtain ⟨b, second⟩ := Option.isSome_iff_exists.mp second
  exact ⟨p, a, b, reach, first, second, (getprng_full_period p reach).2 0 1 a b first second (by decide) (by decide)⟩

end Xylem.Utils
