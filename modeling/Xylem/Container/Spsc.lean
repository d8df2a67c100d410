import Mathlib.Data.Nat.Bitwise
import Xylem.Lib.Run

namespace Xylem.Container

open List Nat Option Function

/-- `spsc_t`: the positions are `size_t`, and a slot without an element is NULL. -/
structure Spsc (α : Type*) where
  wpos : Nat
  rpos : Nat
  slots : Nat → Option α
  mask : Nat

namespace Spsc

variable {α : Type*}

/-- `spsc_init`. -/
def init (cap : Nat) : Option (Spsc α) :=
  if cap ≠ 0 ∧ cap &&& (cap - 1) = 0 then some ⟨0, 0, fun _ => none, cap - 1⟩ else none

variable (q : Spsc α)

/-- `spsc_len`. -/
def len : Nat := (q.wpos + 2 ^ 64 - q.rpos) % 2 ^ 64

/-- The slot of the `n`-th element in the queue. -/
def slot (n : Nat) : Nat := (q.rpos + n) % 2 ^ 64 &&& q.mask

/-- The elements in the queue, oldest first. -/
def content : List (Option α) := (List.range q.len).map fun n => q.slots (q.slot n)

/-- Where the producer is in `spsc_push`. Nobody else writes `wpos`, so that its load is one step with that of `rpos`. -/
inductive PushPc (α : Type*)
  | out
  | check (elem : α)
  | store (elem : α) (w : Nat)
  | publish (elem : α) (w : Nat)

/-- Where the consumer is in `spsc_pop`, which alone writes `rpos`. -/
inductive PopPc (α : Type*)
  | out
  | check
  | read (r : Nat)
  | publish (r : Nat) (elem : Option α)

/-- A queue with its producer and its consumer. The other fields record the elements pushed and popped, what the pushes
that returned -1 were called with, and how many pops returned NULL. -/
structure Sys (α : Type*) where
  queue : Spsc α
  producer : PushPc α
  consumer : PopPc α
  pushed : List α
  popped : List (Option α)
  refused : List (Option α)
  empties : Nat

inductive Act (α : Type*)
  | push (elem : Option α)
  | pop
  | runPush
  | runPop

namespace Sys

def init : Sys α := ⟨q, .out, .out, [], [], [], 0⟩

variable (s : Sys α)

def runPush : Option (Sys α) :=
  match s.producer with
  | .out => none
  | .check elem =>
    if s.queue.len > s.queue.mask then some { s with producer := .out, refused := s.refused ++ [some elem] }
    else some { s with producer := .store elem s.queue.wpos }
  | .store elem w =>
    some { s with
      queue := { s.queue with slots := Function.update s.queue.slots (w &&& s.queue.mask) (some elem) }
      producer := .publish elem w }
  | .publish elem w =>
    some { s with
      queue := { s.queue with wpos := (w + 1) % 2 ^ 64 }, producer := .out, pushed := s.pushed ++ [elem] }

def runPop : Option (Sys α) :=
  match s.consumer with
  | .out => none
  | .check =>
    if s.queue.wpos = s.queue.rpos then some { s with consumer := .out, empties := s.empties + 1 }
    else some { s with consumer := .read s.queue.rpos }
  | .read r => some { s with consumer := .publish r (s.queue.slots (r &&& s.queue.mask)) }
  | .publish r elem =>
    some { s with queue := { s.queue with rpos := (r + 1) % 2 ^ 64 }, consumer := .out, popped := s.popped ++ [elem] }

/-- A call begins, or one of the two goes on. -/
def step : Act α → Option (Sys α)
  | .push elem =>
    match s.producer, elem with
    | .out, none => some { s with refused := s.refused ++ [none] }
    | .out, some elem => some { s with producer := .check elem }
    | _, _ => none
  | .pop =>
    match s.consumer with
    | .out => some { s with consumer := .check }
    | _ => none
  | .runPush => s.runPush
  | .runPop => s.runPop

/-- The runs of one queue. -/
abbrev Reachable : Sys α → Prop := Lib.Reach step (fun _ _ => True) (init q)

end Sys

/-- What the producer relies on: its position, that there is room, and that its element is where it belongs. -/
def PushPc.Knows (pushed popped cap : Nat) : PushPc α → Prop
  | .store _ w => w = q.wpos ∧ pushed < popped + cap
  | .publish elem w => w = q.wpos ∧ pushed < popped + cap ∧ q.slots (pushed % cap) = some elem
  | _ => True

def PopPc.Knows (pushed : List α) (popped : Nat) : PopPc α → Prop
  | .read r => r = q.rpos ∧ popped < pushed.length
  | .publish r elem => r = q.rpos ∧ popped < pushed.length ∧ elem = pushed[popped]?
  | _ => True

variable {popped : Nat} {q : Spsc α}

theorem PushPc.Knows.pop {pushed cap r : Nat} {pc : PushPc α} (knows : pc.Knows q pushed popped cap) :
    pc.Knows { q with rpos := r } pushed (popped + 1) cap := by
  cases pc with
  | out | check _ => trivial
  | store _ _ => exact ⟨knows.1, by have := knows.2; omega⟩
  | publish _ _ => exact ⟨knows.1, by have := knows.2.1; omega, knows.2.2⟩

theorem PopPc.Knows.push {pushed : List α} {w : Nat} {elem : α} {pc : PopPc α}
    (knows : pc.Knows q pushed popped) : pc.Knows { q with wpos := w } (pushed ++ [elem]) popped := by
  cases pc with
  | out | check => trivial
  | read _ => exact ⟨knows.1, by rw [length_append]; exact Nat.lt_add_right _ knows.2⟩
  | publish _ _ =>
    exact ⟨knows.1, by rw [length_append]; exact Nat.lt_add_right _ knows.2.1,
      knows.2.2.trans (List.getElem?_append_left knows.2.1).symm⟩

namespace Sys

/-- The positions are the numbers of elements pushed and popped, which differ by at most the capacity, so that the tests
see their difference through the wrap. -/
structure Inv (cap : Nat) (s : Sys α) : Prop where
  index : ∀ n, n % 2 ^ 64 &&& s.queue.mask = n % cap
  mask : s.queue.mask + 1 = cap
  small : cap < 2 ^ 64
  wpos : s.queue.wpos = s.pushed.length % 2 ^ 64
  rpos : s.queue.rpos = s.popped.length % 2 ^ 64
  le : s.popped.length ≤ s.pushed.length
  room : s.pushed.length ≤ s.popped.length + cap
  slots : ∀ n, s.popped.length ≤ n → n < s.pushed.length → s.queue.slots (n % cap) = s.pushed[n]?
  log : s.popped = (s.pushed.take s.popped.length).map some
  producer : s.producer.Knows s.queue s.pushed.length s.popped.length cap
  consumer : s.consumer.Knows s.queue s.pushed s.popped.length

variable {cap : Nat} {s t : Sys α}

theorem Inv.len (inv : s.Inv cap) : s.queue.len = s.pushed.length - s.popped.length := by
  have room := inv.room
  have le := inv.le
  have small := inv.small
  rw [Spsc.len, inv.wpos, inv.rpos]
  omega

theorem Inv.slot (inv : s.Inv cap) (n : Nat) : s.queue.slot n = (s.popped.length + n) % cap := by
  rw [Spsc.slot, inv.rpos, mod_add_mod, inv.index]

variable {n : Nat} {q : Spsc α} {act : Act α} {elem : α}

/-- Elements that are in the queue together have different slots. -/
theorem mod_ne {head tail : Nat} (room : tail < head + cap) (ge : head ≤ n) (lt : n < tail) :
    n % cap ≠ tail % cap := fun same => by
  have zero : (tail - n) % cap = 0 := sub_mod_eq_zero_of_mod_eq same.symm
  rw [mod_eq_of_lt (by omega)] at zero
  omega

theorem init_inv (small : cap < 2 ^ 64) (made : Spsc.init cap = some q) : (init q).Inv cap := by
  obtain ⟨⟨pos, power⟩, same⟩ := ite_none_right_eq_some.mp made
  cases same
  obtain ⟨k, rfl⟩ := (and_sub_one_eq_zero_iff_isPowerOfTwo pos).mp power
  have le : k ≤ 64 := ((Nat.pow_lt_pow_iff_right (by decide)).mp small).le
  have some_ : 0 < 2 ^ k := Nat.pos_of_ne_zero pos
  refine ⟨fun n => ?_, ?_, small, rfl, rfl, Nat.le_refl _, Nat.zero_le _, fun n _ lt => ?_, rfl, trivial, trivial⟩
  · change n % 2 ^ 64 &&& (2 ^ k - 1) = _
    rw [and_two_pow_sub_one_eq_mod, mod_mod_of_dvd n (Nat.pow_dvd_pow 2 le)]
  · change 2 ^ k - 1 + 1 = _
    omega
  · exact absurd lt (Nat.not_lt_zero n)

section

variable (inv : s.Inv cap)
include inv

theorem Inv.content : s.queue.content = (s.pushed.drop s.popped.length).map some := by
  refine ext_getElem? fun n => ?_
  rw [Spsc.content, inv.len, List.getElem?_map, List.getElem?_map, List.getElem?_drop]
  by_cases lt : n < s.pushed.length - s.popped.length
  · have slot := inv.slots (s.popped.length + n) (by omega) (by omega)
    rw [List.getElem?_range lt, List.getElem?_eq_getElem (show s.popped.length + n < s.pushed.length by omega)]
    rw [map_some, inv.slot, slot, List.getElem?_eq_getElem (by omega), map_some]
  · rw [List.getElem?_eq_none (by rw [length_range]; omega), List.getElem?_eq_none (by omega)]
    rfl

/-- A step of `spsc_push`. It stores to the slot behind those of the elements in the queue. -/
theorem Inv.runPush (moved : s.runPush = some t) : t.Inv cap := by
  have knows := inv.producer
  unfold Sys.runPush at moved
  split at moved <;> rename_i at_
  · cases moved
  · have len := inv.len
    have mask := inv.mask
    split at moved <;> cases moved
    · exact { inv with producer := trivial }
    · have room : s.pushed.length < s.popped.length + cap := by omega
      exact { inv with producer := ⟨rfl, room⟩ }
  · rename_i elem w
    rw [at_] at knows
    obtain ⟨rfl, room⟩ := knows
    have slot : s.queue.wpos &&& s.queue.mask = s.pushed.length % cap := by rw [inv.wpos, inv.index]
    cases moved
    refine { inv with slots := fun n ge lt => ?_, producer := ⟨rfl, room, ?_⟩, consumer := inv.consumer }
    · dsimp only
      rw [slot, update_of_ne (mod_ne room ge lt), inv.slots n ge lt]
    · dsimp only
      rw [slot, update_self]
  · rename_i elem w
    rw [at_] at knows
    obtain ⟨rfl, room, stored⟩ := knows
    cases moved
    have le := inv.le
    have wpos := inv.wpos
    refine { inv with
      wpos := ?_, le := ?_, room := ?_, slots := fun n ge lt => ?_, log := ?_, producer := trivial, consumer := ?_ }
    · simp only [length_append, length_singleton, wpos, mod_add_mod]
    · simp only [length_append, length_singleton]
      omega
    · simp only [length_append, length_singleton]
      omega
    · simp only [length_append, length_singleton] at lt
      by_cases last : n = s.pushed.length
      · rw [last, List.getElem?_concat_length]
        exact stored
      · rw [List.getElem?_append_left (by omega)]
        exact inv.slots n ge (by omega)
    · rw [take_append_of_le_length le]
      exact inv.log
    · exact inv.consumer.push

/-- A step of `spsc_pop`. It takes the oldest element, and gives its slot back. -/
theorem Inv.runPop (moved : s.runPop = some t) : t.Inv cap := by
  have knows := inv.consumer
  unfold Sys.runPop at moved
  split at moved <;> rename_i at_
  · cases moved
  · split at moved <;> rename_i same <;> cases moved
    · exact { inv with consumer := trivial }
    · have le := inv.le
      refine { inv with consumer := ⟨rfl, Nat.lt_of_le_of_ne le fun equal => same ?_⟩ }
      rw [inv.wpos, inv.rpos, equal]
  · rw [at_] at knows
    obtain ⟨rfl, some_⟩ := knows
    cases moved
    refine { inv with consumer := ⟨rfl, some_, ?_⟩ }
    rw [inv.rpos, inv.index]
    exact inv.slots _ (Nat.le_refl _) some_
  · rw [at_] at knows
    obtain ⟨rfl, some_, rfl⟩ := knows
    cases moved
    have room := inv.room
    have rpos := inv.rpos
    refine { inv with
      rpos := ?_, le := ?_, room := ?_, slots := fun n ge lt => ?_, log := ?_, producer := ?_, consumer := trivial }
    · simp only [length_append, length_singleton, rpos, mod_add_mod]
    · simp only [length_append, length_singleton]
      omega
    · simp only [length_append, length_singleton]
      omega
    · rw [length_append] at ge
      exact inv.slots n (by omega) lt
    · rw [length_append, length_singleton, take_add_one, map_append, ← inv.log,
        List.getElem?_eq_getElem some_]
      rfl
    · rw [length_append]
      exact inv.producer.pop

theorem Inv.step (moved : s.step act = some t) : t.Inv cap := by
  cases act with
  | push elem =>
    simp only [Sys.step] at moved
    split at moved <;> cases moved
    · exact { inv with }
    · exact { inv with producer := trivial }
  | pop =>
    simp only [Sys.step] at moved
    split at moved <;> cases moved
    exact { inv with consumer := trivial }
  | runPush => exact inv.runPush moved
  | runPop => exact inv.runPop moved

/-- The slot that is stored to is not one of an element that is still to be read. -/
theorem Inv.stores_apart {w : Nat} (at_ : s.producer = .store elem w)
    (lt : n < s.queue.len) : s.queue.slot n ≠ w &&& s.queue.mask := by
  have knows := inv.producer
  rw [at_] at knows
  obtain ⟨rfl, room⟩ := knows
  rw [inv.len] at lt
  rw [inv.slot, inv.wpos, inv.index]
  exact mod_ne room (by omega) (by omega)

end

theorem inv_reach (small : cap < 2 ^ 64) (made : Spsc.init cap = some q) (run : Reachable q s) : s.Inv cap :=
  Lib.Reach.invariant (init_inv small made) (fun _ _ _ _ inv _ moved => inv.step moved) run

/-- Where a call fails: at NULL, or at the test of the call. -/
theorem step_fails (moved : s.step act = some t) :
    (t.refused = s.refused ∨ t.refused = s.refused ++ [none] ∨ s.queue.mask < s.queue.len) ∧
      (t.empties = s.empties ∨ s.queue.wpos = s.queue.rpos) := by
  cases act with
  | push elem =>
    simp only [Sys.step] at moved
    split at moved <;> cases moved <;> simp
  | pop =>
    simp only [Sys.step] at moved
    split at moved <;> cases moved
    simp
  | runPush =>
    simp only [Sys.step, Sys.runPush] at moved
    split at moved
    · cases moved
    · split at moved <;> rename_i full <;> cases moved
      · exact ⟨.inr (.inr full), .inl rfl⟩
      · exact ⟨.inl rfl, .inl rfl⟩
    · cases moved; exact ⟨.inl rfl, .inl rfl⟩
    · cases moved; exact ⟨.inl rfl, .inl rfl⟩
  | runPop =>
    simp only [Sys.step, Sys.runPop] at moved
    split at moved
    · cases moved
    · split at moved <;> rename_i equal <;> cases moved
      · exact ⟨.inl rfl, .inr equal⟩
      · exact ⟨.inl rfl, .inl rfl⟩
    · cases moved; exact ⟨.inl rfl, .inl rfl⟩
    · cases moved; exact ⟨.inl rfl, .inl rfl⟩

theorem Inv.full (inv : s.Inv cap) (moved : s.step act = some t)
    (refused : t.refused = s.refused ++ [some elem]) : s.queue.content.length = cap := by
  have len := inv.len
  have mask := inv.mask
  have room := inv.room
  rcases (step_fails moved).1 with same | null | full
  · simp [refused] at same
  · simp [refused] at null
  · rw [inv.content, length_map, length_drop]
    omega

theorem content_of_missed (moved : s.step act = some t) (missed : t.empties = s.empties + 1) :
    s.queue.content = [] := by
  rcases (step_fails moved).2 with same | equal
  · omega
  · have zero : s.queue.len = 0 := by rw [Spsc.len, equal, Nat.add_sub_cancel_left, mod_self]
    rw [Spsc.content, zero]
    rfl

end Sys

/-- In every run of one producer and one consumer the elements come out as they were pushed. A push of an element is
refused only while the queue holds as many as its capacity, and a pop returns NULL only while it holds none. No slot is
written before its element was read. -/
theorem spsc_fifo {cap : Nat} {q : Spsc α} {s : Sys α} (small : cap < 2 ^ 64) (made : init cap = some q)
    (run : Sys.Reachable q s) :
    s.pushed.map some = s.popped ++ s.queue.content ∧
      (∀ elem w, s.producer = .store elem w → ∀ n < s.queue.len, s.queue.slot n ≠ w &&& s.queue.mask) ∧
      ∀ act t, s.step act = some t → (∀ elem, t.refused = s.refused ++ [some elem] → s.queue.content.length = cap) ∧
          (t.empties = s.empties + 1 → s.queue.content = []) := by
  have inv := Sys.inv_reach small made run
  refine ⟨?_, fun _ _ at_ n lt => inv.stores_apart at_ lt, fun _ _ moved => ⟨fun _ => inv.full moved, Sys.content_of_missed moved⟩⟩
  rw [inv.content]
  nth_rewrite 1 [inv.log]
  rw [← List.map_append, List.take_append_drop]

/-- A pop of the empty queue, two pushes, a push that is refused, a pop, and a push into the slot that it has freed. -/
theorem spsc_fifo_reuse : ∃ (q : Spsc Nat) (s : Sys Nat), init 2 = some q ∧ Sys.Reachable q s ∧ s.empties = 1 ∧
    s.refused = [some 3] ∧ s.queue.wpos = 3 ∧ s.queue.content = [some 2, some 3] := by
  obtain ⟨s, run, empties, refused, wpos, pushed, popped⟩ : ∃ s : Sys Nat,
      Sys.Reachable ⟨0, 0, fun _ => none, 1⟩ s ∧ s.empties = 1 ∧ s.refused = [some 3] ∧ s.queue.wpos = 3 ∧
      s.pushed = [1, 2, 3] ∧ s.popped = [some 1] :=
    Lib.exists_reach ([.pop, .runPop, .push (some 1)] ++ List.replicate 3 .runPush ++ .push (some 2) ::
      List.replicate 3 .runPush ++ [.push (some 3), .runPush, .pop, .runPop, .runPop, .runPop, .push (some 3)] ++
      List.replicate 3 .runPush) (by decide +kernel)
  have log := (@spsc_fifo Nat 2 _ _ (by decide) rfl run).1
  rw [pushed, popped, singleton_append, map_cons, List.cons.injEq] at log
  exact ⟨_, s, rfl, run, empties, refused, wpos, log.2.symm⟩

/-- NULL is refused by a queue that holds nothing. -/
theorem spsc_push_null :
    ∃ (q : Spsc Nat) (s t : Sys Nat), init 2 = some q ∧ Sys.Reachable q s ∧ s.step (.push none) = some t ∧
      t.refused = s.refused ++ [none] ∧ s.queue.content.length ≠ 2 :=
  ⟨_, _, _, rfl, .start, rfl, rfl, by decide⟩

end Spsc

end Xylem.Container
