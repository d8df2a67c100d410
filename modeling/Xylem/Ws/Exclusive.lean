import Xylem.Ws.CallersMove

namespace Xylem.Ws

open Lib

variable {ι : Type}

/-- The flags of `io_state` say who is where: one caller at most in each part, and nobody else while the closing
handshake runs. -/
structure WsIo.Exclusive (s : WsIo ι) : Prop where
  recv : ∀ i, (s.pc i).part = .recv → s.reading = true
  oneRecv : ∀ i j, (s.pc i).part = .recv → (s.pc j).part = .recv → i = j
  tx : ∀ i, (s.pc i).part = .tx → s.writing = true
  oneTx : ∀ i j, (s.pc i).part = .tx → (s.pc j).part = .tx → i = j
  shake : ∀ i, (s.pc i).part = .handshake → s.reading = false ∧ s.writing = false ∧ s.closing = true
  oneShake : ∀ i j, (s.pc i).part = .handshake → (s.pc j).part = .handshake → i = j
  began : s.closing = false → s.handshakes = 0
  once : s.handshakes ≤ 1
  closes : s.closes = if s.closed then 1 else 0

variable {s t : WsIo ι} {i : ι}

theorem WsIo.exclusive_init : (WsIo.init : WsIo ι).Exclusive := by
  refine ⟨?_, ?_, ?_, ?_, ?_, ?_, fun _ => rfl, Nat.zero_le _, rfl⟩ <;> simp [WsIo.init, CallerPc.part]

/-- Of one part of the protocol and the condition under which a caller may be in it, before and after a step: the
caller stays out of the part or was in it already, or finds the condition broken, or leaves the part. -/
def WsIo.PartStep (s t : WsIo ι) (i : ι) (p : IoSection) (was is : Prop) : Prop :=
  ((t.pc i).part = p → (s.pc i).part = p) ∧ (was → is) ∨ ¬was ∧ ((t.pc i).part = p → is) ∨
    (s.pc i).part = p ∧ (t.pc i).part ≠ p

theorem SectionStep.reading (moves : SectionStep s t i) :
    s.PartStep t i .recv (s.reading = true) (t.reading = true) := by
  unfold WsIo.PartStep
  cases moves <;> simp_all

theorem SectionStep.writing (moves : SectionStep s t i) : s.PartStep t i .tx (s.writing = true) (t.writing = true) := by
  unfold WsIo.PartStep
  cases moves <;> simp_all

theorem SectionStep.shaking (moves : SectionStep s t i) :
    s.PartStep t i .handshake (s.reading = false ∧ s.writing = false ∧ s.closing = true)
      (t.reading = false ∧ t.writing = false ∧ t.closing = true) := by
  unfold WsIo.PartStep
  cases moves <;> simp_all

theorem WsIo.PartStep.sole {p : IoSection} {was is : Prop} (move : s.PartStep t i p was is)
    (others : ∀ j, j ≠ i → t.pc j = s.pc j) (held : ∀ j, (s.pc j).part = p → was)
    (sole : ∀ j k, (s.pc j).part = p → (s.pc k).part = p → j = k) :
    (∀ j, (t.pc j).part = p → is) ∧ ∀ j k, (t.pc j).part = p → (t.pc k).part = p → j = k := by
  have before : ∀ j, j ≠ i → (t.pc j).part = p → (s.pc j).part = p := fun j other at_ => by rwa [← others j other]
  rcases move with ⟨within, keeps⟩ | ⟨broken, enters⟩ | ⟨was, gone⟩
  · have earlier : ∀ j, (t.pc j).part = p → (s.pc j).part = p := fun j at_ => by
      by_cases own : j = i
      · subst own
        exact within at_
      · exact before j own at_
    exact ⟨fun j at_ => keeps (held j (earlier j at_)), fun j k at_ also => sole j k (earlier j at_) (earlier k also)⟩
  · have own : ∀ j, (t.pc j).part = p → j = i := fun j at_ => by
      by_contra other
      exact broken (held j (before j other at_))
    exact ⟨fun j at_ => enters (by rwa [← own j at_]), fun j k at_ also => (own j at_).trans (own k also).symm⟩
  · have nobody : ∀ j, (t.pc j).part ≠ p := fun j at_ => by
      by_cases own : j = i
      · subst own
        exact gone at_
      · exact own (sole j i (before j own at_) was)
    exact ⟨fun j at_ => absurd at_ (nobody j), fun j _ at_ => absurd at_ (nobody j)⟩

theorem WsIo.Exclusive.step (exclusive : s.Exclusive) (caller : CallerStep s t i) : t.Exclusive := by
  obtain ⟨others, moves, ends⟩ := caller
  obtain ⟨recv, oneRecv, tx, oneTx, shake, oneShake, began, once, closes⟩ := exclusive
  have counted : (t.closing = false → t.handshakes = 0) ∧ t.handshakes ≤ 1 := by
    cases moves with
    | shake _ _ _ _ no _ _ _ closing more =>
      rw [closing, more, began no]
      exact ⟨nofun, Nat.le_refl _⟩
    | refused _ _ _ _ closing more =>
      rw [closing, more]
      exact ⟨nofun, once⟩
    | stay _ _ _ closing more | leaveTx _ _ _ _ closing more | leaveRx _ _ _ _ closing more
    | shaken _ _ _ _ closing more =>
      rw [closing, more]
      exact ⟨began, once⟩
    | enterTx _ _ _ no _ _ _ _ more | enterRx _ _ _ no _ _ _ _ more =>
      rw [more]
      exact ⟨fun _ => began no, once⟩
  have reading := moves.reading.sole others recv oneRecv
  have writing := moves.writing.sole others tx oneTx
  have shaking := moves.shaking.sole others shake oneShake
  refine ⟨reading.1, reading.2, writing.1, writing.2, shaking.1, shaking.2, counted.1, counted.2, ?_⟩
  rcases ends with ⟨closed, same⟩ | ⟨closed, same⟩
  · rw [closed, same, closes]
  · rw [closed, same, WsIo.abort, closes]
    cases s.closed <;> rfl

variable [DecidableEq ι]

theorem WsIo.Exclusive.of_reach {threshold : Nat}
    (reach : Reach (WsIo.step threshold) (fun _ _ => True) WsIo.init s) : s.Exclusive :=
  Reach.invariant WsIo.exclusive_init (fun _ _ _ _ exclusive _ moved => exclusive.step (WsIo.step_caller moved)) reach

/-- The caller runs `ws_recv` or the closing handshake, and may read and change what was received. -/
def CallerPc.Parses (pc : CallerPc) : Prop := pc.part = .recv ∨ pc.part = .handshake

/-- Whatever calls are made on a connection: one caller at most parses what is received, one at most sends or pings,
the closing handshake runs once at most and with nobody beside it, a closed connection lets nobody in, and the
transport is closed once at most. -/
theorem ws_io_exclusive {threshold : Nat}
    (reach : Reach (WsIo.step threshold) (fun _ _ => True) (WsIo.init : WsIo ι) s) :
    (∀ i j, (s.pc i).Parses → (s.pc j).Parses → i = j) ∧ (∀ i j, (s.pc i).part = .tx → (s.pc j).part = .tx → i = j) ∧
    (∀ i j, (s.pc i).part = .handshake → j ≠ i → (s.pc j).part = .none) ∧
    s.handshakes ≤ 1 ∧
    (s.closed = true → ∀ move t, s.step threshold move = some t → ∀ i, (s.pc i).part = .none → (t.pc i).part = .none) ∧
    s.closes ≤ 1 := by
  have exclusive := WsIo.Exclusive.of_reach reach
  have alone : ∀ i j, (s.pc i).part = .handshake → j ≠ i → (s.pc j).part = .none := by
    intro i j at_ other
    obtain ⟨reading, writing, -⟩ := exclusive.shake i at_
    cases part : (s.pc j).part with
    | none => rfl
    | tx => exact absurd (exclusive.tx j part) (by rw [writing]; decide)
    | recv => exact absurd (exclusive.recv j part) (by rw [reading]; decide)
    | handshake => exact absurd (exclusive.oneShake j i part at_) other
  refine ⟨?_, exclusive.oneTx, alone, exclusive.once, ?_, ?_⟩
  · rintro i j (recv | shake) (also | also)
    · exact exclusive.oneRecv i j recv also
    · exact absurd (exclusive.recv i recv) (by rw [(exclusive.shake j also).1]; decide)
    · exact absurd (exclusive.recv j also) (by rw [(exclusive.shake i shake).1]; decide)
    · exact exclusive.oneShake i j shake also
  · intro closed move t moved j out
    obtain ⟨others, moves, -⟩ := WsIo.step_caller moved
    by_cases other : j = move.1
    · subst other
      cases moves with
      | stay part => rw [part, out]
      | enterTx _ _ _ _ no | enterRx _ _ _ _ no | shake _ _ _ _ _ no => rw [no] at closed; cases closed
      | leaveTx _ after | leaveRx _ after | shaken _ after | refused _ after => exact after
    · rw [others j other]
      exact out
  · rw [exclusive.closes]
    split <;> decide

/-- A call of `ws_close` finds one of `ws_recv` and one of `ws_send`, and ends the connection. -/
theorem ws_io_exclusive_closed : ∃ s : WsIo (Fin 3),
    Reach (WsIo.step 1) (fun _ _ => True) WsIo.init s ∧ (s.pc 0).part = .recv ∧ (s.pc 1).part = .tx ∧
    s.closed = true ∧ s.closes ≤ 1 := by
  have run : ∃ s : WsIo (Fin 3), Reach (WsIo.step 1) (fun _ _ => True) WsIo.init s ∧
      (s.pc 0).part = .recv ∧ (s.pc 1).part = .tx ∧ s.closed = true :=
    exists_reach [(0, .recv false), (1, .send .text false [0x68, 0x69]), (2, .close []), (2, .go ⟨false, false, .more⟩)]
      (by decide +kernel)
  obtain ⟨s, reach, recv, tx, closed⟩ := run
  exact ⟨s, reach, recv, tx, closed, (ws_io_exclusive reach).2.2.2.2.2⟩

end Xylem.Ws
