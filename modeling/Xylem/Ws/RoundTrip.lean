import Xylem.Ws.LargeBuffer

namespace Xylem.Ws

open Lib List Option WsFrame
open WsPair

variable {codec : WsDeflate Unit} {cfg : WsConfig} {p q : WsPair}

structure WsPair.Going (cfg : WsConfig) (p : WsPair) : Prop where
  sends : p.sender.Sends (cfg.conn []).maxMsgSize
  receives : ∃ done todo a, p.sender.wire = done ++ todo ∧
    p.receiver.Receives (cfg.conn []).maxMsgSize done todo p.transit a ∧
    (p.opened = false → done = [] ∧ p.receiver.conn.recvBuf = [])

/-- The domain of the transfer, without the reads that ask for no bytes. -/
def WsPair.Roomy (cfg : WsConfig) (p : WsPair) (act : WsPairAct) : Prop := p.Calm cfg act ∧ p.RoomOk act

theorem WsConfig.receives (cfg : WsConfig) {leftover transit : List UInt8} {frames : List WsFrame}
    (bytes : leftover ++ transit = frames.flatMap (·.bytes)) :
    (WsEnd.start (cfg.conn leftover)).Receives (cfg.conn []).maxMsgSize [] frames transit .empty := by
  unfold WsConfig.conn wsHandshakeCreateConn
  dsimp only
  rw [wsEnsureRecvBuf_eq, wsEnsureRecvBuf_eq]
  exact ⟨bytes, rfl, ⟨rfl, rfl, rfl, fun _ _ is => nomatch is⟩, rfl, ⟨rfl, rfl, rfl, rfl⟩, rfl⟩

theorem WsConfig.sends (cfg : WsConfig) (limit : Nat) : (WsEnd.start (cfg.conn [])).Sends limit := by
  unfold WsConfig.conn wsHandshakeCreateConn
  dsimp only
  rw [wsEnsureRecvBuf_eq]
  refine ⟨rfl, ?_, ⟨rfl, rfl, rfl, rfl⟩, fun _ => rfl, by simp [WsEnd.pending, WsEnd.start],
    by simp [WsEnd.start], rfl, by simp [WsEnd.start]⟩
  change 0 < if cfg.fragmentThreshold = 0 then 16 * 1024 else cfg.fragmentThreshold
  split <;> omega

theorem WsPair.Going.start (sender cfg : WsConfig) : (start sender cfg).Going cfg :=
  ⟨sender.sends _, [], [], .empty, rfl, cfg.receives rfl, fun _ => ⟨rfl, rfl⟩⟩

section

variable (going : p.Going cfg) {done todo : List WsFrame} {a : Assembly}
include going

theorem WsPair.Going.put {τ : WsEnd Unit} (new : List WsFrame)
    (sends : τ.Sends (cfg.conn []).maxMsgSize) (wire : τ.wire = p.sender.wire ++ new) : (p.put τ).Going cfg := by
  obtain ⟨done, todo, a, frames, receives, fresh⟩ := going.receives
  refine ⟨sends, done, todo ++ new, a, ?_, ?_, fresh⟩
  · rw [← append_assoc, ← frames]
    exact wire
  · have written : τ.wire.drop p.sender.wire.length = new := by rw [wire, drop_left]
    unfold WsPair.put
    rw [written]
    exact receives.more new

theorem WsPair.Going.moved (opened : q.opened = true)
    (sender : q.sender = p.sender) (frames : p.sender.wire = done ++ todo)
    (receives : q.receiver.Receives (cfg.conn []).maxMsgSize done todo q.transit a) : q.Going cfg :=
  ⟨by rw [sender]; exact going.sends, done, todo, a, by rw [sender]; exact frames, receives,
    fun no => by rw [opened] at no; cases no⟩

theorem WsPair.Going.msgs (frames : p.sender.wire = done ++ todo)
    (receives : p.receiver.Receives (cfg.conn []).maxMsgSize done todo p.transit a) : a.msgs <+: p.sender.sent := by
  have whole := going.sends.whole
  rw [frames, map_append, append_assoc, assemble_append, receives.taken] at whole
  exact assemble_msgs whole

/-- The steps of `ws_recv` between its start and its return. -/
def WsAct.OfCall (act : WsAct) : Prop :=
  (∃ env, act = .turn env) ∨ (∃ chunk, act = .read chunk) ∨ ∃ env, act = .finish env

theorem WsPair.Going.call (act : WsAct) (opened : p.opened = true)
    (calm : p.Calm cfg (.receiver act)) (room : p.RoomOk (.receiver act)) (kind : act.OfCall)
    (moved : p.step codec cfg (.receiver act) = some q) :
    q.Going cfg ∧ q.sender = p.sender ∧ q.opened = true ∧
      q.receiver.effort q.transit < p.receiver.effort p.transit := by
  obtain ⟨done, todo, a, frames, receives, -⟩ := going.receives
  have sendable : ∀ frame ∈ todo, frame.Sendable (none : Option Unit) := fun frame member =>
    going.sends.frames frame (frames ▸ mem_append_right done member)
  have whole := going.sends.whole
  rw [frames] at whole
  rw [WsPair.step, if_pos opened] at moved
  rcases kind with ⟨env, rfl⟩ | ⟨chunk, rfl⟩ | ⟨env, rfl⟩
  · obtain ⟨τ, ran, rfl⟩ := map_eq_some_iff.mp moved
    obtain ⟨done', todo', b, same, next, less⟩ := receives.turn calm sendable whole ran
    exact ⟨going.moved opened rfl (frames.trans same.symm) next, rfl, opened, less⟩
  · simp only [WsPair.receive] at moved
    split at moved
    · rename_i front
      obtain ⟨τ, ran, rfl⟩ := map_eq_some_iff.mp moved
      obtain ⟨next, less⟩ := receives.read front room ran
      rw [if_neg (Int.not_le.mpr room)]
      exact ⟨going.moved opened rfl frames next, rfl, opened, less⟩
    · cases moved
  · obtain ⟨τ, ran, rfl⟩ := map_eq_some_iff.mp moved
    have sizes : ∀ msg ∈ a.msgs, msg.2.length < 2 ^ 31 := fun msg member =>
      going.sends.sizes msg ((going.msgs frames receives).subset member)
    obtain ⟨next, less⟩ := receives.finish calm sizes ran
    exact ⟨going.moved opened rfl frames next, rfl, opened, less⟩

theorem WsPair.Going.recv (opened : p.opened = true) (len : Nat) :
    { p with receiver := p.receiver.recv len }.Going cfg := by
  obtain ⟨done, todo, a, frames, receives, -⟩ := going.receives
  exact going.moved opened rfl frames (receives.recv len)

theorem WsPair.Going.step {act : WsPairAct} (roomy : p.Roomy cfg act)
    (moved : p.step codec cfg act = some q) : q.Going cfg := by
  obtain ⟨calm, room⟩ := roomy
  obtain ⟨done, todo, a, frames, receives, fresh⟩ := going.receives
  cases act with
  | send type data =>
    obtain ⟨τ, ran, rfl⟩ := map_eq_some_iff.mp moved
    obtain ⟨sends, wire⟩ := going.sends.send calm ran
    exact going.put [] sends (by rw [wire, append_nil])
  | frame key =>
    obtain ⟨τ, ran, rfl⟩ := map_eq_some_iff.mp moved
    obtain ⟨sends, new, wire, -⟩ := going.sends.frame (WsEnv.calm_calm key _) ran
    exact going.put new sends wire
  | control ping payload key =>
    simp only [WsPair.step] at moved
    split at moved
    · rename_i short
      cases moved
      obtain ⟨sends, new, wire, -⟩ := going.sends.control short ping _ (WsEnv.calm_calm key .spoiled)
      exact going.put new sends wire
    · cases moved
  | handshake leftover =>
    simp only [WsPair.step] at moved
    split at moved
    · cases moved
    rename_i closed
    simp only [Bool.or_eq_true, not_or, Bool.not_eq_true] at closed
    cases moved
    obtain ⟨rfl, empty⟩ := fresh closed.1
    have bytes := receives.bytes
    rw [empty, nil_append] at bytes
    exact going.moved rfl rfl frames (cfg.receives (by rw [take_append_drop, bytes]))
  | receiver act =>
    by_cases opened : p.opened = true
    · cases act with
      | turn env => exact (going.call _ opened calm room (.inl ⟨env, rfl⟩) moved).1
      | read chunk => exact (going.call _ opened calm room (.inr (.inl ⟨chunk, rfl⟩)) moved).1
      | finish env => exact (going.call _ opened calm room (.inr (.inr ⟨env, rfl⟩)) moved).1
      | close args env => exact calm.elim
      | readFails => exact calm.elim
      | recv len =>
        rw [WsPair.step, if_pos opened] at moved
        cases moved
        exact going.recv opened len
      | send type data =>
        rw [WsPair.step, if_pos opened] at moved
        obtain ⟨τ, ran, rfl⟩ := map_eq_some_iff.mp moved
        simp only [WsEnd.step] at ran
        split at ran
        · cases ran
          exact going.moved opened rfl frames (receives.send type data)
        · cases ran
      | ping data =>
        rw [WsPair.step, if_pos opened] at moved
        cases moved
        exact going.moved opened rfl frames (receives.ping data)
      | tx env =>
        rw [WsPair.step, if_pos opened] at moved
        obtain ⟨τ, ran, rfl⟩ := map_eq_some_iff.mp moved
        exact going.moved opened rfl frames (receives.txStep calm ran)
    · simp only [WsPair.step] at moved
      rw [if_neg opened] at moved
      cases moved

def WsEnd.Waits {δ : Type} (σ : WsEnd δ) : Prop := ∃ len, σ.rx = .reading (.recv len)

namespace WsPair.Going

omit going in
/-- A receiver that waits with nothing in transit has returned all that was written. -/
theorem rest (going : p.Going cfg) (done_ : p.sender.tx = none) (waits : p.receiver.Waits)
    (empty : p.transit = []) : p.receiver.returned = p.sender.sent := by
  obtain ⟨done, todo, a, frames, receives, -⟩ := going.receives
  obtain ⟨len, at_⟩ := waits
  have placed := receives.placed
  rw [at_] at placed
  have bytes := receives.bytes
  rw [empty, append_nil] at bytes
  have all : todo = [] := by
    cases todo with
    | nil => rfl
    | cons frame rest =>
      have short := placed.2 frame rfl
      rw [bytes, flatMap_cons, length_append] at short
      omega
  have whole := going.sends.whole
  have msgs := receives.msgs
  rw [placed.1.2, toList_none, append_nil] at msgs
  rw [frames, all, append_nil, WsEnd.pending, done_, map_none, getD_none, append_nil,
    receives.taken] at whole
  rw [msgs, Option.some.inj whole]

/-- While the receiver does not wait, or waits with room and bytes to come, one of its steps takes it on. -/
theorem next (codec : WsDeflate Unit) (opened : p.opened = true)
    (busy : p.receiver.Waits → 0 < p.receiver.conn.room ∧ p.transit ≠ []) :
    ∃ act q, p.Roomy cfg act ∧ p.step codec cfg act = some q ∧ q.Going cfg ∧ q.sender = p.sender ∧
      q.opened = true ∧ q.receiver.effort q.transit < p.receiver.effort p.transit := by
  obtain ⟨done, todo, a, frames, receives, -⟩ := going.receives
  have placed := receives.placed
  let env : WsEnv := .calm .zero .spoiled
  have calm : env.Calm := WsEnv.calm_calm _ _
  cases at_ : p.receiver.rx with
  | idle =>
    let len := (p.receiver.conn.msg.map (·.2.length)).getD 0
    refine ⟨.receiver (.recv len), { p with receiver := p.receiver.recv len }, ⟨trivial, trivial⟩, ?_,
      going.recv opened len, rfl, opened, receives.recv_effort at_ fun msg held => ?_⟩
    · rw [WsPair.step, if_pos opened]
      rfl
    · simp only [len]
      rw [show p.receiver.conn.msg = some msg from held]
      exact Nat.le_refl _
  | top call | inner call =>
    have moved : ∃ q, p.step codec cfg (.receiver (.turn env)) = some q := by
      simp [WsPair.step, opened, WsPair.receive, WsEnd.step, at_]
    obtain ⟨q, moved⟩ := moved
    exact ⟨.receiver (.turn env), q, ⟨calm, trivial⟩, moved,
      going.call (.turn env) opened calm trivial (.inl ⟨env, rfl⟩) moved⟩
  | done len ok =>
    have moved : ∃ q, p.step codec cfg (.receiver (.finish env)) = some q := by
      simp [WsPair.step, opened, WsPair.receive, WsEnd.step, at_]
    obtain ⟨q, moved⟩ := moved
    exact ⟨.receiver (.finish env), q, ⟨calm, trivial⟩, moved,
      going.call (.finish env) opened calm trivial (.inr (.inr ⟨env, rfl⟩)) moved⟩
  | reading call =>
    rw [at_] at placed
    cases call with
    | close => exact placed.elim
    | recv len =>
      obtain ⟨room, some_⟩ := busy ⟨len, at_⟩
      have one : (p.transit.take 1).length = 1 := length_take_of_le (length_pos_iff.mpr some_)
      have moved : ∃ q, p.step codec cfg (.receiver (.read (p.transit.take 1))) = some q := by
        rw [WsPair.step, if_pos opened, WsPair.receive]
        rw [if_pos ⟨_, take_append_drop ..⟩, WsEnd.step_read at_ (by omega) ⟨by omega, by rw [one]; omega⟩]
        exact ⟨_, rfl⟩
      obtain ⟨q, moved⟩ := moved
      exact ⟨.receiver (.read (p.transit.take 1)), q, ⟨trivial, room⟩, moved,
        going.call (.read (p.transit.take 1)) opened trivial room (.inr (.inl ⟨_, rfl⟩)) moved⟩

/-- Calls with large enough buffers bring the receiver to where it waits for bytes that are not there, or asks for
none. -/
theorem drive (codec : WsDeflate Unit) {n : Nat} (opened : p.opened = true) (bound : p.receiver.effort p.transit ≤ n) :
    ∃ q, Reach (WsPair.step codec cfg) (WsPair.Roomy cfg) p q ∧ q.Going cfg ∧ q.sender = p.sender ∧
      q.receiver.Waits ∧ (q.receiver.conn.room ≤ 0 ∨ q.transit = []) := by
  induction n generalizing p with
  | zero =>
    by_cases stop : p.receiver.Waits ∧ (p.receiver.conn.room ≤ 0 ∨ p.transit = [])
    · exact ⟨p, .start, going, rfl, stop⟩
    · obtain ⟨act, q, -, -, -, -, -, less⟩ := going.next codec opened fun waits => by
        have no := not_and.mp stop waits
        exact ⟨Int.not_le.mp (not_or.mp no).1, (not_or.mp no).2⟩
      omega
  | succ n ih =>
    by_cases stop : p.receiver.Waits ∧ (p.receiver.conn.room ≤ 0 ∨ p.transit = [])
    · exact ⟨p, .start, going, rfl, stop⟩
    · obtain ⟨act, q, roomy, moved, next, sender, opened, less⟩ := going.next codec opened fun waits => by
        have no := not_and.mp stop waits
        exact ⟨Int.not_le.mp (not_or.mp no).1, (not_or.mp no).2⟩
      obtain ⟨r, reach, rest, sender', stops⟩ := ih next opened (by omega)
      exact ⟨r, Reach.trans (.next .start roomy moved) reach, rest, sender'.trans sender, stops⟩

/-- The receiver can be brought to return all that was sent, unless a read asks for no bytes. -/
theorem completes (codec : WsDeflate Unit) (done : p.sender.tx = none) :
    ∃ q, Reach (WsPair.step codec cfg) (WsPair.Roomy cfg) p q ∧ q.sender = p.sender ∧
      (q.receiver.returned = q.sender.sent ∨ q.receiver.Waits ∧ q.receiver.conn.room ≤ 0) := by
  obtain ⟨opening, reach₀, going₀, same, opened⟩ : ∃ q, Reach (WsPair.step codec cfg) (WsPair.Roomy cfg) p q ∧
      q.Going cfg ∧ q.sender = p.sender ∧ q.opened = true := by
    by_cases opened : p.opened = true
    · exact ⟨p, .start, going, rfl, opened⟩
    · have moved : p.step codec cfg (.handshake 0) = some { p with
          opened := true, receiver := .start (cfg.conn (p.transit.take 0)), transit := p.transit.drop 0 } := by
        simp [WsPair.step, opened]
      have roomy : p.Roomy cfg (.handshake 0) := ⟨trivial, trivial⟩
      exact ⟨_, .next .start roomy moved, going.step roomy moved, rfl, rfl⟩
  obtain ⟨q, reach, rest, sender, waits, stop⟩ := going₀.drive codec opened (Nat.le_refl _)
  refine ⟨q, reach₀.trans reach, sender.trans same, ?_⟩
  rcases stop with none_ | empty
  · exact .inr ⟨waits, none_⟩
  · exact .inl (rest.rest (by rw [sender, same]; exact done) waits empty)

theorem read_fails {chunk : List UInt8}
    (moved : p.step codec cfg (.receiver (.read chunk)) = some q) (none_ : p.receiver.conn.room ≤ 0) :
    q.opened = true ∧ q.receiver.Failing ∧ q.receiver.returned = p.receiver.returned := by
  obtain ⟨done, todo, a, frames, receives, -⟩ := going.receives
  have placed := receives.placed
  simp only [WsPair.step] at moved
  split at moved
  · rename_i opened
    simp only [WsPair.receive] at moved
    split at moved
    · obtain ⟨τ, ran, rfl⟩ := map_eq_some_iff.mp moved
      simp only [WsEnd.step] at ran
      split at ran
      · rename_i call at_
        rw [at_] at placed
        cases call with
        | close => exact placed.elim
        | recv len =>
          rw [if_pos none_] at ran
          cases ran
          exact ⟨opened, .inl ⟨⟨len, rfl⟩, placed.1.1⟩, rfl⟩
      · cases ran
    · cases moved
  · cases moved

end WsPair.Going

end

theorem WsPair.Going.of_reach {sender : WsConfig}
    (reach : Reach (WsPair.step codec cfg) (WsPair.Roomy cfg) (.start sender cfg) p) : p.Going cfg :=
  reach.invariant (.start sender cfg) fun _ _ _ _ going roomy moved => going.step roomy moved

theorem WsPair.returned_of_failing {r : WsPair} (opened : q.opened = true) (failing : q.receiver.Failing)
    (reach : Reach (WsPair.step codec cfg) (WsPair.Calm cfg) q r) : r.receiver.returned = q.receiver.returned := by
  suffices r.opened = true ∧ r.receiver.Failing ∧ r.receiver.returned = q.receiver.returned from this.2.2
  induction reach with
  | start => exact ⟨opened, failing, rfl⟩
  | @next s t act previous calm moved ih =>
  obtain ⟨opened, failing, returned⟩ := ih
  cases act with
  | send type data | frame key =>
    obtain ⟨τ, -, rfl⟩ := map_eq_some_iff.mp moved
    exact ⟨opened, failing, returned⟩
  | control ping payload key =>
    simp only [WsPair.step] at moved
    split at moved
    · cases moved
      exact ⟨opened, failing, returned⟩
    · cases moved
  | handshake leftover =>
    simp only [WsPair.step, opened, Bool.true_or, if_true] at moved
    cases moved
  | receiver act =>
    rw [WsPair.step, if_pos opened] at moved
    have open_ : ∀ args env, act ≠ .close args env := by
      rintro args env rfl
      exact calm
    have ran : ∃ τ, s.receiver.step codec act = some τ ∧ t.receiver = τ ∧ t.opened = s.opened := by
      unfold WsPair.receive at moved
      split at moved
      · split at moved
        · obtain ⟨τ, ran, rfl⟩ := map_eq_some_iff.mp moved
          exact ⟨τ, ran, rfl, rfl⟩
        · cases moved
      · obtain ⟨τ, ran, rfl⟩ := map_eq_some_iff.mp moved
        exact ⟨τ, ran, rfl, rfl⟩
    obtain ⟨τ, ran, is, same⟩ := ran
    obtain ⟨fails, kept⟩ := failing.step open_ ran
    rw [is]
    exact ⟨same.trans opened, fails, kept.trans returned⟩

/-- While every read of the receiver asks for a positive number of bytes, `ws_recv` returns the messages given to
`ws_send`, in their order and none but them. A receiver that waits with nothing in transit has returned them all; its
steps cannot go on forever before it waits, and large enough buffers bring it there. A read that asks for no bytes
fails, and nothing is returned after it. -/
theorem ws_round_trip {sender : WsConfig}
    (reach : Reach (WsPair.step codec cfg) (WsPair.Roomy cfg) (.start sender cfg) p) :
    p.receiver.returned <+: p.sender.sent ∧ p.receiver.conn.closed = false ∧
    (p.sender.tx = none → p.receiver.Waits → p.transit = [] → p.receiver.returned = p.sender.sent) ∧
    (∀ act q, act.OfCall → p.Roomy cfg (.receiver act) → p.step codec cfg (.receiver act) = some q →
      q.receiver.effort q.transit < p.receiver.effort p.transit) ∧
    (p.sender.tx = none → ∃ q, Reach (WsPair.step codec cfg) (WsPair.Roomy cfg) p q ∧ q.sender = p.sender ∧
      (q.receiver.returned = q.sender.sent ∨ q.receiver.Waits ∧ q.receiver.conn.room ≤ 0)) ∧
    ∀ chunk q, p.step codec cfg (.receiver (.read chunk)) = some q → ¬p.RoomOk (.receiver (.read chunk)) →
      ∀ r, Reach (WsPair.step codec cfg) (WsPair.Calm cfg) q r → r.receiver.returned = p.receiver.returned := by
  have going := WsPair.Going.of_reach reach
  obtain ⟨done, todo, a, frames, receives, -⟩ := going.receives
  refine ⟨?_, receives.going.1, going.rest, ?_, going.completes codec, ?_⟩
  · exact (List.prefix_append _ _).trans (receives.msgs ▸ going.msgs frames receives)
  · intro act q kind roomy moved
    by_cases opened : p.opened = true
    · exact (going.call act opened roomy.1 roomy.2 kind moved).2.2.2
    · rw [WsPair.step, if_neg opened] at moved
      cases moved
  · intro chunk q moved none_ r later
    obtain ⟨opened, failing, returned⟩ := going.read_fails moved (Int.not_lt.mp none_)
    rw [returned_of_failing opened failing later, returned]

instance (cfg : WsConfig) (p : WsPair) (act : WsPairAct) : Decidable (p.Roomy cfg act) :=
  inferInstanceAs (Decidable (_ ∧ _))

/-- A text sent in two frames with a Ping between them, the first byte of it read with the handshake, and its first
buffer too small. -/
theorem ws_round_trip_text : ∃ p : WsPair,
    Reach (WsPair.step plainCodec ⟨false, 0, 0⟩) (WsPair.Roomy ⟨false, 0, 0⟩) (.start ⟨true, 0, 1⟩ ⟨false, 0, 0⟩) p ∧
    p.receiver.returned = [(.text, [0x68, 0x69])] ∧ p.receiver.returned <+: p.sender.sent := by
  let turn : WsPairAct := .receiver (.turn (.calm .zero .spoiled))
  let finish : WsPairAct := .receiver (.finish (.calm .zero .spoiled))
  have run : ∃ p : WsPair,
      Reach (WsPair.step plainCodec ⟨false, 0, 0⟩) (WsPair.Roomy ⟨false, 0, 0⟩) (.start ⟨true, 0, 1⟩ ⟨false, 0, 0⟩) p ∧
      p.receiver.returned = [(.text, [0x68, 0x69])] :=
    exists_reach
      [.send .text [0x68, 0x69], .frame ⟨1, 2, 3, 4⟩, .control true [] ⟨5, 6, 7, 8⟩, .frame ⟨9, 8, 7, 6⟩, .frame .zero,
        .handshake 1, .receiver (.recv 1), turn, turn,
        .receiver (.read [0x81, 1, 2, 3, 4, 0x69, 0x89, 0x80]), turn, turn, turn,
        .receiver (.read [5, 6, 7, 8, 0x80, 0x81, 9, 8, 7, 6, 0x60]), turn, turn, turn, finish,
        .receiver (.recv 2), finish]
      (by decide +kernel)
  obtain ⟨p, reach, returned⟩ := run
  exact ⟨p, reach, returned, (ws_round_trip reach).1⟩

/-- A server sends a message of 1 GiB in one frame, and an empty one. A client that takes messages of that size, and
reads as many bytes as it has room for, has grown its buffer to 2 GiB when it returns the first; the next read asks for
`(int)2147483648` bytes, the call fails and the empty message is not returned. -/
theorem ws_round_trip_overflows : let cfg : WsConfig := ⟨true, 2 ^ 30, 0⟩
    ∃ (payload : List UInt8) (p : WsPair),
      Reach (WsPair.step plainCodec cfg) (WsPair.Calm cfg) (.start ⟨false, 0, 2 ^ 30⟩ cfg) p ∧
      p.sender.sent = [(.binary, payload), (.binary, [])] ∧ p.receiver.returned = [(.binary, payload)] ∧
      p.receiver.conn.closed = true := by
  intro cfg
  obtain ⟨payload, size⟩ : ∃ payload : List UInt8, payload.length = 2 ^ 30 :=
    ⟨List.replicate (2 ^ 30) 0, List.length_replicate⟩
  let p₀ : WsPair := .start ⟨false, 0, 2 ^ 30⟩ cfg
  let sender : WsEnd Unit := { p₀.sender with
    wire := [.binary payload, .binary []], sent := [(.binary, payload), (.binary, [])] }
  let σ := WsEnd.receiving (cfg.conn []) (2 ^ 30)
  have ok : Receivable (cfg.conn []).maxMsgSize (.binary, payload) := ⟨show payload.length ≤ 2 ^ 30 by omega, by simp⟩
  have free : p₀.sender.FreeServer := ⟨rfl, rfl, ⟨rfl, rfl, rfl, rfl⟩, rfl, rfl⟩
  have first := sends_whole plainCodec free payload (by omega) (show payload.length ≤ 2 ^ 30 by omega) ok
  have second : Reach (WsPair.step plainCodec cfg) (WsPair.Calm cfg) p₀
      ⟨sender, p₀.receiver, (binary payload).bytes ++ (binary []).bytes, false⟩ :=
    first.trans (sends_whole plainCodec ⟨rfl, rfl, ⟨rfl, rfl, rfl, rfl⟩, rfl, rfl⟩ [] (by decide)
      (Nat.zero_le _) ⟨Nat.zero_le _, by simp⟩)
  have third := second.trans (opens plainCodec rfl (2 ^ 30))
  have sendable := binary_sendable (show payload.length < 2 ^ 63 by omega) (none : Option Unit)
  have long := binary_bytes_length payload
  have bound : (binary payload).bytes.length ≤ payload.length + 14 := by
    rw [WsFrame.bytes_length, Nat.add_comm]
    exact Nat.add_le_add_left (header_length_le _).2 _
  have fourth := third.trans (fills (σ := σ) rfl rfl sendable sender 18 (by decide) (by omega))
  have grows : doubling 64 (4096 * 2 ^ 18) (4096 * 2 ^ 18 + 4096) = 2 ^ 31 := by decide +kernel
  obtain ⟨n, last⟩ : ∃ n, 4096 * 2 ^ 18 + n = (binary payload).bytes.length :=
    ⟨_, Nat.add_sub_of_le (by omega)⟩
  have fifth := fourth.trans (feeds rfl rfl sendable grows (n := n) (by omega) (by omega)
    (by rw [asInt_of_lt (by decide)]; omega) sender)
  rw [last, List.take_length, List.drop_length, List.nil_append] at fifth
  obtain ⟨d, turn, held, empty, cap, closed, closing, closeReceived⟩ :=
    WsEnd.receiving_ready (c := cfg.conn []) ⟨rfl, rfl, rfl, fun _ _ is => nomatch is⟩ ok (by omega) plainCodec
      (2 ^ 30) (2 ^ 31)
  have sixth := fifth.trans (reach_turn rfl turn)
  have last : ∃ q, Reach (WsPair.step plainCodec cfg) (WsPair.Calm cfg)
      ⟨sender, { σ with conn := d, rx := .done (2 ^ 30) true }, (binary []).bytes, true⟩ q ∧
      q.sender = sender ∧ q.receiver.returned = [(.binary, payload)] ∧ q.receiver.conn.closed = true :=
    fails_next rfl rfl held ⟨show payload.length ≤ 2 ^ 30 by omega, show payload.length < 2 ^ 31 by omega⟩
      ⟨closed, closing, closeReceived⟩ empty (by rw [cap]; decide) (by rw [cap]; decide)
  obtain ⟨q, reach, same, returned, ended⟩ := last
  exact ⟨payload, q, sixth.trans reach, by rw [same], returned, ended⟩

end Xylem.Ws
