import Xylem.Ws.Receiving

namespace Xylem.Ws

open Lib List Assembly WsFrame WsPair
open WsEnd

variable {codec : WsDeflate Unit} {cfg : WsConfig} {p : WsPair} {payload : List UInt8} {data rest : List UInt8}
  {σ τ : WsEnd Unit} {frame : WsFrame} {len n : Nat}

theorem WsEnd.step_send {δ : Type} {codec : WsDeflate δ} {σ : WsEnd δ} {type : WsType} (short : data.length < 2 ^ 31) :
    σ.step codec (.send type data) = some (σ.send codec type data) := if_pos short

/-- A server that may send and is not sending. -/
structure WsEnd.FreeServer (σ : WsEnd Unit) : Prop where
  plain : σ.conn.deflate = none
  server : σ.conn.isClient = false
  open_ : σ.conn.closing = false ∧ σ.conn.closed = false ∧ σ.conn.closeSent = false ∧ σ.conn.closeReceived = false
  free : σ.conn.writing = false
  quiet : σ.tx = none

theorem WsPair.sends_whole (codec : WsDeflate Unit) (idle : p.sender.FreeServer) (data : List UInt8)
    (short : data.length < 2 ^ 31) (whole : data.length ≤ p.sender.conn.fragmentThreshold)
    (ok : Receivable (cfg.conn []).maxMsgSize (.binary, data)) :
    Reach (WsPair.step codec cfg) (WsPair.Calm cfg) p
      { p with
        sender := { p.sender with
          wire := p.sender.wire ++ [.binary data], sent := p.sender.sent ++ [(.binary, data)] }
        transit := p.transit ++ (binary data).bytes } := by
  obtain ⟨plain, server, ⟨closing, closed, closeSent, closeReceived⟩, free, quiet⟩ := idle
  let entered : WsEnd Unit := { p.sender with
    conn := { p.sender.conn with writing := true }, tx := some (.send, [⟨true, 0x2, data, false⟩])
    sent := p.sender.sent ++ [(.binary, data)] }
  let written : WsEnd Unit := { entered with tx := some (.send, []), wire := p.sender.wire ++ [.binary data] }
  have send : p.sender.step codec (.send .binary data) = some entered := by
    rw [step_send short]
    simp [WsEnd.send, enterWrite, free, closed, closing, closeSent, closeReceived, plain,
      wsSendChunks, if_pos whole, entered, WsType.opcode]
  have write : entered.step codec (.tx (.calm .zero .spoiled)) = some written := by
    simp [WsEnd.step, WsEnd.txStep, entered, written, WsEnd.writeFrame, closed, WsEnv.calm, server, binary]
  have ends : written.step codec (.tx (.calm .zero .spoiled)) =
      some { p.sender with wire := p.sender.wire ++ [.binary data], sent := p.sender.sent ++ [(.binary, data)] } := by
    have conn : { p.sender.conn with writing := false } = p.sender.conn := by rw [← free]
    simp [WsEnd.step, WsEnd.txStep, entered, written, txDone, WsEnv.calm, conn, quiet]
  have first : p.step codec cfg (.send .binary data) = some (p.put entered) := by
    rw [step, send]
    rfl
  have second : (p.put entered).step codec cfg (.frame .zero) = some ((p.put entered).put written) := by
    rw [step, put, write]
    rfl
  have third : ((p.put entered).put written).step codec cfg (.frame .zero) = some { p with
      sender := { p.sender with wire := p.sender.wire ++ [.binary data], sent := p.sender.sent ++ [(.binary, data)] }
      transit := p.transit ++ (binary data).bytes } := by
    rw [step, put, ends]
    simp [put, entered, written]
  have reach : Reach (step codec cfg) (WsPair.Calm cfg) p (p.put entered) :=
    .next .start (show p.Calm cfg (.send .binary data) from ok) first
  exact .next (.next reach (show WsPair.Calm cfg _ (.frame .zero) from trivial) second)
    (show WsPair.Calm cfg _ (.frame .zero) from trivial) third

theorem WsPair.opens (codec : WsDeflate Unit) (closed : p.opened = false) (len : Nat) :
    Reach (WsPair.step codec cfg) (WsPair.Calm cfg) p
      { p with opened := true, receiver := (receiving (cfg.conn []) len).filled [] 4096 } := by
  have first : p.step codec cfg (.handshake 0) = some { p with
      opened := true, receiver := .start (cfg.conn []) } := by
    simp [step, closed]
  have second : step codec cfg { p with opened := true, receiver := .start (cfg.conn []) }
      (.receiver (.recv len)) = some { p with
        opened := true, receiver := { WsEnd.start (cfg.conn []) with
          conn := { cfg.conn [] with reading := true }, rx := .top (.recv len) } } := rfl
  have third : step codec cfg { p with
      opened := true, receiver := { WsEnd.start (cfg.conn []) with
        conn := { cfg.conn [] with reading := true }, rx := .top (.recv len) } }
      (.receiver (.turn (.calm .zero .spoiled))) = some { p with
        opened := true, receiver := (receiving (cfg.conn []) len).filled [] 4096 } := rfl
  have calm : ∀ p : WsPair, p.Calm cfg (.receiver (.turn (.calm .zero .spoiled))) := fun _ => WsEnv.calm_calm _ _
  exact .next (.next (.next .start (show p.Calm cfg (.handshake 0) from trivial) first)
    (show WsPair.Calm cfg _ (.receiver (.recv len)) from trivial) second) (calm _) third

theorem WsPair.reach_step {act : WsAct} (opened : p.opened = true) (calm : p.Calm cfg (.receiver act))
    (noRead : ∀ chunk, act ≠ .read chunk) (ran : p.receiver.step codec act = some τ) :
    Reach (WsPair.step codec cfg) (WsPair.Calm cfg) p { p with receiver := τ } := by
  refine .next .start calm ?_
  rw [step, if_pos opened]
  unfold receive
  split
  · exact absurd rfl (noRead _)
  · rw [ran]
    rfl

theorem WsPair.reach_turn (opened : p.opened = true)
    (ran : p.receiver.step codec (.turn (.calm .zero .spoiled)) = some τ) :
    Reach (WsPair.step codec cfg) (WsPair.Calm cfg) p { p with receiver := τ } :=
  reach_step opened (show p.Calm cfg (.receiver (.turn _)) from WsEnv.calm_calm _ _) (by simp) ran

theorem WsPair.feeds {k cap grown : Nat} (at_ : σ.rx = .inner (.recv len)) (going : σ.conn.closed = false)
    (ok : frame.Sendable σ.conn.deflate) (grows : doubling 64 cap (k + 4096) = grown) (some_ : 0 < n)
    (within : k + n ≤ frame.bytes.length) (room : (n : Int) ≤ asInt (grown - k)) (sender : WsEnd Unit) :
    Reach (WsPair.step codec cfg) (WsPair.Calm cfg)
      ⟨sender, σ.filled (frame.bytes.take k) cap, frame.bytes.drop k ++ rest, true⟩
      ⟨sender, σ.filled (frame.bytes.take (k + n)) grown, frame.bytes.drop (k + n) ++ rest, true⟩ := by
  let asked : WsEnd Unit := { σ.filled (frame.bytes.take k) grown with rx := .reading (.recv len) }
  let taken : WsEnd Unit := { σ.filled (frame.bytes.take (k + n)) grown with rx := .top (.recv len) }
  have asks : (σ.filled (frame.bytes.take k) cap).step codec (.turn (.calm .zero .spoiled)) = some asked := by
    rw [filled_asks at_ ok (by omega), grows]
  have reads : asked.step codec (.read ((frame.bytes.drop k).take n)) = some taken := filled_reads some_ within room
  have turns : taken.step codec (.turn (.calm .zero .spoiled)) =
      some (σ.filled (frame.bytes.take (k + n)) grown) := filled_turns at_ going _
  have bytes : frame.bytes.drop k ++ rest = (frame.bytes.drop k).take n ++ (frame.bytes.drop (k + n) ++ rest) := by
    rw [← append_assoc, ← drop_drop, take_append_drop]
  have dropped : (frame.bytes.drop k ++ rest).drop ((frame.bytes.drop k).take n).length =
      frame.bytes.drop (k + n) ++ rest := by
    rw [bytes, drop_left]
  have positive : ¬asked.conn.room ≤ 0 := by
    rw [show asked.conn.room = asInt (grown - k) from filled_room (by omega)]
    omega
  have read : step codec cfg ⟨sender, asked, frame.bytes.drop k ++ rest, true⟩
      (.receiver (.read ((frame.bytes.drop k).take n))) =
      some ⟨sender, taken, frame.bytes.drop (k + n) ++ rest, true⟩ := by
    rw [step, if_pos rfl, receive, if_pos (by rw [bytes]; exact prefix_append _ _), reads,
      Option.map_some, if_neg positive, dropped]
  have first : Reach (step codec cfg) (WsPair.Calm cfg)
      ⟨sender, σ.filled (frame.bytes.take k) cap, frame.bytes.drop k ++ rest, true⟩
      ⟨sender, asked, frame.bytes.drop k ++ rest, true⟩ := reach_turn rfl asks
  exact (first.next (show WsPair.Calm cfg _ (.receiver (.read _)) from trivial) read).trans
    (reach_turn rfl turns)

theorem asInt_of_lt (small : n < 2 ^ 31) : asInt n = n := by
  unfold asInt
  rw [Int.bmod_def]
  omega

/-- A buffer that is full is doubled for the next read, as often as the frame is longer. -/
theorem WsPair.fills (at_ : σ.rx = .inner (.recv len)) (going : σ.conn.closed = false)
    (ok : frame.Sendable σ.conn.deflate) (sender : WsEnd Unit) (j : Nat) (small : 4096 * 2 ^ j < 2 ^ 31)
    (long : 4096 * 2 ^ j ≤ frame.bytes.length) :
    Reach (WsPair.step codec cfg) (WsPair.Calm cfg) ⟨sender, σ.filled [] 4096, frame.bytes ++ rest, true⟩
      ⟨sender, σ.filled (frame.bytes.take (4096 * 2 ^ j)) (4096 * 2 ^ j), frame.bytes.drop (4096 * 2 ^ j) ++ rest,
        true⟩ := by
  induction j with
  | zero =>
    rw [Nat.pow_zero, Nat.mul_one] at long ⊢
    exact feeds (k := 0) (n := 4096) at_ going ok (by decide +kernel) (by decide) (by omega) (by decide) sender
  | succ j ih =>
    rw [Nat.pow_succ, ← Nat.mul_assoc] at small long ⊢
    refine (ih (by omega) (by omega)).trans ?_
    have positive : 4096 ≤ 4096 * 2 ^ j := Nat.le_mul_of_pos_right _ (Nat.two_pow_pos j)
    generalize 4096 * 2 ^ j = cap at small long positive ⊢
    have grows : doubling 64 cap (cap + 4096) = cap + cap := by
      rw [doubling, if_pos (by omega), doubling, if_neg (by omega), Nat.mul_two]
    rw [Nat.mul_two]
    exact feeds at_ going ok grows (by omega) (by omega)
      (by rw [Nat.add_sub_cancel, asInt_of_lt (by omega)]) sender

/-- After a message has left the buffer empty and of 2 GiB or more, the next call of `ws_recv` fails. -/
theorem WsPair.fails_next {msg : WsMessage} (opened : p.opened = true)
    (at_ : p.receiver.rx = .done len true) (held : p.receiver.conn.msg = some msg)
    (fits : msg.2.length ≤ len ∧ msg.2.length < 2 ^ 31)
    (going : p.receiver.conn.closed = false ∧ p.receiver.conn.closing = false ∧ p.receiver.conn.closeReceived = false)
    (empty : p.receiver.conn.recvBuf = []) (large : 4096 ≤ p.receiver.conn.recvCap)
    (none_ : asInt p.receiver.conn.recvCap ≤ 0) :
    ∃ q, Reach (WsPair.step codec cfg) (WsPair.Calm cfg) p q ∧ q.sender = p.sender ∧
      q.receiver.returned = p.receiver.returned ++ [msg] ∧ q.receiver.conn.closed = true := by
  obtain ⟨closed, closing, closeReceived⟩ := going
  let σ := p.receiver
  let env : WsEnv := .calm .zero .spoiled
  have calm : env.Calm := WsEnv.calm_calm _ _
  let returned : WsEnd Unit := { σ with
    rx := .idle, conn := { σ.conn with reading := false, msg := none }, returned := σ.returned ++ [msg] }
  let asking (rx : RxPc) : WsEnd Unit := { returned with rx, conn := { returned.conn with reading := true } }
  have finish : σ.step codec (.finish env) = some returned := by
    simp only [WsEnd.step, at_, WsEnd.finish, held, closed, WsEnv.calm, env, σ]
    rw [if_neg (by simp only [Bool.or_self, Bool.false_or, decide_eq_true_eq]; omega), if_neg (by omega)]
    simp only [returned, σ, closed]
  have recv : returned.step codec (.recv len) = some (asking (.top (.recv len))) := by
    simp [WsEnd.step, WsEnd.recv, returned, asking, closing, closed, closeReceived, σ]
  have top : (asking (.top (.recv len))).step codec (.turn env) = some (asking (.inner (.recv len))) := by
    simp [WsEnd.step, asking, returned, closed, env, WsEnv.calm, σ]
  have asks : (asking (.inner (.recv len))).step codec (.turn env) = some (asking (.reading (.recv len))) := by
    simp [WsEnd.step, WsEnd.inner, asking, returned, empty, WsEnd.readOn, wsEnsureRecvBuf, large, σ]
  have read : (asking (.reading (.recv len))).step codec (.read []) = some (asking (.done len false)) := by
    simp only [WsEnd.step, asking, returned, σ, WsConn.room, empty, length_nil, Nat.sub_zero]
    rw [if_pos none_]
    rfl
  have fails : (asking (.done len false)).step codec (.finish env) = some { returned with
      conn := { returned.conn with closed := true } } := rfl
  have readPair : step codec cfg { p with receiver := asking (.reading (.recv len)) } (.receiver (.read [])) =
      some { p with receiver := asking (.done len false) } := by
    rw [step, if_pos opened, receive, if_pos nil_prefix, read]
    simp
  have first : Reach (step codec cfg) (WsPair.Calm cfg) p { p with receiver := returned } :=
    reach_step opened (show p.Calm cfg (.receiver (.finish env)) from calm) (by simp) finish
  have second := first.trans (reach_step opened
    (show WsPair.Calm cfg { p with receiver := returned } (.receiver (.recv len)) from trivial) (by simp) recv)
  have third := (second.trans (reach_turn opened top)).trans (reach_turn opened asks)
  have fourth := third.next (show WsPair.Calm cfg _ (.receiver (.read [])) from trivial) readPair
  have fifth := fourth.trans (reach_step opened
    (show WsPair.Calm cfg { p with receiver := asking (.done len false) } (.receiver (.finish env)) from calm) (by simp)
    fails)
  exact ⟨_, fifth, rfl, rfl, rfl⟩

theorem WsEnd.receiving_ready {limit : Nat} {c : WsConn Unit} (holds : c.Holds limit none)
    (ok : Receivable limit (.binary, payload)) (short : payload.length < 2 ^ 63)
    (codec : WsDeflate Unit) (len cap : Nat) :
    ∃ d, ((receiving c len).filled (binary payload).bytes cap).step codec (.turn (.calm .zero .spoiled)) =
        some { receiving c len with conn := d, rx := .done len true } ∧
      d.msg = some (.binary, payload) ∧ d.recvBuf = [] ∧ d.recvCap = cap ∧ d.closed = c.closed ∧
      d.closing = c.closing ∧ d.closeReceived = c.closeReceived := by
  let σ := (receiving c len).filled (binary payload).bytes cap
  have took : take limit .empty (binary payload).chunk = some ⟨[(.binary, payload)], none⟩ := by
    rw [show (binary payload).chunk = ⟨true, WsType.binary.opcode, payload, false⟩ from rfl, empty,
      take_first]
    exact put_whole ok ⟨[], none⟩
  have assembles : Assembles .empty ⟨[(.binary, payload)], none⟩ σ.conn limit (.binary payload) []
      (wsRecvFrame codec σ.conn) :=
    wsRecvFrame_assembles (binary_sendable short _) ⟨holds.limitIs, holds.plain, holds.active, holds.frag⟩ took
      (append_nil _).symm
  have nonempty : σ.conn.recvBuf ≠ [] := by
    have long := binary_bytes_length payload
    exact ne_nil_of_length_pos (show 0 < (binary payload).bytes.length by omega)
  have turn : σ.step codec (.turn (.calm .zero .spoiled)) = some (σ.inner codec (.calm .zero .spoiled) (.recv len)) :=
    rfl
  unfold WsEnd.inner at turn
  rw [if_neg nonempty] at turn
  generalize wsRecvFrame codec σ.conn = result at assembles turn
  cases assembles with
  | pong ping => cases ping
  | next same => cases same
  | @ready d msg more done buf held link =>
    cases more
    exact ⟨d, turn, held, buf, link.recvCap, link.closed, link.closing, link.closeReceived⟩

end Xylem.Ws
