import Xylem.Ws.Assemble
import Xylem.Ws.Capacity

namespace Xylem.Ws

open Lib

variable {δ : Type} {codec : WsDeflate δ} {frame : WsFrame} {c : WsConn δ} {limit : Nat}

/-- The fragments that a connection without compression holds of the message under way. -/
structure WsConn.Holds (c : WsConn δ) (limit : Nat) (part : Option (UInt8 × List UInt8)) : Prop where
  limitIs : c.maxMsgSize = limit
  plain : c.deflate = none
  active : c.fragActive = part.isSome
  frag : ∀ opcode data, part = some (opcode, data) → c.fragOpcode = opcode ∧ c.fragBuf = data ∧ c.fragCompressed = false

/-- Two states of a connection that differ in buffers and messages only. -/
structure WsConn.SameLink (c d : WsConn δ) : Prop where
  reading : d.reading = c.reading
  closing : d.closing = c.closing
  closed : d.closed = c.closed
  closeSent : d.closeSent = c.closeSent
  closeReceived : d.closeReceived = c.closeReceived
  recvCap : d.recvCap = c.recvCap

/-- What a round makes of a whole frame that takes the assembly `a` to `b`. -/
inductive Assembles (a b : Assembly) (c : WsConn δ) (limit : Nat) (frame : WsFrame) (rest : List UInt8) : WsTurn δ → Prop
  | pong : frame.opcode = 0x9 → b = a → Assembles a b c limit frame rest (.pong frame.payload rest)
  | next {d : WsConn δ} : b.msgs = a.msgs → d.Holds limit b.part → d.recvBuf = rest → d.msg = c.msg → c.SameLink d →
      Assembles a b c limit frame rest (.next d)
  | ready {d : WsConn δ} {msg : WsMessage} : b.msgs = a.msgs ++ [msg] → d.Holds limit b.part → d.recvBuf = rest → d.msg = some msg →
      c.SameLink d → Assembles a b c limit frame rest (.ready d)

theorem WsConn.SameLink.trans {d e : WsConn δ} (first : c.SameLink d) (second : d.SameLink e) : c.SameLink e :=
  ⟨second.reading.trans first.reading, second.closing.trans first.closing, second.closed.trans first.closed,
    second.closeSent.trans first.closeSent, second.closeReceived.trans first.closeReceived,
    second.recvCap.trans first.recvCap⟩

/-- A fragment added to those that are there. -/
structure WsConn.Appended (c : WsConn δ) (data : List UInt8) (d : WsConn δ) : Prop where
  limit : d.maxMsgSize = c.maxMsgSize
  deflate : d.deflate = c.deflate
  active : d.fragActive = c.fragActive
  opcode : d.fragOpcode = c.fragOpcode
  compressed : d.fragCompressed = c.fragCompressed
  buf : d.fragBuf = c.fragBuf ++ data
  msg : d.msg = c.msg
  link : c.SameLink d

variable {data rest : List UInt8} {a b : Assembly} {opcode : UInt8}

theorem wsFragAppend_within (short : c.fragBuf.length + data.length ≤ c.maxMsgSize) :
    ∃ d, wsFragAppend c data data.length true = .ok d ∧ c.Appended data d := by
  have needed : (c.fragBuf.length + data.length) % 2 ^ 64 ≤ c.maxMsgSize := (Nat.mod_le _ _).trans short
  unfold wsFragAppend
  dsimp only
  rw [if_neg (by simp only [Bool.and_eq_true, decide_eq_true_eq]; omega), if_neg (by simp)]
  exact ⟨_, rfl, rfl, rfl, rfl, rfl, rfl, rfl, rfl, ⟨rfl, rfl, rfl, rfl, rfl, rfl⟩⟩

theorem wsInflate_plain (codec : WsDeflate δ) (plain : c.deflate = none) (compressed : Bool) (data : List UInt8) :
    wsInflate codec c compressed data = some (data, c.deflate) := by
  unfold wsInflate
  rw [plain]
  cases compressed <;> rfl

theorem Assembly.put_cases {fin : Bool} (put : a.put limit opcode data fin = some b) :
    data.length ≤ limit ∧ (fin = false ∧ b = { a with part := some (opcode, data) } ∨
      fin = true ∧ (opcode = 0x1 && !wsUtf8Validate data) = false ∧
        b = ⟨a.msgs ++ [(WsType.ofOpcode opcode, data)], none⟩) := by
  unfold Assembly.put at put
  split at put
  · cases put
  rename_i short
  refine ⟨Nat.not_lt.mp short, ?_⟩
  split at put
  · rename_i more
    cases put
    exact .inl ⟨by simpa using more, rfl⟩
  · rename_i last
    split at put
    · cases put
    · rename_i text
      cases put
      exact .inr ⟨by simpa using last, Bool.not_eq_true _ ▸ text, rfl⟩

theorem wsRecvFinish_plain (codec : WsDeflate δ) (rest : List UInt8) (plain : c.deflate = none)
    (text : (c.fragOpcode = 0x1 && !wsUtf8Validate c.fragBuf) = false) :
    ∃ d, wsRecvFinish codec c rest = .ready d ∧ d.Holds c.maxMsgSize none ∧ d.recvBuf = rest ∧
      d.msg = some (.ofOpcode c.fragOpcode, c.fragBuf) ∧ c.SameLink d := by
  unfold wsRecvFinish
  rw [wsInflate_plain codec plain]
  dsimp only
  rw [if_neg (by rw [text]; decide)]
  exact ⟨_, rfl, ⟨rfl, plain, rfl, fun _ _ is => nomatch is⟩, rfl, rfl, ⟨rfl, rfl, rfl, rfl, rfl, rfl⟩⟩

theorem wsRecvContinuation_assembles {before rest : List UInt8} (seen : frame.Seen c) (holds : c.Holds limit a.part)
    (part : a.part = some (opcode, before)) (put : a.put limit opcode (before ++ frame.payload) frame.fin = some b) :
    Assembles a b c limit frame rest (wsRecvContinuation codec c frame.decoded rest) := by
  obtain ⟨op, buf, uncompressed⟩ := holds.frag opcode before part
  obtain ⟨short, how⟩ := Assembly.put_cases put
  have active : c.fragActive = true := by rw [holds.active, part]; rfl
  have fits : c.fragBuf.length + frame.payload.length ≤ c.maxMsgSize := by
    rw [holds.limitIs, buf]
    simpa using short
  obtain ⟨d, appended, is⟩ := wsFragAppend_within fits
  have data : d.fragBuf = before ++ frame.payload := by rw [is.buf, buf]
  unfold wsRecvContinuation
  rw [if_neg (by rw [active]; decide), seen.payload, seen.size, seen.inside, appended]
  dsimp only
  rcases how with ⟨more, rfl⟩ | ⟨last, text, rfl⟩
  · rw [if_neg (show ¬frame.decoded.fin = true from (show ¬frame.fin = true by rw [more]; decide))]
    have link := is.link
    refine .next rfl ⟨is.limit.trans holds.limitIs, is.deflate.trans holds.plain, is.active.trans active, ?_⟩ rfl
      is.msg ⟨link.1, link.2, link.3, link.4, link.5, link.6⟩
    intro opcode' data' eq
    cases eq
    exact ⟨is.opcode.trans op, data, is.compressed.trans uncompressed⟩
  · have opIs : d.fragOpcode = opcode := is.opcode.trans op
    obtain ⟨e, finished, done, rest_, msg, link⟩ := wsRecvFinish_plain codec rest
      (is.deflate.trans holds.plain) (show _ = false by rw [opIs, data]; exact text)
    rw [if_pos (show frame.decoded.fin = true from last), finished]
    rw [is.limit, holds.limitIs] at done
    exact .ready (by rw [opIs, data]) done rest_ msg (is.link.trans link)

theorem wsRecvData_assembles (seen : frame.Seen c) (uncompressed : frame.rsv1 = false) (holds : c.Holds limit a.part)
    (part : a.part = none) (put : a.put limit frame.opcode frame.payload frame.fin = some b) :
    Assembles a b c limit frame rest (wsRecvData codec c frame.decoded rest) := by
  obtain ⟨short, how⟩ := Assembly.put_cases put
  have inactive : c.fragActive = false := by rw [holds.active, part]; rfl
  have limitIs := holds.limitIs
  unfold wsRecvData
  rw [if_neg (by rw [inactive]; decide), seen.payload, seen.size, seen.inside]
  rcases how with ⟨more, rfl⟩ | ⟨last, text, rfl⟩
  · rw [if_neg (show ¬frame.decoded.fin = true from (show ¬frame.fin = true by rw [more]; decide))]
    let first : WsConn δ := { c with
      fragActive := true, fragOpcode := frame.decoded.opcode, fragCompressed := frame.decoded.rsv1, fragBuf := [] }
    have fits : first.fragBuf.length + frame.payload.length ≤ first.maxMsgSize := by
      change 0 + frame.payload.length ≤ c.maxMsgSize
      omega
    obtain ⟨d, appended, is⟩ := wsFragAppend_within fits
    have link : c.SameLink d := ⟨is.link.1, is.link.2, is.link.3, is.link.4, is.link.5, is.link.6⟩
    dsimp only
    rw [seen.payload, seen.inside, show wsFragAppend _ _ _ _ = _ from appended]
    refine .next rfl ⟨is.limit.trans limitIs, is.deflate.trans holds.plain, is.active, ?_⟩ rfl
      is.msg ⟨link.1, link.2, link.3, link.4, link.5, link.6⟩
    intro opcode' data' eq
    cases eq
    exact ⟨is.opcode, is.buf, is.compressed.trans uncompressed⟩
  · rw [if_pos (show frame.decoded.fin = true from last),
      if_neg (by simp only [Bool.and_eq_true, decide_eq_true_eq]; omega), if_neg (by simp),
      wsInflate_plain codec holds.plain]
    dsimp only
    have valid : ¬(decide (frame.opcode = 0x1) && !wsUtf8Validate frame.payload) = true := by rw [text]; decide
    rw [if_neg (show ¬(decide (frame.decoded.opcode = 0x1) && !wsUtf8Validate frame.payload) = true from valid)]
    exact .ready rfl ⟨limitIs, holds.plain, inactive, fun _ _ is => nomatch is⟩ rfl rfl
      ⟨rfl, rfl, rfl, rfl, rfl, rfl⟩

/-- A whole frame that takes the assembly on takes the connection on with it. -/
theorem wsRecvFrame_assembles (ok : frame.Sendable c.deflate) (holds : c.Holds limit a.part)
    (took : a.take limit frame.chunk = some b) (buf : c.recvBuf = frame.bytes ++ rest) :
    Assembles a b c limit frame rest (wsRecvFrame codec c) := by
  have seen := ok.seen buf
  have uncompressed : frame.rsv1 = false := by
    have plain := ok.plain
    rw [holds.plain] at plain
    simpa using plain
  rw [wsRecvFrame_whole ok buf]
  unfold Assembly.take at took
  split at took
  · cases took
    rename_i control
    rcases control with ping | pong
    · have ping : frame.opcode = 0x9 := ping
      rw [if_neg (by rw [ping]; decide), if_pos ping]
      exact .pong ping rfl
    · have pong : frame.opcode = 0xA := pong
      rw [if_neg (by rw [pong]; decide), if_neg (by rw [pong]; decide), if_pos pong]
      exact .next rfl ⟨holds.limitIs, holds.plain, holds.active, holds.frag⟩ rfl rfl ⟨rfl, rfl, rfl, rfl, rfl, rfl⟩
  rename_i noControl
  obtain ⟨noPing, noPong⟩ := not_or.mp noControl
  rw [if_neg (show ¬frame.opcode = 0x9 from noPing), if_neg (show ¬frame.opcode = 0xA from noPong)]
  split at took
  · rename_i continues
    have is : frame.opcode = 0x0 := continues
    rw [if_neg (by rw [is]; decide), if_pos is]
    split at took
    · rename_i part
      exact wsRecvContinuation_assembles seen holds part took
    · cases took
  rename_i starts
  rw [if_neg (show ¬frame.opcode = 0x0 from starts)]
  split at took
  · rename_i data
    have noClose : ¬frame.opcode = 0x8 := by
      rcases data with is | is
      · rw [show frame.opcode = 0x1 from is]; decide
      · rw [show frame.opcode = 0x2 from is]; decide
    rw [if_neg noClose]
    split at took
    · cases took
    · rename_i none
      exact wsRecvData_assembles seen uncompressed holds none took
  · cases took

end Xylem.Ws
