import Xylem.Ws.Conn

namespace Xylem.Ws

open Lib List WsFrame

variable {δ : Type} {codec : WsDeflate δ} {frame : WsFrame} {c : WsConn δ} {deflate : Option δ}

def WsTurn.isData : WsTurn δ → Bool
  | .fail _ => true
  | .overrun => true
  | .next _ => true
  | .ready _ => true
  | _ => false

theorem wsRecvContinuation_isData (c : WsConn δ) (fh : WsFrameHeader) (rest : List UInt8) :
    (wsRecvContinuation codec c fh rest).isData = true := by
  unfold wsRecvContinuation wsRecvFinish
  split
  · rfl
  split
  · rfl
  · rfl
  split
  · split
    · rfl
    split <;> rfl
  · rfl

theorem wsRecvData_isData (c : WsConn δ) (fh : WsFrameHeader) (rest : List UInt8) :
    (wsRecvData codec c fh rest).isData = true := by
  unfold wsRecvData
  split
  · rfl
  split
  · split
    · rfl
    split
    · rfl
    split
    · rfl
    split <;> rfl
  · dsimp only
    split <;> rfl

/-- A frame short enough for its total to be a `size_t`, and uncompressed unless compression was negotiated. -/
structure WsFrame.Sendable (frame : WsFrame) (deflate : Option δ) : Prop where
  wellformed : frame.Wellformed
  total : frame.bytes.length < 2 ^ 64
  plain : (frame.rsv1 && deflate.isNone) = false

theorem WsFrame.Sendable.payloadLen (ok : frame.Sendable deflate) :
    frame.decoded.payloadLen.toNat = frame.payload.length := by
  simpa [decoded] using Nat.mod_eq_of_lt ok.wellformed.fits

theorem WsFrame.Sendable.total_eq (ok : frame.Sendable deflate) : frame.decoded.total = frame.bytes.length := by
  have total := ok.total
  rw [bytes_length] at total
  rw [WsFrameHeader.total, ok.payloadLen, bytes_length]
  exact Nat.mod_eq_of_lt total

theorem WsFrame.bytes_drop (frame : WsFrame) : frame.bytes.drop frame.header.length =
      if frame.masked then wsFrameApplyMask frame.payload frame.key 0 else frame.payload := by
  unfold bytes
  rw [drop_left]

theorem wsRecvFrame_waits (ok : frame.Sendable c.deflate) {k : Nat} (part : k < frame.bytes.length)
    (buf : c.recvBuf = frame.bytes.take k) : wsRecvFrame codec c = .more := by
  unfold wsRecvFrame
  by_cases header : k < frame.header.length
  · have head : c.recvBuf = frame.header.take k := by
      rw [buf, bytes, take_append_of_le_length header.le]
    rw [head, wsFrameDecodeHeader_short ok.wellformed header]
  · have head : c.recvBuf = frame.header ++ (frame.bytes.drop frame.header.length).take (k - frame.header.length) := by
      rw [buf, bytes_drop, bytes, take_append, take_of_length_le (Nat.not_lt.mp header)]
    have short : c.recvBuf.length < frame.decoded.total := by
      rw [buf, ok.total_eq, length_take]
      omega
    have decoded : wsFrameDecodeHeader c.recvBuf = .ok frame.decoded := by
      rw [head, wsFrameDecodeHeader_header ok.wellformed]
    rw [decoded]
    dsimp only
    rw [if_neg (by rw [WsFrame.decoded, ok.plain]; decide), if_pos short]

/-- What the receiver sees of a frame that is all there. -/
structure WsFrame.Seen (frame : WsFrame) (c : WsConn δ) : Prop where
  decoded : wsFrameDecodeHeader c.recvBuf = .ok frame.decoded
  inside : frame.decoded.inside c.recvBuf = true
  payload : frame.decoded.payload c.recvBuf = frame.payload
  size : frame.decoded.payloadLen.toNat = frame.payload.length

section

variable (ok : frame.Sendable c.deflate) {rest : List UInt8} (buf : c.recvBuf = frame.bytes ++ rest)
include ok buf

theorem WsFrame.Sendable.seen : frame.Seen c := by
  have size := ok.payloadLen
  have headerSize : frame.decoded.headerSize = frame.header.length := rfl
  refine ⟨?_, ?_, ?_, size⟩
  · rw [buf, bytes, append_assoc, wsFrameDecodeHeader_header ok.wellformed]
  · rw [WsFrameHeader.inside, size, headerSize, buf, length_append, bytes_length, decide_eq_true_eq]
    exact Nat.le_add_right _ _
  · unfold WsFrameHeader.payload
    rw [size, headerSize, buf, drop_append_of_le_length (by rw [bytes_length]; exact Nat.le_add_right _ _),
      bytes_drop]
    dsimp only [decoded]
    by_cases masked : frame.masked = true
    · simp only [masked, if_true]
      rw [take_append_of_le_length (wsFrameApplyMask_length _ _ _).ge,
        take_of_length_le (wsFrameApplyMask_length _ _ _).le, wsFrameApplyMask_twice]
    · simp [masked]

/-- A frame that is all there is taken by its opcode, and what follows it stays. -/
theorem wsRecvFrame_whole : wsRecvFrame codec c =
      if frame.opcode = 0x8 then .close frame.payload rest
      else if frame.opcode = 0x9 then .pong frame.payload rest
      else if frame.opcode = 0xA then .next { c with recvBuf := rest }
      else if frame.opcode = 0x0 then wsRecvContinuation codec c frame.decoded rest
      else wsRecvData codec c frame.decoded rest := by
  have seen := ok.seen buf
  have enough : ¬c.recvBuf.length < frame.decoded.total := by
    rw [ok.total_eq, buf, length_append]
    omega
  have after : c.recvBuf.drop frame.decoded.total = rest := by
    rw [ok.total_eq, buf, drop_left]
  unfold wsRecvFrame
  rw [seen.decoded]
  dsimp only
  rw [if_neg (by rw [decoded, ok.plain]; decide), if_neg enough,
    if_neg (by rw [seen.inside]; simp), after, seen.payload]
  rfl

end

end Xylem.Ws
