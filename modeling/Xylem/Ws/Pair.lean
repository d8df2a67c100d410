import Xylem.Ws.Receiver

namespace Xylem.Ws

open Lib List WsEnd

/-- The options of an end that the transfer of messages depends on. -/
structure WsConfig where
  isClient : Bool
  maxMsgSize : Nat
  fragmentThreshold : Nat

def WsConfig.conn (cfg : WsConfig) (leftover : List UInt8) : WsConn Unit :=
  wsHandshakeCreateConn cfg.isClient cfg.maxMsgSize cfg.fragmentThreshold none leftover

/-- Two ends without compression, seen in one direction: the bytes in `transit` were written by the sender and not
yet read by the receiver. -/
structure WsPair where
  sender : WsEnd Unit
  receiver : WsEnd Unit
  transit : List UInt8
  opened : Bool

/-- `send` and `frame` are `ws_send` and the frames it writes; `control` is a Ping or Pong frame between them;
`handshake` makes the receiver, with the bytes that came behind the handshake. -/
inductive WsPairAct
  | send (type : WsType) (data : List UInt8)
  | frame (key : MaskKey)
  | control (ping : Bool) (payload : List UInt8) (key : MaskKey)
  | handshake (leftover : Nat)
  | receiver (act : WsAct)

def WsPair.start (sender receiver : WsConfig) : WsPair where
  sender := .start (sender.conn [])
  receiver := .start (receiver.conn [])
  transit := []
  opened := false

def WsPair.put (p : WsPair) (sender : WsEnd Unit) : WsPair :=
  { p with sender, transit := p.transit ++ (sender.wire.drop p.sender.wire.length).flatMap (·.bytes) }

/-- A step of the receiver. A read takes its bytes from those in transit. -/
def WsPair.receive (codec : WsDeflate Unit) (p : WsPair) (act : WsAct) : Option WsPair :=
  match act with
  | .read chunk =>
    if chunk <+: p.transit then
      (p.receiver.step codec act).map fun receiver =>
        { p with
          receiver, transit := if p.receiver.conn.room ≤ 0 then p.transit else p.transit.drop chunk.length }
    else none
  | _ => (p.receiver.step codec act).map fun receiver => { p with receiver }

def WsPair.step (codec : WsDeflate Unit) (cfg : WsConfig) (p : WsPair) : WsPairAct → Option WsPair
  | .send type data => (p.sender.step codec (.send type data)).map p.put
  | .frame key => (p.sender.step codec (.tx (.calm key .spoiled))).map p.put
  | .control ping payload key =>
    if payload.length ≤ 125 then
      let frame : WsChunk := ⟨true, if ping then 0x9 else 0xA, payload, false⟩
      some (p.put (p.sender.writeFrame (.calm key .spoiled) frame).1)
    else none
  | .handshake leftover =>
    if p.opened || 16384 < leftover then none
    else
      some { p with
        opened := true, receiver := .start (cfg.conn (p.transit.take leftover)), transit := p.transit.drop leftover }
  | .receiver act => if p.opened then p.receive codec act else none

/-- No deadline passes and the transport takes what it is given. -/
def WsEnv.Calm (env : WsEnv) : Prop := env.rdExpired = false ∧ env.wrExpired = false ∧ env.taken = true

/-- The domain of the transfer: the receiver may take every message, nobody closes, and the transport works. -/
def WsPair.Calm (cfg : WsConfig) (_p : WsPair) : WsPairAct → Prop
  | .send type data => Receivable (cfg.conn []).maxMsgSize (type, data)
  | .receiver (.turn env) => env.Calm
  | .receiver (.finish env) => env.Calm
  | .receiver (.tx env) => env.Calm
  | .receiver (.close _ _) => False
  | .receiver .readFails => False
  | _ => True

/-- A read asks the transport for a positive number of bytes. -/
def WsPair.RoomOk (p : WsPair) : WsPairAct → Prop
  | .receiver (.read _) => 0 < p.receiver.conn.room
  | _ => True

instance (env : WsEnv) : Decidable env.Calm := inferInstanceAs (Decidable (_ ∧ _ ∧ _))

instance (cfg : WsConfig) (p : WsPair) (act : WsPairAct) : Decidable (p.Calm cfg act) := by
  unfold WsPair.Calm
  split <;> infer_instance

instance (p : WsPair) (act : WsPairAct) : Decidable (p.RoomOk act) := by
  unfold WsPair.RoomOk
  split <;> infer_instance

/-- The frames that the sender has still to write. -/
def WsEnd.pending {δ : Type} (σ : WsEnd δ) : List WsChunk := (σ.tx.map (·.2)).getD []

/-- A frame that `ws_send` cuts. -/
structure WsChunk.Cut (chunk : WsChunk) : Prop where
  plain : chunk.rsv1 = false
  data : chunk.opcode = 0x0 ∨ chunk.opcode = 0x1 ∨ chunk.opcode = 0x2
  short : chunk.data.length < 2 ^ 31

/-- What holds of the sender: what it has written and has still to write makes up the messages it was given. -/
structure WsEnd.Sends {δ : Type} (limit : Nat) (σ : WsEnd δ) : Prop where
  plain : σ.conn.deflate = none
  threshold : 0 < σ.conn.fragmentThreshold
  going : σ.conn.closed = false ∧ σ.conn.closing = false ∧ σ.conn.closeSent = false ∧ σ.conn.closeReceived = false
  free : σ.conn.writing = false → σ.tx = none
  cut : ∀ chunk ∈ σ.pending, chunk.Cut
  frames : ∀ frame ∈ σ.wire, frame.Sendable (none : Option Unit)
  whole : assemble limit .empty (σ.wire.map (·.chunk) ++ σ.pending) = some ⟨σ.sent, none⟩
  sizes : ∀ msg ∈ σ.sent, msg.2.length < 2 ^ 31

variable {δ : Type} {codec : WsDeflate δ} {limit : Nat}

/-- The frame that a chunk becomes when it is written. -/
def WsEnd.frameOf (σ : WsEnd δ) (key : MaskKey) (chunk : WsChunk) : WsFrame :=
  ⟨chunk.fin, chunk.rsv1, chunk.opcode, σ.conn.isClient, if σ.conn.isClient then key else .zero, chunk.data⟩

variable {σ τ : WsEnd δ} {env : WsEnv} {type : WsType} {data : List UInt8}

theorem WsEnd.writeFrame_calm (calm : env.Calm) (going : σ.conn.closed = false) (chunk : WsChunk) :
    σ.writeFrame env chunk = ({ σ with wire := σ.wire ++ [σ.frameOf env.key chunk] }, true) := by
  unfold writeFrame
  rw [going, calm.2.1, calm.2.2]
  rfl

theorem WsEnv.calm_calm (key : MaskKey) (junk : WsJunk) : (WsEnv.calm key junk).Calm := ⟨rfl, rfl, rfl⟩

theorem WsFrame.sendable {frame : WsFrame} (plain : frame.rsv1 = false)
    (known : wsFrameIsReservedOpcode frame.opcode = false) (nibble : frame.opcode < 16)
    (control : wsFrameIsControl frame.opcode = true → frame.fin = true ∧ frame.payload.length ≤ 125)
    (short : frame.payload.length < 2 ^ 63) : frame.Sendable (none : Option δ) := by
  refine ⟨⟨known, nibble, control, short.trans (by decide)⟩, ?_, by rw [plain]; rfl⟩
  have header := frame.header_length_le.2
  rw [WsFrame.bytes_length]
  omega

theorem WsChunk.Cut.sendable {chunk : WsChunk} (cut : chunk.Cut) (σ : WsEnd δ) (key : MaskKey) :
    (σ.frameOf key chunk).Sendable (none : Option Unit) := by
  have known : wsFrameIsReservedOpcode chunk.opcode = false ∧ chunk.opcode < 16 ∧
      wsFrameIsControl chunk.opcode = false := by
    rcases cut.data with is | is | is <;> rw [is] <;> decide
  have short : chunk.data.length < 2 ^ 31 := cut.short
  refine WsFrame.sendable cut.plain known.1 known.2.1 (fun control => ?_) ?_
  · rw [show (σ.frameOf key chunk).opcode = chunk.opcode from rfl, known.2.2] at control
    cases control
  · exact short.trans (by decide)

theorem wsSendLoop_cut {threshold rounds : Nat} {first : Bool} (short : data.length < 2 ^ 31) :
    ∀ chunk ∈ wsSendLoop threshold type.opcode false rounds first data, chunk.Cut := by
  induction rounds generalizing first data with
  | zero => simp [wsSendLoop]
  | succ rounds ih =>
    unfold wsSendLoop
    split
    · simp
    · intro chunk member
      rcases mem_cons.mp member with rfl | later
      · refine ⟨by simp, ?_, ?_⟩
        · cases first
          · exact .inl rfl
          · cases type
            · exact .inr (.inl rfl)
            · exact .inr (.inr rfl)
        · exact (length_take_le' _ _).trans_lt short
      · exact ih (by rw [length_drop]; omega) chunk later

theorem wsSendChunks_cut {threshold : Nat} (short : data.length < 2 ^ 31) :
    ∀ chunk ∈ wsSendChunks threshold type.opcode false data, chunk.Cut := by
  unfold wsSendChunks
  split
  · intro chunk member
    rw [mem_singleton.mp member]
    refine ⟨rfl, ?_, short⟩
    cases type
    · exact .inr (.inl rfl)
    · exact .inr (.inr rfl)
  · exact wsSendLoop_cut short

/-- `ws_send` takes a message on, or refuses it while another is under way. -/
theorem WsEnd.Sends.send (sends : σ.Sends limit) (ok : Receivable limit (type, data))
    (moved : σ.step codec (.send type data) = some τ) :
    τ.Sends limit ∧ τ.wire = σ.wire := by
  simp only [step] at moved
  split at moved
  · rename_i short
    cases moved
    obtain ⟨closed, closing, closeSent, closeReceived⟩ := sends.going
    unfold send enterWrite
    cases writing : σ.conn.writing with
    | true => exact ⟨by simpa using sends, by simp⟩
    | false =>
      have idle := sends.free writing
      have whole := sends.whole
      have none_ : σ.pending = [] := by rw [pending, idle]; rfl
      rw [none_, append_nil] at whole
      simp only [closing, closed, closeSent, closeReceived, Bool.or_self, Bool.false_eq_true, if_false, sends.plain]
      refine ⟨⟨rfl, sends.threshold, ⟨rfl, rfl, rfl, rfl⟩, fun no => ?_, wsSendChunks_cut short, sends.frames, ?_, ?_⟩,
        trivial⟩
      · cases no
      · change assemble limit .empty (σ.wire.map (·.chunk) ++
          wsSendChunks σ.conn.fragmentThreshold type.opcode false data) = some ⟨σ.sent ++ [(type, data)], none⟩
        rw [assemble_append, whole]
        exact assemble_sendChunks ok sends.threshold σ.sent
      · intro msg member
        rcases mem_append.mp member with old | new
        · exact sends.sizes msg old
        · rw [mem_singleton.mp new]
          exact short
  · cases moved

theorem WsEnd.Sends.frame (calm : env.Calm) (sends : σ.Sends limit) (moved : σ.step codec (.tx env) = some τ) :
    τ.Sends limit ∧ ∃ new, τ.wire = σ.wire ++ new ∧ ∀ frame ∈ new, frame.Sendable (none : Option Unit) := by
  simp only [step, txStep] at moved
  have whole := sends.whole
  have cut := sends.cut
  split at moved
  · cases moved
  · rename_i call at_
    cases moved
    rw [calm.2.1, Bool.and_false]
    have none_ : σ.pending = [] := by rw [WsEnd.pending, at_]; rfl
    rw [none_] at whole
    exact ⟨⟨sends.plain, sends.threshold, sends.going, fun _ => rfl, by simp [WsEnd.pending, txDone],
      sends.frames, whole, sends.sizes⟩, [], (append_nil _).symm, by simp⟩
  · rename_i call chunk rest at_
    have pending : σ.pending = chunk :: rest := by rw [WsEnd.pending, at_]; rfl
    rw [writeFrame_calm calm sends.going.1] at moved
    cases moved
    rw [pending] at whole cut
    have sendable := (cut chunk mem_cons_self).sendable σ env.key
    refine ⟨⟨sends.plain, sends.threshold, sends.going, fun no => ?_, ?_, ?_, ?_, sends.sizes⟩, [_], rfl,
      by simpa using sendable⟩
    · rw [sends.free no] at at_
      cases at_
    · exact fun chunk member => cut chunk (mem_cons_of_mem _ member)
    · intro frame member
      rcases mem_append.mp member with old | new
      · exact sends.frames frame old
      · rwa [mem_singleton.mp new]
    · change assemble limit .empty ((σ.wire ++ [σ.frameOf env.key chunk]).map (·.chunk) ++ rest) = _
      rw [map_append, append_assoc]
      exact whole

theorem WsEnd.Sends.control {payload : List UInt8} (sends : σ.Sends limit) (short : payload.length ≤ 125)
    (ping : Bool) (env : WsEnv) (calm : env.Calm) :
    let τ := (σ.writeFrame env ⟨true, if ping then 0x9 else 0xA, payload, false⟩).1
    τ.Sends limit ∧ ∃ new, τ.wire = σ.wire ++ new ∧ ∀ frame ∈ new, frame.Sendable (none : Option Unit) := by
  intro τ
  have is : τ = { σ with wire := σ.wire ++ [σ.frameOf env.key ⟨true, if ping then 0x9 else 0xA, payload, false⟩] } := by
    change (σ.writeFrame env _).1 = _
    rw [writeFrame_calm calm sends.going.1]
  have sendable : (σ.frameOf env.key ⟨true, if ping then 0x9 else 0xA, payload, false⟩).Sendable
      (none : Option Unit) := by
    refine WsFrame.sendable rfl ?_ ?_ (fun _ => ⟨rfl, short⟩) (Nat.lt_of_le_of_lt short (by decide))
    · change wsFrameIsReservedOpcode (if ping then 0x9 else 0xA) = false
      cases ping <;> decide
    · change (if ping then 0x9 else 0xA) < (16 : UInt8)
      cases ping <;> decide
  rw [is]
  refine ⟨⟨sends.plain, sends.threshold, sends.going, sends.free, sends.cut, ?_, ?_, sends.sizes⟩, [_], rfl,
    by simpa using sendable⟩
  · intro frame member
    rcases mem_append.mp member with old | new
    · exact sends.frames frame old
    · rwa [mem_singleton.mp new]
  · change assemble limit .empty ((σ.wire ++ [σ.frameOf env.key _]).map (·.chunk) ++ σ.pending) = _
    rw [map_append, append_assoc, ← sends.whole]
    exact assemble_control (by cases ping <;> simp [frameOf, WsFrame.chunk]) _ _ _

end Xylem.Ws
