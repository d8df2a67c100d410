import Xylem.Lib.Doubling
import Xylem.Lib.Run
import Xylem.Ws.CloseFrame

namespace Xylem.Ws

open Lib

inductive WsType
  | text
  | binary
deriving DecidableEq

abbrev WsMessage := WsType × List UInt8

def wsRecvBufInit : Nat := 4096

/-- The compressor behind `ws_deflate_compress` and `ws_deflate_decompress`, with its stream state. -/
structure WsDeflate (δ : Type) where
  compress : δ → List UInt8 → Option (List UInt8 × δ)
  decompress : δ → List UInt8 → Nat → Option (List UInt8 × δ)

/-- `xylem_ws_conn_s`. The four flags are the bits of `io_state`; a buffer is the bytes of it in use, next to its
capacity; `deflate` is there if compression was negotiated, and `msg` while `msg_ready` is set. -/
structure WsConn (δ : Type) where
  isClient : Bool
  reading : Bool
  writing : Bool
  closing : Bool
  closed : Bool
  recvBuf : List UInt8
  recvCap : Nat
  fragBuf : List UInt8
  fragCap : Nat
  fragOpcode : UInt8
  fragActive : Bool
  fragCompressed : Bool
  maxMsgSize : Nat
  fragmentThreshold : Nat
  closeSent : Bool
  closeReceived : Bool
  msg : Option WsMessage
  deflate : Option δ

/-- The loop `while (new_cap < needed) new_cap *= 2`: sixty-four doublings leave the range of `size_t`. -/
def wsCapFor (cap needed : Nat) : Nat := doubling 64 cap needed

variable {δ : Type} (c : WsConn δ)

def wsEnsureRecvBuf (needed : Nat) : WsConn δ :=
  if needed ≤ c.recvCap then c else { c with recvCap := wsCapFor c.recvCap needed }

/-- `_ws_conn_create` and `_ws_handshake_create_conn`: the bytes behind the handshake are the first received. -/
def wsHandshakeCreateConn (isClient : Bool) (maxMsgSize fragmentThreshold : Nat) (deflate : Option δ)
    (leftover : List UInt8) : WsConn δ :=
  let c : WsConn δ :=
    { isClient, reading := false, writing := false, closing := false, closed := false, recvBuf := [],
      recvCap := wsRecvBufInit, fragBuf := [], fragCap := 0, fragOpcode := 0, fragActive := false,
      fragCompressed := false, maxMsgSize := if maxMsgSize = 0 then 16 * 1024 * 1024 else maxMsgSize,
      fragmentThreshold := if fragmentThreshold = 0 then 16 * 1024 else fragmentThreshold,
      closeSent := false, closeReceived := false, msg := none, deflate }
  { wsEnsureRecvBuf c leftover.length with recvBuf := leftover }

/-- `_ws_frag_append` returns -1, copies from beyond the receive buffer, or appends. -/
inductive FragAppend (δ : Type)
  | refused
  | overrun
  | ok (c : WsConn δ)

/-- `_ws_frag_append`, for `len` bytes of which `inside` says that they are all in the buffer. -/
def wsFragAppend (data : List UInt8) (len : Nat) (inside : Bool) : FragAppend δ :=
  let needed := (c.fragBuf.length + len) % 2 ^ 64
  if c.maxMsgSize != 0 && c.maxMsgSize < needed then .refused
  else if !inside then .overrun
  else
    .ok { c with
      fragCap :=
        if c.fragCap < needed then wsCapFor (if c.fragCap = 0 then 4096 else c.fragCap) needed else c.fragCap
      fragBuf := c.fragBuf ++ data }

variable (fh : WsFrameHeader)

/-- `frame_total`, a sum of `size_t`. -/
def WsFrameHeader.total : Nat := (fh.headerSize + fh.payloadLen.toNat) % 2 ^ 64

variable (buf : List UInt8)

def WsFrameHeader.inside : Bool :=
  fh.headerSize + fh.payloadLen.toNat ≤ buf.length

/-- The payload in the buffer, the mask taken off. -/
def WsFrameHeader.payload : List UInt8 :=
  let data := (buf.drop fh.headerSize).take fh.payloadLen.toNat
  if fh.masked then wsFrameApplyMask data fh.maskKey 0 else data

def WsType.ofOpcode (opcode : UInt8) : WsType := if opcode = 0x1 then .text else .binary

/-- What one round of the inner loop of `_ws_recv_impl` comes to: it waits for more bytes, returns -1, touches memory
beyond the buffer, drops the frame and goes on, returns 0 with a message, or has a frame to answer. -/
inductive WsTurn (δ : Type)
  | more
  | fail (c : WsConn δ)
  | overrun
  | next (c : WsConn δ)
  | ready (c : WsConn δ)
  | pong (payload rest : List UInt8)
  | close (payload rest : List UInt8)

variable (codec : WsDeflate δ) (c : WsConn δ)

/-- A message as it goes to the caller, decompressed where its first frame said so. -/
def wsInflate (compressed : Bool) (data : List UInt8) :
    Option (List UInt8 × Option δ) :=
  match compressed, c.deflate with
  | true, some stream => (codec.decompress stream data c.maxMsgSize).map fun (out, stream) => (out, some stream)
  | _, _ => some (data, c.deflate)

/-- The last continuation frame has come. -/
def wsRecvFinish (rest : List UInt8) : WsTurn δ :=
  match wsInflate codec c c.fragCompressed c.fragBuf with
  | none => .fail c
  | some (data, deflate) =>
    if c.fragOpcode = 0x1 && !wsUtf8Validate data then .fail { c with deflate, fragCap := 0 }
    else
      .ready { c with
        deflate, recvBuf := rest, msg := some (.ofOpcode c.fragOpcode, data), fragBuf := [], fragCap := 0,
        fragActive := false, fragCompressed := false }

def wsRecvContinuation (fh : WsFrameHeader) (rest : List UInt8) : WsTurn δ :=
  if !c.fragActive then .fail c
  else
    match wsFragAppend c (fh.payload c.recvBuf) fh.payloadLen.toNat (fh.inside c.recvBuf) with
    | .refused => .fail c
    | .overrun => .overrun
    | .ok c => if fh.fin then wsRecvFinish codec c rest else .next { c with recvBuf := rest }

def wsRecvData (fh : WsFrameHeader) (rest : List UInt8) : WsTurn δ :=
  if c.fragActive then .fail c
  else if fh.fin then
    if c.maxMsgSize != 0 && c.maxMsgSize < fh.payloadLen.toNat then .fail c
    else if !fh.inside c.recvBuf then .overrun
    else
      match wsInflate codec c fh.rsv1 (fh.payload c.recvBuf) with
      | none => .fail c
      | some (data, deflate) =>
        if fh.opcode = 0x1 && !wsUtf8Validate data then .fail { c with deflate }
        else .ready { c with deflate, recvBuf := rest, msg := some (.ofOpcode fh.opcode, data) }
  else
    let c := { c with fragActive := true, fragOpcode := fh.opcode, fragCompressed := fh.rsv1, fragBuf := [] }
    match wsFragAppend c (fh.payload c.recvBuf) fh.payloadLen.toNat (fh.inside c.recvBuf) with
    | .refused => .fail c
    | .overrun => .overrun
    | .ok c => .next { c with recvBuf := rest }

/-- One round of the inner loop of `_ws_recv_impl` over a buffer that is not empty. -/
def wsRecvFrame : WsTurn δ :=
  match wsFrameDecodeHeader c.recvBuf with
  | .more => .more
  | .bad => .fail c
  | .ok fh =>
    if fh.rsv1 && c.deflate.isNone then .fail c
    else if c.recvBuf.length < fh.total then .more
    else if fh.masked && !fh.inside c.recvBuf then .overrun
    else
      let rest := c.recvBuf.drop fh.total
      if fh.opcode = 0x8 then .close (fh.payload c.recvBuf) rest
      else if fh.opcode = 0x9 then .pong (fh.payload c.recvBuf) rest
      else if fh.opcode = 0xA then .next { c with recvBuf := rest }
      else if fh.opcode = 0x0 then wsRecvContinuation codec c fh rest
      else wsRecvData codec c fh rest

/-- Who runs `_ws_recv_impl`: `ws_recv` with the length of its buffer, or the handshake of `ws_close`. -/
inductive RxCall
  | recv (len : Nat)
  | close

/-- Where the receiving coroutine is: at the head of the outer or of the inner loop, in the read of the transport,
or at the end of `ws_recv` with the result of `_ws_recv_impl`. -/
inductive RxPc
  | idle
  | top (call : RxCall)
  | inner (call : RxCall)
  | reading (call : RxCall)
  | done (len : Nat) (ok : Bool)

inductive TxCall
  | send
  | ping
deriving DecidableEq

/-- A frame as the sending loop cuts it, before the key is drawn. -/
structure WsChunk where
  fin : Bool
  opcode : UInt8
  data : List UInt8
  rsv1 : Bool
deriving DecidableEq

/-- One end of a connection with the coroutines in it. `wire` holds the frames handed to the transport, `sent` the
messages that `ws_send` took on, `returned` those that `ws_recv` copied out. -/
structure WsEnd (δ : Type) where
  conn : WsConn δ
  rx : RxPc
  tx : Option (TxCall × List WsChunk)
  wire : List WsFrame
  sent : List WsMessage
  returned : List WsMessage
  overrun : Bool

def WsEnd.start (conn : WsConn δ) : WsEnd δ :=
  { conn, rx := .idle, tx := none, wire := [], sent := [], returned := [], overrun := false }

/-- What the surroundings decide in a step: which deadlines have passed, whether the transport takes the frame, the
masking key drawn, and what lies on the stack. -/
structure WsEnv where
  rdExpired : Bool
  wrExpired : Bool
  taken : Bool
  key : MaskKey
  junk : WsJunk

inductive WsAct
  | recv (len : Nat)
  | turn (env : WsEnv)
  | read (chunk : List UInt8)
  | readFails
  | finish (env : WsEnv)
  | send (type : WsType) (data : List UInt8)
  | ping (data : List UInt8)
  | tx (env : WsEnv)
  | close (args : CloseArgs) (env : WsEnv)

variable (σ : WsEnd δ)

def WsEnd.abort : WsEnd δ := { σ with conn := { σ.conn with closed := true } }

variable (env : WsEnv)

/-- `_ws_write_frame`, with its success. -/
def WsEnd.writeFrame (frame : WsChunk) : WsEnd δ × Bool :=
  if σ.conn.closed || env.wrExpired then (σ.abort, false)
  else
    let key := if σ.conn.isClient then env.key else .zero
    let σ := { σ with wire := σ.wire ++ [⟨frame.fin, frame.rsv1, frame.opcode, σ.conn.isClient, key, frame.data⟩] }
    if env.taken then (σ, true) else (σ.abort, false)

variable (call : RxCall)

/-- `_ws_recv_impl` has returned. The closing handshake drops a message and goes on until the Close frame is there. -/
def WsEnd.recvReturns (ok : Bool) : WsEnd δ :=
  match call with
  | .recv len => { σ with rx := .done len ok }
  | .close =>
    let σ := { σ with conn := { σ.conn with msg := none } }
    if ok && !σ.conn.closeReceived then { σ with rx := .top .close } else { σ.abort with rx := .idle }

/-- The buffer is made ready for the next read of the transport. -/
def WsEnd.readOn : WsEnd δ :=
  { σ with conn := wsEnsureRecvBuf σ.conn (σ.conn.recvBuf.length + 4096), rx := .reading call }

variable (payload rest : List UInt8)

/-- A Ping frame is answered before it is dropped. -/
def WsEnd.answerPing : WsEnd δ :=
  match σ.writeFrame env ⟨true, 0xA, payload, false⟩ with
  | (σ, true) => { σ with conn := { σ.conn with recvBuf := rest } }
  | (σ, false) => σ.recvReturns call false

/-- A Close frame is answered once, and ends the call. -/
def WsEnd.answerClose : WsEnd δ :=
  let σ := { σ with conn := { σ.conn with closeReceived := true } }
  let σ := if σ.conn.closeSent then σ else (σ.writeFrame env ⟨true, 0x8, wsCloseEcho payload env.junk, false⟩).1
  { σ with conn := { σ.conn with closeSent := true, recvBuf := rest } }.recvReturns call false

/-- A round of the inner loop of `_ws_recv_impl`. -/
def WsEnd.inner (σ : WsEnd δ) (env : WsEnv) (call : RxCall) : WsEnd δ :=
  if σ.conn.recvBuf = [] then σ.readOn call
  else if env.rdExpired then σ.recvReturns call false
  else
    match wsRecvFrame codec σ.conn with
    | .more => σ.readOn call
    | .fail c => { σ with conn := c }.recvReturns call false
    | .overrun => { σ with overrun := true, rx := .idle }
    | .next c => { σ with conn := c }
    | .ready c => { σ with conn := c }.recvReturns call true
    | .pong payload rest => σ.answerPing env call payload rest
    | .close payload rest => σ.answerClose env call payload rest

/-- The length as the `int` that is handed to the transport. -/
def asInt (n : Nat) : Int := Int.bmod n (2 ^ 32)

/-- The room that `_ws_recv_impl` asks the transport to fill. -/
def WsConn.room : Int := asInt (c.recvCap - c.recvBuf.length)

/-- The end of `ws_recv`. -/
def WsEnd.finish (len : Nat) (ok : Bool) : WsEnd δ :=
  let out := { σ with rx := .idle, conn := { σ.conn with reading := false } }
  let failed := { out with conn := { out.conn with msg := none, closed := true } }
  match ok, σ.conn.msg with
  | true, some (type, data) =>
    if σ.conn.closed || env.rdExpired || 2 ^ 31 - 1 < data.length then failed
    else if len < data.length then out
    else { out with conn := { out.conn with msg := none }, returned := σ.returned ++ [(type, data)] }
  | _, _ => failed

/-- The loop of `_ws_send_impl` over what is left of a message, of at most `rounds` frames. -/
def wsSendLoop (threshold : Nat) (opcode : UInt8) (useDeflate : Bool) : Nat → Bool → List UInt8 → List WsChunk
  | 0, _, _ => []
  | rounds + 1, first, data =>
    if data = [] then []
    else
      ⟨data.length ≤ threshold, if first then opcode else 0x0, data.take threshold, first && useDeflate⟩ ::
        wsSendLoop threshold opcode useDeflate rounds false (data.drop threshold)

variable (threshold : Nat)

/-- The frames that `_ws_send_impl` makes of a message. -/
def wsSendChunks (opcode : UInt8) (useDeflate : Bool) (data : List UInt8) : List WsChunk :=
  if data.length ≤ threshold then [⟨true, opcode, data, useDeflate⟩]
  else wsSendLoop threshold opcode useDeflate data.length true data

def WsType.opcode : WsType → UInt8
  | .text => 0x1
  | .binary => 0x2

def WsChunk.IsData (chunk : WsChunk) : Prop := chunk.opcode = 0x0 ∨ chunk.opcode = 0x1 ∨ chunk.opcode = 0x2

instance (chunk : WsChunk) : Decidable chunk.IsData := inferInstanceAs (Decidable (_ ∨ _ ∨ _))

theorem wsSendLoop_isData {threshold rounds : Nat} {opcode : UInt8} {useDeflate first : Bool} {data : List UInt8}
    (kind : opcode = 0x1 ∨ opcode = 0x2) :
    ∀ frame ∈ wsSendLoop threshold opcode useDeflate rounds first data, frame.IsData := by
  induction rounds generalizing first data with
  | zero => simp [wsSendLoop]
  | succ rounds ih =>
    unfold wsSendLoop
    split
    · simp
    · intro frame member
      rcases List.mem_cons.mp member with rfl | later
      · cases first with
        | true => exact .inr kind
        | false => exact .inl rfl
      · exact ih frame later

theorem wsSendChunks_isData (type : WsType) (useDeflate : Bool) (data : List UInt8) :
    ∀ frame ∈ wsSendChunks threshold type.opcode useDeflate data, frame.IsData := by
  have kind : type.opcode = 0x1 ∨ type.opcode = 0x2 := by cases type <;> decide
  unfold wsSendChunks
  split
  · intro frame member
    rw [List.mem_singleton.mp member]
    exact .inr kind
  · exact wsSendLoop_isData kind

/-- `_ws_io_enter` with `WS_IO_WRITE`, and the checks that `_ws_send_impl` and `_ws_ping_impl` start with; a call that
may not write ends the connection. -/
def WsEnd.enterWrite (start : WsEnd δ → WsEnd δ) : WsEnd δ :=
  if σ.conn.writing || σ.conn.closing || σ.conn.closed then σ
  else if σ.conn.closeSent || σ.conn.closeReceived then σ.abort
  else start { σ with conn := { σ.conn with writing := true } }

def WsEnd.send (codec : WsDeflate δ) (σ : WsEnd δ) (type : WsType) (data : List UInt8) : WsEnd δ :=
  σ.enterWrite fun σ =>
    match σ.conn.deflate with
    | none =>
      { σ with
        tx := some (.send, wsSendChunks σ.conn.fragmentThreshold type.opcode false data)
        sent := σ.sent ++ [(type, data)] }
    | some stream =>
      match codec.compress stream data with
      | none => { σ with conn := { σ.conn with writing := false, closed := true } }
      | some (out, stream) =>
        { σ with
          conn := { σ.conn with deflate := some stream }
          tx := some (.send, wsSendChunks σ.conn.fragmentThreshold type.opcode true out)
          sent := σ.sent ++ [(type, data)] }

def WsEnd.ping (σ : WsEnd δ) (data : List UInt8) : WsEnd δ :=
  if 125 < data.length then σ else σ.enterWrite fun σ => { σ with tx := some (.ping, [⟨true, 0x9, data, false⟩]) }

def WsEnd.txDone : WsEnd δ := { σ with tx := none, conn := { σ.conn with writing := false } }

/-- The next frame of the call that writes, or its end. -/
def WsEnd.txStep : Option (WsEnd δ) :=
  match σ.tx with
  | none => none
  | some (call, []) => some (if call = .send && env.wrExpired then σ.abort.txDone else σ.txDone)
  | some (call, frame :: rest) =>
    match σ.writeFrame env frame with
    | (σ, true) => some { σ with tx := some (call, rest) }
    | (σ, false) => some σ.txDone

/-- The code that `ws_close` sends for the one it is given. -/
def wsCloseCode (code : UInt16) : UInt16 :=
  if code = 0 || !wsFrameCloseValidateSend code then 1000 else code

variable (args : CloseArgs)

/-- The handshake of `ws_close` up to its first `_ws_recv_impl`. -/
def WsEnd.closeHandshake (env : WsEnv) : WsEnd δ :=
  let σ := { σ with conn := { σ.conn with msg := none } }
  let (σ, ok) :=
    if σ.conn.closeSent then (σ, true)
    else
      let payload := wsClosePayload { args with code := wsCloseCode args.code } env.junk
      let (σ, ok) := σ.writeFrame env ⟨true, 0x8, payload, false⟩
      ({ σ with conn := { σ.conn with closeSent := true } }, ok)
  if ok && !σ.conn.closeReceived then { σ with rx := .top .close } else σ.abort

def WsEnd.close (env : WsEnv) : WsEnd δ :=
  let out := { σ with conn := { σ.conn with closing := true } }
  if σ.conn.closing || σ.conn.closed then out
  else if σ.conn.reading || σ.conn.writing then out.abort
  else out.closeHandshake args env

def WsEnd.recv (σ : WsEnd δ) (len : Nat) : WsEnd δ :=
  if σ.conn.reading || σ.conn.closing || σ.conn.closed then σ
  else
    let σ := { σ with conn := { σ.conn with reading := true } }
    if σ.conn.msg.isSome then { σ with rx := .done len true }
    else if σ.conn.closeReceived then { σ with rx := .done len false }
    else { σ with rx := .top (.recv len) }

def WsEnd.step (σ : WsEnd δ) : WsAct → Option (WsEnd δ)
  | .recv len => some (σ.recv len)
  | .turn env =>
    match σ.rx with
    | .top call =>
      some (if σ.conn.closed || env.rdExpired then σ.recvReturns call false else { σ with rx := .inner call })
    | .inner call => some (σ.inner codec env call)
    | _ => none
  | .read chunk =>
    match σ.rx with
    | .reading call =>
      if σ.conn.room ≤ 0 then some (σ.recvReturns call false)
      else if 0 < chunk.length ∧ (chunk.length : Int) ≤ σ.conn.room then
        some { σ with conn := { σ.conn with recvBuf := σ.conn.recvBuf ++ chunk }, rx := .top call }
      else none
    | _ => none
  | .readFails =>
    match σ.rx with
    | .reading call => some (σ.recvReturns call false)
    | _ => none
  | .finish env =>
    match σ.rx with
    | .done len ok => some (σ.finish env len ok)
    | _ => none
  | .send type data => if data.length < 2 ^ 31 then some (σ.send codec type data) else none
  | .ping data => some (σ.ping data)
  | .tx env => σ.txStep env
  | .close args env => some (σ.close args env)

end Xylem.Ws
