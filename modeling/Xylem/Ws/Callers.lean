import Xylem.Ws.Conn

namespace Xylem.Ws

/-- Who runs `_ws_recv_impl`. -/
inductive RxOp
  | recv
  | close
deriving DecidableEq

/-- What follows a call of `_ws_write_frame`: the next frame of a send or ping, the next frame received, the end of the
answer to a Close frame, or the closing handshake. -/
inductive WriteFor
  | tx (call : TxCall) (rest : List WsChunk)
  | pong (op : RxOp)
  | answer (op : RxOp)
  | goodbye
deriving DecidableEq

inductive WriteStage
  | lock
  | check
  | header
  | payload
  | unlock (ok : Bool)
deriving DecidableEq

inductive RxStage
  | start
  | top
  | inner
  | received (payload : List UInt8)
  | answers (payload : List UInt8)
  | setSent
  | ret (ok : Bool)
deriving DecidableEq

inductive CallerPc
  | out
  | txCheckSent (call : TxCall) (frames : List WsChunk)
  | txCheckReceived (call : TxCall) (frames : List WsChunk)
  | txNext (call : TxCall) (frames : List WsChunk)
  | txAbort
  | txLeave
  | write (stage : WriteStage) (frame : WsChunk) (next : WriteFor)
  | writeAbort (next : WriteFor)
  | rx (op : RxOp) (stage : RxStage)
  | rxAbort (op : RxOp)
  | rxLeave
  | goodbyeCheck (payload : List UInt8)
  | goodbyeSent (ok : Bool)
  | closeLoop
  | closeAbort
deriving DecidableEq

/-- A connection with the calls on it. The four flags are the bits of `io_state`; `lock` is the holder of `write_lock`;
`wire` the frames of which the header was handed to the transport; the last two count the calls of `transport.close`
and the closing handshakes. -/
structure WsIo (ι : Type) where
  reading : Bool
  writing : Bool
  closing : Bool
  closed : Bool
  closeSent : Bool
  closeReceived : Bool
  lock : Option ι
  pc : ι → CallerPc
  wire : List WsChunk
  closes : Nat
  handshakes : Nat

/-- What a round of the receive loop finds. -/
inductive Parsed
  | more
  | fail
  | next
  | ready
  | ping (payload : List UInt8)
  | close (payload : List UInt8)

/-- What the surroundings decide in a step: whether the deadline has passed, whether the transport or the compressor
fails, and what was received. -/
structure IoEnv where
  expired : Bool
  fails : Bool
  parsed : Parsed

inductive IoAct
  | send (type : WsType) (useDeflate : Bool) (data : List UInt8)
  | ping (data : List UInt8)
  | recv (ready : Bool)
  | close (payload : List UInt8)
  | go (env : IoEnv)

namespace WsIo

variable {ι : Type}

def init : WsIo ι :=
  { reading := false, writing := false, closing := false, closed := false, closeSent := false, closeReceived := false,
    lock := none, pc := fun _ => .out, wire := [], closes := 0, handshakes := 0 }

variable [DecidableEq ι] (s : WsIo ι) (i : ι)

def goto (pc : CallerPc) : WsIo ι := { s with pc := Function.update s.pc i pc }

/-- `_ws_abort`: the first to set the flag closes the transport. -/
def abort : WsIo ι := { s with closed := true, closes := if s.closed then s.closes else s.closes + 1 }

/-- Where a caller goes on after `_ws_write_frame`. -/
def afterWrite (next : WriteFor) (ok : Bool) : CallerPc :=
  match next with
  | .tx call rest => if ok then .txNext call rest else .txAbort
  | .pong op => .rx op (if ok then .inner else .ret false)
  | .answer op => .rx op .setSent
  | .goodbye => .goodbyeSent ok

/-- `_ws_io_enter` for a send or ping. -/
def enterTx (call : TxCall) (frames : List WsChunk) : WsIo ι :=
  if s.writing || s.closing || s.closed then s else { s with writing := true }.goto i (.txCheckSent call frames)

/-- `ws_recv` up to `_ws_recv_impl`, which it skips if a message is held. -/
def enterRx (ready : Bool) : WsIo ι :=
  if s.reading || s.closing || s.closed then s
  else { s with reading := true }.goto i (.rx .recv (if ready then .ret true else .start))

/-- `ws_close` up to the handshake. -/
def enterClose (payload : List UInt8) : WsIo ι :=
  let t := { s with closing := true }
  if s.closing || s.closed then t
  else if s.reading || s.writing then t.goto i .closeAbort
  else { t with handshakes := t.handshakes + 1 }.goto i (.goodbyeCheck payload)

/-- The stages of `_ws_write_frame`. -/
def write (s : WsIo ι) (i : ι) (env : IoEnv) (stage : WriteStage) (frame : WsChunk) (next : WriteFor) :
    Option (WsIo ι) :=
  match stage with
  | .lock => if s.lock = none then some ({ s with lock := some i }.goto i (.write .check frame next)) else none
  | .check => some (s.goto i (.write (if s.closed || env.expired then .unlock false else .header) frame next))
  | .header =>
    let s := { s with wire := s.wire ++ [frame] }
    some (s.goto i (.write (if env.fails then .unlock false else if frame.data = [] then .unlock true else .payload)
      frame next))
  | .payload => some (s.goto i (.write (.unlock !env.fails) frame next))
  | .unlock ok => some ({ s with lock := none }.goto i (if ok then afterWrite next true else .writeAbort next))

/-- The receive loop, in `ws_recv` or in the closing handshake. -/
def rx (s : WsIo ι) (i : ι) (env : IoEnv) (op : RxOp) (stage : RxStage) : WsIo ι :=
  match stage with
  | .start => s.goto i (.rx op (if s.closeReceived then .ret false else .top))
  | .top => s.goto i (.rx op (if s.closed || env.expired then .ret false else .inner))
  | .inner =>
    match env.parsed with
    | .more => s.goto i (.rx op (if env.fails then .ret false else .top))
    | .fail => s.goto i (.rx op (.ret false))
    | .next => s.goto i (.rx op .inner)
    | .ready => s.goto i (.rx op (.ret true))
    | .ping payload => s.goto i (.write .lock ⟨true, 0xA, payload, false⟩ (.pong op))
    | .close payload => s.goto i (.rx op (.received payload))
  | .received payload => { s with closeReceived := true }.goto i (.rx op (.answers payload))
  | .answers payload =>
    s.goto i (if s.closeSent then .rx op (.ret false) else .write .lock ⟨true, 0x8, payload, false⟩ (.answer op))
  | .setSent => { s with closeSent := true }.goto i (.rx op (.ret false))
  | .ret ok =>
    match op with
    | .recv => s.goto i (if !ok || s.closed || env.expired then .rxAbort .recv else .rxLeave)
    | .close => s.goto i (if ok then .closeLoop else .rxAbort .close)

def go (env : IoEnv) : Option (WsIo ι) :=
  match s.pc i with
  | .out => none
  | .txCheckSent call frames => some (s.goto i (if s.closeSent then .txAbort else .txCheckReceived call frames))
  | .txCheckReceived call frames =>
    some (s.goto i (if s.closeReceived || (call == .send && env.fails) then .txAbort else .txNext call frames))
  | .txNext call [] => some (s.goto i (if call == .send && env.expired then .txAbort else .txLeave))
  | .txNext call (frame :: rest) => some (s.goto i (.write .lock frame (.tx call rest)))
  | .txAbort => some (s.abort.goto i .txLeave)
  | .txLeave => some ({ s with writing := false }.goto i .out)
  | .write stage frame next => s.write i env stage frame next
  | .writeAbort next => some (s.abort.goto i (afterWrite next false))
  | .rx op stage => some (s.rx i env op stage)
  | .rxAbort .recv => some (s.abort.goto i .rxLeave)
  | .rxAbort .close => some (s.abort.goto i .out)
  | .rxLeave => some ({ s with reading := false }.goto i .out)
  | .goodbyeCheck payload =>
    some (s.goto i (if s.closeSent then .closeLoop else .write .lock ⟨true, 0x8, payload, false⟩ .goodbye))
  | .goodbyeSent ok => some ({ s with closeSent := true }.goto i (if ok then .closeLoop else .rxAbort .close))
  | .closeLoop => some (s.goto i (if s.closeReceived then .rxAbort .close else .rx .close .start))
  | .closeAbort => some (s.abort.goto i .out)

/-- A call begins, or takes its next step. `threshold` is `fragment_threshold`. -/
def step (threshold : Nat) (s : WsIo ι) (move : ι × IoAct) : Option (WsIo ι) :=
  match move.2 with
  | .go env => s.go move.1 env
  | .send type useDeflate data =>
    if s.pc move.1 = .out then
      some (s.enterTx move.1 .send (wsSendChunks threshold type.opcode useDeflate data))
    else none
  | .ping data =>
    if s.pc move.1 = .out ∧ data.length ≤ 125 then some (s.enterTx move.1 .ping [⟨true, 0x9, data, false⟩]) else none
  | .recv ready => if s.pc move.1 = .out then some (s.enterRx move.1 ready) else none
  | .close payload => if s.pc move.1 = .out then some (s.enterClose move.1 payload) else none

end WsIo

end Xylem.Ws
