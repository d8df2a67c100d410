import Xylem.Mux.Event
import Xylem.Mux.Stream

namespace Xylem.Mux

/-- What one step of a coroutine does outside its stream: nothing, take or release
`write_mu`, start a `write_fn` call for a header or a payload, or return from one. -/
inductive Effect
  | none
  | lock
  | unlock
  | send (frame : Frame)
  | sendData (bytes : List UInt8)
  | ret

def Effect.frames : Effect → List Frame
  | .send frame => [frame]
  | _ => []

/-- Where a call of `_mux_write_frame` stands. -/
inductive FramePc
  | lock
  | hdr
  | hdrCall
  | data
  | dataCall
  | unlock (ok : Bool)
deriving DecidableEq

/-- The header has been handed to the transport. -/
def FramePc.sent : FramePc → Bool
  | .lock | .hdr => false
  | _ => true

/-- A call of `_mux_write_frame`; an empty payload stands for a NULL `data`. -/
structure FrameWrite where
  frame : Frame
  pc : FramePc
deriving DecidableEq

variable (window : UInt32) (free ok : Bool)

/-- One step of `_mux_write_frame` up to, and without, its unlock. `free` says whether `write_mu`
can be taken and `ok` whether the `write_fn` call that returns has succeeded. -/
def FrameWrite.step (fw : FrameWrite) : Option (FrameWrite × Effect) :=
  match fw.pc with
  | .lock => if free then some ({ fw with pc := .hdr }, .lock) else none
  | .hdr => some ({ fw with pc := .hdrCall }, .send fw.frame)
  | .hdrCall => some ({ fw with pc := if ok ∧ fw.frame.data ≠ [] then .data else .unlock ok }, .ret)
  | .data => some ({ fw with pc := .dataCall }, .sendData fw.frame.data)
  | .dataCall => some ({ fw with pc := .unlock ok }, .ret)
  | .unlock _ => none

/-- `xylem_mux_open_stream` on the stream it creates; streams the peer opened are `accepted`. -/
inductive OpenPc
  | accepted
  | frame (fw : FrameWrite)
  | sent
  | abandon
  | published
  | failed
deriving DecidableEq

/-- `xylem_mux_read`. -/
inductive ReadPc
  | idle
  | loop (len : Int)
  | check (len : Int) (seen : StreamState)
  | commit (len : Int)
  | parked (len : Int)
  | frame (n : Int) (fw : FrameWrite)
  | ret (n : Int)
deriving DecidableEq

/-- `xylem_mux_write`; `rest` are the bytes from `ptr` on. -/
inductive WritePc
  | idle
  | loop (rest : List UInt8)
  | commit (rest : List UInt8)
  | parked (rest : List UInt8)
  | frame (rest : List UInt8) (fw : FrameWrite)
  | deduct (rest : List UInt8) (chunk : Nat)
  | ret (ok : Bool)
deriving DecidableEq

/-- `xylem_mux_close_stream` after it has won the exchange on `closed`. The flag of `ret` and `done` is
the result of its best-effort FIN. -/
inductive ClosePc
  | idle
  | state
  | wake (recv send : Bool)
  | frame (fw : FrameWrite)
  | ret (sent : Bool)
  | done (sent : Bool)
deriving DecidableEq

/-- The four kinds of calls that can run on a stream at one time. -/
inductive Task
  | opener
  | reader
  | writer
  | closer
deriving DecidableEq

/-- A stream object with the coroutines that work on it. `handed` says that open or accept has returned it,
`closeCalled` that the user has called close on it. The remaining fields are history: how often it was freed,
the frames sent on it, the events applied to it, the bytes given to write and returned by read, and how often
its reader and writer were parked and made ready. -/
structure Slot where
  s : Stream
  op : OpenPc
  rd : ReadPc
  wr : WritePc
  cl : ClosePc
  handed : Bool
  closeCalled : Bool
  frees : Nat
  tx : List Frame
  rx : List Event
  written : List UInt8
  delivered : List UInt8
  rdParks : Nat
  rdReadies : Nat
  wrParks : Nat
  wrReadies : Nat

def Slot.fresh (s : Stream) (op : OpenPc) : Slot where
  s := s
  op := op
  rd := .idle
  wr := .idle
  cl := .idle
  handed := false
  closeCalled := false
  frees := 0
  tx := []
  rx := []
  written := []
  delivered := []
  rdParks := 0
  rdReadies := 0
  wrParks := 0
  wrReadies := 0

/-- A stream object that does not exist yet. -/
def Slot.unborn : Slot := Slot.fresh (muxStreamCreate 0 0) .failed

/-- The stream that open creates, before its SYN is written. -/
def Slot.opened (id window : UInt32) : Slot :=
  Slot.fresh { muxStreamCreate id window with state := .established } (.frame ⟨⟨synHdr id window, []⟩, .lock⟩)

/-- The stream that a SYN creates; the second reference is the table's. -/
def Slot.accepted (id window : UInt32) : Slot :=
  Slot.fresh (muxStreamRef { muxStreamCreate id window with state := .established }) .accepted

variable (slot : Slot)

namespace Slot

def ref : Slot := { slot with s := muxStreamRef slot.s }

/-- `mux_stream_unref` frees the stream when it drops the last reference. -/
def unref : Slot :=
  { slot with s := muxStreamUnref slot.s, frees := slot.frees + if slot.s.refcnt = 1 then 1 else 0 }

/-- `scheduler_coro_ready` on the parked reader; it aborts on a coroutine that is not parked. -/
def readyRecv : Option Slot :=
  match slot.rd with
  | .parked len => some { slot with rd := .loop len, rdReadies := slot.rdReadies + 1 }
  | _ => none

def readySend : Option Slot :=
  match slot.wr with
  | .parked rest => some { slot with wr := .loop rest, wrReadies := slot.wrReadies + 1 }
  | _ => none

variable (bytes : List UInt8)

def pushData : Slot × Bool :=
  ({ slot with s := (muxStreamPushData slot.s bytes).1, rx := slot.rx ++ [.data bytes] },
    (muxStreamPushData slot.s bytes).2)

def updateSendWindow (hdr : FrameHdr) : Slot × Bool :=
  ({ slot with s := (muxStreamUpdateSendWindow slot.s hdr.length).1, rx := slot.rx ++ [hdr.creditEvent] },
    (muxStreamUpdateSendWindow slot.s hdr.length).2)

def notifyRemoteFin : Slot × Bool :=
  ({ slot with s := (muxStreamNotifyRemoteFin slot.s).1, rx := slot.rx ++ [.fin] }, (muxStreamNotifyRemoteFin slot.s).2)

def notifyReset : Slot × Bool × Bool :=
  ({ slot with s := (muxStreamNotifyReset slot.s).1, rx := slot.rx ++ [.rst] }, (muxStreamNotifyReset slot.s).2)

/-- Entry of `xylem_mux_read` with a usable buffer. One reader at a time. -/
def readStart (len : Int) : Option Slot :=
  if slot.handed ∧ slot.rd = .idle ∧ 0 < len ∧ len ≤ intMax then
    some { slot.ref with rd := .loop len }
  else none

/-- Entry of `xylem_mux_write` with something to send. One writer at a time. -/
def writeStart : Option Slot :=
  if slot.handed ∧ slot.wr = .idle ∧ bytes ≠ [] ∧ bytes.length ≤ intMax then
    some { slot.ref with wr := .loop bytes, written := slot.written ++ bytes }
  else none

/-- Entry of `xylem_mux_close_stream`: the call that finds `closed` already set returns at once. -/
def closeStart : Option Slot :=
  if slot.handed then
    if slot.s.closed then some { slot with closeCalled := true }
    else some { slot with s := { slot.s with closed := true }, cl := .state, closeCalled := true }
  else none

def stepOpen : Option (Slot × Effect) :=
  match slot.op with
  | .frame fw =>
    match fw.pc with
    | .unlock ok => some ({ slot with op := if ok then .sent else .abandon }, .unlock)
    | _ => (fw.step free ok).map fun (fw, eff) => ({ slot with op := .frame fw, tx := slot.tx ++ eff.frames }, eff)
  | .abandon => some ({ slot.unref with op := .failed }, .none)
  | _ => none

def stepRead : Option (Slot × Effect) :=
  match slot.rd with
  | .loop len =>
    if slot.s.recvBuf ≠ [] then
      (muxReadTake window len slot.s).map fun (bytes, update, s) =>
        ({ slot with
            s := s
            delivered := slot.delivered ++ bytes
            rd := match update with
              | some consumed => .frame bytes.length ⟨⟨windowUpdateHdr s.id consumed, []⟩, .lock⟩
              | none => .ret bytes.length }, .none)
    else some ({ slot with rd := .check len slot.s.state }, .none)
  | .check len seen =>
    if seen = .remoteClose ∨ seen = .closed ∨ slot.s.closed then
      some ({ slot with rd := .ret (if seen = .closed then -1 else 0) }, .none)
    else some ({ slot with rd := .commit len }, .none)
  | .commit len =>
    (muxRecvWaitCommit slot.s).map fun (parked, s) =>
      if parked then ({ slot with s := s, rd := .parked len, rdParks := slot.rdParks + 1 }, .none)
      else ({ slot with rd := .loop len }, .none)
  | .frame n fw =>
    match fw.pc with
    | .unlock _ => some ({ slot with rd := .ret n }, .unlock)
    | _ => (fw.step free ok).map fun (fw, eff) => ({ slot with rd := .frame n fw, tx := slot.tx ++ eff.frames }, eff)
  | .ret _ => some ({ slot.unref with rd := .idle }, .none)
  | _ => none

end Slot

/-- Head of the `while (rem > 0)` loop. -/
def writeNext (rest : List UInt8) : WritePc := if rest = [] then .ret true else .loop rest

def Slot.stepWrite : Option (Slot × Effect) :=
  match slot.wr with
  | .loop rest =>
    if slot.s.closed ∨ slot.s.state = .closed then some ({ slot with wr := .ret false }, .none)
    else if slot.s.sendWindow = 0 then some ({ slot with wr := .commit rest }, .none)
    else
      let chunk := muxWriteChunk slot.s.sendWindow rest.length
      some ({ slot with
          wr := .frame rest ⟨⟨dataHdr slot.s.id (UInt32.ofNat chunk), rest.take chunk⟩, .lock⟩ }, .none)
  | .commit rest =>
    (muxSendWaitCommit slot.s).map fun (parked, s) =>
      if parked then ({ slot with s := s, wr := .parked rest, wrParks := slot.wrParks + 1 }, .none)
      else ({ slot with wr := .loop rest }, .none)
  | .frame rest fw =>
    match fw.pc with
    | .unlock ok =>
      some ({ slot with wr := if ok then .deduct rest fw.frame.data.length else .ret false }, .unlock)
    | _ => (fw.step free ok).map fun (fw, eff) => ({ slot with wr := .frame rest fw, tx := slot.tx ++ eff.frames }, eff)
  | .deduct rest chunk =>
    some ({ slot with
        s := { slot.s with sendWindow := slot.s.sendWindow - UInt32.ofNat chunk }
        wr := writeNext (rest.drop chunk) }, .none)
  | .ret _ => some ({ slot.unref with wr := .idle }, .none)
  | _ => none

/-- The close path takes `write_mu` with a trylock and skips its FIN when the lock is busy. -/
def Slot.stepClose : Option (Slot × Effect) :=
  match slot.cl with
  | .state =>
    let (s, recv, send) := muxCloseState slot.s
    some ({ slot with s := s, cl := .wake recv send }, .none)
  | .wake true send => slot.readyRecv.map fun slot => ({ slot with cl := .wake false send }, .none)
  | .wake false true => slot.readySend.map fun slot => ({ slot with cl := .wake false false }, .none)
  | .wake false false =>
    if free then some ({ slot with cl := .frame ⟨⟨finHdr slot.s.id, []⟩, .hdr⟩ }, .lock)
    else some ({ slot with cl := .ret false }, .none)
  | .frame fw =>
    match fw.pc with
    | .unlock ok => some ({ slot with cl := .ret ok }, .unlock)
    | _ => (fw.step free ok).map fun (fw, eff) => ({ slot with cl := .frame fw, tx := slot.tx ++ eff.frames }, eff)
  | .ret sent => some ({ slot.unref with cl := .done sent }, .none)
  | _ => none

end Xylem.Mux
