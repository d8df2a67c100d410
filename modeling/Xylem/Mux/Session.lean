import Xylem.Mux.Slot

namespace Xylem.Mux

inductive Role
  | client
  | server
deriving DecidableEq

/-- What `xylem_mux_create` fixes for the whole life of a session. -/
structure Config where
  role : Role
  window : UInt32

def Role.firstId : Role → UInt32
  | .client => 1
  | .server => 2

/-- The coroutine that holds `write_mu`: one that works on a stream, the reader loop, or the closer of the session. -/
inductive Holder
  | task (t : Task) (r : Nat)
  | loop
  | shut
deriving DecidableEq

/-- The waiter word of the accept channel. -/
inductive ChanWaiter
  | none
  | wait
  | parked
  | closed
deriving DecidableEq

/-- `xylem_mux_accept_stream`, that is `_channel_wait_coro` on the accept channel. -/
inductive AcceptPc
  | idle
  | take
  | check
  | cas
  | canPop
  | isClosed
  | cancel
  | commit
  | parked
  | got (r : Nat)
deriving DecidableEq

/-- The one call of `_mux_close_session` that wins the exchange on `closed`. -/
inductive ShutPc
  | idle
  | count
  | reset (i n : Nat)
  | wake (i n : Nat) (recv send : Bool)
  | goAway
  | frame (fw : FrameWrite)
  | close
  | finished
deriving DecidableEq

/-- `_mux_reader_loop` with the frame handlers it calls. -/
inductive LoopPc
  | top
  | hdr
  | dataFind (h : FrameHdr)
  | syn (h : FrameHdr)
  | chanCheck (h : FrameHdr) (r : Nat)
  | chanPush (h : FrameHdr) (r : Nat)
  | chanTake (h : FrameHdr) (r : Nat)
  | chanWake (h : FrameHdr) (r : Nat)
  | payload (h : FrameHdr) (r : Nat)
  | discard (h : FrameHdr) (rem : Int)
  | push (h : FrameHdr) (r : Nat) (bytes : List UInt8)
  | wakePush (h : FrameHdr) (r : Nat)
  | fin (h : FrameHdr) (r : Nat)
  | wakeFin (h : FrameHdr) (r : Nat)
  | rst (h : FrameHdr) (r : Nat)
  | wakeRst (r : Nat) (recv send : Bool)
  | wuFind (h : FrameHdr)
  | wuApply (h : FrameHdr) (r : Nat)
  | wakeWu (r : Nat)
  | ping (fw : FrameWrite)
  | down
  | downWait
  | chanClose
  | chanCloseWake
  | finish
  | exited
deriving DecidableEq

/-- `struct xylem_mux_s` with its accept channel, its stream objects (`slots`, of which `nslots` exist;
`streams` is the table) and the coroutines that are not bound to one stream. `opened` is history: how many calls have
taken a stream id. -/
structure Session where
  nextStreamId : UInt32
  streams : List Nat
  streamCap : Nat
  writeMu : Option Holder
  closed : Bool
  readerDone : Bool
  queue : List Nat
  count : Nat
  chan : ChanWaiter
  slots : Nat → Slot
  nslots : Nat
  loop : LoopPc
  accept : AcceptPc
  acceptParks : Nat
  acceptReadies : Nat
  shut : ShutPc
  transportClosed : Bool
  destroying : Bool
  freed : Bool
  opened : Nat

variable (cfg : Config)

def Session.create : Session where
  nextStreamId := cfg.role.firstId
  streams := []
  streamCap := 0
  writeMu := none
  closed := false
  readerDone := false
  queue := []
  count := 0
  chan := .none
  slots := fun _ => Slot.unborn
  nslots := 0
  loop := .top
  accept := .idle
  acceptParks := 0
  acceptReadies := 0
  shut := .idle
  transportClosed := false
  destroying := false
  freed := false
  opened := 0

variable (σ : Session) (h : FrameHdr) (r : Nat)

namespace Session

def setSlot (slot : Slot) : Session :=
  { σ with slots := Function.update σ.slots r slot }

def muxFindStream (id : UInt32) : Option Nat :=
  σ.streams.find? fun r => (σ.slots r).s.id == id

/-- `_mux_add_stream`; the array doubles from sixteen slots on. -/
def muxAddStream : Session :=
  { σ with
    streamCap := if σ.streams.length = σ.streamCap then
        (if σ.streamCap = 0 then 16 else σ.streamCap * 2) else σ.streamCap
    streams := σ.streams ++ [r] }

variable (holder : Holder)

def applyEffect : Effect → Session
  | .lock => { σ with writeMu := some holder }
  | .unlock => { σ with writeMu := none }
  | _ => σ

/-- Run one step of a coroutine that works on stream `r`. -/
def onSlot (moved : Option (Slot × Effect)) :
    Option (Session × Effect) :=
  moved.map fun (slot, eff) => ((σ.setSlot r slot).applyEffect holder eff, eff)

/-- First critical section of `xylem_mux_open_stream` and the stream it creates. -/
def openStart : Session :=
  if σ.closed then σ
  else
    let id := σ.nextStreamId
    { σ with
      nextStreamId := id + 2
      slots := Function.update σ.slots σ.nslots (Slot.opened id cfg.window)
      nslots := σ.nslots + 1
      opened := σ.opened + 1 }

/-- Second critical section of `xylem_mux_open_stream`, after its SYN has been written. -/
def openPublish : Option Session :=
  if (σ.slots r).op = .sent then
    if σ.closed then some (σ.setSlot r { (σ.slots r).ref.unref.unref with op := .failed })
    else some ((σ.setSlot r { (σ.slots r).ref with op := .published, handed := true }).muxAddStream r)
  else none

def readyAccept : Option Session :=
  if σ.accept = .parked then some { σ with accept := .take, acceptReadies := σ.acceptReadies + 1 } else none

def runAccept : Option Session :=
  match σ.accept with
  | .take =>
    match σ.queue with
    | r :: rest => some { σ with queue := rest, count := σ.count - 1, accept := .got r }
    | [] => some { σ with accept := .check }
  | .check =>
    if σ.chan = .closed then some { σ with accept := if σ.count = 0 then .idle else .take }
    else some { σ with accept := .cas }
  | .cas =>
    match σ.chan with
    | .none => some { σ with chan := .wait, accept := .canPop }
    | .closed => some { σ with accept := .take }
    | _ => none
  | .canPop => some { σ with accept := if σ.queue ≠ [] then .cancel else .isClosed }
  | .isClosed => some { σ with accept := if σ.chan = .closed then .cancel else .commit }
  | .cancel => some { σ with chan := if σ.chan = .wait then .none else σ.chan, accept := .take }
  | .commit =>
    if σ.chan = .wait then
      some { σ with chan := .parked, accept := .parked, acceptParks := σ.acceptParks + 1 }
    else some { σ with accept := .take }
  | .got r => some { σ.setSlot r { σ.slots r with handed := true } with accept := .idle }
  | _ => none

/-- The winner of `_mux_close_session`: reset every stream of the table, GO_AWAY under a trylock, close. -/
def runShut (ok : Bool) : Option (Session × Effect) :=
  match σ.shut with
  | .count => some ({ σ with shut := .reset 0 σ.streams.length }, .none)
  | .reset i n =>
    if i < n then
      match σ.streams[i]? with
      | some r =>
        let (slot, recv, send) := (σ.slots r).notifyReset
        some ({ σ.setSlot r slot with shut := .wake i n recv send }, .none)
      | none => none
    else some ({ σ with shut := .goAway }, .none)
  | .wake i n true send =>
    (σ.streams[i]?).bind fun r => (σ.slots r).readyRecv.map fun slot =>
      ({ σ.setSlot r slot with shut := .wake i n false send }, .none)
  | .wake i n false true =>
    (σ.streams[i]?).bind fun r => (σ.slots r).readySend.map fun slot =>
      ({ σ.setSlot r slot with shut := .wake i n false false }, .none)
  | .wake i n false false => some ({ σ with shut := .reset (i + 1) n }, .none)
  | .goAway =>
    if σ.writeMu = none then
      some ({ σ with writeMu := some .shut, shut := .frame ⟨⟨goAwayHdr, []⟩, .hdr⟩ }, .lock)
    else some ({ σ with shut := .close }, .none)
  | .frame fw =>
    match fw.pc with
    | .unlock _ => some ({ σ with writeMu := none, shut := .close }, .unlock)
    | _ => (fw.step false ok).map fun (fw, eff) => ({ σ with shut := .frame fw }.applyEffect .shut eff, eff)
  | .close => some ({ σ with transportClosed := true, shut := .finished }, .none)
  | _ => none

end Session

/-- What the transport and the allocator give the reader loop in one step. -/
inductive Input
  | go
  | bytes (bs : List UInt8)
  | junk (bs : List UInt8)
  | fail
  | result (ok : Bool)
deriving DecidableEq

def afterFin : LoopPc := if h.has muxFlagRst then .rst h r else .top

def afterPush : Option Nat → LoopPc
  | some r => if h.has muxFlagFin then .fin h r else afterFin h r
  | none => .top

variable (found : Option Nat)

/-- Tail of `_mux_handle_data` once its stream is known. `_mux_discard_payload` reads nothing when the length,
converted to `int`, is not positive. -/
def dataBody : LoopPc :=
  if 0 < h.length then
    match found with
    | some r => .payload h r
    | none => if 0 < toCInt h.length.toNat then .discard h (toCInt h.length.toNat) else .top
  else afterPush h found

/-- Where `_mux_accept_syn` returns to. -/
def afterSyn : LoopPc :=
  if h.type = muxTypeData then dataBody h found else .wuFind h

def muxDispatch : LoopPc :=
  if h.type = muxTypeData then .dataFind h
  else if h.type = muxTypeWindowUpdate then (if h.has muxFlagSyn then .syn h else .wuFind h)
  else if h.type = muxTypePing then (if h.has muxFlagAck then .top else .ping ⟨⟨pongHdr h.length, []⟩, .lock⟩)
  else if h.type = muxTypeGoAway then .down
  else .top

def discardChunk : Nat := 4096

/-- The length of the `_mux_read_full` call the loop is in. -/
def loopWant : LoopPc → Option Nat
  | .hdr => some muxFrameHdrSize
  | .payload h _ => if 0 < toCInt h.length.toNat then some (toCInt h.length.toNat).toNat else none
  | .discard _ rem => some (min rem.toNat discardChunk)
  | _ => none

namespace Session

/-- Critical section of `_mux_accept_syn`. -/
def acceptSyn : Session :=
  if σ.closed then { σ with loop := afterSyn h none }
  else
    match σ.muxFindStream h.streamId with
    | some r => { σ with loop := afterSyn h (some r) }
    | none =>
      { { σ with
          slots := Function.update σ.slots σ.nslots (Slot.accepted h.streamId cfg.window)
          nslots := σ.nslots + 1 }.muxAddStream σ.nslots with
        loop := .chanCheck h σ.nslots }

/-- Bytes that complete a `_mux_read_full`. -/
def loopBytes (bs : List UInt8) : Option Session :=
  if loopWant σ.loop = some bs.length then
    match σ.loop with
    | .hdr =>
      let h := muxFrameDecode bs
      if h.version ≠ muxProtoVersion then some { σ with loop := .down }
      else some { σ with loop := muxDispatch h }
    | .payload h r => some { σ with loop := .push h r bs }
    | .discard h rem =>
      some { σ with loop := if rem - bs.length ≤ 0 then .top else .discard h (rem - bs.length) }
    | _ => none
  else none

/-- A `_mux_read_full` that fails. In the known-stream path of `_mux_handle_data` the loop goes on. -/
def loopFail : Option Session :=
  match σ.loop with
  | .hdr => some { σ with loop := .down }
  | .payload h r => some { σ with loop := afterPush h (some r) }
  | .discard _ _ => some { σ with loop := .down }
  | _ => none

def loopGo : Option Session :=
  match σ.loop with
  | .top => some { σ with loop := if σ.closed then .down else .hdr }
  | .dataFind h =>
    some { σ with loop := if h.has muxFlagSyn then .syn h else dataBody h (σ.muxFindStream h.streamId) }
  | .syn h => some (σ.acceptSyn cfg h)
  | .chanCheck h r => if σ.chan = .closed then none else some { σ with count := σ.count + 1, loop := .chanPush h r }
  | .chanPush h r => some { σ with queue := σ.queue ++ [r], loop := .chanTake h r }
  | .chanTake h r =>
    match σ.chan with
    | .wait => some { σ with chan := .none, loop := afterSyn h (some r) }
    | .parked => some { σ with chan := .none, loop := .chanWake h r }
    | _ => some { σ with loop := afterSyn h (some r) }
  | .chanWake h r => σ.readyAccept.map fun σ => { σ with loop := afterSyn h (some r) }
  | .push h r bytes =>
    let (slot, woken) := (σ.slots r).pushData bytes
    some { σ.setSlot r slot with loop := if woken then .wakePush h r else afterPush h (some r) }
  | .wakePush h r => (σ.slots r).readyRecv.map fun slot => { σ.setSlot r slot with loop := afterPush h (some r) }
  | .fin h r =>
    let (slot, woken) := (σ.slots r).notifyRemoteFin
    some { σ.setSlot r slot with loop := if woken then .wakeFin h r else afterFin h r }
  | .wakeFin h r => (σ.slots r).readyRecv.map fun slot => { σ.setSlot r slot with loop := afterFin h r }
  | .rst _ r =>
    let (slot, recv, send) := (σ.slots r).notifyReset
    some { σ.setSlot r slot with loop := .wakeRst r recv send }
  | .wakeRst r true send => (σ.slots r).readyRecv.map fun slot => { σ.setSlot r slot with loop := .wakeRst r false send }
  | .wakeRst r false true => (σ.slots r).readySend.map fun slot => { σ.setSlot r slot with loop := .wakeRst r false false }
  | .wakeRst _ false false => some { σ with loop := .top }
  | .wuFind h =>
    some { σ with loop := match σ.muxFindStream h.streamId with
      | some r => .wuApply h r
      | none => .top }
  | .wuApply h r =>
    let (slot, woken) := (σ.slots r).updateSendWindow h
    some { σ.setSlot r slot with loop := if woken then .wakeWu r else .top }
  | .wakeWu r => (σ.slots r).readySend.map fun slot => { σ.setSlot r slot with loop := .top }
  | .down =>
    if σ.closed then some { σ with loop := .chanClose }
    else some { σ with closed := true, shut := .count, loop := .downWait }
  | .downWait => if σ.shut = .finished then some { σ with loop := .chanClose } else none
  | .chanClose =>
    match σ.chan with
    | .closed => none
    | .parked => some { σ with chan := .closed, loop := .chanCloseWake }
    | _ => some { σ with chan := .closed, loop := .finish }
  | .chanCloseWake => σ.readyAccept.map fun σ => { σ with loop := .finish }
  | .finish => some { σ with readerDone := true, loop := .exited }
  | _ => none

def loopFrame (ok : Bool) : Option (Session × Effect) :=
  match σ.loop with
  | .ping fw =>
    match fw.pc with
    | .unlock _ => some ({ σ with writeMu := none, loop := .top }, .unlock)
    | _ => (fw.step (σ.writeMu = none) ok).map fun (fw, eff) =>
        ({ σ with loop := .ping fw }.applyEffect .loop eff, eff)
  | _ => none

def runLoop : Input → Option (Session × Effect)
  | .go => (σ.loopGo cfg).map (·, .none)
  | .bytes bs => (σ.loopBytes bs).map (·, .none)
  | .junk bs =>
    match σ.loop with
    | .payload h r =>
      if toCInt h.length.toNat ≤ 0 ∧ bs.length = h.length.toNat then
        some ({ σ with loop := .push h r bs }, .none)
      else none
    | _ => none
  | .fail => σ.loopFail.map (·, .none)
  | .result ok => σ.loopFrame ok

end Session

def Slot.isIdle (slot : Slot) : Bool :=
  slot.rd == .idle && slot.wr == .idle &&
    (match slot.cl with | .idle | .done _ => true | _ => false) &&
    (match slot.op with | .accepted | .published | .failed => true | _ => false)

/-- No user call on the session is in progress, as `xylem_mux_destroy` requires. -/
def Session.isIdle (σ : Session) : Prop :=
  (∀ r < σ.nslots, (σ.slots r).isIdle) ∧ σ.accept = .idle ∧ (σ.shut = .idle ∨ σ.shut = .finished ∨ σ.loop = .downWait)

instance (σ : Session) : Decidable σ.isIdle := inferInstanceAs (Decidable (_ ∧ _))

def unrefAll (slots : Nat → Slot) : List Nat → Nat → Slot
  | [] => slots
  | r :: rest => unrefAll (Function.update slots r (slots r).unref) rest

/-- `_mux_free` drains the accept channel and then releases the table. -/
def Session.muxFree : Session :=
  { σ with
    slots := unrefAll (unrefAll σ.slots σ.queue) σ.streams
    queue := []
    count := 0
    freed := true }

inductive Act
  | openStart
  | openPublish (r : Nat)
  | acceptStart
  | readStart (r : Nat) (len : Int)
  | writeStart (r : Nat) (bytes : List UInt8)
  | closeStart (r : Nat)
  | muxClose
  | destroyStart
  | destroyFree
  | runOpen (r : Nat) (ok : Bool)
  | runRead (r : Nat) (ok : Bool)
  | runWrite (r : Nat) (ok : Bool)
  | runClose (r : Nat) (ok : Bool)
  | runAccept
  | runShut (ok : Bool)
  | runLoop (input : Input)
deriving DecidableEq

/-- Steps over a reliable transport: no read or write of it fails. -/
def Act.reliable : Act → Bool
  | .runOpen _ ok | .runRead _ ok | .runWrite _ ok | .runClose _ ok | .runShut ok | .runLoop (.result ok) => ok
  | .runLoop .fail | .runLoop (.junk _) => false
  | _ => true

/-- The calls a user makes; none is made once `xylem_mux_destroy` has been entered. -/
def Session.call : Act → Option Session
  | .openStart => some (σ.openStart cfg)
  | .acceptStart =>
    if σ.accept = .idle then some { σ with accept := if σ.closed then .idle else .take } else none
  | .readStart r len => ((σ.slots r).readStart len).map (σ.setSlot r)
  | .writeStart r bytes => ((σ.slots r).writeStart bytes).map (σ.setSlot r)
  | .closeStart r => (σ.slots r).closeStart.map (σ.setSlot r)
  | .muxClose => some (if σ.closed then σ else { σ with closed := true, shut := .count })
  | .destroyStart =>
    if σ.isIdle then
      some { (if σ.closed then σ else { σ with closed := true, shut := .count }) with destroying := true }
    else none
  | _ => none

/-- One atomic step of a session: a critical section or an atomic access of one coroutine,
with the local computation that follows it. -/
def Session.step (act : Act) : Option (Session × Effect) :=
  if σ.freed then none
  else
    match act with
    | .openPublish r => (σ.openPublish r).map (·, .none)
    | .destroyFree =>
      if σ.destroying ∧ σ.shut = .finished ∧ σ.readerDone then some (σ.muxFree, .none) else none
    | .runOpen r ok => σ.onSlot r (.task .opener r) ((σ.slots r).stepOpen (σ.writeMu = none) ok)
    | .runRead r ok => σ.onSlot r (.task .reader r) ((σ.slots r).stepRead cfg.window (σ.writeMu = none) ok)
    | .runWrite r ok => σ.onSlot r (.task .writer r) ((σ.slots r).stepWrite (σ.writeMu = none) ok)
    | .runClose r ok => σ.onSlot r (.task .closer r) ((σ.slots r).stepClose (σ.writeMu = none) ok)
    | .runAccept => σ.runAccept.map (·, .none)
    | .runShut ok => σ.runShut ok
    | .runLoop input => σ.runLoop cfg input
    | act => if σ.destroying then none else (σ.call cfg act).map (·, .none)

end Xylem.Mux
