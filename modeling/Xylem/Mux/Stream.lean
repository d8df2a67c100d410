import Xylem.Mux.Frame

namespace Xylem.Mux

inductive StreamState
  | init
  | synSent
  | established
  | localClose
  | remoteClose
  | closed
deriving DecidableEq

/-- `struct xylem_mux_stream_s`. The buffer is its valid part, so `recv_len` is its
length. One coroutine at a time may read and one may write, so a waiter field only
says whether that coroutine is registered. -/
structure Stream where
  id : UInt32
  state : StreamState
  recvBuf : List UInt8
  recvCap : Nat
  recvWindow : UInt32
  recvWaiter : Bool
  sendWindow : UInt32
  sendWaiter : Bool
  closed : Bool
  refcnt : Int

def muxMaxFramePayload : Nat := 65535

/-- The largest value of a C `int`; the lengths passed to read and write are `int`s. -/
def intMax : Nat := 2147483647

/-- Conversion of an unsigned quantity to a 32-bit `int`, wrapping. -/
def toCInt (n : Nat) : Int := Int.bmod n 4294967296

theorem toCInt_of_lt {n : Nat} (small : n < 2 ^ 31) : toCInt n = n := by
  unfold toCInt
  rw [Int.bmod_eq_of_le] <;> omega

def muxStreamCreate (id window : UInt32) : Stream where
  id := id
  state := .init
  recvBuf := []
  recvCap := window.toNat
  recvWindow := window
  recvWaiter := false
  sendWindow := window
  sendWaiter := false
  closed := false
  refcnt := 1

variable (s : Stream)

def muxStreamRef : Stream := { s with refcnt := s.refcnt + 1 }

def muxStreamUnref : Stream := { s with refcnt := s.refcnt - 1 }

/-- The doubling loop of `mux_stream_push_data`; `fuel` bounds its iterations. -/
def growCap (need : Nat) : Nat → Nat → Nat
  | 0, cap => cap
  | fuel + 1, cap => if cap < need then growCap need fuel (cap * 2) else cap

/-- `mux_stream_push_data`, with the receive waiter it detaches. -/
def muxStreamPushData (data : List UInt8) : Stream × Bool :=
  if data = [] then (s, false)
  else
    let need := s.recvBuf.length + data.length
    ({ s with
        recvCap := if s.recvCap < need then growCap need need (s.recvCap * 2) else s.recvCap
        recvBuf := s.recvBuf ++ data
        recvWindow := s.recvWindow - UInt32.ofNat data.length
        recvWaiter := false }, s.recvWaiter)

def muxStreamUpdateSendWindow (delta : UInt32) : Stream × Bool :=
  ({ s with sendWindow := s.sendWindow + delta, sendWaiter := false }, s.sendWaiter)

def muxStreamNotifyRemoteFin : Stream × Bool :=
  ({ s with
      state := match s.state with
        | .established => .remoteClose
        | .localClose => .closed
        | other => other
      recvWaiter := false }, s.recvWaiter)

def muxStreamNotifyReset : Stream × Bool × Bool :=
  ({ s with state := .closed, closed := true, recvWaiter := false, sendWaiter := false }, s.recvWaiter, s.sendWaiter)

variable (window : UInt32)

/-- The locked part of `xylem_mux_read` when data is buffered: the bytes copied out, the
window increment to announce, and the stream. A negative `n` makes the `memcpy` undefined. -/
def muxReadTake (len : Int) (s : Stream) : Option (List UInt8 × Option UInt32 × Stream) :=
  let n := if toCInt s.recvBuf.length < len then toCInt s.recvBuf.length else len
  if n < 0 then none
  else
    let rest := s.recvBuf.drop n.toNat
    let consumed := window - s.recvWindow - UInt32.ofNat rest.length
    if window / 2 ≤ consumed then
      some (s.recvBuf.take n.toNat, some consumed, { s with recvBuf := rest, recvWindow := s.recvWindow + consumed })
    else some (s.recvBuf.take n.toNat, none, { s with recvBuf := rest })

/-- `_mux_recv_wait_commit_cb`: whether the reader stays parked; `none` is its `abort()`. -/
def muxRecvWaitCommit : Option (Bool × Stream) :=
  if s.recvBuf ≠ [] ∨ s.state = .remoteClose ∨ s.state = .closed ∨ s.closed then some (false, s)
  else if s.recvWaiter then none
  else some (true, { s with recvWaiter := true })

/-- `_mux_send_wait_commit_cb`. -/
def muxSendWaitCommit : Option (Bool × Stream) :=
  if 0 < s.sendWindow ∨ s.state = .closed ∨ s.closed then some (false, s)
  else if s.sendWaiter then none
  else some (true, { s with sendWaiter := true })

/-- The size of the next DATA frame of `xylem_mux_write`. -/
def muxWriteChunk (rem : Nat) : Nat :=
  min (min window.toNat muxMaxFramePayload) rem

/-- The locked part of `xylem_mux_close_stream`, with both waiters it detaches. -/
def muxCloseState : Stream × Bool × Bool :=
  ({ s with
      state := if s.state = .established then .localClose else .closed
      recvWaiter := false
      sendWaiter := false }, s.recvWaiter, s.sendWaiter)

/-- Header of the SYN that opens a stream: a window update that advertises the whole window. -/
def synHdr (id window : UInt32) : FrameHdr :=
  ⟨muxProtoVersion, muxTypeWindowUpdate, muxFlagSyn, id, window⟩

def windowUpdateHdr (id delta : UInt32) : FrameHdr :=
  ⟨muxProtoVersion, muxTypeWindowUpdate, 0, id, delta⟩

def dataHdr (id length : UInt32) : FrameHdr := ⟨muxProtoVersion, muxTypeData, 0, id, length⟩

def finHdr (id : UInt32) : FrameHdr := ⟨muxProtoVersion, muxTypeData, muxFlagFin, id, 0⟩

def pongHdr (length : UInt32) : FrameHdr := ⟨muxProtoVersion, muxTypePing, muxFlagAck, 0, length⟩

def goAwayHdr : FrameHdr := ⟨muxProtoVersion, muxTypeGoAway, 0, 0, 0⟩

end Xylem.Mux
