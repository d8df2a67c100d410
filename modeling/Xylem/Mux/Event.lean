import Mathlib.Algebra.Order.BigOperators.Group.List
import Mathlib.Algebra.Order.Ring.Nat
import Mathlib.Data.List.Flatten
import Xylem.Mux.Frame

namespace Xylem.Mux

/-- What one frame does to the stream it belongs to. The increment a SYN carries is
kept apart from the increments of later window updates. -/
inductive Event
  | data (bytes : List UInt8)
  | syn (delta : UInt32)
  | credit (delta : UInt32)
  | fin
  | rst
deriving DecidableEq

def FrameHdr.creditEvent (hdr : FrameHdr) : Event :=
  if hdr.has muxFlagSyn then .syn hdr.length else .credit hdr.length

/-- The events at the end of a DATA frame, after its payload. -/
def FrameHdr.endEvents (hdr : FrameHdr) : List Event :=
  (if hdr.has muxFlagFin then [Event.fin] else []) ++ (if hdr.has muxFlagRst then [Event.rst] else [])

/-- The events of a frame in the order the handlers apply them. -/
def Frame.events (frame : Frame) : List Event :=
  if frame.hdr.type = muxTypeData then
    (if frame.data = [] then [] else [.data frame.data]) ++ frame.hdr.endEvents
  else if frame.hdr.type = muxTypeWindowUpdate then [frame.hdr.creditEvent]
  else []

def eventsOf (frames : List Frame) : List Event := frames.flatMap Frame.events

@[simp] theorem eventsOf_nil : eventsOf [] = [] := rfl

@[simp] theorem eventsOf_append (xs ys : List Frame) : eventsOf (xs ++ ys) = eventsOf xs ++ eventsOf ys := by
  simp [eventsOf]

@[simp] theorem eventsOf_cons (x : Frame) (xs : List Frame) : eventsOf (x :: xs) = x.events ++ eventsOf xs := by
  simp [eventsOf]

def Event.payload : Event → List UInt8
  | .data bytes => bytes
  | _ => []

def Event.increment : Event → Nat
  | .credit delta => delta.toNat
  | _ => 0

def Event.grant : Event → Nat
  | .syn delta => delta.toNat
  | _ => 0

variable (events : List Event)

def dataOf : List UInt8 := events.flatMap Event.payload

/-- The window increments in a history, without those of SYNs. -/
def creditOf : Nat := (events.map Event.increment).sum

/-- The window increments that SYNs carried. -/
def grantOf : Nat := (events.map Event.grant).sum

@[simp] theorem dataOf_nil : dataOf [] = [] := rfl
@[simp] theorem creditOf_nil : creditOf [] = 0 := rfl
@[simp] theorem grantOf_nil : grantOf [] = 0 := rfl

variable (xs ys : List Event)

@[simp] theorem dataOf_append : dataOf (xs ++ ys) = dataOf xs ++ dataOf ys := by
  simp [dataOf]

@[simp] theorem creditOf_append : creditOf (xs ++ ys) = creditOf xs + creditOf ys := by
  simp [creditOf]

@[simp] theorem grantOf_append : grantOf (xs ++ ys) = grantOf xs + grantOf ys := by
  simp [grantOf]

variable (event : Event) {xs ys : List Event}

@[simp] theorem dataOf_singleton : dataOf [event] = event.payload := by simp [dataOf]
@[simp] theorem creditOf_singleton : creditOf [event] = event.increment := by simp [creditOf]
@[simp] theorem grantOf_singleton : grantOf [event] = event.grant := by simp [grantOf]

theorem dataOf_length_le (sub : xs.Sublist ys) : (dataOf xs).length ≤ (dataOf ys).length :=
  (sub.flatMap Event.payload).length_le

theorem grantOf_le (sub : xs.Sublist ys) : grantOf xs ≤ grantOf ys :=
  (sub.map Event.grant).sum_le_sum fun _ _ => Nat.zero_le _

theorem creditOf_le (sub : xs.Sublist ys) : creditOf xs ≤ creditOf ys :=
  (sub.map Event.increment).sum_le_sum fun _ _ => Nat.zero_le _

end Xylem.Mux
