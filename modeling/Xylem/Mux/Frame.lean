import Mathlib.Data.UInt
import Xylem.Lib.Mixing

namespace Xylem.Mux

open Lib

/-- Size of the wire header, `MUX_FRAME_HDR_SIZE`. -/
def muxFrameHdrSize : Nat := 12

def muxProtoVersion : UInt8 := 0

def muxTypeData : UInt8 := 0
def muxTypeWindowUpdate : UInt8 := 1
def muxTypePing : UInt8 := 2
def muxTypeGoAway : UInt8 := 3

def muxFlagSyn : UInt16 := 0x0001
def muxFlagAck : UInt16 := 0x0002
def muxFlagFin : UInt16 := 0x0004
def muxFlagRst : UInt16 := 0x0008

/-- `_mux_frame_hdr_t`. The type byte stays a byte: the reader loop accepts
every value and ignores the ones it does not know. -/
structure FrameHdr where
  version : UInt8
  type : UInt8
  flags : UInt16
  streamId : UInt32
  length : UInt32
deriving DecidableEq

variable (hdr : FrameHdr)

def FrameHdr.has (flag : UInt16) : Bool := hdr.flags &&& flag != 0

def muxFrameEncode : List UInt8 :=
  [hdr.version, hdr.type, (hdr.flags >>> 8).toUInt8, hdr.flags.toUInt8,
    (hdr.streamId >>> 24).toUInt8, (hdr.streamId >>> 16).toUInt8,
    (hdr.streamId >>> 8).toUInt8, hdr.streamId.toUInt8,
    (hdr.length >>> 24).toUInt8, (hdr.length >>> 16).toUInt8,
    (hdr.length >>> 8).toUInt8, hdr.length.toUInt8]

def bigEndian16 (a b : UInt8) : UInt16 := a.toUInt16 <<< 8 ||| b.toUInt16

def bigEndian32 (a b c d : UInt8) : UInt32 :=
  a.toUInt32 <<< 24 ||| b.toUInt32 <<< 16 ||| c.toUInt32 <<< 8 ||| d.toUInt32

/-- `mux_frame_decode` reads exactly the twelve bytes of its buffer. -/
def muxFrameDecode (buf : List UInt8) : FrameHdr where
  version := buf.getD 0 0
  type := buf.getD 1 0
  flags := bigEndian16 (buf.getD 2 0) (buf.getD 3 0)
  streamId := bigEndian32 (buf.getD 4 0) (buf.getD 5 0) (buf.getD 6 0) (buf.getD 7 0)
  length := bigEndian32 (buf.getD 8 0) (buf.getD 9 0) (buf.getD 10 0) (buf.getD 11 0)

@[simp] theorem muxFrameEncode_length : (muxFrameEncode hdr).length = muxFrameHdrSize := rfl

theorem bigEndian16_bytes (x : UInt16) : bigEndian16 (x >>> 8).toUInt8 x.toUInt8 = x := by
  apply UInt16.toBitVec_inj.mp
  let byte := byteAt x.toBitVec
  trans byte 8 ||| byte 0
  · simp [bigEndian16, byte, byteAt, -UInt16.toUInt16_toUInt8]
  ext i inside
  simp only [byte, BitVec.getElem_or, getElem_byteAt]
  grind

theorem bigEndian32_bytes (x : UInt32) :
    bigEndian32 (x >>> 24).toUInt8 (x >>> 16).toUInt8 (x >>> 8).toUInt8 x.toUInt8 = x := by
  apply UInt32.toBitVec_inj.mp
  let byte := byteAt x.toBitVec
  trans byte 24 ||| byte 16 ||| byte 8 ||| byte 0
  · simp [bigEndian32, byte, byteAt, -UInt32.toUInt32_toUInt8]
  ext i inside
  simp only [byte, BitVec.getElem_or, getElem_byteAt]
  grind

/-- Every header survives the wire, whatever its type, flags, id and length. -/
@[simp] theorem muxFrameDecode_encode : muxFrameDecode (muxFrameEncode hdr) = hdr := by
  simp only [muxFrameDecode, muxFrameEncode, List.getD_cons_zero, List.getD_cons_succ,
    bigEndian16_bytes, bigEndian32_bytes]

/-- A frame as one message: a header and the payload that follows it. -/
structure Frame where
  hdr : FrameHdr
  data : List UInt8
deriving DecidableEq

/-- The payload a header announces: `length` bytes after DATA, none after any other type. -/
def FrameHdr.payloadLength : Nat :=
  if hdr.type = muxTypeData then hdr.length.toNat else 0

variable (frame : Frame)

def Frame.Wellformed : Prop :=
  frame.hdr.version = muxProtoVersion ∧ frame.data.length = frame.hdr.payloadLength

instance (frame : Frame) : Decidable frame.Wellformed := inferInstanceAs (Decidable (_ ∧ _))

def Frame.bytes : List UInt8 := muxFrameEncode frame.hdr ++ frame.data

theorem Frame.bytes_length : frame.bytes.length = muxFrameHdrSize + frame.data.length := by
  simp [Frame.bytes]

end Xylem.Mux
