import Xylem.Mux.Frame

namespace Xylem.Ws

open Lib List Nat UInt8

/-- The four masking bytes of a frame, in wire order. -/
structure MaskKey where
  a : UInt8
  b : UInt8
  c : UInt8
  d : UInt8
deriving DecidableEq

def MaskKey.zero : MaskKey := ⟨0, 0, 0, 0⟩

def MaskKey.bytes (key : MaskKey) : List UInt8 := [key.a, key.b, key.c, key.d]

/-- `mask_key[i & 3]`. -/
def MaskKey.byte (key : MaskKey) (i : Nat) : UInt8 := key.bytes.getD (i % 4) 0

/-- `ws_frame_header_t`. -/
structure WsFrameHeader where
  fin : Bool
  rsv1 : Bool
  opcode : UInt8
  masked : Bool
  maskKey : MaskKey
  payloadLen : UInt64
  headerSize : Nat
deriving DecidableEq

/-- What `ws_frame_decode_header` returns: `-1`, `-2`, or `0` with the header. -/
inductive WsDecoded
  | more
  | bad
  | ok (fh : WsFrameHeader)
deriving DecidableEq

def wsFrameIsReservedOpcode (opcode : UInt8) : Bool :=
  (0x3 ≤ opcode && opcode ≤ 0x7) || (0xB ≤ opcode && opcode ≤ 0xF)

def wsFrameIsControl (opcode : UInt8) : Bool := 0x8 ≤ opcode

def bigEndian64 (a b c d e f g h : UInt8) : UInt64 :=
  a.toUInt64 <<< 56 ||| b.toUInt64 <<< 48 ||| c.toUInt64 <<< 40 ||| d.toUInt64 <<< 32 |||
    e.toUInt64 <<< 24 ||| f.toUInt64 <<< 16 ||| g.toUInt64 <<< 8 ||| h.toUInt64

/-- The payload length after the first two bytes, with its size on the wire. -/
def wsFrameDecodeLen (len7 : UInt8) (rest : List UInt8) : Option (UInt64 × Nat) :=
  if len7 ≤ 125 then some (len7.toUInt64, 0)
  else if len7 = 126 then
    match rest with
    | a :: b :: _ => some (a.toUInt64 <<< 8 ||| b.toUInt64, 2)
    | _ => none
  else
    match rest with
    | a :: b :: c :: d :: e :: f :: g :: h :: _ => some (bigEndian64 a b c d e f g h, 8)
    | _ => none

def wsFrameDecodeKey (masked : Bool) (rest : List UInt8) : Option (MaskKey × Nat) :=
  if masked then
    match rest with
    | a :: b :: c :: d :: _ => some (⟨a, b, c, d⟩, 4)
    | _ => none
  else some (.zero, 0)

def wsFrameDecodeHeader : List UInt8 → WsDecoded
  | b0 :: b1 :: rest =>
    let opcode := b0 &&& 0x0F
    let masked := b1 &&& 0x80 != 0
    if wsFrameIsReservedOpcode opcode then .bad
    else
      match wsFrameDecodeLen (b1 &&& 0x7F) rest with
      | none => .more
      | some (payloadLen, lenSize) =>
        match wsFrameDecodeKey masked (rest.drop lenSize) with
        | none => .more
        | some (maskKey, keySize) =>
          if wsFrameIsControl opcode && (125 < payloadLen || b0 &&& 0x80 == 0) then .bad
          else
            .ok { fin := b0 &&& 0x80 != 0, rsv1 := b0 &&& 0x40 != 0, opcode, masked, maskKey, payloadLen,
                  headerSize := 2 + lenSize + keySize }
  | _ => .more

/-- The length field of `ws_frame_encode_header`, from the byte with the mask bit on. -/
def wsFrameEncodeLen (maskBit : UInt8) (payloadLen : UInt64) : List UInt8 :=
  if payloadLen ≤ 125 then [maskBit ||| payloadLen.toUInt8]
  else if payloadLen ≤ 65535 then [maskBit ||| 126, (payloadLen >>> 8).toUInt8, (payloadLen &&& 0xFF).toUInt8]
  else
    [maskBit ||| 127, (payloadLen >>> 56).toUInt8, (payloadLen >>> 48).toUInt8, (payloadLen >>> 40).toUInt8,
      (payloadLen >>> 32).toUInt8, (payloadLen >>> 24).toUInt8, (payloadLen >>> 16).toUInt8,
      (payloadLen >>> 8).toUInt8, payloadLen.toUInt8]

def wsFrameEncodeHeader (fin : Bool) (opcode : UInt8) (masked : Bool) (key : MaskKey) (payloadLen : UInt64) :
    List UInt8 :=
  ((if fin then 0x80 else 0x00) ||| (opcode &&& 0x0F)) ::
    (wsFrameEncodeLen (if masked then 0x80 else 0x00) payloadLen ++ if masked then key.bytes else [])

def wsFrameApplyMask (data : List UInt8) (key : MaskKey) (offset : Nat) : List UInt8 :=
  data.mapIdx fun i x => x ^^^ key.byte (offset + i)

/-- The pieces of a payload masked one after the other, each at the offset that the ones before it have reached. -/
def wsFrameApplyMasks (key : MaskKey) (offset : Nat) : List (List UInt8) → List UInt8
  | [] => []
  | piece :: rest => wsFrameApplyMask piece key offset ++ wsFrameApplyMasks key (offset + piece.length) rest

/-- A frame as `_ws_write_frame_impl` is given it, with the key it draws. -/
structure WsFrame where
  fin : Bool
  rsv1 : Bool
  opcode : UInt8
  masked : Bool
  key : MaskKey
  payload : List UInt8

variable (frame : WsFrame)

/-- The header with the compression bit set in its first byte. -/
def WsFrame.header : List UInt8 :=
  (wsFrameEncodeHeader frame.fin frame.opcode frame.masked frame.key (.ofNat frame.payload.length)).modifyHead
    fun b => if frame.rsv1 then b ||| 0x40 else b

/-- The bytes that `_ws_write_frame_impl` writes: header, then payload, masked by a client. -/
def WsFrame.bytes : List UInt8 :=
  frame.header ++ if frame.masked then wsFrameApplyMask frame.payload frame.key 0 else frame.payload

/-- The header that the bytes of a frame decode to. -/
def WsFrame.decoded : WsFrameHeader where
  fin := frame.fin
  rsv1 := frame.rsv1
  opcode := frame.opcode
  masked := frame.masked
  maskKey := if frame.masked then frame.key else .zero
  payloadLen := .ofNat frame.payload.length
  headerSize := frame.header.length

/-- What a sender keeps to: a known opcode, control frames whole and short, a length that fits its field. -/
structure WsFrame.Wellformed : Prop where
  known : wsFrameIsReservedOpcode frame.opcode = false
  nibble : frame.opcode < 16
  control : wsFrameIsControl frame.opcode = true → frame.fin = true ∧ frame.payload.length ≤ 125
  fits : frame.payload.length < 2 ^ 64

variable (data : List UInt8) (frame : WsFrame) (masked : Bool) (key : MaskKey) (offset : Nat)

theorem wsFrameApplyMask_length : (wsFrameApplyMask data key offset).length = data.length := by
  simp [wsFrameApplyMask]

theorem wsFrameApplyMask_twice : wsFrameApplyMask (wsFrameApplyMask data key offset) key offset = data := by
  apply ext_getElem
  · simp [wsFrameApplyMask]
  · intro i _ _
    simp only [wsFrameApplyMask, getElem_mapIdx]
    rw [UInt8.xor_assoc, UInt8.xor_self, UInt8.xor_zero]

theorem wsFrameApplyMasks_eq (pieces : List (List UInt8)) :
    wsFrameApplyMasks key offset pieces = wsFrameApplyMask pieces.flatten key offset := by
  induction pieces generalizing offset with
  | nil => rfl
  | cons piece rest ih =>
    rw [wsFrameApplyMasks, ih, flatten_cons]
    simp only [wsFrameApplyMask, mapIdx_append, Nat.add_comm, Nat.add_left_comm]

theorem WsFrame.bytes_length : frame.bytes.length = frame.header.length + frame.payload.length := by
  unfold WsFrame.bytes
  split <;> simp [wsFrameApplyMask_length]

theorem forall_of_fin {P : UInt8 → Prop} (table : ∀ n : Fin 256, P (.ofNat n)) (b : UInt8) : P b := by
  have := table ⟨b.toNat, b.toNat_lt⟩
  simpa using this

theorem bigEndian64_bytes (x : UInt64) :
    bigEndian64 (x >>> 56).toUInt8 (x >>> 48).toUInt8 (x >>> 40).toUInt8 (x >>> 32).toUInt8
      (x >>> 24).toUInt8 (x >>> 16).toUInt8 (x >>> 8).toUInt8 x.toUInt8 = x := by
  apply UInt64.toBitVec_inj.mp
  let byte := byteAt x.toBitVec
  trans byte 56 ||| byte 48 ||| byte 40 ||| byte 32 ||| byte 24 ||| byte 16 ||| byte 8 ||| byte 0
  · simp [bigEndian64, byte, byteAt, -UInt64.toUInt64_toUInt8]
  ext i inside
  simp only [byte, BitVec.getElem_or, getElem_byteAt]
  -- the byte that bit `i` is in decides which of the eight terms has it
  grind

theorem wsFrame_first_byte (fin rsv1 : Bool) {opcode : UInt8} (nibble : opcode < 16) :
    let b0 : UInt8 := (if fin then 0x80 else 0x00) ||| (opcode &&& 0x0F)
    let b0 := if rsv1 then b0 ||| 0x40 else b0
    b0 &&& 0x0F = opcode ∧ (b0 &&& 0x80 != 0) = fin ∧ (b0 &&& 0x40 != 0) = rsv1 := by
  revert opcode
  apply forall_of_fin
  cases fin <;> cases rsv1 <;> decide +kernel

theorem wsFrame_second_byte {len7 : UInt8} (small : len7 < 128) :
    ((if masked then 0x80 else 0x00) ||| len7) &&& 0x7F = len7 ∧
      ((((if masked then 0x80 else 0x00) ||| len7) &&& 0x80 : UInt8) != 0) = masked := by
  revert len7
  apply forall_of_fin
  cases masked <;> decide +kernel

theorem bigEndian64_short {x : UInt64} (short : x ≤ 65535) :
    (x >>> 8).toUInt8.toUInt64 <<< 8 ||| (x &&& 0xFF).toUInt8.toUInt64 = x := by
  have bound : x.toNat < 2 ^ 16 := lt_succ_of_le short
  have last : (x &&& 0xFF).toUInt8 = x.toUInt8 := by
    apply UInt8.toNat_inj.mp
    have mask : x.toNat &&& 255 = x.toNat % 256 := and_two_pow_sub_one_eq_mod x.toNat 8
    rw [UInt64.toNat_toUInt8, UInt64.toNat_toUInt8, UInt64.toNat_and]
    simp [mask]
  apply UInt64.toBitVec_inj.mp
  let byte := byteAt x.toBitVec
  trans byte 8 ||| byte 0
  · simp [last, byte, byteAt, -UInt64.toUInt64_toUInt8]
  ext i inside
  have top (high : 16 ≤ i) : x.toBitVec[i] = false :=
    testBit_lt_two_pow (bound.trans_le (Nat.pow_le_pow_right (by decide) high))
  simp only [byte, BitVec.getElem_or, getElem_byteAt]
  grind

/-- The length field read back from its bytes, and not read from fewer. -/
structure WsLenField (masked : Bool) (len : UInt64) (b1 : UInt8) (ext : List UInt8) : Prop where
  encodes : wsFrameEncodeLen (if masked then 0x80 else 0x00) len = b1 :: ext
  bit : (b1 &&& 0x80 != 0) = masked
  size : ext.length ≤ 8
  reads : ∀ rest, wsFrameDecodeLen (b1 &&& 0x7F) (ext ++ rest) = some (len, ext.length)
  waits : ∀ short : List UInt8, short.length < ext.length → wsFrameDecodeLen (b1 &&& 0x7F) short = none

theorem WsLenField.exists (len : UInt64) : ∃ b1 ext, WsLenField masked len b1 ext := by
  by_cases tiny : len ≤ 125
  · have small : len.toNat ≤ 125 := tiny
    have byte : len.toUInt8.toNat = len.toNat := by simp; omega
    obtain ⟨low, bit⟩ := wsFrame_second_byte masked
      (lt_iff_toNat_lt.mpr (by rw [byte]; exact Nat.lt_of_le_of_lt small (by decide)))
    refine ⟨_, [], if_pos tiny, bit, by simp, fun rest => ?_, by simp⟩
    have back : len.toUInt8.toUInt64 = len := UInt64.toNat_inj.mp (by rw [toNat_toUInt64, byte])
    have fits : len.toUInt8 ≤ 125 := le_iff_toNat_le.mpr (by rw [byte]; exact small)
    rw [low]
    simp [wsFrameDecodeLen, fits, back]
  by_cases short : len ≤ 65535
  · obtain ⟨low, bit⟩ := wsFrame_second_byte masked (show (126 : UInt8) < 128 by decide)
    refine ⟨_, _, (if_neg tiny).trans (if_pos short), bit, by simp, fun rest => ?_, fun few lt => ?_⟩
    · rw [low]
      change some ((len >>> 8).toUInt8.toUInt64 <<< 8 ||| (len &&& 0xFF).toUInt8.toUInt64, 2) = some (len, 2)
      rw [bigEndian64_short short]
    · rw [low]
      unfold wsFrameDecodeLen
      rw [if_neg (by decide), if_pos rfl]
      split
      · simp only [length_cons, length_nil] at lt
        omega
      · rfl
  · obtain ⟨low, bit⟩ := wsFrame_second_byte masked (show (127 : UInt8) < 128 by decide)
    refine ⟨_, _, (if_neg tiny).trans (if_neg short), bit, by simp, fun rest => ?_, fun few lt => ?_⟩
    · rw [low]
      simp [wsFrameDecodeLen, bigEndian64_bytes len]
    · rw [low]
      unfold wsFrameDecodeLen
      rw [if_neg (by decide), if_neg (by decide)]
      split
      · simp only [length_cons, length_nil] at lt
        omega
      · rfl

theorem wsFrameDecodeKey_bytes (rest : List UInt8) :
    wsFrameDecodeKey masked ((if masked then key.bytes else []) ++ rest) =
      some (if masked then key else .zero, (if masked then key.bytes else []).length) := by
  cases masked <;> simp [wsFrameDecodeKey, MaskKey.bytes]

theorem wsFrameDecodeKey_short {masked : Bool} {key : MaskKey} {few : List UInt8}
    (lt : few.length < (if masked then key.bytes else []).length) : wsFrameDecodeKey masked few = none := by
  cases masked
  · simp at lt
  · unfold wsFrameDecodeKey
    rw [if_pos rfl]
    split
    · simp only [MaskKey.bytes, if_true, length_cons, length_nil] at lt
      omega
    · rfl

/-- A header as its two first bytes, the rest of the length and the key. -/
theorem WsFrame.header_eq : ∃ b0 b1 ext,
    frame.header = b0 :: b1 :: (ext ++ if frame.masked then frame.key.bytes else []) ∧
      WsLenField frame.masked (.ofNat frame.payload.length) b1 ext ∧
      (frame.opcode < 16 → b0 &&& 0x0F = frame.opcode ∧ (b0 &&& 0x80 != 0) = frame.fin ∧
        (b0 &&& 0x40 != 0) = frame.rsv1) := by
  obtain ⟨b1, ext, field⟩ := WsLenField.exists frame.masked (.ofNat frame.payload.length)
  refine ⟨_, b1, ext, ?_, field, fun nibble => wsFrame_first_byte frame.fin frame.rsv1 nibble⟩
  unfold WsFrame.header wsFrameEncodeHeader
  rw [field.encodes]
  simp

theorem WsFrame.header_length_le : 2 ≤ frame.header.length ∧ frame.header.length ≤ 14 := by
  obtain ⟨b0, b1, ext, header, field, _⟩ := frame.header_eq
  have size := field.size
  rw [header]
  split <;> simp [MaskKey.bytes] <;> omega

theorem wsFrameDecodeHeader_header {frame : WsFrame} (ok : frame.Wellformed) (rest : List UInt8) :
    wsFrameDecodeHeader (frame.header ++ rest) = .ok frame.decoded := by
  obtain ⟨b0, b1, ext, header, field, first⟩ := frame.header_eq
  obtain ⟨opcode, fin, rsv1⟩ := first ok.nibble
  have len : (UInt64.ofNat frame.payload.length).toNat = frame.payload.length := by
    simpa using mod_eq_of_lt ok.fits
  -- the checks on control frames pass
  have passes : (wsFrameIsControl frame.opcode && (decide (125 < UInt64.ofNat frame.payload.length) ||
      b0 &&& 0x80 == 0)) = false := by
    cases control : wsFrameIsControl frame.opcode with
    | false => rfl
    | true =>
      obtain ⟨whole, small⟩ := ok.control control
      have long : ¬125 < UInt64.ofNat frame.payload.length := by
        rw [UInt64.lt_iff_toNat_lt, len]
        exact Nat.not_lt.mpr small
      have set : (b0 &&& 0x80 == 0) = false := by
        have nonzero := fin.trans whole
        simpa [bne] using nonzero
      simp [long, set]
  simp only [header, cons_append, append_assoc, wsFrameDecodeHeader, opcode, ok.known, field.reads,
    field.bit, drop_left, wsFrameDecodeKey_bytes, passes, fin, rsv1, Bool.false_eq_true, if_false]
  simp only [WsFrame.decoded, header, length_cons, length_append]
  congr 2
  omega

theorem wsFrameDecodeHeader_short {frame : WsFrame} (ok : frame.Wellformed) {k : Nat}
    (lt : k < frame.header.length) : wsFrameDecodeHeader (frame.header.take k) = .more := by
  obtain ⟨b0, b1, ext, header, field, first⟩ := frame.header_eq
  obtain ⟨opcode, -, -⟩ := first ok.nibble
  rw [header] at lt ⊢
  match k, lt with
  | 0, _ => rfl
  | 1, _ => rfl
  | k + 2, lt =>
    simp only [take_succ_cons, wsFrameDecodeHeader, opcode, ok.known, field.bit, Bool.false_eq_true, if_false]
    by_cases inLen : k < ext.length
    · have few : ((ext ++ if frame.masked then frame.key.bytes else []).take k).length < ext.length := by
        rw [length_take]
        omega
      rw [field.waits _ few]
    · rw [take_append, take_of_length_le (by omega), field.reads]
      simp only [drop_left]
      have few : ((if frame.masked then frame.key.bytes else []).take (k - ext.length)).length <
          (if frame.masked then frame.key.bytes else []).length := by
        simp only [length_cons, length_append] at lt
        rw [length_take]
        omega
      rw [wsFrameDecodeKey_short few]

/-- An encoded header is read back from its bytes and waited for in fewer, and a mask goes on from piece to piece. -/
theorem ws_frame_header_codec (fin : Bool) {opcode : UInt8} (key : MaskKey) {len : UInt64} (nibble : opcode < 16)
    (known : wsFrameIsReservedOpcode opcode = false)
    (control : wsFrameIsControl opcode = true → fin = true ∧ len ≤ 125) :
    (∀ rest, wsFrameDecodeHeader (wsFrameEncodeHeader fin opcode masked key len ++ rest) =
      .ok { fin, rsv1 := false, opcode, masked, maskKey := if masked then key else .zero, payloadLen := len,
            headerSize := (wsFrameEncodeHeader fin opcode masked key len).length }) ∧
    (∀ k < (wsFrameEncodeHeader fin opcode masked key len).length,
      wsFrameDecodeHeader ((wsFrameEncodeHeader fin opcode masked key len).take k) = .more) ∧
    ∀ offset pieces, wsFrameApplyMasks key offset pieces = wsFrameApplyMask pieces.flatten key offset ∧
      wsFrameApplyMask (wsFrameApplyMasks key offset pieces) key offset = pieces.flatten := by
  -- a frame with a payload of that length
  let frame : WsFrame := ⟨fin, false, opcode, masked, key, List.replicate len.toNat 0⟩
  have length : frame.payload.length = len.toNat := List.length_replicate
  have ok : frame.Wellformed := by
    refine ⟨known, nibble, fun is => ⟨(control is).1, ?_⟩, ?_⟩
    · rw [length]
      exact (control is).2
    · rw [length]
      exact len.toNat_lt
  have header : frame.header = wsFrameEncodeHeader fin opcode masked key len := by
    simp [WsFrame.header, wsFrameEncodeHeader, length, frame]
  have decoded : frame.decoded = ⟨fin, false, opcode, masked, if masked then key else .zero, len,
      (wsFrameEncodeHeader fin opcode masked key len).length⟩ := by
    simp [WsFrame.decoded, header, length, frame]
  refine ⟨fun rest => ?_, fun k lt => ?_, fun offset pieces => ⟨wsFrameApplyMasks_eq key offset pieces, ?_⟩⟩
  · rw [← header, wsFrameDecodeHeader_header ok, decoded, header]
  · rw [← header] at lt ⊢
    exact wsFrameDecodeHeader_short ok lt
  · rw [wsFrameApplyMasks_eq, wsFrameApplyMask_twice]

theorem ws_frame_header_codec_ping : wsFrameDecodeHeader (wsFrameEncodeHeader true 9 true ⟨1, 2, 3, 4⟩ 5 ++ [7]) =
      .ok ⟨true, false, 9, true, ⟨1, 2, 3, 4⟩, 5, 6⟩ :=
  (ws_frame_header_codec true true ⟨1, 2, 3, 4⟩ (by decide) (by decide) (fun _ => ⟨rfl, by decide⟩)).1 [7]

end Xylem.Ws
