import Xylem.Lib.Erasure
import Xylem.Mux.Frame

namespace Xylem.Rudp

open Lib

def rudpFecMaxShards : Nat := 255
def rudpFecHeaderSize : Nat := 8
def rudpFecTypeData : UInt16 := 0xF1
def rudpFecTypeParity : UInt16 := 0xF2

/-- `RUDP_FEC_MAX_GROUPS`, the group slots of a decoder. -/
abbrev rudpFecMaxGroups : Nat := 3

def fecReadU32Le (p : List UInt8) : UInt32 :=
  (p.getD 0 0).toUInt32 ||| (p.getD 1 0).toUInt32 <<< 8 |||
    (p.getD 2 0).toUInt32 <<< 16 ||| (p.getD 3 0).toUInt32 <<< 24

def fecReadU16Le (p : List UInt8) : UInt16 := (p.getD 0 0).toUInt16 ||| (p.getD 1 0).toUInt16 <<< 8

def fecWriteU32Le (v : UInt32) : List UInt8 :=
  [v.toUInt8, (v >>> 8).toUInt8, (v >>> 16).toUInt8, (v >>> 24).toUInt8]

def fecWriteU16Le (v : UInt16) : List UInt8 := [v.toUInt8, (v >>> 8).toUInt8]

/-- The shard header `[seqid:4B][type:2B][size:2B]`. -/
def fecHeader (seqid : UInt32) (type size : UInt16) : List UInt8 :=
  fecWriteU32Le seqid ++ fecWriteU16Le type ++ fecWriteU16Le size

/-- `rudp_fec_enc_t`. The buffer is kept as the payload bytes last copied to each shard. -/
structure RudpFecEnc where
  codec : Erasure UInt8
  mtu : Nat
  nextSeqid : UInt32
  paws : UInt32
  shardCount : Nat
  maxPayload : Nat
  shards : Nat → List UInt8
  payloadSizes : Nat → UInt16

/-- Why a feed of the encoder sends nothing: it returns -1, or it has written past the `mtu`
bytes of a shard. -/
inductive FecFault
  | rejected
  | overrun

def fecPaws (total : Nat) : UInt32 := 0xFFFFFFFF / UInt32.ofNat total * UInt32.ofNat total

variable (newest : Option UInt32) (enc : RudpFecEnc) (codec : Erasure UInt8) (mtu : Nat)

/-- The checks that `rudp_fec_enc_create` and `rudp_fec_dec_create` share. -/
def fecAccepts : Prop :=
  0 < codec.dataShards ∧ 0 < codec.parityShards ∧ 0 < mtu ∧ codec.total ≤ rudpFecMaxShards

instance (codec : Erasure UInt8) (mtu : Nat) : Decidable (fecAccepts codec mtu) :=
  inferInstanceAs (Decidable (_ ∧ _))

def rudpFecEncCreate : Option RudpFecEnc :=
  if fecAccepts codec mtu then
    some { codec, mtu, nextSeqid := 0, paws := fecPaws codec.total, shardCount := 0, maxPayload := 0,
           shards := fun _ => [], payloadSizes := fun _ => 0 }
  else none

def rudpFecEncFeedSize : Nat := 1 + enc.codec.parityShards

/-- The `len` bytes that the code reads of a shard after its padding, which starts at the
recorded size. -/
def fecPadded (len : Nat) (size : UInt16) (bytes : List UInt8) : List UInt8 :=
  if size.toNat < len then padTo len (bytes.take size.toNat) else bytes.take len

/-- The parity shards on the wire, each under the next sequence id. -/
def fecParityShards (paws : UInt32) (len : Nat) : UInt32 → List (List UInt8) → UInt32 × List (List UInt8)
  | seqid, [] => (seqid, [])
  | seqid, parity :: rest =>
    let (next, sent) := fecParityShards paws len ((seqid + 1) % paws) rest
    (next, (fecHeader seqid rudpFecTypeParity (UInt16.ofNat len) ++ parity) :: sent)

/-- The second half of `rudp_fec_enc_feed`, run when a group has its data shards. -/
def fecEncFinish : Except FecFault (RudpFecEnc × List (List UInt8)) :=
  let encodeLen := if enc.maxPayload ≤ rudpFecHeaderSize then 1 else enc.maxPayload - rudpFecHeaderSize
  if enc.mtu < rudpFecHeaderSize + encodeLen then .error .overrun
  else
    let data := (List.range enc.codec.dataShards).map fun i =>
      fecPadded encodeLen (enc.payloadSizes i) (enc.shards i)
    match enc.codec.encode data encodeLen with
    | some parity =>
      let (next, sent) := fecParityShards enc.paws encodeLen enc.nextSeqid parity
      .ok ({ enc with nextSeqid := next, shardCount := 0, maxPayload := 0 }, sent)
    | none =>
      .ok ({ enc with nextSeqid := (enc.nextSeqid + UInt32.ofNat enc.codec.parityShards) % enc.paws,
                      shardCount := 0, maxPayload := 0 }, [])

def rudpFecEncFeed (src : List UInt8) (dlen : Nat) :
    Except FecFault (RudpFecEnc × List (List UInt8)) :=
  if dlen < 1 + enc.codec.parityShards then .error .rejected
  else if enc.mtu < rudpFecHeaderSize then .error .overrun
  else if enc.mtu < rudpFecHeaderSize + src.length then .error .rejected
  else
    let idx := enc.shardCount
    let shard := fecHeader enc.nextSeqid rudpFecTypeData (UInt16.ofNat src.length) ++ src
    let enc := { enc with
      shards := Function.update enc.shards idx src
      payloadSizes := Function.update enc.payloadSizes idx (UInt16.ofNat src.length)
      nextSeqid := (enc.nextSeqid + 1) % enc.paws
      maxPayload := max (rudpFecHeaderSize + src.length) enc.maxPayload
      shardCount := idx + 1 }
    if enc.shardCount = enc.codec.dataShards then
      (fecEncFinish enc).map fun (enc, parity) => (enc, shard :: parity)
    else .ok (enc, [shard])

/-- Feeding payload after payload; the shards sent are collected in order. -/
def rudpFecEncRun (enc : RudpFecEnc) : List (List UInt8) → Except FecFault (RudpFecEnc × List (List UInt8))
  | [] => .ok (enc, [])
  | src :: rest => do
    let (enc, sent) ← rudpFecEncFeed enc src (rudpFecEncFeedSize enc)
    let (enc, later) ← rudpFecEncRun enc rest
    pure (enc, sent ++ later)

/-- `_fec_group_t`. -/
structure FecGroup where
  groupId : UInt32
  count : Nat
  maxPayload : Nat
  present : Nat → Bool
  payloadSizes : Nat → UInt16

def FecGroup.zero : FecGroup := ⟨0, 0, 0, fun _ => false, fun _ => 0⟩

/-- The group's record after one more shard. -/
def FecGroup.add (grp : FecGroup) (slotIdx : Nat) (size : UInt16) (payload : List UInt8) : FecGroup :=
  { grp with
    present := Function.update grp.present slotIdx true
    payloadSizes := Function.update grp.payloadSizes slotIdx size
    count := grp.count + 1
    maxPayload := max payload.length grp.maxPayload }

/-- `rudp_fec_dec_t`. `newestGroup` is `none` until `has_newest`; `buf` holds the bytes of every
shard buffer of every slot, also those that an earlier group left there. -/
structure RudpFecDec where
  codec : Erasure UInt8
  mtu : Nat
  newestGroup : Option UInt32
  groups : Fin rudpFecMaxGroups → FecGroup
  buf : Fin rudpFecMaxGroups → Nat → List UInt8

def rudpFecDecCreate : Option RudpFecDec :=
  if fecAccepts codec mtu then
    some { codec, mtu, newestGroup := none, groups := fun _ => .zero,
           buf := fun _ _ => List.replicate mtu 0 }
  else none

/-- The `int32_t` difference of two group numbers. -/
def fecDiff (a b : UInt32) : Int := (a - b).toBitVec.toInt

variable (dec : RudpFecDec) (groups : Fin rudpFecMaxGroups → FecGroup)

/-- The slot that `_fec_dec_find_group` evicts when all are in use. -/
def fecOldest : Fin rudpFecMaxGroups :=
  (List.finRange rudpFecMaxGroups).tail.foldl
    (fun oldest i => if fecDiff (groups i).groupId (groups oldest).groupId < 0 then i else oldest) 0

variable (groupId : UInt32)

def fecDecFindGroup :
    Fin rudpFecMaxGroups × (Fin rudpFecMaxGroups → FecGroup) :=
  match (List.finRange rudpFecMaxGroups).find? fun i => 0 < (groups i).count ∧ (groups i).groupId = groupId with
  | some i => (i, groups)
  | none =>
    match (List.finRange rudpFecMaxGroups).find? fun i => (groups i).count = 0 with
    | some i => (i, Function.update groups i { groups i with groupId := groupId })
    | none =>
      (fecOldest groups, Function.update groups (fecOldest groups) { FecGroup.zero with groupId := groupId })

def fecDecDiscardOld :
    Fin rudpFecMaxGroups → FecGroup :=
  match newest with
  | none => groups
  | some newest => fun i =>
    if (groups i).count = 0 then groups i
    else if (rudpFecMaxGroups : Int) < fecDiff newest (groups i).groupId then .zero
    else groups i

/-- `memcpy` to the start of a buffer. -/
def fecCopy (bytes buffer : List UInt8) : List UInt8 := bytes ++ buffer.drop bytes.length

/-- The recovery of a group with enough shards: the reconstructed buffers and the missing payloads. -/
def fecDecRecover (grp : FecGroup) (bufs : Nat → List UInt8) :
    (Nat → List UInt8) × List (List UInt8) :=
  let missing := (List.range codec.dataShards).filter fun i => !grp.present i
  if missing = [] then (bufs, [])
  else
    let rsLen := if grp.maxPayload = 0 then 1 else grp.maxPayload
    let size i := if i < codec.dataShards then grp.payloadSizes i else UInt16.ofNat rsLen
    let shard i := if grp.present i then fecPadded rsLen (size i) (bufs i) else List.replicate rsLen 0
    let padded := fun i => fecCopy (shard i) (bufs i)
    match codec.reconstruct ((List.range codec.total).map shard)
        ((List.range codec.total).map fun i => !grp.present i) rsLen with
    | some out =>
      (fun i => if i < codec.dataShards then fecCopy (out.getD i []) (padded i) else padded i,
        missing.map fun i => out.getD i [])
    | none => (padded, [])

/-- The group number after a shard of `groupId`: the newer of the two by their signed difference. -/
def fecNewest : UInt32 :=
  match newest with
  | none => groupId
  | some newest => if 0 < fecDiff groupId newest then groupId else newest

/-- The part of `rudp_fec_dec_feed` after the packet has passed its checks. -/
def fecDecStore (slotIdx : Nat) (type size : UInt16)
    (payload : List UInt8) : RudpFecDec × List (List UInt8) :=
  let newest := fecNewest dec.newestGroup groupId
  let (gi, groups) := fecDecFindGroup dec.groups groupId
  let grp := groups gi
  let direct := if type = rudpFecTypeData then [payload.take size.toNat] else []
  if grp.present slotIdx then
    ({ dec with newestGroup := some newest, groups }, direct)
  else
    let bufs := Function.update (dec.buf gi) slotIdx (fecCopy payload (dec.buf gi slotIdx))
    let grp := grp.add slotIdx size payload
    let (grp, bufs, recovered) :=
      if dec.codec.dataShards ≤ grp.count then
        let (bufs, recovered) := fecDecRecover dec.codec grp bufs
        (FecGroup.zero, bufs, recovered)
      else (grp, bufs, [])
    ({ dec with
      newestGroup := some newest
      groups := fecDecDiscardOld (some newest) (Function.update groups gi grp)
      buf := Function.update dec.buf gi bufs }, direct ++ recovered)

def rudpFecDecFeed (src : List UInt8) (dlen : Nat) :
    Option (RudpFecDec × List (List UInt8)) :=
  if dlen < dec.codec.dataShards then none
  else if src.length < rudpFecHeaderSize then none
  else
    let seqid := fecReadU32Le src
    let type := fecReadU16Le (src.drop 4)
    let size := fecReadU16Le (src.drop 6)
    let payload := src.drop rudpFecHeaderSize
    if type ≠ rudpFecTypeData ∧ type ≠ rudpFecTypeParity then none
    else if dec.mtu < src.length then none
    else if payload.length < size.toNat then none
    else
      let groupId := seqid / UInt32.ofNat dec.codec.total
      let slotIdx := (seqid % UInt32.ofNat dec.codec.total).toNat
      some (fecDecStore dec groupId slotIdx type size payload)

def rudpFecDecFeedSize : Nat := dec.codec.dataShards

/-- Feeding packet after packet; a rejected packet leaves the decoder as it is. -/
def rudpFecDecRun (dec : RudpFecDec) : List (List UInt8) → RudpFecDec × List (List UInt8)
  | [] => (dec, [])
  | src :: rest =>
    match rudpFecDecFeed dec src (rudpFecDecFeedSize dec) with
    | none => rudpFecDecRun dec rest
    | some (dec, out) =>
      let (dec, later) := rudpFecDecRun dec rest
      (dec, out ++ later)

end Xylem.Rudp
