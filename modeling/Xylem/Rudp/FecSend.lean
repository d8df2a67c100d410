import Mathlib.Data.List.GetD
import Mathlib.Order.Lattice.Nat
import Xylem.Rudp.Fec

namespace Xylem.Rudp

open Lib List Nat UInt32
open Function (update update_of_ne update_self)

theorem fecReadU32Le_write (v : UInt32) (rest : List UInt8) : fecReadU32Le (fecWriteU32Le v ++ rest) = v := by
  have bytes := Mux.bigEndian32_bytes v
  unfold Mux.bigEndian32 at bytes
  change v.toUInt8.toUInt32 ||| (v >>> 8).toUInt8.toUInt32 <<< 8 ||| (v >>> 16).toUInt8.toUInt32 <<< 16 |||
    (v >>> 24).toUInt8.toUInt32 <<< 24 = v
  generalize v.toUInt8.toUInt32 = a at bytes ⊢
  generalize (v >>> 8).toUInt8.toUInt32 <<< 8 = b at bytes ⊢
  generalize (v >>> 16).toUInt8.toUInt32 <<< 16 = c at bytes ⊢
  rw [UInt32.or_comm, UInt32.or_comm (a ||| b), UInt32.or_comm a, ← UInt32.or_assoc, ← UInt32.or_assoc]
  exact bytes

theorem fecReadU16Le_write (v : UInt16) (rest : List UInt8) : fecReadU16Le (fecWriteU16Le v ++ rest) = v := by
  have bytes := Mux.bigEndian16_bytes v
  unfold Mux.bigEndian16 at bytes
  change v.toUInt8.toUInt16 ||| (v >>> 8).toUInt8.toUInt16 <<< 8 = v
  rw [UInt16.or_comm, bytes]

@[simp] theorem fecHeader_length (seqid : UInt32) (type size : UInt16) :
    (fecHeader seqid type size).length = rudpFecHeaderSize := rfl

/-- Where the sequence ids wrap, as a number. -/
def fecWrap (total : Nat) : Nat := 0xFFFFFFFF / total * total

variable {total len : Nat}

theorem fecWrap_lt (total : Nat) : fecWrap total < 2 ^ 32 := by
  have product : 0xFFFFFFFF / total * total ≤ 0xFFFFFFFF := div_mul_le_self _ _
  unfold fecWrap
  omega

section

variable (small : total ≤ rudpFecMaxShards)
include small

theorem fecPaws_toNat : (fecPaws total).toNat = fecWrap total := by
  have bound : total ≤ 255 := small
  have word : (UInt32.ofNat total).toNat = total := by
    simp only [toNat_ofNat']
    omega
  have product : 0xFFFFFFFF / total * total ≤ 0xFFFFFFFF := div_mul_le_self _ _
  simp only [fecPaws, fecWrap, UInt32.toNat_mul, UInt32.toNat_div, word]
  exact mod_eq_of_lt (by simp only [UInt32.reduceToNat]; omega)

theorem fecWrap_pos (pos : 0 < total) : 0 < fecWrap total := by
  have bound : total ≤ 255 := small
  have quotient : 0 < 0xFFFFFFFF / total := Nat.div_pos (by omega) pos
  exact Nat.mul_pos quotient pos

/-- The sequence id of the `k`-th shard that an encoder sends. -/
def fecSeqid (total k : Nat) : UInt32 := UInt32.ofNat (k % fecWrap total)

theorem fecSeqid_toNat (pos : 0 < total) (k : Nat) : (fecSeqid total k).toNat = k % fecWrap total := by
  have below := mod_lt k (fecWrap_pos small pos)
  have limit := fecWrap_lt total
  simp only [fecSeqid, toNat_ofNat']
  exact mod_eq_of_lt (by omega)

theorem fecSeqid_succ (pos : 0 < total) (k : Nat) :
    (fecSeqid total k + 1) % fecPaws total = fecSeqid total (k + 1) := by
  have below := mod_lt k (fecWrap_pos small pos)
  have limit := fecWrap_lt total
  apply UInt32.toNat_inj.mp
  rw [UInt32.toNat_mod, UInt32.toNat_add, fecPaws_toNat small, fecSeqid_toNat small pos, fecSeqid_toNat small pos]
  simp only [toNat_one]
  rw [mod_eq_of_lt (by omega : k % fecWrap total + 1 < 2 ^ 32), mod_add_mod]

end

section Wire

variable (codec : Erasure UInt8) (pay : List (List UInt8)) (g i : Nat)

/-- The `i`-th payload of group `g`. -/
def fecPayload : List UInt8 := pay.getD (g * codec.dataShards + i) []

/-- The length of the group's longest payload, or one if all of them are empty. -/
def fecLen (g : Nat) : Nat := max 1 ((Finset.range codec.dataShards).sup fun i => (fecPayload codec pay g i).length)

def fecData (g : Nat) : List (List UInt8) :=
  (List.range codec.dataShards).map fun i => padTo (fecLen codec pay g) (fecPayload codec pay g i)

def fecParity (g : Nat) : List (List UInt8) := (codec.encode (fecData codec pay g) (fecLen codec pay g)).getD []

/-- What follows the header of shard `i` of group `g`. -/
def fecBody : List UInt8 :=
  if i < codec.dataShards then fecPayload codec pay g i
  else (fecParity codec pay g).getD (i - codec.dataShards) []

def fecType (i : Nat) : UInt16 := if i < codec.dataShards then rudpFecTypeData else rudpFecTypeParity

/-- The `k`-th shard on the wire. -/
def fecShard (k : Nat) : List UInt8 :=
  fecHeader (fecSeqid codec.total k) (fecType codec (k % codec.total))
    (UInt16.ofNat (fecBody codec pay (k / codec.total) (k % codec.total)).length) ++
  fecBody codec pay (k / codec.total) (k % codec.total)

/-- How many shards the first `n` payloads make. -/
def fecSent (n : Nat) : Nat := n / codec.dataShards * codec.total + n % codec.dataShards

/-- A working code under shard counts and an `mtu` that the constructors accept, and payloads
that fit: the `mtu` leaves room for one payload byte, the size field holds every length. -/
structure FecLoad (mtu : Nat) : Prop where
  correct : codec.Correct
  accepts : fecAccepts codec mtu
  room : rudpFecHeaderSize < mtu
  fits : ∀ src ∈ pay, rudpFecHeaderSize + src.length ≤ mtu
  small : ∀ src ∈ pay, src.length ≤ 0xFFFF

end Wire

namespace FecLoad

variable {codec : Erasure UInt8} {pay : List (List UInt8)} {mtu : Nat} (load : FecLoad codec pay mtu)
include load

theorem dataPos : 0 < codec.dataShards := load.accepts.1

theorem totalPos : 0 < codec.total := Nat.lt_of_lt_of_le load.accepts.1 (Nat.le_add_right _ _)

theorem total_le : codec.total ≤ rudpFecMaxShards := load.accepts.2.2.2

omit load in
theorem payload_cases (g i : Nat) : fecPayload codec pay g i ∈ pay ∨ fecPayload codec pay g i = [] := by
  unfold fecPayload
  by_cases inside : g * codec.dataShards + i < pay.length
  · left
    rw [getD_eq_getElem _ _ inside]
    exact getElem_mem inside
  · right
    exact getD_eq_default _ _ (Nat.le_of_not_lt inside)

theorem payload_fits (g i : Nat) : rudpFecHeaderSize + (fecPayload codec pay g i).length ≤ mtu := by
  have room := load.room
  rcases payload_cases g i with member | empty
  · exact load.fits _ member
  · rw [empty]
    exact Nat.le_of_lt room

omit load in
theorem payload_le_len {g i : Nat} (data : i < codec.dataShards) :
    (fecPayload codec pay g i).length ≤ fecLen codec pay g := by
  have member : i ∈ Finset.range codec.dataShards := Finset.mem_range.mpr data
  have below := Finset.le_sup (f := fun i => (fecPayload codec pay g i).length) member
  exact le_trans below (le_max_right _ _)

variable (g : Nat)

omit load in
theorem len_pos : 0 < fecLen codec pay g := Nat.lt_of_lt_of_le Nat.one_pos (le_max_left _ _)

omit load in
theorem len_le {bound : Nat} (one : 1 ≤ bound) (each : ∀ i, (fecPayload codec pay g i).length ≤ bound) :
    fecLen codec pay g ≤ bound := by
  exact max_le one (Finset.sup_le fun i _ => each i)

theorem len_fits : rudpFecHeaderSize + fecLen codec pay g ≤ mtu := by
  have room := load.room
  have each : ∀ i, (fecPayload codec pay g i).length ≤ mtu - rudpFecHeaderSize := by
    intro i
    have fits := load.payload_fits g i
    omega
  have bound := len_le g (by omega) each
  omega

theorem len_small : fecLen codec pay g ≤ 0xFFFF := by
  refine len_le g (by omega) fun i => ?_
  rcases payload_cases g i with member | empty
  · exact load.small _ member
  · simp [empty]

theorem word : codec.Word (fecLen codec pay g) (fecData codec pay g) (fecParity codec pay g) := by
  have lengths : ∀ shard ∈ fecData codec pay g, shard.length = fecLen codec pay g := by
    intro shard member
    obtain ⟨i, data, rfl⟩ := mem_map.mp member
    exact padTo_length (payload_le_len (mem_range.mp data))
  obtain ⟨parity, word⟩ := load.correct.encodes _ _ (len_pos g) (by simp [fecData]) lengths
  have same : fecParity codec pay g = parity := by simp [fecParity, word.encoded]
  rw [same]
  exact word

theorem parity_length {g j : Nat} (parity : j < codec.parityShards) :
    ((fecParity codec pay g).getD j []).length = fecLen codec pay g := by
  have inside : j < (fecParity codec pay g).length := by rw [codec.parityCount (load.word g).encoded]; exact parity
  rw [getD_eq_getElem _ _ inside]
  exact codec.parityLength (load.word g).encoded _ (getElem_mem inside)

theorem body_le_len {g i : Nat} (inside : i < codec.total) : (fecBody codec pay g i).length ≤ fecLen codec pay g := by
  unfold fecBody
  split
  · rename_i data
    exact payload_le_len data
  · rename_i parity
    have total : codec.total = codec.dataShards + codec.parityShards := rfl
    exact Nat.le_of_eq (load.parity_length (by omega))

end FecLoad

theorem fecPadded_eq {bytes : List UInt8} (rest : List UInt8) (fits : bytes.length ≤ len) (small : len ≤ 0xFFFF) :
    fecPadded len (UInt16.ofNat bytes.length) (bytes ++ rest) = padTo len bytes := by
  have size : (UInt16.ofNat bytes.length).toNat = bytes.length := by
    simp only [UInt16.toNat_ofNat']
    omega
  unfold fecPadded
  rw [size]
  split
  · rw [take_left]
  · have full : len = bytes.length := by omega
    rw [full, take_left]
    simp [padTo]

/-- The encoder after `q` whole groups and `r` payloads of the next one. -/
structure RudpFecEnc.At (codec : Erasure UInt8) (pay : List (List UInt8)) (mtu q r : Nat) (enc : RudpFecEnc) : Prop where
  codecIs : enc.codec = codec
  mtuIs : enc.mtu = mtu
  pawsIs : enc.paws = fecPaws codec.total
  seqid : enc.nextSeqid = fecSeqid codec.total (q * codec.total + r)
  countIs : enc.shardCount = r
  below : r < codec.dataShards
  shards : ∀ i < r, enc.shards i = fecPayload codec pay q i
  sizes : ∀ i < r, enc.payloadSizes i = UInt16.ofNat (fecPayload codec pay q i).length
  longest : enc.maxPayload = (Finset.range r).sup fun i => rudpFecHeaderSize + (fecPayload codec pay q i).length

theorem fecParityShards_eq (pos : 0 < total) (small : total ≤ rudpFecMaxShards) (k : Nat) (parity : List (List UInt8)) :
    fecParityShards (fecPaws total) len (fecSeqid total k) parity =
      (fecSeqid total (k + parity.length), (List.range parity.length).map fun j =>
        fecHeader (fecSeqid total (k + j)) rudpFecTypeParity (UInt16.ofNat len) ++ parity.getD j []) := by
  induction parity generalizing k with
  | nil => rfl
  | cons first rest ih =>
    unfold fecParityShards
    rw [fecSeqid_succ small pos, ih]
    have shift : ∀ j, k + 1 + j = k + (j + 1) := by omega
    simp only [shift, length_cons, range_succ_eq_map, map_cons, map_map, Nat.add_zero,
      getD_cons_zero]
    rfl

section Feed

variable {codec : Erasure UInt8} {pay : List (List UInt8)} {mtu q : Nat}

theorem fecPlace {total i : Nat} (q : Nat) (inside : i < total) :
    (q * total + i) / total = q ∧ (q * total + i) % total = i := by
  rw [Nat.mul_comm, mul_add_div (by omega), mul_add_mod, div_eq_of_lt inside, mod_eq_of_lt inside]
  exact ⟨rfl, rfl⟩

theorem fecShard_parity (load : FecLoad codec pay mtu) {j : Nat} (parity : j < codec.parityShards) :
    fecShard codec pay (q * codec.total + codec.dataShards + j) =
      fecHeader (fecSeqid codec.total (q * codec.total + codec.dataShards + j)) rudpFecTypeParity
        (UInt16.ofNat (fecLen codec pay q)) ++ (fecParity codec pay q).getD j [] := by
  have total : codec.total = codec.dataShards + codec.parityShards := rfl
  have inside : codec.dataShards + j < codec.total := by omega
  obtain ⟨quotient, remainder⟩ := fecPlace q inside
  rw [← Nat.add_assoc] at quotient remainder
  have beyond : ¬ codec.dataShards + j < codec.dataShards := by omega
  simp only [fecShard, quotient, remainder, fecType, fecBody, beyond, if_false, Nat.add_sub_cancel_left,
    load.parity_length parity]

/-- The longest header and payload of a full group, less the header, is the length it is encoded with. -/
theorem fecLen_of_longest (pos : 0 < codec.dataShards) (g : Nat) {longest : Nat}
    (is : longest = (Finset.range codec.dataShards).sup fun i => rudpFecHeaderSize + (fecPayload codec pay g i).length) :
    (if longest ≤ rudpFecHeaderSize then 1 else longest - rudpFecHeaderSize) = fecLen codec pay g := by
  have shifted : longest =
      rudpFecHeaderSize + (Finset.range codec.dataShards).sup fun i => (fecPayload codec pay g i).length := by
    rw [is]
    apply le_antisymm
    · exact Finset.sup_le fun i member =>
        Nat.add_le_add_left (Finset.le_sup (f := fun i => (fecPayload codec pay g i).length) member) _
    · obtain ⟨i, member, top⟩ := Finset.exists_mem_eq_sup (Finset.range codec.dataShards)
        ⟨0, Finset.mem_range.mpr pos⟩ fun i => (fecPayload codec pay g i).length
      rw [top]
      exact Finset.le_sup (f := fun i => rudpFecHeaderSize + (fecPayload codec pay g i).length) member
  unfold fecLen
  generalize (Finset.range codec.dataShards).sup (fun i => (fecPayload codec pay g i).length) = top at shifted
  split <;> omega

theorem fecEncFinish_sends (load : FecLoad codec pay mtu) {e : RudpFecEnc}
    (codecIs : e.codec = codec) (mtuIs : e.mtu = mtu) (pawsIs : e.paws = fecPaws codec.total)
    (seqid : e.nextSeqid = fecSeqid codec.total (q * codec.total + codec.dataShards))
    (shards : ∀ i < codec.dataShards, e.shards i = fecPayload codec pay q i)
    (sizes : ∀ i < codec.dataShards, e.payloadSizes i = UInt16.ofNat (fecPayload codec pay q i).length)
    (longest : e.maxPayload =
      (Finset.range codec.dataShards).sup fun i => rudpFecHeaderSize + (fecPayload codec pay q i).length) :
    ∃ next, fecEncFinish e = .ok (next, (List.range codec.parityShards).map fun j =>
        fecShard codec pay (q * codec.total + codec.dataShards + j)) ∧
      next.At codec pay mtu (q + 1) 0 := by
  have encodeLen := fecLen_of_longest load.dataPos q longest
  have word := load.word q
  have data : ((List.range codec.dataShards).map fun i =>
      fecPadded (fecLen codec pay q) (e.payloadSizes i) (e.shards i)) = fecData codec pay q := by
    refine map_congr_left fun i member => ?_
    have inside := mem_range.mp member
    have below : (fecPayload codec pay q i).length ≤ fecLen codec pay q := FecLoad.payload_le_len inside
    have padded := fecPadded_eq [] below (load.len_small q)
    rw [append_nil] at padded
    rw [shards i inside, sizes i inside, padded]
  have fits := load.len_fits q
  have sent : ((List.range codec.parityShards).map fun j =>
        fecHeader (fecSeqid codec.total (q * codec.total + codec.dataShards + j)) rudpFecTypeParity
          (UInt16.ofNat (fecLen codec pay q)) ++ (fecParity codec pay q).getD j []) =
      (List.range codec.parityShards).map fun j => fecShard codec pay (q * codec.total + codec.dataShards + j) :=
    map_congr_left fun j member => (fecShard_parity load (mem_range.mp member)).symm
  unfold fecEncFinish
  rw [encodeLen]
  simp only [codecIs, mtuIs, pawsIs, seqid, data, word.encoded, if_neg (Nat.not_lt.mpr fits),
    fecParityShards_eq load.totalPos load.total_le, codec.parityCount word.encoded, sent]
  refine ⟨_, rfl, ⟨rfl, rfl, rfl, ?_, rfl, load.dataPos, by simp, by simp, rfl⟩⟩
  have next : q * codec.total + codec.dataShards + codec.parityShards = (q + 1) * codec.total + 0 := by
    rw [Nat.add_assoc, succ_mul]
    rfl
  exact congrArg (fecSeqid codec.total) next

variable {enc : RudpFecEnc}

theorem rudpFecEncFeed_sends (load : FecLoad codec pay mtu) {r : Nat} (here : enc.At codec pay mtu q r) :
    ∃ next sent, rudpFecEncFeed enc (fecPayload codec pay q r) (rudpFecEncFeedSize enc) =
        .ok (next, (List.range sent).map fun j => fecShard codec pay (q * codec.total + r + j)) ∧
      ((r + 1 < codec.dataShards ∧ sent = 1 ∧ next.At codec pay mtu q (r + 1)) ∨
        (r + 1 = codec.dataShards ∧ sent = codec.parityShards + 1 ∧ next.At codec pay mtu (q + 1) 0)) := by
  have room : ¬ mtu < rudpFecHeaderSize := Nat.not_lt.mpr (Nat.le_of_lt load.room)
  have fits : ¬ mtu < rudpFecHeaderSize + (fecPayload codec pay q r).length := Nat.not_lt.mpr (load.payload_fits q r)
  have ids : (enc.nextSeqid + 1) % enc.paws = fecSeqid codec.total (q * codec.total + r + 1) := by
    rw [here.seqid, here.pawsIs, fecSeqid_succ load.total_le load.totalPos]
  have shards : ∀ i < r + 1, update enc.shards r (fecPayload codec pay q r) i = fecPayload codec pay q i := by
    intro i below
    by_cases same : i = r
    · rw [same, update_self]
    · rw [update_of_ne same, here.shards i (by omega)]
  have sizes : ∀ i < r + 1, update enc.payloadSizes r (UInt16.ofNat (fecPayload codec pay q r).length) i =
        UInt16.ofNat (fecPayload codec pay q i).length := by
    intro i below
    by_cases same : i = r
    · rw [same, update_self]
    · rw [update_of_ne same, here.sizes i (by omega)]
  have longest : max (rudpFecHeaderSize + (fecPayload codec pay q r).length) enc.maxPayload =
      (Finset.range (r + 1)).sup fun i => rudpFecHeaderSize + (fecPayload codec pay q i).length := by
    rw [Finset.range_add_one, Finset.sup_insert, ← here.longest]
  have own : fecHeader enc.nextSeqid rudpFecTypeData (UInt16.ofNat (fecPayload codec pay q r).length) ++
      fecPayload codec pay q r = fecShard codec pay (q * codec.total + r + 0) := by
    obtain ⟨quotient, remainder⟩ := fecPlace q (Nat.lt_of_lt_of_le here.below (Nat.le_add_right _ codec.parityShards))
    simp only [Nat.add_zero, fecShard, Erasure.total, quotient, remainder, fecType, fecBody, here.below, if_true, here.seqid]
  unfold rudpFecEncFeed rudpFecEncFeedSize
  simp only [here.codecIs, here.mtuIs, Nat.lt_irrefl, if_false, room, fits, here.countIs, own]
  by_cases full : r + 1 = codec.dataShards
  · obtain ⟨next, finished, at_⟩ := fecEncFinish_sends load
      (e := {
        codec
        mtu
        paws := enc.paws
        shards := update enc.shards r (fecPayload codec pay q r)
        payloadSizes := update enc.payloadSizes r (UInt16.ofNat (fecPayload codec pay q r).length)
        nextSeqid := (enc.nextSeqid + 1) % enc.paws
        maxPayload := max (rudpFecHeaderSize + (fecPayload codec pay q r).length) enc.maxPayload
        shardCount := r + 1 })
      rfl rfl here.pawsIs (by rw [← full]; exact ids) (by rw [← full]; exact shards)
      (by rw [← full]; exact sizes) (by rw [← full]; exact longest)
    refine ⟨next, codec.parityShards + 1, ?_, Or.inr ⟨full, rfl, at_⟩⟩
    rw [if_pos full, finished, range_succ_eq_map, map_cons, map_map]
    have places : ∀ j, q * codec.total + codec.dataShards + j = q * codec.total + r + (j + 1) := by omega
    simp only [places]
    rfl
  · have more : r + 1 < codec.dataShards := by have below := here.below; omega
    rw [if_neg full]
    exact ⟨_, 1, rfl, Or.inl ⟨more, rfl, ⟨rfl, rfl, here.pawsIs, ids, rfl, more, shards, sizes, longest⟩⟩⟩

theorem rudpFecEncRun_append {enc mid : RudpFecEnc} {front back sent : List (List UInt8)}
    (first : rudpFecEncRun enc front = .ok (mid, sent)) :
    rudpFecEncRun enc (front ++ back) = (rudpFecEncRun mid back).map fun (last, later) => (last, sent ++ later) := by
  induction front generalizing enc sent with
  | nil =>
    cases first
    rw [nil_append]
    cases rudpFecEncRun mid back <;> rfl
  | cons src rest ih =>
    simp only [rudpFecEncRun, cons_append] at first ⊢
    cases fed : rudpFecEncFeed enc src (rudpFecEncFeedSize enc) with
    | error fault =>
      rw [fed] at first
      cases first
    | ok out =>
      rw [fed] at first
      cases ran : rudpFecEncRun out.1 rest with
      | error fault =>
        simp only [ran, bind, Except.bind] at first
        cases first
      | ok result =>
        simp only [ran, bind, Except.bind, pure, Except.pure] at first
        cases first
        simp only [bind, Except.bind, ih ran]
        cases rudpFecEncRun result.1 back with
        | error fault => rfl
        | ok last => simp [Except.map, pure, Except.pure]

theorem fecSent_succ (pos : 0 < codec.dataShards) (n : Nat) :
    (n % codec.dataShards + 1 < codec.dataShards ∧ (n + 1) / codec.dataShards = n / codec.dataShards ∧
      (n + 1) % codec.dataShards = n % codec.dataShards + 1) ∨
    (n % codec.dataShards + 1 = codec.dataShards ∧ (n + 1) / codec.dataShards = n / codec.dataShards + 1 ∧
      (n + 1) % codec.dataShards = 0) := by
  have split := div_add_mod' n codec.dataShards
  have below := mod_lt n pos
  rcases Nat.lt_or_ge (n % codec.dataShards + 1) codec.dataShards with more | full
  · have shifted : n + 1 = n / codec.dataShards * codec.dataShards + (n % codec.dataShards + 1) := by omega
    rw [shifted]
    exact Or.inl ⟨more, fecPlace _ more⟩
  · have full : n % codec.dataShards + 1 = codec.dataShards := by omega
    have shifted : n + 1 = (n / codec.dataShards + 1) * codec.dataShards := by
      rw [succ_mul]
      omega
    rw [shifted]
    exact Or.inr ⟨full, fecPlace _ pos⟩

section

variable (load : FecLoad codec pay mtu) (created : rudpFecEncCreate codec mtu = some enc)
include load created

/-- What the encoder has sent after the first `n` payloads, also beyond the wrap of the ids. -/
theorem rudpFecEncRun_take {n : Nat} (inside : n ≤ pay.length) :
    ∃ next, rudpFecEncRun enc (pay.take n) = .ok (next, (List.range (fecSent codec n)).map (fecShard codec pay)) ∧
      next.At codec pay mtu (n / codec.dataShards) (n % codec.dataShards) := by
  induction n with
  | zero =>
    rw [rudpFecEncCreate, if_pos load.accepts] at created
    cases created
    have start : fecSent codec 0 = 0 := by simp [fecSent]
    rw [start]
    refine ⟨_, rfl, ⟨rfl, rfl, rfl, ?_, by simp, by simpa using load.dataPos, by simp, by simp, by simp⟩⟩
    simp [fecSeqid]
  | succ n ih =>
    obtain ⟨mid, ran, here⟩ := ih (le_of_succ_le inside)
    obtain ⟨next, sent, fed, moved⟩ := rudpFecEncFeed_sends load here
    have payload : fecPayload codec pay (n / codec.dataShards) (n % codec.dataShards) = pay[n] := by
      rw [fecPayload, div_add_mod', getD_eq_getElem _ _ inside]
    have one : rudpFecEncRun mid [pay[n]] = .ok (next, (List.range sent).map fun j =>
        fecShard codec pay (n / codec.dataShards * codec.total + n % codec.dataShards + j)) := by
      rw [payload] at fed
      simp [rudpFecEncRun, fed, bind, Except.bind, pure, Except.pure]
    have total : codec.total = codec.dataShards + codec.parityShards := rfl
    have count : fecSent codec (n + 1) = fecSent codec n + sent ∧
        next.At codec pay mtu ((n + 1) / codec.dataShards) ((n + 1) % codec.dataShards) := by
      unfold fecSent
      rcases fecSent_succ load.dataPos n with ⟨more, quotient, remainder⟩ | ⟨full, quotient, remainder⟩ <;>
        rw [quotient, remainder]
      · rcases moved with ⟨_, rfl, at_⟩ | ⟨last, _, _⟩
        · exact ⟨by omega, at_⟩
        · omega
      · rcases moved with ⟨last, _, _⟩ | ⟨_, rfl, at_⟩
        · omega
        · exact ⟨by rw [succ_mul]; omega, at_⟩
    refine ⟨next, ?_, count.2⟩
    rw [take_succ_eq_append_getElem inside, rudpFecEncRun_append ran, one, count.1, range_add,
      map_append, map_map]
    rfl

theorem rudpFecEncRun_sends :
    ∃ last, rudpFecEncRun enc pay = .ok (last, (List.range (fecSent codec pay.length)).map (fecShard codec pay)) := by
  obtain ⟨last, ran, _⟩ := rudpFecEncRun_take load created (Nat.le_refl _)
  rw [take_length] at ran
  exact ⟨last, ran⟩

end

theorem map_fecShard {n : Nat} {ks : List Nat} (inside : ∀ k ∈ ks, k < n) :
    ks.map (fun k => ((List.range n).map (fecShard codec pay)).getD k []) = ks.map (fecShard codec pay) := by
  refine map_congr_left fun k member => ?_
  rw [getD_eq_getElem _ _ (by simpa using inside k member)]
  simp

end Feed

end Xylem.Rudp
