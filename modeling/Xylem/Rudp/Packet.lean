import Xylem.Rudp.Fec

namespace Xylem.Rudp

open Lib List Option UInt32

def rudpDefaultMtu : Int := 1400
def rudpRecvBufSize : Nat := 1500
def rudpAesIvSize : Nat := 16

/-- A key of `xylem_aes256`: the key stream of an initialisation vector keeps the length. -/
structure Aes where
  xcrypt : List UInt8 → List UInt8 → List UInt8
  xcrypt_length : ∀ iv data, (xcrypt iv data).length = data.length

/-- The random vector that each encryption draws. -/
abbrev AesIv := { iv : List UInt8 // iv.length = rudpAesIvSize }

def Aes.ctrEncrypt (aes : Aes) (iv : AesIv) (data : List UInt8) : List UInt8 := iv.1 ++ aes.xcrypt iv.1 data

/-- `xylem_rudp_opts_t` without the fields that no packet depends on. A missing options pointer
reads as all zeros. -/
structure RudpOpts where
  mtu : UInt32
  fecData : UInt32
  fecParity : UInt32
  aesKey : Option Aes

variable (opts : RudpOpts)

/-- Forward error correction is on if neither count is zero. -/
def RudpOpts.fec : Bool := 0 < opts.fecData ∧ 0 < opts.fecParity

/-- The `mtu` of a connection, an `int`. -/
def RudpOpts.connMtu : Int := if 0 < opts.mtu then opts.mtu.toBitVec.toInt else rudpDefaultMtu

/-- What `_rudp_create_kcp` subtracts from the `mtu`. -/
def RudpOpts.reserved : Int :=
  (if opts.fec then rudpFecHeaderSize else 0 : Nat) + (if opts.aesKey.isSome then rudpAesIvSize else 0 : Nat)

/-- `ikcp_setmtu` on a control block with the default `mtu`. -/
def ikcpSetmtu (mtu : Int) : Int := if mtu < 50 then 1400 else mtu

/-- The `mtu` of the control block that `_rudp_create_kcp` makes; its result is not looked at. There is
none if the subtraction leaves the range of an `int`. -/
def rudpCreateKcp : Option Int :=
  if opts.connMtu - opts.reserved < -2147483648 then none else some (ikcpSetmtu (opts.connMtu - opts.reserved))

/-- The codecs of `xylem_fec_create`, one for each pair of counts. -/
abbrev FecCodecs := (dataShards parityShards : Nat) →
  { codec : Erasure UInt8 // codec.dataShards = dataShards ∧ codec.parityShards = parityShards }

structure RudpOut where
  fecEnc : Option RudpFecEnc
  aes : Option Aes
  kcpMtu : Option Int

variable (codecs : FecCodecs)

def rudpInitFec (mtu : Int) (fecData fecParity : UInt32) : Option (Option RudpFecEnc) :=
  if fecData = 0 ∨ fecParity = 0 then some none
  else if mtu ≤ 0 then none
  else (rudpFecEncCreate (codecs fecData.toNat fecParity.toNat).1 mtu.toNat).map some

/-- What `xylem_rudp_dial` and `_rudp_accept_session` build for sending, or `none` if they fail. -/
def rudpCreateOut (opts : RudpOpts) : Option RudpOut :=
  (rudpInitFec codecs opts.connMtu opts.fecData opts.fecParity).map fun fecEnc =>
    { fecEnc, aes := opts.aesKey, kcpMtu := rudpCreateKcp opts }

def rudpEncryptSend (aes : Option Aes) (iv : AesIv) (data : List UInt8) : List UInt8 :=
  match aes with
  | none => data
  | some aes => aes.ctrEncrypt iv data

/-- One segment of KCP: the datagrams that leave, or the fault of the FEC encoder. -/
def rudpKcpOutputCb (out : RudpOut) (ivs : Nat → AesIv) (segment : List UInt8) :
    Except FecFault (RudpOut × List (List UInt8)) :=
  match out.fecEnc with
  | none => .ok (out, [rudpEncryptSend out.aes (ivs 0) segment])
  | some enc =>
    (rudpFecEncFeed enc segment (rudpFecEncFeedSize enc)).map fun (enc, shards) =>
      ({ out with fecEnc := some enc }, shards.mapIdx fun i shard => rudpEncryptSend out.aes (ivs i) shard)

/-- Segment after segment, each with its own random vectors. -/
def rudpOutputRun (out : RudpOut) : List ((Nat → AesIv) × List UInt8) → Except FecFault (List (List UInt8))
  | [] => .ok []
  | (ivs, segment) :: rest => do
    let (out, sent) ← rudpKcpOutputCb out ivs segment
    let later ← rudpOutputRun out rest
    pure (sent ++ later)

def RudpOpts.limit : Nat := if opts.mtu = 0 then 1400 else opts.mtu.toNat

/-- Whatever segments KCP hands out, the FEC encoder takes them and every datagram keeps to the `mtu` of
the options and to the receive buffer of the peer. -/
def RudpOut.Fits (out : RudpOut) : Prop :=
  ∃ kcpMtu, out.kcpMtu = some kcpMtu ∧ ∀ segments : List ((Nat → AesIv) × List UInt8),
    (∀ segment ∈ segments, 0 < segment.2.length ∧ (segment.2.length : Int) ≤ kcpMtu) →
      ∃ sent, rudpOutputRun out segments = .ok sent ∧
        ∀ datagram ∈ sent, datagram.length ≤ opts.limit ∧ datagram.length ≤ rudpRecvBufSize

theorem fecParityShards_length {paws : UInt32} {len : Nat} {seqid : UInt32} {parity : List (List UInt8)}
    {shard : List UInt8} (member : shard ∈ (fecParityShards paws len seqid parity).2) :
    ∃ bytes ∈ parity, shard.length = rudpFecHeaderSize + bytes.length := by
  induction parity generalizing seqid with
  | nil => cases member
  | cons first rest ih =>
    rcases mem_cons.mp member with here | later
    · exact ⟨first, mem_cons_self, by rw [here, length_append]; rfl⟩
    · obtain ⟨bytes, at_, length⟩ := ih later
      exact ⟨bytes, mem_cons_of_mem _ at_, length⟩

variable {bound : Nat} {src : List UInt8} {enc : RudpFecEnc} {sent : List (List UInt8)} {out : RudpOut}

theorem fecEncFinish_sizes {e : RudpFecEnc} (one : 1 ≤ bound)
    (room : rudpFecHeaderSize + bound ≤ e.mtu) (longest : e.maxPayload ≤ rudpFecHeaderSize + bound) :
    ∃ next sent, fecEncFinish e = .ok (next, sent) ∧ next.mtu = e.mtu ∧ next.maxPayload = 0 ∧
      ∀ shard ∈ sent, shard.length ≤ rudpFecHeaderSize + bound := by
  unfold fecEncFinish
  generalize lenIs : (if e.maxPayload ≤ rudpFecHeaderSize then 1 else e.maxPayload - rudpFecHeaderSize) = len
  have below : len ≤ bound := by
    rw [← lenIs]
    split <;> omega
  simp only [if_neg (show ¬ e.mtu < rudpFecHeaderSize + len by omega)]
  split
  · rename_i parity encoded
    refine ⟨_, _, rfl, rfl, rfl, ?_⟩
    intro shard member
    obtain ⟨bytes, at_, length⟩ := fecParityShards_length member
    rw [length, e.codec.parityLength encoded bytes at_]
    omega
  · exact ⟨_, _, rfl, rfl, rfl, nofun⟩

theorem rudpFecEncFeed_sizes (one : 1 ≤ bound)
    (room : rudpFecHeaderSize + bound ≤ enc.mtu) (longest : enc.maxPayload ≤ rudpFecHeaderSize + bound)
    (fits : src.length ≤ bound) :
    ∃ next sent, rudpFecEncFeed enc src (rudpFecEncFeedSize enc) = .ok (next, sent) ∧ next.mtu = enc.mtu ∧
      next.maxPayload ≤ rudpFecHeaderSize + bound ∧ ∀ shard ∈ sent, shard.length ≤ rudpFecHeaderSize + bound := by
  have own : (fecHeader enc.nextSeqid rudpFecTypeData (UInt16.ofNat src.length) ++ src).length ≤
      rudpFecHeaderSize + bound := by
    have header : (fecHeader enc.nextSeqid rudpFecTypeData (UInt16.ofNat src.length)).length = rudpFecHeaderSize := rfl
    rw [length_append, header]
    omega
  unfold rudpFecEncFeed rudpFecEncFeedSize
  simp only [Nat.lt_irrefl, if_false, if_neg (show ¬ enc.mtu < rudpFecHeaderSize by omega),
    if_neg (show ¬ enc.mtu < rudpFecHeaderSize + src.length by omega)]
  split
  · obtain ⟨next, sent, finished, sameMtu, cleared, sizes⟩ := fecEncFinish_sizes
      (e := { enc with
        shards := Function.update enc.shards enc.shardCount src
        payloadSizes := Function.update enc.payloadSizes enc.shardCount (UInt16.ofNat src.length)
        nextSeqid := (enc.nextSeqid + 1) % enc.paws
        maxPayload := max (rudpFecHeaderSize + src.length) enc.maxPayload
        shardCount := enc.shardCount + 1 }) one room (by simp only; omega)
    rw [finished]
    refine ⟨next, _, rfl, sameMtu, by omega, ?_⟩
    intro shard member
    rcases mem_cons.mp member with rfl | later
    · exact own
    · exact sizes shard later
  · refine ⟨_, _, rfl, rfl, by simp only; omega, ?_⟩
    intro shard member
    rw [mem_singleton.mp member]
    exact own

/-- A feed that is not refused sends the segment itself first, and it fits the `mtu`. -/
theorem rudpFecEncFeed_own {next : RudpFecEnc} {dlen : Nat} (fed : rudpFecEncFeed enc src dlen = .ok (next, sent)) :
    rudpFecHeaderSize + src.length ≤ enc.mtu ∧ ∃ rest,
      sent = (fecHeader enc.nextSeqid rudpFecTypeData (UInt16.ofNat src.length) ++ src) :: rest := by
  unfold rudpFecEncFeed at fed
  split at fed
  · cases fed
  split at fed
  · cases fed
  split at fed
  · cases fed
  rename_i room
  refine ⟨Nat.le_of_not_lt room, ?_⟩
  simp only at fed
  split at fed
  · cases finished : fecEncFinish { enc with
        shards := Function.update enc.shards enc.shardCount src
        payloadSizes := Function.update enc.payloadSizes enc.shardCount (UInt16.ofNat src.length)
        nextSeqid := (enc.nextSeqid + 1) % enc.paws
        maxPayload := max (rudpFecHeaderSize + src.length) enc.maxPayload
        shardCount := enc.shardCount + 1 } with
    | error fault =>
      rw [finished] at fed
      cases fed
    | ok result =>
      rw [finished] at fed
      cases fed
      exact ⟨_, rfl⟩
  · cases fed
    exact ⟨_, rfl⟩

theorem rudpEncryptSend_length (aes : Option Aes) (iv : AesIv) (data : List UInt8) :
    (rudpEncryptSend aes iv data).length = data.length + if aes.isSome then rudpAesIvSize else 0 := by
  cases aes with
  | none => rfl
  | some aes => simp [rudpEncryptSend, Aes.ctrEncrypt, aes.xcrypt_length, iv.2, Nat.add_comm]

/-- A sender whose segments are at most `bound` bytes and whose encoder, if it has one, has room for them. -/
structure RudpOut.Sized (bound : Nat) (out : RudpOut) : Prop where
  one : 1 ≤ bound
  room : ∀ enc, out.fecEnc = some enc → rudpFecHeaderSize + bound ≤ enc.mtu ∧ enc.maxPayload ≤ rudpFecHeaderSize + bound

def RudpOut.overhead (out : RudpOut) : Nat :=
  (if out.fecEnc.isSome then rudpFecHeaderSize else 0) + if out.aes.isSome then rudpAesIvSize else 0

theorem rudpKcpOutputCb_sizes (sized : out.Sized bound) (ivs : Nat → AesIv)
    {segment : List UInt8} (fits : segment.length ≤ bound) :
    ∃ next sent, rudpKcpOutputCb out ivs segment = .ok (next, sent) ∧ next.Sized bound ∧
      next.overhead = out.overhead ∧ ∀ datagram ∈ sent, datagram.length ≤ bound + out.overhead := by
  unfold rudpKcpOutputCb
  cases encIs : out.fecEnc with
  | none =>
    refine ⟨out, _, rfl, sized, rfl, ?_⟩
    intro datagram member
    rw [mem_singleton.mp member, rudpEncryptSend_length]
    simp only [RudpOut.overhead, encIs, isSome_none, Bool.false_eq_true, if_false]
    omega
  | some enc =>
    obtain ⟨room, longest⟩ := sized.room enc encIs
    obtain ⟨next, sent, fed, sameMtu, bounded, sizes⟩ := rudpFecEncFeed_sizes sized.one room longest fits
    simp only [fed]
    refine ⟨_, _, rfl, ⟨sized.one, ?_⟩, ?_, ?_⟩
    · intro other is
      cases is
      exact ⟨sameMtu ▸ room, bounded⟩
    · simp [RudpOut.overhead, encIs]
    · intro datagram member
      obtain ⟨i, inside, is⟩ := mem_iff_getElem.mp member
      rw [getElem_mapIdx] at is
      have size := sizes _ (getElem_mem (l := sent) (by simpa using inside))
      rw [← is, rudpEncryptSend_length]
      simp only [RudpOut.overhead, encIs, isSome_some, if_true]
      omega

theorem rudpKcpOutputCb_own {next : RudpOut} {ivs : Nat → AesIv} {segment : List UInt8}
    (ran : rudpKcpOutputCb out ivs segment = .ok (next, sent)) :
    ∃ datagram ∈ sent, datagram.length = segment.length + out.overhead := by
  unfold rudpKcpOutputCb at ran
  cases encIs : out.fecEnc with
  | none =>
    rw [encIs] at ran
    cases ran
    refine ⟨_, mem_singleton.mpr rfl, ?_⟩
    rw [rudpEncryptSend_length]
    simp [RudpOut.overhead, encIs]
  | some enc =>
    simp only [encIs] at ran
    cases fed : rudpFecEncFeed enc segment (rudpFecEncFeedSize enc) with
    | error fault =>
      rw [fed] at ran
      cases ran
    | ok result =>
      rw [fed] at ran
      cases ran
      obtain ⟨_, rest, is⟩ := rudpFecEncFeed_own fed
      rw [is, mapIdx_cons]
      refine ⟨_, mem_cons_self, ?_⟩
      have header : (fecHeader enc.nextSeqid rudpFecTypeData (UInt16.ofNat segment.length)).length =
        rudpFecHeaderSize := rfl
      rw [rudpEncryptSend_length, length_append, header]
      simp only [RudpOut.overhead, encIs, isSome_some, if_true]
      omega

theorem rudpOutputRun_sizes (sized : out.Sized bound)
    {segments : List ((Nat → AesIv) × List UInt8)} (fits : ∀ segment ∈ segments, segment.2.length ≤ bound) :
    ∃ sent, rudpOutputRun out segments = .ok sent ∧ ∀ datagram ∈ sent, datagram.length ≤ bound + out.overhead := by
  induction segments generalizing out with
  | nil => exact ⟨[], rfl, nofun⟩
  | cons segment rest ih =>
    obtain ⟨next, first, ran, still, same, sizes⟩ :=
      rudpKcpOutputCb_sizes sized segment.1 (fits segment mem_cons_self)
    obtain ⟨later, ranLater, sizesLater⟩ := ih still fun other member => fits other (mem_cons_of_mem _ member)
    refine ⟨first ++ later, ?_, ?_⟩
    · simp only [rudpOutputRun, ran, ranLater, bind, Except.bind, pure, Except.pure]
    · intro datagram member
      rcases mem_append.mp member with here | there
      · exact sizes datagram here
      · exact same ▸ sizesLater datagram there

section Iff

variable {codecs : FecCodecs} {opts : RudpOpts} {out : RudpOut}

theorem RudpOpts.fec_iff : opts.fec = true ↔ ¬ (opts.fecData = 0 ∨ opts.fecParity = 0) := by
  have positive : ∀ x : UInt32, 0 < x ↔ x ≠ 0 := by
    intro x
    rw [lt_iff_toNat_lt, ne_eq, ← UInt32.toNat_inj]
    simp only [UInt32.toNat_zero]
    omega
  simp [RudpOpts.fec, positive, not_or]

/-- The two shapes of a sender: without an encoder, or with a fresh one for the whole `mtu`. -/
theorem rudpCreateOut_cases (created : rudpCreateOut codecs opts = some out) :
    out.aes = opts.aesKey ∧ out.kcpMtu = rudpCreateKcp opts ∧ (opts.fec = false ∧ out.fecEnc = none ∨
        opts.fec = true ∧ 0 < opts.connMtu ∧ ∃ enc, out.fecEnc = some enc ∧
          enc.mtu = opts.connMtu.toNat ∧ enc.maxPayload = 0) := by
  unfold rudpCreateOut at created
  obtain ⟨fecEnc, initialised, rfl⟩ := map_eq_some_iff.mp created
  refine ⟨rfl, rfl, ?_⟩
  unfold rudpInitFec at initialised
  split at initialised
  · rename_i off
    cases initialised
    exact Or.inl ⟨by rw [← Bool.not_eq_true, RudpOpts.fec_iff]; exact fun on => on off, rfl⟩
  · rename_i on
    split at initialised
    · cases initialised
    · rename_i positive
      obtain ⟨enc, made, rfl⟩ := map_eq_some_iff.mp initialised
      refine Or.inr ⟨RudpOpts.fec_iff.mpr on, by omega, enc, rfl, ?_⟩
      unfold rudpFecEncCreate at made
      split at made
      · cases made
        exact ⟨rfl, rfl⟩
      · cases made

theorem rudpCreateOut_overhead (created : rudpCreateOut codecs opts = some out) :
    (out.overhead : Int) = opts.reserved := by
  obtain ⟨aes, _, enc⟩ := rudpCreateOut_cases created
  have encoder : out.fecEnc.isSome = opts.fec := by
    rcases enc with ⟨off, none⟩ | ⟨on, _, enc, some, _⟩
    · rw [none, off]
      rfl
    · rw [some, on]
      rfl
  simp only [RudpOut.overhead, RudpOpts.reserved, aes, encoder]
  push_cast
  rfl

theorem RudpOut.Fits.segment {kcpMtu : Int} (fits : out.Fits opts) (is : out.kcpMtu = some kcpMtu) (length : Nat)
    (pos : 0 < length) (bound : (length : Int) ≤ kcpMtu) :
    length + out.overhead ≤ opts.limit ∧ length + out.overhead ≤ rudpRecvBufSize := by
  obtain ⟨kcpMtu', is', each⟩ := fits
  have same : kcpMtu' = kcpMtu := Option.some.inj (is'.symm.trans is)
  let ivs : Nat → AesIv := fun _ => ⟨List.replicate rudpAesIvSize 0, length_replicate⟩
  obtain ⟨sent, ran, sizes⟩ := each [(ivs, List.replicate length 0)] (by simp [pos, same, bound])
  simp only [rudpOutputRun, bind, Except.bind, pure, Except.pure] at ran
  cases cb : rudpKcpOutputCb out ivs (List.replicate length 0) with
  | error fault =>
    rw [cb] at ran
    cases ran
  | ok result =>
    rw [cb] at ran
    cases ran
    obtain ⟨datagram, member, size⟩ := rudpKcpOutputCb_own cb
    rw [length_replicate] at size
    have within := sizes datagram (mem_append_left _ member)
    omega

theorem RudpOpts.limit_eq (opts : RudpOpts) : (0 ≤ opts.connMtu → (opts.limit : Int) = opts.connMtu) ∧
    (opts.connMtu < 0 → 2147483648 ≤ opts.limit) := by
  have bound := opts.mtu.toNat_lt
  unfold RudpOpts.limit RudpOpts.connMtu
  by_cases zero : opts.mtu = 0
  · simp [zero, rudpDefaultMtu]
  · have positive : 0 < opts.mtu := by
      rw [lt_iff_toNat_lt]
      have nonzero : opts.mtu.toNat ≠ 0 := fun value => zero (UInt32.toNat_inj.mp value)
      simp only [UInt32.toNat_zero]
      omega
    rw [if_neg zero, if_pos positive, BitVec.toInt_eq_toNat_cond, toNat_toBitVec]
    split <;> constructor <;> intro sign <;> omega

theorem RudpOpts.reserved_bounds (opts : RudpOpts) : 0 ≤ opts.reserved ∧ opts.reserved ≤ 24 := by
  unfold RudpOpts.reserved rudpFecHeaderSize rudpAesIvSize
  split <;> split <;> omega

/-- The sizes fit exactly if what remains of the `mtu` after the FEC header and the vector is an `mtu` that
KCP takes and the whole `mtu` is no more than the receive buffer of a peer. An `mtu` beyond the range of an
`int` leaves KCP at its default, which fits as well; such an `mtu` does not go with FEC. -/
theorem rudp_packets_fit_iff (created : rudpCreateOut codecs opts = some out) :
    out.Fits opts ↔ 50 ≤ opts.connMtu - opts.reserved ∧ opts.connMtu ≤ rudpRecvBufSize ∨
      opts.connMtu < 0 ∧ -2147483648 ≤ opts.connMtu - opts.reserved := by
  obtain ⟨_, kcp, enc⟩ := rudpCreateOut_cases created
  have overhead := rudpCreateOut_overhead created
  obtain ⟨limit, beyond⟩ := opts.limit_eq
  obtain ⟨reservedPos, reservedLe⟩ := opts.reserved_bounds
  have buffer : rudpRecvBufSize = 1500 := rfl
  constructor
  · intro fits
    have defined : -2147483648 ≤ opts.connMtu - opts.reserved := by
      obtain ⟨kcpMtu, is, _⟩ := fits
      rw [kcp, rudpCreateKcp] at is
      split at is
      · cases is
      · omega
    rw [rudpCreateKcp, if_neg (by omega)] at kcp
    by_cases negative : opts.connMtu < 0
    · exact Or.inr ⟨negative, defined⟩
    left
    have limit := limit (by omega)
    by_cases asked : opts.connMtu - opts.reserved < 50
    · -- KCP keeps 1400 bytes, which no longer fit
      rw [ikcpSetmtu, if_pos asked] at kcp
      have size := (fits.segment kcp 1400 (by omega) (by omega)).1
      omega
    · rw [ikcpSetmtu, if_neg asked] at kcp
      have size := (fits.segment kcp (opts.connMtu - opts.reserved).toNat (by omega) (by omega)).2
      omega
  · rintro (⟨asked, small⟩ | ⟨negative, defined⟩)
    · rw [rudpCreateKcp, if_neg (by omega), ikcpSetmtu, if_neg (by omega)] at kcp
      have limit := limit (by omega)
      refine ⟨_, kcp, ?_⟩
      intro segments bounded
      have sized : out.Sized (opts.connMtu - opts.reserved).toNat := by
        refine ⟨by omega, ?_⟩
        intro e is
        rcases enc with ⟨_, none⟩ | ⟨on, _, e', some, mtu, longest⟩
        · rw [none] at is
          cases is
        · cases some.symm.trans is
          have header : rudpFecHeaderSize = 8 := rfl
          have reserves : 8 ≤ opts.reserved := by
            simp only [RudpOpts.reserved, on, if_true, header]
            split <;> omega
          omega
      obtain ⟨sent, ran, sizes⟩ := rudpOutputRun_sizes sized fun segment member => by
        have bound := (bounded segment member).2
        omega
      refine ⟨sent, ran, fun datagram member => ?_⟩
      have size := sizes datagram member
      omega
    · rw [rudpCreateKcp, if_neg (by omega), ikcpSetmtu, if_pos (by omega)] at kcp
      have beyond := beyond negative
      refine ⟨_, kcp, ?_⟩
      intro segments bounded
      have sized : out.Sized 1400 := by
        refine ⟨by omega, ?_⟩
        intro e is
        rcases enc with ⟨_, none⟩ | ⟨_, positive, _⟩
        · rw [none] at is
          cases is
        · omega
      obtain ⟨sent, ran, sizes⟩ := rudpOutputRun_sizes sized fun segment member => by
        have bound := (bounded segment member).2
        omega
      refine ⟨sent, ran, fun datagram member => ?_⟩
      have size := sizes datagram member
      omega

end Iff

/-- Codecs of the right shape whose parity shards are zeros: sizes depend on nothing else. -/
def fecZeros : FecCodecs := fun dataShards parityShards => ⟨{
  dataShards
  parityShards
  encode := fun _ len => some (List.replicate parityShards (List.replicate len 0))
  reconstruct := fun _ _ _ => none
  parityCount := by
    rintro data len parity ⟨⟩
    exact List.length_replicate
  parityLength := by
    rintro data len parity ⟨⟩ shard member
    rw [(List.mem_replicate.mp member).2]
    exact List.length_replicate }, rfl, rfl⟩

theorem rudp_packets_fit_default :
    ∃ out, rudpCreateOut fecZeros ⟨0, 10, 3, none⟩ = some out ∧ out.Fits ⟨0, 10, 3, none⟩ := by
  obtain ⟨out, created⟩ : ∃ out, rudpCreateOut fecZeros ⟨0, 10, 3, none⟩ = some out := ⟨_, rfl⟩
  exact ⟨out, created, (rudp_packets_fit_iff created).mpr (Or.inl (by decide))⟩

/-- With an `mtu` of 57 bytes and FEC, KCP is left at 1400 bytes and the encoder refuses its segments; with
9000 bytes the datagrams are longer than the buffer they are received in. -/
theorem rudp_packets_outgrow : (∃ out, rudpCreateOut fecZeros ⟨57, 10, 3, none⟩ = some out ∧ out.kcpMtu = some 1400 ∧
      ∀ ivs, rudpOutputRun out [(ivs, List.replicate 1400 0)] = .error .rejected) ∧
    (∃ out, rudpCreateOut fecZeros ⟨9000, 0, 0, none⟩ = some out ∧ out.kcpMtu = some 9000 ∧
      ∀ ivs, rudpOutputRun out [(ivs, List.replicate 9000 0)] = .ok [List.replicate 9000 0]) := by
  refine ⟨⟨_, rfl, rfl, fun ivs => ?_⟩, ⟨_, rfl, rfl, fun ivs => ?_⟩⟩
  · simp only [rudpOutputRun, rudpKcpOutputCb, rudpFecEncFeed, List.length_replicate]
    rfl
  · rfl

end Xylem.Rudp
