import Mathlib.Tactic.Linarith
import Xylem.Rudp.FecSend
import Xylem.Rudp.Packet

namespace Xylem.Rudp

open List (append_inj ofFn_inj)

def rudpHandshakeMagic : UInt32 := 0x58594C4D
def rudpHandshakeSyn : UInt8 := 0x01
def rudpHandshakeAck : UInt8 := 0x02
def rudpHandshakeSize : Nat := 9
def rudpInboxCap : Nat := 64

/-- Words are copied to and from packets as the host keeps them, low byte first. -/
def rudpEncodeHandshake (type : UInt8) (conv : UInt32) : List UInt8 :=
  fecWriteU32Le rudpHandshakeMagic ++ [type] ++ fecWriteU32Le conv

def rudpDecodeHandshake (data : List UInt8) : Option (UInt8 × UInt32) :=
  if data.length ≠ rudpHandshakeSize then none
  else if fecReadU32Le data ≠ rudpHandshakeMagic then none
  else some (data.getD 4 0, fecReadU32Le (data.drop 5))

def rudpDecryptPacket (aes : Option Aes) (data : List UInt8) : Option (List UInt8) :=
  match aes with
  | none => some data
  | some aes =>
    if data.length ≤ rudpAesIvSize then none
    else some (aes.xcrypt (data.take rudpAesIvSize) (data.drop rudpAesIvSize))

inductive Sender
  | inet (port : UInt16) (addr : Fin 4 → UInt8)
  | inet6 (port : UInt16) (addr : Fin 16 → UInt8) (scope : UInt32)

/-- The bytes that the receive call writes: `sockaddr_in` with its padding cleared, or `sockaddr_in6`. -/
def Sender.bytes : Sender → List UInt8
  | .inet port addr => [2, 0] ++ fecWriteU16Le port ++ List.ofFn addr ++ List.replicate 8 0
  | .inet6 port addr scope =>
    [10, 0] ++ fecWriteU16Le port ++ List.replicate 4 0 ++ List.ofFn addr ++ fecWriteU32Le scope

/-- A datagram as the dispatcher receives it. `leftover` is what its uninitialised `sockaddr_storage` held
before the call. -/
structure Datagram where
  sender : Sender
  leftover : List UInt8
  data : List UInt8

variable (sender : Sender) (leftover : List UInt8)

/-- The address storage after the call. -/
def Sender.storage : List UInt8 :=
  sender.bytes ++ leftover.drop sender.bytes.length

structure SessionKey where
  storage : List UInt8
  conv : UInt32
deriving DecidableEq

/-- `_rudp_session_cmp_nn` and `_rudp_session_cmp_kn`: `memcmp` of the storages, then the conversation ids. -/
def rudpSessionCmp : SessionKey → SessionKey → Ordering :=
  compareLex (compareOn SessionKey.storage) (compareOn SessionKey.conv)

instance : Std.TransCmp rudpSessionCmp := inferInstanceAs (Std.TransCmp (compareLex _ _))

theorem rudpSessionCmp_eq {a b : SessionKey} : rudpSessionCmp a b = .eq ↔ a = b := by
  rcases a with ⟨storageA, convA⟩
  rcases b with ⟨storageB, convB⟩
  simp [rudpSessionCmp, compareLex, compareOn, Ordering.then_eq_eq]

instance : Std.LawfulEqCmp rudpSessionCmp := ⟨fun same => rudpSessionCmp_eq.mp same⟩

/-- A session in the table: its inbox, and the address and leftover bytes of the handshake that created it. -/
structure Session where
  origin : Sender
  leftover : List UInt8
  inbox : List (List UInt8)

/-- `xylem_rudp_listener_t` as the dispatcher uses it. -/
structure RudpListener where
  codecs : FecCodecs
  opts : RudpOpts
  closed : Bool
  sessions : Std.TreeMap SessionKey Session rudpSessionCmp
  acceptCh : List SessionKey
  acks : List (List UInt8 × List UInt8)

variable (codecs : FecCodecs) (opts : RudpOpts) (ln : RudpListener) (dgram : Datagram) (storage : List UInt8)
  (conv : UInt32)

def rudpFindSession : Option Session :=
  ln.sessions[(⟨storage, conv⟩ : SessionKey)]?

def rudpInboxPush (sess : Session) (data : List UInt8) : Session :=
  if rudpInboxCap ≤ sess.inbox.length then sess else { sess with inbox := sess.inbox ++ [data] }

/-- A session is published unless its forward error correction cannot be set up or the listener is closed. -/
def rudpAcceptSession : RudpListener :=
  match rudpInitFec ln.codecs ln.opts.connMtu ln.opts.fecData ln.opts.fecParity with
  | none => ln
  | some _ =>
    if ln.closed then ln
    else
      let key : SessionKey := ⟨dgram.sender.storage dgram.leftover, conv⟩
      { ln with
        sessions := ln.sessions.insert key ⟨dgram.sender, dgram.leftover, []⟩
        acceptCh := ln.acceptCh ++ [key] }

variable (plain : List UInt8)

def rudpPushTo : RudpListener :=
  match rudpFindSession ln storage conv with
  | none => ln
  | some sess => { ln with sessions := ln.sessions.insert ⟨storage, conv⟩ (rudpInboxPush sess plain) }

/-- The parity branch: every session of the peer gets the packet. -/
def rudpPushAll : RudpListener :=
  { ln with sessions := ln.sessions.map fun key sess =>
      if key.storage = storage then rudpInboxPush sess plain else sess }

/-- Where a packet that is not a handshake goes. -/
inductive Route
  | session (conv : UInt32)
  | peer
  | nowhere

def rudpRoute : Route :=
  if opts.fec ∧ rudpFecHeaderSize ≤ plain.length then
    let fecType := fecReadU16Le (plain.drop 4)
    if fecType = rudpFecTypeData ∧ rudpFecHeaderSize + 4 ≤ plain.length then
      .session (fecReadU32Le (plain.drop rudpFecHeaderSize))
    else if fecType = rudpFecTypeParity then .peer
    else .nowhere
  else if 4 ≤ plain.length then .session (fecReadU32Le plain)
  else .nowhere

/-- The body of `_rudp_dispatcher` for one received datagram, cut to the receive buffer. -/
def rudpDispatch (iv : AesIv) (dgram : Datagram) : RudpListener :=
  match rudpDecryptPacket ln.opts.aesKey (dgram.data.take rudpRecvBufSize) with
  | none => ln
  | some plain =>
    let storage := dgram.sender.storage dgram.leftover
    match rudpDecodeHandshake plain with
    | some (type, conv) =>
      if type = rudpHandshakeSyn then
        let ack := rudpEncryptSend ln.opts.aesKey iv (rudpEncodeHandshake rudpHandshakeAck conv)
        let ln := { ln with acks := ln.acks ++ [(storage, ack)] }
        if (rudpFindSession ln storage conv).isSome then ln else rudpAcceptSession ln dgram conv
      else ln
    | none =>
      match rudpRoute ln.opts plain with
      | .session conv => rudpPushTo ln storage conv plain
      | .peer => rudpPushAll ln storage plain
      | .nowhere => ln

def rudpListen : RudpListener where
  codecs
  opts
  closed := false
  sessions := ∅
  acceptCh := []
  acks := []

/-- What happens to the session table: a datagram is dispatched, a reader takes a datagram from a session's
inbox, a session is shut down and leaves the table, the listener is closed. -/
inductive TableAct
  | datagram (iv : AesIv) (dgram : Datagram)
  | read (key : SessionKey)
  | shutdown (key : SessionKey)
  | close

def RudpListener.step : TableAct → RudpListener
  | .datagram iv dgram => rudpDispatch ln iv dgram
  | .read key =>
    match ln.sessions[key]? with
    | none => ln
    | some sess => { ln with sessions := ln.sessions.insert key { sess with inbox := sess.inbox.tail } }
  | .shutdown key => { ln with sessions := ln.sessions.erase key }
  | .close => { ln with closed := true }

variable (acts : List TableAct)

def RudpListener.run : RudpListener := acts.foldl RudpListener.step ln

theorem fecWriteU16Le_inj {a b : UInt16} (same : fecWriteU16Le a = fecWriteU16Le b) : a = b := by
  rw [← fecReadU16Le_write a [], ← fecReadU16Le_write b [], same]

theorem fecWriteU32Le_inj {a b : UInt32} (same : fecWriteU32Le a = fecWriteU32Le b) : a = b := by
  rw [← fecReadU32Le_write a [], ← fecReadU32Le_write b [], same]

theorem Sender.storage_eq {a b : Sender} {leftA leftB : List UInt8} : a.storage leftA = b.storage leftB ↔
      a = b ∧ leftA.drop a.bytes.length = leftB.drop b.bytes.length := by
  constructor
  · intro same
    cases a with
    | inet portA addrA =>
      cases b with
      | inet portB addrB =>
        obtain ⟨bytes, rest⟩ := append_inj same (by simp [bytes, fecWriteU16Le])
        obtain ⟨front, _⟩ := append_inj bytes (by simp [fecWriteU16Le])
        obtain ⟨front, addr⟩ := append_inj front (by simp [fecWriteU16Le])
        obtain ⟨_, port⟩ := append_inj front rfl
        rw [fecWriteU16Le_inj port, ofFn_inj.mp addr]
        exact ⟨rfl, rest⟩
      | inet6 portB addrB scopeB =>
        cases same
    | inet6 portA addrA scopeA =>
      cases b with
      | inet portB addrB => cases same
      | inet6 portB addrB scopeB =>
        obtain ⟨bytes, rest⟩ := append_inj same (by simp [bytes, fecWriteU16Le, fecWriteU32Le])
        obtain ⟨front, scope⟩ := append_inj bytes (by simp [fecWriteU16Le])
        obtain ⟨front, addr⟩ := append_inj front (by simp [fecWriteU16Le])
        obtain ⟨front, _⟩ := append_inj front (by simp [fecWriteU16Le])
        obtain ⟨_, port⟩ := append_inj front rfl
        rw [fecWriteU16Le_inj port, ofFn_inj.mp addr, fecWriteU32Le_inj scope]
        exact ⟨rfl, rest⟩
  · rintro ⟨rfl, rest⟩
    rw [Sender.storage, Sender.storage, rest]

/-- What a handshake for conversation `conv` is. -/
def Datagram.Handshake : Prop :=
  ∃ plain, rudpDecryptPacket opts.aesKey (dgram.data.take rudpRecvBufSize) = some plain ∧
    rudpDecodeHandshake plain = some (rudpHandshakeSyn, conv)

/-- What a data datagram for conversation `conv` with the content `plain` is. -/
def Datagram.Carries : Prop :=
  rudpDecryptPacket opts.aesKey (dgram.data.take rudpRecvBufSize) = some plain ∧
    rudpDecodeHandshake plain = none ∧ rudpRoute opts plain = .session conv

/-- Session `sess` under `key` stems from a handshake in the history. -/
def Session.From (key : SessionKey) (sess : Session) : Prop :=
  key.storage = sess.origin.storage sess.leftover ∧ ∃ iv dgram, TableAct.datagram iv dgram ∈ acts ∧
    dgram.sender = sess.origin ∧ dgram.leftover = sess.leftover ∧ dgram.Handshake opts key.conv

section Steps

variable {ln : RudpListener} {key : SessionKey} {sess after : Session}

/-- A session keeps where it comes from. -/
def Session.Same (before after : Session) : Prop := after.origin = before.origin ∧ after.leftover = before.leftover

theorem rudpInboxPush_same (sess : Session) (data : List UInt8) : sess.Same (rudpInboxPush sess data) := by
  unfold rudpInboxPush
  split <;> exact ⟨rfl, rfl⟩

theorem rudpPushTo_getElem (storage : List UInt8) (conv : UInt32) (plain : List UInt8) :
    (rudpPushTo ln storage conv plain).sessions[key]? =
      if key = ⟨storage, conv⟩ then ln.sessions[key]?.map (rudpInboxPush · plain) else ln.sessions[key]? := by
  unfold rudpPushTo rudpFindSession
  split
  · rename_i none
    split
    · rename_i same
      rw [same, none]
      rfl
    · rfl
  · rename_i found some
    rw [Std.TreeMap.getElem?_insert]
    simp only [rudpSessionCmp_eq, eq_comm (a := key)]
    split
    · rename_i same
      rw [← same, some]
      rfl
    · rfl

theorem rudpAcceptSession_getElem (dgram : Datagram) (conv : UInt32)
    (at_ : (rudpAcceptSession ln dgram conv).sessions[key]? = some after) :
    ln.sessions[key]? = some after ∨
      key = ⟨dgram.sender.storage dgram.leftover, conv⟩ ∧ after = ⟨dgram.sender, dgram.leftover, []⟩ := by
  unfold rudpAcceptSession at at_
  split at at_
  · exact Or.inl at_
  · split at at_
    · exact Or.inl at_
    · rw [Std.TreeMap.getElem?_insert] at at_
      simp only [rudpSessionCmp_eq] at at_
      split at at_
      · rename_i same
        exact Or.inr ⟨same.symm, (Option.some.inj at_).symm⟩
      · exact Or.inl at_

theorem rudpDispatch_opts (ln : RudpListener) (iv : AesIv) (dgram : Datagram) :
    (rudpDispatch ln iv dgram).opts = ln.opts := by
  unfold rudpDispatch
  dsimp only
  split
  · rfl
  split
  · split
    · split
      · rfl
      · unfold rudpAcceptSession
        repeat' split
        all_goals rfl
    · rfl
  · split
    · unfold rudpPushTo
      split <;> rfl
    · rfl
    · rfl

/-- A session in the table after a datagram was there before it, or the datagram was its handshake. -/
theorem rudpDispatch_getElem {iv : AesIv} {dgram : Datagram}
    (at_ : (rudpDispatch ln iv dgram).sessions[key]? = some after) :
    (∃ before, ln.sessions[key]? = some before ∧ before.Same after) ∨
      dgram.Handshake ln.opts key.conv ∧ key.storage = dgram.sender.storage dgram.leftover ∧
        after = ⟨dgram.sender, dgram.leftover, []⟩ := by
  have kept : ln.sessions[key]? = some after → (∃ before, ln.sessions[key]? = some before ∧ before.Same after) ∨
      dgram.Handshake ln.opts key.conv ∧ key.storage = dgram.sender.storage dgram.leftover ∧
        after = ⟨dgram.sender, dgram.leftover, []⟩ := fun same => Or.inl ⟨after, same, rfl, rfl⟩
  unfold rudpDispatch at at_
  split at at_
  · exact kept at_
  rename_i plain decrypted
  simp only at at_
  split at at_
  · rename_i type conv handshake
    split at at_
    · rename_i syn
      split at at_
      · exact kept at_
      · rcases rudpAcceptSession_getElem dgram conv at_ with old | ⟨rfl, fresh⟩
        · exact kept old
        · exact Or.inr ⟨⟨plain, decrypted, by rw [handshake, syn]⟩, rfl, fresh⟩
    · exact kept at_
  · split at at_
    · rename_i conv _
      rw [rudpPushTo_getElem] at at_
      split at at_
      · obtain ⟨before, there, rfl⟩ := Option.map_eq_some_iff.mp at_
        exact Or.inl ⟨before, there, rudpInboxPush_same _ _⟩
      · exact kept at_
    · simp only [rudpPushAll] at at_
      rw [Std.TreeMap.getElem?_map] at at_
      obtain ⟨before, there, rfl⟩ := Option.map_eq_some_iff.mp at_
      refine Or.inl ⟨before, there, ?_⟩
      split
      · exact rudpInboxPush_same _ _
      · exact ⟨rfl, rfl⟩
    · exact kept at_

end Steps

/-- Every session in the table of a listener with the history `acts` has its key from its own handshake. -/
structure RudpListener.Keyed (ln : RudpListener) : Prop where
  optsIs : ln.opts = opts
  origin : ∀ (key : SessionKey) (sess : Session), ln.sessions[key]? = some sess → sess.From opts acts key

theorem Session.From.same {opts : RudpOpts} {acts later : List TableAct} {key : SessionKey} {before after : Session}
    (origin : before.From opts acts key) (same : before.Same after) : after.From opts (acts ++ later) key := by
  obtain ⟨storage, iv, dgram, member, sender, leftover, handshake⟩ := origin
  exact ⟨by rw [storage, same.1, same.2], iv, dgram, List.mem_append_left _ member, sender.trans same.1.symm,
    leftover.trans same.2.symm, handshake⟩

theorem RudpListener.Keyed.step {opts : RudpOpts} {acts : List TableAct} {ln : RudpListener} (keyed : ln.Keyed opts acts)
    (act : TableAct) : (ln.step act).Keyed opts (acts ++ [act]) := by
  have kept : ∀ (key : SessionKey) (sess : Session), ln.sessions[key]? = some sess → sess.From opts (acts ++ [act]) key :=
    fun key sess at_ => (keyed.origin key sess at_).same ⟨rfl, rfl⟩
  cases act with
  | datagram iv dgram =>
    refine ⟨(rudpDispatch_opts ln iv dgram).trans keyed.optsIs, fun key sess at_ => ?_⟩
    rcases rudpDispatch_getElem at_ with ⟨before, there, same⟩ | ⟨handshake, storage, rfl⟩
    · exact (keyed.origin key before there).same same
    · rw [keyed.optsIs] at handshake
      exact ⟨storage, iv, dgram, by simp, rfl, rfl, handshake⟩
  | read key =>
    unfold RudpListener.step
    dsimp only
    split
    · exact ⟨keyed.optsIs, kept⟩
    · rename_i sess there
      refine ⟨keyed.optsIs, fun other after at_ => ?_⟩
      dsimp only at at_
      rw [Std.TreeMap.getElem?_insert] at at_
      simp only [rudpSessionCmp_eq] at at_
      split at at_
      · rename_i same
        cases at_
        rw [← same]
        exact (keyed.origin key sess there).same ⟨rfl, rfl⟩
      · exact kept other after at_
  | shutdown key =>
    refine ⟨keyed.optsIs, fun other after at_ => ?_⟩
    simp only [RudpListener.step] at at_
    rw [Std.TreeMap.getElem?_erase] at at_
    split at at_
    · cases at_
    · exact kept other after at_
  | close => exact ⟨keyed.optsIs, kept⟩

theorem RudpListener.keyed_run : ((rudpListen codecs opts).run acts).Keyed opts acts := by
  induction acts using List.reverseRecOn with
  | nil => exact ⟨rfl, fun key sess at_ => by simp [RudpListener.run, rudpListen] at at_⟩
  | append_singleton acts act ih =>
    rw [RudpListener.run, List.foldl_append]
    exact ih.step act

/-- In every history: a session in the table stems from a handshake; a data datagram changes the inbox of no
session but one of the same address and conversation; and such a session gets it exactly if its inbox has room
and the receive call left the same bytes of the address storage unwritten as at the handshake. -/
theorem session_identity_iff (codecs : FecCodecs) (opts : RudpOpts) (acts : List TableAct) (iv : AesIv)
    (dgram : Datagram) {conv : UInt32} {plain : List UInt8} (carries : dgram.Carries opts conv plain)
    {ln : RudpListener} (reached : ln = (rudpListen codecs opts).run acts) :
    (∀ (key : SessionKey) (sess : Session), ln.sessions[key]? = some sess → sess.From opts acts key) ∧
    (∀ (key : SessionKey) (before after : Session), ln.sessions[key]? = some before →
      (rudpDispatch ln iv dgram).sessions[key]? = some after → after.inbox ≠ before.inbox →
      before.origin = dgram.sender ∧ key.conv = conv) ∧
    (∀ (key : SessionKey) (sess : Session), ln.sessions[key]? = some sess → sess.origin = dgram.sender → key.conv = conv →
      ((rudpDispatch ln iv dgram).sessions[key]? = some { sess with inbox := sess.inbox ++ [plain] } ↔
        sess.inbox.length < rudpInboxCap ∧
        dgram.leftover.drop dgram.sender.bytes.length = sess.leftover.drop dgram.sender.bytes.length)) := by
  have keyed := RudpListener.keyed_run codecs opts acts
  rw [← reached] at keyed
  obtain ⟨decrypted, notHandshake, route⟩ := carries
  have dispatched : rudpDispatch ln iv dgram = rudpPushTo ln (dgram.sender.storage dgram.leftover) conv plain := by
    simp only [rudpDispatch, keyed.optsIs, decrypted, notHandshake, route]
  rw [dispatched]
  refine ⟨keyed.origin, ?_, ?_⟩
  · intro key before after there at_ changed
    rw [rudpPushTo_getElem] at at_
    split at at_
    · rename_i same
      have storage := (keyed.origin key before there).1
      rw [same] at storage
      exact ⟨(Sender.storage_eq.mp storage).1.symm, by rw [same]⟩
    · rw [there] at at_
      cases at_
      exact absurd rfl changed
  · intro key sess there sender same
    have storage := (keyed.origin key sess there).1
    rw [rudpPushTo_getElem, there]
    have longer : sess ≠ { sess with inbox := sess.inbox ++ [plain] } := by
      intro equal
      have inbox := congrArg (fun sess => sess.inbox.length) equal
      simp at inbox
    have keyIs : key = ⟨dgram.sender.storage dgram.leftover, conv⟩ ↔
        dgram.leftover.drop dgram.sender.bytes.length = sess.leftover.drop dgram.sender.bytes.length := by
      rw [← sender, ← same]
      constructor
      · intro equal
        rw [equal] at storage
        exact (Sender.storage_eq.mp storage).2
      · intro equal
        rw [← Sender.storage_eq.mpr ⟨rfl, equal⟩] at storage
        rw [← storage]
    split
    · rename_i equal
      have leftover := keyIs.mp equal
      simp only [Option.map_some, rudpInboxPush, Option.some.injEq]
      split
      · rename_i full
        exact ⟨fun is => absurd is longer, fun ⟨room, _⟩ => absurd room (by omega)⟩
      · rename_i room
        exact ⟨fun _ => ⟨Nat.lt_of_not_le room, leftover⟩, fun _ => rfl⟩
    · rename_i differs
      rw [Option.some.injEq]
      exact ⟨fun is => absurd is longer, fun ⟨_, leftover⟩ => absurd (keyIs.mpr leftover) differs⟩

def sampleOpts : RudpOpts := ⟨0, 0, 0, none⟩

def sampleIv : AesIv := ⟨List.replicate rudpAesIvSize 0, rfl⟩

def samplePeer : Sender := .inet 4000 fun i => [127, 0, 0, 1].getD i 0

/-- A handshake for conversation 7 received into a cleared storage. -/
def sampleSyn : Datagram := ⟨samplePeer, List.replicate 128 0, rudpEncodeHandshake rudpHandshakeSyn 7⟩

/-- The first bytes of a segment of that conversation. -/
def sampleData : Datagram := ⟨samplePeer, leftover, fecWriteU32Le 7⟩

theorem sampleData_carries : (sampleData leftover).Carries sampleOpts 7 (fecWriteU32Le 7) := ⟨rfl, rfl, rfl⟩

def sampleKey : SessionKey := ⟨samplePeer.storage (List.replicate 128 0), 7⟩

def sampleSession : Session := ⟨samplePeer, List.replicate 128 0, []⟩

theorem session_identity_same_leftover :
    ∃ ln : RudpListener, ln = (rudpListen fecZeros sampleOpts).run [.datagram sampleIv sampleSyn] ∧
      (rudpDispatch ln sampleIv (sampleData (List.replicate 128 0))).sessions[sampleKey]? =
        some { sampleSession with inbox := sampleSession.inbox ++ [fecWriteU32Le 7] } := by
  obtain ⟨_, _, delivered⟩ := session_identity_iff fecZeros sampleOpts [.datagram sampleIv sampleSyn] sampleIv
    (sampleData (List.replicate 128 0)) (sampleData_carries _) rfl
  exact ⟨_, rfl, (delivered sampleKey sampleSession rfl rfl rfl).mpr ⟨by decide, rfl⟩⟩

/-- A session is live, and a data datagram of its peer and conversation that is received over other leftover
bytes does not reach it. -/
theorem session_missed_over_leftover : ∃ (syn data : Datagram) (plain : List UInt8) (key : SessionKey) (sess : Session),
      syn.sender = data.sender ∧ syn.Handshake sampleOpts key.conv ∧ data.Carries sampleOpts key.conv plain ∧
      sess.origin = data.sender ∧ sess.inbox = [] ∧
      ((rudpListen fecZeros sampleOpts).run [.datagram sampleIv syn]).sessions[key]? = some sess ∧
      (rudpDispatch ((rudpListen fecZeros sampleOpts).run [.datagram sampleIv syn]) sampleIv data).sessions[key]? =
        some sess :=
  ⟨sampleSyn, sampleData (List.replicate 128 1), fecWriteU32Le 7, sampleKey, sampleSession, rfl, ⟨_, rfl, rfl⟩,
    sampleData_carries _, rfl, rfl, rfl, rfl⟩

end Xylem.Rudp
