import Xylem.Mux.Delivery

namespace Xylem.Mux

open Role Pair List

/-- Nothing is in flight and no call of `_mux_write_frame` is in progress. -/
def Pair.Quiet (p : Pair) : Prop := p.Drained ∧ ∀ ρ X, (p.ends ρ).writing X = none

variable (windows : Role → UInt32) (ρ : Role) (op : OpenPc)

/-- The send window a stream of end `ρ` starts with, once the SYN has been applied at the accepting end. -/
def initialCredit : UInt32 :=
  if op = .accepted then windows ρ + windows ρ.other else windows ρ

/-- The credit a writer starts with is enough to make the reader of the other end announce what it has read. -/
@[reducible] def CreditReachesUpdate : Prop :=
  initialCredit windows ρ op ≠ 0 ∧ windows ρ.other / 2 ≤ initialCredit windows ρ op

variable {id window : UInt32} {tx : List Frame} {op : OpenPc}

theorem Sends.no_grant (kinds : ∀ frame ∈ tx, Sends id frame) : grantOf (eventsOf tx) = 0 := by
  induction tx with
  | nil => rfl
  | cons frame rest ih =>
    have first : grantOf frame.events = 0 := by
      cases kinds frame mem_cons_self with
      | update => simp [Event.grant]
      | data nonempty => simp [events_data _ _ nonempty, Event.grant]
      | fin => simp [Event.grant]
    rw [eventsOf_cons, grantOf_append, first, ih fun other member => kinds other (mem_cons_of_mem _ member)]

theorem History.opener_grant (history : History id window op tx) (opener : op ≠ .accepted) (spoken : tx ≠ []) :
    grantOf (eventsOf tx) = window.toNat := by
  rcases history.opener opener with none | ⟨rest, rfl, kinds⟩
  · exact absurd none spoken
  · rw [eventsOf_cons, grantOf_append, Sends.no_grant kinds, events_syn, grantOf_singleton]
    rfl

theorem History.acceptor_grant (history : History id window op tx) (acceptor : op = .accepted) :
    grantOf (eventsOf tx) = 0 := by
  subst acceptor
  cases history with
  | accepted kinds => exact Sends.no_grant kinds

section Quiet

variable {windows : Role → UInt32} {x : FramePair} {p : Pair} {ρ : Role} {r r' : Nat} {lossless : Prop}

section

variable (inv : x.Inv lossless windows) (inside : r < (x.ends ρ).nslots) (inside' : r' < (x.ends ρ.other).nslots) (same : ((x.ends ρ.other).slots r').s.id = ((x.ends ρ).slots r).s.id)
include inv inside inside' same

theorem FramePair.Inv.accepted_of_opener
    (opener : ((x.ends ρ).slots r).op ≠ .accepted) : ((x.ends ρ.other).slots r').op = .accepted := by
  by_contra opener'
  obtain ⟨k, _, own⟩ := (inv ρ).opened r inside opener
  obtain ⟨k', _, own'⟩ := (inv ρ.other).opened r' inside' opener'
  have owned : ρ.Owns ((x.ends ρ).slots r).s.id := own ▸ owns_allocated ρ k
  have owned' : ρ.other.Owns ((x.ends ρ.other).slots r').s.id := own' ▸ owns_allocated ρ.other k'
  exact not_owns_other owned' (same ▸ owned)

theorem FramePair.Inv.opener_of_accepted
    (accepted : ((x.ends ρ).slots r).op = .accepted) : ((x.ends ρ.other).slots r').op ≠ .accepted := by
  obtain ⟨q, insideQ, opener, sameQ⟩ := inv.opener inside accepted
  cases (inv ρ.other).unique q insideQ r' inside' (sameQ.trans same.symm)
  exact opener

end

theorem ReadPc.owed_of_idle {rd : ReadPc} (idle : rd.call = none) : rd.owed = 0 := by
  cases rd <;> first | rfl | cases idle

/-- Conservation of credit with nothing in flight: what the reader of the other end has not announced, and what it
has not read, is the writer's initial credit less its send window. -/
theorem FramePair.Inv.conservation (inv : x.Inv True windows) (sim : Refines p x) (quiet : p.Quiet)
    (inside : r < (x.ends ρ).nslots) (inside' : r' < (x.ends ρ.other).nslots)
    (same : ((x.ends ρ.other).slots r').s.id = ((x.ends ρ).slots r).s.id)
    (settled : ((x.ends ρ).slots r).wr.pending = 0) : ((x.ends ρ.other).slots r').s.unannounced (windows ρ.other) +
        UInt32.ofNat ((x.ends ρ.other).slots r').s.recvBuf.length + ((x.ends ρ).slots r).s.sendWindow =
      initialCredit windows ρ ((x.ends ρ).slots r).op := by
  have heard := inv.received_all sim quiet.1 inside inside' same (Or.inr trivial)
  have heard' := inv.received_all (ρ := ρ.other) sim quiet.1 inside' (by rwa [other_other])
    (by rw [other_other, same]) (Or.inr trivial)
  rw [other_other] at heard'
  have sound := (inv ρ).sound r inside
  have sound' := (inv ρ.other).sound r' inside'
  have idle : ((x.ends ρ.other).slots r').rd.owed = 0 := by
    have none := quiet.2 ρ.other (.task .reader r')
    rw [sim.ends] at none
    exact ReadPc.owed_of_idle none
  have send := sound.ledger.send
  have recv := sound'.ledger.recv
  rw [settled] at send
  rw [idle] at recv
  have grant : UInt32.ofNat (grantOf ((x.ends ρ).slots r).rx) =
      if ((x.ends ρ).slots r).op = .accepted then windows ρ.other else 0 := by
    rw [heard]
    by_cases op : ((x.ends ρ).slots r).op = .accepted
    · have spoken : ((x.ends ρ.other).slots r').tx ≠ [] := by
        rw [← (inv ρ.other).sentBy r' inside', same, Flow.sent, forStream_append]
        simp [((inv ρ).accepted r inside op).2]
      rw [sound'.shape.history.opener_grant (inv.opener_of_accepted inside inside' same op) spoken]
      simp [op]
    · rw [sound'.shape.history.acceptor_grant (inv.accepted_of_opener inside inside' same op)]
      simp [op]
  have counts : UInt32.ofNat (dataOf ((x.ends ρ.other).slots r').rx).length =
      UInt32.ofNat (dataOf (eventsOf ((x.ends ρ).slots r).tx)).length := by rw [heard']
  have credits : UInt32.ofNat (creditOf ((x.ends ρ).slots r).rx) =
      UInt32.ofNat (creditOf (eventsOf ((x.ends ρ.other).slots r').tx)) := by rw [heard]
  unfold initialCredit Stream.unannounced
  rw [grant, credits] at send
  rw [counts] at recv
  split <;> simp_all only [if_true, if_false] <;> grind only

end Quiet

/-- Flow control does not deadlock where a writer's initial credit reaches the update threshold of the other end: a
writer parked on an empty window, with no frame in flight, has unread data at its peer. -/
theorem blocked_writer_has_unread_data {windows : Role → UInt32} {p : Pair}
    (reach : Pair.Reachable windows KeepsStreams p)
    (open_ : p.Open) (quiet : p.Quiet) (ρ : Role) (r : Nat) (rest : List UInt8)
    (parked : ((p.ends ρ).slots r).wr = .parked rest) (empty : ((p.ends ρ).slots r).s.sendWindow = 0)
    (enough : CreditReachesUpdate windows ρ ((p.ends ρ).slots r).op) :
    ∃ r' < (p.ends ρ.other).nslots, ((p.ends ρ.other).slots r').s.id = ((p.ends ρ).slots r).s.id ∧
      0 < ((p.ends ρ.other).slots r').s.recvBuf.length := by
  obtain ⟨x, inv, sim, _⟩ := Pair.frames True (fun _ _ _ both => ⟨both.1, fun _ => both.2⟩) reach open_
  rw [sim.ends] at parked empty enough ⊢
  have inside : r < (x.ends ρ).nslots := (inv ρ).inside (by simp [parked])
  have shape := ((inv ρ).sound r inside).shape
  have peer : ∃ r' < (x.ends ρ.other).nslots, ((x.ends ρ.other).slots r').s.id = ((x.ends ρ).slots r).s.id := by
    rcases shape.busy_usable (by simp [parked]) with op | op
    · obtain ⟨r', inside', _, same⟩ := inv.opener inside op
      exact ⟨r', inside', same⟩
    · refine inv.peer sim quiet.1 inside fun none => ?_
      have history := shape.history
      rw [op, none] at history
      cases history
  obtain ⟨r', inside', same⟩ := peer
  refine ⟨r', inside', same, Nat.pos_of_ne_zero fun drained => ?_⟩
  have conserved := inv.conservation sim quiet inside inside' same (by rw [parked]; rfl)
  rw [drained, empty] at conserved
  have all : ((x.ends ρ.other).slots r').s.unannounced (windows ρ.other) =
      initialCredit windows ρ ((x.ends ρ).slots r).op := by simpa using conserved
  rcases ((inv ρ.other).sound r' inside').ledger.gap with none | below
  · exact enough.1 (all.symm.trans none)
  · rw [all] at below
    exact UInt32.not_lt.mpr enough.2 below

theorem Pair.quiet_of_idle {windows : Role → UInt32} {p : Pair} (reach : Pair.Reachable windows KeepsIds p)
    (open_ : p.Open) (drained : p.Drained)
    (idle : ∀ ρ, (p.ends ρ).shut.call = none ∧ ∀ r < (p.ends ρ).nslots, ∀ t, ((p.ends ρ).slots r).call t = none) :
    p.Quiet := by
  obtain ⟨x, inv, sim, _⟩ := frames False (fun _ _ _ ids => ⟨ids, False.elim⟩) reach open_
  refine ⟨drained, fun ρ X => ?_⟩
  cases X with
  | task t r =>
    by_cases inside : r < (p.ends ρ).nslots
    · exact (idle ρ).2 r inside t
    · rw [sim.ends] at inside ⊢
      rw [Session.writing, (inv ρ).inert r (Nat.le_of_not_lt inside)]
      cases t <;> rfl
  | loop =>
    obtain ⟨_, _, _, top | hdr⟩ := drained ρ
    · rw [Session.writing, top]; rfl
    · rw [Session.writing, hdr]; rfl
  | shut => exact (idle ρ).1

/-- Two windows of one byte: a writer of two bytes parks after the first, which its peer has not read. -/
theorem blocked_writer_has_unread_data_one_byte_window : ∃ p : Pair,
    Pair.Reachable (fun _ => 1) KeepsStreams p ∧ p.Quiet ∧ ((p.ends .client).slots 0).wr = .parked [8] ∧
    ∃ r' < (p.ends .server).nslots, ((p.ends .server).slots r').s.id = ((p.ends .client).slots 0).s.id ∧
      0 < ((p.ends .server).slots r').s.recvBuf.length := by
  obtain ⟨p, reach, open_, drained, idle, parked, empty, enough⟩ : ∃ p : Pair,
      Pair.Reachable (fun _ => 1) KeepsStreams p ∧ p.Open ∧ p.Drained ∧
      (∀ ρ, (p.ends ρ).shut.call = none ∧ ∀ r < (p.ends ρ).nslots, ∀ t, ((p.ends ρ).slots r).call t = none) ∧
      ((p.ends .client).slots 0).wr = .parked [8] ∧ ((p.ends .client).slots 0).s.sendWindow = 0 ∧
      CreditReachesUpdate (fun _ => 1) .client ((p.ends .client).slots 0).op :=
    Lib.exists_reach (opens .client 0 ++ takesSyn .server ++ .run .client (.writeStart 0 [7, 8]) ::
      (Act.runWrite 0 true).times 10 .client ++ takesData .server 1) (by decide +kernel)
  have quiet := Pair.quiet_of_idle (reach.mono fun p act obeys => by cases act <;> [exact obeys.1; trivial; trivial])
    open_ drained idle
  exact ⟨p, reach, quiet, parked, blocked_writer_has_unread_data reach open_ quiet .client 0 [8] parked empty enough⟩

/-- A client window of one byte against a server window of four: the server has read the client's byte, but one byte is
below its threshold of two, so it announces nothing and the client's writer waits for ever. -/
theorem small_window_deadlocks : ∃ p : Pair,
    Pair.Reachable (fun ρ => if ρ = .client then 1 else 4) KeepsStreams p ∧ p.Open ∧ p.Quiet ∧
    ((p.ends .client).slots 0).wr = .parked [8] ∧ ((p.ends .client).slots 0).s.sendWindow = 0 ∧
    (p.ends .server).nslots = 1 ∧ ((p.ends .server).slots 0).s.id = ((p.ends .client).slots 0).s.id ∧
    ((p.ends .server).slots 0).s.recvBuf.length = 0 := by
  obtain ⟨p, reach, open_, drained, idle, rest⟩ : ∃ p : Pair,
      Pair.Reachable (fun ρ => if ρ = .client then 1 else 4) KeepsStreams p ∧ p.Open ∧ p.Drained ∧
      (∀ ρ, (p.ends ρ).shut.call = none ∧ ∀ r < (p.ends ρ).nslots, ∀ t, ((p.ends ρ).slots r).call t = none) ∧
      ((p.ends .client).slots 0).wr = .parked [8] ∧ ((p.ends .client).slots 0).s.sendWindow = 0 ∧
      (p.ends .server).nslots = 1 ∧ ((p.ends .server).slots 0).s.id = ((p.ends .client).slots 0).s.id ∧
      ((p.ends .server).slots 0).s.recvBuf.length = 0 :=
    Lib.exists_reach (opens .client 0 ++ takesSyn .server ++ accepts .server ++
      .run .client (.writeStart 0 [7, 8]) :: (Act.runWrite 0 true).times 10 .client ++ takesData .server 1 ++
      .run .server (.readStart 0 1) :: (Act.runRead 0 true).times 2 .server) (by decide +kernel)
  exact ⟨p, reach, open_, Pair.quiet_of_idle
    (reach.mono fun p act obeys => by cases act <;> [exact obeys.1; trivial; trivial]) open_ drained idle, rest⟩

end Xylem.Mux
