import Xylem.Mux.Refine

namespace Xylem.Mux

open Pair List Option Function

/-- No frame is in flight: both directions are empty, both reader loops are between two frames and no transport write
is in progress. -/
def Pair.Drained (p : Pair) : Prop :=
  ∀ ρ, (p.links ρ).wire = [] ∧ (p.links ρ).rbuf = [] ∧ (p.ends ρ).writeMu = none ∧
    ((p.ends ρ).loop = .top ∨ (p.ends ρ).loop = .hdr)

instance (p : Pair) : Decidable p.Drained := inferInstanceAs (Decidable (∀ _, _))

section Reach

variable {windows : Role → UInt32} {p : Pair} {guard : Guard}

theorem Pair.reach_stays {init : Pair} (reach : Lib.Reach (step windows) (Pair.Obeys guard) init p) (open_ : p.Open) :
    Lib.Reach (step windows) (Pair.Obeys fun ends ρ act => act.Stays ∧ guard ends ρ act) init p := by
  induction reach with
  | start => exact .start
  | @next p p' act previous obeys moved ih =>
    cases act with
    | run ρ act =>
      have run := moved
      simp only [step] at run
      split at run
      swap
      · cases run
      obtain ⟨⟨σ', eff⟩, stepped, same⟩ := map_eq_some_iff.mp run
      cases same
      obtain ⟨here, stays⟩ := (Session.step_move stepped).2.stays (by simpa using open_ ρ)
      refine .next (a := .run ρ act) (ih fun τ => ?_) ⟨stays, obeys⟩ moved
      rcases ρ.eq_or_other τ with rfl | rfl
      · exact here
      · simpa using open_ ρ.other
    | rx ρ n =>
      have run := moved
      simp only [step] at run
      obtain ⟨want, _, run⟩ := bind_eq_some_iff.mp run
      split at run <;> cases run
      exact .next (a := .rx ρ n) (ih open_) trivial moved
    | complete ρ =>
      have run := moved
      simp only [step] at run
      obtain ⟨⟨σ', eff⟩, stepped, same⟩ := map_eq_some_iff.mp run
      cases same
      obtain ⟨here, _⟩ := (Session.step_move stepped).2.stays (by simpa using open_ ρ)
      refine .next (a := .complete ρ) (ih fun τ => ?_) trivial moved
      rcases ρ.eq_or_other τ with rfl | rfl
      · exact here
      · simpa using open_ ρ.other

/-- The frames behind an open pair: a run of whole frames with its invariant, and the bytes that spell them. -/
theorem Pair.frames (lossless : Prop)
    (strict : ∀ ends ρ act, guard ends ρ act → KeepsIds ends ρ act ∧ (lossless → FindsPublished ends ρ act))
    (reach : Pair.Reachable windows guard p) (open_ : p.Open) :
    ∃ x : FramePair, x.Inv lossless windows ∧ Refines p x ∧
      Lib.Reach (FramePair.step windows) (FramePair.Obeys fun ends ρ act => act.Stays ∧ guard ends ρ act)
        (FramePair.create windows) x := by
  have strict' : ∀ ends ρ act, act.Stays ∧ guard ends ρ act → Admits lossless ends ρ act :=
    fun ends ρ act allowed => ⟨allowed.1, strict ends ρ act allowed.2⟩
  obtain ⟨x, reachX, sim⟩ := refines strict' (reach_stays reach open_)
  exact ⟨x, FramePair.inv_reach strict' reachX, sim, reachX⟩

end Reach

section Agreement

variable {lossless : Prop} {windows : Role → UInt32} {p : Pair} {x : FramePair} {ρ : Role} {r r' : Nat}

theorem Role.owns_other {id : UInt32} (foreign : ¬ ρ.Owns id) : ρ.other.Owns id := by
  unfold Role.Owns at *
  cases ρ <;> simp [Role.firstId, Role.other] at * <;> omega

theorem Refines.drained (sim : Refines p x) (drained : p.Drained) (ρ : Role) :
    (x.flows ρ).cur = [] ∧ (x.flows ρ).queue = [] := by
  obtain ⟨wire, rbuf, free, _⟩ := drained ρ
  have bytes := sim.bytes ρ
  rw [wire, rbuf, Session.owed, free] at bytes
  simp only [owedBytes, append_nil, nil_eq, append_eq_nil_iff, flatMap_eq_nil_iff] at bytes
  refine ⟨bytes.1, eq_nil_iff_forall_not_mem.mpr fun frame member => ?_⟩
  have empty := congrArg List.length (bytes.2 frame member)
  rw [Frame.bytes_length, muxFrameHdrSize] at empty
  simp at empty

section

variable (inv : x.Inv lossless windows)
include inv

namespace FramePair.Inv

theorem received_prefix (inside : r < (x.ends ρ).nslots) (inside' : r' < (x.ends ρ.other).nslots)
    (same : ((x.ends ρ.other).slots r').s.id = ((x.ends ρ).slots r).s.id)
    (kept : ((x.ends ρ).slots r).op = .accepted ∨ lossless) :
    ((x.ends ρ).slots r).rx <+: eventsOf ((x.ends ρ.other).slots r').tx := by
  obtain ⟨_, whole⟩ := (inv ρ).received r inside
  have sent := (inv ρ.other).sentBy r' inside'
  rw [← sent, same, Flow.sent, forStream_append, eventsOf_append, ← whole kept, append_assoc]
  exact prefix_append _ _

theorem received_all (sim : Refines p x) (drained : p.Drained)
    (inside : r < (x.ends ρ).nslots) (inside' : r' < (x.ends ρ.other).nslots)
    (same : ((x.ends ρ.other).slots r').s.id = ((x.ends ρ).slots r).s.id)
    (kept : ((x.ends ρ).slots r).op = .accepted ∨ lossless) :
    ((x.ends ρ).slots r).rx = eventsOf ((x.ends ρ.other).slots r').tx := by
  obtain ⟨_, whole⟩ := (inv ρ).received r inside
  have sent := (inv ρ.other).sentBy r' inside'
  have idle : (x.ends ρ).loop.pending (x.flows ρ.other).cur ((x.ends ρ).slots r).s.id = [] := by
    obtain ⟨_, _, _, at_⟩ := drained ρ
    rw [sim.ends] at at_
    rcases at_ with at_ | at_ <;> rw [at_] <;> rfl
  have all := whole kept
  rw [idle, append_nil] at all
  rw [all, ← sent, same, Flow.sent, (sim.drained drained ρ.other).2, append_nil]

theorem opener (inside : r < (x.ends ρ).nslots) (accepted : ((x.ends ρ).slots r).op = .accepted) :
    ∃ r' < (x.ends ρ.other).nslots, ((x.ends ρ.other).slots r').op ≠ .accepted ∧
      ((x.ends ρ.other).slots r').s.id = ((x.ends ρ).slots r).s.id := by
  obtain ⟨foreign, heard⟩ := (inv ρ).accepted r inside accepted
  obtain ⟨first, member⟩ := exists_mem_of_ne_nil _ heard
  obtain ⟨taken, same⟩ := mem_forStream.mp member
  obtain ⟨r', inside', owner⟩ := (inv ρ.other).sentOwner first (mem_append_left _ taken)
  refine ⟨r', inside', fun op => ?_, owner.trans same⟩
  exact ((inv ρ.other).accepted r' inside' op).1 (by rw [owner, same]; exact Role.owns_other foreign)

theorem peer (sim : Refines p x) (drained : p.Drained)
    (inside : r < (x.ends ρ).nslots) (spoken : ((x.ends ρ).slots r).tx ≠ []) :
    ∃ r' < (x.ends ρ.other).nslots, ((x.ends ρ.other).slots r').s.id = ((x.ends ρ).slots r).s.id := by
  by_contra absent
  push Not at absent
  have peer := inv ρ.other
  rw [Role.other_other] at peer
  rcases peer.unknown _ absent with none | ⟨w, at_⟩
  · have sent := (inv ρ).sentBy r inside
    rw [Flow.sent, (sim.drained drained ρ).2, append_nil, none] at sent
    exact spoken sent.symm
  · obtain ⟨_, _, _, idle⟩ := drained ρ.other
    rw [sim.ends, at_] at idle
    rcases idle with idle | idle <;> cases idle

end FramePair.Inv

end

end Agreement

/-- A read finds fewer unread bytes than an `int` can count. -/
def ReadsWithinInt : Guard := fun ends ρ act =>
  (match act with
    | .runRead r _ => decide (((ends ρ).slots r).s.recvBuf.length < 2 ^ 31)
    | _ => true) = true

instance (ends : Role → Session) (ρ : Role) (act : Act) : Decidable (ReadsWithinInt ends ρ act) :=
  inferInstanceAs (Decidable (_ = true))

/-- The bytes that reads of an accepted stream return are at all times a front part of the bytes written on the one
opened stream with its id, and once nothing is in flight nothing sent is missing. -/
theorem accepted_reads_prefix_of_writes {windows : Role → UInt32} {p : Pair}
    (reach : Pair.Reachable windows (fun ends ρ act => KeepsIds ends ρ act ∧ ReadsWithinInt ends ρ act) p) (open_ : p.Open)
    (ρ : Role) (a : Nat) (inside : a < (p.ends ρ).nslots) (accepted : ((p.ends ρ).slots a).op = .accepted) :
    ∃ r < (p.ends ρ.other).nslots, ((p.ends ρ.other).slots r).op ≠ .accepted ∧
      ((p.ends ρ.other).slots r).s.id = ((p.ends ρ).slots a).s.id ∧
      (∀ r' < (p.ends ρ.other).nslots, ((p.ends ρ.other).slots r').s.id = ((p.ends ρ).slots a).s.id → r' = r) ∧
      ((p.ends ρ).slots a).delivered <+: ((p.ends ρ.other).slots r).written ∧
      (p.Drained → ((p.ends ρ).slots a).delivered ++ ((p.ends ρ).slots a).s.recvBuf =
        dataOf (eventsOf ((p.ends ρ.other).slots r).tx)) := by
  obtain ⟨x, inv, sim, _⟩ := frames False (fun _ _ _ both => ⟨both.1, False.elim⟩) reach open_
  rw [sim.ends] at *
  obtain ⟨r, inside', opener, same⟩ := inv.opener inside accepted
  have input := ((inv ρ).sound a inside).ledger.input
  refine ⟨r, inside', opener, same, fun r' inside'' same' =>
    (inv ρ.other).unique r' inside'' r inside' (same'.trans same.symm), ?_, fun drained => ?_⟩
  · have received := inv.received_prefix inside inside' same (.inl accepted)
    have output := ((inv ρ.other).sound r inside').ledger.output
    have written : dataOf (eventsOf ((x.ends ρ.other).slots r).tx) <+: ((x.ends ρ.other).slots r).written :=
      output.elim (fun all => ⟨_, all⟩) fun part => part.2.1
    obtain ⟨rest, split⟩ := received
    refine List.IsPrefix.trans ?_ written
    rw [← split, dataOf_append, ← input, List.append_assoc]
    exact List.prefix_append _ _
  · rw [input, inv.received_all sim drained inside inside' same (.inl accepted)]

/-- A client writes two bytes on the stream it has opened, and the server reads the first of them. -/
theorem accepted_reads_prefix_of_writes_after_one_read : ∃ p : Pair,
    Pair.Reachable (fun _ => 16) (fun ends ρ act => KeepsIds ends ρ act ∧ ReadsWithinInt ends ρ act) p ∧
    ((p.ends .server).slots 0).delivered = [7] ∧
    ∃ r, ((p.ends .client).slots r).s.id = ((p.ends .server).slots 0).s.id ∧
      ((p.ends .server).slots 0).delivered <+: ((p.ends .client).slots r).written := by
  obtain ⟨p, reach, open_, inside, accepted, read⟩ : ∃ p : Pair,
      Pair.Reachable (fun _ => 16) (fun ends ρ act => KeepsIds ends ρ act ∧ ReadsWithinInt ends ρ act) p ∧ p.Open ∧
      0 < (p.ends .server).nslots ∧ ((p.ends .server).slots 0).op = .accepted ∧
      ((p.ends .server).slots 0).delivered = [7] :=
    Lib.exists_reach (opens .client 0 ++ takesSyn .server ++ accepts .server ++
      PairAct.run .client (.writeStart 0 [7, 8]) :: writesChunk .client 0 ++ takesData .server 2 ++
      PairAct.run .server (.readStart 0 1) :: (Act.runRead 0 true).times 2 .server) (by decide +kernel)
  obtain ⟨r, _, _, same, _, front, _⟩ := accepted_reads_prefix_of_writes reach open_ .server 0 inside accepted
  exact ⟨p, reach, read, r, same, front⟩

section Wrap

variable {cfg : Config} {windows : Role → UInt32} {σ : Session} {p : Pair} {ρ : Role}

/-- The session after `n` more calls of open have taken an id and created their stream. -/
def Session.manyOpens (cfg : Config) (σ : Session) (n : Nat) : Session :=
  { σ with
    nextStreamId := σ.nextStreamId + 2 * UInt32.ofNat n
    slots := fun r =>
      if σ.nslots ≤ r ∧ r < σ.nslots + n then
        Slot.opened (σ.nextStreamId + 2 * UInt32.ofNat (r - σ.nslots)) cfg.window
      else σ.slots r
    nslots := σ.nslots + n
    opened := σ.opened + n }

theorem Session.manyOpens_zero : σ.manyOpens cfg 0 = σ := by
  have none : ∀ r, ¬ (σ.nslots ≤ r ∧ r < σ.nslots) := by omega
  simp [Session.manyOpens, none]

theorem Session.openStart_manyOpens (open_ : σ.closed = false) (n : Nat) :
    (σ.manyOpens cfg n).openStart cfg = σ.manyOpens cfg (n + 1) := by
  have slots : Function.update (σ.manyOpens cfg n).slots (σ.nslots + n)
      (Slot.opened (σ.nextStreamId + 2 * UInt32.ofNat n) cfg.window) = (σ.manyOpens cfg (n + 1)).slots := by
    funext r
    by_cases last : r = σ.nslots + n
    · subst last
      simp [Session.manyOpens]
    · rw [update_of_ne last]
      have same : r < σ.nslots + n ↔ r < σ.nslots + (n + 1) := by omega
      simp only [Session.manyOpens, same]
  have next : σ.nextStreamId + 2 * UInt32.ofNat n + 2 = σ.nextStreamId + 2 * UInt32.ofNat (n + 1) := by
    rw [UInt32.ofNat_add, UInt32.mul_add, ← UInt32.add_assoc]
    rfl
  simp only [Session.openStart, Session.manyOpens, open_, Bool.false_eq_true, if_false, next] at slots ⊢
  simp only [slots]
  rfl

def Pair.manyOpens (windows : Role → UInt32) (p : Pair) (ρ : Role) (n : Nat) : Pair :=
  { p with ends := Function.update p.ends ρ ((p.ends ρ).manyOpens ⟨ρ, windows ρ⟩ n) }

theorem Pair.manyOpens_reach (ready : (p.ends ρ).closed = false ∧ (p.ends ρ).freed = false ∧
    (p.ends ρ).destroying = false) (n : Nat) :
    Lib.Reach (Pair.step windows) (Pair.Obeys fun _ _ _ => True) p (p.manyOpens windows ρ n) := by
  obtain ⟨open_, live, usable⟩ := ready
  induction n with
  | zero =>
    rw [manyOpens, Session.manyOpens_zero, update_eq_self]
    exact .start
  | succ n ih =>
    refine .next (a := .run ρ .openStart) ih trivial ?_
    have step : ((p.ends ρ).manyOpens ⟨ρ, windows ρ⟩ n).step ⟨ρ, windows ρ⟩ .openStart =
        some ((p.ends ρ).manyOpens ⟨ρ, windows ρ⟩ (n + 1), .none) := by
      rw [← Session.openStart_manyOpens open_ n]
      simp [Session.step, Session.call, Session.manyOpens, live, usable]
    simp [Pair.step, manyOpens, Act.inner, Act.reliable, step, Effect.bytes]

end Wrap

/-- The first stream the server has accepted returned a byte written on the client's stream 0 and then one that was
written on another stream `r` with the same id. -/
def Pair.Mixes (p : Pair) (r : Nat) : Prop :=
  ((p.ends .server).slots 0).op = .accepted ∧ ((p.ends .server).slots 0).delivered = [7, 8] ∧
    ((p.ends .client).slots 0).s.id = ((p.ends .server).slots 0).s.id ∧ ((p.ends .client).slots 0).written = [7] ∧
    ((p.ends .client).slots r).s.id = ((p.ends .server).slots 0).s.id ∧ ((p.ends .client).slots r).written = [8]

instance (p : Pair) (r : Nat) : Decidable (p.Mixes r) := inferInstanceAs (Decidable (_ ∧ _))

/-- The client opens its stream `r`, whose id is in use, and writes a byte on it, which the server reads from its
stream 0. -/
def reusesId (r : Nat) : List PairAct :=
  opens .client r ++ takesHeader .server ++ (Act.runLoop .go).times 3 .server ++
    PairAct.run .client (.writeStart r [8]) :: writesChunk .client r ++ takesData .server 1 ++
    PairAct.run .server (.readStart 0 2) :: (Act.runRead 0 true).times 1 .server

/-- After 2^31 opens `next_stream_id` comes back to the first id. The SYN of the stream opened then finds the accepted
stream of the first, and what is written on the new stream is read from the old one. -/
theorem reused_id_mixes_streams : ∃ p : Pair, Pair.Reachable (fun _ => 16) (fun _ _ _ => True) p ∧ p.Open ∧
    p.Mixes (2 ^ 31) := by
  obtain ⟨p, reach, ready, rest⟩ : ∃ p : Pair, Pair.Reachable (fun _ => 16) (fun _ _ _ => True) p ∧
      ((p.ends .client).closed = false ∧ (p.ends .client).freed = false ∧ (p.ends .client).destroying = false) ∧
      ((Lib.runAll (Lib.guarded (step fun _ => 16) (Pair.Obeys fun _ _ _ => True))
        (p.manyOpens (fun _ => 16) .client (2 ^ 31 - 1)) (reusesId (2 ^ 31))).any
          fun q : Pair => decide (q.Open ∧ q.Mixes (2 ^ 31))) = true :=
    Lib.exists_reach (opens .client 0 ++ takesSyn .server ++ accepts .server ++
      PairAct.run .client (.writeStart 0 [7]) :: writesChunk .client 0 ++ takesData .server 1) (by decide +kernel)
  obtain ⟨q, reach', facts⟩ := Lib.exists_reach _ rest
  exact ⟨q, (reach.trans (manyOpens_reach ready _)).trans reach', facts⟩

/-- When every lookup of an id this end has allocated comes after the stream's publication, everything the peer sends
on the stream is applied to it, in order. -/
theorem opened_stream_receives_everything {windows : Role → UInt32} {p : Pair}
    (reach : Pair.Reachable windows KeepsStreams p)
    (open_ : p.Open) (ρ : Role) (r r' : Nat) (inside : r < (p.ends ρ).nslots) (inside' : r' < (p.ends ρ.other).nslots)
    (same : ((p.ends ρ.other).slots r').s.id = ((p.ends ρ).slots r).s.id) :
    ((p.ends ρ).slots r).rx <+: eventsOf ((p.ends ρ.other).slots r').tx ∧
      (p.Drained → ((p.ends ρ).slots r).rx = eventsOf ((p.ends ρ.other).slots r').tx) := by
  obtain ⟨x, inv, sim, _⟩ := frames True (fun _ _ _ both => ⟨both.1, fun _ => both.2⟩) reach open_
  rw [sim.ends] at *
  exact ⟨inv.received_prefix inside inside' same (.inr trivial), fun drained =>
    inv.received_all sim drained inside inside' same (.inr trivial)⟩

theorem opened_stream_receives_everything_after_one_write : ∃ p : Pair,
    Pair.Reachable (fun _ => 16) KeepsStreams p ∧ p.Drained ∧ ((p.ends .client).slots 0).rx = [.data [7]] ∧
    ((p.ends .client).slots 0).rx = eventsOf ((p.ends .server).slots 0).tx := by
  obtain ⟨p, reach, open_, drained, inside, inside', same, heard⟩ : ∃ p : Pair,
      Pair.Reachable (fun _ => 16) KeepsStreams p ∧ p.Open ∧ p.Drained ∧ 0 < (p.ends .client).nslots ∧
      0 < (p.ends .server).nslots ∧ ((p.ends .server).slots 0).s.id = ((p.ends .client).slots 0).s.id ∧
      ((p.ends .client).slots 0).rx = [.data [7]] :=
    Lib.exists_reach (opens .client 0 ++ takesSyn .server ++ accepts .server ++
      PairAct.run .server (.writeStart 0 [7]) :: writesChunk .server 0 ++ takesData .client 1) (by decide +kernel)
  exact ⟨p, reach, drained, heard,
    (opened_stream_receives_everything reach open_ .client 0 0 inside inside' same).2 drained⟩

/-- The acceptor answers while the opener is between its SYN and the publication of the stream: the reader loop
discards the frame, and open returns a stream that has lost a byte. -/
theorem unpublished_stream_loses_data : ∃ p : Pair, Pair.Reachable (fun _ => 16) KeepsIds p ∧ p.Open ∧ p.Drained ∧
    ((p.ends .client).slots 0).op = .published ∧ ((p.ends .server).slots 0).s.id = ((p.ends .client).slots 0).s.id ∧
    ((p.ends .server).slots 0).tx = [⟨dataHdr ((p.ends .client).slots 0).s.id 1, [7]⟩] ∧
    ((p.ends .client).slots 0).rx = [] :=
  Lib.exists_reach (PairAct.run .client .openStart :: (Act.runOpen 0 true).times 4 .client ++ takesSyn .server ++
    accepts .server ++ PairAct.run .server (.writeStart 0 [7]) :: writesChunk .server 0 ++ takesHeader .client ++
    [PairAct.run .client (.runLoop .go), .rx .client 1, .complete .client, .run .client (.openPublish 0)])
    (by decide +kernel)

/-- A close whose best-effort FIN was written is seen by the peer once nothing is in flight. -/
theorem closed_stream_seen_by_peer {windows : Role → UInt32} {p : Pair} (reach : Pair.Reachable windows KeepsStreams p)
    (open_ : p.Open) (drained : p.Drained) (ρ : Role) (r : Nat) (closed : ((p.ends ρ).slots r).cl = .done true) :
    ∃ r' < (p.ends ρ.other).nslots, ((p.ends ρ.other).slots r').s.id = ((p.ends ρ).slots r).s.id ∧
      (((p.ends ρ.other).slots r').s.state = .remoteClose ∨ ((p.ends ρ.other).slots r').s.state = .closed) := by
  obtain ⟨x, inv, sim, _⟩ := frames True (fun _ _ _ both => ⟨both.1, fun _ => both.2⟩) reach open_
  rw [sim.ends] at *
  have inside : r < (x.ends ρ).nslots := (inv ρ).inside (by simp [closed])
  have fin := ((inv ρ).sound r inside).shape.clSent (.inr closed)
  obtain ⟨r', inside', same⟩ := inv.peer sim drained inside (by rintro none; simp [none] at fin)
  refine ⟨r', inside', same, ((inv ρ.other).sound r' inside').life.finSeen ?_⟩
  have all := inv.received_all sim drained inside' (by rwa [Role.other_other])
    (by rw [Role.other_other, same]) (.inr trivial)
  rw [Role.other_other] at all
  rw [all]
  exact fin

theorem closed_stream_seen_by_peer_after_fin : ∃ p : Pair, Pair.Reachable (fun _ => 16) KeepsStreams p ∧
    p.Drained ∧ ((p.ends .client).slots 0).cl = .done true ∧ ∃ r' < (p.ends .server).nslots,
      ((p.ends .server).slots r').s.id = ((p.ends .client).slots 0).s.id ∧
      (((p.ends .server).slots r').s.state = .remoteClose ∨ ((p.ends .server).slots r').s.state = .closed) := by
  obtain ⟨p, reach, open_, drained, closed⟩ : ∃ p : Pair, Pair.Reachable (fun _ => 16) KeepsStreams p ∧ p.Open ∧
      p.Drained ∧ ((p.ends .client).slots 0).cl = .done true :=
    Lib.exists_reach (opens .client 0 ++ takesSyn .server ++ PairAct.run .client (.closeStart 0) ::
      (Act.runClose 0 true).times 6 .client ++ takesHeader .server ++ (Act.runLoop .go).times 2 .server)
      (by decide +kernel)
  exact ⟨p, reach, drained, closed, closed_stream_seen_by_peer reach open_ drained .client 0 closed⟩

/-- A writer of another stream holds `write_mu` while the close runs: the FIN is skipped, and with nothing in flight
the peer's copy is still established. -/
theorem skipped_fin_is_never_seen : ∃ p : Pair, Pair.Reachable (fun _ => 16) KeepsStreams p ∧ p.Open ∧ p.Drained ∧
    ((p.ends .client).slots 0).cl = .done false ∧ ((p.ends .server).slots 0).s.id = ((p.ends .client).slots 0).s.id ∧
    ((p.ends .server).slots 0).s.state = .established :=
  Lib.exists_reach (opens .client 0 ++ takesSyn .server ++ opens .client 1 ++ takesSyn .server ++
    PairAct.run .client (.writeStart 1 [7]) :: (Act.runWrite 1 true).times 3 .client ++
    PairAct.run .client (.closeStart 0) :: (Act.runClose 0 true).times 3 .client ++
    (Act.runWrite 1 true).times 6 .client ++ takesData .server 1) (by decide +kernel)

end Xylem.Mux
