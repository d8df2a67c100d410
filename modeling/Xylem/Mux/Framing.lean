import Xylem.Lib.Run
import Xylem.Mux.SlotStep

namespace Xylem.Mux

open List Option

/-- A session and the byte stream its peer sends: what is still to come, what an unfinished `_mux_read_full` has read,
and how many headers the reader loop has taken. -/
structure Feed where
  session : Session
  wire : List UInt8
  rbuf : List UInt8
  handled : Nat

inductive FeedAct
  | run (act : Act)
  | rx (n : Nat)
  | complete

def Feed.create (cfg : Config) (frames : List Frame) : Feed where
  session := Session.create cfg
  wire := frames.flatMap Frame.bytes
  rbuf := []
  handled := 0

/-- Every step of the session but a read of the transport. Reads fail only once the session is closed. -/
def Act.dry (closed : Bool) : Act → Bool
  | .runLoop (.bytes _) => false
  | .runLoop .fail => closed
  | _ => true

/-- The transport may cut the byte stream into reads of any size. -/
def Feed.step (cfg : Config) (x : Feed) : FeedAct → Option Feed
  | .run act =>
    if act.dry x.session.closed then
      (x.session.step cfg act).map fun (σ, _) => { x with session := σ }
    else none
  | .rx n =>
    (loopWant x.session.loop).bind fun want =>
      if 0 < n ∧ n ≤ x.wire.length ∧ x.rbuf.length + n ≤ want then
        some { x with wire := x.wire.drop n, rbuf := x.rbuf ++ x.wire.take n }
      else none
  | .complete =>
    (x.session.step cfg (.runLoop (.bytes x.rbuf))).map fun (σ, _) =>
      { session := σ
        wire := x.wire
        rbuf := []
        handled := if x.session.loop = .hdr then x.handled + 1 else x.handled }

/-- How much of the current frame's payload the reader loop has still to read. -/
def LoopPc.unread : LoopPc → Nat
  | .payload h _ => h.length.toNat
  | .dataFind h | .syn h | .chanCheck h _ | .chanPush h _ | .chanTake h _ | .chanWake h _ => h.payloadLength
  | .discard _ rem => rem.toNat
  | _ => 0

/-- `_mux_handle_data` runs for DATA frames only. -/
def LoopPc.Typed (pc : LoopPc) : Prop := ∀ h, pc = .dataFind h → h.type = muxTypeData

/-- Where the reader loop has done with a frame, or with the session. -/
def LoopPc.leaving : LoopPc → Bool
  | .top | .fin _ _ | .wakeFin _ _ | .rst _ _ | .wakeRst _ _ _ | .down | .downWait | .chanClose | .chanCloseWake
  | .finish | .exited => true
  | _ => false

variable (h : FrameHdr)

@[simp] theorem afterFin_unread (r : Nat) : (afterFin h r).unread = 0 := by
  unfold afterFin; split <;> rfl

variable (found : Option Nat)

@[simp] theorem afterPush_unread : (afterPush h found).unread = 0 := by
  unfold afterPush
  split
  · split
    · rfl
    · exact afterFin_unread h _
  · rfl

@[simp] theorem afterFin_leaving (r : Nat) : (afterFin h r).leaving = true := by
  unfold afterFin; split <;> rfl

@[simp] theorem afterPush_leaving : (afterPush h found).leaving = true := by
  unfold afterPush
  split
  · split
    · rfl
    · exact afterFin_leaving h _
  · rfl

/-- Both consume paths of `_mux_handle_data` account for the whole payload while its length fits an `int`. -/
theorem dataBody_unread {h : FrameHdr} (small : h.length.toNat < 2 ^ 31) (found : Option Nat) :
    (dataBody h found).unread = h.length.toNat := by
  unfold dataBody
  split <;> rename_i positive
  · rw [UInt32.lt_iff_toNat_lt] at positive
    cases found with
    | some r => rfl
    | none =>
      rw [toCInt_of_lt small, if_pos (by exact_mod_cast positive)]
      rfl
  · rw [UInt32.lt_iff_toNat_lt] at positive
    simp only [afterPush_unread]
    exact (Nat.eq_zero_of_not_pos positive).symm

theorem afterSyn_unread {h : FrameHdr} (small : h.payloadLength < 2 ^ 31) (found : Option Nat) :
    (afterSyn h found).unread = h.payloadLength := by
  unfold afterSyn FrameHdr.payloadLength at *
  split at small <;> rename_i type
  · simp only [type, if_true]
    exact dataBody_unread small found
  · simp only [type, if_false]
    rfl

theorem muxDispatch_unread : (muxDispatch h).unread = h.payloadLength ∧ (muxDispatch h).Typed := by
  unfold muxDispatch
  split <;> rename_i data
  · exact ⟨rfl, fun _ same => by cases same; exact data⟩
  have none : h.payloadLength = 0 := if_neg data
  split
  · split
    · exact ⟨rfl, nofun⟩
    · exact ⟨none.symm, nofun⟩
  split
  · split <;> exact ⟨none.symm, nofun⟩
  split <;> exact ⟨none.symm, nofun⟩

theorem afterPush_typed : (afterPush h found).Typed := by
  unfold afterPush afterFin
  repeat' split
  all_goals nofun

theorem dataBody_typed : (dataBody h found).Typed := by
  unfold dataBody
  split
  · repeat' split
    all_goals nofun
  · exact afterPush_typed h found

theorem afterSyn_typed : (afterSyn h found).Typed := by
  unfold afterSyn
  split
  · exact dataBody_typed h found
  · nofun

section Steps

variable {cfg : Config} {σ σ' : Session} {frames : List Frame} {x x' : Feed} {eff : Effect}

theorem LoopMove.unread (move : LoopMove cfg σ σ') (typed : σ.loop.Typed) (small : σ.loop.unread < 2 ^ 31) :
    σ'.loop.unread = σ.loop.unread ∧ σ'.loop.Typed ∧ loopWant σ.loop = none := by
  cases move with
  | @dataFind h at_ =>
    have data : h.payloadLength = h.length.toNat := if_pos (typed h at_)
    rw [at_] at small ⊢
    dsimp only
    split
    · exact ⟨rfl, nofun, rfl⟩
    · simp only [LoopPc.unread, data] at small ⊢
      exact ⟨dataBody_unread small _, dataBody_typed h _, rfl⟩
  | synKnown at_ | chanNone at_ | chanWait at_ | chanWake at_ =>
    rw [at_] at small ⊢
    exact ⟨afterSyn_unread small _, afterSyn_typed _ _, rfl⟩
  | push at_ =>
    rw [at_]
    dsimp only
    split
    · exact ⟨rfl, nofun, rfl⟩
    · exact ⟨afterPush_unread _ _, afterPush_typed _ _, rfl⟩
  | @wakePush h r _ at_ => rw [at_]; exact ⟨afterPush_unread h (some r), afterPush_typed h (some r), rfl⟩
  | fin at_ | wakeFin at_ =>
    rw [at_]
    dsimp only [afterFin]
    repeat' split
    all_goals exact ⟨rfl, nofun, rfl⟩
  | wuApply at_ =>
    rw [at_]
    dsimp only
    split <;> exact ⟨rfl, nofun, rfl⟩
  | start at_ | stop at_ | synNew at_ | chanCheck at_ | chanPush at_ | chanParked at_ | rst at_ | wakeRstRecv at_
  | wakeRstSend at_ | wakeRstEnd at_ | wuFound at_ | wuLost at_ | wakeWu at_ | downClosed at_ | down at_ | downWait at_
  | chanCloseParked at_ | chanClose at_ | chanCloseWake at_ | finish at_ =>
    rw [at_]
    exact ⟨rfl, nofun, rfl⟩

/-- Once the session is closed, a loop that has done with its frame starts no other. -/
theorem LoopMove.leaves (move : LoopMove cfg σ σ') (closed : σ.closed = true) (leaving : σ.loop.leaving = true) :
    σ'.closed = true ∧ σ'.loop.leaving = true := by
  cases move with
  | start _ open_ | synNew _ open_ => exact absurd (closed.symm.trans open_) (by decide)
  | fin =>
    refine ⟨closed, ?_⟩
    dsimp only
    split
    · rfl
    · exact afterFin_leaving _ _
  | wakeFin => exact ⟨closed, afterFin_leaving _ _⟩
  | down => exact ⟨rfl, rfl⟩
  | stop | rst | wakeRstRecv | wakeRstSend | wakeRstEnd | downClosed | downWait | chanCloseParked | chanClose
  | chanCloseWake | finish => exact ⟨closed, rfl⟩
  | dataFind at_ | synKnown at_ | chanCheck at_ | chanPush at_ | chanNone at_ | chanWait at_ | chanParked at_
  | chanWake at_ | push at_ | wakePush at_ | wuFound at_ | wuLost at_ | wuApply at_ | wakeWu at_ =>
    rw [at_] at leaving
    cases leaving

theorem Session.step_leaves {act : Act} (moved : σ.step cfg act = some (σ', eff))
    (closed : σ.closed = true) (leaving : σ.loop.leaving = true) : σ'.closed = true ∧ σ'.loop.leaving = true := by
  obtain ⟨_, move⟩ := Session.step_move moved
  refine ⟨move.stays_closed closed, ?_⟩
  by_cases loops : ∃ input, act = .runLoop input
  swap
  · rwa [move.loop_eq fun input same => loops ⟨input, same⟩]
  obtain ⟨input, rfl⟩ := loops
  cases move with
  | loop move => exact (move.leaves closed leaving).2
  | user _ move => cases move
  | wire move =>
    cases move <;> simp_all [LoopPc.leaving]

/-- The reader loop stands at a known place of the frame sequence: past `handled` headers, with `unread` bytes of the
last one's payload before the next. -/
structure Feed.Aligned (frames : List Frame) (x : Feed) : Prop where
  bytes : ∃ data : List UInt8, data.length = x.session.loop.unread ∧
    x.rbuf ++ x.wire = data ++ (frames.drop x.handled).flatMap Frame.bytes
  small : x.session.loop.unread < 2 ^ 31
  typed : x.session.loop.Typed
  held : ∀ want, loopWant x.session.loop = some want → x.rbuf.length ≤ want
  idle : loopWant x.session.loop = none → x.rbuf = []

/-- A read that failed half-way leaves the loop out of place, but only in a closed session that reads no more. -/
def Feed.Inv (frames : List Frame) (x : Feed) : Prop :=
  x.Aligned frames ∨ x.session.closed = true ∧ x.session.loop.leaving = true

theorem Feed.Aligned.create (cfg : Config) (frames : List Frame) : (Feed.create cfg frames).Aligned frames where
  bytes := ⟨[], rfl, by simp [Feed.create]⟩
  small := by simp [Feed.create, Session.create, LoopPc.unread]
  typed := nofun
  held := by simp [Feed.create]
  idle := fun _ => rfl

section

variable (aligned : x.Aligned frames)
include aligned

theorem Feed.Aligned.of_loop (same : σ'.loop = x.session.loop) : Feed.Aligned frames { x with session := σ' } where
  bytes := by rw [same]; exact aligned.bytes
  small := by rw [same]; exact aligned.small
  typed := by rw [same]; exact aligned.typed
  held := by rw [same]; exact aligned.held
  idle := by rw [same]; exact aligned.idle

theorem Feed.Aligned.silent (silent : loopWant x.session.loop = none)
    (same : σ'.loop.unread = x.session.loop.unread) (typed : σ'.loop.Typed) :
    Feed.Aligned frames { x with session := σ' } where
  bytes := by rw [same]; exact aligned.bytes
  small := by rw [same]; exact aligned.small
  typed := typed
  held := by simp [aligned.idle silent]
  idle := fun _ => aligned.idle silent

theorem Feed.Aligned.run {act : Act}
    (dry : act.dry x.session.closed = true) (moved : x.session.step cfg act = some (σ', eff)) :
    Feed.Inv frames { x with session := σ' } := by
  by_cases loops : ∃ input, act = .runLoop input
  swap
  · exact Or.inl (aligned.of_loop ((Session.step_move moved).2.loop_eq fun input same => loops ⟨input, same⟩))
  obtain ⟨input, rfl⟩ := loops
  obtain ⟨_, move⟩ := Session.step_move moved
  have small := aligned.small
  cases move with
  | loop move =>
    obtain ⟨same, typed, silent⟩ := move.unread aligned.typed small
    exact Or.inl (aligned.silent silent same typed)
  | user _ move => cases move
  | wire move =>
    cases move with
    | version | header | payload | discard => cases dry
    | failHdr | failDiscard => exact Or.inr ⟨dry, rfl⟩
    | @failPayload h r => exact Or.inr ⟨dry, afterPush_leaving h (some r)⟩
    | @junk h r bs at_ negative _ =>
      rw [at_] at small
      change h.length.toNat < 2 ^ 31 at small
      have none : h.length.toNat = 0 := by
        rw [toCInt_of_lt small] at negative
        omega
      refine Or.inl (aligned.silent ?_ ?_ nofun)
      · rw [at_, loopWant, none, toCInt_of_lt (by decide)]; rfl
      · rw [at_]; exact none.symm
    | ping at_ =>
      exact Or.inl (aligned.silent (by rw [at_]; rfl) (by rw [at_]; simp [LoopPc.unread]) (by simp [LoopPc.Typed]))
    | pong at_ => exact Or.inl (aligned.silent (by rw [at_]; rfl) (by rw [at_]; rfl) nofun)

/-- Twelve bytes read at the start of an iteration are the header of the next frame. -/
theorem Feed.Aligned.next_header (at_ : x.session.loop = .hdr) (full : x.rbuf.length = muxFrameHdrSize) :
    ∃ frame ∈ frames, x.rbuf = muxFrameEncode frame.hdr ∧
      x.wire = frame.data ++ (frames.drop (x.handled + 1)).flatMap Frame.bytes := by
  obtain ⟨data, length, bytes⟩ := aligned.bytes
  rw [at_] at length
  rw [length_eq_zero_iff.mp length, nil_append] at bytes
  rw [drop_add_one_eq_tail_drop]
  cases ahead : frames.drop x.handled with
  | nil =>
    rw [ahead, flatMap_nil, append_eq_nil_iff] at bytes
    rw [bytes.1] at full
    cases full
  | cons frame rest =>
    rw [ahead, flatMap_cons, Frame.bytes, append_assoc] at bytes
    obtain ⟨hdr, tail⟩ := append_inj bytes (by simpa using full)
    exact ⟨frame, mem_of_mem_drop (by rw [ahead]; exact mem_cons_self), hdr, tail⟩

end

theorem Feed.Aligned.complete (wellformed : ∀ frame ∈ frames, frame.Wellformed)
    (short : ∀ frame ∈ frames, frame.hdr.payloadLength < 2 ^ 31) (aligned : x.Aligned frames)
    (moved : x.session.step cfg (.runLoop (.bytes x.rbuf)) = some (σ', eff)) :
    Feed.Aligned frames ⟨σ', x.wire, [], if x.session.loop = .hdr then x.handled + 1 else x.handled⟩ := by
  obtain ⟨_, move⟩ := Session.step_move moved
  have small := aligned.small
  cases move with
  | user _ move => cases move
  | wire move =>
    cases move with
    | version at_ want bad =>
      obtain ⟨frame, member, hdr, _⟩ := aligned.next_header at_ (by rw [at_] at want; exact (Option.some.inj want).symm)
      rw [hdr, muxFrameDecode_encode] at bad
      exact absurd (wellformed frame member).1 bad
    | header at_ want good =>
      obtain ⟨frame, member, hdr, tail⟩ :=
        aligned.next_header at_ (by rw [at_] at want; exact (Option.some.inj want).symm)
      rw [hdr, muxFrameDecode_encode, if_pos at_]
      obtain ⟨unread, typed⟩ := muxDispatch_unread frame.hdr
      exact {
        bytes := ⟨frame.data, (wellformed frame member).2.trans unread.symm, tail⟩
        small := by rw [unread]; exact short frame member
        typed := typed
        held := by simp
        idle := fun _ => rfl }
    | @payload h r _ at_ want =>
      obtain ⟨data, length, bytes⟩ := aligned.bytes
      rw [at_] at small length want
      simp only [LoopPc.unread] at small length
      have full : x.rbuf.length = data.length := by
        rw [loopWant, toCInt_of_lt small] at want
        split at want
        · exact (by simpa using want.symm : x.rbuf.length = _).trans length.symm
        · cases want
      obtain ⟨_, tail⟩ := append_inj bytes full
      rw [if_neg (show ¬ x.session.loop = .hdr by rw [at_]; nofun)]
      exact {
        bytes := ⟨[], rfl, tail⟩
        small := by simp [LoopPc.unread]
        typed := nofun
        held := by simp
        idle := fun _ => rfl }
    | @discard h rem _ at_ want =>
      obtain ⟨data, length, bytes⟩ := aligned.bytes
      rw [at_] at small length want
      simp only [LoopPc.unread] at small length
      have want := Option.some.inj want
      have tail : x.wire = data.drop x.rbuf.length ++ (frames.drop x.handled).flatMap Frame.bytes := by
        have after := congrArg (List.drop x.rbuf.length) bytes
        rwa [drop_left, drop_append_of_le_length (by omega)] at after
      have next : (if rem - x.rbuf.length ≤ 0 then LoopPc.top else .discard h (rem - x.rbuf.length)).unread =
          data.length - x.rbuf.length := by
        split <;> simp only [LoopPc.unread] <;> omega
      rw [if_neg (show ¬ x.session.loop = .hdr by rw [at_]; nofun)]
      exact {
        bytes := ⟨data.drop x.rbuf.length, by rw [next, length_drop], tail⟩
        small := by rw [next]; omega
        typed := by dsimp only; split <;> nofun
        held := by simp
        idle := fun _ => rfl }

theorem Feed.Inv.step (wellformed : ∀ frame ∈ frames, frame.Wellformed)
    (short : ∀ frame ∈ frames, frame.hdr.payloadLength < 2 ^ 31) (inv : x.Inv frames) {act : FeedAct}
    (moved : x.step cfg act = some x') : x'.Inv frames := by
  cases act with
  | run act =>
    simp only [Feed.step] at moved
    split at moved <;> rename_i dry
    swap
    · cases moved
    obtain ⟨⟨σ', eff⟩, stepped, same⟩ := map_eq_some_iff.mp moved
    cases same
    rcases inv with aligned | ⟨closed, leaving⟩
    · exact aligned.run dry stepped
    · exact Or.inr (Session.step_leaves stepped closed leaving)
  | rx n =>
    simp only [Feed.step] at moved
    obtain ⟨want, asked, moved⟩ := bind_eq_some_iff.mp moved
    split at moved <;> rename_i fits <;> cases moved
    rcases inv with aligned | lost
    · refine Or.inl { aligned with bytes := ?_, held := fun want' asked' => ?_, idle := fun silent => ?_ }
      · obtain ⟨data, length, bytes⟩ := aligned.bytes
        exact ⟨data, length, by simpa using bytes⟩
      · cases asked.symm.trans asked'
        simp only [length_append, length_take]
        omega
      · cases asked.symm.trans silent
    · exact Or.inr lost
  | complete =>
    simp only [Feed.step] at moved
    obtain ⟨⟨σ', eff⟩, stepped, same⟩ := map_eq_some_iff.mp moved
    cases same
    rcases inv with aligned | ⟨closed, leaving⟩
    · exact Or.inl (aligned.complete wellformed short stepped)
    · exact Or.inr (Session.step_leaves stepped closed leaving)

end Steps

/-- As long as every DATA frame is shorter than 2^31 bytes, each iteration of the reader loop starts at the first byte
of a frame: the loop has consumed exactly the frames whose headers it has read. -/
theorem reader_loop_keeps_framing {cfg : Config} {frames : List Frame} {x : Feed}
    (wellformed : ∀ frame ∈ frames, frame.Wellformed)
    (short : ∀ frame ∈ frames, frame.hdr.type = muxTypeData → frame.hdr.length.toNat < 2 ^ 31)
    (reach : Lib.Reach (Feed.step cfg) (fun _ _ => True) (Feed.create cfg frames) x) (at_ : x.session.loop = .hdr) :
    x.rbuf ++ x.wire = (frames.drop x.handled).flatMap Frame.bytes := by
  have short : ∀ frame ∈ frames, frame.hdr.payloadLength < 2 ^ 31 := by
    intro frame member
    unfold FrameHdr.payloadLength
    split
    · exact short frame member ‹_›
    · decide
  have start : (Feed.create cfg frames).Inv frames := Or.inl (.create cfg frames)
  have inv : x.Inv frames :=
    Lib.Reach.invariant start (fun _ _ _ _ inv _ moved => Feed.Inv.step wellformed short inv moved) reach
  rcases inv with aligned | ⟨_, leaving⟩
  · obtain ⟨data, length, bytes⟩ := aligned.bytes
    rw [at_] at length
    rw [bytes, List.length_eq_zero_iff.mp length, List.nil_append]
  · rw [at_] at leaving
    cases leaving

/-- One byte for a stream nobody has opened, read in three pieces, then a PONG. -/
theorem reader_loop_keeps_framing_after_discard : ∃ x : Feed, Lib.Reach (Feed.step ⟨.server, 16⟩) (fun _ _ => True)
      (Feed.create ⟨.server, 16⟩ [⟨dataHdr 9 1, [7]⟩, ⟨pongHdr 3, []⟩]) x ∧
    x.handled = 1 ∧ x.rbuf ++ x.wire = Frame.bytes ⟨pongHdr 3, []⟩ := by
  obtain ⟨x, reach, at_, handled⟩ : ∃ x : Feed, Lib.Reach (Feed.step ⟨.server, 16⟩) (fun _ _ => True)
      (Feed.create ⟨.server, 16⟩ [⟨dataHdr 9 1, [7]⟩, ⟨pongHdr 3, []⟩]) x ∧ x.session.loop = .hdr ∧ x.handled = 1 :=
    Lib.exists_reach [.run (.runLoop .go), .rx 5, .rx 7, .complete, .run (.runLoop .go), .rx 1, .complete,
      .run (.runLoop .go)] (by decide +kernel)
  refine ⟨x, reach, handled, ?_⟩
  have framed := reader_loop_keeps_framing (by decide) (by decide) reach at_
  rw [framed, handled]
  rfl

/-- A session that has done nothing but run its reader loop to `pc`. -/
def Feed.fresh (pc : LoopPc) (wire rbuf : List UInt8) (handled : Nat) : Feed :=
  ⟨{ Session.create ⟨.server, 16⟩ with loop := pc }, wire, rbuf, handled⟩

/-- With a length of 2^31 the loop comes back to the start of an iteration right behind the header. -/
theorem Feed.skips_oversized (data : List UInt8) :
    Lib.Reach (Feed.step ⟨.server, 16⟩) (fun _ _ => True) (Feed.create ⟨.server, 16⟩ [⟨dataHdr 9 2147483648, data⟩])
      (Feed.fresh .hdr data [] 1) := by
  have wire : (Feed.create ⟨.server, 16⟩ [⟨dataHdr 9 2147483648, data⟩]).wire =
      muxFrameEncode (dataHdr 9 2147483648) ++ data := by simp [Feed.create, Frame.bytes]
  have create : Feed.create ⟨.server, 16⟩ [⟨dataHdr 9 2147483648, data⟩] =
      Feed.fresh .top (muxFrameEncode (dataHdr 9 2147483648) ++ data) [] 0 := by rw [← wire]; rfl
  have start (wire : List UInt8) (n : Nat) : Feed.step ⟨.server, 16⟩ (.fresh .top wire [] n) (.run (.runLoop .go)) =
      some (.fresh .hdr wire [] n) := rfl
  have read : Feed.step ⟨.server, 16⟩ (.fresh .hdr (muxFrameEncode (dataHdr 9 2147483648) ++ data) [] 0) (.rx 12) =
      some (.fresh .hdr data (muxFrameEncode (dataHdr 9 2147483648)) 0) := by
    have length : (muxFrameEncode (dataHdr 9 2147483648)).length = 12 := rfl
    simp [Feed.step, Feed.fresh, loopWant, muxFrameHdrSize, take_left' length, drop_left' length]
  have dispatch : Feed.step ⟨.server, 16⟩ (.fresh .hdr data (muxFrameEncode (dataHdr 9 2147483648)) 0) .complete =
      some (.fresh (.dataFind (dataHdr 9 2147483648)) data [] 1) := by
    have took : muxDispatch (dataHdr 9 2147483648) = .dataFind (dataHdr 9 2147483648) := rfl
    have version : (dataHdr 9 2147483648).version = muxProtoVersion := rfl
    simp [Feed.step, Feed.fresh, Session.step, Session.runLoop, Session.loopBytes, loopWant, took, version,
      Session.create]
  have discard : Feed.step ⟨.server, 16⟩ (.fresh (.dataFind (dataHdr 9 2147483648)) data [] 1) (.run (.runLoop .go)) =
      some (.fresh .top data [] 1) := by
    have lost : dataBody (dataHdr 9 2147483648) none = .top := by decide +kernel
    have plain : (dataHdr 9 2147483648).has muxFlagSyn = false := rfl
    simp [Feed.step, Feed.fresh, Act.dry, Session.step, Session.runLoop, Session.loopGo, Session.muxFindStream,
      lost, plain, Session.create]
  rw [create]
  exact .next (.next (.next (.next (.next .start trivial (start _ 0)) trivial read) trivial dispatch) trivial discard)
    trivial (start data 1)

/-- A DATA frame of 2^31 bytes for an unknown stream: its length is negative as an `int`, nothing is discarded, and the
next iteration takes the payload for frames. -/
theorem oversized_data_breaks_framing : ∃ frame : Frame, frame.Wellformed ∧ ∃ x : Feed,
    Lib.Reach (Feed.step ⟨.server, 16⟩) (fun _ _ => True) (Feed.create ⟨.server, 16⟩ [frame]) x ∧
      x.session.loop = .hdr ∧ x.handled = 1 ∧ x.rbuf ++ x.wire ≠ ([frame].drop x.handled).flatMap Frame.bytes := by
  obtain ⟨data, length⟩ : ∃ data : List UInt8, data.length = 2147483648 :=
    ⟨List.replicate _ 0, List.length_replicate⟩
  refine ⟨⟨dataHdr 9 2147483648, data⟩, ⟨rfl, length⟩, _, Feed.skips_oversized data, rfl, rfl, fun framed => ?_⟩
  have empty : data = [] := by simpa [Feed.fresh] using framed
  rw [empty] at length
  cases length

end Xylem.Mux
