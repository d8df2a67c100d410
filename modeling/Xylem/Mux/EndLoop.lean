import Xylem.Mux.End

namespace Xylem.Mux

open LoopPc List Option

def LoopPc.lookup : LoopPc → Option UInt32
  | .dataFind h | .wuFind h => some h.streamId
  | _ => none

/-- The condition under which the reader loop drops no frame: whenever it looks up an id that this end has
allocated, the stream is in the table already. -/
def Session.LooksUpPublished (σ : Session) : Prop :=
  ∀ id ∈ σ.loop.lookup, ∀ r < σ.nslots, (σ.slots r).s.id = id → (σ.slots r).op = .accepted ∨ (σ.slots r).op = .published

instance (σ : Session) : Decidable σ.LooksUpPublished :=
  Option.decidableForallMem (p := fun id => ∀ r < σ.nslots, (σ.slots r).s.id = id →
    (σ.slots r).op = .accepted ∨ (σ.slots r).op = .published) σ.loop.lookup

variable {lossless : Prop} {all hand : List Event} {id : UInt32} {bytes cur : List UInt8}
  {known : UInt32 → Nat → Prop}

theorem Received.drop {slot : Slot} (received : Received lossless slot hand all)
    (lost : ¬ (slot.op = .accepted ∨ lossless)) : Received lossless slot [] all :=
  ⟨(List.Sublist.append_left (nil_sublist hand) slot.rx).trans received.1, fun kept => absurd kept lost⟩

theorem Received.apply {slot slot' : Slot} {event : Event} (received : Received lossless slot (event :: hand) all)
    (move : PeerMove slot slot' event) :
    Received lossless slot' hand all := by
  unfold Received
  rw [move.histories.2, append_assoc, move.key.accepted]
  exact received

@[simp] theorem afterPush_data (id length : UInt32) (found : Option Nat) :
    afterPush (dataHdr id length) found = .top := by
  cases found <;> simp [afterPush, afterFin]

@[simp] theorem afterFin_fin (id : UInt32) (r : Nat) : afterFin (finHdr id) r = .top := by
  simp [afterFin]

@[simp] theorem afterSyn_syn (id w : UInt32) (found : Option Nat) :
    afterSyn (synHdr id w) found = .wuFind (synHdr id w) := by
  simp [afterSyn, show (synHdr id w).type = muxTypeWindowUpdate from rfl, muxTypeWindowUpdate, muxTypeData]

theorem toCInt_small {n : Nat} (small : n ≤ muxMaxFramePayload) : (UInt32.ofNat n).toNat = n ∧ toCInt n = n := by
  unfold muxMaxFramePayload at small
  exact ⟨UInt32.toNat_ofNat_of_lt' (show n < 4294967296 by omega), toCInt_of_lt (by omega)⟩

theorem loopWant_payload {r : Nat} (nonempty : bytes ≠ []) (small : bytes.length ≤ muxMaxFramePayload) :
    loopWant (.payload (dataHdr id (UInt32.ofNat bytes.length)) r) = some bytes.length := by
  have positive : 0 < bytes.length := length_pos_iff.mpr nonempty
  obtain ⟨length, cInt⟩ := toCInt_small small
  simp only [loopWant, dataHdr, length, cInt]
  simp [positive]

theorem LoopOk.hdr_cur (ok : LoopOk known .hdr cur) : cur = [] := by
  cases ok; rfl

theorem LoopOk.want_le {pc : LoopPc} (ok : LoopOk known pc cur) (notHdr : pc ≠ .hdr) {n : Nat}
    (want : loopWant pc = some n) : n ≤ cur.length := by
  cases ok with
  | hdr => exact absurd rfl notHdr
  | payload nonempty small =>
    rw [loopWant_payload nonempty small] at want
    exact (Option.some.inj want).ge
  | discard =>
    simp only [loopWant, Int.toNat_natCast, Option.some.injEq] at want
    omega
  | _ => simp [loopWant] at want

theorem dataBody_data (nonempty : bytes ≠ []) (small : bytes.length ≤ muxMaxFramePayload) (found : Option Nat) :
    dataBody (dataHdr id (UInt32.ofNat bytes.length)) found =
      match found with
      | some r => .payload (dataHdr id (UInt32.ofNat bytes.length)) r
      | none => .discard (dataHdr id (UInt32.ofNat bytes.length)) bytes.length := by
  have positive : 0 < bytes.length := length_pos_iff.mpr nonempty
  obtain ⟨same, cInt⟩ := toCInt_small small
  have length : 0 < UInt32.ofNat bytes.length := by
    rw [UInt32.lt_iff_toNat_lt, same]
    exact positive
  cases found <;> simp only [dataBody, dataHdr, length, same, cInt, if_true]
  simp [positive]

theorem dataBody_fin (id : UInt32) (found : Option Nat) : dataBody (finHdr id) found = match found with
      | some r => .fin (finHdr id) r
      | none => .top := by
  cases found <;> simp [dataBody, show (finHdr id).length = 0 from rfl, afterPush]

section Steps

variable {lossless : Prop} {cfg : Config} {σ σ' : Session} {sent got : List Frame} {cur : List UInt8} {h : FrameHdr}
  {r : Nat} {id : UInt32} {slot' : Slot} {pc : LoopPc}

section

variable (inv : EndInv lossless cfg σ sent got cur)
include inv

namespace EndInv

theorem lost (inside : r < σ.nslots)
    (at_ : σ.loop = .dataFind h ∨ σ.loop = .wuFind h) (lookup : lossless → σ.LooksUpPublished)
    (same : (σ.slots r).s.id = h.streamId) (missing : σ.muxFindStream h.streamId = none) :
    ¬ ((σ.slots r).op = .accepted ∨ lossless) := by
  intro kept
  have inTable : (σ.slots r).op = .accepted ∨ (σ.slots r).op = .published :=
    kept.elim .inl fun whole => lookup whole h.streamId (by rcases at_ with at_ | at_ <;> rw [at_] <;> rfl) r inside same
  have found := inv.find_some ⟨(inv.table r).mpr ⟨inside, inTable⟩, same⟩
  rw [missing] at found
  cases found

theorem peerMove {event : Event} (known : σ.Knows id r)
    (move : PeerMove (σ.slots r) slot' event) (loop : LoopOk σ.Knows pc [])
    (plain : pc.accepting = none ∧ ∀ id w, pc ≠ .syn (synHdr id w)) (before : ∀ id w, σ.loop ≠ .syn (synHdr id w))
    (hand : ∀ id', σ.loop.pending cur id' = (if id = id' then [event] else []) ++ pc.pending [] id') :
    EndInv lossless cfg { σ.setSlot r slot' with loop := pc } sent got [] := by
  have inside := ((inv.table r).mp known.1).1
  have moved := inv.moveSlot [] inside (move.sound (inv.sound r inside)) move.key
    (by rw [move.histories.1, append_nil]) loop
    (fun id w => ⟨fun at_ => absurd at_ (plain.2 id w), fun at_ => absurd at_ (before id w)⟩)
    (fun r' at_ => by simp [plain.1] at at_)
    (fun id' other => by simp [hand, show id ≠ id' from fun same => other (same ▸ known.2.symm)]) ?_
  · rwa [append_nil] at moved
  · have received := inv.received r inside
    rw [hand, if_pos known.2.symm] at received
    exact received.apply move

theorem wake (known : σ.Knows id r)
    (move : OwnMove cfg.window true true (σ.slots r) slot' .none) (before : ∀ id w, σ.loop ≠ .syn (synHdr id w))
    (hand : ∀ id', σ.loop.pending cur id' = []) :
    EndInv lossless cfg { σ.setSlot r slot' with loop := .top } sent got [] := by
  have inside := ((inv.table r).mp known.1).1
  have moved := inv.moveSlot [] inside (OwnMove.sound (inv.sound r inside) move) move.key move.histories.2 .top
    (fun id w => ⟨nofun, fun at_ => absurd at_ (before id w)⟩) nofun (fun id' _ => (hand id').symm) ?_
  · rwa [append_nil] at moved
  · have received := inv.received r inside
    rw [hand] at received
    simpa [Received, move.histories.1, move.key.accepted, pending] using received

theorem found (loop : LoopOk σ.Knows pc cur)
    (plain : pc.accepting = none ∧ ∀ id w, pc ≠ .syn (synHdr id w)) (before : ∀ id w, σ.loop ≠ .syn (synHdr id w))
    (hand : ∀ id, pc.pending cur id = σ.loop.pending cur id) :
    EndInv lossless cfg { σ with loop := pc } sent got cur :=
  inv.setLoop loop (fun id w => ⟨fun at_ => absurd at_ (plain.2 id w), fun at_ => absurd at_ (before id w)⟩)
    (fun r' at_ => by simp [plain.1] at at_) (fun id none => (hand id).trans none)
    fun r inside => by rw [hand]; exact inv.received r inside

theorem dropped (at_ : σ.loop = .dataFind h ∨ σ.loop = .wuFind h)
    (lookup : lossless → σ.LooksUpPublished) (missing : σ.muxFindStream h.streamId = none)
    (loop : LoopOk σ.Knows pc cur) (plain : pc.accepting = none ∧ ∀ id w, pc ≠ .syn (synHdr id w))
    (hand : ∀ id, pc.pending cur id = []) :
    EndInv lossless cfg { σ with loop := pc } sent got cur := by
  refine inv.setLoop loop (fun id w => ⟨fun same => absurd same (plain.2 id w), fun same => ?_⟩)
    (fun r' same => by simp [plain.1] at same) (fun id _ => hand id) fun r inside => ?_
  · rcases at_ with at_ | at_ <;> simp [at_] at same
  · have received := inv.received r inside
    rw [hand]
    by_cases same : h.streamId = (σ.slots r).s.id
    · exact received.drop (inv.lost inside at_ lookup same.symm missing)
    · have none : σ.loop.pending cur (σ.slots r).s.id = [] := by
        rcases at_ with at_ | at_ <;> simp [at_, pending, same]
      rwa [none] at received

theorem acceptSyn {id w : UInt32} (at_ : σ.loop = .syn (synHdr id w)) :
    EndInv lossless cfg (σ.acceptSyn cfg (synHdr id w)) sent got cur := by
  obtain ⟨peer, absent, taken⟩ := inv.syn id w at_
  have missing : σ.muxFindStream id = none := by
    cases found : σ.muxFindStream id with
    | none => rfl
    | some r =>
      obtain ⟨member, same⟩ := Session.knows_of_find found
      exact absurd same (absent r ((inv.table r).mp member).1)
  have empty : cur = [] := by
    have ok := inv.loop
    rw [at_] at ok
    cases ok; rfl
  have added := inv.addSlot (Slot.accepted id cfg.window) (σ.streams ++ [σ.nslots]) σ.opened σ.nextStreamId
    (.chanCheck (synHdr id w) σ.nslots) absent (.accepted id cfg.window) rfl (Nat.le_refl _) inv.nextId
    (fun other => absurd rfl other) (fun _ => ⟨peer, by simp [show (Slot.accepted id cfg.window).s.id = id from rfl, taken]⟩)
    (by simp [Slot.accepted, Slot.fresh]) (fun r same => .inr ⟨(Option.some.inj same).symm, rfl⟩)
    (by rw [empty]; exact .chanCheck ⟨by simp, by simp [show (Slot.accepted id cfg.window).s.id = id from rfl]⟩)
    nofun (fun id' => by simp [at_, pending]) ?_ ?_
  · rw [Session.acceptSyn, if_neg (by simp [inv.alive.1])]
    simp only [synHdr_streamId, missing]
    exact { added with }
  · simp [Received, show (Slot.accepted id cfg.window).s.id = id from rfl,
      show (Slot.accepted id cfg.window).rx = [] from rfl, pending, taken]
  · intro id' w' same
    rw [at_] at same
    exact .inr (congrArg FrameHdr.streamId (syn.inj same)).symm

theorem loopGo (lookup : lossless → σ.LooksUpPublished)
    (moved : σ.loopGo cfg = some σ') : EndInv lossless cfg σ' sent got cur := by
  have ok := inv.loop
  generalize at_ : σ.loop = pc at ok
  cases ok with
  | hdr | payload | discard => simp [Session.loopGo, at_] at moved
  | top =>
    simp only [Session.loopGo, at_, if_neg (show ¬ σ.closed = true by simp [inv.alive.1])] at moved
    cases moved
    exact inv.found .hdr ⟨rfl, by simp⟩ (by simp [at_]) (by simp [at_, pending])
  | @findData id bytes nonempty small =>
    simp only [Session.loopGo, at_, dataHdr_has, Bool.false_eq_true, if_false, dataHdr_streamId,
      dataBody_data nonempty small] at moved
    cases moved
    split <;> rename_i look
    · exact inv.found (.payload nonempty small (Session.knows_of_find look)) ⟨rfl, by simp⟩ (by simp [at_])
        (by simp [at_, pending])
    · exact inv.dropped (.inl at_) lookup look (.discard nonempty) ⟨rfl, by simp⟩ fun _ => rfl
  | @findFin id =>
    simp only [Session.loopGo, at_, finHdr_has_syn, Bool.false_eq_true, if_false, finHdr_streamId, dataBody_fin] at moved
    cases moved
    split <;> rename_i look
    · exact inv.found (.fin (Session.knows_of_find look)) ⟨rfl, by simp⟩ (by simp [at_]) (by simp [at_, pending])
    · exact inv.dropped (.inl at_) lookup look .top ⟨rfl, by simp⟩ fun _ => rfl
  | @push id n bytes r nonempty known =>
    simp only [Session.loopGo, at_, afterPush_data] at moved
    cases moved
    split <;> refine inv.peerMove known (.push bytes) ?_ ⟨rfl, by simp⟩ (by simp [at_])
      fun id' => by simp [at_, pending, events_data _ _ nonempty]
    · exact .wakePush known
    · exact .top
  | @fin id r known =>
    simp only [Session.loopGo, at_, afterFin_fin] at moved
    cases moved
    split <;> refine inv.peerMove known .fin ?_ ⟨rfl, by simp⟩ (by simp [at_]) fun id' => by simp [at_, pending]
    · exact .wakeFin known
    · exact .top
  | wakePush known | wakeFin known =>
    simp only [Session.loopGo, at_, afterPush_data, afterFin_fin] at moved
    obtain ⟨slot', woken, rfl⟩ := map_eq_some_iff.mp moved
    exact inv.wake known (.wakeRecv woken) (by simp [at_]) (by simp [at_, pending])
  | @syn id w =>
    simp only [Session.loopGo, at_] at moved
    cases moved
    exact inv.acceptSyn at_
  | @chanCheck id w r known =>
    simp only [Session.loopGo, at_] at moved
    split at moved <;> cases moved
    have next := inv.setLoop (.chanPush known) (by simp [at_]) (by simp [at_, accepting])
      (by simp [at_, pending]) fun r inside => by simpa [at_, pending] using inv.received r inside
    exact { next with }
  | @chanPush id w r known =>
    simp only [Session.loopGo, at_] at moved
    cases moved
    have next := inv.setLoop (.chanTake known) (by simp [at_]) (by simp [at_, accepting])
      (by simp [at_, pending]) fun r inside => by simpa [at_, pending] using inv.received r inside
    refine { next with queued := fun r' member => ?_ }
    rcases member with queued | other
    · rcases mem_append.mp queued with queued | here
      · exact inv.queued r' (.inl queued)
      · exact inv.queued r' (.inr (.inr (by simp [at_, accepting, mem_singleton.mp here])))
    · exact next.queued r' (.inr other)
  | @chanTake id w r known =>
    have next := inv.found (.findSyn (w := w) known) ⟨rfl, by simp⟩ (by simp [at_]) (by simp [at_, pending])
    have wake := inv.setLoop (.chanWake (w := w) known) (by simp [at_]) (by simp [at_, accepting])
      (by simp [at_, pending]) fun r inside => by simpa [at_, pending] using inv.received r inside
    simp only [Session.loopGo, at_, afterSyn_syn] at moved
    split at moved <;> cases moved
    · exact { next with }
    · exact { wake with }
    · exact { next with }
  | @chanWake _ w r known =>
    have next := inv.found (.findSyn (w := w) known) ⟨rfl, by simp⟩ (by simp [at_]) (by simp [at_, pending])
    simp only [Session.loopGo, at_, afterSyn_syn] at moved
    obtain ⟨σ₁, ready, rfl⟩ := map_eq_some_iff.mp moved
    unfold Session.readyAccept at ready
    split at ready <;> cases ready
    exact { next with queued := fun r' member => next.queued r' (member.imp id (Or.imp (by simp) id)) }
  | @findUpdate id w =>
    simp only [Session.loopGo, at_, windowUpdateHdr_streamId] at moved
    cases moved
    split <;> rename_i look
    · exact inv.found (.update (Session.knows_of_find look)) ⟨rfl, by simp⟩ (by simp [at_])
        (by simp [at_, pending])
    · exact inv.dropped (.inr at_) lookup look .top ⟨rfl, by simp⟩ fun _ => rfl
  | @findSyn id w r known =>
    simp only [Session.loopGo, at_, synHdr_streamId, inv.find_some known] at moved
    cases moved
    exact inv.found (.grant known) ⟨rfl, by simp⟩ (by simp [at_]) (by simp [at_, pending])
  | @update id w r known | @grant id w r known =>
    simp only [Session.loopGo, at_] at moved
    cases moved
    split
    · exact inv.peerMove known (.update _) (.wakeUpdate known) ⟨rfl, by simp⟩ (by simp [at_])
        fun id' => by simp [at_, pending]
    · exact inv.peerMove known (.update _) .top ⟨rfl, by simp⟩ (by simp [at_])
        fun id' => by simp [at_, pending]
  | @wakeUpdate id r known =>
    simp only [Session.loopGo, at_] at moved
    obtain ⟨slot', woken, rfl⟩ := map_eq_some_iff.mp moved
    exact inv.wake known (.wakeSend woken) (by simp [at_]) (by simp [at_, pending])

end EndInv

end

end Steps

end Xylem.Mux
