import Xylem.Mux.EndLoop
import Xylem.Mux.SlotStep

namespace Xylem.Mux

open Session List Function LoopPc Slot
open Option (map_eq_some_iff)
open Effect (frames)

/-- What the reader loop may find next on the wire when the peer runs this code: the SYN of a new stream, or a
frame on a stream that exists. -/
inductive NextFrame (cfg : Config) (σ : Session) (got : List Frame) : Frame → Prop
  | syn {id w} : ¬ cfg.role.Owns id → forStream id got = [] → NextFrame cfg σ got ⟨synHdr id w, []⟩
  | other {frame r} : r < σ.nslots → Sends (σ.slots r).s.id frame → NextFrame cfg σ got frame

@[simp] theorem muxDispatch_syn (id w : UInt32) : muxDispatch (synHdr id w) = .syn (synHdr id w) := by
  simp [muxDispatch, show (synHdr id w).type = muxTypeWindowUpdate from rfl, muxTypeWindowUpdate, muxTypeData]

@[simp] theorem muxDispatch_update (id w : UInt32) :
    muxDispatch (windowUpdateHdr id w) = .wuFind (windowUpdateHdr id w) := by
  simp [muxDispatch, show (windowUpdateHdr id w).type = muxTypeWindowUpdate from rfl, muxTypeWindowUpdate, muxTypeData]

@[simp] theorem muxDispatch_data (id n : UInt32) : muxDispatch (dataHdr id n) = .dataFind (dataHdr id n) := by
  simp [muxDispatch, show (dataHdr id n).type = muxTypeData from rfl]

@[simp] theorem muxDispatch_fin (id : UInt32) : muxDispatch (finHdr id) = .dataFind (finHdr id) := by
  simp [muxDispatch, show (finHdr id).type = muxTypeData from rfl]

section Steps

variable {lossless : Prop} {cfg : Config} {σ σ' : Session} {sent got : List Frame} {cur : List UInt8}

section

variable (inv : EndInv lossless cfg σ sent got cur)
include inv

variable {frame : Frame} {r : Nat} {eff : Effect}

namespace EndInv

/-- Everything but the loop's own position once the header of `frame` has been read. -/
theorem receive {pc : LoopPc} (at_ : σ.loop = .hdr)
    (loop : LoopOk σ.Knows pc frame.data) (accepting : pc.accepting = none)
    (hand : ∀ id, pc.pending frame.data id = if frame.hdr.streamId = id then frame.events else [])
    (syn : ∀ id w, pc = .syn (synHdr id w) → frame = ⟨synHdr id w, []⟩ ∧ ¬ cfg.role.Owns id ∧ forStream id got = [])
    (kind : (∃ r < σ.nslots, (σ.slots r).s.id = frame.hdr.streamId) ∨ ∃ w, pc = .syn (synHdr frame.hdr.streamId w)) :
    EndInv lossless cfg { σ with loop := pc } sent (got ++ [frame]) frame.data := by
  refine { inv with
    accepted := fun r inside op => ⟨(inv.accepted r inside op).1, by simp [(inv.accepted r inside op).2]⟩
    queued := fun r member => inv.queued r (member.imp id (Or.imp id (by simp [accepting])))
    loop := loop
    syn := fun id w here => ?_
    received := fun r inside => ?_
    unknown := fun id absent => ?_
    inHand := fun id empty => ?_ } <;> dsimp only at *
  · obtain ⟨rfl, peer, first⟩ := syn id w here
    refine ⟨peer, fun r inside same => ?_, ?_⟩
    · by_cases op : (σ.slots r).op = .accepted
      · exact (inv.accepted r inside op).2 (same ▸ first)
      · obtain ⟨k, _, own⟩ := inv.opened r inside op
        exact peer (same ▸ own ▸ cfg.role.owns_allocated k)
    · rw [forStream_append, first, nil_append]
      exact forStream_self rfl
  · have received := inv.received r inside
    rw [at_] at received
    rw [hand, forStream_append]
    by_cases same : frame.hdr.streamId = (σ.slots r).s.id
    · rw [if_pos same, forStream_self same, eventsOf_append]
      simp only [eventsOf_cons, eventsOf_nil, append_nil]
      simp only [pending, Received, append_nil] at received
      exact ⟨received.1.append_right _, fun kept => by rw [received.2 kept]⟩
    · rw [if_neg same, forStream_other same, append_nil]
      exact received
  · rw [forStream_append]
    by_cases same : frame.hdr.streamId = id
    · rcases kind with ⟨r, inside, here⟩ | ⟨w, here⟩
      · exact absurd (here.trans same) (absent r inside)
      · exact .inr ⟨w, same ▸ here⟩
    · rw [forStream_other same, append_nil]
      rcases inv.unknown id absent with none | ⟨w, here⟩
      · exact .inl none
      · rw [at_] at here; cases here
  · rw [hand, if_neg]
    intro same
    simp [forStream_self same] at empty

theorem header (at_ : σ.loop = .hdr) (next : NextFrame cfg σ got frame) :
    EndInv lossless cfg { σ with loop := muxDispatch frame.hdr } sent (got ++ [frame]) frame.data := by
  cases next with
  | @syn id w peer first =>
    rw [muxDispatch_syn]
    exact inv.receive at_ .syn rfl (by simp [pending])
      (fun id' w' same => by cases LoopPc.syn.inj same; exact ⟨rfl, peer, first⟩) (.inr ⟨w, rfl⟩)
  | @other _ r inside kind =>
    have exists_ : ∃ r < σ.nslots, (σ.slots r).s.id = frame.hdr.streamId := ⟨r, inside, kind.streamId.symm⟩
    cases kind with
    | update delta =>
      rw [muxDispatch_update]
      exact inv.receive at_ .findUpdate rfl (by simp [pending]) (by simp) (.inl exists_)
    | @data bytes nonempty small =>
      rw [muxDispatch_data]
      exact inv.receive at_ (.findData nonempty small) rfl (by simp [pending]) (by simp) (.inl exists_)
    | fin =>
      rw [muxDispatch_fin]
      exact inv.receive at_ .findFin rfl (by simp [pending]) (by simp) (.inl exists_)

theorem body {bytes rest : List UInt8} (notHdr : σ.loop ≠ .hdr)
    (front : cur = bytes ++ rest) (moved : σ.loopBytes bytes = some σ') :
    EndInv lossless cfg σ' sent got rest := by
  unfold loopBytes at moved
  split at moved <;> rename_i want
  swap
  · cases moved
  have ok := inv.loop
  generalize at_ : σ.loop = pc at ok moved want notHdr
  cases ok with
  | @payload id payload r nonempty small known =>
    cases moved
    rw [loopWant_payload nonempty small] at want
    have whole : cur.length = bytes.length := Option.some.inj want
    have none : rest = [] := length_eq_zero_iff.mp (by rw [front, length_append] at whole; omega)
    subst none
    rw [append_nil] at front
    subst front
    exact inv.setLoop (.push nonempty known) (by simp [at_]) (by simp [accepting]) (by simp [at_, pending])
      fun r inside => by simpa [at_, pending] using inv.received r inside
  | @discard h _ nonempty =>
    cases moved
    simp only [front, length_append]
    split <;> rename_i left
    · have none : rest = [] := length_eq_zero_iff.mp (by omega)
      subst none
      exact inv.setLoop .top (by simp [at_]) (by simp [accepting]) (fun _ _ => rfl)
        fun r inside => by simpa [at_, pending] using inv.received r inside
    · have some : rest ≠ [] := fun none => by simp [none] at left
      have length : ((bytes.length + rest.length : Nat) : Int) - bytes.length = rest.length := by omega
      rw [length]
      exact inv.setLoop (.discard some) (by simp [at_]) (by simp [accepting]) (fun _ _ => rfl)
        fun r inside => by simpa [at_, pending] using inv.received r inside
  | hdr => exact absurd rfl notHdr
  | _ => simp [loopWant] at want

theorem openStart (room : σ.opened < 2 ^ 31) : EndInv lossless cfg (σ.openStart cfg) sent got cur := by
  have owns : cfg.role.Owns σ.nextStreamId := inv.nextId ▸ cfg.role.owns_allocated σ.opened
  have fresh : ∀ r < σ.nslots, (σ.slots r).s.id ≠ σ.nextStreamId := by
    intro r inside same
    by_cases op : (σ.slots r).op = .accepted
    · exact (inv.accepted r inside op).1 (same ▸ owns)
    · obtain ⟨k, below, at_⟩ := inv.opened r inside op
      rw [same, inv.nextId] at at_
      have same := congrArg UInt32.toNat (add_left_cancel at_)
      simp at same
      omega
  have untouched : forStream σ.nextStreamId got = [] := by
    rcases inv.unknown _ fresh with none | ⟨w, at_⟩
    · exact none
    · exact absurd owns (inv.syn _ w at_).1
  have added := inv.addSlot (Slot.opened σ.nextStreamId cfg.window) σ.streams (σ.opened + 1) (σ.nextStreamId + 2) σ.loop
    fresh (.opened _ _) rfl (Nat.le_succ _)
    (by rw [inv.nextId, UInt32.ofNat_add]; grind)
    (fun _ => ⟨σ.opened, Nat.lt_succ_self _, inv.nextId⟩) nofun
    (by simp [Slot.opened, Slot.fresh]) (fun r => .inl) ?_
    (fun id w at_ => ⟨at_, fun same => (inv.syn id w at_).1 (same ▸ owns)⟩) (fun _ => rfl) ?_
    (fun id w at_ => .inl at_)
  · rw [Session.openStart, if_neg (by simp [inv.alive.1])]
    exact added
  · refine inv.loop.mono fun id r known => ⟨known.1, ?_⟩
    have inside := ((inv.table r).mp known.1).1
    simpa [update_of_ne (show r ≠ σ.nslots by omega)] using known.2
  · have none := inv.inHand _ untouched
    simp [Received, show (Slot.opened σ.nextStreamId cfg.window).s.id = σ.nextStreamId from rfl, untouched, none,
      show (Slot.opened σ.nextStreamId cfg.window).rx = [] from rfl]

theorem openPublish (moved : σ.openPublish r = some σ') : EndInv lossless cfg σ' sent got cur := by
  unfold Session.openPublish at moved
  split at moved <;> rename_i at_
  swap
  · cases moved
  rw [if_neg (by simp [inv.alive.1])] at moved
  cases moved
  have inside : r < σ.nslots := by
    by_contra beyond
    have unborn := inv.inert r (by omega)
    simp [unborn, Slot.unborn, Slot.fresh] at at_
  have ids : ∀ r', (Function.update σ.slots r { (σ.slots r).ref with op := .published, handed := true } r').s.id =
      (σ.slots r').s.id := by
    intro r'
    by_cases here : r' = r
    · subst here; simp [ref, muxStreamRef]
    · simp [here]
  have other : ∀ r' ≠ r, Function.update σ.slots r { (σ.slots r).ref with op := .published, handed := true } r' =
      σ.slots r' := fun r' away => update_of_ne away _ _
  refine { inv with
    inert := fun r' beyond => (other r' (by rintro rfl; exact Nat.not_lt.mpr beyond inside)).trans
      (inv.inert r' beyond)
    sound := fun r' inside' => ?_
    opened := fun r' inside' => ?_
    accepted := fun r' inside' => ?_
    unique := fun a insideA b insideB same => inv.unique a insideA b insideB
      (by simpa [muxAddStream, setSlot, ids] using same)
    table := fun r' => ?_
    queued := fun r' member => ?_
    sentBy := fun r' inside' => ?_
    sentOwner := fun frame member => ?_
    loop := inv.loop.mono fun id r' known =>
      ⟨mem_append_left _ known.1, by simpa [muxAddStream, setSlot, ids] using known.2⟩
    syn := fun id w here => ?_
    received := fun r' inside' => ?_
    unknown := fun id absent => inv.unknown id fun r' inside' => by
      simpa [muxAddStream, setSlot, ids] using absent r' inside' } <;>
    dsimp only [muxAddStream, setSlot] at *
  · by_cases here : r' = r
    · subst here; simpa using (inv.sound r' inside).publish at_
    · rw [other r' here]; exact inv.sound r' inside'
  · by_cases here : r' = r
    · subst here
      intro _
      rw [ids]
      exact inv.opened r' inside (by simp [at_])
    · rw [other r' here]; exact inv.opened r' inside'
  · by_cases here : r' = r
    · subst here; simp
    · rw [other r' here]; exact inv.accepted r' inside'
  · rw [mem_append, inv.table r', mem_singleton]
    by_cases here : r' = r
    · subst here; simp [inside]
    · rw [other r' here]; simp [here]
  · have old := inv.queued r' member
    rw [other r' (by rintro rfl; simp [at_] at old)]
    exact old
  · by_cases here : r' = r
    · subst here; rw [ids, inv.sentBy r' inside']; simp [ref]
    · rw [other r' here]; exact inv.sentBy r' inside'
  · obtain ⟨r', inside', owner⟩ := inv.sentOwner frame member
    exact ⟨r', inside', (ids r').trans owner⟩
  · obtain ⟨peer, absent, taken⟩ := inv.syn id w here
    exact ⟨peer, fun r' inside' => by rw [ids]; exact absent r' inside', taken⟩
  · by_cases here : r' = r
    · subst here
      have received := inv.received r' inside'
      rw [ids]
      simpa [Received, ref, at_] using received
    · rw [other r' here]; exact inv.received r' inside'

theorem runAccept (moved : σ.runAccept = some σ') : EndInv lossless cfg σ' sent got cur := by
  have passes : ∀ pc chan parks, (∀ r, pc ≠ .got r) →
      EndInv lossless cfg { σ with accept := pc, chan := chan, acceptParks := parks } sent got cur :=
    fun pc chan parks free => { inv with
      queued := fun r member => inv.queued r (member.imp id (Or.imp (fun here => absurd here (free r)) id)) }
  unfold Session.runAccept at moved
  split at moved <;> rename_i at_
  case h_1 =>
    split at moved <;> rename_i queue <;> cases moved
    · rename_i r rest
      refine { inv with queued := fun r' member => inv.queued r' ?_ }
      rcases member with queued | got | accepting
      · exact .inl (queue ▸ mem_cons_of_mem _ queued)
      · exact .inl (queue ▸ AcceptPc.got.inj got ▸ mem_cons_self)
      · exact .inr (.inr accepting)
    · exact passes _ _ _ (by simp)
  case h_8 r =>
    cases moved
    obtain ⟨inside, op⟩ := inv.queued r (.inr (.inl at_))
    have handed := inv.ownMove false inside (.hand op)
    simp only [frames, append_nil] at handed
    exact { handed with queued := fun r' member => handed.queued r' (member.imp id (Or.imp (by simp) id)) }
  case h_2 =>
    split at moved <;> cases moved
    · exact passes _ _ _ (by split <;> simp)
    · exact passes _ _ _ (by simp)
  case h_3 | h_7 => split at moved <;> cases moved <;> exact passes _ _ _ (by simp)
  case h_4 | h_5 =>
    cases moved
    exact passes _ _ _ (by split <;> simp)
  case h_6 =>
    cases moved
    exact passes _ _ _ (by simp)
  case h_9 => cases moved

theorem inside
    (busy : (σ.slots r).op ≠ .failed ∨ (σ.slots r).rd ≠ .idle ∨ (σ.slots r).wr ≠ .idle ∨ (σ.slots r).cl ≠ .idle ∨
      (σ.slots r).handed = true) : r < σ.nslots := by
  by_contra beyond
  simp [inv.inert r (by omega), unborn, Slot.fresh] at busy

theorem onSlot {holder : Holder} {next : Option (Slot × Effect)} (moved : σ.onSlot r holder next = some (σ', eff))
    (move : ∀ slot', next = some (slot', eff) →
      r < σ.nslots ∧ ∃ free, OwnMove cfg.window free true (σ.slots r) slot' eff) :
    EndInv lossless cfg σ' (sent ++ eff.frames) got cur := by
  obtain ⟨⟨slot', eff'⟩, stepped, same⟩ := map_eq_some_iff.mp moved
  cases same
  obtain ⟨inside, free, own⟩ := move slot' stepped
  have next := inv.ownMove free inside own
  cases eff <;> exact { next with }

theorem step {act : Act} (moved : σ.step cfg act = some (σ', eff)) (reliable : act.reliable = true) (stays : act.Stays)
    (room : act = .openStart → σ.opened < 2 ^ 31) (lookup : lossless → act = .runLoop .go → σ.LooksUpPublished)
    (dry : ∀ bytes, act ≠ .runLoop (.bytes bytes)) : EndInv lossless cfg σ' (sent ++ eff.frames) got cur := by
  unfold Session.step at moved
  split at moved
  · cases moved
  split at moved
  case h_1 r =>
    obtain ⟨_, published, same⟩ := map_eq_some_iff.mp moved
    cases same
    simpa [frames] using inv.openPublish published
  case h_2 => simp [inv.alive.2] at moved
  case h_3 r ok =>
    cases (reliable : ok = true)
    refine inv.onSlot moved fun slot' stepped => ?_
    have move := stepOpen_move stepped
    exact ⟨inv.inside (.inl (by cases move <;> simp [*])), _, .opening move⟩
  case h_4 r ok =>
    cases (reliable : ok = true)
    refine inv.onSlot moved fun slot' stepped => ?_
    have move := stepRead_move stepped
    exact ⟨inv.inside (.inr (.inl (by cases move <;> simp [*]))), _, .read move⟩
  case h_5 r ok =>
    cases (reliable : ok = true)
    refine inv.onSlot moved fun slot' stepped => ?_
    have move := stepWrite_move stepped
    exact ⟨inv.inside (.inr (.inr (.inl (by cases move <;> simp [*])))), _, .write move⟩
  case h_6 r ok =>
    cases (reliable : ok = true)
    refine inv.onSlot moved fun slot' stepped => ?_
    have move := stepClose_move stepped
    exact ⟨inv.inside (.inr (.inr (.inr (.inl (by cases move <;> simp [*]))))), _, .close move⟩
  case h_7 =>
    obtain ⟨_, accepted, same⟩ := map_eq_some_iff.mp moved
    cases same
    simpa [frames] using inv.runAccept accepted
  case h_8 ok => simp [runShut, inv.alive.2] at moved
  case h_9 input =>
    cases input with
    | go =>
      obtain ⟨_, went, same⟩ := map_eq_some_iff.mp moved
      cases same
      simpa [frames] using inv.loopGo (fun whole => lookup whole rfl) went
    | bytes bs => exact absurd rfl (dry bs)
    | junk bs => cases reliable
    | fail => cases reliable
    | result ok =>
      have ok' := inv.loop
      simp only [runLoop, loopFrame] at moved
      split at moved <;> rename_i at_
      · rw [at_] at ok'
        cases ok'
      · cases moved
  case h_10 =>
    split at moved
    · cases moved
    obtain ⟨_, called, same⟩ := map_eq_some_iff.mp moved
    cases same
    simp only [frames, append_nil]
    unfold Session.call at called
    split at called
    case h_1 => cases called; exact inv.openStart (room rfl)
    case h_2 =>
      split at called <;> cases called
      refine { inv with queued := fun r' member => inv.queued r' (member.imp id (Or.imp ?_ id)) }
      dsimp only
      split <;> simp
    case h_3 =>
      obtain ⟨slot', started, rfl⟩ := map_eq_some_iff.mp called
      have inside := inv.inside (.inr (.inr (.inr (.inr (readStart_some started).1.1))))
      simpa [frames] using inv.ownMove false inside (.readStart _ started)
    case h_4 =>
      obtain ⟨slot', started, rfl⟩ := map_eq_some_iff.mp called
      have inside := inv.inside (.inr (.inr (.inr (.inr (writeStart_some started).1.1))))
      simpa [frames] using inv.ownMove false inside (.writeStart _ started)
    case h_5 =>
      obtain ⟨slot', started, rfl⟩ := map_eq_some_iff.mp called
      have inside := inv.inside (.inr (.inr (.inr (.inr (closeStart_some started).1))))
      simpa [frames] using inv.ownMove false inside (.closeStart started)
    case h_6 | h_7 => exact stays.elim
    case h_8 => cases called

end EndInv

end

end Steps

end Xylem.Mux
