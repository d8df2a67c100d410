import Xylem.Mux.Move
import Xylem.Mux.Session

namespace Xylem.Mux

open Option (map_eq_some_iff)
open Session

variable (cfg : Config) (σ : Session)

/-- The steps of `xylem_mux_accept_stream`. -/
inductive AcceptMove : Session → Prop
  | pop {r rest} : σ.accept = .take → σ.queue = r :: rest →
      AcceptMove { σ with queue := rest, count := σ.count - 1, accept := .got r }
  | empty : σ.accept = .take → σ.queue = [] → AcceptMove { σ with accept := .check }
  | ended : σ.accept = .check → σ.chan = .closed → AcceptMove { σ with accept := if σ.count = 0 then .idle else .take }
  | checked : σ.accept = .check → σ.chan ≠ .closed → AcceptMove { σ with accept := .cas }
  | announce : σ.accept = .cas → σ.chan = .none → AcceptMove { σ with chan := .wait, accept := .canPop }
  | refused : σ.accept = .cas → σ.chan = .closed → AcceptMove { σ with accept := .take }
  | look : σ.accept = .canPop → AcceptMove { σ with accept := if σ.queue ≠ [] then .cancel else .isClosed }
  | lookClosed : σ.accept = .isClosed → AcceptMove { σ with accept := if σ.chan = .closed then .cancel else .commit }
  | cancel : σ.accept = .cancel →
      AcceptMove { σ with chan := if σ.chan = .wait then .none else σ.chan, accept := .take }
  | park : σ.accept = .commit → σ.chan = .wait →
      AcceptMove { σ with chan := .parked, accept := .parked, acceptParks := σ.acceptParks + 1 }
  | retry : σ.accept = .commit → σ.chan ≠ .wait → AcceptMove { σ with accept := .take }
  | hand {r} : σ.accept = .got r → AcceptMove { σ.setSlot r { σ.slots r with handed := true } with accept := .idle }

variable (ok : Bool)

/-- The steps of the call of `_mux_close_session` that closes the session. -/
inductive ShutMove (σ : Session) : Session → Effect → Prop
  | count : σ.shut = .count → ShutMove σ { σ with shut := .reset 0 σ.streams.length } .none
  | reset {i n r} : σ.shut = .reset i n → i < n → σ.streams[i]? = some r →
      ShutMove σ { σ.setSlot r (σ.slots r).notifyReset.1 with
        shut := .wake i n (σ.slots r).s.recvWaiter (σ.slots r).s.sendWaiter } .none
  | resetEnd {i n} : σ.shut = .reset i n → n ≤ i → ShutMove σ { σ with shut := .goAway } .none
  | wakeRecv {i n send r slot'} : σ.shut = .wake i n true send → σ.streams[i]? = some r →
      (σ.slots r).readyRecv = some slot' →
      ShutMove σ { σ.setSlot r slot' with shut := .wake i n false send } .none
  | wakeSend {i n r slot'} : σ.shut = .wake i n false true → σ.streams[i]? = some r →
      (σ.slots r).readySend = some slot' →
      ShutMove σ { σ.setSlot r slot' with shut := .wake i n false false } .none
  | wakeEnd {i n} : σ.shut = .wake i n false false → ShutMove σ { σ with shut := .reset (i + 1) n } .none
  | lock : σ.shut = .goAway → σ.writeMu = none →
      ShutMove σ { σ with writeMu := some .shut, shut := .frame ⟨⟨goAwayHdr, []⟩, .hdr⟩ } .lock
  | skip : σ.shut = .goAway → ShutMove σ { σ with shut := .close } .none
  | frame {fw fw' eff} : σ.shut = .frame fw → fw.step false ok = some (fw', eff) →
      ShutMove σ ({ σ with shut := .frame fw' }.applyEffect .shut eff) eff
  | unlock {fw sent} : σ.shut = .frame fw → fw.pc = .unlock sent →
      ShutMove σ { σ with writeMu := none, shut := .close } .unlock
  | close : σ.shut = .close → ShutMove σ { σ with transportClosed := true, shut := .finished } .none

/-- The steps of `_mux_reader_loop` and its handlers that read nothing from the transport. -/
inductive LoopMove : Session → Prop
  | start : σ.loop = .top → σ.closed = false → LoopMove { σ with loop := .hdr }
  | stop : σ.loop = .top → σ.closed = true → LoopMove { σ with loop := .down }
  | dataFind {h} : σ.loop = .dataFind h → LoopMove { σ with
        loop := if h.has muxFlagSyn then .syn h else dataBody h (σ.muxFindStream h.streamId) }
  | synKnown {h found} : σ.loop = .syn h → (∀ r, found = some r → σ.muxFindStream h.streamId = some r) →
      LoopMove { σ with loop := afterSyn h found }
  | synNew {h} : σ.loop = .syn h → σ.closed = false → σ.muxFindStream h.streamId = none → LoopMove { { σ with
          slots := Function.update σ.slots σ.nslots (Slot.accepted h.streamId cfg.window)
          nslots := σ.nslots + 1 }.muxAddStream σ.nslots with
        loop := .chanCheck h σ.nslots }
  | chanCheck {h r} : σ.loop = .chanCheck h r → σ.chan ≠ .closed →
      LoopMove { σ with count := σ.count + 1, loop := .chanPush h r }
  | chanPush {h r} : σ.loop = .chanPush h r → LoopMove { σ with queue := σ.queue ++ [r], loop := .chanTake h r }
  | chanNone {h r} : σ.loop = .chanTake h r → σ.chan ≠ .wait → σ.chan ≠ .parked →
      LoopMove { σ with loop := afterSyn h (some r) }
  | chanWait {h r} : σ.loop = .chanTake h r → σ.chan = .wait →
      LoopMove { σ with chan := .none, loop := afterSyn h (some r) }
  | chanParked {h r} : σ.loop = .chanTake h r → σ.chan = .parked →
      LoopMove { σ with chan := .none, loop := .chanWake h r }
  | chanWake {h r} : σ.loop = .chanWake h r → σ.accept = .parked → LoopMove { σ with
        accept := .take, acceptReadies := σ.acceptReadies + 1, loop := afterSyn h (some r) }
  | push {h r bytes} : σ.loop = .push h r bytes → LoopMove { σ.setSlot r ((σ.slots r).pushData bytes).1 with
        loop := if ((σ.slots r).pushData bytes).2 then .wakePush h r else afterPush h (some r) }
  | wakePush {h r slot'} : σ.loop = .wakePush h r → (σ.slots r).readyRecv = some slot' →
      LoopMove { σ.setSlot r slot' with loop := afterPush h (some r) }
  | fin {h r} : σ.loop = .fin h r → LoopMove { σ.setSlot r (σ.slots r).notifyRemoteFin.1 with
        loop := if (σ.slots r).s.recvWaiter then .wakeFin h r else afterFin h r }
  | wakeFin {h r slot'} : σ.loop = .wakeFin h r → (σ.slots r).readyRecv = some slot' →
      LoopMove { σ.setSlot r slot' with loop := afterFin h r }
  | rst {h r} : σ.loop = .rst h r → LoopMove { σ.setSlot r (σ.slots r).notifyReset.1 with
        loop := .wakeRst r (σ.slots r).s.recvWaiter (σ.slots r).s.sendWaiter }
  | wakeRstRecv {r send slot'} : σ.loop = .wakeRst r true send → (σ.slots r).readyRecv = some slot' →
      LoopMove { σ.setSlot r slot' with loop := .wakeRst r false send }
  | wakeRstSend {r slot'} : σ.loop = .wakeRst r false true → (σ.slots r).readySend = some slot' →
      LoopMove { σ.setSlot r slot' with loop := .wakeRst r false false }
  | wakeRstEnd {r} : σ.loop = .wakeRst r false false → LoopMove { σ with loop := .top }
  | wuFound {h r} : σ.loop = .wuFind h → σ.muxFindStream h.streamId = some r → LoopMove { σ with loop := .wuApply h r }
  | wuLost {h} : σ.loop = .wuFind h → σ.muxFindStream h.streamId = none → LoopMove { σ with loop := .top }
  | wuApply {h r} : σ.loop = .wuApply h r → LoopMove { σ.setSlot r ((σ.slots r).updateSendWindow h).1 with
        loop := if (σ.slots r).s.sendWaiter then .wakeWu r else .top }
  | wakeWu {r slot'} : σ.loop = .wakeWu r → (σ.slots r).readySend = some slot' →
      LoopMove { σ.setSlot r slot' with loop := .top }
  | downClosed : σ.loop = .down → σ.closed = true → LoopMove { σ with loop := .chanClose }
  | down : σ.loop = .down → σ.closed = false → LoopMove { σ with closed := true, shut := .count, loop := .downWait }
  | downWait : σ.loop = .downWait → σ.shut = .finished → LoopMove { σ with loop := .chanClose }
  | chanCloseParked : σ.loop = .chanClose → σ.chan = .parked →
      LoopMove { σ with chan := .closed, loop := .chanCloseWake }
  | chanClose : σ.loop = .chanClose → σ.chan ≠ .parked → LoopMove { σ with chan := .closed, loop := .finish }
  | chanCloseWake : σ.loop = .chanCloseWake → σ.accept = .parked →
      LoopMove { σ with accept := .take, acceptReadies := σ.acceptReadies + 1, loop := .finish }
  | finish : σ.loop = .finish → LoopMove { σ with readerDone := true, loop := .exited }

/-- The steps of the reader loop on the transport: reads that complete or fail, and its answer to a PING. -/
inductive WireMove : Input → Session → Effect → Prop
  | version {bs} : σ.loop = .hdr → loopWant σ.loop = some bs.length → (muxFrameDecode bs).version ≠ muxProtoVersion →
      WireMove (.bytes bs) { σ with loop := .down } .none
  | header {bs} : σ.loop = .hdr → loopWant σ.loop = some bs.length → (muxFrameDecode bs).version = muxProtoVersion →
      WireMove (.bytes bs) { σ with loop := muxDispatch (muxFrameDecode bs) } .none
  | payload {h r bs} : σ.loop = .payload h r → loopWant σ.loop = some bs.length →
      WireMove (.bytes bs) { σ with loop := .push h r bs } .none
  | discard {h rem bs} : σ.loop = .discard h rem → loopWant σ.loop = some bs.length → WireMove (.bytes bs)
        { σ with loop := if rem - bs.length ≤ 0 then .top else .discard h (rem - bs.length) } .none
  | junk {h r bs} : σ.loop = .payload h r → toCInt h.length.toNat ≤ 0 → bs.length = h.length.toNat →
      WireMove (.junk bs) { σ with loop := .push h r bs } .none
  | failHdr : σ.loop = .hdr → WireMove .fail { σ with loop := .down } .none
  | failPayload {h r} : σ.loop = .payload h r → WireMove .fail { σ with loop := afterPush h (some r) } .none
  | failDiscard {h rem} : σ.loop = .discard h rem → WireMove .fail { σ with loop := .down } .none
  | ping {fw fw' eff ok} : σ.loop = .ping fw → fw.step (σ.writeMu = none) ok = some (fw', eff) →
      WireMove (.result ok) ({ σ with loop := .ping fw' }.applyEffect .loop eff) eff
  | pong {fw sent ok} : σ.loop = .ping fw → fw.pc = .unlock sent →
      WireMove (.result ok) { σ with writeMu := none, loop := .top } .unlock

inductive UserMove : Act → Session → Prop
  | openClosed : σ.closed = true → UserMove .openStart σ
  | openStart : σ.closed = false → UserMove .openStart { σ with
      nextStreamId := σ.nextStreamId + 2
      slots := Function.update σ.slots σ.nslots (Slot.opened σ.nextStreamId cfg.window)
      nslots := σ.nslots + 1
      opened := σ.opened + 1 }
  | acceptStart : σ.accept = .idle → UserMove .acceptStart { σ with accept := if σ.closed then .idle else .take }
  | readStart {r len slot'} : (σ.slots r).readStart len = some slot' → UserMove (.readStart r len) (σ.setSlot r slot')
  | writeStart {r bytes slot'} : (σ.slots r).writeStart bytes = some slot' →
      UserMove (.writeStart r bytes) (σ.setSlot r slot')
  | closeStart {r slot'} : (σ.slots r).closeStart = some slot' → UserMove (.closeStart r) (σ.setSlot r slot')
  | muxCloseAgain : σ.closed = true → UserMove .muxClose σ
  | muxClose : σ.closed = false → UserMove .muxClose { σ with closed := true, shut := .count }
  | destroyClosed : σ.isIdle → σ.closed = true → UserMove .destroyStart { σ with destroying := true }
  | destroy : σ.isIdle → σ.closed = false →
      UserMove .destroyStart { σ with closed := true, shut := .count, destroying := true }

inductive SessionMove : Act → Session → Effect → Prop
  | opener {r ok slot' eff} : OpenMove (σ.writeMu = none) ok (σ.slots r) slot' eff →
      SessionMove (.runOpen r ok) ((σ.setSlot r slot').applyEffect (.task .opener r) eff) eff
  | reader {r ok slot' eff} : ReadMove cfg.window (σ.writeMu = none) ok (σ.slots r) slot' eff →
      SessionMove (.runRead r ok) ((σ.setSlot r slot').applyEffect (.task .reader r) eff) eff
  | writer {r ok slot' eff} : WriteMove (σ.writeMu = none) ok (σ.slots r) slot' eff →
      SessionMove (.runWrite r ok) ((σ.setSlot r slot').applyEffect (.task .writer r) eff) eff
  | closer {r ok slot' eff} : CloseMove (σ.writeMu = none) ok (σ.slots r) slot' eff →
      SessionMove (.runClose r ok) ((σ.setSlot r slot').applyEffect (.task .closer r) eff) eff
  | publish {r} : (σ.slots r).op = .sent → σ.closed = false → SessionMove (.openPublish r)
        ((σ.setSlot r { (σ.slots r).ref with op := .published, handed := true }).muxAddStream r) .none
  | refuse {r} : (σ.slots r).op = .sent → σ.closed = true →
      SessionMove (.openPublish r) (σ.setSlot r { (σ.slots r).ref.unref.unref with op := .failed }) .none
  | free : σ.destroying = true → σ.shut = .finished → σ.readerDone = true → SessionMove .destroyFree σ.muxFree .none
  | accept {σ'} : AcceptMove σ σ' → SessionMove .runAccept σ' .none
  | shut {ok σ' eff} : ShutMove ok σ σ' eff → SessionMove (.runShut ok) σ' eff
  | loop {σ'} : LoopMove cfg σ σ' → SessionMove (.runLoop .go) σ' .none
  | wire {input σ' eff} : WireMove σ input σ' eff → SessionMove (.runLoop input) σ' eff
  | user {act σ'} : σ.destroying = false → UserMove cfg σ act σ' → SessionMove act σ' .none

variable {cfg : Config} {σ σ' : Session} {act : Act} {eff : Effect}

namespace Session

theorem runAccept_move (moved : σ.runAccept = some σ') : AcceptMove σ σ' := by
  unfold runAccept at moved
  split at moved <;> rename_i at_
  · split at moved <;> rename_i queue <;> cases moved
    · exact .pop at_ queue
    · exact .empty at_ queue
  · split at moved <;> rename_i chan <;> cases moved
    · exact .ended at_ chan
    · exact .checked at_ chan
  · split at moved <;> rename_i chan <;> cases moved
    · exact .announce at_ chan
    · exact .refused at_ chan
  · cases moved; exact .look at_
  · cases moved; exact .lookClosed at_
  · cases moved; exact .cancel at_
  · split at moved <;> rename_i chan <;> cases moved
    · exact .park at_ chan
    · exact .retry at_ chan
  · cases moved; exact .hand at_
  · cases moved

theorem runShut_move {ok : Bool} (moved : σ.runShut ok = some (σ', eff)) : ShutMove ok σ σ' eff := by
  unfold runShut at moved
  split at moved <;> rename_i at_
  · cases moved; exact .count at_
  · split at moved <;> rename_i more
    · split at moved <;> rename_i here <;> cases moved
      exact .reset at_ more here
    · cases moved; exact .resetEnd at_ (Nat.le_of_not_lt more)
  · obtain ⟨r, here, moved⟩ := Option.bind_eq_some_iff.mp moved
    obtain ⟨slot', woken, same⟩ := map_eq_some_iff.mp moved
    cases same
    exact .wakeRecv at_ here woken
  · obtain ⟨r, here, moved⟩ := Option.bind_eq_some_iff.mp moved
    obtain ⟨slot', woken, same⟩ := map_eq_some_iff.mp moved
    cases same
    exact .wakeSend at_ here woken
  · cases moved; exact .wakeEnd at_
  · split at moved <;> rename_i lock <;> cases moved
    · exact .lock at_ lock
    · exact .skip at_
  · split at moved <;> rename_i pc
    · cases moved; exact .unlock at_ pc
    · obtain ⟨⟨fw', eff'⟩, step, same⟩ := map_eq_some_iff.mp moved
      cases same
      exact .frame at_ step
  · cases moved; exact .close at_
  · cases moved

theorem loopGo_move (moved : σ.loopGo cfg = some σ') : LoopMove cfg σ σ' := by
  unfold loopGo at moved
  split at moved <;> rename_i at_
  case h_1 =>
    cases moved
    split
    · exact .stop at_ ‹_›
    · exact .start at_ (Bool.eq_false_iff.mpr ‹_›)
  case h_2 => cases moved; exact .dataFind at_
  case h_3 =>
    cases moved
    unfold acceptSyn
    split
    · exact .synKnown at_ nofun
    split
    · exact .synKnown at_ fun r same => same ▸ ‹_›
    · exact .synNew at_ (Bool.eq_false_iff.mpr ‹_›) ‹_›
  case h_4 => split at moved <;> rename_i chan <;> cases moved; exact .chanCheck at_ chan
  case h_5 => cases moved; exact .chanPush at_
  case h_6 =>
    split at moved <;> rename_i chan
    · cases moved; exact .chanWait at_ chan
    · cases moved; exact .chanParked at_ chan
    · cases moved; exact .chanNone at_ ‹_› chan
  case h_7 =>
    obtain ⟨_, ready, rfl⟩ := map_eq_some_iff.mp moved
    unfold readyAccept at ready
    split at ready <;> rename_i parked <;> cases ready
    exact .chanWake at_ parked
  case h_8 => cases moved; exact .push at_
  case h_9 => obtain ⟨_, woken, rfl⟩ := map_eq_some_iff.mp moved; exact .wakePush at_ woken
  case h_10 => cases moved; exact .fin at_
  case h_11 => obtain ⟨_, woken, rfl⟩ := map_eq_some_iff.mp moved; exact .wakeFin at_ woken
  case h_12 => cases moved; exact .rst at_
  case h_13 => obtain ⟨_, woken, rfl⟩ := map_eq_some_iff.mp moved; exact .wakeRstRecv at_ woken
  case h_14 => obtain ⟨_, woken, rfl⟩ := map_eq_some_iff.mp moved; exact .wakeRstSend at_ woken
  case h_15 => cases moved; exact .wakeRstEnd at_
  case h_16 =>
    cases moved
    split <;> rename_i found
    · exact .wuFound at_ found
    · exact .wuLost at_ found
  case h_17 => cases moved; exact .wuApply at_
  case h_18 => obtain ⟨_, woken, rfl⟩ := map_eq_some_iff.mp moved; exact .wakeWu at_ woken
  case h_19 =>
    split at moved <;> rename_i closed <;> cases moved
    · exact .downClosed at_ closed
    · exact .down at_ (Bool.eq_false_iff.mpr closed)
  case h_20 => split at moved <;> rename_i done <;> cases moved; exact .downWait at_ done
  case h_21 =>
    split at moved <;> rename_i chan
    · cases moved
    · cases moved; exact .chanCloseParked at_ chan
    · cases moved; exact .chanClose at_ ‹_›
  case h_22 =>
    obtain ⟨_, ready, rfl⟩ := map_eq_some_iff.mp moved
    unfold readyAccept at ready
    split at ready <;> rename_i parked <;> cases ready
    exact .chanCloseWake at_ parked
  case h_23 => cases moved; exact .finish at_
  case h_24 => cases moved

theorem runLoop_move {input : Input} (moved : σ.runLoop cfg input = some (σ', eff)) :
    SessionMove cfg σ (.runLoop input) σ' eff := by
  cases input with
  | go =>
    obtain ⟨_, went, same⟩ := map_eq_some_iff.mp moved
    cases same
    exact .loop (loopGo_move went)
  | bytes bs =>
    obtain ⟨_, took, same⟩ := map_eq_some_iff.mp moved
    cases same
    unfold loopBytes at took
    dsimp only at took
    split at took <;> rename_i want
    · split at took <;> rename_i at_
      · split at took <;> rename_i version <;> cases took
        · exact .wire (.version at_ want version)
        · exact .wire (.header at_ want (not_not.mp version))
      · cases took; exact .wire (.payload at_ want)
      · cases took; exact .wire (.discard at_ want)
      · cases took
    · cases took
  | junk bs =>
    simp only [runLoop] at moved
    split at moved <;> rename_i at_
    · split at moved <;> rename_i length <;> cases moved
      exact .wire (.junk at_ length.1 length.2)
    · cases moved
  | fail =>
    obtain ⟨_, failed, same⟩ := map_eq_some_iff.mp moved
    cases same
    unfold loopFail at failed
    split at failed <;> rename_i at_ <;> cases failed
    · exact .wire (.failHdr at_)
    · exact .wire (.failPayload at_)
    · exact .wire (.failDiscard at_)
  | result ok =>
    simp only [runLoop, loopFrame] at moved
    split at moved <;> rename_i at_
    · split at moved <;> rename_i pc
      · cases moved; exact .wire (.pong at_ pc)
      · obtain ⟨_, step, same⟩ := map_eq_some_iff.mp moved
        cases same
        exact .wire (.ping at_ step)
    · cases moved

theorem call_move (called : σ.call cfg act = some σ') : UserMove cfg σ act σ' := by
  unfold call at called
  split at called
  case h_1 =>
    cases called
    unfold openStart
    split <;> rename_i closed
    · exact .openClosed closed
    · exact .openStart (Bool.eq_false_iff.mpr closed)
  case h_2 => split at called <;> rename_i idle <;> cases called; exact .acceptStart idle
  case h_3 => obtain ⟨_, started, rfl⟩ := map_eq_some_iff.mp called; exact .readStart started
  case h_4 => obtain ⟨_, started, rfl⟩ := map_eq_some_iff.mp called; exact .writeStart started
  case h_5 => obtain ⟨_, started, rfl⟩ := map_eq_some_iff.mp called; exact .closeStart started
  case h_6 =>
    cases called
    split <;> rename_i closed
    · exact .muxCloseAgain closed
    · exact .muxClose (Bool.eq_false_iff.mpr closed)
  case h_7 =>
    split at called <;> rename_i idle <;> cases called
    dsimp only
    split <;> rename_i closed
    · exact .destroyClosed idle closed
    · exact .destroy idle (Bool.eq_false_iff.mpr closed)
  case h_8 => cases called

/-- Every step of a session is one of the listed moves, and no step is taken once the session is freed. -/
theorem step_move (moved : σ.step cfg act = some (σ', eff)) : σ.freed = false ∧ SessionMove cfg σ act σ' eff := by
  have onSlot : ∀ {r holder next}, σ.onSlot r holder next = some (σ', eff) →
      ∃ slot', next = some (slot', eff) ∧ σ' = (σ.setSlot r slot').applyEffect holder eff := by
    intro r holder next moved
    obtain ⟨⟨slot', eff'⟩, stepped, same⟩ := map_eq_some_iff.mp moved
    cases same
    exact ⟨slot', stepped, rfl⟩
  unfold step at moved
  split at moved <;> rename_i live
  · cases moved
  refine ⟨Bool.eq_false_iff.mpr live, ?_⟩
  split at moved
  case h_1 =>
    obtain ⟨_, published, same⟩ := map_eq_some_iff.mp moved
    cases same
    unfold openPublish at published
    split at published <;> rename_i at_
    · split at published <;> rename_i closed <;> cases published
      · exact .refuse at_ closed
      · exact .publish at_ (Bool.eq_false_iff.mpr closed)
    · cases published
  case h_2 => split at moved <;> rename_i ready <;> cases moved; exact .free ready.1 ready.2.1 ready.2.2
  case h_3 => obtain ⟨_, stepped, rfl⟩ := onSlot moved; exact .opener (Slot.stepOpen_move stepped)
  case h_4 => obtain ⟨_, stepped, rfl⟩ := onSlot moved; exact .reader (Slot.stepRead_move stepped)
  case h_5 => obtain ⟨_, stepped, rfl⟩ := onSlot moved; exact .writer (Slot.stepWrite_move stepped)
  case h_6 => obtain ⟨_, stepped, rfl⟩ := onSlot moved; exact .closer (Slot.stepClose_move stepped)
  case h_7 =>
    obtain ⟨_, accepted, same⟩ := map_eq_some_iff.mp moved
    cases same
    exact .accept (runAccept_move accepted)
  case h_8 => exact .shut (runShut_move moved)
  case h_9 => exact runLoop_move moved
  case h_10 =>
    split at moved <;> rename_i destroying
    · cases moved
    obtain ⟨_, called, same⟩ := map_eq_some_iff.mp moved
    cases same
    exact .user (Bool.eq_false_iff.mpr destroying) (call_move called)

end Session

end Xylem.Mux
