import Xylem.Mux.Resets

namespace Xylem.Mux

open Slot Function Session

def ReadPc.isParked : ReadPc → Bool
  | .parked _ => true
  | _ => false

def WritePc.isParked : WritePc → Bool
  | .parked _ => true
  | _ => false

@[simp] def Slot.isParked (slot : Slot) : Side → Bool
  | .recv => slot.rd.isParked
  | .send => slot.wr.isParked

@[simp] def Slot.parks (slot : Slot) : Side → Nat
  | .recv => slot.rdParks
  | .send => slot.wrParks

@[simp] def Slot.readies (slot : Slot) : Side → Nat
  | .recv => slot.rdReadies
  | .send => slot.wrReadies

/-- The coroutines that someone who took a pair of waiters off a stream has still to make ready. -/
@[simp] def detached (recv send : Bool) : Side → Nat
  | .recv => recv.toNat
  | .send => send.toNat

def detachedFrom (r : Nat) (recv send : Bool) (side : Side) (r' : Nat) : Nat :=
  if r' = r then detached recv send side else 0

def ClosePc.detached : ClosePc → Side → Nat
  | .wake recv send => Mux.detached recv send
  | _ => fun _ => 0

def LoopPc.detached : LoopPc → Side → Nat → Nat
  | .wakePush _ r | .wakeFin _ r => detachedFrom r true false
  | .wakeWu r => detachedFrom r false true
  | .wakeRst r recv send => detachedFrom r recv send
  | _ => fun _ _ => 0

def ShutPc.detached (streams : List Nat) : ShutPc → Side → Nat → Nat
  | .wake i _ recv send =>
    match streams[i]? with
    | some r => detachedFrom r recv send
    | none => fun _ _ => 0
  | _ => fun _ _ => 0

def Slot.holders (slot : Slot) (side : Side) : Nat := (slot.waiter side).toNat + slot.cl.detached side

/-- How many places hold the reader or the writer of a stream in order to make it ready: the waiter field of the
stream, a call of close, the reader loop and the closer of the session. -/
def Session.holders (σ : Session) (side : Side) (r : Nat) : Nat :=
  (σ.slots r).holders side + (σ.loop.detached side r + σ.shut.detached σ.streams side r)

/-- A parked coroutine is held in exactly one place, any other in none. -/
def Session.Held (σ : Session) : Prop := ∀ side r, σ.holders side r = ((σ.slots r).isParked side).toNat

theorem detachedFrom_none (r : Nat) : detachedFrom r false false = fun _ _ => 0 := by
  funext side r'
  unfold detachedFrom
  split <;> cases side <;> rfl

section Slots

variable {window : UInt32} {free ok : Bool} {slot slot' : Slot} {eff : Effect}

/-- A step that makes the coroutines in `taken` ready and takes those in `given` off the stream. Within the stream a
coroutine may park itself, or be made ready by a call of close. -/
structure Slot.Passes (slot slot' : Slot) (taken given : Side → Nat) : Prop where
  holders : ∀ side, slot'.holders side + given side + (slot.isParked side).toNat =
    slot.holders side + taken side + (slot'.isParked side).toNat
  parks : ∀ side, slot'.parks side + slot.readies side + (slot.isParked side).toNat =
    slot.parks side + slot'.readies side + (slot'.isParked side).toNat

/-- A step that is not about waiters outside the stream. -/
abbrev Slot.Keeps (slot slot' : Slot) : Prop := slot.Passes slot' (fun _ => 0) fun _ => 0

theorem Slot.Keeps.of_eq (holders : slot'.holders = slot.holders) (parked : slot'.isParked = slot.isParked)
    (parks : slot'.parks = slot.parks) (readies : slot'.readies = slot.readies) : slot.Keeps slot' :=
  ⟨fun side => by rw [holders, parked], fun side => by rw [parks, readies, parked]⟩

theorem Slot.Keeps.of_fresh {s : Stream} {op : OpenPc} (unborn : slot = Slot.unborn) (recv : s.recvWaiter = false)
    (send : s.sendWaiter = false) : slot.Keeps (Slot.fresh s op) := by
  subst unborn
  constructor <;> rintro ⟨⟩ <;> simp [Slot.holders, Slot.unborn, Slot.fresh, muxStreamCreate, recv, send]

theorem OpenMove.keeps (move : OpenMove free ok slot slot' eff) : slot.Keeps slot' := by
  cases move <;> exact .of_eq rfl rfl rfl rfl

theorem ReadMove.keeps (move : ReadMove window free ok slot slot' eff) : slot.Keeps slot' := by
  constructor <;> rintro ⟨⟩ <;> cases move <;>
    simp_all [Slot.holders, ReadPc.isParked, unref, muxStreamUnref]
  all_goals omega

theorem writeNext_isParked (rest : List UInt8) : (writeNext rest).isParked = false := by
  unfold writeNext; split <;> rfl

theorem WriteMove.keeps (move : WriteMove free ok slot slot' eff) : slot.Keeps slot' := by
  cases move with
  | @unlock rest fw sent at_ =>
    constructor <;> rintro ⟨⟩ <;> cases sent <;>
      simp_all [Slot.holders, WritePc.isParked]
  | deduct at_ =>
    have parked : slot.wr.isParked = false := by rw [at_]; rfl
    constructor <;> rintro ⟨⟩ <;>
      simp_all [Slot.holders, writeNext_isParked]
  | _ =>
    constructor <;> rintro ⟨⟩ <;>
      simp_all [Slot.holders, WritePc.isParked, unref, muxStreamUnref]
    all_goals omega

theorem CloseMove.keeps (move : CloseMove free ok slot slot' eff) : slot.Keeps slot' := by
  constructor <;> rintro ⟨⟩ <;> cases move <;>
    simp_all [Slot.holders, ReadPc.isParked, WritePc.isParked, unref, muxStreamUnref, ClosePc.detached, muxCloseState]
  all_goals omega

namespace Slot

theorem readStart_keeps {len : Int} (started : slot.readStart len = some slot') : slot.Keeps slot' := by
  obtain ⟨⟨_, idle, _⟩, rfl⟩ := readStart_some started
  constructor <;> rintro ⟨⟩ <;>
    simp [Slot.holders, ReadPc.isParked, Slot.ref, muxStreamRef, idle]

theorem writeStart_keeps {bytes : List UInt8} (started : slot.writeStart bytes = some slot') : slot.Keeps slot' := by
  obtain ⟨⟨_, idle, _⟩, rfl⟩ := writeStart_some started
  constructor <;> rintro ⟨⟩ <;>
    simp [Slot.holders, WritePc.isParked, Slot.ref, muxStreamRef, idle]

theorem closeStart_keeps (closer : slot.cl ≠ .idle → slot.s.closed = true)
    (started : slot.closeStart = some slot') : slot.Keeps slot' := by
  obtain ⟨_, ⟨_, rfl⟩ | ⟨open_, rfl⟩⟩ := closeStart_some started
  · exact .of_eq rfl rfl rfl rfl
  · have idle : slot.cl = .idle := by
      by_contra busy
      exact absurd ((closer busy).symm.trans open_) (by decide)
    constructor <;> rintro ⟨⟩ <;>
      simp [Slot.holders, ClosePc.detached, idle]

theorem readyRecv_passes (send : Bool) (woken : slot.readyRecv = some slot') :
    slot.Passes slot' (detached true send) (detached false send) := by
  obtain ⟨_, parked, rfl⟩ := readyRecv_some woken
  constructor <;> rintro ⟨⟩ <;>
    simp [Slot.holders, ReadPc.isParked, parked]
  all_goals omega

theorem readySend_passes (recv : Bool) (woken : slot.readySend = some slot') :
    slot.Passes slot' (detached recv true) (detached recv false) := by
  obtain ⟨_, parked, rfl⟩ := readySend_some woken
  constructor <;> rintro ⟨⟩ <;>
    simp [Slot.holders, WritePc.isParked, parked]
  all_goals omega

theorem pushData_passes (bytes : List UInt8) :
    slot.Passes (slot.pushData bytes).1 (detached false false) (detached (slot.pushData bytes).2 false) := by
  constructor <;> rintro ⟨⟩ <;> unfold Slot.pushData muxStreamPushData <;> dsimp only <;> split <;>
    simp [Slot.holders]
  all_goals omega

theorem notifyRemoteFin_passes :
    slot.Passes slot.notifyRemoteFin.1 (detached false false) (detached slot.s.recvWaiter false) := by
  constructor <;> rintro ⟨⟩ <;>
    simp [Slot.notifyRemoteFin, muxStreamNotifyRemoteFin, Slot.holders]
  all_goals omega

theorem updateSendWindow_passes (h : FrameHdr) :
    slot.Passes (slot.updateSendWindow h).1 (detached false false) (detached false slot.s.sendWaiter) := by
  constructor <;> rintro ⟨⟩ <;>
    simp [Slot.updateSendWindow, muxStreamUpdateSendWindow, Slot.holders]
  all_goals omega

theorem notifyReset_passes :
    slot.Passes slot.notifyReset.1 (detached false false) (detached slot.s.recvWaiter slot.s.sendWaiter) := by
  constructor <;> rintro ⟨⟩ <;>
    simp [notifyReset, muxStreamNotifyReset, Slot.holders]
  all_goals omega

end Slot

end Slots

/-- The reader loop holds the coroutine it took off the accept channel. -/
def LoopPc.wakes : LoopPc → Bool
  | .chanWake _ _ | .chanCloseWake => true
  | _ => false

/-- The reader loop has closed the accept channel. -/
def LoopPc.ended : LoopPc → Bool
  | .chanCloseWake | .finish | .exited => true
  | _ => false

/-- The reader loop is not at the accept channel. -/
abbrev LoopPc.Away (pc : LoopPc) : Prop := pc.wakes = false ∧ pc.ended = false

/-- The reader loop holds no coroutine. -/
structure LoopPc.Plain (pc : LoopPc) : Prop where
  detached : pc.detached = fun _ _ => 0
  away : pc.Away

variable (h : FrameHdr)

theorem afterFin_plain (r : Nat) : (afterFin h r).Plain := by
  unfold afterFin
  split <;> exact ⟨rfl, rfl, rfl⟩

variable (found : Option Nat)

theorem afterPush_plain : (afterPush h found).Plain := by
  unfold afterPush
  repeat' split
  all_goals first | exact afterFin_plain h _ | exact ⟨rfl, rfl, rfl⟩

theorem dataBody_plain : (dataBody h found).Plain := by
  unfold dataBody
  repeat' split
  all_goals first | exact afterPush_plain h _ | exact ⟨rfl, rfl, rfl⟩

theorem afterSyn_plain : (afterSyn h found).Plain := by
  unfold afterSyn
  split
  · exact dataBody_plain h found
  · exact ⟨rfl, rfl, rfl⟩

theorem muxDispatch_plain : (muxDispatch h).Plain := by
  unfold muxDispatch
  repeat' split
  all_goals exact ⟨rfl, rfl, rfl⟩

section Moves

variable {cfg : Config} {σ σ' : Session} {act : Act} {eff : Effect} {r : Nat} {slot' : Slot}

/-- A step that changes one stream and the holders outside it. -/
theorem Session.Held.pass (held : σ.Held) {taken given : Side → Nat} (passes : (σ.slots r).Passes slot' taken given)
    (slots : σ'.slots = Function.update σ.slots r slot')
    (outside : ∀ side r', σ'.loop.detached side r' + σ'.shut.detached σ'.streams side r' +
        (if r' = r then taken side else 0) =
      σ.loop.detached side r' + σ.shut.detached σ.streams side r' + if r' = r then given side else 0) : σ'.Held := by
  intro side r'
  have before := held side r'
  have moved := outside side r'
  unfold holders at before ⊢
  rw [slots]
  by_cases here : r' = r
  · subst here
    have balance := passes.holders side
    simp only [if_pos, update_self] at moved ⊢
    omega
  · simp only [if_neg here, update_of_ne here] at moved ⊢
    omega

theorem Session.Held.keep (held : σ.Held) (slots : σ'.slots = σ.slots) (loop : σ'.loop.detached = σ.loop.detached)
    (shut : σ'.shut.detached σ'.streams = σ.shut.detached σ.streams) : σ'.Held := by
  intro side r
  rw [holders, slots, loop, shut]
  exact held side r

theorem Session.Held.slot (held : σ.Held) (slots : σ'.slots = Function.update σ.slots r slot')
    (keeps : (σ.slots r).Keeps slot') (loop : σ'.loop.detached = σ.loop.detached)
    (shut : σ'.shut.detached σ'.streams = σ.shut.detached σ.streams) : σ'.Held :=
  held.pass keeps slots fun side r' => by rw [loop, shut]

variable {recv recv' send send' : Bool}

theorem Session.Held.handle (held : σ.Held) {pc : LoopPc}
    (passes : (σ.slots r).Passes slot' (detached recv send) (detached recv' send'))
    (before : σ.loop.detached = detachedFrom r recv send) (after : pc.detached = detachedFrom r recv' send') :
    Session.Held { σ.setSlot r slot' with loop := pc } :=
  held.pass passes rfl fun side r' => by
    dsimp only [setSlot]
    rw [before, after]
    unfold detachedFrom
    omega

theorem Session.Held.walk (held : σ.Held) {pc : ShutPc}
    (passes : (σ.slots r).Passes slot' (detached recv send) (detached recv' send'))
    (before : σ.shut.detached σ.streams = detachedFrom r recv send)
    (after : pc.detached σ.streams = detachedFrom r recv' send') :
    Session.Held { σ.setSlot r slot' with shut := pc } :=
  held.pass passes rfl fun side r' => by
    dsimp only [setSlot]
    rw [before, after]
    unfold detachedFrom
    omega

/-- Every step on a stream keeps its parked coroutine with a holder, or takes it to the one who makes it ready. -/
theorem SlotStep.passes (closer : (σ.slots r).cl ≠ .idle → (σ.slots r).s.closed = true) (live : act ≠ .destroyFree)
    (step : SlotStep cfg σ act r slot') : ∃ taken given, (σ.slots r).Passes slot' taken given := by
  cases step with
  | opening _ move | read _ move | write _ move | close _ move => exact ⟨_, _, move.keeps⟩
  | readStart _ started => exact ⟨_, _, readStart_keeps started⟩
  | writeStart _ started => exact ⟨_, _, writeStart_keeps started⟩
  | closeStart _ started => exact ⟨_, _, closeStart_keeps closer started⟩
  | push => exact ⟨_, _, pushData_passes _⟩
  | update => exact ⟨_, _, updateSendWindow_passes _⟩
  | fin => exact ⟨_, _, notifyRemoteFin_passes⟩
  | reset => exact ⟨_, _, notifyReset_passes⟩
  | wakeRecv woken => exact ⟨_, _, readyRecv_passes false woken⟩
  | wakeSend woken => exact ⟨_, _, readySend_passes false woken⟩
  | same | publish | refuse | hand => exact ⟨_, _, Slot.Keeps.of_eq rfl rfl rfl rfl⟩
  | free _ at_ => exact absurd at_ live

theorem ShutMove.held {ok : Bool} (held : σ.Held) (move : ShutMove ok σ σ' eff) : σ'.Held := by
  cases move with
  | @reset i n r at_ _ here =>
    exact held.walk notifyReset_passes (by rw [at_, detachedFrom_none]; rfl) (by simp only [ShutPc.detached, here])
  | @wakeRecv i n send r slot' at_ here woken =>
    exact held.walk (readyRecv_passes send woken) (by simp only [at_, ShutPc.detached, here])
      (by simp only [ShutPc.detached, here])
  | wakeSend at_ here woken =>
    exact held.walk (readySend_passes false woken) (by simp only [at_, ShutPc.detached, here])
      (by simp only [ShutPc.detached, here])
  | @wakeEnd i n at_ =>
    refine held.keep rfl rfl ?_
    simp only [at_, ShutPc.detached]
    split
    · rw [detachedFrom_none]
    · rfl
  | frame at_ => exact held.keep (by simp) (by simp) (by cases eff <;> (rw [at_]; rfl))
  | count at_ | resetEnd at_ | lock at_ | skip at_ | unlock at_ | close at_ =>
    exact held.keep rfl rfl (by rw [at_]; rfl)

theorem LoopMove.held (held : σ.Held) (resets : σ.Resets) (inert : ∀ r, σ.nslots ≤ r → σ.slots r = Slot.unborn)
    (move : LoopMove cfg σ σ') : σ'.Held := by
  cases move with
  | dataFind at_ =>
    refine held.keep rfl ?_ rfl
    rw [at_]
    dsimp only
    split
    · rfl
    · exact (dataBody_plain _ _).detached
  | synKnown at_ | chanNone at_ | chanWait at_ | chanWake at_ =>
    exact held.keep rfl (by rw [at_]; exact (afterSyn_plain _ _).detached) rfl
  | synNew at_ open_ _ =>
    refine held.slot rfl (.of_fresh (inert _ (Nat.le_refl _)) rfl rfl) (by rw [at_]; rfl) ?_
    rw [show σ.shut = .idle from resets.idle open_]
    rfl
  | @push h r bytes at_ =>
    refine held.handle (pushData_passes bytes) (by rw [at_, detachedFrom_none]; rfl) ?_
    split <;> rename_i woken
    · rw [woken]; rfl
    · rw [Bool.eq_false_iff.mpr woken, detachedFrom_none]; exact (afterPush_plain _ _).detached
  | wakePush at_ woken =>
    exact held.handle (readyRecv_passes false woken) (by rw [at_]; rfl)
      (by rw [detachedFrom_none]; exact (afterPush_plain _ _).detached)
  | @fin h r at_ =>
    refine held.handle notifyRemoteFin_passes (by rw [at_, detachedFrom_none]; rfl) ?_
    split <;> rename_i woken
    · rw [woken]; rfl
    · rw [Bool.eq_false_iff.mpr woken, detachedFrom_none]; exact (afterFin_plain _ _).detached
  | wakeFin at_ woken =>
    exact held.handle (readyRecv_passes false woken) (by rw [at_]; rfl)
      (by rw [detachedFrom_none]; exact (afterFin_plain _ _).detached)
  | rst at_ => exact held.handle notifyReset_passes (by rw [at_, detachedFrom_none]; rfl) rfl
  | wakeRstRecv at_ woken => exact held.handle (readyRecv_passes _ woken) (by rw [at_]; rfl) rfl
  | wakeRstSend at_ woken => exact held.handle (readySend_passes _ woken) (by rw [at_]; rfl) rfl
  | wakeRstEnd at_ => exact held.keep rfl (by rw [at_]; exact (detachedFrom_none _).symm) rfl
  | @wuApply h r at_ =>
    refine held.handle (updateSendWindow_passes h) (by rw [at_, detachedFrom_none]; rfl) ?_
    split <;> rename_i woken
    · rw [woken]; rfl
    · rw [Bool.eq_false_iff.mpr woken, detachedFrom_none]; rfl
  | wakeWu at_ woken =>
    exact held.handle (readySend_passes false woken) (by rw [at_]; rfl) (by rw [detachedFrom_none]; rfl)
  | down at_ open_ => exact held.keep rfl (by rw [at_]; rfl) (by rw [resets.idle open_]; rfl)
  | start at_ | stop at_ | chanCheck at_ | chanPush at_ | chanParked at_ | wuFound at_ | wuLost at_ | downClosed at_
  | downWait at_ | chanCloseParked at_ | chanClose at_ | chanCloseWake at_ | finish at_ =>
    exact held.keep rfl (by rw [at_]; rfl) rfl

theorem WireMove.held {input : Input} (held : σ.Held) (move : WireMove σ input σ' eff) : σ'.Held := by
  cases move with
  | header at_ => exact held.keep rfl (by rw [at_]; exact (muxDispatch_plain _).detached) rfl
  | @failPayload h r at_ => exact held.keep rfl (by rw [at_]; exact (afterPush_plain h (some r)).detached) rfl
  | discard at_ => exact held.keep rfl (by rw [at_]; dsimp only; split <;> rfl) rfl
  | ping at_ => exact held.keep (by simp) (by simp only [applyEffect_loop]; rw [at_]; rfl) (by cases eff <;> rfl)
  | version at_ | payload at_ | junk at_ | failHdr at_ | failDiscard at_ | pong at_ =>
    exact held.keep rfl (by rw [at_]; rfl) rfl

theorem Session.Held.task (held : σ.Held) (keeps : (σ.slots r).Keeps slot') {holder : Holder} :
    ((σ.setSlot r slot').applyEffect holder eff).Held := by
  obtain ⟨mu, same⟩ := applyEffect_lock (σ.setSlot r slot') holder eff
  rw [same]
  exact held.slot rfl keeps rfl rfl

theorem Session.Balanced.closer (bal : σ.Balanced) (r : Nat) :
    (σ.slots r).cl ≠ .idle → (σ.slots r).s.closed = true := by
  intro busy
  have inside : r < σ.nslots := Nat.lt_of_not_le fun outside => Slot.born (by simp [busy]) (bal.links.inert r outside)
  exact (bal.counted r inside).closer busy

theorem Session.Balanced.handed_tabled (bal : σ.Balanced) (handed : (σ.slots r).handed = true) : (σ.slots r).Tabled :=
  (bal.counted r (Nat.lt_of_not_le fun outside => Slot.born (by simp [handed]) (bal.links.inert r outside))).usable handed

theorem Session.Balanced.unlinked_idle (bal : σ.Balanced) (absent : r ∉ σ.streams) :
    (σ.slots r).rd = .idle ∧ (σ.slots r).wr = .idle := by
  by_cases inside : r < σ.nslots
  · have counted := bal.counted r inside
    have unused := counted.unused (counted.unhanded ((bal.links.table r).not.mp absent))
    exact ⟨unused.1, unused.2.1⟩
  · rw [bal.links.inert r (Nat.le_of_not_lt inside)]
    exact ⟨rfl, rfl⟩

theorem UserMove.held (held : σ.Held) (bal : σ.Balanced) (resets : σ.Resets) (move : UserMove cfg σ act σ') :
    σ'.Held := by
  cases move with
  | openStart =>
    exact held.slot rfl (.of_fresh (bal.links.inert _ (Nat.le_refl _)) rfl rfl) rfl rfl
  | readStart started => exact held.slot rfl (readStart_keeps started) rfl rfl
  | writeStart started => exact held.slot rfl (writeStart_keeps started) rfl rfl
  | closeStart started => exact held.slot rfl (closeStart_keeps (bal.closer _) started) rfl rfl
  | muxClose open_ | destroy _ open_ => exact held.keep rfl rfl (by rw [resets.idle open_]; rfl)
  | openClosed | acceptStart | muxCloseAgain | destroyClosed => exact held.keep rfl rfl rfl

theorem Session.Held.step (held : σ.Held) (bal : σ.Balanced) (resets : σ.Resets) (live : act ≠ .destroyFree)
    (move : SessionMove cfg σ act σ' eff) : σ'.Held := by
  cases move with
  | opener move | reader move | writer move | closer move => exact held.task move.keeps
  | publish _ open_ =>
    have idle := resets.idle open_
    exact held.slot rfl (.of_eq rfl rfl rfl rfl) rfl
      (by simp only [muxAddStream, setSlot, idle, ShutPc.detached])
  | refuse => exact held.slot rfl (.of_eq rfl rfl rfl rfl) rfl rfl
  | free => exact absurd rfl live
  | accept move =>
    cases move with
    | hand => exact held.slot rfl (.of_eq rfl rfl rfl rfl) rfl rfl
    | _ => exact held.keep rfl rfl rfl
  | shut move => exact move.held held
  | loop move => exact move.held held resets bal.links.inert
  | wire move => exact move.held held
  | user _ move => exact move.held held bal resets

end Moves

end Xylem.Mux
