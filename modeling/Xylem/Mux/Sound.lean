import Xylem.Mux.Ledger

namespace Xylem.Mux

open Slot Effect

variable (window : UInt32) (free ok : Bool) (slot : Slot)

/-- What a coroutine of the own end, or the reader loop waking one, can do to a stream. -/
inductive OwnMove : Slot → Effect → Prop
  | opening {slot' eff} : OpenMove free ok slot slot' eff → OwnMove slot' eff
  | read {slot' eff} : ReadMove window free ok slot slot' eff → OwnMove slot' eff
  | write {slot' eff} : WriteMove free ok slot slot' eff → OwnMove slot' eff
  | close {slot' eff} : CloseMove free ok slot slot' eff → OwnMove slot' eff
  | wakeRecv {slot'} : slot.readyRecv = some slot' → OwnMove slot' .none
  | wakeSend {slot'} : slot.readySend = some slot' → OwnMove slot' .none
  | readStart {slot'} (len : Int) : slot.readStart len = some slot' → OwnMove slot' .none
  | writeStart {slot'} (bytes : List UInt8) : slot.writeStart bytes = some slot' → OwnMove slot' .none
  | closeStart {slot'} : slot.closeStart = some slot' → OwnMove slot' .none
  | hand : slot.op = .accepted → OwnMove { slot with handed := true } .none

/-- What a received frame does to its stream, with the event it applies. -/
inductive PeerMove : Slot → Event → Prop
  | push (bytes : List UInt8) : PeerMove (slot.pushData bytes).1 (.data bytes)
  | update (hdr : FrameHdr) : PeerMove (slot.updateSendWindow hdr).1 hdr.creditEvent
  | fin : PeerMove slot.notifyRemoteFin.1 .fin

structure Slot.Sound : Prop where
  shape : slot.Shape window
  ledger : slot.Ledger window
  life : slot.Lifecycle

variable {window : UInt32} {free ok : Bool} {slot slot' : Slot} {eff : Effect} {event : Event}

theorem OpenMove.life (life : slot.Lifecycle) (move : OpenMove free ok slot slot' eff) : slot'.Lifecycle := by
  cases move <;> exact { life with }

theorem ReadMove.life (life : slot.Lifecycle) (move : ReadMove window free ok slot slot' eff) : slot'.Lifecycle := by
  cases move <;> exact { life with }

theorem WriteMove.life (life : slot.Lifecycle) (move : WriteMove free ok slot slot' eff) : slot'.Lifecycle := by
  cases move <;> exact { life with }

theorem CloseMove.life (life : slot.Lifecycle) (move : CloseMove free ok slot slot' eff) : slot'.Lifecycle := by
  cases move with
  | state at_ =>
    have closed : slot.s.closed = true := life.closer (by simp [at_])
    refine { live := ?_, closing := fun _ => closed, closer := fun _ => closed, finSeen := fun seen => ?_ }
    · simp only [muxCloseState]
      split <;> exact ⟨nofun, nofun⟩
    · rcases life.finSeen seen with state | state <;> simp [muxCloseState, state]
  | wakeRecv at_ | wakeSend at_ | lock at_ | skip at_ | frame at_ | unlock at_ | ret at_ =>
    exact { life with closer := fun _ => life.closer (by simp [at_]) }

theorem Slot.Lifecycle.notifyRemoteFin (life : slot.Lifecycle) : slot.notifyRemoteFin.1.Lifecycle := by
  obtain ⟨notInit, notSyn⟩ := life.live
  have closing := life.closing
  cases state : slot.s.state <;>
    simp_all only [Slot.notifyRemoteFin, muxStreamNotifyRemoteFin, ne_eq, not_true_eq_false] <;>
    exact { life with
      live := by simp
      closing := by simp [closing]
      finSeen := by simp }

theorem Slot.Lifecycle.closeStart (life : slot.Lifecycle) (started : slot.closeStart = some slot') :
    slot'.Lifecycle := by
  obtain ⟨_, ⟨_, rfl⟩ | ⟨_, rfl⟩⟩ := closeStart_some started
  · exact { life with }
  · exact { life with closing := fun _ => rfl, closer := fun _ => rfl }

theorem OwnMove.sound (sound : slot.Sound window) (move : OwnMove window free true slot slot' eff) :
    slot'.Sound window := by
  obtain ⟨shape, led, life⟩ := sound
  cases move with
  | opening move | read move | close move => exact ⟨move.shape shape, move.ledger led shape, move.life life⟩
  | write move => exact ⟨move.shape shape, move.ledger led shape life, move.life life⟩
  | wakeRecv woken =>
    refine ⟨shape.readyRecv woken, led.readyRecv woken, ?_⟩
    obtain ⟨_, _, rfl⟩ := readyRecv_some woken
    exact { life with }
  | wakeSend woken =>
    refine ⟨shape.readySend woken, led.readySend woken, ?_⟩
    obtain ⟨_, _, rfl⟩ := readySend_some woken
    exact { life with }
  | readStart len started =>
    refine ⟨shape.readStart started, led.readStart started, ?_⟩
    obtain ⟨_, rfl⟩ := readStart_some started
    exact { life with }
  | writeStart bytes started =>
    refine ⟨shape.writeStart started, led.writeStart started, ?_⟩
    obtain ⟨_, rfl⟩ := writeStart_some started
    exact { life with }
  | closeStart started => exact ⟨shape.closeStart started, led.closeStart started, life.closeStart started⟩
  | hand at_ => exact ⟨shape.hand at_, { led with }, { life with }⟩

theorem Slot.Sound.publish (sound : slot.Sound window) (at_ : slot.op = .sent) :
    Slot.Sound window { slot.ref with op := .published, handed := true } :=
  ⟨sound.shape.publish at_, { sound.ledger with }, { sound.life with }⟩

theorem PeerMove.sound (sound : slot.Sound window) (move : PeerMove slot slot' event) : slot'.Sound window := by
  obtain ⟨shape, led, life⟩ := sound
  cases move with
  | push bytes =>
    refine ⟨?_, led.pushData bytes, ?_⟩ <;> unfold Slot.pushData muxStreamPushData <;> split
    · exact shape.received rfl
    · exact shape.received rfl
    · exact { life with finSeen := fun seen => life.finSeen (by simpa using seen) }
    · exact { life with finSeen := fun seen => life.finSeen (by simpa using seen) }
  | update hdr =>
    refine ⟨shape.received rfl, led.updateSendWindow hdr, { life with finSeen := fun seen => life.finSeen ?_ }⟩
    unfold Slot.updateSendWindow FrameHdr.creditEvent at seen
    split at seen <;> simpa using seen
  | fin => exact ⟨shape.received rfl, led.notifyRemoteFin, life.notifyRemoteFin⟩

/-- What no step of an open session changes: the stream's id and whether it is in the table. -/
structure SameKey (slot slot' : Slot) : Prop where
  id : slot'.s.id = slot.s.id
  accepted : slot'.op = .accepted ↔ slot.op = .accepted
  published : slot'.op = .published ↔ slot.op = .published

section

variable (move : OwnMove window free ok slot slot' eff)
include move

theorem OwnMove.key : SameKey slot slot' := by
  cases move with
  | opening move =>
    cases move with
    | frame at_ => constructor <;> simp [at_]
    | @unlock fw sent at_ pc => cases sent <;> constructor <;> simp [at_]
    | abandon at_ => constructor <;> simp [unref, muxStreamUnref, at_]
  | read move | write move | close move => cases move <;> exact ⟨rfl, Iff.rfl, Iff.rfl⟩
  | wakeRecv woken => obtain ⟨_, _, rfl⟩ := readyRecv_some woken; exact ⟨rfl, Iff.rfl, Iff.rfl⟩
  | wakeSend woken => obtain ⟨_, _, rfl⟩ := readySend_some woken; exact ⟨rfl, Iff.rfl, Iff.rfl⟩
  | readStart len started =>
    obtain ⟨_, rfl⟩ := readStart_some started
    exact ⟨rfl, Iff.rfl, Iff.rfl⟩
  | writeStart bytes started =>
    obtain ⟨_, rfl⟩ := writeStart_some started
    exact ⟨rfl, Iff.rfl, Iff.rfl⟩
  | closeStart started =>
    obtain ⟨_, ⟨_, rfl⟩ | ⟨_, rfl⟩⟩ := closeStart_some started <;> exact ⟨rfl, Iff.rfl, Iff.rfl⟩
  | hand at_ => exact ⟨rfl, Iff.rfl, Iff.rfl⟩

theorem OwnMove.histories : slot'.rx = slot.rx ∧ slot'.tx = slot.tx ++ eff.frames := by
  cases move with
  | opening move | read move | write move | close move => cases move <;> simp [frames, unref]
  | wakeRecv woken => obtain ⟨_, _, rfl⟩ := readyRecv_some woken; simp [frames]
  | wakeSend woken => obtain ⟨_, _, rfl⟩ := readySend_some woken; simp [frames]
  | readStart len started => obtain ⟨_, rfl⟩ := readStart_some started; simp [frames, Slot.ref]
  | writeStart bytes started => obtain ⟨_, rfl⟩ := writeStart_some started; simp [frames, Slot.ref]
  | closeStart started =>
    obtain ⟨_, ⟨_, rfl⟩ | ⟨_, rfl⟩⟩ := closeStart_some started <;> simp [frames]
  | hand at_ => simp [frames]

end

theorem PeerMove.key (move : PeerMove slot slot' event) : SameKey slot slot' := by
  cases move with
  | push bytes => unfold Slot.pushData muxStreamPushData; split <;> exact ⟨rfl, Iff.rfl, Iff.rfl⟩
  | update hdr | fin => exact ⟨rfl, Iff.rfl, Iff.rfl⟩

theorem PeerMove.histories (move : PeerMove slot slot' event) : slot'.tx = slot.tx ∧ slot'.rx = slot.rx ++ [event] := by
  cases move <;> exact ⟨rfl, rfl⟩

theorem Slot.Sound.opened (id window : UInt32) : (Slot.opened id window).Sound window where
  shape :=
    { history := .opening rfl nofun rfl
      usable := nofun
      unused := fun _ => ⟨rfl, rfl, rfl⟩
      rdFrame := nofun
      wrFrame := nofun
      wrLoop := by simp [Slot.opened, Slot.fresh]
      clFrame := nofun
      clSent := by simp [Slot.opened, Slot.fresh] }
  ledger := .fresh rfl rfl rfl
  life := ⟨⟨nofun, nofun⟩, by simp [Slot.opened, Slot.fresh], fun busy => absurd rfl busy, nofun⟩

theorem Slot.Sound.accepted (id window : UInt32) : (Slot.accepted id window).Sound window where
  shape :=
    { history := .accepted nofun
      usable := nofun
      unused := fun _ => ⟨rfl, rfl, rfl⟩
      rdFrame := nofun
      wrFrame := nofun
      wrLoop := by simp [Slot.accepted, Slot.fresh]
      clFrame := nofun
      clSent := by simp [Slot.accepted, Slot.fresh] }
  ledger := .fresh rfl rfl rfl
  life := ⟨⟨nofun, nofun⟩, by simp [Slot.accepted, Slot.fresh, muxStreamRef], fun busy => absurd rfl busy, nofun⟩

end Xylem.Mux
