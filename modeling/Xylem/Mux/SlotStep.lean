import Xylem.Mux.SessionMove

namespace Xylem.Mux

variable (cfg : Config) (σ : Session) (act : Act) (r : Nat)

/-- What one step of a session can do to one of its streams, and which steps do it. -/
inductive SlotStep : Slot → Prop
  | same : SlotStep (σ.slots r)
  | opening {free ok slot' eff} : act = .runOpen r ok → OpenMove free ok (σ.slots r) slot' eff → SlotStep slot'
  | read {free ok slot' eff} : act = .runRead r ok → ReadMove cfg.window free ok (σ.slots r) slot' eff → SlotStep slot'
  | write {free ok slot' eff} : act = .runWrite r ok → WriteMove free ok (σ.slots r) slot' eff → SlotStep slot'
  | close {free ok slot' eff} : act = .runClose r ok → CloseMove free ok (σ.slots r) slot' eff → SlotStep slot'
  | readStart {len slot'} : act = .readStart r len → (σ.slots r).readStart len = some slot' → SlotStep slot'
  | writeStart {bytes slot'} : act = .writeStart r bytes → (σ.slots r).writeStart bytes = some slot' → SlotStep slot'
  | closeStart {slot'} : act = .closeStart r → (σ.slots r).closeStart = some slot' → SlotStep slot'
  | publish : act = .openPublish r → (σ.slots r).op = .sent →
      SlotStep { (σ.slots r).ref with op := .published, handed := true }
  | refuse : act = .openPublish r → (σ.slots r).op = .sent → SlotStep { (σ.slots r).ref.unref.unref with op := .failed }
  | hand : σ.accept = .got r → SlotStep { σ.slots r with handed := true }
  | push {h bytes} : σ.loop = .push h r bytes → SlotStep ((σ.slots r).pushData bytes).1
  | update {h} : σ.loop = .wuApply h r → SlotStep ((σ.slots r).updateSendWindow h).1
  | fin {h} : σ.loop = .fin h r → SlotStep (σ.slots r).notifyRemoteFin.1
  | reset : (∃ h, σ.loop = .rst h r) ∨ r ∈ σ.streams → SlotStep (σ.slots r).notifyReset.1
  | wakeRecv {slot'} : (σ.slots r).readyRecv = some slot' → SlotStep slot'
  | wakeSend {slot'} : (σ.slots r).readySend = some slot' → SlotStep slot'
  | free (slot' : Slot) : act = .destroyFree → SlotStep slot'

variable {cfg : Config} {σ σ' : Session} {eff : Effect}
  {act : Act}

theorem SlotStep.of_set {r : Nat} {slot' : Slot} (step : SlotStep cfg σ act r slot')
    (slots : σ'.slots = (σ.setSlot r slot').slots) (r' : Nat) : SlotStep cfg σ act r' (σ'.slots r') := by
  rw [slots]
  by_cases here : r' = r
  · subst here; simpa [Session.setSlot] using step
  · simpa [Session.setSlot, here] using SlotStep.same

@[simp] theorem Session.applyEffect_slots (σ : Session) (holder : Holder) (eff : Effect) :
    (σ.applyEffect holder eff).slots = σ.slots := by cases eff <;> rfl

/-- The reader loop changes at most one stream, or creates one. -/
theorem LoopMove.slot (move : LoopMove cfg σ σ') (r : Nat) : SlotStep cfg σ (.runLoop .go) r (σ'.slots r) ∨
      ∃ h, σ.loop = .syn h ∧ σ.closed = false ∧ r = σ.nslots ∧ σ'.slots r = Slot.accepted h.streamId cfg.window := by
  cases move with
  | @synNew h at_ open_ _ =>
    by_cases here : r = σ.nslots
    · subst here
      exact .inr ⟨h, at_, open_, rfl, by simp [Session.muxAddStream]⟩
    · exact .inl (by simpa [Session.muxAddStream, here] using SlotStep.same)
  | push at_ => exact .inl (.of_set (.push at_) rfl r)
  | fin at_ => exact .inl (.of_set (.fin at_) rfl r)
  | rst at_ => exact .inl (.of_set (.reset (.inl ⟨_, at_⟩)) rfl r)
  | wuApply at_ => exact .inl (.of_set (.update at_) rfl r)
  | wakePush _ woken | wakeFin _ woken | wakeRstRecv _ woken => exact .inl (.of_set (.wakeRecv woken) rfl r)
  | wakeRstSend _ woken | wakeWu _ woken => exact .inl (.of_set (.wakeSend woken) rfl r)
  | _ => exact .inl .same

theorem ShutMove.slot {ok : Bool} (move : ShutMove ok σ σ' eff) (r : Nat) :
    SlotStep cfg σ (.runShut ok) r (σ'.slots r) := by
  cases move with
  | reset _ _ here => exact .of_set (.reset (.inr (List.mem_of_getElem? here))) rfl r
  | wakeRecv _ _ woken => exact .of_set (.wakeRecv woken) rfl r
  | wakeSend _ _ woken => exact .of_set (.wakeSend woken) rfl r
  | frame => simpa using SlotStep.same
  | _ => exact .same

/-- Every step moves every stream by at most one of the listed steps, or creates it. -/
theorem SessionMove.slot (move : SessionMove cfg σ act σ' eff) (r : Nat) : SlotStep cfg σ act r (σ'.slots r) ∨
      r = σ.nslots ∧ σ.closed = false ∧ (act = .openStart ∧ σ'.slots r = Slot.opened σ.nextStreamId cfg.window ∨
          ∃ h, act = .runLoop .go ∧ σ.loop = .syn h ∧ σ'.slots r = Slot.accepted h.streamId cfg.window) := by
  cases move with
  | opener move => exact .inl (.of_set (.opening rfl move) (by simp) r)
  | reader move => exact .inl (.of_set (.read rfl move) (by simp) r)
  | writer move => exact .inl (.of_set (.write rfl move) (by simp) r)
  | closer move => exact .inl (.of_set (.close rfl move) (by simp) r)
  | publish at_ => exact .inl (.of_set (.publish rfl at_) rfl r)
  | refuse at_ => exact .inl (.of_set (.refuse rfl at_) rfl r)
  | free => exact .inl (.free _ rfl)
  | accept move =>
    cases move with
    | hand at_ => exact .inl (.of_set (.hand at_) rfl r)
    | _ => exact .inl .same
  | shut move => exact .inl (move.slot r)
  | loop move =>
    rcases move.slot r with step | ⟨h, at_, open_, new, slot⟩
    · exact .inl step
    · exact .inr ⟨new, open_, .inr ⟨h, rfl, at_, slot⟩⟩
  | wire move =>
    cases move with
    | ping => exact .inl (by simpa using SlotStep.same)
    | _ => exact .inl .same
  | user _ move =>
    cases move with
    | openStart open_ =>
      by_cases here : r = σ.nslots
      · subst here
        exact .inr ⟨rfl, open_, .inl ⟨rfl, by simp⟩⟩
      · exact .inl (by simpa [here] using SlotStep.same)
    | readStart started => exact .inl (.of_set (.readStart rfl started) rfl r)
    | writeStart started => exact .inl (.of_set (.writeStart rfl started) rfl r)
    | closeStart started => exact .inl (.of_set (.closeStart rfl started) rfl r)
    | _ => exact .inl .same

/-- Steps that do not close the session. -/
def Act.Stays : Act → Prop
  | .muxClose | .destroyStart => False
  | _ => True

@[simp] theorem Session.applyEffect_closed (σ : Session) (holder : Holder) (eff : Effect) :
    (σ.applyEffect holder eff).closed = σ.closed := by cases eff <;> rfl

@[simp] theorem Session.applyEffect_loop (σ : Session) (holder : Holder) (eff : Effect) :
    (σ.applyEffect holder eff).loop = σ.loop := by cases eff <;> rfl

section

variable (move : SessionMove cfg σ act σ' eff)
include move

theorem SessionMove.stays (open_ : σ'.closed = false) : σ.closed = false ∧ act.Stays := by
  cases move with
  | opener | reader | writer | closer => exact ⟨by simpa [Session.setSlot] using open_, trivial⟩
  | publish | refuse | free => exact ⟨open_, trivial⟩
  | accept move => cases move <;> exact ⟨open_, trivial⟩
  | shut move =>
    cases move with
    | frame => exact ⟨by simpa using open_, trivial⟩
    | _ => exact ⟨open_, trivial⟩
  | loop move =>
    cases move with
    | down => cases open_
    | _ => exact ⟨open_, trivial⟩
  | wire move =>
    cases move with
    | ping => exact ⟨by simpa using open_, trivial⟩
    | _ => exact ⟨open_, trivial⟩
  | user _ move =>
    cases move with
    | muxCloseAgain closed | destroyClosed _ closed => exact absurd (closed.symm.trans open_) (by decide)
    | muxClose | destroy => cases open_
    | _ => exact ⟨open_, trivial⟩

theorem SessionMove.stays_closed (closed : σ.closed = true) : σ'.closed = true := by
  by_contra open_
  exact absurd (closed.symm.trans (move.stays (Bool.eq_false_iff.mpr open_)).1) (by decide)

theorem SessionMove.loop_eq (other : ∀ input, act ≠ .runLoop input) : σ'.loop = σ.loop := by
  cases move with
  | opener | reader | writer | closer => simp [Session.setSlot]
  | publish | refuse | free => rfl
  | accept move => cases move <;> rfl
  | shut move =>
    cases move with
    | frame => simp
    | _ => rfl
  | loop | wire => exact absurd rfl (other _)
  | user _ move => cases move <;> rfl

end

end Xylem.Mux
