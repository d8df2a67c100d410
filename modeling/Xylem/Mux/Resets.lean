import Xylem.Mux.References

namespace Xylem.Mux

/-- The two ways a coroutine can be parked on a stream. -/
inductive Side
  | recv
  | send

/-- `recv_waiter` and `send_waiter`. -/
@[simp] def Slot.waiter (slot : Slot) : Side → Bool
  | .recv => slot.s.recvWaiter
  | .send => slot.s.sendWaiter

variable {cfg : Config} {σ σ' : Session} {act : Act} {eff : Effect} {r : Nat} {slot' : Slot}

structure Slot.Reset (slot : Slot) : Prop where
  state : slot.s.state = .closed
  closed : slot.s.closed = true
  waiter : ∀ side, slot.waiter side = false

theorem Slot.Reset.of_eq {slot : Slot} (reset : slot.Reset) (state : slot'.s.state = slot.s.state)
    (closed : slot'.s.closed = slot.s.closed) (waiter : slot'.waiter = slot.waiter) : slot'.Reset :=
  ⟨state ▸ reset.state, closed ▸ reset.closed, waiter ▸ reset.waiter⟩

theorem SlotStep.stays_reset (live : act ≠ .destroyFree) (reset : (σ.slots r).Reset)
    (step : SlotStep cfg σ act r slot') : slot'.Reset := by
  cases step with
  | same => exact reset
  | opening _ move => cases move <;> exact reset.of_eq rfl rfl rfl
  | read _ move =>
    cases move with
    | park _ _ _ _ open_ => exact absurd (reset.closed.symm.trans open_) (by decide)
    | _ => exact reset.of_eq rfl rfl rfl
  | write _ move =>
    cases move with
    | park _ _ _ open_ => exact absurd (reset.closed.symm.trans open_) (by decide)
    | _ => exact reset.of_eq rfl rfl rfl
  | close _ move =>
    cases move with
    | state => exact ⟨by simp [muxCloseState, reset.state], reset.closed, by rintro ⟨⟩ <;> rfl⟩
    | _ => exact reset.of_eq rfl rfl rfl
  | readStart _ started => obtain ⟨_, rfl⟩ := Slot.readStart_some started; exact reset.of_eq rfl rfl rfl
  | writeStart _ started => obtain ⟨_, rfl⟩ := Slot.writeStart_some started; exact reset.of_eq rfl rfl rfl
  | closeStart _ started =>
    obtain ⟨_, ⟨_, rfl⟩ | ⟨open_, rfl⟩⟩ := Slot.closeStart_some started
    · exact reset.of_eq rfl rfl rfl
    · exact absurd (reset.closed.symm.trans open_) (by decide)
  | publish | refuse | hand => exact reset.of_eq rfl rfl rfl
  | push =>
    unfold Slot.pushData muxStreamPushData
    dsimp only
    split
    · exact reset.of_eq rfl rfl rfl
    · exact ⟨reset.state, reset.closed, by rintro ⟨⟩; exacts [rfl, reset.waiter .send]⟩
  | update => exact ⟨reset.state, reset.closed, by rintro ⟨⟩; exacts [reset.waiter .recv, rfl]⟩
  | fin =>
    refine ⟨?_, reset.closed, by rintro ⟨⟩; exacts [rfl, reset.waiter .send]⟩
    simp [Slot.notifyRemoteFin, muxStreamNotifyRemoteFin, reset.state]
  | reset => exact ⟨rfl, rfl, by rintro ⟨⟩ <;> rfl⟩
  | wakeRecv woken => obtain ⟨_, _, rfl⟩ := Slot.readyRecv_some woken; exact reset.of_eq rfl rfl rfl
  | wakeSend woken => obtain ⟨_, _, rfl⟩ := Slot.readySend_some woken; exact reset.of_eq rfl rfl rfl
  | free _ at_ => exact absurd at_ live

/-- How many streams of the table the closer of the session has reset. -/
def ShutPc.resets (total : Nat) : ShutPc → Nat
  | .idle | .count => 0
  | .reset i _ => i
  | .wake i _ _ _ => i + 1
  | _ => total

/-- The closer's count is the size of the table, and its position is in the table. -/
def ShutPc.Walks (total : Nat) : ShutPc → Prop
  | .reset i n => n = total ∧ i ≤ n
  | .wake i n _ _ => n = total ∧ i < n
  | .frame fw => fw.pc ≠ .lock
  | _ => True

/-- The walk of the closer over the table, which nothing joins any more. -/
structure Session.Resets (σ : Session) : Prop where
  started : σ.closed = true ↔ σ.shut ≠ .idle
  walks : σ.shut.Walks σ.streams.length
  reset : ∀ j < σ.shut.resets σ.streams.length, ∀ r, σ.streams[j]? = some r → (σ.slots r).Reset

/-- The session is closed by its first closer only, and its table grows only before that. -/
theorem SessionMove.closing (move : SessionMove cfg σ act σ' eff) :
    (∃ ok, act = .runShut ok ∧ ShutMove ok σ σ' eff) ∨ σ.closed = false ∧ σ'.closed = true ∧ σ'.shut = .count ∨
      σ'.shut = σ.shut ∧ σ'.closed = σ.closed ∧ (σ'.streams = σ.streams ∨ σ.closed = false) := by
  cases move with
  | opener | reader | writer | closer => exact .inr (.inr (by cases eff <;> exact ⟨rfl, rfl, .inl rfl⟩))
  | publish _ open_ => exact .inr (.inr ⟨rfl, rfl, .inr open_⟩)
  | refuse | free => exact .inr (.inr ⟨rfl, rfl, .inl rfl⟩)
  | accept move => cases move <;> exact .inr (.inr ⟨rfl, rfl, .inl rfl⟩)
  | shut move => exact .inl ⟨_, rfl, move⟩
  | loop move =>
    cases move with
    | synNew _ open_ => exact .inr (.inr ⟨rfl, rfl, .inr open_⟩)
    | down _ open_ => exact .inr (.inl ⟨open_, rfl, rfl⟩)
    | _ => exact .inr (.inr ⟨rfl, rfl, .inl rfl⟩)
  | wire move =>
    cases move with
    | ping => exact .inr (.inr (by cases eff <;> exact ⟨rfl, rfl, .inl rfl⟩))
    | _ => exact .inr (.inr ⟨rfl, rfl, .inl rfl⟩)
  | user _ move =>
    cases move with
    | muxClose open_ | destroy _ open_ => exact .inr (.inl ⟨open_, rfl, rfl⟩)
    | _ => exact .inr (.inr ⟨rfl, rfl, .inl rfl⟩)

theorem Session.Resets.idle (resets : σ.Resets) (open_ : σ.closed = false) : σ.shut = .idle := by
  by_contra active
  exact absurd ((resets.started.mpr active).symm.trans open_) (by decide)

/-- A step of the closer of the session on one stream of the table. -/
theorem Session.Resets.walk (resets : σ.Resets) (stays : ∀ r, (σ.slots r).Reset → (σ'.slots r).Reset)
    (closed : σ'.closed = σ.closed) (streams : σ'.streams = σ.streams) (active : σ.shut ≠ .idle)
    (active' : σ'.shut ≠ .idle) (walks : σ'.shut.Walks σ.streams.length)
    (more : ∀ j < σ'.shut.resets σ.streams.length, σ.shut.resets σ.streams.length ≤ j →
      ∀ r, σ.streams[j]? = some r → (σ'.slots r).Reset) : σ'.Resets where
  started := by rw [closed, resets.started]; exact iff_of_true active active'
  walks := streams ▸ walks
  reset := fun j inside r here => by
    rw [streams] at inside here
    by_cases done : j < σ.shut.resets σ.streams.length
    · exact stays r (resets.reset j done r here)
    · exact more j inside (Nat.le_of_not_lt done) r here

theorem ShutMove.resets {ok : Bool} (resets : σ.Resets) (stays : ∀ r, (σ.slots r).Reset → (σ'.slots r).Reset)
    (move : ShutMove ok σ σ' eff) : σ'.Resets := by
  have walks := resets.walks
  cases move with
  | count at_ => exact resets.walk stays rfl rfl (by simp [at_]) (by simp) ⟨rfl, Nat.zero_le _⟩ (by simp [ShutPc.resets])
  | @reset i n r at_ more here =>
    rw [at_] at walks
    refine resets.walk stays rfl rfl (by simp [at_]) (by simp) ⟨walks.1, more⟩ fun j inside beyond r' here' => ?_
    have same : j = i := by simp only [at_, ShutPc.resets] at inside beyond; omega
    subst same
    cases here.symm.trans here'
    simp only [Session.setSlot, Function.update_self]
    exact ⟨rfl, rfl, by rintro ⟨⟩ <;> rfl⟩
  | @resetEnd i n at_ last =>
    rw [at_] at walks
    obtain ⟨count, _⟩ := walks
    refine resets.walk stays rfl rfl (by simp [at_]) (by simp) trivial fun j inside beyond => ?_
    simp only [at_, ShutPc.resets] at inside beyond
    omega
  | wakeRecv at_ | wakeSend at_ | wakeEnd at_ =>
    rw [at_] at walks
    refine resets.walk stays rfl rfl (by simp [at_]) (by simp) walks fun j inside beyond => ?_
    simp only [at_, ShutPc.resets] at inside beyond
    omega
  | lock at_ =>
    refine resets.walk stays rfl rfl (by simp [at_]) (by simp) (by simp [ShutPc.Walks]) fun j inside beyond => ?_
    simp only [at_, ShutPc.resets] at inside beyond
    omega
  | @frame fw fw' _ at_ step =>
    have pc : fw'.pc ≠ .lock := by
      unfold FrameWrite.step at step
      repeat' split at step
      all_goals cases step <;> simp
    refine resets.walk stays (by simp) (by cases eff <;> rfl) (by simp [at_]) ?_ ?_ fun j inside beyond => ?_
    · cases eff <;> simp [Session.applyEffect]
    · cases eff <;> exact pc
    · cases eff <;> (simp only [at_, ShutPc.resets, Session.applyEffect] at inside beyond; omega)
  | skip at_ | unlock at_ | close at_ =>
    refine resets.walk stays rfl rfl (by simp [at_]) (by simp) trivial fun j inside beyond => ?_
    simp only [at_, ShutPc.resets] at inside beyond
    omega

theorem Session.Resets.step (resets : σ.Resets) (live : act ≠ .destroyFree) (move : SessionMove cfg σ act σ' eff) :
    σ'.Resets := by
  have stays : ∀ r, σ.closed = true → (σ.slots r).Reset → (σ'.slots r).Reset := fun r closed reset => by
    rcases move.slot r with step | ⟨_, open_, _⟩
    · exact step.stays_reset live reset
    · exact absurd (closed.symm.trans open_) (by decide)
  rcases move.closing with ⟨ok, rfl, walk⟩ | ⟨_, closed, count⟩ | ⟨shut, closed, table⟩
  · have closed : σ.closed = true := resets.started.mpr (by cases walk <;> simp_all)
    exact walk.resets resets fun r => stays r closed
  · exact ⟨by simp [closed, count], by rw [count]; trivial, by rw [count]; nofun⟩
  · by_cases open_ : σ.closed = false
    · rw [resets.idle open_] at shut
      exact ⟨by simp [closed, open_, shut], by rw [shut]; trivial, by rw [shut]; nofun⟩
    · rw [Bool.not_eq_false] at open_
      have streams := table.resolve_right (by simp [open_])
      exact ⟨by rw [shut, closed]; exact resets.started, by rw [shut, streams]; exact resets.walks,
        fun j inside r here => stays r open_ (resets.reset j (by rwa [shut, streams] at inside) r
          (by rwa [streams] at here))⟩

end Xylem.Mux
