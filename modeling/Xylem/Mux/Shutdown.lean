import Xylem.Mux.Waiters

namespace Xylem.Mux

section Moves

variable {cfg : Config} {σ σ' : Session} {act : Act} {eff : Effect}

/-- The waiter word of the accept channel against the coroutine it stands for. -/
structure Session.Channel (σ : Session) : Prop where
  parked : σ.accept = .parked ↔ σ.chan = .parked ∨ σ.loop.wakes = true
  taken : σ.loop.wakes = true → σ.chan ≠ .parked
  closed : σ.chan = .closed ↔ σ.loop.ended = true
  parks : σ.acceptParks = σ.acceptReadies + if σ.accept = .parked then 1 else 0

theorem Session.Channel.keep (channel : σ.Channel) (accept : σ'.accept = σ.accept) (chan : σ'.chan = σ.chan)
    (wakes : σ'.loop.wakes = σ.loop.wakes) (ended : σ'.loop.ended = σ.loop.ended)
    (parks : σ'.acceptParks = σ.acceptParks) (readies : σ'.acceptReadies = σ.acceptReadies) : σ'.Channel where
  parked := by rw [accept, chan, wakes]; exact channel.parked
  taken := by rw [wakes, chan]; exact channel.taken
  closed := by rw [ended, chan]; exact channel.closed
  parks := by rw [parks, readies, accept]; exact channel.parks

theorem Session.Channel.awake (channel : σ.Channel) (awake : σ.accept ≠ .parked) (awake' : σ'.accept ≠ .parked)
    (chan : σ'.chan = σ.chan ∨ σ'.chan ≠ .parked ∧ σ'.chan ≠ .closed ∧ σ.chan ≠ .closed) (loop : σ'.loop = σ.loop)
    (parks : σ'.acceptParks = σ.acceptParks) (readies : σ'.acceptReadies = σ.acceptReadies) : σ'.Channel := by
  obtain ⟨quiet, asleep⟩ := not_or.mp (channel.parked.not.mp awake)
  have count := channel.parks
  rw [if_neg awake] at count
  refine ⟨?_, fun taken => absurd (loop ▸ taken) asleep, ?_, by rw [parks, readies, if_neg awake', count]⟩
  · rcases chan with same | ⟨other, _⟩
    · rw [same, loop]; exact iff_of_false awake' (not_or.mpr ⟨quiet, asleep⟩)
    · rw [loop]; exact iff_of_false awake' (not_or.mpr ⟨other, asleep⟩)
  · rcases chan with same | ⟨_, open_', open_⟩
    · rw [same, loop]; exact channel.closed
    · rw [loop]; exact iff_of_false open_' (channel.closed.not.mp open_)

theorem AcceptMove.channel (channel : σ.Channel) (move : AcceptMove σ σ') : σ'.Channel := by
  cases move with
  | park at_ waits =>
    have awake : σ.accept ≠ .parked := by simp [at_]
    obtain ⟨_, asleep⟩ := not_or.mp (channel.parked.not.mp awake)
    have count := channel.parks
    rw [if_neg awake] at count
    exact ⟨by simp, fun taken => absurd taken asleep,
      iff_of_false nofun (channel.closed.not.mp (by simp [waits])), by simp [count]⟩
  | announce at_ free => exact channel.awake (by simp [at_]) nofun (Or.inr (by simp [free])) rfl rfl rfl
  | cancel at_ =>
    refine channel.awake (by simp [at_]) nofun ?_ rfl rfl rfl
    by_cases waits : σ.chan = .wait
    · exact Or.inr (by simp [waits])
    · exact Or.inl (by simp [waits])
  | ended at_ | look at_ | lookClosed at_ =>
    exact channel.awake (by simp [at_]) (by dsimp only; split <;> nofun) (Or.inl rfl) rfl rfl rfl
  | pop at_ | empty at_ | checked at_ | refused at_ | retry at_ | hand at_ =>
    exact channel.awake (by simp [at_]) nofun (Or.inl rfl) rfl rfl rfl

theorem Session.Channel.away (channel : σ.Channel) (before : σ.loop.Away) (after : σ'.loop.Away)
    (accept : σ'.accept = σ.accept) (chan : σ'.chan = σ.chan) (parks : σ'.acceptParks = σ.acceptParks)
    (readies : σ'.acceptReadies = σ.acceptReadies) : σ'.Channel :=
  channel.keep accept chan (by rw [before.1, after.1]) (by rw [before.2, after.2]) parks readies

theorem LoopMove.channel (channel : σ.Channel) (move : LoopMove cfg σ σ') : σ'.Channel := by
  have plain : ∀ {pc : LoopPc}, σ.loop = pc → pc.Away → σ.loop.Away := fun at_ away => by rw [at_]; exact away
  obtain ⟨parked, taken, closed, parks⟩ := id channel
  cases move with
  | dataFind at_ =>
    refine channel.away (plain at_ ⟨rfl, rfl⟩) ?_ rfl rfl rfl rfl
    dsimp only
    split
    · exact ⟨rfl, rfl⟩
    · exact (dataBody_plain _ _).away
  | synKnown at_ | chanNone at_ =>
    exact channel.away (plain at_ ⟨rfl, rfl⟩) (afterSyn_plain _ _).away rfl rfl rfl rfl
  | @chanWait h r at_ waits =>
    obtain ⟨asleep, unended⟩ := (afterSyn_plain h (some r)).away
    have awake : σ.accept ≠ .parked := parked.not.mpr (by simp [waits, at_, LoopPc.wakes])
    exact ⟨by simp [awake, asleep], by simp [asleep], by simp [unended], parks⟩
  | @chanParked h r at_ waits | chanCloseParked at_ waits =>
    exact ⟨by simp [parked, waits, LoopPc.wakes], by simp, by simp [LoopPc.ended], parks⟩
  | @chanWake h r at_ waits =>
    obtain ⟨asleep, unended⟩ := (afterSyn_plain h (some r)).away
    have unparked := taken (by rw [at_]; rfl)
    have open_ : σ.chan ≠ .closed := closed.not.mpr (by simp [at_, LoopPc.ended])
    rw [if_pos waits] at parks
    exact ⟨by simp [asleep, unparked], by simp [asleep], by simp [unended, open_], by simp [parks]⟩
  | @push h r bytes at_ =>
    refine channel.away (plain at_ ⟨rfl, rfl⟩) ?_ rfl rfl rfl rfl
    dsimp only
    split
    · exact ⟨rfl, rfl⟩
    · exact (afterPush_plain h (some r)).away
  | fin at_ =>
    refine channel.away (plain at_ ⟨rfl, rfl⟩) ?_ rfl rfl rfl rfl
    dsimp only
    split
    · exact ⟨rfl, rfl⟩
    · exact (afterFin_plain _ _).away
  | wuApply at_ =>
    refine channel.away (plain at_ ⟨rfl, rfl⟩) ?_ rfl rfl rfl rfl
    dsimp only
    split <;> exact ⟨rfl, rfl⟩
  | @wakePush h r _ at_ =>
    exact channel.away (plain at_ ⟨rfl, rfl⟩) (afterPush_plain h (some r)).away rfl rfl rfl rfl
  | wakeFin at_ => exact channel.away (plain at_ ⟨rfl, rfl⟩) (afterFin_plain _ _).away rfl rfl rfl rfl
  | chanClose at_ free =>
    have awake : σ.accept ≠ .parked := parked.not.mpr (by simp [free, at_, LoopPc.wakes])
    exact ⟨by simp [awake, LoopPc.wakes], by simp, by simp [LoopPc.ended], parks⟩
  | chanCloseWake at_ waits =>
    have shut := closed.mpr (by rw [at_]; rfl)
    rw [if_pos waits] at parks
    exact ⟨by simp [shut, LoopPc.wakes], by simp [shut], by simp [shut, LoopPc.ended], by simp [parks]⟩
  | finish at_ => exact channel.keep rfl rfl (by rw [at_]; rfl) (by rw [at_]; rfl) rfl rfl
  | start at_ | stop at_ | synNew at_ | chanCheck at_ | chanPush at_ | rst at_ | wakeRstRecv at_ | wakeRstSend at_
  | wakeRstEnd at_ | wuFound at_ | wuLost at_ | wakeWu at_ | downClosed at_ | down at_ | downWait at_ =>
    exact channel.away (plain at_ ⟨rfl, rfl⟩) ⟨rfl, rfl⟩ rfl rfl rfl rfl

theorem WireMove.channel {input : Input} (channel : σ.Channel) (move : WireMove σ input σ' eff) : σ'.Channel := by
  have plain : ∀ {pc : LoopPc}, σ.loop = pc → pc.Away → σ.loop.Away := fun at_ away => by rw [at_]; exact away
  cases move with
  | header at_ => exact channel.away (plain at_ ⟨rfl, rfl⟩) (muxDispatch_plain _).away rfl rfl rfl rfl
  | @failPayload h r at_ =>
    exact channel.away (plain at_ ⟨rfl, rfl⟩) (afterPush_plain h (some r)).away rfl rfl rfl rfl
  | discard at_ =>
    exact channel.away (plain at_ ⟨rfl, rfl⟩) (by dsimp only; split <;> exact ⟨rfl, rfl⟩) rfl rfl rfl rfl
  | ping at_ => cases eff <;> exact channel.away (plain at_ ⟨rfl, rfl⟩) ⟨rfl, rfl⟩ rfl rfl rfl rfl
  | version at_ | payload at_ | junk at_ | failHdr at_ | failDiscard at_ | pong at_ =>
    exact channel.away (plain at_ ⟨rfl, rfl⟩) ⟨rfl, rfl⟩ rfl rfl rfl rfl

namespace Session

theorem Channel.step (channel : σ.Channel) (move : SessionMove cfg σ act σ' eff) : σ'.Channel := by
  cases move with
  | opener | reader | writer | closer => cases eff <;> exact channel.keep rfl rfl rfl rfl rfl rfl
  | publish | refuse | free => exact channel.keep rfl rfl rfl rfl rfl rfl
  | accept move | loop move | wire move => exact move.channel channel
  | shut move =>
    cases move with
    | frame => cases eff <;> exact channel.keep rfl rfl rfl rfl rfl rfl
    | _ => exact channel.keep rfl rfl rfl rfl rfl rfl
  | user _ move =>
    cases move with
    | acceptStart at_ =>
      exact channel.awake (by simp [at_]) (by dsimp only; split <;> nofun) (Or.inl rfl) rfl rfl rfl
    | _ => exact channel.keep rfl rfl rfl rfl rfl rfl

/-- What every shutdown of a session relies on. -/
structure Winding (σ : Session) : Prop where
  resets : σ.Resets
  held : σ.Held
  channel : σ.Channel
  parks : ∀ r side, (σ.slots r).parks side = (σ.slots r).readies side + ((σ.slots r).isParked side).toNat

theorem Winding.create (cfg : Config) : (Session.create cfg).Winding where
  resets := ⟨by simp [Session.create], trivial, nofun⟩
  held := by rintro ⟨⟩ r <;> rfl
  channel := ⟨by simp [Session.create, LoopPc.wakes], nofun, by simp [Session.create, LoopPc.ended], rfl⟩
  parks := by rintro r ⟨⟩ <;> rfl

theorem Winding.step (winding : σ.Winding) (bal : σ.Balanced) (live : act ≠ .destroyFree)
    (move : SessionMove cfg σ act σ' eff) : σ'.Winding where
  resets := winding.resets.step live move
  held := winding.held.step bal winding.resets live move
  channel := winding.channel.step move
  parks := fun r side => by
    rcases move.slot r with step | ⟨_, _, ⟨_, new⟩ | ⟨h, _, _, new⟩⟩
    · obtain ⟨_, _, passes⟩ := step.passes (bal.closer r) live
      have before := winding.parks r side
      have moved := passes.parks side
      omega
    · rw [new]; cases side <;> rfl
    · rw [new]; cases side <;> rfl

theorem winding {guard : Session → Act → Prop} (reach : Session.Reachable cfg guard σ)
    (live : σ.freed = false) : σ.Winding := by
  induction reach with
  | start => exact .create cfg
  | next previous _ moved ih =>
    obtain ⟨before, eff, move⟩ := Session.next_move moved
    refine (ih before).step (Session.balanced previous before) ?_ move
    rintro rfl
    cases move with
    | free => cases live
    | user _ move => cases move

theorem Winding.released (winding : σ.Winding) (bal : σ.Balanced) (torn : σ.loop = .exited)
    (finished : σ.shut = .finished) : (∀ r, (σ.slots r).handed = true → (σ.slots r).s.state = .closed) ∧
    (∀ r side, (σ.slots r).waiter side = false ∧
      (σ.slots r).parks side = (σ.slots r).readies side + (σ.slots r).cl.detached side) ∧
    σ.accept ≠ .parked ∧ σ.acceptParks = σ.acceptReadies := by
  have reset : ∀ r ∈ σ.streams, (σ.slots r).Reset := fun r member => by
    obtain ⟨j, inside, here⟩ := List.getElem_of_mem member
    exact winding.resets.reset j (by rw [finished]; exact inside) r (by rw [List.getElem?_eq_getElem inside, here])
  have waiter : ∀ r side, (σ.slots r).waiter side = false := fun r side => by
    by_cases member : r ∈ σ.streams
    · exact (reset r member).waiter side
    · have idle := bal.unlinked_idle member
      have holders := winding.held side r
      have unparked : (σ.slots r).isParked side = false := by cases side <;> simp [idle, ReadPc.isParked, WritePc.isParked]
      rw [unparked, Session.holders, Slot.holders] at holders
      cases waits : (σ.slots r).waiter side
      · rfl
      · rw [waits] at holders
        simp at holders
  have awake : σ.accept ≠ .parked := by
    have closed := winding.channel.closed.mpr (by rw [torn]; rfl)
    exact winding.channel.parked.not.mpr (by simp [closed, torn, LoopPc.wakes])
  refine ⟨fun r handed => ?_, fun r side => ⟨waiter r side, ?_⟩, awake, ?_⟩
  · exact (reset r ((bal.links.table r).mpr (bal.handed_tabled handed))).state
  · have holders := winding.held side r
    have parks := winding.parks r side
    simp only [Session.holders, Slot.holders, waiter, torn, finished, LoopPc.detached, ShutPc.detached] at holders
    rw [parks, ← holders]
    simp
  · have parks := winding.channel.parks
    rwa [if_neg awake] at parks

end Session

end Moves

theorem Session.Linked.muxFree_keeps {σ : Session} (links : σ.Linked) {r : Nat} (P : Slot → Prop)
    (keeps : ∀ slot : Slot, P slot → P slot.unref) (before : P (σ.slots r)) : P (σ.muxFree.slots r) := by
  rw [links.muxFree_slots]
  repeat' split
  · exact keeps _ (keeps _ before)
  · exact keeps _ before
  · exact keeps _ before
  · exact before

/-- Whoever is about to make a parked coroutine ready is the only one to do so and finds it parked. Once the reader loop
is torn down and the call that closes the session has finished, every stream that was handed out is closed, no
coroutine is registered on a stream or on the accept channel, and each one that was ever parked there has been made
ready exactly once, but for those that a call of `xylem_mux_close_stream` has taken off and is about to make ready. -/
theorem shutdown_releases_everyone {cfg : Config} {σ : Session} (reach : Session.Reachable cfg (fun _ _ => True) σ) :
    (σ.freed = false → (∀ side r, σ.holders side r = ((σ.slots r).isParked side).toNat) ∧
      (σ.accept = .parked ↔ σ.chan = .parked ∨ σ.loop.wakes = true)) ∧
    (σ.loop = .exited → σ.shut = .finished → (∀ r, (σ.slots r).handed = true → (σ.slots r).s.state = .closed) ∧
      (∀ r side, (σ.slots r).waiter side = false ∧
        (σ.slots r).parks side = (σ.slots r).readies side + (σ.slots r).cl.detached side) ∧
      σ.accept ≠ .parked ∧ σ.acceptParks = σ.acceptReadies) := by
  by_cases freed : σ.freed = true
  · refine ⟨by simp [freed], ?_⟩
    obtain ⟨before, previous, live, destroying, finished, done, rfl⟩ := Session.freed_reach reach freed
    have bal := Session.balanced previous live
    intro torn _
    obtain ⟨closed, waiters, awake, parks⟩ := (Session.winding previous live).released bal torn finished
    refine ⟨fun r => bal.links.muxFree_keeps (fun slot => slot.handed = true → slot.s.state = .closed)
      (fun _ => id) (closed r), fun r side => ?_, awake, parks⟩
    exact bal.links.muxFree_keeps (fun slot => slot.waiter side = false ∧
      slot.parks side = slot.readies side + slot.cl.detached side) (fun _ => by cases side <;> exact id) (waiters r side)
  · have live := Bool.eq_false_iff.mpr freed
    have winding := Session.winding reach live
    exact ⟨fun _ => ⟨winding.held, winding.channel.parked⟩, winding.released (Session.balanced reach live)⟩

/-- A reader is parked on a stream when the peer goes away. -/
theorem shutdown_releases_everyone_parked_reader : ∃ σ : Session,
    Session.Reachable ⟨.client, 16⟩ (fun _ _ => True) σ ∧ (σ.slots 0).rdParks = 1 ∧ (σ.slots 0).rdReadies = 1 ∧
      (σ.slots 0).s.state = .closed := by
  obtain ⟨σ, reach, torn, finished, handed, parks, idle⟩ : ∃ σ : Session,
      Session.Reachable ⟨.client, 16⟩ (fun _ _ => True) σ ∧ σ.loop = .exited ∧ σ.shut = .finished ∧
        (σ.slots 0).handed = true ∧ (σ.slots 0).rdParks = 1 ∧ (σ.slots 0).cl = .idle :=
    Lib.exists_reach (Act.openStart :: List.replicate 4 (.runOpen 0 true) ++ [Act.openPublish 0, .readStart 0 8] ++
      List.replicate 3 (Act.runRead 0 true) ++ [Act.runLoop .go, .runLoop .fail, .runLoop .go] ++
      List.replicate 10 (Act.runShut true) ++ List.replicate 3 (Act.runLoop .go)) (by decide +kernel)
  obtain ⟨closed, waiters, _⟩ := (shutdown_releases_everyone reach).2 torn finished
  have count := (waiters 0 .recv).2
  simp only [Slot.parks, Slot.readies, idle, ClosePc.detached, parks] at count
  exact ⟨σ, reach, parks, by omega, closed 0 handed⟩

end Xylem.Mux
