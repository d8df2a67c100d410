import Mathlib.Data.Fintype.Basic
import Xylem.Sync.ChannelStir

namespace Xylem.Sync.Channel

open Container State

variable {ι : Type*}

/-- The points that only a receive with a timeout reaches. -/
def Pc.timed : Pc ι → Bool
  | .fired | .reservedFired | .cancel | .stop _ => true
  | _ => false

/-- What a party may rely on at a point of its call. -/
structure State.Calm (σ : State ι) (i : ι) (p : Pc ι) : Prop where
  pending : p = .pending → σ.waiter = .closed
  timed : p.timed = true → 0 < (σ.call (σ.record i)).timeoutMs
  ended : p = .ret none → σ.call (σ.record i) = .wait → σ.waiter = .closed ∧ σ.received = σ.sent
  sound : p ≠ .aborted

/-- The channel is closed once, with no send in progress, and nobody aborts. -/
structure State.Closing (σ : State ι) : Prop where
  closed : σ.waiter = .closed → ∀ j, (σ.pc j).sending = false ∧ σ.pc j ≠ .close
  closing : ∀ i, σ.pc i = .close → σ.waiter ≠ .closed ∧ ∀ j, (σ.pc j).sending = false ∧ (σ.pc j = .close → j = i)
  calm : ∀ i, σ.Calm i (σ.pc i)

variable {kind : ι → Kind} {σ σ' : State ι} {tokens tokens' : Tokens ι} {agent : ι ⊕ Record ι} {i : ι} {p : Pc ι}
  {w w' : Word ι} {p' : Pc ι} {r : Record ι}

theorem State.Closing.frame (closing : σ.Closing) (pc : σ'.pc = σ.pc) (waiter : σ'.waiter = σ.waiter)
    (epoch : σ'.epoch = σ.epoch) (call : σ'.call = σ.call) (sent : σ'.sent = σ.sent)
    (received : σ'.received = σ.received) : σ'.Closing where
  closed word j := by
    rw [pc]
    exact closing.closed (waiter ▸ word) j
  closing i at_ := by
    rw [pc] at at_ ⊢
    rw [waiter]
    exact closing.closing i at_
  calm i := by
    obtain ⟨pending, timed, ended, sound⟩ := closing.calm i
    have record : σ'.record i = σ.record i := by simp [State.record, epoch]
    rw [pc]
    refine ⟨waiter ▸ pending, ?_, ?_, sound⟩
    · rw [call, record]
      exact timed
    · rw [call, record, waiter, received, sent]
      exact ended

/-- The word changes, but not to or from `CHANNEL_WAITER_CLOSED`. -/
theorem State.Closing.word {word : Word ι} (closing : σ.Closing) (same : word = .closed ↔ σ.waiter = .closed) :
    State.Closing { σ with waiter := word } where
  closed closed := closing.closed (same.mp closed)
  closing i at_ := ⟨fun closed => (closing.closing i at_).1 (same.mp closed), (closing.closing i at_).2⟩
  calm i :=
    ⟨fun at_ => same.mpr ((closing.calm i).pending at_), (closing.calm i).timed,
      fun at_ call => ((closing.calm i).ended at_ call).imp same.mpr id, (closing.calm i).sound⟩

theorem Word.Transition.closed_iff {taken : Option (Record ι)} (transition : w.Transition w' taken) :
    w' = .closed ↔ w = .closed := by
  cases transition <;> simp

theorem Pc.Swaps.closed_iff (swaps : Pc.Swaps r p w w' p') : w' = .closed ↔ w = .closed := by
  cases swaps <;> simp

theorem State.Calm.free (pending : p ≠ .pending) (timed : p.timed = false) (ended : p ≠ .ret none) (sound : p ≠ .aborted) :
    σ.Calm i p :=
  ⟨fun at_ => absurd at_ pending, fun here => absurd (timed.symm.trans here) (by decide),
    fun at_ => absurd at_ ended, sound⟩

theorem Misses.calm (misses : Misses (σ.call (σ.record i)) p) : σ.Calm i p ∧ p.sending = false ∧ p ≠ .close := by
  generalize at_ : σ.call (σ.record i) = call at misses
  cases misses with
  | poll => exact ⟨⟨nofun, nofun, fun _ wait => absurd (at_.symm.trans wait) nofun, nofun⟩, rfl, nofun⟩
  | fired timed => exact ⟨⟨nofun, fun _ => at_ ▸ timed, nofun, nofun⟩, rfl, nofun⟩
  | closed => exact ⟨.free nofun rfl nofun nofun, rfl, nofun⟩

theorem Ends.calm {m : Msg ι} (ends : Ends (σ.call (σ.record i)) (some m) p) :
    σ.Calm i p ∧ p.sending = false ∧ p ≠ .close := by
  cases ends with
  | stop timed => exact ⟨⟨nofun, fun _ => timed, nofun, nofun⟩, rfl, nofun⟩
  | ret => exact ⟨.free nofun rfl nofun nofun, rfl, nofun⟩

theorem State.Calm.not_wait (calm : σ.Calm i (σ.pc i)) (timed : (σ.pc i).timed = true) :
    σ.call (σ.record i) ≠ .wait := fun wait => by
  have := calm.timed timed
  rw [wait] at this
  cases this

theorem Pc.Swaps.calm (swaps : Pc.Swaps (σ.record i) (σ.pc i) w w' p')
    (closing : σ.Closing) : State.Calm { σ with waiter := w' } i p' ∧ p'.sending = false ∧ p' ≠ .close := by
  have calm := closing.calm i
  generalize at_ : σ.pc i = p at swaps
  cases swaps with
  | cancel =>
    have timed := calm.not_wait (by rw [at_]; rfl)
    exact ⟨⟨nofun, nofun, fun _ wait => absurd wait timed, nofun⟩, rfl, nofun⟩
  | _ => exact ⟨.free nofun rfl nofun nofun, rfl, nofun⟩

theorem State.Closing.push (closing : σ.Closing) (at_ : σ.pc i = .sendPush) {sent : List (Msg ι)} {sends : ι → Nat}
    {queue : Mpsc.Queue (Msg ι)} : State.Closing { σ with queue := queue, sent := sent, sends := sends } where
  closed := closing.closed
  closing := closing.closing
  calm j := { closing.calm j with
    ended := fun here call => by
      have quiet := (closing.closed ((closing.calm j).ended here call).1 i).1
      rw [at_] at quiet
      cases quiet }

variable [DecidableEq ι]

theorem State.Closing.goto (closing : σ.Closing) (sends : p.sending = true → (σ.pc i).sending = true)
    (closes : p ≠ .close) (calm : σ.Calm i p) : (σ.goto i p).Closing where
  closed word j := by
    rw [goto_pc]
    split
    · rename_i own
      refine ⟨Bool.eq_false_iff.mpr fun sending => ?_, closes⟩
      have before := (closing.closed word i).1
      rw [sends sending] at before
      cases before
    · exact closing.closed word j
  closing j at_ := by
    rw [goto_pc] at at_
    split at at_
    · exact absurd at_ closes
    · refine ⟨(closing.closing j at_).1, fun k => ?_⟩
      have others := (closing.closing j at_).2
      rw [goto_pc]
      split
      · refine ⟨Bool.eq_false_iff.mpr fun sending => ?_, fun close => absurd close closes⟩
        have before := (others i).1
        rw [sends sending] at before
        cases before
      · exact others k
  calm j := by
    rw [goto_pc]
    split
    · rename_i own
      subst own
      exact ⟨calm.pending, calm.timed, calm.ended, calm.sound⟩
    · obtain ⟨pending, timed, ended, sound⟩ := closing.calm j
      exact ⟨pending, timed, ended, sound⟩

/-- The waiter slot is free when a coroutine reserves it, whatever timeout callbacks of earlier receives do. -/
theorem State.Inv.not_busy (inv : σ.Inv kind tokens) (at_ : σ.pc i = .reserve) :
    σ.waiter = .none ∨ σ.waiter = .closed := by
  obtain ⟨order, taken, line⟩ := inv.line
  obtain ⟨place, ledger⟩ := inv.ledger
  have here : (σ.pc i).role.receiving = true := by rw [at_]; rfl
  cases word : σ.waiter with
  | none => exact .inl rfl
  | closed => exact .inr rfl
  | wait =>
    obtain ⟨j, reserving⟩ := inv.reserved word
    obtain rfl := line.alone j i (Pc.receiving_of_reserving reserving) here
    rw [at_] at reserving
    cases reserving
  | waiter r =>
    have queued : r ∈ σ.waiter.queue := by simp [word, Word.queue]
    have waits := ((ledger.waiting r).mpr (by simp [(ledger.queued r).mp queued])).2
    obtain same := line.alone r.1 i (Pc.receiving_of_waits waits) here
    rw [same, at_] at waits
    cases waits

/-- The count of a closed channel is zero only when every message was received. -/
theorem State.Inv.received (inv : σ.Inv kind tokens) (at_ : σ.pc i = .pending) (zero : σ.count = 0) :
    σ.received = σ.sent := by
  obtain ⟨order, taken, line⟩ := inv.line
  obtain ⟨n, _, count⟩ := line.counts
  have empty : Mpsc.content order = [] := by
    rw [show σ.line.count = σ.count from rfl, zero] at count
    exact List.length_eq_zero_iff.mp (by omega)
  have nothing : taken = [] := by
    have held := line.held.holds i (by simp [State.line, at_, Pc.role, Role.receiving])
    simpa [State.line, at_, Pc.role, Role.holds] using held
  have sent := line.sent
  rw [empty, nothing] at sent
  simpa [State.line] using sent.symm

theorem State.Goes.calm (goes : σ.Goes (kind i) (σ.record i) (σ.pc i) p') (inv : σ.Inv kind tokens)
    (closing : σ.Closing) : σ.Calm i p' ∧ p'.sending = false ∧ p' ≠ .close := by
  have calm := closing.calm i
  generalize at_ : σ.pc i = p at goes calm
  cases goes with
  | busy taken other => exact ((inv.not_busy at_).elim taken other).elim
  | stop =>
    exact ⟨⟨nofun, fun _ => calm.timed rfl, nofun, nofun⟩, rfl, nofun⟩
  | closed word => exact ⟨⟨fun _ => word, nofun, nofun, nofun⟩, rfl, nofun⟩
  | emptyStop _ timed | reservedTimed timed | expire timed => exact ⟨⟨nofun, fun _ => timed, nofun, nofun⟩, rfl, nofun⟩
  | empty zero =>
    exact ⟨⟨nofun, nofun, fun _ _ => ⟨calm.pending rfl, inv.received at_ zero⟩, nofun⟩, rfl, nofun⟩
  | _ => exact ⟨.free nofun rfl nofun nofun, rfl, nofun⟩

section

variable (closing : σ.Closing)
include closing

namespace State.Closing

theorem ret {payload : Option (Msg ι)} {received : List (Msg ι)} {receiving : Bool}
    (alone : σ.Alone) (at_ : σ.pc i = .ret payload) :
    ({ σ with receiving := receiving, received := received }.goto i .out).Closing := by
  have out := closing.goto (i := i) (p := .out) nofun nofun (.free nofun rfl nofun nofun)
  refine ⟨out.closed, out.closing, fun j => { out.calm j with ended := fun here call => ?_ }⟩
  rw [goto_pc] at here
  split at here
  · cases here
  · rename_i other
    exact absurd (alone j i (by rw [show σ.pc j = _ from here]; rfl) (by rw [at_]; rfl)) other

theorem recv {call : Call} : (σ.channelRecv kind i call).Closing := by
  have out := closing.goto (i := i) (p := .pop .start) nofun nofun (.free nofun rfl nofun nofun)
  refine ⟨out.closed, out.closing, fun j => ?_⟩
  by_cases own : j = i
  · rw [State.channelRecv, goto_pc, if_pos own]
    exact .free nofun rfl nofun nofun
  · have record : (σ.channelRecv kind i call).record j = σ.record j := by
      simp [State.record, State.channelRecv, State.goto, own]
    have same : (σ.channelRecv kind i call).call (σ.record j) = σ.call (σ.record j) := by
      simp [State.record, State.channelRecv, State.goto, own]
    obtain ⟨pending, timed, ended, sound⟩ := out.calm j
    refine ⟨pending, fun here => ?_, fun here wait => ended here ?_, sound⟩
    · rw [record, same]
      exact timed here
    · rwa [record, same] at wait

theorem begin_send (open_ : σ.waiter ≠ .closed) (quiet : ∀ j, σ.pc j ≠ .close) : (σ.goto i .send).Closing where
  closed word := absurd word open_
  closing j at_ := by
    rw [goto_pc] at at_
    split at at_
    · cases at_
    · exact absurd at_ (quiet j)
  calm j := by
    rw [goto_pc]
    split
    · exact .free nofun rfl nofun nofun
    · obtain ⟨pending, timed, ended, sound⟩ := closing.calm j
      exact ⟨pending, timed, ended, sound⟩

theorem begin_close (open_ : σ.waiter ≠ .closed)
    (quiet : ∀ j, σ.pc j ≠ .close ∧ (σ.pc j).sending = false) : (σ.goto i .close).Closing where
  closed word := absurd word open_
  closing j at_ := by
    have own : ∀ k, (σ.goto i .close).pc k = .close → k = i := fun k here => by
      rw [goto_pc] at here
      split at here
      · assumption
      · exact absurd here (quiet k).1
    refine ⟨open_, fun k => ⟨?_, fun here => (own k here).trans (own j at_).symm⟩⟩
    rw [goto_pc]
    split
    · rfl
    · exact (quiet k).2
  calm j := by
    rw [goto_pc]
    split
    · exact .free nofun rfl nofun nofun
    · obtain ⟨pending, timed, ended, sound⟩ := closing.calm j
      exact ⟨pending, timed, ended, sound⟩

theorem shut (at_ : σ.pc i = .close) (out : p.sending = false) (closes : p ≠ .close)
    (calm : State.Calm { σ with waiter := .closed } i p) : ({ σ with waiter := .closed }.goto i p).Closing where
  closed _ j := by
    rw [goto_pc]
    split
    · exact ⟨out, closes⟩
    · rename_i other
      have others := (closing.closing i at_).2 j
      exact ⟨others.1, fun here => other (others.2 here)⟩
  closing j here := by
    rw [goto_pc] at here
    split at here
    · exact absurd here closes
    · rename_i other
      exact absurd (((closing.closing i at_).2 j).2 here) other
  calm j := by
    have open_ := (closing.closing i at_).1
    rw [goto_pc]
    split
    · rename_i own
      subst own
      exact ⟨calm.pending, calm.timed, calm.ended, calm.sound⟩
    · obtain ⟨pending, timed, ended, sound⟩ := closing.calm j
      exact ⟨fun here => absurd (pending here) open_, timed, fun here wait => absurd (ended here wait).1 open_, sound⟩

theorem on {q : Pc ι} (at_ : σ.pc i = q) (sends : p.sending = q.sending)
    (closes : p ≠ .close) (calm : σ.Calm i p) : (σ.goto i p).Closing :=
  closing.goto (fun sending => by rw [at_, ← sends, sending]) closes calm

end State.Closing

end

theorem Move.closing (move : Move kind σ tokens agent σ' tokens') (inv : σ.Inv kind tokens) (closing : σ.Closing)
    (sends : ∀ i, σ.pc i = .out → σ'.pc i = .send → σ.Contract (.send i))
    (closes : ∀ i, σ.pc i = .out → σ'.pc i = .close → σ.Contract (.close i)) : σ'.Closing := by
  cases move with
  | @send i at_ =>
    obtain ⟨open_, quiet⟩ := sends i at_ (by rw [goto_pc, if_pos rfl])
    exact closing.begin_send open_ quiet
  | @close i at_ =>
    obtain ⟨open_, quiet⟩ := closes i at_ (by rw [goto_pc, if_pos rfl])
    exact closing.begin_close open_ quiet
  | @sendClosed i at_ word =>
    have quiet := (closing.closed word i).1
    rw [at_] at quiet
    cases quiet
  | shutTwice at_ word => exact absurd word (closing.closing _ at_).1
  | sendOpen at_ => exact closing.on at_ rfl nofun (.free nofun rfl nofun nofun)
  | count at_ =>
    exact State.Closing.on (σ := { σ with count := _ }) (closing.frame rfl rfl rfl rfl rfl rfl) at_ rfl nofun
      (.free nofun rfl nofun nofun)
  | clear at_ | link at_ | pop at_ | popped at_ =>
    exact State.Closing.on (σ := { σ with queue := _ }) (closing.frame rfl rfl rfl rfl rfl rfl) at_ rfl nofun
      (.free nofun rfl nofun nofun)
  | push at_ =>
    exact State.Closing.on (σ := { σ with queue := _, sends := _, sent := _ }) (closing.push at_) at_ rfl nofun
      (.free nofun rfl nofun nofun)
  | @transition i word at_ step =>
    exact State.Closing.goto (σ := { σ with waiter := _ }) (closing.word step.closed_iff) nofun nofun
      (.free nofun rfl nofun nofun)
  | @take i word r at_ step =>
    exact State.Closing.on (σ := { σ with waiter := _ }) (closing.word step.closed_iff) at_ rfl nofun
      (.free nofun rfl nofun nofun)
  | shut at_ | shutTake at_ => exact closing.shut at_ rfl nofun (.free nofun rfl nofun nofun)
  | recv => exact closing.recv
  | missed at_ _ misses =>
    obtain ⟨calm, out, closes⟩ := misses.calm
    exact State.Closing.on (σ := { σ with queue := _ }) (closing.frame rfl rfl rfl rfl rfl rfl) at_ out closes
      ⟨calm.pending, calm.timed, calm.ended, calm.sound⟩
  | took at_ ends =>
    obtain ⟨calm, out, closes⟩ := ends.calm
    exact State.Closing.on (σ := { σ with count := _ }) (closing.frame rfl rfl rfl rfl rfl rfl) at_ out closes
      ⟨calm.pending, calm.timed, calm.ended, calm.sound⟩
  | goes step =>
    obtain ⟨calm, out, closes⟩ := step.calm inv closing
    exact closing.goto (fun sending => absurd (out.symm.trans sending) (by decide)) closes calm
  | swaps step =>
    obtain ⟨calm, out, closes⟩ := step.calm closing
    exact State.Closing.goto (σ := { σ with waiter := _ }) (closing.word step.closed_iff)
      (fun sending => absurd (out.symm.trans sending) (by decide)) closes calm
  | await | wakeThrd => exact closing.goto nofun nofun (.free nofun rfl nofun nofun)
  | @stop i payload at_ =>
    have untimed := (closing.calm i).not_wait (by rw [at_]; rfl)
    have stopped : (σ.timerStop (σ.record i)).Closing := by
      unfold timerStop
      split
      · exact closing.frame rfl rfl rfl rfl rfl rfl
      · exact closing
    refine stopped.goto nofun nofun ⟨nofun, nofun, fun _ wait => absurd ?_ untimed, nofun⟩
    unfold timerStop at wait
    split at wait <;> exact wait
  | ret at_ =>
    obtain ⟨_, _, line⟩ := inv.line
    exact closing.ret line.alone at_
  | wakeCoro =>
    exact (closing.goto (p := .out) nofun nofun (.free nofun rfl nofun nofun)).goto nofun nofun
      (.free nofun rfl nofun nofun)
  | fire | timerThrd => exact closing.frame rfl rfl rfl rfl rfl rfl
  | timerTransition _ step | timerTake _ step =>
    exact (closing.word step.closed_iff).frame rfl rfl rfl rfl rfl rfl
  | timerCoro =>
    exact State.Closing.goto (σ := { σ with timer := _ }) (closing.frame rfl rfl rfl rfl rfl rfl) nofun nofun
      (.free nofun rfl nofun nofun)

/-- A party outside of every call moves only by an action of its own. -/
theorem Move.out (move : Move kind σ tokens agent σ' tokens') (at_ : σ.pc i = .out) :
    agent = .inl i ∨ σ'.pc i = .out := by
  by_cases own : agent = .inl i
  · exact .inl own
  · refine .inr ?_
    cases move <;> simp only [goto_pc, State.channelRecv, timerStop_pc] <;> grind

section

variable {act : Act ι} (step : σ.step kind tokens act = some (σ', tokens')) (at_ : σ.pc i = .out)
include step at_

theorem State.step_starts (now : σ'.pc i = .send ∨ σ'.pc i = .close) :
    act = .send i ∧ σ'.pc i = .send ∨ act = .close i ∧ σ'.pc i = .close := by
  have own : act.agent = .inl i := ((step_move step).out at_).resolve_right fun out => by simp [out] at now
  cases act with
  | timer => cases own
  | run j =>
    cases Sum.inl.inj own
    simp [State.step, State.run, at_] at step
  | send j | close j | recv j call | expire j =>
    cases Sum.inl.inj own
    obtain ⟨_, same⟩ := Option.ite_none_right_eq_some.mp step
    cases same
    simp [State.channelRecv, goto_pc] at now ⊢

theorem State.step_send (now : σ'.pc i = .send) : act = .send i := by
  rcases step_starts step at_ (.inl now) with ⟨is, -⟩ | ⟨-, closes⟩
  · exact is
  · cases now.symm.trans closes

theorem State.step_close (now : σ'.pc i = .close) : act = .close i := by
  rcases step_starts step at_ (.inr now) with ⟨-, sends⟩ | ⟨is, -⟩
  · cases now.symm.trans sends
  · exact is

end

abbrev Sys (ι : Type*) := State ι × Tokens ι

def Sys.step (kind : ι → Kind) (s : Sys ι) (act : Act ι) : Option (Sys ι) := s.1.step kind s.2 act

def Sys.init : Sys ι := (create, fun _ => 0)

abbrev Sys.Reachable (kind : ι → Kind) : Sys ι → Prop :=
  Lib.Reach (Sys.step kind) (fun s act => s.1.Contract act) Sys.init

structure Sys.Inv (kind : ι → Kind) (s : Sys ι) : Prop extends s.1.Inv kind s.2 where
  closing : s.1.Closing
  clean : ∀ i, (s.1.pc i).waits = false → s.2 i = 0
  tokenless : ∀ i, kind i = .coro → s.2 i = 0

variable {s : Sys ι}

theorem Sys.Reachable.inv (run : Sys.Reachable kind s) : s.Inv kind := by
  have start : Sys.Inv kind Sys.init := ⟨create_inv kind _, ⟨nofun, nofun, fun _ => .free nofun rfl nofun nofun⟩, fun _ _ => rfl, fun _ _ => rfl⟩
  refine Lib.Reach.invariant start (fun s act t _ inv contract step => ?_) run
  have move := step_move step
  obtain ⟨_, ledger⟩ := inv.ledger
  have sends : ∀ i, s.1.pc i = .out → t.1.pc i = .send → s.1.Contract (.send i) := fun i at_ now =>
    step_send step at_ now ▸ contract
  have closes : ∀ i, s.1.pc i = .out → t.1.pc i = .close → s.1.Contract (.close i) := fun i at_ now =>
    step_close step at_ now ▸ contract
  refine ⟨move.inv inv.toInv fun i _ registers => inv.clean i (Pc.not_waits_of_registers registers),
    move.closing inv.toInv inv.closing sends closes, fun j away => ?_, move.tokenless inv.tokenless⟩
  have clean := move.clean ledger j
  by_cases waits : (s.1.pc j).waits = true
  · exact clean.2 waits away
  · rw [clean.1 (by simpa using waits)]
    exact inv.clean j (by simpa using waits)

/-- Parked as a coroutine or blocked as a thread. -/
def Pc.blocked : Pc ι → Bool
  | .parked | .await | .drain => true
  | _ => false

/-- A wake of the waiter of a party is on its way: it is in the hands of an agent, it is a token of the thread, or a
sender is about to take it from the word. -/
def State.WakePending (σ : State ι) (tokens : Tokens ι) (i : ι) : Prop :=
  (∃ agent, σ.Hand agent (σ.record i)) ∨ 0 < tokens i ∨ σ.waiter = .waiter (σ.record i) ∧ ∃ j, σ.pc j = .sendTransition

theorem Sys.Inv.wakes (inv : s.Inv kind) (blocked : (s.1.pc i).blocked = true)
    (due : s.1.queue.canPop = true ∨ s.1.waiter = .closed) : s.1.WakePending s.2 i := by
  obtain ⟨place, ledger⟩ := inv.ledger
  have waits : s.1.Waits (s.1.record i) := ⟨rfl, show (s.1.pc i).waits = true by
    cases pc : s.1.pc i <;> simp_all [Pc.blocked, Pc.waits]⟩
  have checked : (s.1.pc i).checked = true := by cases pc : s.1.pc i <;> simp_all [Pc.blocked, Pc.checked]
  have lives := (ledger.waiting _).mp waits
  cases here : place (s.1.record i) with
  | none => exact absurd here lives
  | hand agent => exact .inl ⟨agent, (ledger.handed _ _).mpr here⟩
  | token => exact .inr (.inl (by rw [show s.2 i = 1 from ledger.given _ here]; decide))
  | queue =>
    have queued := (ledger.queued _).mpr here
    have word : s.1.waiter = .waiter (s.1.record i) := by
      cases word : s.1.waiter <;> simp_all [Word.queue]
    refine .inr (.inr ⟨word, inv.stirred i checked (by rw [word]; rfl) (due.resolve_right ?_)⟩)
    simp [word]

/-- The coroutine whose waiter an agent holds is parked, so that readying it does not abort. -/
theorem Sys.Inv.parked (inv : s.Inv kind) (hand : s.1.Hand agent r)
    (coro : kind r.1 = .coro) : s.1.pc r.1 = .parked ∧ s.1.record r.1 = r := by
  obtain ⟨place, ledger⟩ := inv.ledger
  obtain ⟨current, waits⟩ := ledger.hand_waits hand
  have fits := inv.fits r.1
  rw [coro] at fits
  refine ⟨?_, current⟩
  cases pc : s.1.pc r.1 <;> simp_all [Pc.waits, Pc.Fits]

/-- Every message that was pushed has been returned by one receive, is held by the receive in progress or is in the queue,
in the order of the pushes, and those of one sender in the order of its sends; a receive without a timeout returns nothing
only when the channel is closed and every message was received; a blocked receiver with a linked message or a closed
channel has a wake on its way; and neither the busy waiter slot nor any other abort is reached. -/
theorem channel_delivers (kind : ι → Kind) {s : Sys ι} (run : Sys.Reachable kind s) :
    (∃ order taken, Mpsc.Chain s.1.queue order (fun i => (s.1.pc i).role.owes (i, s.1.sends i)) ∧
      s.1.sent = s.1.received ++ taken ++ Mpsc.content order ∧
      ∀ m ∈ taken, ∃ i, (s.1.pc i).role.holds = some m) ∧
    s.1.sent.Nodup ∧
    (∀ i, (s.1.sent.filter (·.1 = i)).map (·.2) = List.range' 1 (s.1.sends i) ∧
      (s.1.received.filter (·.1 = i)).map (·.2) <+: List.range' 1 (s.1.sends i)) ∧
    (∀ i, s.1.pc i = .ret none → s.1.call (s.1.record i) = .wait → s.1.waiter = .closed ∧ s.1.received = s.1.sent) ∧
    (∀ i, (s.1.pc i).blocked = true → s.1.queue.canPop = true ∨ s.1.waiter = .closed → s.1.WakePending s.2 i) ∧
    (∀ i, s.1.pc i ≠ .aborted) ∧
    ∀ agent r, s.1.Hand agent r → kind r.1 = .coro → s.1.pc r.1 = .parked ∧ s.1.record r.1 = r := by
  have inv := run.inv
  obtain ⟨order, taken, line⟩ := inv.line
  have early : s.1.received <+: s.1.sent := by
    rw [show s.1.sent = _ from line.sent, List.append_assoc]
    exact List.prefix_append _ _
  refine ⟨⟨order, taken, line.chain, line.sent, fun m here => ?_⟩, line.nodup,
    fun i => ⟨line.own i, line.own i ▸ (early.filter _).map _⟩,
    fun i => (inv.closing.calm i).ended, fun i => inv.wakes, fun i => (inv.closing.calm i).sound,
    fun agent r => inv.parked⟩
  by_contra nobody
  have empty : taken = [] := line.held.idle fun i => Bool.eq_false_iff.mpr fun receiving => by
    rw [line.held.holds i receiving] at here
    exact nobody ⟨i, Option.mem_toList.mp here⟩
  rw [empty] at here
  cases here

instance [Fintype ι] (σ : State ι) (act : Act ι) : Decidable (σ.Contract act) := by
  cases act <;> unfold State.Contract <;> infer_instance

/-- A thread is blocked, and a sender has linked its message. -/
theorem channel_delivers_blocked : ∃ s : Sys Bool, Sys.Reachable (fun i => if i then .thrd else .coro) s ∧
    s.1.pc true = .await ∧ s.1.sent = [(false, 1)] ∧ s.1.received = [] ∧ s.1.WakePending s.2 true := by
  obtain ⟨s, run, at_, canPop, sent, received⟩ : ∃ s : Sys Bool, Sys.Reachable (fun i => if i then .thrd else .coro) s ∧
        s.1.pc true = .await ∧ s.1.queue.canPop = true ∧ s.1.sent = [(false, 1)] ∧ s.1.received = [] :=
    Lib.exists_reach ([Act.recv true .wait] ++ List.replicate 6 (Act.run true) ++ [Act.send false] ++
      List.replicate 5 (Act.run false)) (by decide +kernel)
  have wakes := (channel_delivers _ run).2.2.2.2.1 true
  exact ⟨s, run, at_, sent, received, wakes (by rw [at_]; rfl) (.inl canPop)⟩

end Xylem.Sync.Channel
