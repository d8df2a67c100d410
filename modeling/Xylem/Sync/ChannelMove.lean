import Xylem.Sync.Channel

namespace Xylem.Sync.Channel

open Container Option State

variable {ι : Type*}

/-- The outcomes of `_channel_transition_waiter` to `CHANNEL_WAITER_NONE`. -/
inductive Word.Transition : Word ι → Word ι → Option (Record ι) → Prop
  | none_ : Transition .none .none Option.none
  | closed : Transition .closed .closed Option.none
  | wait : Transition .wait .none Option.none
  | waiter {r} : Transition (.waiter r) .none (some r)

/-- The outcomes of `_channel_transition_waiter` to `CHANNEL_WAITER_CLOSED` on an open channel. -/
inductive Word.Closing : Word ι → Option (Record ι) → Prop
  | none_ : Closing .none Option.none
  | wait : Closing .wait Option.none
  | waiter {r} : Closing (.waiter r) (some r)

/-- The compare-and-swap steps of a receiver that succeed: what they expect and store, and where they lead. -/
inductive Pc.Swaps (r : Record ι) : Pc ι → Word ι → Word ι → Pc ι → Prop
  | reserve : Swaps r .reserve .none .wait .reserved
  | unreserve : Swaps r .unreserve .wait .none (.pop .start)
  | commit : Swaps r .commit .wait (.waiter r) .parked
  | publish : Swaps r .publish .none (.waiter r) .published
  | withdraw : Swaps r .withdraw (.waiter r) .none (.pop .start)
  | cancel : Swaps r .cancel (.waiter r) .none (.ret none)

variable (kind : Kind) (σ : State ι) (r : Record ι)

/-- The steps of a receiver that change nothing but where it is. -/
inductive State.Goes : Pc ι → Pc ι → Prop
  | stop : σ.timerFired r = true → Goes .fired (.stop none)
  | unfired : Goes .fired .closed
  | closed : σ.waiter = .closed → Goes .closed .pending
  | reserve : kind = .coro → σ.waiter ≠ .closed → Goes .closed .reserve
  | publish : kind = .thrd → σ.waiter ≠ .closed → Goes .closed .publish
  | emptyStop : σ.count = 0 → 0 < (σ.call r).timeoutMs → Goes .pending (.stop none)
  | empty : σ.count = 0 → Goes .pending (.ret none)
  | retry : Goes .pending (.pop .start)
  | reserveClosed : Goes .reserve (.pop .start)
  | busy : σ.waiter ≠ .none → σ.waiter ≠ .closed → Goes .reserve .aborted
  | reservedPop : Goes .reserved .unreserve
  | reservedEmpty : σ.queue.canPop = false → Goes .reserved .reservedClosed
  | reservedClosed : Goes .reservedClosed .unreserve
  | reservedTimed : 0 < (σ.call r).timeoutMs → Goes .reservedClosed .reservedFired
  | reservedOpen : Goes .reservedClosed .commit
  | reservedFired : Goes .reservedFired .unreserve
  | reservedUnfired : Goes .reservedFired .commit
  | unreserved : σ.waiter ≠ .wait → Goes .unreserve (.pop .start)
  | refused : σ.waiter ≠ .wait → Goes .commit (.pop .start)
  | unpublished : Goes .publish (.pop .start)
  | publishedClosed : Goes .published .withdraw
  | publishedOpen : Goes .published .publishedPop
  | publishedPop : Goes .publishedPop .withdraw
  | publishedEmpty : σ.queue.canPop = false → Goes .publishedPop .await
  | taken : σ.waiter ≠ .waiter r → Goes .withdraw .await
  | expire : 0 < (σ.call r).timeoutMs → Goes .await .cancel
  | drain : σ.waiter ≠ .waiter r → Goes .cancel .drain

/-- Where a receive ends with a payload. -/
inductive Ends (call : Call) (payload : Option (Msg ι)) : Pc ι → Prop
  | stop : 0 < call.timeoutMs → Ends call payload (.stop payload)
  | ret : Ends call payload (.ret payload)

/-- Where a receive goes on without a message. -/
inductive Misses : Call → Pc ι → Prop
  | poll : Misses (.timedwait 0) (.ret none)
  | fired {call} : 0 < call.timeoutMs → Misses call .fired
  | closed {call} : Misses call .closed

variable [DecidableEq ι] (kind : ι → Kind) (σ : State ι) (tokens : Tokens ι)

/-- What a step of an agent, a party or a timeout callback, can do to the channel and the tokens. -/
inductive Move : ι ⊕ Record ι → State ι → Tokens ι → Prop
  | send {i} : σ.pc i = .out → Move (.inl i) (σ.goto i .send) tokens
  | sendOpen {i} : σ.pc i = .send → Move (.inl i) (σ.goto i .sendCount) tokens
  | sendClosed {i} : σ.pc i = .send → σ.waiter = .closed → Move (.inl i) (σ.goto i .aborted) tokens
  | count {i} : σ.pc i = .sendCount → Move (.inl i) ({ σ with count := σ.count + 1 }.goto i .sendClear) tokens
  | clear {i} : σ.pc i = .sendClear →
      Move (.inl i) ({ σ with queue := σ.queue.clear (some (σ.message i)) }.goto i .sendPush) tokens
  | push {i} : σ.pc i = .sendPush → Move (.inl i) ({ σ with
        queue := σ.queue.exchange (some (σ.message i))
        sends := Function.update σ.sends i (σ.sends i + 1)
        sent := σ.sent ++ [σ.message i] }.goto i (.sendLink σ.queue.tail)) tokens
  | link {i prev} : σ.pc i = .sendLink prev → Move (.inl i)
        ({ σ with queue := σ.queue.link prev (some (i, σ.sends i)) }.goto i .sendTransition) tokens
  | transition {i word} : σ.pc i = .sendTransition → σ.waiter.Transition word none →
      Move (.inl i) ({ σ with waiter := word }.goto i .out) tokens
  | take {i word r} : σ.pc i = .sendTransition → σ.waiter.Transition word (some r) →
      Move (.inl i) ({ σ with waiter := word }.goto i (.sendWake r)) tokens
  | close {i} : σ.pc i = .out → Move (.inl i) (σ.goto i .close) tokens
  | shut {i} : σ.pc i = .close → σ.waiter.Closing none → Move (.inl i) ({ σ with waiter := .closed }.goto i .out) tokens
  | shutTake {i r} : σ.pc i = .close → σ.waiter.Closing (some r) →
      Move (.inl i) ({ σ with waiter := .closed }.goto i (.closeWake r)) tokens
  | shutTwice {i} : σ.pc i = .close → σ.waiter = .closed → Move (.inl i) (σ.goto i .aborted) tokens
  | recv {i call} : σ.pc i = .out → σ.receiving = false → Move (.inl i) (σ.channelRecv kind i call) tokens
  | pop {i at_ queue next} : σ.pc i = .pop at_ → σ.queue.pop at_ = (queue, .goto next) →
      Move (.inl i) ({ σ with queue := queue }.goto i (.pop next)) tokens
  | popped {i at_ queue m} : σ.pc i = .pop at_ → σ.queue.pop at_ = (queue, .done (some m)) →
      Move (.inl i) ({ σ with queue := queue }.goto i (.took m)) tokens
  | missed {i at_ queue pc} : σ.pc i = .pop at_ → σ.queue.pop at_ = (queue, .done none) →
      Misses (σ.call (σ.record i)) pc → Move (.inl i) ({ σ with queue := queue }.goto i pc) tokens
  | took {i m pc} : σ.pc i = .took m → Ends (σ.call (σ.record i)) (some m) pc →
      Move (.inl i) ({ σ with count := σ.count - 1 }.goto i pc) tokens
  | goes {i pc} : σ.Goes (kind i) (σ.record i) (σ.pc i) pc → Move (.inl i) (σ.goto i pc) tokens
  | swaps {i next pc} : Pc.Swaps (σ.record i) (σ.pc i) σ.waiter next pc →
      Move (.inl i) ({ σ with waiter := next }.goto i pc) tokens
  | await {i} : σ.pc i = .await ∨ σ.pc i = .drain → 0 < tokens i →
      Move (.inl i) (σ.goto i (.pop .start)) (Function.update tokens i (tokens i - 1))
  | stop {i payload} : σ.pc i = .stop payload → Move (.inl i) ((σ.timerStop (σ.record i)).goto i (.ret payload)) tokens
  | ret {i payload} : σ.pc i = .ret payload → Move (.inl i)
        ({ σ with receiving := false, received := σ.received ++ payload.toList }.goto i .out) tokens
  | wakeCoro {i r} : σ.pc i = .sendWake r ∨ σ.pc i = .closeWake r → r.1 ≠ i → σ.pc r.1 = .parked →
      σ.record r.1 = r → kind r.1 = .coro →
      Move (.inl i) ((σ.goto i .out).goto r.1 (.pop .start)) tokens
  | wakeThrd {i r} : σ.pc i = .sendWake r ∨ σ.pc i = .closeWake r → kind r.1 = .thrd →
      Move (.inl i) (σ.goto i .out) (thrdWakeSignal tokens r.1)
  | fire {t} : σ.timer t = .armed → Move (.inr t) { σ with
        timer := Function.update σ.timer t .transition
        timerFired := Function.update σ.timerFired t true } tokens
  | timerTransition {t word} : σ.timer t = .transition → σ.waiter.Transition word none →
      Move (.inr t) { σ with waiter := word, timer := Function.update σ.timer t .done } tokens
  | timerTake {t word r} : σ.timer t = .transition → σ.waiter.Transition word (some r) →
      Move (.inr t) { σ with waiter := word, timer := Function.update σ.timer t (.wake r) } tokens
  | timerCoro {t r} : σ.timer t = .wake r → σ.pc r.1 = .parked → σ.record r.1 = r → kind r.1 = .coro →
      Move (.inr t) ({ σ with timer := Function.update σ.timer t .done }.goto r.1 (.pop .start)) tokens
  | timerThrd {t r} : σ.timer t = .wake r → kind r.1 = .thrd →
      Move (.inr t) { σ with timer := Function.update σ.timer t .done } (thrdWakeSignal tokens r.1)

variable {kind : ι → Kind} {σ σ' : State ι} {tokens tokens' : Tokens ι} {i : ι}

def Act.agent : Act ι → ι ⊕ Record ι
  | .send i | .close i | .recv i _ | .run i | .expire i => .inl i
  | .timer t => .inr t

namespace State

omit [DecidableEq ι] in
theorem channelTransitionNone_eq (σ : State ι) : ∃ word taken,
    σ.waiter.Transition word taken ∧ σ.channelTransitionNone = ({ σ with waiter := word }, taken) := by
  unfold channelTransitionNone
  split <;> rename_i at_
  · exact ⟨.none, none, at_ ▸ .none_, by rw [← at_]⟩
  · exact ⟨.closed, none, at_ ▸ .closed, by rw [← at_]⟩
  · exact ⟨.none, none, at_ ▸ .wait, rfl⟩
  · exact ⟨.none, _, at_ ▸ .waiter, rfl⟩

theorem casWaiter_move {expected next : Word ι} {success failure : Pc ι}
    (swaps : Pc.Swaps (σ.record i) (σ.pc i) expected next success)
    (goes : σ.waiter ≠ expected → Move kind σ tokens (.inl i) (σ.goto i failure) tokens) :
    Move kind σ tokens (.inl i) (σ.casWaiter i expected next success failure) tokens := by
  unfold casWaiter
  split
  · rename_i same
    exact .swaps (same ▸ swaps)
  · exact goes ‹_›

theorem channelWake_move {r : Record ι} (at_ : σ.pc i = .sendWake r ∨ σ.pc i = .closeWake r)
    (step : (σ.goto i .out).channelWake kind tokens r = some (σ', tokens')) : Move kind σ tokens (.inl i) σ' tokens' := by
  unfold channelWake at step
  split at step <;> rename_i kinds
  · obtain ⟨⟨parked, current⟩, same⟩ := ite_none_right_eq_some.mp step
    cases same
    have other : r.1 ≠ i := fun self => by simp [goto, self] at parked
    exact .wakeCoro at_ other (by simpa [goto, other] using parked) current kinds
  · cases step
    exact .wakeThrd at_ kinds

omit [DecidableEq ι] in
theorem finish_ends (kind : ι → Kind) (σ : State ι) (i : ι) (payload : Option (Msg ι)) :
    Ends (σ.call (σ.record i)) payload (σ.finish kind i payload) := by
  unfold finish
  split
  · rename_i timed
    exact .stop timed.2
  · exact .ret

omit [DecidableEq ι] in
theorem missed_misses : Misses (σ.call (σ.record i)) (σ.missed kind i) := by
  unfold missed
  split <;> rename_i call
  · exact call ▸ .poll
  · split
    · exact .fired (call ▸ Nat.succ_pos _)
    · exact .closed
  · exact .closed

theorem close_move (at_ : σ.pc i = .close) (step : (match σ.channelTransitionClosed with
      | none => some (σ.goto i .aborted, tokens)
      | some (σ', some r) => some (σ'.goto i (.closeWake r), tokens)
      | some (σ', none) => some (σ'.goto i .out, tokens)) = some (σ', tokens')) :
    Move kind σ tokens (.inl i) σ' tokens' := by
  unfold channelTransitionClosed at step
  split at step <;> rename_i word <;> split at word <;> rename_i was <;> cases word <;> cases step
  · exact .shutTwice at_ was
  · exact .shutTake at_ (was ▸ .waiter)
  · exact .shut at_ (was ▸ .none_)
  · exact .shut at_ (was ▸ .wait)

theorem pop_move {at_ : Mpsc.PopPc (Msg ι)} (here : σ.pc i = .pop at_) (step : (match σ.queue.pop at_ with
      | (queue, .goto at_) => some ({ σ with queue := queue }.goto i (.pop at_), tokens)
      | (queue, .done (some m)) => some ({ σ with queue := queue }.goto i (.took m), tokens)
      | (queue, .done none) => some ({ σ with queue := queue }.goto i (σ.missed kind i), tokens)) =
        some (σ', tokens')) : Move kind σ tokens (.inl i) σ' tokens' := by
  split at step <;> rename_i popped <;> cases step
  · exact .pop here popped
  · exact .popped here popped
  · exact .missed here popped missed_misses

theorem goes_move {pc : Pc ι} (at_ : σ.pc i = pc) {c : Prop} [Decidable c] {yes no : Pc ι}
    (first : c → σ.Goes (kind i) (σ.record i) pc yes) (second : ¬ c → σ.Goes (kind i) (σ.record i) pc no) :
    Move kind σ tokens (.inl i) (σ.goto i (if c then yes else no)) tokens := by
  split
  · exact .goes (at_ ▸ first ‹_›)
  · exact .goes (at_ ▸ second ‹_›)

theorem run_move (step : σ.run kind tokens i = some (σ', tokens')) : Move kind σ tokens (.inl i) σ' tokens' := by
  unfold run at step
  cases at_ : σ.pc i <;> simp only [at_] at step
  case out | parked | aborted => cases step
  case sendWake | closeWake => exact channelWake_move (by simp [at_]) step
  case close => exact close_move at_ step
  case pop => exact pop_move at_ step
  case await | drain =>
    obtain ⟨tokens'', taken, same⟩ := map_eq_some_iff.mp step
    cases same
    obtain ⟨some_, rfl⟩ := thrdWakeTry_eq_some.mp taken
    exact .await (by simp [at_]) some_
  all_goals cases step
  case send =>
    split
    · exact .sendClosed at_ ‹_›
    · exact .sendOpen at_
  case sendCount => exact .count at_
  case sendClear => exact .clear at_
  case sendPush => exact .push at_
  case sendLink => exact .link at_
  case sendTransition =>
    obtain ⟨word, taken, transition, same⟩ := σ.channelTransitionNone_eq
    rw [same]
    cases taken with
    | none => exact .transition at_ transition
    | some r => exact .take at_ transition
  case took => exact .took at_ (finish_ends ..)
  case fired => exact goes_move at_ .stop fun _ => .unfired
  case closed =>
    refine goes_move at_ .closed fun open_ => ?_
    cases kinds : kind i with
    | coro => exact .reserve rfl open_
    | thrd => exact .publish rfl open_
  case pending =>
    refine goes_move at_ (fun zero => ?_) fun _ => .retry
    cases ends : σ.finish kind i none
    all_goals have here := ends ▸ finish_ends kind σ i none
    all_goals cases here
    · exact .emptyStop zero ‹_›
    · exact .empty zero
  case reserve =>
    exact casWaiter_move (at_ ▸ .reserve) fun taken =>
      goes_move at_ (fun _ => .reserveClosed) (.busy taken)
  case reserved =>
    exact goes_move at_ (fun _ => .reservedPop) fun empty => .reservedEmpty (by simpa using empty)
  case reservedClosed =>
    refine goes_move at_ (fun _ => .reservedClosed) fun _ => ?_
    split
    · exact .reservedTimed (of_decide_eq_true ‹_›)
    · exact .reservedOpen
  case reservedFired => exact goes_move at_ (fun _ => .reservedFired) fun _ => .reservedUnfired
  case unreserve => exact casWaiter_move (at_ ▸ .unreserve) fun taken => .goes (at_ ▸ .unreserved taken)
  case commit => exact casWaiter_move (at_ ▸ .commit) fun taken => .goes (at_ ▸ .refused taken)
  case publish => exact casWaiter_move (at_ ▸ .publish) fun _ => .goes (at_ ▸ .unpublished)
  case published => exact goes_move at_ (fun _ => .publishedClosed) fun _ => .publishedOpen
  case publishedPop =>
    exact goes_move at_ (fun _ => .publishedPop) fun empty => .publishedEmpty (by simpa using empty)
  case withdraw => exact casWaiter_move (at_ ▸ .withdraw) fun taken => .goes (at_ ▸ .taken taken)
  case cancel => exact casWaiter_move (at_ ▸ .cancel) fun taken => .goes (at_ ▸ .drain taken)
  case stop => exact .stop at_
  case ret => exact .ret at_

theorem channelTimeoutCb_move {t : Record ι} (step : σ.channelTimeoutCb kind tokens t = some (σ', tokens')) :
    Move kind σ tokens (.inr t) σ' tokens' := by
  unfold channelTimeoutCb at step
  split at step <;> rename_i at_
  · cases step
  · cases step
  · cases step
    exact .fire at_
  · cases step
    obtain ⟨word, taken, transition, same⟩ := σ.channelTransitionNone_eq
    rw [same]
    cases taken with
    | none => exact .timerTransition at_ transition
    | some r => exact .timerTake at_ transition
  · unfold channelWake at step
    split at step <;> rename_i kinds
    · obtain ⟨⟨parked, current⟩, same⟩ := ite_none_right_eq_some.mp step
      cases same
      exact .timerCoro at_ parked current kinds
    · cases step
      exact .timerThrd at_ kinds

theorem step_move {act : Act ι} (step : σ.step kind tokens act = some (σ', tokens')) :
    Move kind σ tokens act.agent σ' tokens' := by
  cases act with
  | send i =>
    obtain ⟨at_, same⟩ := ite_none_right_eq_some.mp step
    cases same
    exact .send at_
  | close i =>
    obtain ⟨at_, same⟩ := ite_none_right_eq_some.mp step
    cases same
    exact .close at_
  | recv i call =>
    obtain ⟨at_, same⟩ := ite_none_right_eq_some.mp step
    cases same
    exact .recv at_.1 at_.2
  | run i => exact run_move step
  | expire i =>
    obtain ⟨at_, same⟩ := ite_none_right_eq_some.mp step
    cases same
    exact .goes (at_.1 ▸ .expire at_.2)
  | timer t => exact channelTimeoutCb_move step

end State

end Xylem.Sync.Channel
