import Xylem.Lib.Ledger
import Xylem.Lib.Shared
import Xylem.Sync.ChannelQueue

namespace Xylem.Sync.Channel

open Container Channel.TimerPc Function State

variable {ι : Type*}

/-- The points at which a receiver has a waiter that others may hold. -/
def Pc.waits : Pc ι → Bool
  | .parked | .published | .publishedPop | .withdraw | .await | .cancel | .drain => true
  | _ => false

/-- The points at which a coroutine has stored `CHANNEL_WAITER_WAIT`. -/
def Pc.reserving : Pc ι → Bool
  | .reserved | .reservedClosed | .reservedFired | .unreserve | .commit => true
  | _ => false

/-- The points from which a receiver goes on to wait without another look at the queue. -/
def Pc.checked : Pc ι → Bool
  | .reservedClosed | .reservedFired | .commit | .parked | .await | .cancel | .drain => true
  | _ => false

def Pc.hand : Pc ι → Option (Record ι)
  | .sendWake r | .closeWake r => some r
  | _ => none

def TimerPc.hand : TimerPc ι → Option (Record ι)
  | .wake r => some r
  | _ => none

def Pc.Fits (kind : Kind) : Pc ι → Prop
  | .reserve | .reserved | .reservedClosed | .reservedFired | .unreserve | .commit | .parked => kind = .coro
  | .publish | .published | .publishedPop | .withdraw | .await | .cancel | .drain => kind = .thrd
  | _ => True

def Word.queue : Word ι → List (Record ι)
  | .waiter r => [r]
  | _ => []

/-- The word says that a receiver waits or is about to. -/
def Word.armed : Word ι → Bool
  | .wait | .waiter _ => true
  | _ => false

def State.Hand (σ : State ι) : ι ⊕ Record ι → Record ι → Prop
  | .inl i, r => (σ.pc i).hand = some r
  | .inr t, r => (σ.timer t).hand = some r

def State.Waits (σ : State ι) (r : Record ι) : Prop := σ.record r.1 = r ∧ (σ.pc r.1).waits = true

abbrev State.Ledger (σ : State ι) (tokens : Tokens ι) (place : Record ι → Lib.Place (ι ⊕ Record ι)) : Prop :=
  Lib.Ledger σ.waiter.queue σ.Hand (fun r => tokens r.1) σ.Waits place

variable {p : Pc ι}

theorem Pc.receiving_of_waits (waits : p.waits = true) : p.role.receiving = true := by
  cases p <;> first | rfl | cases waits

theorem Pc.receiving_of_reserving (reserving : p.reserving = true) : p.role.receiving = true := by
  cases p <;> first | rfl | cases reserving

theorem Pc.receiving_of_checked (checked : p.checked = true) : p.role.receiving = true := by
  cases p <;> first | rfl | cases checked

/-- Two points that look the same to whoever wakes receivers. -/
structure Pc.Alike (p q : Pc ι) : Prop where
  waits : q.waits = p.waits
  hand : q.hand = p.hand

section Ledger

variable {kind : ι → Kind} {σ σ' : State ι} {tokens tokens' : Tokens ι} {agent : ι ⊕ Record ι} {i : ι} {p : Pc ι}
  {place : Record ι → Lib.Place (ι ⊕ Record ι)} {r t : Record ι} {hand' : ι ⊕ Record ι → Record ι → Prop}
  {waits' : Record ι → Prop} {w w' : Word ι} {call : Call}

theorem State.Goes.alike {k : Kind} {p' : Pc ι} (goes : σ.Goes k r p p') : p.Alike p' := by
  cases goes <;> exact ⟨rfl, rfl⟩

theorem Misses.alike (misses : Misses call p) : p.waits = false ∧ p.hand = none := by
  cases misses <;> exact ⟨rfl, rfl⟩

theorem Ends.alike {payload : Option (Msg ι)} (ends : Ends call payload p) : p.waits = false ∧ p.hand = none := by
  cases ends <;> exact ⟨rfl, rfl⟩

theorem State.alike {p q : Pc ι} (at_ : σ.pc i = p) (waits : q.waits = p.waits) (hand : q.hand = p.hand) :
    (σ.pc i).Alike q := at_ ▸ ⟨waits, hand⟩

theorem State.Ledger.word {word : Word ι} (ledger : σ.Ledger tokens place) (same : word.queue = σ.waiter.queue) :
    State.Ledger { σ with waiter := word } tokens place := by
  show Lib.Ledger word.queue _ _ _ _
  rw [same]
  exact ledger

theorem State.Ledger.timer {timer : TimerPc ι} [DecidableEq (Record ι)] (ledger : σ.Ledger tokens place)
    (same : timer.hand = (σ.timer t).hand) :
    State.Ledger { σ with timer := update σ.timer t timer } tokens place := by
  refine Lib.Ledger.keep ledger (fun a r => ?_) (fun _ => .rfl) fun _ _ => rfl
  cases a with
  | inl => rfl
  | inr t' =>
    by_cases own : t' = t
    · subst own
      simp [State.Hand, same]
    · simp [State.Hand, own]

theorem Word.Transition.none_queue (transition : w.Transition w' Option.none) : w'.queue = w.queue := by
  cases transition <;> rfl

theorem Word.Transition.some_queue (transition : w.Transition w' (some r)) : w = .waiter r ∧ w'.queue = [] := by
  cases transition
  exact ⟨rfl, rfl⟩

theorem Word.Closing.none_queue (closing : w.Closing Option.none) : Word.closed.queue = w.queue := by
  cases closing <;> rfl

theorem Word.Closing.some_queue (closing : w.Closing (some r)) : w = .waiter r := by
  cases closing
  rfl

variable [DecidableEq ι]

namespace State

theorem goto_pc (σ : State ι) (i j : ι) (p : Pc ι) : (σ.goto i p).pc j = if j = i then p else σ.pc j :=
  update_apply ..

theorem waits_goto (σ : State ι) (i : ι) (p : Pc ι) (r : Record ι) :
    (σ.goto i p).Waits r ↔ if r.1 = i then r = σ.record i ∧ p.waits = true else σ.Waits r := by
  unfold State.Waits
  rw [State.goto_pc]
  split
  · rename_i own
    rw [show (σ.goto i p).record r.1 = σ.record i from own ▸ rfl, eq_comm]
  · rfl

theorem hand_goto (σ : State ι) (i : ι) (p : Pc ι) (a : ι ⊕ Record ι) (r : Record ι) :
    (σ.goto i p).Hand a r ↔ if a = .inl i then p.hand = some r else σ.Hand a r := by
  cases a with
  | inl j =>
    simp only [State.Hand, State.goto_pc, Sum.inl.injEq]
    split <;> rfl
  | inr t => simp [State.Hand, State.goto]

theorem hand_goto_same (same : p.hand = (σ.pc i).hand) (a : ι ⊕ Record ι) (r : Record ι) :
    (σ.goto i p).Hand a r ↔ σ.Hand a r := by
  rw [hand_goto]
  split
  · rename_i own
    rw [own, same]
    rfl
  · rfl

theorem waits_goto_same (same : p.waits = (σ.pc i).waits) (r : Record ι) : (σ.goto i p).Waits r ↔ σ.Waits r := by
  rw [waits_goto]
  split
  · rename_i own
    rw [same, State.Waits, own, eq_comm]
  · rfl

theorem Ledger.goto (ledger : σ.Ledger tokens place) (alike : (σ.pc i).Alike p) : (σ.goto i p).Ledger tokens place := by
  exact ledger.keep (hand_goto_same alike.hand) (waits_goto_same alike.waits) fun _ _ => rfl

theorem Ledger.take {word : Word ι} (ledger : σ.Ledger tokens place) (at_ : σ.waiter = .waiter r)
    (empty : word.queue = []) (hands : ∀ b s, hand' b s ↔ b = agent ∧ s = r ∨ σ.Hand b s)
    (waiting : ∀ s, waits' s ↔ σ.Waits s) :
    Lib.Ledger word.queue hand' (fun r => tokens r.1) waits' (update place r (.hand agent)) := by
  have queue : σ.waiter.queue = [r] := by rw [at_]; rfl
  rw [empty]
  exact Lib.Ledger.take ledger (by simp [queue]) (List.nil_sublist _) (fun s => by simp [queue]) hands waiting

end State

/-- The points from which a receiver publishes its waiter. -/
def Pc.registers : Pc ι → Bool
  | .commit | .publish => true
  | _ => false

namespace State

theorem waits_leave (here : (σ.pc i).waits = true) (out : p.waits = false) (s : Record ι) :
    (σ.goto i p).Waits s ↔ σ.Waits s ∧ s ≠ σ.record i := by
  rw [waits_goto]
  split
  · rename_i own
    simp only [out, Bool.false_eq_true, and_false, State.Waits, own, here, and_true, false_iff, not_and, not_not]
    exact Eq.symm
  · rename_i other
    have away : s ≠ σ.record i := fun same => other (by rw [same]; rfl)
    simp [away]

omit [DecidableEq ι] in
theorem Ledger.hand_waits (ledger : σ.Ledger tokens place) (here : σ.Hand agent r) : σ.Waits r :=
  (ledger.waiting r).mpr (by simp [(ledger.handed agent r).mp here])

theorem hand_drop (here : (σ.pc i).hand = some r) (nothing : p.hand = none) (b : ι ⊕ Record ι) (s : Record ι) :
    (σ.goto i p).Hand b s ↔ σ.Hand b s ∧ ¬ (b = .inl i ∧ s = r) := by
  rw [hand_goto]
  split
  · rename_i own
    subst own
    simp [nothing, State.Hand, here, eq_comm]
  · rename_i other
    simp [other]

theorem timer_drop (here : σ.timer t = .wake r) (b : ι ⊕ Record ι) (s : Record ι) :
    State.Hand { σ with timer := update σ.timer t .done } b s ↔ σ.Hand b s ∧ ¬ (b = .inr t ∧ s = r) := by
  cases b with
  | inl => simp [State.Hand]
  | inr t' =>
    by_cases own : t' = t
    · subst own
      simp [State.Hand, here, hand, eq_comm]
    · simp [State.Hand, own]

section

variable (ledger : σ.Ledger tokens place)
include ledger

theorem Ledger.take_party {word : Word ι} (at_ : σ.waiter = .waiter r)
    (empty : word.queue = []) (waits : p.waits = (σ.pc i).waits) (nothing : (σ.pc i).hand = none)
    (hand : p.hand = some r) :
    ({ σ with waiter := word }.goto i p).Ledger tokens (update place r (.hand (.inl i))) := by
  refine ledger.take at_ empty (fun b s => ?_) fun s => ?_
  · rw [hand_goto]
    by_cases own : b = .inl i
    · subst own
      simp [hand, State.Hand, nothing, eq_comm]
    · simp only [own, if_false, false_and, false_or]
      rfl
  · exact waits_goto_same waits s

theorem Ledger.publish (empty : σ.waiter.queue = [])
    (away : (σ.pc i).waits = false) (clean : tokens i = 0) (waits : p.waits = true) (hand : p.hand = (σ.pc i).hand) :
    ({ σ with waiter := .waiter (σ.record i) }.goto i p).Ledger tokens
      (update place (σ.record i) .queue) := by
  have queue : Word.queue (.waiter (σ.record i)) = σ.waiter.queue ++ [σ.record i] := by rw [empty]; rfl
  show Lib.Ledger (Word.queue (.waiter (σ.record i))) _ _ _ _
  rw [queue]
  refine Lib.Ledger.enqueue ledger (by simp [State.Waits, record, away]) clean
    (hand_goto_same hand) fun s => ?_
  rw [waits_goto]
  split
  · rename_i own
    simp only [waits, and_true, State.Waits, own, away, Bool.false_eq_true, and_false, or_false]
    rfl
  · rename_i other
    have away : s ≠ σ.record i := fun same => other (by rw [same]; rfl)
    simp only [away, false_or]
    rfl

theorem Ledger.withdraw (at_ : σ.waiter = .waiter (σ.record i))
    (here : (σ.pc i).waits = true) (out : p.waits = false) (hand : p.hand = (σ.pc i).hand) :
    ({ σ with waiter := .none }.goto i p).Ledger tokens (update place (σ.record i) .none) := by
  have queue : σ.waiter.queue = [σ.record i] := by rw [at_]; rfl
  show Lib.Ledger [] _ _ _ _
  exact Lib.Ledger.cancel ledger (by simp [queue]) (List.nil_sublist _) (fun s => by simp [queue])
    (hand_goto_same hand) (waits_leave here out)

theorem Ledger.consume (here : (σ.pc i).waits = true) (some_ : 0 < tokens i)
    (out : p.waits = false) (hand : p.hand = (σ.pc i).hand) :
    (σ.goto i p).Ledger (update tokens i (tokens i - 1)) (update place (σ.record i) .none) := by
  refine Lib.Ledger.consume ledger ⟨rfl, here⟩ some_ (hand_goto_same hand) (waits_leave here out)
    fun s other waits => update_of_ne (fun own => other ?_) _ _
  rw [← waits.1, own]

theorem Ledger.signal (here : σ.Hand agent r)
    (hands : ∀ b s, hand' b s ↔ σ.Hand b s ∧ ¬ (b = agent ∧ s = r)) (waiting : ∀ s, waits' s ↔ σ.Waits s) :
    Lib.Ledger σ.waiter.queue hand' (fun s => thrdWakeSignal tokens r.1 s.1) waits'
      (update place r .token) := by
  refine Lib.Ledger.signal ledger here hands waiting (by simp [thrdWakeSignal]) fun s other waits => ?_
  refine update_of_ne (fun own => other ?_) _ _
  rw [← waits.1, own, (ledger.hand_waits here).1]

/-- No receive that has not begun has a timer. -/
def Fresh (σ : State ι) : Prop := ∀ i n, σ.epoch i < n → σ.timer (i, n) = .idle

theorem Ledger.recv (fresh : σ.Fresh) (at_ : σ.pc i = .out) : (σ.channelRecv kind i call).Ledger tokens place := by
  refine Lib.Ledger.keep ledger (fun a r => ?_) (fun r => ?_) fun _ _ => rfl
  · cases a with
    | inl j =>
      by_cases own : j = i
      · simp [State.Hand, channelRecv, State.goto, own, at_, Pc.hand]
      · simp [State.Hand, channelRecv, State.goto, own]
    | inr t =>
      have idle := fresh i (σ.epoch i + 1) (Nat.lt_succ_self _)
      by_cases own : t = (i, σ.epoch i + 1)
      · subst own
        simp only [State.Hand, channelRecv, State.goto, idle]
        split <;> simp [idle, hand]
      · simp only [State.Hand, channelRecv, State.goto]
        split <;> simp [own]
  · by_cases own : r.1 = i
    · simp [State.Waits, channelRecv, State.goto, own, at_, Pc.waits]
    · simp [State.Waits, channelRecv, State.goto, record, own]

end

end State

theorem Move.ledger (move : Move kind σ tokens agent σ' tokens') (ledger : σ.Ledger tokens place) (fresh : σ.Fresh)
    (clean : ∀ i, agent = .inl i → (σ.pc i).registers = true → tokens i = 0) : ∃ place', σ'.Ledger tokens' place' := by
  cases move with
  | send at_ | sendOpen at_ | sendClosed at_ | close at_ | shutTwice at_ =>
    exact ⟨place, ledger.goto (State.alike at_ rfl rfl)⟩
  | goes step => exact ⟨place, ledger.goto step.alike⟩
  | count at_ => exact ⟨place, State.Ledger.goto (σ := { σ with count := _ }) ledger (State.alike at_ rfl rfl)⟩
  | clear at_ | link at_ | pop at_ | popped at_ =>
    exact ⟨place, State.Ledger.goto (σ := { σ with queue := _ }) ledger (State.alike at_ rfl rfl)⟩
  | push at_ | ret at_ =>
    exact ⟨place, State.Ledger.goto ledger
      (State.alike at_ rfl rfl)⟩
  | missed at_ _ misses =>
    exact ⟨place, State.Ledger.goto (σ := { σ with queue := _ }) ledger
      (State.alike at_ misses.alike.1 misses.alike.2)⟩
  | took at_ ends =>
    exact ⟨place, State.Ledger.goto (σ := { σ with count := _ }) ledger (State.alike at_ ends.alike.1 ends.alike.2)⟩
  | transition at_ word | shut at_ word =>
    exact ⟨place, State.Ledger.goto (ledger.word word.none_queue) (State.alike at_ rfl rfl)⟩
  | take at_ word =>
    exact ⟨_, ledger.take_party word.some_queue.1 word.some_queue.2 (by rw [at_]; rfl) (by rw [at_]; rfl) rfl⟩
  | shutTake at_ word =>
    exact ⟨_, ledger.take_party word.some_queue rfl (by rw [at_]; rfl) (by rw [at_]; rfl) rfl⟩
  | recv at_ => exact ⟨place, ledger.recv fresh at_⟩
  | @swaps i next pc step =>
    generalize at_ : σ.pc i = p at step
    generalize word : σ.waiter = w at step
    cases step with
    | reserve | unreserve =>
      exact ⟨place, State.Ledger.goto (ledger.word (by rw [word]; rfl))
        (State.alike at_ rfl rfl)⟩
    | commit | publish =>
      exact ⟨_, ledger.publish (by rw [word]; rfl) (by rw [at_]; rfl) (clean i rfl (by rw [at_]; rfl)) rfl
        (by rw [at_]; rfl)⟩
    | withdraw | cancel => exact ⟨_, ledger.withdraw word (by rw [at_]; rfl) rfl (by rw [at_]; rfl)⟩
  | @await i at_ some_ =>
    exact ⟨_, ledger.consume (by rcases at_ with at_ | at_ <;> rw [at_] <;> rfl) some_ rfl
      (by rcases at_ with at_ | at_ <;> rw [at_] <;> rfl)⟩
  | @stop i payload at_ =>
    have stopped : (σ.timerStop (σ.record i)).Ledger tokens place := by
      unfold State.timerStop
      split
      · rename_i armed
        exact ledger.timer (by rw [armed]; rfl)
      · exact ledger
    refine ⟨place, stopped.goto (State.alike (p := .stop payload) ?_ rfl rfl)⟩
    unfold State.timerStop
    split <;> exact at_
  | @wakeCoro i r at_ other parked current =>
    have here : (σ.pc i).hand = some r := by rcases at_ with at_ | at_ <;> rw [at_] <;> rfl
    have away : (σ.pc i).waits = false := by rcases at_ with at_ | at_ <;> rw [at_] <;> rfl
    have still : (σ.goto i .out).pc r.1 = .parked := by rw [State.goto_pc, if_neg other, parked]
    refine ⟨_, Lib.Ledger.ready ledger (show σ.Hand (.inl i) r from here) (fun b s => ?_) fun s => ?_⟩
    · rw [hand_goto_same (by rw [still]; rfl)]
      exact hand_drop here rfl b s
    · rw [waits_leave (by rw [still]; rfl) rfl, waits_goto_same (p := .out) away.symm]
      rw [show (σ.goto i .out).record r.1 = r from current]
  | @wakeThrd i r at_ thrd =>
    have here : (σ.pc i).hand = some r := by rcases at_ with at_ | at_ <;> rw [at_] <;> rfl
    have away : (σ.pc i).waits = false := by rcases at_ with at_ | at_ <;> rw [at_] <;> rfl
    exact ⟨_, State.Ledger.signal (σ := σ) ledger (show σ.Hand (.inl i) r from here) (hand_drop here rfl)
      (waits_goto_same (p := .out) away.symm)⟩
  | fire at_ => exact ⟨place, State.Ledger.timer ledger (by rw [show σ.timer _ = _ from at_]; rfl)⟩
  | timerTransition at_ word =>
    exact ⟨place, State.Ledger.timer (σ := { σ with waiter := _ }) (ledger.word word.none_queue)
      (by rw [show σ.timer _ = _ from at_]; rfl)⟩
  | @timerTake t word r at_ step =>
    refine ⟨update place r (.hand (.inr t)),
      ledger.take step.some_queue.1 step.some_queue.2 (fun b s => ?_) fun _ => .rfl⟩
    cases b with
    | inl => simp [State.Hand]
    | inr t' =>
      by_cases own : t' = t
      · subst own
        simp [State.Hand, at_, hand, eq_comm]
      · simp [State.Hand, own]
  | @timerCoro t r at_ parked current =>
    have here : σ.Hand (.inr t) r := by simp [State.Hand, at_, hand]
    refine ⟨_, Lib.Ledger.ready ledger here (fun b s => ?_) fun s => ?_⟩
    · rw [hand_goto_same (by rw [show σ.pc r.1 = _ from parked]; rfl)]
      exact timer_drop at_ b s
    · rw [waits_leave (by rw [show σ.pc r.1 = _ from parked]; rfl) rfl]
      exact and_congr .rfl (not_congr (by rw [← current]; rfl))
  | @timerThrd t r at_ =>
    have here : σ.Hand (.inr t) r := by simp [State.Hand, at_, hand]
    exact ⟨_, State.Ledger.signal (σ := σ) ledger here (timer_drop at_) fun _ => .rfl⟩

theorem State.Fresh.timer {pc : TimerPc ι} (fresh : σ.Fresh) (busy : σ.timer t ≠ .idle) :
    State.Fresh { σ with timer := update σ.timer t pc } := fun i n later => by
  have idle := fresh i n later
  exact (update_of_ne (fun same : (i, n) = t => busy (same ▸ idle)) _ _).trans idle

theorem Move.fresh (move : Move kind σ tokens agent σ' tokens') (fresh : σ.Fresh) : σ'.Fresh := by
  cases move with
  | @recv i call =>
    intro j n later
    have before : σ.epoch j < n ∧ (j, n) ≠ (i, σ.epoch i + 1) := by
      by_cases own : j = i
      · subst own
        simp only [channelRecv, State.goto, update_self] at later
        exact ⟨by omega, fun same => by cases same; omega⟩
      · simp only [channelRecv, State.goto, update_of_ne own] at later
        exact ⟨later, fun same => own (Prod.ext_iff.mp same).1⟩
    show (if _ then update σ.timer (i, σ.epoch i + 1) .armed else σ.timer) (j, n) = .idle
    split
    · exact (update_of_ne before.2 _ _).trans (fresh j n before.1)
    · exact fresh j n before.1
  | stop =>
    unfold State.timerStop
    split
    · rename_i armed
      exact State.Fresh.timer fresh (by simp [armed])
    · exact fresh
  | fire at_ | timerTransition at_ | timerTake at_ | timerCoro at_ | timerThrd at_ =>
    exact State.Fresh.timer fresh (by simp [at_])
  | _ => exact fresh

end Ledger

section Reserve

variable {kind : ι → Kind} {σ σ' : State ι} {tokens tokens' : Tokens ι} {agent : ι ⊕ Record ι} {i : ι}
  {p : Pc ι} {place : Record ι → Lib.Place (ι ⊕ Record ι)}

theorem State.Goes.reserving {k : Kind} {r : Record ι} {p' : Pc ι} (goes : σ.Goes k r p p') (here : p.reserving = true) :
    p'.reserving = true ∨ σ.waiter ≠ .wait := by
  cases goes with
  | unreserved other | refused other => exact Or.inr other
  | reservedPop | reservedEmpty | reservedClosed | reservedTimed | reservedOpen | reservedFired | reservedUnfired =>
    exact Or.inl rfl
  | _ => cases here

theorem Word.Transition.not_armed {w w' : Word ι} {taken : Option (Record ι)} (transition : w.Transition w' taken) :
    w'.armed = false := by
  cases transition <;> rfl

variable [DecidableEq ι]

def State.Alone (σ : State ι) : Prop := ∀ i j, (σ.pc i).role.receiving = true → (σ.pc j).role.receiving = true → i = j

/-- `CHANNEL_WAITER_WAIT` is there only as long as the coroutine that stored it. -/
def State.Reserved (σ : State ι) : Prop := σ.waiter = .wait → ∃ i, (σ.pc i).reserving = true

theorem State.Reserved.goto (reserved : σ.Reserved)
    (stays : (σ.pc i).reserving = true → p.reserving = true ∨ σ.waiter ≠ .wait) : (σ.goto i p).Reserved := by
  intro wait
  obtain ⟨j, here⟩ := reserved wait
  by_cases own : j = i
  · subst own
    exact ⟨j, by rw [State.goto_pc, if_pos rfl]; exact (stays here).resolve_right (not_not.mpr wait)⟩
  · exact ⟨j, by rwa [State.goto_pc, if_neg own]⟩

omit [DecidableEq ι] in
theorem State.Reserved.of_not_armed (quiet : σ.waiter.armed = false) : σ.Reserved := fun wait => by
  rw [wait] at quiet
  cases quiet

theorem Move.reserved (move : Move kind σ tokens agent σ' tokens') (reserved : σ.Reserved) : σ'.Reserved := by
  cases move with
  | goes step => exact reserved.goto step.reserving
  | @swaps i next pc step =>
    generalize σ.pc i = p at step
    generalize σ.waiter = w at step
    cases step with
    | reserve => exact fun _ => ⟨i, by rw [State.goto_pc, if_pos rfl]; rfl⟩
    | _ => exact nofun
  | transition _ word | take _ word | timerTransition _ word | timerTake _ word =>
    exact State.Reserved.of_not_armed word.not_armed
  | shut | shutTake => exact nofun
  | send at_ | sendOpen at_ | sendClosed at_ | close at_ | shutTwice at_ =>
    exact reserved.goto (by rw [at_]; nofun)
  | count at_ | clear at_ | push at_ | link at_ | pop at_ | popped at_ | missed at_ | took at_ | ret at_ | recv at_ =>
    exact State.Reserved.goto
      reserved (by rw [show σ.pc _ = _ from at_]; nofun)
  | await at_ | wakeThrd at_ => exact reserved.goto (by rcases at_ with at_ | at_ <;> rw [at_] <;> nofun)
  | wakeCoro at_ other parked =>
    refine (reserved.goto (by rcases at_ with at_ | at_ <;> rw [at_] <;> nofun)).goto ?_
    rw [State.goto_pc, if_neg other, parked]
    nofun
  | stop at_ =>
    refine State.Reserved.goto ?_ ?_ <;> unfold State.timerStop <;> split <;>
      first | exact reserved | (rw [show σ.pc _ = _ from at_]; nofun)
  | fire | timerThrd => exact reserved
  | timerCoro _ parked =>
    exact State.Reserved.goto reserved (by rw [show σ.pc _ = _ from parked]; nofun)

end Reserve

end Xylem.Sync.Channel
