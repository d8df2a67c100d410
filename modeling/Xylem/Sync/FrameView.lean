import Xylem.Lib.Shared
import Xylem.Sync.FrameSafe

namespace Xylem.Sync

open WaitList List Function Relation.ReflTransGen

universe u v

open Points

variable {ι : Type u} {P : Type v} [Points ι P]

namespace Frame

/-- What there is to say about one wait. -/
def view (f : Frame ι P) (r : Record ι) : View where
  phase := f.phase r
  queued := r ∈ f.list.waiters
  pushed := r ∈ f.list.pushed
  handed := r ∈ f.handed
  cancelled := f.list.cancelled r
  fired := f.list.timerFired r
  result := f.result r
  timer := f.list.timer r
  timed := 0 < (f.call r).timeoutMs
  polled := f.call r = .timedwait 0

def Sound (kind : ι → Kind) (f : Frame ι P) : Prop := ∀ r, (f.view r).Sound (kind r.1)

variable [DecidableEq ι] {kind : ι → Kind} {f g : Frame ι P} {i : ι} {p : P} {r : Record ι}

theorem view_goto (f : Frame ι P) (i : ι) (p : P) (r : Record ι) :
    (f.goto i p).view r = { f.view r with phase := if r = f.waiter i then Points.phase p else f.phase r } := by
  simp only [view, phase_goto]
  rfl

theorem view_same (same : Points.phase p = Points.phase (f.pc i)) (r : Record ι) : (f.goto i p).view r = f.view r := by
  rw [view_goto]
  split
  · rename_i here
    rw [same, here, ← phase_waiter]
    rfl
  · rfl

theorem steps_goto (own : ViewSteps (kind i) (f.view (g.waiter i)) { g.view (g.waiter i) with phase := Points.phase p })
    (others : ∀ r, r ≠ g.waiter i → g.view r = f.view r) (r : Record ι) :
    ViewSteps (kind r.1) (f.view r) ((g.goto i p).view r) := by
  rw [view_goto]
  split
  · rename_i here; exact here ▸ own
  · rename_i other
    exact refl.trans (by rw [← others r other]; exact .refl)

theorem steps_phase
    (step : PhaseStep (kind i) (f.call (f.waiter i)) (f.list.timerFired (f.waiter i)) (Points.phase (f.pc i))
      (Points.phase p)) (r : Record ι) : ViewSteps (kind r.1) (f.view r) ((f.goto i p).view r) := by
  refine steps_goto ?_ (fun _ _ => rfl) r
  have at_ : (f.view (f.waiter i)).phase = Points.phase (f.pc i) := f.phase_waiter i
  generalize Points.phase (f.pc i) = old at step at_
  generalize Points.phase p = new at step
  cases step with
  | same => exact at_ ▸ .refl
  | refuse coro => exact .single (.refuse at_ coro)
  | untimed zero => exact .single (.untimed at_ (by simp [view, zero]))
  | fired => exact .single (.fired at_)

section Wait

theorem view_begin_of_ne {call : Call} (out : Points.phase (f.pc i) = .idle) (r : Record ι)
    (other : r ≠ (i, f.epoch i + 1)) : (f.begin i call).view r = f.view r := by
  simp only [view, phase_begin out, if_neg other]
  simp [begin, other]

omit [Points ι P] in
theorem waiter_begin (f : Frame ι P) (i : ι) (call : Call) : (f.begin i call).waiter i = (i, f.epoch i + 1) := by
  simp [begin, waiter]

theorem step_begin (call : Call) : ViewStep (kind i) (f.view (i, f.epoch i + 1))
    { (f.begin i call).view (i, f.epoch i + 1) with phase := .before } := by
  have step : ViewStep (kind i) (f.view (i, f.epoch i + 1)) _ :=
    .begin (0 < call.timeoutMs) (call = .timedwait 0) (f.phase_next i)
  simpa [view, begin] using step

omit [DecidableEq ι] in
theorem view_hand_of_ne {s : Record ι} (other : s ≠ r) : (f.hand r).view s = f.view s := by
  simp only [view, hand, mem_cons, other, false_or]
  rfl

omit [DecidableEq ι] in
theorem view_hand : (f.hand r).view r = { f.view r with handed := True } := by
  simp only [view, hand, mem_cons_self]
  rfl

variable {got : Bool}

theorem view_returns (nodup : f.handed.Nodup) (none_ : got = false → f.waiter i ∉ f.handed) :
    (f.returns i p got).view (f.waiter i) =
      { f.view (f.waiter i) with phase := Points.phase p, result := some got, handed := False } := by
  have phase : (f.returns i p got).phase (f.waiter i) = Points.phase p := (f.phase_goto i p _).trans (if_pos rfl)
  have result : (f.returns i p got).result (f.waiter i) = some got := update_self ..
  have gone : f.waiter i ∉ (f.returns i p got).handed := by
    cases got
    · exact none_ rfl
    · exact nodup.not_mem_erase
  simp only [view, phase, result, gone]
  rfl

theorem view_returns_of_ne (other : r ≠ f.waiter i) : (f.returns i p got).view r = f.view r := by
  have phase : (f.returns i p got).phase r = f.phase r := (f.phase_goto i p r).trans (if_neg other)
  simp only [view, phase]
  cases got <;> simp [returns, goto, other, mem_erase_of_ne other]

end Wait

section Timer

variable {s : Record ι} {pc : TimerPc}

theorem view_setTimer_of_ne (other : s ≠ r) : view { f with list := f.list.setTimer r pc } s = f.view s := by
  simp only [view, setTimer, update_of_ne other]
  rfl

theorem view_setTimer : view { f with list := f.list.setTimer r pc } r = { f.view r with timer := pc } := by
  simp only [view, setTimer, update_self]
  rfl

theorem steps_setTimer (armed : f.list.timer r ≠ .idle) (s : Record ι) :
    ViewSteps (kind s.1) (f.view s) (view { f with list := f.list.setTimer r pc } s) := by
  by_cases here : s = r
  · subst here
    exact .single ((view_setTimer (f := f)).symm ▸ .timer pc armed)
  · rw [view_setTimer_of_ne here]

theorem steps_timerStop (s : Record ι) :
    ViewSteps (kind s.1) (f.view s) (view { f with list := f.list.timerStop r } s) := by
  unfold timerStop
  split
  · exact steps_setTimer (by simp [*]) s
  · exact .refl

theorem view_remove_of_ne (other : s ≠ r) : view { f with list := f.list.removeWaiter r } s = f.view s := by
  simp only [view, removeWaiter, mem_erase_of_ne other, update_of_ne other]
  rfl

theorem steps_timer {list : WaitList ι} (move : f.list.TimerMove r list) (nodup : f.list.waiters.Nodup)
    (s : Record ι) : ViewSteps (kind s.1) (f.view s) (view { f with list := list } s) := by
  cases move with
  | fire at_ | enter at_ | miss at_ | leave at_ => exact steps_setTimer (by simp [at_]) s
  | hit at_ queued =>
    by_cases here : s = r
    · subst here
      have hit : view { f with list := f.list.timeoutHit s } s =
          { f.view s with queued := False, cancelled := true, fired := true, timer := .leave true } := by
        simp only [view, timeoutHit, removeWaiter, setTimer, update_self, nodup.not_mem_erase]
        rfl
      exact hit ▸ .single (.hit _ queued (by simp [view, at_]))
    · have same : view { f with list := f.list.timeoutHit r } s = f.view s := by
        simp only [view, timeoutHit, removeWaiter, setTimer, mem_erase_of_ne here, update_of_ne here]
        rfl
      exact same ▸ .refl

end Timer

theorem steps_pop (taken : List (Record ι)) {rest handed : List (Record ι)} (queue : f.list.waiters = taken ++ rest)
    (nodup : f.list.waiters.Nodup) (handed_ : ∀ s, s ∈ handed ↔ s ∈ taken ∨ s ∈ f.handed) (s : Record ι) :
    ViewSteps (kind s.1) (f.view s)
      (view { f with list := { f.list with waiters := rest, popped := f.list.popped ++ taken }, handed := handed } s) := by
  rw [queue] at nodup
  by_cases here : s ∈ taken
  · have away : s ∉ rest := fun there => (nodup_append.mp nodup).2.2 s here s there rfl
    have granted : view
        { f with list := { f.list with waiters := rest, popped := f.list.popped ++ taken }, handed := handed } s =
          { f.view s with queued := False, handed := True } := by
      simp only [view, away, handed_, here, true_or]
      rfl
    exact granted ▸ .single (.grant (by simp [view, queue, here]))
  · have same : view
        { f with list := { f.list with waiters := rest, popped := f.list.popped ++ taken }, handed := handed } s =
          f.view s := by
      simp only [view, queue, handed_, mem_append, here, false_or]
      rfl
    exact same ▸ .refl

end Frame

variable [DecidableEq ι] {kind : ι → Kind} {f f' : Frame ι P} {tokens tokens' : Tokens ι} {a : ι ⊕ Record ι}
  {place : Record ι → Lib.Place (ι ⊕ Record ι)}

namespace FrameMove

section

variable (move : FrameMove kind f tokens a f' tokens')
include move

theorem views (ledger : f.Ledger tokens place) (sound : f.Sound kind)
    (nodup : f.handed.Nodup) (r : Record ι) : ViewSteps (kind r.1) (f.view r) (f'.view r) := by
  cases move with
  | @begin i p call idle _ _ _ before =>
    refine Frame.steps_goto ?_
      (fun s other => Frame.view_begin_of_ne idle s (by rwa [Frame.waiter_begin] at other)) r
    rw [Frame.waiter_begin, before]
    exact .single (Frame.step_begin call)
  | @pollTake i p idle _ _ _ ending =>
    refine Frame.steps_goto ?_ (fun s other => ?_) r
    · have waiter : ((f.begin i (.timedwait 0)).hand ((f.begin i (.timedwait 0)).waiter i)).waiter i =
          (i, f.epoch i + 1) := f.waiter_begin i (.timedwait 0)
      rw [waiter, ending, Frame.waiter_begin, Frame.view_hand]
      exact (single (Frame.step_begin (.timedwait 0))).tail (.take rfl)
    · refine (Frame.view_hand_of_ne other).trans (Frame.view_begin_of_ne idle s fun here => other ?_)
      exact here.trans (f.waiter_begin i (.timedwait 0)).symm
  | @pollMiss i p idle _ _ _ ending =>
    refine Frame.steps_goto ?_
      (fun s other => Frame.view_begin_of_ne idle s (by rwa [Frame.waiter_begin] at other)) r
    rw [Frame.waiter_begin, ending]
    refine (single (Frame.step_begin (.timedwait 0))).tail (.giveUp rfl ?_)
    simp [Frame.view, Frame.begin]
  | goto _ _ _ step | leave _ _ _ step => exact Frame.steps_phase step r
  | enter _ _ _ same | wakeThrd _ _ _ _ same => exact Frame.view_same same r ▸ .refl
  | @take i p _ _ _ before ending =>
    refine Frame.steps_goto ?_ (fun s other => Frame.view_hand_of_ne other) r
    rw [ending, show (f.hand (f.waiter i)).waiter i = f.waiter i from rfl, Frame.view_hand]
    exact .single (.take ((f.phase_waiter i).trans before))
  | @push i p arming _ _ _ before waits timed =>
    refine Frame.steps_goto ?_ (fun s other => ?_) r
    · have pushed : { Frame.view { f with list := f.list.pushWaiter (f.waiter i) } (f.waiter i) with
          phase := phase p } = { f.view (f.waiter i) with phase := .waits arming, pushed := True, queued := True } := by
        simp [Frame.view, pushWaiter, waits]
      exact pushed ▸ .single (.push arming ((f.phase_waiter i).trans before) timed)
    · have away : s ≠ f.waiter i := other
      simp only [Frame.view, pushWaiter, mem_append, mem_singleton, away, or_false]
      rfl
  | @arm i p _ _ _ coro before waits =>
    refine Frame.steps_goto ?_
      (fun s other => Frame.view_setTimer_of_ne other) r
    have armed : { Frame.view { f with list := f.list.timerStart (f.waiter i) } (f.waiter i) with
        phase := phase p } = { f.view (f.waiter i) with phase := .waits false, timer := .armed } := by
      rw [waits, timerStart, Frame.view_setTimer]
    exact armed ▸ .single (.arm ((f.phase_waiter i).trans before) coro)
  | stop _ _ _ same => exact Frame.view_same same r ▸ Frame.steps_timerStop r
  | @returns i p got _ _ _ ending idle =>
    have at_ := (f.phase_waiter i).trans ending
    have lost : got = false → f.waiter i ∉ f.handed := fun lost handed =>
      absurd (((sound (f.waiter i)).handed_iff at_).mp handed) (by rw [lost]; decide)
    by_cases here : r = f.waiter i
    · rw [here, Frame.view_returns nodup lost, idle]
      exact .single (.returns at_)
    · rw [Frame.view_returns_of_ne here]
  | @pop i p s rest queue _ _ _ _ _ same =>
    have same' : phase p = phase (({ f with list := { f.list with
      waiters := rest, popped := f.list.popped ++ [s] } }.hand s).pc i) := same
    exact Frame.view_same same' r ▸ Frame.steps_pop [s] queue ledger.nodup (by simp) r
  | @popAll i p _ _ _ _ _ same =>
    have same' : phase p = phase (({ f with
      list := { f.list with waiters := [], popped := f.list.popped ++ f.list.waiters }
      handed := f.list.waiters ++ f.handed } : Frame ι P).pc i) := same
    exact Frame.view_same same' r ▸ Frame.steps_pop f.list.waiters (append_nil _).symm ledger.nodup (by simp) r
  | @cancel i p queued _ _ _ _ _ thrd _ ending =>
    refine Frame.steps_goto ?_
      (fun s other => Frame.view_remove_of_ne other) r
    have gone : { Frame.view { f with list := f.list.removeWaiter (f.waiter i) } (f.waiter i) with
        phase := phase p } =
          { f.view (f.waiter i) with phase := .ending false, queued := False, cancelled := true } := by
      simp [Frame.view, removeWaiter, ledger.nodup.not_mem_erase, ending]
    exact gone ▸ .single (.cancel queued thrd)
  | @consume i p arming some_ _ _ _ thrd waits ending =>
    refine Frame.steps_goto ?_ (fun _ _ => rfl) r
    rw [ending]
    have waiting : f.waiting i = true := by simp [Frame.waiting, waits, Phase.waiting]
    exact .single (.consume ((f.phase_waiter i).trans waits) (ledger.not_queued waiting some_).1 thrd)
  | @wakeCoro i p s q arming had _ _ _ same other current coro _ _ _ waits resumed =>
    have hand : f.Hand (.inl i) s := by simp [Frame.Hand, had]
    have away := (ledger.hand_waits hand).2.2.2
    have idle := Frame.view_same same
    refine Frame.steps_goto ?_ (fun s _ => idle s) r
    rw [show (f.goto i p).waiter s.1 = s from current, idle, resumed]
    exact .single (.ready (((congrArg f.phase current).symm.trans (f.phase_waiter s.1)).trans waits) away coro)
  | timer move => exact Frame.steps_timer move ledger.nodup r
  | @timerCoro s q arming at_ current coro _ _ _ waits resumed =>
    have hand : f.Hand (.inr s) s := ⟨rfl, by rw [at_]; rfl⟩
    have away := (ledger.hand_waits hand).2.2.2
    have phase := ((congrArg f.phase current).symm.trans (f.phase_waiter s.1)).trans waits
    refine Frame.steps_goto ?_ (fun t other => ?_) r
    · rw [show Frame.waiter { f with list := f.list.setTimer s .done } s.1 = s from current, Frame.view_setTimer,
        resumed]
      exact (single (.timer .done (by simp [Frame.view, at_]))).tail (.ready phase away coro)
    · exact Frame.view_setTimer_of_ne (current ▸ other)
  | timerThrd at_ => exact Frame.steps_setTimer (by simp [at_]) r

/-- No wait is handed anything twice. -/
theorem handed (sound : f.Sound kind) (ledger : f.Ledger tokens place) (nodup : f.handed.Nodup) : f'.handed.Nodup := by
  cases move with
  | @pollTake i =>
    refine nodup_cons.mpr ⟨?_, nodup⟩
    rw [Frame.waiter_begin]
    exact (sound (i, f.epoch i + 1)).not_handed (.inl (f.phase_next i))
  | @take i _ _ _ _ before =>
    exact nodup_cons.mpr ⟨(sound (f.waiter i)).not_handed (.inr ((f.phase_waiter i).trans before)), nodup⟩
  | @returns i p got =>
    cases got
    · exact nodup
    · exact nodup.erase _
  | @pop i p r rest queue =>
    exact nodup_cons.mpr ⟨(sound r).not_handed_queued (by simp [Frame.view, queue]), nodup⟩
  | popAll =>
    refine ledger.nodup.append nodup fun r queued => ?_
    exact (sound r).not_handed_queued queued
  | _ => exact nodup

theorem fifo (sound : f.Sound kind) (fifo : f.list.Fifo) : f'.list.Fifo := by
  cases move with
  | @push i _ _ _ _ _ before =>
    have phase := (sound (f.waiter i)).phase
    rw [show (f.view (f.waiter i)).phase = .before from (f.phase_waiter i).trans before] at phase
    exact fifo.push phase.2.1
  | cancel queued => exact fifo.cancel queued
  | pop queue => exact fifo.pop queue
  | popAll => exact fifo.popAll
  | stop =>
    refine ⟨?_, ?_, ?_⟩ <;> simp only [Frame.goto] <;> unfold timerStop <;> split
    exacts [fifo.nodup, fifo.nodup, fifo.order, fifo.order, fifo.known, fifo.known]
  | timer move =>
    cases move with
    | hit _ queued =>
      have gone := fifo.cancel queued
      exact ⟨gone.nodup, gone.order, gone.known⟩
    | _ => exact ⟨fifo.nodup, fifo.order, fifo.known⟩
  | _ => exact ⟨fifo.nodup, fifo.order, fifo.known⟩

end

end FrameMove

structure Frame.Inv (kind : ι → Kind) (f : Frame ι P) (tokens : Tokens ι) : Prop where
  guarded : f.Guarded
  ledger : ∃ place, f.Ledger tokens place
  registered : f.Registered
  apart : f.Apart
  fits : f.Fits kind
  sound : f.Sound kind
  handed : f.handed.Nodup
  fifo : f.list.Fifo

theorem FrameMove.inv (move : FrameMove kind f tokens a f' tokens') (inv : f.Inv kind tokens)
    (clean : ∀ i, a = .inl i → f.waiting i = false → tokens i = 0) : f'.Inv kind tokens' := by
  obtain ⟨place, ledger⟩ := inv.ledger
  exact {
    guarded := move.guarded inv.guarded
    ledger := move.ledger ledger inv.registered inv.apart clean
    registered := move.registered inv.guarded inv.registered
    apart := move.apart ledger inv.apart
    fits := move.fits inv.fits
    sound := fun r => (move.views ledger inv.sound inv.handed r).sound (inv.sound r)
    handed := move.handed inv.sound ledger inv.handed
    fifo := move.fifo inv.sound inv.fifo }

omit [DecidableEq ι] in
theorem Frame.Inv.keep (inv : f.Inv kind tokens) (same : ∀ i, f.waiting i = true → tokens' i = tokens i) :
    f.Inv kind tokens' := by
  obtain ⟨place, ledger⟩ := inv.ledger
  refine { inv with ledger := ⟨place, Lib.Ledger.keep ledger (fun _ _ => .rfl) (fun _ => .rfl) fun r waits => ?_⟩ }
  exact same r.1 (Frame.waits_waiter.mp (waits.current ▸ waits))

omit [DecidableEq ι] in
theorem Frame.init_inv (kind : ι → Kind) (tokens : Tokens ι) {p : P} (idle : Points.phase p = .idle)
    (out : Points.guarded p = false) (empty : hands p = []) (any : Points.kind p = none) :
    (Frame.init p).Inv kind tokens := by
  have fresh : ∀ r : Record ι, (Frame.init p : Frame ι P).phase r = .fresh ∨
      (Frame.init p : Frame ι P).phase r = .idle := by
    intro r
    by_cases zero : 0 < r.2 <;> simp [Frame.init, Frame.phase, idle, zero]
  exact {
    guarded := Lib.Flag.nobody fun a => by
      cases a <;> simp [Frame.Inside, Frame.init, out, WaitList.init, TimerPc.guarded]
    ledger := ⟨_, Lib.Ledger.empty
      (fun a _ => by cases a <;> simp [Frame.Hand, Frame.init, empty, WaitList.init, TimerPc.hits])
      (fun r => by rcases fresh r with at_ | at_ <;> simp [Frame.Waits, at_, Phase.waiting])⟩
    registered := fun i here => absurd ((not_registering out).symm.trans here) (by decide)
    apart := fun i => by simp [Frame.init, empty]
    fits := fun i k at_ => by simp [Frame.init, any] at at_
    sound := fun r => ⟨fun armed => absurd rfl armed, fun _ => ⟨rfl, (absurd · Bool.false_ne_true)⟩, by
      rcases fresh r with at_ | at_ <;> simp [Frame.view, at_] <;> simp [Frame.init, WaitList.init]⟩
    handed := nodup_nil
    fifo := init_fifo }

end Xylem.Sync
