import Xylem.Sync.CondSys

namespace Xylem.Sync.Cond

open Sys SysAct Mutex.Pc
open Function (update update_of_ne update_self)

variable {ι : Type*}

/-- The two devices of the system. -/
inductive Part
  | cond
  | mutex

abbrev Part.State (ι : Type*) : Part → Type _
  | .cond => Cond.State ι
  | .mutex => Mutex.State ι

variable (kind : ι → Kind)

def devices : ∀ o, Lib.Device ι (Part.State ι o)
  | .cond => device kind
  | .mutex => Mutex.device kind

def Sys.parts (s : Sys ι) : ∀ o, Part.State ι o
  | .cond => s.cond
  | .mutex => s.mutex

structure Sys.Inv (s : Sys ι) : Prop where
  shared : Lib.Shared (devices kind) s.parts s.tokens
  coupled : s.cond.Coupled s.mutex
  took : s.mutex.Took

theorem Sys.Inv.cond {kind : ι → Kind} {s : Sys ι} (inv : s.Inv kind) : s.cond.Inv kind s.tokens := inv.shared.inv .cond

theorem Sys.Inv.mutex {kind : ι → Kind} {s : Sys ι} (inv : s.Inv kind) : s.mutex.Inv kind s.tokens :=
  inv.shared.inv .mutex

variable {kind : ι → Kind} {s t : Sys ι}

theorem Sys.init_inv (kind : ι → Kind) : Sys.init.Inv kind where
  shared := {
    inv := fun o => by
      cases o
      · exact create_inv kind _
      · exact Mutex.create_inv kind _
    alone := fun o o' i here => by cases o <;> cases here
    clean := fun _ _ => rfl }
  coupled _ := .inl rfl
  took _ := nofun

variable [DecidableEq ι]

variable {σ : State ι} {m m' : Mutex.State ι} {tokens tokens' : Tokens ι} {i : ι} {a : ι ⊕ Record ι} {r : Record ι}
  {got : Bool} {p : Pc ι}

theorem State.Coupled.of_mutex (coupled : ∀ j, j ≠ i → Cond.Coupled (σ.pc j) (m.pc j) (m.held j))
    (move : Mutex.Move kind m tokens i m' tokens') (own : Cond.Coupled (σ.pc i) (m'.pc i) (m'.held i)) :
    σ.Coupled m' := by
  intro j
  by_cases here : j = i
  · exact here ▸ own
  · obtain ⟨held, same | ⟨parked, resumed⟩⟩ := move.others here
    · rw [held, same]
      exact coupled j here
    · have before := parked ▸ coupled j here
      rw [resumed]
      rcases before with out | ⟨out, _⟩ | ⟨_, inside⟩ | ⟨locks, _⟩
      · exact .inl out
      · cases out
      · cases inside
      · exact .inr (.inr (.inr ⟨locks, rfl⟩))

theorem Coupled.run (coupled : Coupled p (m.pc i) (m.held i)) (took : m.Took)
    (move : Mutex.Move kind m tokens i m' tokens') (busy : p = .out ∨ m.pc i ≠ .out) :
    Coupled p (m'.pc i) (m'.held i) := by
  have own := move.own took
  rcases coupled with out | ⟨out, _⟩ | ⟨unlocks, inside⟩ | ⟨locks, inside⟩
  · exact .inl out
  · exact .inl (busy.resolve_right fun away => away out)
  · rcases own.1 inside with out | still
    · refine .inr (.inl ⟨out, fun holds => ?_⟩)
      cases p <;> first | cases unlocks; done | cases holds
    · exact .inr (.inr (.inl ⟨unlocks, still⟩))
  · rcases own.2 inside with ⟨out, held⟩ | still
    · exact .inr (.inl ⟨out, fun _ => held⟩)
    · exact .inr (.inr (.inr ⟨locks, still⟩))

theorem SysMove.inv (move : SysMove kind s t) (inv : s.Inv kind) : t.Inv kind := by
  cases move with
  | cond move outside =>
    refine ⟨?_, move.coupled inv.coupled outside, inv.took⟩
    refine inv.shared.step (o := .cond) (move.device inv.cond) (fun o other => ?_) (fun i acts o other => ?_)
    · cases o <;> first | rfl | exact absurd rfl other
    · cases o
      · exact absurd rfl other
      · exact (congrArg waits (outside i acts).1).trans rfl
  | @calls i pc call mutex tokens calls out move lock unlock =>
    have mid : Lib.Shared (devices kind) (parts ⟨s.cond.goto i pc, s.mutex, s.tokens⟩) s.tokens := by
      have begun : Move kind s.cond s.tokens (.inl i) (s.cond.goto i pc) s.tokens call := .calls calls
      refine inv.shared.step (o := .cond) (begun.device inv.cond) (fun o other => ?_) (fun j acts o other => ?_)
      · cases o <;> first | rfl | exact absurd rfl other
      · cases o
        · exact absurd rfl other
        · exact (congrArg waits (Sum.inl.inj acts ▸ out)).trans rfl
    have now : (s.cond.goto i pc).pc i = pc := (s.cond.toFrame.goto_pc i i pc).trans (if_pos rfl)
    refine ⟨?_, .of_mutex (fun j other => ?_) move ?_, move.took inv.took⟩
    · refine mid.step (o := .mutex) (move.device (mid.inv .mutex)) (fun o other => ?_) (fun j acts => ?_)
      · cases o <;> first | rfl | exact absurd rfl other
      · exact absurd acts.2 (by rw [out]; exact nofun)
    · rw [show (s.cond.goto i pc).pc j = s.cond.pc j from (s.cond.toFrame.goto_pc i j pc).trans (if_neg other)]
      exact inv.coupled j
    · rw [now]
      cases at_ : s.cond.pc i <;> rw [at_] at calls <;> cases calls
      · exact .inr (.inr (.inl ⟨rfl, unlock rfl⟩))
      · exact .inr (.inr (.inl ⟨rfl, unlock rfl⟩))
      · exact .inr (.inr (.inr ⟨rfl, lock rfl⟩))
  | @mutex i mutex tokens move busy =>
    refine ⟨?_, .of_mutex (fun j _ => inv.coupled j) move ((inv.coupled i).run inv.took move busy), move.took inv.took⟩
    refine inv.shared.step (o := .mutex) (move.device inv.mutex) (fun o other => ?_) (fun j acts o other => ?_)
    · cases o <;> first | rfl | exact absurd rfl other
    · cases o
      · exact acts.1 ▸ (inv.coupled i).registers acts.2
      · exact absurd rfl other

theorem Sys.Reachable.inv (run : Sys.Reachable kind s) : s.Inv kind := by
  have start := init_inv kind
  exact Lib.Reach.invariant start (fun _ _ _ _ inv _ step => (step_move step).inv inv) run

/-- The unlock of the wait has at least begun. -/
def Pc.released : Pc ι → Bool
  | .commitArm | .commitUnlock | .leave | .unlock => false
  | _ => true

/-- The waiters that have released the mutex and not been removed yet, the oldest first. -/
def Sys.releasedWaiters (s : Sys ι) : List (Record ι) := s.cond.list.waiters.filter fun r => (s.cond.pc r.1).released

omit [DecidableEq ι] in
theorem Pc.holds_of_not_released (early : p.released = false) : p.holds = true ∧ p.locks = false := by
  unfold Pc.released at early
  split at early <;> first | exact ⟨rfl, rfl⟩ | cases early

omit [DecidableEq ι] in
/-- Whoever holds the mutex in a signal or a broadcast finds only waiters that have released it. -/
theorem Sys.Inv.releasedWaiters (inv : s.Inv kind) (holds : (s.cond.pc i).holds = true)
    (locks : (s.cond.pc i).locks = false) (idle : (s.cond.pc i).phase = .idle) :
    s.releasedWaiters = s.cond.list.waiters := by
  refine List.filter_eq_self.mpr fun r queued => ?_
  by_contra early
  obtain ⟨place, ledger⟩ := inv.cond.ledger
  have waits : s.cond.Waits r := (ledger.waiting r).mpr (by simp [(ledger.queued r).mp queued])
  have waiting : s.cond.waiting r.1 = true := Frame.waits_waiter.mp (waits.current ▸ waits)
  have theirs := Pc.holds_of_not_released (Bool.eq_false_iff.mpr early)
  have same : r.1 = i := inv.mutex.exclusive.unique r.1 i ((inv.coupled r.1).has_lock theirs.1 theirs.2)
    ((inv.coupled i).has_lock holds locks)
  have phase : (s.cond.pc r.1).phase.waiting = true := waiting
  rw [same, idle] at phase
  cases phase

omit [DecidableEq ι] in
theorem State.Inv.parked (inv : σ.Inv kind tokens) (hand : σ.Hand a r) (coro : kind r.1 = .coro) :
    σ.pc r.1 = .parked ∧ σ.waiter r.1 = r := by
  obtain ⟨place, ledger⟩ := inv.ledger
  obtain ⟨current, waiting, _, away⟩ := ledger.hand_waits hand
  refine ⟨?_, current.symm⟩
  have outside : (σ.pc r.1).registering ≠ true := fun inside => away (current ▸ inv.registered r.1 inside)
  have fits := inv.fits r.1
  rw [coro] at fits
  have phase : (σ.pc r.1).phase.waiting = true := waiting
  generalize σ.pc r.1 = p at outside fits phase
  have kinds : p.kind ≠ some .thrd := fun thrd => nomatch fits .thrd thrd
  cases p <;> simp [Pc.registering, Pc.kind, Pc.phase, Phase.waiting] at outside kinds phase ⊢

theorem Sys.Inv.wake_enabled (inv : s.Inv kind) {rest : List (Record ι)} (at_ : s.cond.pc i = .wake (r :: rest)) :
    ∃ t, s.step kind (.cond (.run i)) = some t ∧ t.cond.wakes r = s.cond.wakes r + 1 := by
  have out : s.mutex.pc i = .out := (at_ ▸ inv.coupled i : Coupled (.wake (r :: rest)) _ _).out nofun rfl rfl
  have hand : s.cond.Hand (.inl i) r := by simp [Frame.Hand, at_, Points.hands, Pc.hands]
  have allowed : s.step kind (.cond (.run i)) = s.condStep kind (.run i) := if_pos out
  rw [allowed]
  unfold condStep State.step State.run
  simp only [at_, State.condWake]
  cases here : kind r.1 with
  | coro =>
    obtain ⟨parked, current⟩ := inv.cond.parked hand here
    have other : r.1 ≠ i := fun same => by rw [same, at_] at parked; cases parked
    have still : (s.cond.goto i (.wake rest)).pc r.1 = .parked := (update_of_ne other ..).trans parked
    simp only [still, show (s.cond.goto i (.wake rest)).waiter r.1 = r from current]
    exact ⟨_, rfl, update_self ..⟩
  | thrd => exact ⟨_, rfl, update_self ..⟩

theorem Move.result {σ σ' : State ι} {call : MutexCall} (move : Move kind σ tokens a σ' tokens' call)
    (before : σ.result r = none) (after : σ'.result r = some got) :
    ∃ i, a = .inl i ∧ σ.pc i = .ret got ∧ r = σ.waiter i := by
  cases move with
  | @ret i told at_ =>
    have after : update σ.result (σ.waiter i) (some told) r = some got := after
    by_cases here : r = σ.waiter i
    · rw [here, update_self] at after
      exact ⟨i, rfl, by rw [at_, Option.some.inj after], here⟩
    · rw [update_of_ne here, before] at after
      cases after
  | _ => exact nomatch before.symm.trans after

theorem SysMove.returns_held (move : SysMove kind s t) (inv : s.Inv kind) (before : s.cond.result r = none)
    (after : t.cond.result r = some got) : t.mutex.held r.1 = true := by
  cases move with
  | cond move outside =>
    obtain ⟨i, acts, at_, rfl⟩ := move.result before after
    have coupled := inv.coupled i
    rw [at_, (outside i acts).1] at coupled
    exact coupled.outside rfl
  | calls | mutex => exact nomatch before.symm.trans after

theorem Sys.step_run (ran : s.cond.run kind s.tokens i = some (σ, tokens, .none))
    (step : s.step kind (.cond (.run i)) = some t) : t = ⟨σ, s.mutex, tokens⟩ := by
  obtain ⟨_, step⟩ := Option.ite_none_right_eq_some.mp step
  have ran : s.cond.step kind s.tokens (.run i) = some (σ, tokens, .none) := ran
  unfold condStep at step
  rw [ran] at step
  exact (Option.some.inj step).symm

/-- A signal takes the oldest of the waiters that have released the mutex. -/
theorem Sys.Inv.signal (inv : s.Inv kind) (at_ : s.cond.pc i = .signalPop)
    (step : s.step kind (.cond (.run i)) = some t) :
    t.cond.pc i = .signalLeave s.releasedWaiters.head? ∧ t.releasedWaiters = s.releasedWaiters.tail := by
  have next := (step_move step).inv inv
  have ran : s.cond.run kind s.tokens i =
      some (s.cond.condPopWaiter.1.goto i (.signalLeave s.cond.condPopWaiter.2), s.tokens, .none) := by
    unfold State.run
    rw [at_]
  cases step_run ran step
  have now : (s.cond.condPopWaiter.1.goto i (.signalLeave s.cond.condPopWaiter.2)).pc i =
      .signalLeave s.cond.condPopWaiter.2 := update_self ..
  have popped := s.cond.list.popWaiter_eq
  rw [inv.releasedWaiters (by rw [at_]; rfl) (by rw [at_]; rfl) (by rw [at_]; rfl),
    next.releasedWaiters (by rw [now]; rfl) (by rw [now]; rfl) (by rw [now]; rfl)]
  exact ⟨now.trans (congrArg _ popped.2), popped.1⟩

/-- A broadcast takes all of the waiters that have released the mutex. -/
theorem Sys.Inv.broadcast (inv : s.Inv kind) (at_ : s.cond.pc i = .broadcastPop)
    (step : s.step kind (.cond (.run i)) = some t) :
    t.cond.pc i = .broadcastLeave s.releasedWaiters ∧ t.releasedWaiters = [] := by
  have ran : s.cond.run kind s.tokens i =
      some (s.cond.condPopAll.1.goto i (.broadcastLeave s.cond.condPopAll.2), s.tokens, .none) := by
    unfold State.run
    rw [at_]
  cases step_run ran step
  have popped := s.cond.list.popAll_eq _ (Nat.le_refl _)
  rw [inv.releasedWaiters (by rw [at_]; rfl) (by rw [at_]; rfl) (by rw [at_]; rfl)]
  refine ⟨(update_self ..).trans (congrArg (fun l => Pc.broadcastLeave l.2) popped), ?_⟩
  have empty : s.cond.condPopAll.1.list.waiters = [] := congrArg (fun l => l.1.waiters) popped
  exact (congrArg (List.filter _) empty).trans rfl

/-- Signals and broadcasts take the waiters that have released the mutex, a signal the oldest of them, a broadcast all.
Each waiter they take is in the hands of the one that took it until it is woken, once, which is always possible; it does
not report a timeout. A timed wait reports a timeout exactly if its waiter was cancelled in the queue, and every wait
returns with the mutex held. -/
theorem cond_wakes_released_waiters (kind : ι → Kind) {s : Sys ι} (run : Sys.Reachable kind s) :
    (∀ i t, s.cond.pc i = .signalPop → s.step kind (.cond (.run i)) = some t →
      t.cond.pc i = .signalLeave s.releasedWaiters.head? ∧ t.releasedWaiters = s.releasedWaiters.tail) ∧
    (∀ i t, s.cond.pc i = .broadcastPop → s.step kind (.cond (.run i)) = some t →
      t.cond.pc i = .broadcastLeave s.releasedWaiters ∧ t.releasedWaiters = []) ∧
    (∀ r ∈ s.cond.list.popped, (s.cond.wakes r = 0 ∧ ∃ a, s.cond.Hand a r ∧ ∀ b, s.cond.Hand b r → b = a) ∨
      (s.cond.wakes r = 1 ∧ ∀ a, ¬ s.cond.Hand a r)) ∧
    (∀ i r rest, s.cond.pc i = .wake (r :: rest) → ∃ t, s.step kind (.cond (.run i)) = some t ∧ t.cond.wakes r = 1) ∧
    (∀ r ∈ s.cond.list.popped, s.cond.call r ≠ .timedwait 0 → s.cond.result r ≠ some false) ∧
    (∀ r got, s.cond.call r ≠ .timedwait 0 → s.cond.result r = some got →
      (got = false ↔ s.cond.list.cancelled r = true)) ∧
    (∀ act t r got, s.step kind act = some t → s.cond.result r = none → t.cond.result r = some got →
      t.mutex.held r.1 = true) := by
  have inv := run.inv
  have woken := inv.cond.woken
  obtain ⟨place, ledger⟩ := inv.cond.ledger
  have cancelled : ∀ r got, s.cond.call r ≠ .timedwait 0 → s.cond.result r = some got →
      s.cond.list.cancelled r = !got := fun r got real returned => (inv.cond.sound r).cancelled_iff returned real
  refine ⟨fun i t => inv.signal, fun i t => inv.broadcast, fun r popped => ?_, fun i r rest at_ => ?_,
    fun r popped real lost => ?_, fun r got real returned => ?_, fun act t r got step before after => ?_⟩
  · rcases woken.popped r popped with once | ⟨a, hand⟩
    · exact .inr ⟨once, fun a hand => nomatch once.symm.trans (woken.handed a r hand)⟩
    · refine .inl ⟨woken.handed a r hand, a, hand, fun b other => ?_⟩
      exact Lib.Place.hand.inj (((ledger.handed b r).mp other).symm.trans ((ledger.handed a r).mp hand))
  · obtain ⟨t, step, wakes⟩ := inv.wake_enabled at_
    have hand : s.cond.Hand (.inl i) r := by simp [Frame.Hand, at_, Points.hands, Pc.hands]
    exact ⟨t, step, by rw [wakes, woken.handed _ r hand]⟩
  · have gone := cancelled r false real lost
    have kept : r ∈ s.cond.list.pushed.filter fun r => !s.cond.list.cancelled r :=
      inv.cond.fifo.order ▸ List.mem_append_left _ popped
    simp [gone] at kept
  · rw [cancelled r got real returned]
    cases got <;> decide
  · exact (Sys.step_move step).returns_held inv before after

/-- A thread waits, has released the mutex, and is about to be taken by the signal of another one. -/
theorem cond_wakes_released_waiters_signal : ∃ s t : Sys Bool,
    Sys.Reachable (fun _ => .thrd) s ∧ s.cond.pc true = .signalPop ∧
      s.step (fun _ => .thrd) (.cond (.run true)) = some t ∧
      t.cond.pc true = .signalLeave (some (false, 1)) ∧ t.releasedWaiters = [] := by
  obtain ⟨s, run, at_, waiters, enabled⟩ : ∃ s : Sys Bool, Sys.Reachable (fun _ => .thrd) s ∧
      s.cond.pc true = .signalPop ∧ s.releasedWaiters = [(false, 1)] ∧
      (s.step (fun _ => .thrd) (.cond (.run true))).isSome = true :=
    Lib.exists_reach ([SysAct.mutex (.lock false), .mutex (.run false), .cond (.call false .wait)] ++
      List.replicate 4 (SysAct.cond (.run false)) ++ List.replicate 3 (SysAct.mutex (.run false)) ++
      [SysAct.mutex (.lock true), .mutex (.run true), .cond (.signal true), .cond (.run true)]) (by decide +kernel)
  obtain ⟨t, step⟩ := Option.isSome_iff_exists.mp enabled
  have signal := (cond_wakes_released_waiters _ run).1 true t at_ step
  rw [waiters] at signal
  exact ⟨s, t, run, at_, step, signal⟩

/-- The mutex keeps its promises while its users wait on a condition variable: one of them holds it, those that register,
signal or broadcast do, and a queued locker is never forgotten, though both devices wake through the same tokens. -/
theorem cond_keeps_mutex (kind : ι → Kind) {s : Sys ι} (run : Sys.Reachable kind s) :
    (∀ i j, s.mutex.held i = true → s.mutex.held j = true → i = j) ∧
    (∀ i, (s.cond.pc i).holds = true → (s.cond.pc i).locks = false → s.mutex.held i = true) ∧
    (s.mutex.waiters = [] ∨ s.mutex.locked = true ∨
      ∃ i, (s.mutex.pc i).unlocking = true ∨ (s.mutex.pc i).woken (s.tokens i)) := by
  have inv := run.inv
  refine ⟨inv.mutex.exclusive.unique, fun i holds locks => (inv.coupled i).has_lock holds locks, ?_⟩
  rcases inv.mutex.stirred with nobody | locked | ⟨i, stirs⟩
  · exact .inl nobody
  · exact .inr (.inl locked)
  · exact .inr (.inr ⟨i, unlocking_or_woken stirs⟩)

/-- A signaller holds the mutex that a waiter has released. -/
theorem cond_keeps_mutex_signal : ∃ s : Sys Bool, Sys.Reachable (fun _ => .thrd) s ∧ s.releasedWaiters = [(false, 1)] ∧
    s.mutex.held true = true := by
  obtain ⟨s, run, waiters, holds, locks⟩ : ∃ s : Sys Bool, Sys.Reachable (fun _ => .thrd) s ∧
      s.releasedWaiters = [(false, 1)] ∧ (s.cond.pc true).holds = true ∧ (s.cond.pc true).locks = false :=
    Lib.exists_reach ([mutex (.lock false), .mutex (.run false), .cond (.call false .wait)] ++
      List.replicate 4 (cond (.run false)) ++ List.replicate 3 (mutex (.run false)) ++
      [mutex (.lock true), .mutex (.run true), .cond (.signal true)]) (by decide +kernel)
  exact ⟨s, run, waiters, (cond_keeps_mutex _ run).2.1 true holds locks⟩

end Xylem.Sync.Cond
