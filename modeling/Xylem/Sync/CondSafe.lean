import Xylem.Sync.CondMove
import Xylem.Sync.FrameView

namespace Xylem.Sync.Cond

open Sync.Frame List
open Function (update update_of_ne update_self)

variable {ι : Type*}

def Pc.phase : Pc ι → Phase
  | .out | .signal | .signalPop | .signalLeave _ | .broadcast | .broadcastPop | .broadcastLeave _ | .wake _ => .idle
  | .commit | .commitPush | .enter | .push => .before
  | .commitArm => .waits true
  | .commitUnlock | .commitLeave | .parked | .leave | .unlock | .await | .expired | .cancel | .cancelLeave false
  | .drain => .waits false
  | .cancelLeave true => .ending false
  | .resumed => .resumed
  | .stop fired => .ending !fired
  | .lock got | .ret got => .ending got

def Pc.guarded : Pc ι → Bool
  | .commitPush | .commitArm | .commitUnlock | .commitLeave | .push | .leave | .cancel | .cancelLeave _ | .signalPop
  | .signalLeave _ | .broadcastPop | .broadcastLeave _ => true
  | _ => false

def Pc.registering : Pc ι → Bool
  | .commitArm | .commitUnlock | .commitLeave | .leave => true
  | _ => false

/-- The popped waiters that a signal or a broadcast is going to wake. -/
def Pc.hands : Pc ι → List (Record ι)
  | .signalLeave target => target.toList
  | .broadcastLeave drained => drained
  | .wake targets => targets
  | _ => []

def Pc.kind : Pc ι → Option Kind
  | .commit | .commitPush | .commitArm | .commitUnlock | .commitLeave | .parked | .resumed | .stop _ => some .coro
  | .enter | .push | .leave | .unlock | .await | .expired | .cancel | .cancelLeave _ | .drain => some .thrd
  | _ => none

instance : Points ι (Pc ι) where
  phase := Pc.phase
  guarded := Pc.guarded
  registering := Pc.registering
  hands := Pc.hands
  kind := Pc.kind
  inside p here := by
    unfold Pc.registering at here
    split at here <;> first | rfl | cases here

section Points

variable {kind : Kind} {p q : Pc ι}

section

variable (fits : Fits kind p) {call : Call}
include fits

theorem Pc.Enters.goes (enters : p.Enters q) :
    Goes kind p q ∧ Points.registering q = false ∧ Points.phase q = Points.phase p := by
  cases enters <;> exact ⟨⟨fits, rfl⟩, rfl, rfl⟩

theorem Pc.Pushes.goes (pushes : Pc.Pushes call p q) :
    Goes kind p q ∧ Points.guarded p = true ∧ Points.guarded q = true ∧ Points.phase p = .before ∧
      ∃ arming, Points.phase q = .waits arming ∧ (arming = true → 0 < call.timeoutMs) := by
  cases pushes with
  | coro | thrd => exact ⟨⟨fits, rfl⟩, rfl, rfl, rfl, false, rfl, nofun⟩
  | arms timed => exact ⟨⟨fits, rfl⟩, rfl, rfl, rfl, true, rfl, fun _ => timed⟩

theorem Pc.Leaves.goes (leaves : p.Leaves q) :
    Points.guarded p = true ∧ Goes kind p q ∧ Points.guarded q = false ∧ Points.phase q = Points.phase p := by
  cases leaves with
  | gone => exact ⟨rfl, ⟨nofun, rfl⟩, rfl, rfl⟩
  | _ => exact ⟨rfl, ⟨fits, rfl⟩, rfl, rfl⟩

theorem Pc.Moves.goes {fired : Bool} (moves : Pc.Moves call fired p q) :
    Goes kind p q ∧ Points.guarded q = Points.guarded p ∧ Points.registering q = false ∧
      PhaseStep kind call fired (Points.phase p) (Points.phase q) := by
  cases moves with
  | untimed wait => exact ⟨⟨nofun, rfl⟩, rfl, rfl, .untimed (by rw [wait]; rfl)⟩
  | timed => exact ⟨⟨fits, rfl⟩, rfl, rfl, .fired⟩
  | _ => exact ⟨⟨fits, rfl⟩, rfl, rfl, .same⟩

theorem Pc.Calls.goes {call : MutexCall} (calls : Pc.Calls p q call) :
    Goes kind p q ∧ Points.guarded q = Points.guarded p ∧
      (Points.registering q = true → Points.registering p = true) ∧ Points.phase q = Points.phase p := by
  cases calls with
  | lock => exact ⟨⟨nofun, rfl⟩, rfl, nofun, rfl⟩
  | unlock => exact ⟨⟨fits, rfl⟩, rfl, nofun, rfl⟩
  | commitUnlock => exact ⟨⟨fits, rfl⟩, rfl, fun _ => rfl, rfl⟩

end

theorem Pc.Begins.goes (begins : Pc.Begins kind q) :
    Fits kind q ∧ Points.hands q = [] ∧ Points.guarded q = false ∧ Points.phase q = .before := by
  cases begins <;> exact ⟨fun _ here => Option.some.inj here, rfl, rfl, rfl⟩

end Points

variable [DecidableEq ι] {kind : ι → Kind} {σ σ' : State ι} {tokens tokens' : Tokens ι} {a : ι ⊕ Record ι}
  {call : MutexCall}

/-- Every step of the condition variable is one of its waiter queue. -/
theorem Move.frame (move : Move kind σ tokens a σ' tokens' call) (fits : σ.Fits kind) :
    FrameMove kind σ.toFrame tokens a σ'.toFrame tokens' := by
  cases move with
  | begin at_ begins =>
    obtain ⟨here, hands, out, before⟩ := begins.goes
    exact .begin (by rw [at_]; rfl) (by rw [at_]; rfl) ⟨here, by rw [at_, hands]; rfl⟩ out before
  | poll at_ => exact .pollMiss (by rw [at_]; rfl) (by rw [at_]; rfl) ⟨nofun, by rw [at_]; rfl⟩ rfl rfl
  | @enter i _ enters free =>
    obtain ⟨goes, quiet, same⟩ := enters.goes (fits i)
    exact .enter free goes quiet same
  | @push i _ pushes =>
    obtain ⟨goes, inside, still, before, arming, waits, timed⟩ := pushes.goes (fits i)
    exact .push goes inside still before waits timed
  | @arm i at_ =>
    have coro := fits i .coro (by rw [at_]; rfl)
    exact .arm ⟨fun _ here => Option.some.inj here ▸ coro, by rw [at_]; rfl⟩ rfl (by rw [at_]; rfl) coro
      (by rw [at_]; rfl) rfl
  | @calls i _ _ calls =>
    obtain ⟨goes, guard, registers, same⟩ := calls.goes (fits i)
    exact .goto goes guard registers (by rw [same]; exact .same)
  | @leave i _ leaves =>
    obtain ⟨inside, goes, out, same⟩ := leaves.goes (fits i)
    exact .leave inside goes out (by rw [same]; exact .same)
  | @moves i _ moves =>
    obtain ⟨goes, guard, quiet, step⟩ := moves.goes (fits i)
    exact .goto goes guard (fun here => absurd (quiet.symm.trans here) (by decide)) step
  | stop at_ => exact .stop ⟨nofun, by rw [at_]; rfl⟩ (by rw [at_]; rfl) rfl (by rw [at_]; rfl)
  | @await i at_ some_ =>
    have thrd := fits i .thrd (by rcases at_ with at_ | at_ <;> rw [at_] <;> rfl)
    rcases at_ with at_ | at_ <;>
      exact .consume some_ ⟨nofun, by rw [at_]; rfl⟩ (by rw [at_]; rfl) rfl thrd (by rw [at_]; rfl) rfl
  | @hit i at_ queued =>
    have thrd := fits i .thrd (by rw [at_]; rfl)
    exact .cancel queued ⟨fun _ here => Option.some.inj here ▸ thrd, by rw [at_]; rfl⟩ (by rw [at_]; rfl) rfl
      (by rw [at_]; rfl) rfl thrd (by rw [at_]; rfl) rfl
  | ret at_ => exact .returns ⟨nofun, by rw [at_]; rfl⟩ (by rw [at_]; rfl) rfl (by rw [at_]; rfl) rfl
  | pop at_ queue =>
    exact .pop queue nofun (by rw [at_]; rfl) rfl (by rw [at_]; rfl) rfl (by rw [at_]; rfl) (by rw [at_]; rfl) rfl
  | popAll at_ =>
    exact .popAll nofun (by rw [at_]; rfl) rfl (by rw [at_]; rfl) rfl (by rw [at_]; rfl) (by rw [at_]; rfl) rfl
  | wakeCoro at_ other parked current coro =>
    exact .wakeCoro (by rw [at_]; rfl) nofun (by rw [at_]; rfl) rfl (by rw [at_]; rfl) other current coro
      ⟨fun _ here => Option.some.inj here, by rw [parked]; rfl⟩ (by rw [parked]; rfl) rfl (by rw [parked]; rfl) rfl
  | wakeThrd at_ thrd =>
    exact .wakeThrd (by rw [at_]; rfl) nofun (by rw [at_]; rfl) rfl (by rw [at_]; rfl) thrd
  | timer move => exact .timer move
  | timerCoro at_ parked current coro =>
    exact .timerCoro at_ current coro ⟨fun _ here => Option.some.inj here, by rw [parked]; rfl⟩ (by rw [parked]; rfl)
      rfl (by rw [parked]; rfl) rfl
  | timerThrd at_ thrd => exact .timerThrd at_ thrd

/-- A waiter is woken once, by who took it out of the queue. -/
structure Woken (f : Frame ι (Pc ι)) (wakes : Record ι → Nat) : Prop where
  handed : ∀ a r, f.Hand a r → wakes r = 0
  queued : ∀ r, r ∉ f.list.popped → f.list.cancelled r = false → wakes r = 0
  popped : ∀ r ∈ f.list.popped, wakes r = 1 ∨ ∃ a, f.Hand a r
  taken : ∀ a r, f.Hand a r → r ∈ f.list.popped ∨ f.list.cancelled r = true

abbrev State.Woken (σ : State ι) : Prop := Cond.Woken σ.toFrame σ.wakes

section Woken

variable {f f' : Frame ι (Pc ι)} {wakes : Record ι → Nat} {r : Record ι}
  {place : Record ι → Lib.Place (ι ⊕ Record ι)}

omit [DecidableEq ι] in
theorem Woken.keep (woken : Woken f wakes) (hands : ∀ a r, f'.Hand a r ↔ f.Hand a r)
    (popped : f'.list.popped = f.list.popped) (cancelled : ∀ r, f.list.cancelled r = true → f'.list.cancelled r = true) :
    Woken f' wakes where
  handed a r hand := woken.handed a r ((hands a r).mp hand)
  queued r away live := woken.queued r (popped ▸ away)
    (Bool.eq_false_iff.mpr fun gone => absurd (live.symm.trans (cancelled r gone)) (by decide))
  popped r here := (woken.popped r (popped ▸ here)).imp_right fun ⟨a, hand⟩ => ⟨a, (hands a r).mpr hand⟩
  taken a r hand := (woken.taken a r ((hands a r).mp hand)).imp (fun here => popped ▸ here) (cancelled r)

omit [DecidableEq ι] in
theorem Woken.take (woken : Woken f wakes) (taken : List (Record ι)) (fifo : f.list.Fifo)
    (queued : ∀ r ∈ taken, r ∈ f.list.waiters) (hands : ∀ b s, f'.Hand b s ↔ b = a ∧ s ∈ taken ∨ f.Hand b s)
    (popped : ∀ r, r ∈ f'.list.popped ∨ f'.list.cancelled r = true ↔
      r ∈ taken ∨ r ∈ f.list.popped ∨ f.list.cancelled r = true)
    (held : ∀ r ∈ f'.list.popped, r ∈ taken ∨ r ∈ f.list.popped) : Woken f' wakes := by
  have fresh : ∀ r ∈ taken, wakes r = 0 := fun r here =>
    woken.queued r (fun before => (nodup_append.mp fifo.nodup_waiters).2.2 r before r (queued r here) rfl)
      (fifo.not_cancelled (queued r here))
  refine ⟨fun b s hand => ?_, fun s away live => ?_, fun s here => ?_, fun b s hand => ?_⟩
  · rcases (hands b s).mp hand with ⟨_, here⟩ | hand
    · exact fresh s here
    · exact woken.handed b s hand
  · have nowhere := fun known => (popped s).mpr known |>.elim away fun gone =>
      absurd (live.symm.trans gone) (by decide)
    exact woken.queued s (fun here => nowhere (.inr (.inl here)))
      (Bool.eq_false_iff.mpr fun gone => nowhere (.inr (.inr gone)))
  · rcases held s here with here | here
    · exact .inr ⟨a, (hands a s).mpr (.inl ⟨rfl, here⟩)⟩
    · exact (woken.popped s here).imp_right fun ⟨b, hand⟩ => ⟨b, (hands b s).mpr (.inr hand)⟩
  · rcases (hands b s).mp hand with ⟨_, here⟩ | hand
    · exact (popped s).mpr (.inl here)
    · exact (popped s).mpr (.inr (woken.taken b s hand))

theorem Woken.wake (woken : Woken f wakes) (ledger : f.Ledger tokens place) (hand : f.Hand a r)
    (hands : ∀ b s, f'.Hand b s ↔ f.Hand b s ∧ ¬ (b = a ∧ s = r)) (popped : f'.list.popped = f.list.popped)
    (cancelled : f'.list.cancelled = f.list.cancelled) :
    Woken f' (update wakes r (wakes r + 1)) := by
  have once := woken.handed a r hand
  have only : ∀ b, f'.Hand b r → False := fun b there => by
    obtain ⟨there, other⟩ := (hands b r).mp there
    have same := ((ledger.handed b r).mp there).symm.trans ((ledger.handed a r).mp hand)
    exact other ⟨Lib.Place.hand.inj same, rfl⟩
  have apart : ∀ b s, f'.Hand b s → s ≠ r := fun b s there same => only b (same ▸ there)
  refine ⟨fun b s there => ?_, fun s away live => ?_, fun s here => ?_, fun b s there => ?_⟩
  · rw [update_of_ne (apart b s there)]
    exact woken.handed b s ((hands b s).mp there).1
  · rw [popped] at away
    rw [cancelled] at live
    have other : s ≠ r := fun same => (woken.taken a r hand).elim (fun here => away (same ▸ here))
      fun gone => absurd (live.symm.trans (same ▸ gone)) (by decide)
    rw [update_of_ne other]
    exact woken.queued s away live
  · by_cases same : s = r
    · exact .inl (by rw [same, update_self, once])
    · rw [update_of_ne same]
      refine (woken.popped s (popped ▸ here)).imp_right fun ⟨b, there⟩ => ⟨b, (hands b s).mpr ⟨there, ?_⟩⟩
      exact fun both => same both.2
  · rw [popped, cancelled]
    exact woken.taken b s ((hands b s).mp there).1

end Woken

theorem Move.woken (move : Move kind σ tokens a σ' tokens' call) (inv : σ.toFrame.Inv kind tokens)
    (woken : σ.Woken) : σ'.Woken := by
  obtain ⟨place, ledger⟩ := inv.ledger
  have fits := inv.fits
  -- a step of a party that neither takes nor wakes a waiter
  have keep : ∀ {i : ι} {p : Pc ι} {f' : Frame ι (Pc ι)}, f'.pc = update σ.pc i p → p.hands = (σ.pc i).hands →
      f'.list.timer = σ.list.timer → f'.list.popped = σ.list.popped →
      (∀ r, σ.list.cancelled r = true → f'.list.cancelled r = true) → Cond.Woken f' σ.wakes :=
    fun pc hands timer popped cancelled => woken.keep (hand_keep pc timer hands) popped cancelled
  cases move with
  | begin at_ begins => exact keep rfl (begins.goes.2.1.trans (by rw [at_]; rfl)) rfl rfl fun _ => id
  | poll at_ | ret at_ => exact keep rfl (by rw [at_]; rfl) rfl rfl fun _ => id
  | await at_ => exact keep rfl (by rcases at_ with at_ | at_ <;> rw [at_] <;> rfl) rfl rfl fun _ => id
  | @enter i _ enters => exact keep rfl (enters.goes (fits i)).1.hands rfl rfl fun _ => id
  | @push i _ pushes => exact keep rfl (pushes.goes (fits i)).1.hands rfl rfl fun _ => id
  | @calls i _ _ calls => exact keep rfl (calls.goes (fits i)).1.hands rfl rfl fun _ => id
  | @leave i _ leaves => exact keep rfl (leaves.goes (fits i)).2.1.hands rfl rfl fun _ => id
  | @moves i _ moves => exact keep rfl (moves.goes (fits i)).1.hands rfl rfl fun _ => id
  | @arm i at_ =>
    have quiet := ledger.not_hits (inv.registered i (by rw [at_]; rfl))
    have armed : Cond.Woken { σ.toFrame with list := σ.list.timerStart (σ.waiter i) } σ.wakes :=
      woken.keep (hand_setTimer quiet.symm) rfl fun _ => id
    exact armed.keep (hand_keep rfl rfl (by rw [at_]; rfl)) rfl fun _ => id
  | @stop i _ at_ =>
    have stopped : Cond.Woken { σ.toFrame with list := σ.list.timerStop (σ.waiter i) } σ.wakes := by
      refine woken.keep (hand_timerStop _) ?_ fun r gone => ?_ <;> unfold WaitList.timerStop <;> split
      exacts [rfl, rfl, gone, gone]
    exact stopped.keep (hand_keep rfl rfl (by rw [at_]; rfl)) rfl fun _ => id
  | @hit i at_ =>
    refine keep (p := .cancelLeave true) rfl (by rw [at_]; rfl) rfl rfl fun r gone => ?_
    by_cases same : r = σ.waiter i
    · rw [same]; exact update_self ..
    · exact (update_of_ne same ..).trans gone
  | @pop i r rest at_ queue =>
    refine woken.take (a := .inl i) [r] inv.fifo (by simp [queue]) (fun b s => ?_) (fun s => ?_) (fun s => ?_)
    · refine (hand_at (f := σ.toFrame) (i := i) (p := .signalLeave (some r)) (by rfl) (by rfl) b s).trans ?_
      split
      · rename_i here; simp [here, Frame.Hand, at_, Points.hands, Pc.hands]
      · rename_i other; simp [other]
    · simp only [State.goto, goto, mem_append]
      grind
    · simp only [State.goto, goto, mem_append]
      grind
  | @popAll i at_ =>
    refine woken.take (a := .inl i) σ.list.waiters inv.fifo (fun _ => id) (fun b s => ?_) (fun s => ?_)
      (fun s => ?_)
    · refine (hand_at (f := σ.toFrame) (i := i) (p := .broadcastLeave σ.list.waiters) (by rfl) (by rfl) b s).trans ?_
      split
      · rename_i here; simp [here, Frame.Hand, at_, Points.hands, Pc.hands]
      · rename_i other; simp [other]
    · simp only [State.goto, goto, mem_append]
      grind
    · simp only [State.goto, goto, mem_append]
      grind
  | @wakeCoro i r rest at_ other parked =>
    have apart : (Points.hands (Pc.wake (r :: rest))).Nodup := at_ ▸ inv.apart i
    have fresh : r ∉ rest := (nodup_cons.mp apart).1
    have still : (σ.toFrame.goto i (.wake rest)).pc r.1 = .parked := (update_of_ne other _ _).trans parked
    refine woken.wake ledger (a := .inl i) (r := r) (by simp [Frame.Hand, at_, Points.hands, Pc.hands]) (fun b s => ?_)
      rfl rfl
    refine (hand_keep (f := σ.toFrame.goto i (.wake rest)) (i := r.1) (p := .resumed) (by rfl) (by rfl)
      (by rw [still]; rfl) b s).trans ?_
    exact hand_done (i := i) (p := .wake rest) (by rfl) (by rfl) (by rw [at_]; rfl) fresh b s
  | @wakeThrd i r rest at_ =>
    have apart : (Points.hands (Pc.wake (r :: rest))).Nodup := at_ ▸ inv.apart i
    have fresh : r ∉ rest := (nodup_cons.mp apart).1
    exact woken.wake ledger (a := .inl i) (r := r) (by simp [Frame.Hand, at_, Points.hands, Pc.hands])
      (hand_done (p := .wake rest) rfl rfl (by rw [at_]; rfl) fresh) rfl rfl
  | @timer r _ move =>
    cases move with
    | fire at_ | enter at_ | miss at_ => exact woken.keep (hand_setTimer (by rw [at_]; rfl)) rfl fun _ => id
    | @leave hit at_ => exact woken.keep (hand_setTimer (by rw [at_]; cases hit <;> rfl)) rfl fun _ => id
    | hit at_ queued =>
      refine woken.take (a := .inr r) [r] inv.fifo (by simpa using queued) (fun b s => ?_) (fun s => ?_)
        (fun s => .inr)
      · simpa using hand_hit (f := σ.toFrame) r b s
      · simp only [WaitList.timeoutHit, WaitList.setTimer, WaitList.removeWaiter, Function.update_apply]
        grind
  | @timerCoro r at_ parked =>
    refine woken.wake ledger (a := .inr r) (r := r) ⟨rfl, by rw [at_]; rfl⟩ (fun b s => ?_) rfl rfl
    refine (hand_keep (f := { σ.toFrame with list := σ.list.setTimer r .done }) (i := r.1) (p := .resumed)
      (by rfl) (by rfl) (by rw [parked]; rfl) b s).trans ?_
    exact hand_silent rfl b s
  | @timerThrd r at_ =>
    exact woken.wake ledger (a := .inr r) (r := r) ⟨rfl, by rw [at_]; rfl⟩ (hand_silent rfl) rfl rfl

structure State.Inv (kind : ι → Kind) (σ : State ι) (tokens : Tokens ι) : Prop extends
    frame : σ.toFrame.Inv kind tokens where
  woken : σ.Woken

theorem Move.inv (move : Move kind σ tokens a σ' tokens' call) (inv : σ.Inv kind tokens)
    (clean : ∀ i, a = .inl i → σ.waiting i = false → tokens i = 0) : σ'.Inv kind tokens' where
  frame := (move.frame inv.fits).inv inv.frame clean
  woken := move.woken inv.frame inv.woken

omit [DecidableEq ι] in
theorem create_inv (kind : ι → Kind) (tokens : Tokens ι) : create.Inv kind tokens where
  frame := init_inv kind tokens rfl rfl rfl rfl
  woken := ⟨fun a _ => by cases a <;> exact nofun, fun _ _ _ => rfl, nofun, fun a _ => by cases a <;> exact nofun⟩

omit [DecidableEq ι] in
theorem State.Inv.keep (inv : σ.Inv kind tokens) (same : ∀ i, σ.waiting i = true → tokens' i = tokens i) :
    σ.Inv kind tokens' :=
  ⟨inv.frame.keep same, inv.woken⟩

/-- The condition variable as one of the devices that wake by tokens. -/
def device (kind : ι → Kind) : Lib.Device ι (State ι) where
  waits σ i := σ.waiting i
  Inv σ tokens := σ.Inv kind tokens
  frame inv same := inv.keep same

theorem Move.device (move : Move kind σ tokens a σ' tokens' call) (inv : σ.Inv kind tokens) :
    (device kind).Step σ tokens (a = .inl ·) σ' tokens' := by
  obtain ⟨place, ledger⟩ := inv.ledger
  have step := move.frame inv.fits
  exact {
    inv := fun clean => move.inv inv clean
    quiet := fun j => (step.clean ledger j).1
    spent := fun j => (step.clean ledger j).2
    enters := step.enters }

end Xylem.Sync.Cond
