import Xylem.Lib.Run
import Xylem.Rudp.Listener

namespace Xylem.Rudp

open Lib List Datagram

inductive DispatcherPc
  | looping
  | parked
  | stopped
deriving DecidableEq

/-- The dispatcher coroutine with its socket. `again` says that the last socket error of its thread is
would-block, which `recvfrom` leaves alone unless it fails; `edge` is an arrival that the edge-triggered poller has
not reported yet, `ready` an event that it reported and the waiter holds. `arrived` and `handled` record what
came in and what reached the body of the loop. -/
structure Dispatcher where
  ln : RudpListener
  queue : List Datagram
  again : Bool
  edge : Bool
  ready : Bool
  pc : DispatcherPc
  arrived : List Datagram
  handled : List Datagram

inductive DispatcherAct
  | turn (iv : AesIv)
  | recvFails
  | arrive (dgram : Datagram)
  | poll
  | lastError (again : Bool)
  | table (act : TableAct)
  | close

variable (σ : Dispatcher)

namespace Dispatcher

/-- `iowait_read` of the dispatcher: a held event is taken, else it parks, unless the waiter is closed. -/
def iowaitRead : Dispatcher :=
  if σ.ready then { σ with ready := false }
  else if σ.ln.closed then { σ with pc := .stopped }
  else { σ with pc := .parked }

/-- One iteration of the loop of `_rudp_dispatcher`. The received length is zero for an empty datagram, and the
branch for lengths of zero and below then reads an error that no call has set. -/
def turn (iv : AesIv) : Dispatcher :=
  if σ.ln.closed then { σ with pc := .stopped }
  else
    match σ.queue with
    | [] => { σ with again := true }.iowaitRead
    | dgram :: rest =>
      let σ := { σ with queue := rest }
      if dgram.data = [] then
        if σ.again then σ.iowaitRead else { σ with pc := .stopped }
      else { σ with ln := rudpDispatch σ.ln iv dgram, handled := σ.handled ++ [dgram] }

def step (σ : Dispatcher) : DispatcherAct → Option Dispatcher
  | .turn iv => if σ.pc = .looping then some (σ.turn iv) else none
  | .recvFails => if σ.pc = .looping then some { σ with again := false, pc := .stopped } else none
  | .arrive dgram => some { σ with queue := σ.queue ++ [dgram], edge := true, arrived := σ.arrived ++ [dgram] }
  | .poll =>
    if σ.edge = false ∨ σ.ln.closed then none
    else if σ.pc = .parked then some { σ with edge := false, pc := .looping }
    else some { σ with edge := false, ready := true }
  | .lastError again => some { σ with again }
  | .table act => some { σ with ln := { (σ.ln.step act) with closed := σ.ln.closed } }
  | .close =>
    let σ := { σ with ln := { σ.ln with closed := true } }
    if σ.pc = .parked then some { σ with pc := .stopped } else some σ

def start (codecs : FecCodecs) (opts : RudpOpts) (again : Bool) : Dispatcher where
  ln := rudpListen codecs opts
  queue := []
  again
  edge := false
  ready := false
  pc := .looping
  arrived := []
  handled := []

/-- The next datagram is not empty; or the last error happens to be would-block, and either nothing is queued
behind the empty datagram or an event is still to be taken or reported. -/
def TurnOk : Prop :=
  ∀ dgram rest, σ.queue = dgram :: rest → dgram.data = [] →
    σ.again = true ∧ (rest = [] ∨ σ.ready = true ∨ σ.edge = true)

/-- A run in which the listener stays open, the socket reports no real error, and every turn meets `TurnOk`. -/
def Allowed : DispatcherAct → Prop
  | .turn _ => σ.TurnOk
  | .recvFails => False
  | .close => False
  | _ => True

/-- It has not stopped, and it does not sleep over a waiting datagram that no event will report. -/
def Serving : Prop :=
  σ.pc ≠ .stopped ∧ (σ.pc = .parked → σ.queue = [] ∨ σ.edge = true)

end Dispatcher

def Datagram.nonempty (dgram : Datagram) : Bool := !dgram.data.isEmpty

structure Dispatcher.Inv : Prop where
  opened : σ.ln.closed = false
  serving : σ.Serving
  complete : σ.handled ++ σ.queue.filter Datagram.nonempty = σ.arrived.filter Datagram.nonempty

theorem rudpDispatch_closed (ln : RudpListener) (iv : AesIv) (dgram : Datagram) :
    (rudpDispatch ln iv dgram).closed = ln.closed := by
  unfold rudpDispatch rudpAcceptSession rudpPushTo rudpPushAll
  dsimp only
  repeat' split
  all_goals rfl

namespace Dispatcher

/-- A turn of a looping dispatcher keeps it serving exactly if it meets `TurnOk`. -/
theorem turn_serving_iff {σ : Dispatcher} (iv : AesIv) (opened : σ.ln.closed = false)
    (looping : σ.pc = .looping) : (σ.turn iv).Serving ↔ σ.TurnOk := by
  unfold turn
  rw [if_neg (by simp [opened])]
  cases queueIs : σ.queue with
  | nil =>
    have idle : σ.TurnOk := by
      intro dgram rest is
      rw [queueIs] at is
      cases is
    refine iff_of_true ?_ idle
    unfold iowaitRead
    cases σ.ready with
    | true => simp [Serving, looping]
    | false => simp [Serving, opened]
  | cons dgram rest =>
    have okIff : σ.TurnOk ↔ (dgram.data = [] → σ.again = true ∧ (rest = [] ∨ σ.ready = true ∨ σ.edge = true)) := by
      constructor
      · intro ok
        exact ok dgram rest queueIs
      · intro ok other others is
        rw [queueIs] at is
        cases is
        exact ok
    rw [okIff]
    dsimp only
    by_cases empty : dgram.data = []
    · rw [if_pos empty]
      cases again : σ.again with
      | false => simp [Serving, empty]
      | true =>
        unfold iowaitRead
        cases ready : σ.ready with
        | true => simp [Serving, looping]
        | false => simp [Serving, opened, empty]
    · rw [if_neg empty]
      simp [Serving, looping, empty]

/-- A turn passes on what it takes from the socket, in order. -/
theorem turn_complete {σ : Dispatcher} (iv : AesIv) (opened : σ.ln.closed = false) :
    (σ.turn iv).ln.closed = false ∧ (σ.turn iv).arrived = σ.arrived ∧
      (σ.turn iv).handled ++ (σ.turn iv).queue.filter nonempty = σ.handled ++ σ.queue.filter nonempty := by
  have read : ∀ τ : Dispatcher, τ.ln.closed = false →
      τ.iowaitRead.ln = τ.ln ∧ τ.iowaitRead.arrived = τ.arrived ∧ τ.iowaitRead.handled = τ.handled ∧
        τ.iowaitRead.queue = τ.queue := by
    intro τ open_
    unfold iowaitRead
    cases τ.ready with
    | true => exact ⟨rfl, rfl, rfl, rfl⟩
    | false => simp [open_]
  unfold turn
  rw [if_neg (by simp [opened])]
  cases queueIs : σ.queue with
  | nil =>
    obtain ⟨ln, arrived, handled, queue⟩ := read { σ with queue := [], again := true } opened
    dsimp only
    rw [ln, arrived, handled, queue]
    exact ⟨opened, rfl, rfl⟩
  | cons dgram rest =>
    dsimp only
    by_cases empty : dgram.data = []
    · have skipped : dgram.nonempty = false := by simp [nonempty, empty]
      rw [if_pos empty, filter_cons_of_neg (by simp [skipped])]
      cases σ.again with
      | false => exact ⟨opened, rfl, rfl⟩
      | true =>
        obtain ⟨ln, arrived, handled, queue⟩ := read { σ with queue := rest, again := true } opened
        rw [if_pos rfl, ln, arrived, handled, queue]
        exact ⟨opened, rfl, rfl⟩
    · have taken : dgram.nonempty = true := by simp [nonempty, empty]
      rw [if_neg empty, filter_cons_of_pos taken]
      exact ⟨(rudpDispatch_closed σ.ln iv dgram).trans opened, rfl, by simp⟩

theorem Inv.step {σ next : Dispatcher} (inv : σ.Inv) {act : DispatcherAct} (allowed : σ.Allowed act)
    (moved : σ.step act = some next) : next.Inv := by
  cases act with
  | turn iv =>
    simp only [Dispatcher.step] at moved
    split at moved
    · rename_i looping
      cases moved
      obtain ⟨opened, arrived, complete⟩ := σ.turn_complete iv inv.opened
      exact ⟨opened, (turn_serving_iff iv inv.opened looping).mpr allowed, by rw [complete, arrived, inv.complete]⟩
    · cases moved
  | recvFails => exact allowed.elim
  | arrive dgram =>
    have complete : σ.handled ++ (σ.queue ++ [dgram]).filter nonempty = (σ.arrived ++ [dgram]).filter nonempty := by
      rw [filter_append, filter_append, ← append_assoc, inv.complete]
    cases moved
    exact ⟨inv.opened, ⟨inv.serving.1, fun _ => Or.inr rfl⟩, complete⟩
  | poll =>
    simp only [Dispatcher.step] at moved
    split at moved
    · cases moved
    split at moved
    · cases moved
      exact ⟨inv.opened, ⟨by simp, by simp⟩, inv.complete⟩
    · rename_i awake
      cases moved
      exact ⟨inv.opened, ⟨inv.serving.1, fun parked => absurd parked awake⟩, inv.complete⟩
  | lastError again | table act =>
    cases moved
    exact ⟨inv.opened, inv.serving, inv.complete⟩
  | close => exact allowed.elim

/-- The dispatcher runs by itself for `n` turns. -/
def turns (σ : Dispatcher) (iv : AesIv) : Nat → Dispatcher
  | 0 => σ
  | n + 1 => (σ.turn iv).turns iv n

/-- Left to itself the dispatcher handles all that waits in the socket. -/
theorem Inv.drains {σ : Dispatcher} (inv : σ.Inv) (iv : AesIv) (looping : σ.pc = .looping)
    (full : ∀ dgram ∈ σ.queue, dgram.data ≠ []) :
    (σ.turns iv σ.queue.length).pc = .looping ∧ (σ.turns iv σ.queue.length).queue = [] ∧
      (σ.turns iv σ.queue.length).handled = σ.arrived.filter nonempty := by
  generalize count : σ.queue.length = n
  induction n generalizing σ with
  | zero =>
    have empty := eq_nil_of_length_eq_zero count
    have complete := inv.complete
    rw [empty, filter_nil, append_nil] at complete
    exact ⟨looping, empty, complete⟩
  | succ n ih =>
    obtain ⟨dgram, rest, queueIs⟩ := exists_cons_of_length_eq_add_one count
    have taken : dgram.data ≠ [] := full dgram (by rw [queueIs]; exact mem_cons_self)
    have turned : σ.turn iv =
        { σ with queue := rest, ln := rudpDispatch σ.ln iv dgram, handled := σ.handled ++ [dgram] } := by
      unfold Dispatcher.turn
      rw [if_neg (by simp [inv.opened]), queueIs]
      exact if_neg taken
    have ok : σ.Allowed (.turn iv) := by
      intro other others is
      rw [queueIs] at is
      cases is
      exact fun empty => absurd empty taken
    have next := inv.step ok (show σ.step (.turn iv) = some (σ.turn iv) from if_pos looping)
    have arrived : (σ.turn iv).arrived = σ.arrived := by rw [turned]
    rw [Dispatcher.turns, ← arrived]
    apply ih next
    · rw [turned]
      exact looping
    · intro other member
      rw [turned] at member
      exact full other (by rw [queueIs]; exact mem_cons_of_mem _ member)
    · rw [queueIs, length_cons] at count
      rw [turned]
      exact Nat.succ.inj count

end Dispatcher

/-- Whatever datagrams arrive, as long as the listener is open and the socket reports no real error: in a run
whose turns all meet `TurnOk` the dispatcher has not stopped and does not sleep over a waiting datagram, it has
handled all it took from the socket that is not empty, in order, and it handles the rest by itself. A turn
that does not meet `TurnOk` stops it or leaves a datagram waiting. -/
theorem dispatcher_serves_iff (codecs : FecCodecs) (opts : RudpOpts) (again : Bool) {σ : Dispatcher}
    (reach : Reach Dispatcher.step Dispatcher.Allowed (Dispatcher.start codecs opts again) σ) :
    σ.Serving ∧ σ.handled ++ σ.queue.filter Datagram.nonempty = σ.arrived.filter Datagram.nonempty ∧
    (∀ iv, σ.pc = .looping → ((σ.turn iv).Serving ↔ σ.TurnOk)) ∧
    (∀ iv, σ.pc = .looping → (∀ dgram ∈ σ.queue, dgram.data ≠ []) → (σ.turns iv σ.queue.length).pc = .looping ∧
        (σ.turns iv σ.queue.length).handled = σ.arrived.filter Datagram.nonempty) := by
  have start : (Dispatcher.start codecs opts again).Inv := ⟨rfl, ⟨by simp [Dispatcher.start], fun _ => Or.inl rfl⟩, rfl⟩
  have inv := reach.invariant start fun s a t _ inv allowed moved => inv.step allowed moved
  refine ⟨inv.serving, inv.complete, fun iv looping => Dispatcher.turn_serving_iff iv inv.opened looping, ?_⟩
  intro iv looping full
  obtain ⟨still, _, handled⟩ := inv.drains iv looping full
  exact ⟨still, handled⟩

theorem dispatcher_serves_syn :
    ∃ σ, Reach Dispatcher.step Dispatcher.Allowed (Dispatcher.start fecZeros sampleOpts false) σ ∧
      σ.handled = [sampleSyn] ∧ σ.queue = [] ∧ σ.Serving := by
  have arrives : Reach Dispatcher.step Dispatcher.Allowed (Dispatcher.start fecZeros sampleOpts false) _ :=
    .next .start (show Dispatcher.Allowed _ (.arrive sampleSyn) from trivial) rfl
  have turned := arrives.next (show Dispatcher.Allowed _ (.turn sampleIv) from fun dgram rest is empty => by
    obtain ⟨rfl, -⟩ := List.cons.inj (show [sampleSyn] = dgram :: rest from is)
    cases empty) rfl
  exact ⟨_, turned, rfl, rfl, (dispatcher_serves_iff fecZeros sampleOpts false turned).1⟩

/-- An empty datagram stops the dispatcher when no call on its thread has failed with would-block, and when one
has, the handshake that arrived with it is left in the socket while the dispatcher sleeps. -/
theorem dispatcher_stopped_by_empty : (∃ σ, runAll Dispatcher.step (Dispatcher.start fecZeros sampleOpts false)
        [.arrive ⟨samplePeer, [], []⟩, .turn sampleIv] = some σ ∧ σ.pc = .stopped ∧ σ.ln.closed = false) ∧
    (∃ σ, runAll Dispatcher.step (Dispatcher.start fecZeros sampleOpts false)
        [.turn sampleIv, .arrive ⟨samplePeer, [], []⟩, .arrive sampleSyn, .poll, .turn sampleIv] = some σ ∧
      σ.pc = .parked ∧ σ.edge = false ∧ σ.queue = [sampleSyn]) :=
  ⟨⟨_, rfl, rfl, rfl⟩, ⟨_, rfl, rfl, rfl, rfl⟩⟩

end Xylem.Rudp
