import Mathlib.Algebra.Group.Nat.Defs
import Mathlib.Logic.Function.Basic

namespace Xylem.Tls

/-- The accesses of `_dtls_server_shutdown` that others can see: the exchange of `closed`, the section of
`_dtls_server_unlink` under `sessions_mu`, and the closing of the inbox. -/
inductive ShutStage
  | exchange
  | unlink
  | inbox
deriving DecidableEq

/-- The next access of a coroutine to a session that it does not read from. The flag of a deadline call tells
`dtls_set_read_deadline` from `dtls_set_write_deadline`; `push` is the dispatcher with a datagram for the session. -/
inductive DtlsCallerPc
  | out
  | setLock (read : Bool)
  | setTest (read : Bool)
  | setExchange (read : Bool)
  | setSend (read : Bool)
  | setFail (read : Bool)
  | setUnlock (read : Bool)
  | shut (stage : ShutStage)
  | push (dgram : Nat)
deriving DecidableEq

/-- The next access of the reader: the loop of `_dtls_server_recv_loop`, then `_dtls_server_wait_read` with the
deadline that the wait was computed from. -/
inductive DtlsReaderPc
  | out
  | top
  | backend
  | load
  | compute (deadline : Nat)
  | enter (deadline wait : Nat)
  | wait (deadline wait : Nat)
  | control
  | dgram (message : Nat)
  | shut (stage : ShutStage)
deriving DecidableEq

/-- An accepted session whose handshake is done, with the calls on it. Messages of the inbox are addresses: that of
the session itself is the control message. `locked` is `sessions_mu`. The last fields record what happens: a send on
the closed inbox, that the last control message could not be allocated, the control messages sent and taken out, the
addresses passed to `free` or to the pool, and the release of the session. -/
structure DtlsSession (ι : Type) where
  self : Nat
  rdDeadline : Nat
  closed : Bool
  inSessions : Bool
  inboxClosed : Bool
  wakePending : Bool
  inbox : List Nat
  inboxLen : Int
  pendingDgram : Option Nat
  reader : DtlsReaderPc
  locked : Bool
  pc : ι → DtlsCallerPc
  aborted : Bool
  failed : Bool
  sent : Nat
  taken : Nat
  released : List Nat
  gone : Bool

/-- What `tls_backend_conn_read` returns. -/
inductive BackendState
  | ok
  | closed
  | wantRead
  | wantWrite
  | error

/-- What the surroundings decide in a step of the reader: the outcome of the backend and whether it took the datagram
at hand, whether the socket became writable, the clock, and whether the wait runs out. -/
structure ReadEnv where
  result : BackendState
  consumes : Bool
  writable : Bool
  now : Nat
  timedOut : Bool

inductive DtlsSessionAct (ι : Type)
  | setRead (i : ι) (deadline : Nat)
  | setWrite (i : ι)
  | close (i : ι)
  | dgram (i : ι) (message : Nat)
  | go (i : ι) (oom : Bool)
  | read
  | reader (env : ReadEnv)
  | free

/-- The wait that `_dtls_server_recv_loop` computes from a deadline, if the deadline has not passed. -/
def dtlsWait (deadline now : Nat) : Option Nat :=
  if deadline = 0 then some (2 ^ 64 - 1) else if deadline ≤ now then none else some (deadline - now)

def dtlsInboxCap : Int := 64

namespace DtlsSession

variable {ι : Type}

def init (self : Nat) : DtlsSession ι :=
  { self, rdDeadline := 0, closed := false, inSessions := true, inboxClosed := false, wakePending := false, inbox := [],
    inboxLen := 0, pendingDgram := none, reader := .out, locked := false, pc := fun _ => .out, aborted := false,
    failed := false, sent := 0, taken := 0, released := [], gone := false }

variable (s : DtlsSession ι)

/-- A step of `_dtls_server_shutdown`, and the next one. -/
def shutdown : ShutStage → Option (DtlsSession ι × Option ShutStage)
  | .exchange => some ({ s with closed := true }, if s.closed then none else some .unlink)
  | .unlink => if s.locked then none else some ({ s with inSessions := false }, some .inbox)
  | .inbox => some ({ s with inboxClosed := true }, none)

/-- The dispatcher finds the session in the table, or does not, and pushes the datagram. -/
def push (dgram : Nat) (oom : Bool) : DtlsSession ι :=
  if !s.inSessions || decide (dtlsInboxCap ≤ s.inboxLen) then { s with released := dgram :: s.released }
  else if s.inboxClosed then { s with aborted := true }
  else if oom then { s with released := dgram :: s.released }
  else { s with inbox := s.inbox ++ [dgram], inboxLen := s.inboxLen + 1 }

/-- `_dtls_server_io_read` hands the datagram to the backend, which is done with it at the end of the call. -/
def consume : DtlsSession ι :=
  { s with pendingDgram := none, released := s.pendingDgram.toList ++ s.released }

def goReader (env : ReadEnv) : Option (DtlsSession ι) :=
  match s.reader with
  | .out => none
  | .top => some { s with reader := if s.closed then .shut .exchange else .backend }
  | .backend =>
    let t := if env.consumes then s.consume else s
    some { t with
      reader := match env.result with
        | .ok | .closed => .out
        | .wantRead => .load
        | .wantWrite => if env.writable then .top else .shut .exchange
        | .error => .shut .exchange }
  | .load => some { s with reader := .compute s.rdDeadline }
  | .compute deadline =>
    some { s with
      reader := match dtlsWait deadline env.now with
        | none => .shut .exchange
        | some wait => .enter deadline wait }
  | .enter deadline wait =>
    some { s with
      reader := if s.closed then .shut .exchange else if s.pendingDgram.isSome then .top else .wait deadline wait }
  | .wait _ wait =>
    -- a wait without a deadline does not run out
    if env.timedOut && wait != 2 ^ 64 - 1 then some { s with reader := .shut .exchange }
    else
      match s.inbox with
      | message :: rest =>
        if message = s.self then some { s with inbox := rest, taken := s.taken + 1, reader := .control }
        else some { s with inbox := rest, reader := .dgram message }
      | [] => if s.inboxClosed then some { s with reader := .shut .exchange } else none
  | .control => some { s with wakePending := false, reader := .top }
  | .dgram message =>
    some { s with inboxLen := s.inboxLen - 1, pendingDgram := some message, reader := .top }
  | .shut stage =>
    (s.shutdown stage).map fun (t, next) => { t with reader := next.elim .out .shut }

/-- `_dtls_conn_unref` by the last holder: what is left in the inbox is freed except for the control message, which
is the session, freed at the end. -/
def release : DtlsSession ι :=
  { s with
    inbox := [], taken := s.taken + s.inbox.count s.self, pendingDgram := none, gone := true,
    released := s.self :: (s.inbox.filter fun message => message != s.self) ++ s.pendingDgram.toList ++ s.released }

variable {s t : DtlsSession ι}

theorem shutdown_frame {stage : ShutStage} {next : Option ShutStage} (moved : s.shutdown stage = some (t, next)) :
    t.pc = s.pc ∧ t.locked = s.locked ∧ t.reader = s.reader := by
  cases stage with
  | exchange | inbox => cases moved; exact ⟨rfl, rfl, rfl⟩
  | unlink =>
    obtain ⟨-, moved⟩ := Option.ite_none_left_eq_some.mp moved
    cases moved
    exact ⟨rfl, rfl, rfl⟩

theorem push_frame (s : DtlsSession ι) (dgram : Nat) (oom : Bool) :
    (s.push dgram oom).pc = s.pc ∧ (s.push dgram oom).locked = s.locked ∧ (s.push dgram oom).reader = s.reader ∧
    (s.push dgram oom).closed = s.closed ∧ (s.push dgram oom).inboxClosed = s.inboxClosed := by
  unfold push
  split
  · exact ⟨rfl, rfl, rfl, rfl, rfl⟩
  · split
    · exact ⟨rfl, rfl, rfl, rfl, rfl⟩
    · split <;> exact ⟨rfl, rfl, rfl, rfl, rfl⟩

variable [DecidableEq ι]

def goto (s : DtlsSession ι) (i : ι) (pc : DtlsCallerPc) : DtlsSession ι := { s with pc := Function.update s.pc i pc }

/-- The next step of a caller. The middle part is `_dtls_server_deadline_changed`. -/
def go (s : DtlsSession ι) (i : ι) (oom : Bool) : Option (DtlsSession ι) :=
  match s.pc i with
  | .out => none
  | .setLock read => if s.locked then none else some ({ s with locked := true }.goto i (.setTest read))
  | .setTest read => some (s.goto i (if s.inSessions && !s.closed then .setExchange read else .setUnlock read))
  | .setExchange read =>
    some ({ s with wakePending := true }.goto i (if s.wakePending then .setUnlock read else .setSend read))
  | .setSend read =>
    if s.inboxClosed then some { s with aborted := true }
    else if oom then some ({ s with failed := true }.goto i (.setFail read))
    else
      some ({ s with failed := false, inbox := s.inbox ++ [s.self], sent := s.sent + 1 }.goto i (.setUnlock read))
  | .setFail read => some ({ s with wakePending := false }.goto i (.setUnlock read))
  | .setUnlock _ => some ({ s with locked := false }.goto i .out)
  | .shut stage => (s.shutdown stage).map fun (t, next) => t.goto i (next.elim .out .shut)
  | .push dgram => if s.locked then none else some ((s.push dgram oom).goto i .out)

/-- A call begins, or takes its next step. A send on a closed channel ends the program. -/
def step (s : DtlsSession ι) (a : DtlsSessionAct ι) : Option (DtlsSession ι) :=
  if s.gone || s.aborted then none
  else
    match a with
    | .setRead i deadline =>
      if s.pc i = .out then some ({ s with rdDeadline := deadline }.goto i (.setLock true)) else none
    | .setWrite i => if s.pc i = .out then some (s.goto i (.setLock false)) else none
    | .close i => if s.pc i = .out then some (s.goto i (.shut .exchange)) else none
    | .dgram i message => if s.pc i = .out then some (s.goto i (.push message)) else none
    | .go i oom => s.go i oom
    | .read => if s.reader = .out then some { s with reader := .top } else none
    | .reader env => s.goReader env
    | .free => some s.release

/-- What the session may rely on: a datagram lies elsewhere in memory than the session, and the last reference is
dropped after the calls, the table and the inbox are done with. -/
def Allowed (s : DtlsSession ι) : DtlsSessionAct ι → Prop
  | .dgram _ message => message ≠ s.self
  | .free => s.reader = .out ∧ (∀ i, s.pc i = .out) ∧ s.inSessions = false ∧ s.inboxClosed = true
  | _ => True

instance {n : Nat} (s : DtlsSession (Fin n)) : ∀ a, Decidable (s.Allowed a)
  | .dgram _ message => inferInstanceAs (Decidable (message ≠ s.self))
  | .free => inferInstanceAs (Decidable (_ ∧ _))
  | .setRead _ _ | .setWrite _ | .close _ | .go _ _ | .read | .reader _ => .isTrue trivial

end DtlsSession

end Xylem.Tls
