import Xylem.Lib.Work

namespace Xylem.Tls

open Lib

/-- What a coroutine does next on a DTLS server, in pieces that others see as one: the sections under `sessions_mu`,
the atomic operations, and the waits. A session is named by the number of its creation. `dropTable` is the release of
the reference of the table; `returns` and `returnsListener` are the ends of calls of the user. -/
inductive DtlsOp
  | receive
  | stopAccepting (dispatcher : Bool)
  | sweep
  | awaitToken
  | takePending
  | operate (k : Nat)
  | deadlineChanged (k : Nat)
  | shutdown (k : Nat)
  | unlink (k : Nat)
  | closeInbox (k : Nat)
  | unref (k : Nat)
  | dropTable (k : Nat)
  | free (k : Nat)
  | unrefTransport
  | freeTransport
  | returns (k : Nat)
  | returnsListener
deriving DecidableEq

variable (A : Type)

/-- A server session. In the inbox `none` is the control message. `held` is the handle of the user; the last fields
count the releases of the table's reference, the entries into the pending list, the accepts that returned the session,
the listener closes that discarded it, and the calls of `free`. -/
structure DtlsConn where
  peer : A
  closed : Bool
  inSessions : Bool
  inboxClosed : Bool
  wakePending : Bool
  inbox : List (Option (List UInt8))
  refs : Nat
  held : Bool
  drops : Nat
  queued : Nat
  accepts : Nat
  discards : Nat
  frees : Nat

/-- `_dtls_transport_t` with the coroutines that work on it. `tokens` are the messages in `accept_ch`; `listener` is
the handle of the user. -/
structure DtlsTransport where
  accepting : Bool
  acceptClosed : Bool
  tokens : Nat
  table : List Nat
  pending : List Nat
  socketCloses : Nat
  refs : Nat
  frees : Nat
  listener : Bool
  created : Nat
  conn : Nat → DtlsConn A
  work : Work DtlsOp
  aborted : Bool

/-- What the surroundings decide: the datagram that arrives, and whether the session, the inbox message and the accept
message can be allocated; an error; a session or message that is next. -/
inductive DtlsEnv
  | plain
  | datagram (peer : A) (data : List UInt8) (made pushed sent : Bool)
  | fails
  | next (k : Nat)

def DtlsEnv.isFails {A : Type} : DtlsEnv A → Bool
  | .fails => true
  | _ => false

inductive DtlsAct
  | run (i : Nat) (env : DtlsEnv A)
  | accept
  | operation (k : Nat)
  | setDeadline (k : Nat)
  | close (k : Nat)
  | destroy (k : Nat)
  | closeListener
  | destroyListener

def dtlsIsClientHello (data : List UInt8) : Bool :=
  let byte := fun i => (data.getD i 0).toNat
  let recordLen := byte 11 * 256 + byte 12
  decide (25 ≤ data.length) && byte 0 == 22 && byte 1 == 0xfe && byte 3 == 0 && byte 4 == 0 && byte 13 == 1 &&
    decide (12 ≤ recordLen) && decide (recordLen ≤ data.length - 13)

def dtlsPendingCap : Nat := 128

variable {A : Type}

namespace DtlsConn

/-- `_dtls_create_session`, put into the table. -/
def fresh (peer : A) : DtlsConn A :=
  { peer, closed := false, inSessions := true, inboxClosed := false, wakePending := false, inbox := [], refs := 1,
    held := false, drops := 0, queued := 0, accepts := 0, discards := 0, frees := 0 }

/-- A number that names no session yet. -/
def unborn (peer : A) : DtlsConn A := { fresh peer with inSessions := false, refs := 0 }

/-- The datagrams in the inbox, which `inbox_len` counts. -/
def inboxLen (c : DtlsConn A) : Nat := (c.inbox.filter Option.isSome).length

end DtlsConn

namespace DtlsTransport

/-- `dtls_listen`: the listener and the dispatcher hold a reference each. -/
def init (peer : A) : DtlsTransport A :=
  { accepting := true, acceptClosed := false, tokens := 0, table := [], pending := [], socketCloses := 0, refs := 2,
    frees := 0, listener := true, created := 0, conn := fun _ => .unborn peer,
    work := [[.receive, .stopAccepting true, .unrefTransport]], aborted := false }

variable (s : DtlsTransport A) (k : Nat)

def setConn (c : DtlsConn A) : DtlsTransport A :=
  { s with conn := Function.update s.conn k c }

/-- `xylem_channel_send` on the inbox, which ends the program if the inbox is closed. -/
def sendInbox (message : Option (List UInt8)) : DtlsTransport A :=
  let c := s.conn k
  if c.inboxClosed then { s with aborted := true } else s.setConn k { c with inbox := c.inbox ++ [message] }

def inboxPush (data : List UInt8) (pushed : Bool) : DtlsTransport A :=
  if 64 ≤ (s.conn k).inboxLen || !pushed then s else s.sendInbox k (some data)

/-- The new session enters the table with the reference that the table owns, and takes one on the transport. -/
def create (peer : A) : DtlsTransport A :=
  { s with
    created := s.created + 1, refs := s.refs + 1, table := s.created :: s.table,
    conn := Function.update s.conn s.created (.fresh peer) }

/-- The new session enters the pending list after its token was sent. -/
def enqueue : DtlsTransport A :=
  { s with
    tokens := s.tokens + 1, pending := s.pending ++ [k],
    conn := Function.update s.conn k { s.conn k with queued := (s.conn k).queued + 1 } }

/-- The token could not be sent: the session leaves the table. -/
def discardNew : DtlsTransport A :=
  { s with
    table := s.table.erase k,
    conn := Function.update s.conn k { s.conn k with inSessions := false, closed := true, inboxClosed := true } }

/-- The section of `_dtls_dispatcher` under `sessions_mu`, and what it leaves to do. -/
def dispatch [DecidableEq A] (s : DtlsTransport A) (peer : A) (data : List UInt8) (made pushed sent : Bool) :
    DtlsTransport A × List DtlsOp :=
  match s.table.find? fun k => (s.conn k).peer = peer with
  | some k => (s.inboxPush k data pushed, [])
  | none =>
    if s.accepting && decide (s.pending.length < dtlsPendingCap) && dtlsIsClientHello data && made then
      let k := s.created
      let t := (s.create peer).inboxPush k data pushed
      if t.acceptClosed then ({ t with aborted := true }, [])
      else if sent then (t.enqueue k, [])
      else (t.discardNew k, [.dropTable k])
    else (s, [])

/-- `_dtls_transport_stop_accepting`: the section under `sessions_mu`, then the pending sessions one by one. -/
def stopAccepting : DtlsTransport A × List DtlsOp :=
  if !s.accepting then (s, [])
  else
    let table := s.table.filter fun k => k ∉ s.pending
    ({ s with
        accepting := false, acceptClosed := true, pending := [], table,
        socketCloses := if table = [] then s.socketCloses + 1 else s.socketCloses,
        conn := fun k =>
          if k ∈ s.pending then { s.conn k with inSessions := false, discards := (s.conn k).discards + 1 }
          else s.conn k },
      s.pending.flatMap fun k => [.shutdown k, .dropTable k])

/-- `_dtls_server_unlink`, and what is left of `_dtls_server_shutdown` after it. -/
def unlink : DtlsTransport A × List DtlsOp :=
  if (s.conn k).inSessions then
    let table := s.table.erase k
    ({ s with
        table,
        socketCloses := if !s.accepting && table = [] then s.socketCloses + 1 else s.socketCloses,
        conn := Function.update s.conn k { s.conn k with inSessions := false } },
      [.closeInbox k, .dropTable k])
  else (s, [.closeInbox k])

/-- The pending session at the head goes to a caller of `dtls_accept`. -/
def takePending : DtlsTransport A :=
  match s.accepting, s.pending with
  | true, k :: rest =>
    { s with
      pending := rest,
      conn := Function.update s.conn k
        { s.conn k with refs := (s.conn k).refs + 1, held := true, accepts := (s.conn k).accepts + 1 } }
  | _, _ => s

def ref : DtlsTransport A :=
  s.setConn k { s.conn k with refs := (s.conn k).refs + 1 }

/-- The next message of the inbox goes to the reader. -/
def readInbox : DtlsTransport A :=
  match (s.conn k).inbox with
  | [] => s
  | none :: rest => s.setConn k { s.conn k with inbox := rest, wakePending := false }
  | some _ :: rest => s.setConn k { s.conn k with inbox := rest }

/-- The section of `_dtls_server_deadline_changed` under `sessions_mu`. -/
def deadlineChanged (oom : Bool) : DtlsTransport A :=
  let c := s.conn k
  if c.inSessions && !c.closed && !c.wakePending && !oom then
    (s.setConn k { c with wakePending := true }).sendInbox k none
  else s

/-- One operation of a coroutine, and what it has to do before it goes on. -/
def exec [DecidableEq A] (s : DtlsTransport A) (env : DtlsEnv A) : DtlsOp → Option (DtlsTransport A × List DtlsOp)
  | .receive =>
    match env with
    | .datagram peer data made pushed sent =>
      let (t, more) := s.dispatch peer data made pushed sent
      some (t, more ++ [DtlsOp.receive])
    | _ => some (s, [])
  | .stopAccepting dispatcher =>
    let (t, more) := s.stopAccepting
    some (t, more ++ if dispatcher then [DtlsOp.sweep] else [])
  | .sweep =>
    match s.table, env with
    | [], _ => some (s, [])
    | _, .next k => if k ∈ s.table then some (s.ref k, [.shutdown k, .unref k, .sweep]) else none
    | _, _ => none
  | .awaitToken =>
    if 0 < s.tokens then some ({ s with tokens := s.tokens - 1 }, [.takePending])
    else if s.acceptClosed then some (s, []) else none
  | .takePending => some (s.takePending, [])
  | .operate k =>
    match env with
    | .next _ => some (s.readInbox k, [.operate k])
    | .fails => some (s, [.shutdown k, .operate k])
    | _ => some (s, [])
  | .deadlineChanged k => some (s.deadlineChanged k env.isFails, [])
  | .shutdown k =>
    if (s.conn k).closed then some (s, []) else some (s.setConn k { s.conn k with closed := true }, [.unlink k])
  | .unlink k => some (s.unlink k)
  | .closeInbox k => some (s.setConn k { s.conn k with inboxClosed := true }, [])
  | .unref k =>
    some (s.setConn k { s.conn k with refs := (s.conn k).refs - 1 }, if (s.conn k).refs = 1 then [.free k] else [])
  | .dropTable k =>
    some (s.setConn k { s.conn k with refs := (s.conn k).refs - 1, drops := (s.conn k).drops + 1 },
      if (s.conn k).refs = 1 then [.free k] else [])
  | .free k => some (s.setConn k { s.conn k with frees := (s.conn k).frees + 1 }, [.unrefTransport])
  | .unrefTransport => some ({ s with refs := s.refs - 1 }, if s.refs = 1 then [.freeTransport] else [])
  | .freeTransport => some ({ s with frees := s.frees + 1 }, [])
  | .returns _ | .returnsListener => some (s, [])

def call (program : List DtlsOp) : DtlsTransport A := { s with work := s.work ++ [program] }

def step [DecidableEq A] (s : DtlsTransport A) (a : DtlsAct A) : Option (DtlsTransport A) :=
  if s.aborted then none
  else
    match a with
    | .run i env =>
      match s.work[i]? with
      | some (op :: rest) => (s.exec env op).map fun (t, more) => { t with work := t.work.set i (more ++ rest) }
      | _ => none
    | .accept =>
      if s.listener then
        some ({ s with refs := s.refs + 1 }.call [.awaitToken, .unrefTransport, .returnsListener])
      else none
    | .operation k =>
      if (s.conn k).held then some ((s.ref k).call [.operate k, .unref k, .returns k]) else none
    | .setDeadline k => if (s.conn k).held then some (s.call [.deadlineChanged k, .returns k]) else none
    | .close k => if (s.conn k).held then some (s.call [.shutdown k, .returns k]) else none
    | .destroy k =>
      if (s.conn k).held then
        some ((s.setConn k { s.conn k with held := false }).call [.shutdown k, .unref k])
      else none
    | .closeListener => if s.listener then some (s.call [.stopAccepting false, .returnsListener]) else none
    | .destroyListener =>
      if s.listener then some ({ s with listener := false }.call [.stopAccepting false, .unrefTransport]) else none

/-- The contract of the user: `dtls_destroy` and `dtls_destroy_listener` are the last calls on their handles and do
not race with other calls. -/
def Allowed : DtlsAct A → Prop
  | .destroy k => .returns k ∉ s.work.flatten
  | .destroyListener => .returnsListener ∉ s.work.flatten
  | _ => True

instance (s : DtlsTransport A) : ∀ a, Decidable (s.Allowed a)
  | .destroy k => inferInstanceAs (Decidable (.returns k ∉ s.work.flatten))
  | .destroyListener => inferInstanceAs (Decidable (.returnsListener ∉ s.work.flatten))
  | .run _ _ | .accept | .operation _ | .setDeadline _ | .close _ | .closeListener => .isTrue trivial

end DtlsTransport

end Xylem.Tls
