import Mathlib.Data.List.Count
import Mathlib.Data.List.Nodup
import Xylem.Lib.Run

namespace Xylem.Http

open Lib

def poolMaxIdlePerHost : Nat := 2

def poolIdleTimeoutMs : UInt64 := 90000

def poolMaxHosts : Nat := 100

/-- `_http_pool_idle_conn_t`. A transport is its number in the order of the dials. -/
structure HttpIdleConn where
  transport : Nat
  idleSince : UInt64

/-- `_http_pool_entry_t`; the connections in use of `conns`, next to its capacity. -/
structure HttpPoolEntry (κ : Type) where
  key : κ
  conns : List HttpIdleConn
  cap : Nat

/-- `_http_pool` with `_http_pool_mu`, and where the transports are: `held` by requests, `closed` in that order.
`released` says under which key and when a transport was last given back. -/
structure HttpPool (κ : Type) where
  entries : List (HttpPoolEntry κ)
  mutex : Bool
  held : List Nat
  closed : List Nat
  dialled : Nat
  released : Nat → Option (κ × UInt64)

/-- The entry that `_http_pool_release` adds for a new key. -/
def HttpPoolEntry.fresh {κ : Type} (key : κ) : HttpPoolEntry κ := ⟨key, [], 0⟩

variable {κ : Type} [DecidableEq κ]

/-- Changes the entry that `_http_pool_find_entry` finds. -/
def updateEntry (key : κ) (change : HttpPoolEntry κ → HttpPoolEntry κ) : List (HttpPoolEntry κ) → List (HttpPoolEntry κ)
  | [] => []
  | entry :: rest => if entry.key = key then change entry :: rest else entry :: updateEntry key change rest

def httpPoolFindEntry (entries : List (HttpPoolEntry κ)) (key : κ) : Option (HttpPoolEntry κ) :=
  entries.find? fun entry => entry.key = key

/-- The loop of `_http_pool_acquire`, over the connections from the newest on: those that it closes, the one that it
hands out, and those that stay. -/
def httpPoolScan (now : UInt64) : List HttpIdleConn → List Nat × Option Nat × List HttpIdleConn
  | [] => ([], none, [])
  | conn :: rest =>
    if now - conn.idleSince > poolIdleTimeoutMs then
      let (stale, found, left) := httpPoolScan now rest
      (conn.transport :: stale, found, left)
    else ([], some conn.transport, rest)

namespace HttpPool

def init : HttpPool κ :=
  { entries := [], mutex := false, held := [], closed := [], dialled := 0, released := fun _ => none }

variable (s : HttpPool κ)

variable (entry : HttpPoolEntry κ) (key : κ) (transport : Nat)

/-- `_http_transport_close`. -/
def closeTransport : HttpPool κ :=
  { s with held := s.held.erase transport, closed := transport :: s.closed }

variable (now : UInt64)

/-- `_http_pool_acquire`, with whether the mutex can be created if there is none. -/
def acquire (creates : Bool) : Option Nat × HttpPool κ :=
  if !s.mutex && !creates then (none, s)
  else
    let s := { s with mutex := true }
    match httpPoolFindEntry s.entries key with
    | none => (none, s)
    | some entry =>
      let (stale, found, left) := httpPoolScan now entry.conns.reverse
      (found, { s with
          entries := updateEntry key (fun entry => { entry with conns := left.reverse }) s.entries
          held := found.toList ++ s.held
          closed := stale ++ s.closed })

/-- The end of `_http_pool_release`, from its entry on: the oldest connection goes when the entry is full, and the array
grows to hold the transport. -/
def store (grows : Bool) : HttpPool κ :=
  let evicted := if poolMaxIdlePerHost ≤ entry.conns.length then entry.conns.take 1 else []
  let conns := entry.conns.drop evicted.length
  let s := { s with closed := evicted.map HttpIdleConn.transport ++ s.closed }
  let full := entry.cap ≤ conns.length
  let cap := if full then min (if entry.cap = 0 then 4 else entry.cap * 2) poolMaxIdlePerHost else entry.cap
  if full ∧ !grows then
    { s with entries := updateEntry entry.key (fun entry => { entry with conns }) s.entries }.closeTransport transport
  else
    { s with
      entries := updateEntry entry.key (fun entry => { entry with conns := conns ++ [⟨transport, now⟩], cap }) s.entries
      held := s.held.erase transport
      released := fun t => if t = transport then some (entry.key, now) else s.released t }

/-- `_http_pool_release`, with whether the mutex and the array can be allocated. -/
def release (creates grows : Bool) : HttpPool κ :=
  if !s.mutex && !creates then s.closeTransport transport
  else
    let s := { s with mutex := true }
    match httpPoolFindEntry s.entries key with
    | some entry => s.store entry transport now grows
    | none =>
      if poolMaxHosts ≤ s.entries.length then s.closeTransport transport
      else { s with entries := s.entries ++ [HttpPoolEntry.fresh key] }.store (.fresh key) transport now grows

def clear : HttpPool κ :=
  { s with
    entries := []
    mutex := false
    closed := s.entries.flatMap (fun entry => entry.conns.map HttpIdleConn.transport) ++ s.closed }

end HttpPool

/-- What a request does with the pool: it opens a transport, takes one out of the pool, gives one back or closes it. -/
inductive HttpPoolAct (κ : Type)
  | dial
  | acquire (key : κ) (now : UInt64) (creates : Bool)
  | release (key : κ) (transport : Nat) (now : UInt64) (creates grows : Bool)
  | close (transport : Nat)
  | clear

def HttpPool.step (s : HttpPool κ) : HttpPoolAct κ → Option (HttpPool κ)
  | .dial => some { s with held := s.dialled :: s.held, dialled := s.dialled + 1 }
  | .acquire key now creates => some (s.acquire key now creates).2
  | .release key transport now creates grows =>
    if transport ∈ s.held then some (s.release key transport now creates grows) else none
  | .close transport => if transport ∈ s.held then some (s.closeTransport transport) else none
  | .clear => some s.clear

end Xylem.Http
