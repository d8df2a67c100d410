import Xylem.Http.Serialize

namespace Xylem.Http

open Lib

variable (σ : Type)

/-- What one byte makes of a response that is being parsed. -/
inductive ParseStep
  | more (state : σ)
  | done (state : σ)
  | fail

/-- The response parser with the callbacks of `_http_cli_parser_init`, byte by byte: `start` says whether the response
is to a `HEAD` request, `finish` completes a response that lasts until the end of the stream. Such a response is never
one to keep the connection for. -/
structure ResponseParser where
  start : Bool → σ
  feed : σ → UInt8 → ParseStep σ
  finish : σ → Option σ
  status : σ → Nat
  headerSeen : σ → Bool
  keepAlive : σ → Bool
  finish_closes : ∀ state final, finish state = some final → keepAlive final = false

/-- What `t->read` returns, and whether the wait for `100 Continue` is over by then. -/
inductive HttpRead
  | data (chunk : List UInt8)
  | eof (waited : Bool)
  | error (waited : Bool)

/-- How `_http_cli_receive` ends: with the final response, with the go-ahead for the body, or with an error; `rest` are
the bytes it leaves pending. It may also still wait. -/
inductive HttpReceived
  | final (state : σ) (rest : List UInt8)
  | proceed (state : σ) (rest : List UInt8)
  | failed
  | waiting (informational : Nat) (state : σ)

variable {σ : Type} (parser : ResponseParser σ)

/-- What `_http_cli_receive` does with the bytes of a read, through the informational responses in them. -/
def httpCliDrain (head expect : Bool) : Nat → σ → List UInt8 → HttpReceived σ
  | informational, state, [] => .waiting informational state
  | informational, state, c :: rest =>
    match parser.feed state c with
    | .more state => httpCliDrain head expect informational state rest
    | .fail => .failed
    | .done state =>
      if 200 ≤ parser.status state then .final state rest
      else if parser.status state = 101 ∨ 16 < informational + 1 then .failed
      else if expect ∧ parser.status state = 100 then .proceed (parser.start head) rest
      else httpCliDrain head expect (informational + 1) (parser.start head) rest

/-- `_http_cli_receive` over the reads to come, with the bytes that they give and those that are left. -/
def httpCliReceive (head expect : Bool) : Nat → σ → List HttpRead → HttpReceived σ × List UInt8 × List HttpRead
  | informational, state, [] => (.waiting informational state, [], [])
  | informational, state, .data chunk :: reads =>
    match httpCliDrain parser head expect informational state chunk with
    | .waiting informational state =>
      let (result, bytes, reads) := httpCliReceive head expect informational state reads
      (result, chunk ++ bytes, reads)
    | result => (result, chunk, reads)
  | _, state, .eof waited :: reads =>
    if expect ∧ !parser.headerSeen state ∧ waited then (.proceed state [], [], reads)
    else
      match parser.finish state with
      | some final => (.final final [], [], reads)
      | none => (.failed, [], reads)
  | _, state, .error waited :: reads =>
    if expect ∧ !parser.headerSeen state ∧ waited then (.proceed state [], [], reads) else (.failed, [], reads)

/-- `_http_cli_receive` with bytes pending from before. -/
def httpCliResume (head : Bool) (state : σ) (pending : List UInt8) (reads : List HttpRead) :
    HttpReceived σ × List UInt8 × List HttpRead :=
  match httpCliDrain parser head false 0 state pending with
  | .waiting informational state => httpCliReceive parser head false informational state reads
  | result => (result, [], reads)

/-- What the network and the clock do in one exchange: whether the writes succeed, what is read, and whether the
deadline has passed when the body is to be sent and at the end; `keyed` says whether the connection has a key. -/
structure HttpScript where
  sends : Bool
  sendsBody : Bool
  reads : List HttpRead
  overdue : Bool
  late : Bool
  keyed : Bool

/-- What an exchange wrote and read, the response, and whether the connection went into the pool. -/
structure HttpOutcome (σ : Type) where
  written : List UInt8
  received : List UInt8
  response : Option σ
  released : Bool

/-- The end of an exchange: the connection is kept if nothing is left over and the response allows it. -/
def httpConclude (script : HttpScript) (written received : List UInt8) : HttpReceived σ → Option (HttpOutcome σ)
  | .final state rest =>
    let keep := rest.isEmpty && parser.keepAlive state && !script.late
    some { written, received, response := some state, released := keep && script.keyed }
  | .waiting _ _ => none
  | _ => some { written, received, response := none, released := false }

/-- `http_do_request` from the request on its connection to the release of the connection; `none` while it waits. -/
def httpExchange (req : HttpReq) (script : HttpScript) : Option (HttpOutcome σ) :=
  let request := httpReqSerialize req
  let head := httpHeaderEq req.method (ascii "HEAD")
  let closed := some { written := request, received := [], response := none, released := false }
  if !script.sends then closed
  else if req.expectContinue then
    match httpCliReceive parser head true 0 (parser.start head) script.reads with
    | (.proceed state pending, bytes, reads) =>
      if script.overdue || !script.sendsBody then closed
      else
        let (result, more, _) := httpCliResume parser head state pending reads
        httpConclude parser script (request ++ req.body) (bytes ++ more) result
    | (result, bytes, _) => httpConclude parser script request bytes result
  else
    let (result, bytes, _) := httpCliReceive parser head false 0 (parser.start head) script.reads
    httpConclude parser script request bytes result

/-- A connection: what was written to it and read from it, and whether it can serve a request. -/
structure HttpConn where
  written : List UInt8
  received : List UInt8
  usable : Bool

def HttpConn.fresh : HttpConn := ⟨[], [], true⟩

def HttpConn.step (conn : HttpConn) (act : HttpReq × HttpScript) : Option HttpConn :=
  if conn.usable then
    (httpExchange parser act.1 act.2).map fun outcome =>
      { written := conn.written ++ outcome.written, received := conn.received ++ outcome.received
        usable := outcome.released }
  else none

end Xylem.Http
