import Xylem.Http.Credentials
import Xylem.Http.Framing

namespace Xylem.Http

open Lib List Bool HttpReq HttpCall

variable {σ : Type} {parser : ResponseParser σ} {head expect : Bool} {got : List UInt8} {state : σ}

/-- What has been read after `got` when the bytes of `chunk` have come: the response, or the part of it so far. -/
def HttpReceived.After (parser : ResponseParser σ) (head : Bool) (got chunk : List UInt8) : HttpReceived σ → Prop
  | .final last rest => ∃ used, chunk = used ++ rest ∧ parser.Responds head (got ++ used) last
  | .proceed next rest => ∃ used, chunk = used ++ rest ∧ parser.Partway head (got ++ used) next
  | .waiting _ next => parser.Partway head (got ++ chunk) next
  | .failed => True

variable {result : HttpReceived σ} {informational : Nat} {outcome : HttpOutcome σ} {script : HttpScript}
  {req : HttpReq} {call : HttpCall}

theorem HttpReceived.After.shift {front chunk : List UInt8}
    (after : result.After parser head (got ++ front) chunk) : result.After parser head got (front ++ chunk) := by
  cases result with
  | final last rest =>
    obtain ⟨used, rfl, responds⟩ := after
    exact ⟨front ++ used, by rw [append_assoc], by rw [← append_assoc]; exact responds⟩
  | proceed next rest =>
    obtain ⟨used, rfl, partway⟩ := after
    exact ⟨front ++ used, by rw [append_assoc], by rw [← append_assoc]; exact partway⟩
  | waiting _ next =>
    rw [After, ← append_assoc]
    exact after
  | failed => trivial

theorem httpCliDrain_spec {chunk : List UInt8} (partway : parser.Partway head got state) :
    (httpCliDrain parser head expect informational state chunk).After parser head got chunk := by
  induction chunk generalizing informational state got with
  | nil =>
    rw [httpCliDrain, HttpReceived.After, append_nil]
    exact partway
  | cons c rest ih =>
    have further : ∀ {informational : Nat} {next : σ}, parser.Partway head (got ++ [c]) next →
        (httpCliDrain parser head expect informational next rest).After parser head got (c :: rest) :=
      fun partway => (ih partway).shift
    obtain ⟨before, part, rfl, interims, feeds⟩ := partway
    rw [httpCliDrain]
    cases step : parser.feed state c with
    | fail => trivial
    | more next =>
      exact further ⟨before, part ++ [c], by rw [append_assoc], interims, feeds.append ⟨next, step, rfl⟩⟩
    | done next =>
      have message : parser.Message head (part ++ [c]) next := ⟨part, c, state, rfl, feeds, step⟩
      dsimp only
      split
      · rename_i high
        refine ⟨[c], rfl, ?_⟩
        rw [append_assoc]
        exact interims.responds (.final message high)
      rename_i low
      split
      · trivial
      rename_i fine
      have restart : parser.Partway head (before ++ part ++ [c]) (parser.start head) := by
        refine ⟨before ++ (part ++ [c]), [], by simp, ?_, rfl⟩
        exact .more interims message (by omega) fun is => fine (.inl is)
      split
      · exact ⟨[c], rfl, restart⟩
      · exact further restart

/-- A response that the end of the stream completed is not one to keep the connection for. -/
theorem httpCliReceive_spec {reads : List HttpRead} (partway : parser.Partway head got state) :
    (httpCliReceive parser head expect informational state reads).1.After parser head got
        (httpCliReceive parser head expect informational state reads).2.1 ∨
      ∃ last, (httpCliReceive parser head expect informational state reads).1 = .final last [] ∧
        parser.keepAlive last = false := by
  induction reads generalizing informational state got with
  | nil =>
    refine .inl ?_
    rw [httpCliReceive, HttpReceived.After, append_nil]
    exact partway
  | cons read reads ih =>
    have waits : parser.Partway head (got ++ []) state := by
      rw [append_nil]
      exact partway
    cases read with
    | data chunk =>
      have drains := @httpCliDrain_spec σ parser head expect got state informational chunk partway
      rw [httpCliReceive]
      cases result : httpCliDrain parser head expect informational state chunk with
      | waiting count next =>
        rw [result] at drains
        rcases @ih (got ++ chunk) next count drains with after | closes
        · exact .inl after.shift
        · exact .inr closes
      | final last rest | proceed next rest =>
        rw [result] at drains
        exact .inl drains
      | failed => exact .inl trivial
    | eof waited =>
      rw [httpCliReceive]
      split
      · exact .inl ⟨[], rfl, waits⟩
      split
      · rename_i last finishes
        exact .inr ⟨last, rfl, parser.finish_closes _ _ finishes⟩
      · exact .inl trivial
    | error waited =>
      rw [httpCliReceive]
      split
      · exact .inl ⟨[], rfl, waits⟩
      · exact .inl trivial

theorem httpCliResume_spec {pending : List UInt8} {reads : List HttpRead} (partway : parser.Partway head got state) :
    (httpCliResume parser head state pending reads).1.After parser head got
        (pending ++ (httpCliResume parser head state pending reads).2.1) ∨
      ∃ last, (httpCliResume parser head state pending reads).1 = .final last [] ∧ parser.keepAlive last = false := by
  have drains := @httpCliDrain_spec σ parser head false got state 0 pending partway
  unfold httpCliResume
  cases result : httpCliDrain parser head false 0 state pending with
  | waiting count next =>
    rw [result] at drains
    rcases @httpCliReceive_spec σ parser head false (got ++ pending) next count reads drains with after | closes
    · exact .inl after.shift
    · exact .inr closes
  | final last rest | proceed next rest =>
    rw [result] at drains
    exact .inl (by simpa using drains)
  | failed => exact .inl trivial

/-- A connection that is kept has brought one whole response. -/
theorem httpConclude_spec {written received : List UInt8}
    (concludes : httpConclude parser script written received result = some outcome) (kept : outcome.released = true)
    (after : result.After parser head [] received ∨ ∃ last, result = .final last [] ∧ parser.keepAlive last = false) :
    outcome.written = written ∧ outcome.received = received ∧
      ∃ last, outcome.response = some last ∧ parser.Responds head received last := by
  cases result with
  | waiting => cases concludes
  | failed | proceed =>
    cases concludes
    cases kept
  | final last rest =>
    cases concludes
    simp only [and_eq_true, List.isEmpty_iff] at kept
    obtain ⟨⟨⟨rfl, alive⟩, -⟩, -⟩ := kept
    rcases after with ⟨used, is, responds⟩ | ⟨other, is, closes⟩
    · rw [append_nil] at is
      rw [is]
      exact ⟨rfl, rfl, last, rfl, responds⟩
    · cases is
      rw [alive] at closes
      cases closes

/-- Whether the final response to a request whose body is deferred comes before the body is sent. -/
def httpEarly (parser : ResponseParser σ) (req : HttpReq) (script : HttpScript) : Bool :=
  let head := httpHeaderEq req.method (ascii "HEAD")
  req.expectContinue &&
    match (httpCliReceive parser head true 0 (parser.start head) script.reads).1 with
    | .final _ _ => true
    | _ => false

/-- What a connection that is released has carried: the request, with its body unless the response came first, and one
response as the parser reads it. -/
theorem httpExchange_spec (exchanges : httpExchange parser req script = some outcome) (kept : outcome.released = true) :
    outcome.written = httpReqSerialize req ++
        (if req.expectContinue && !httpEarly parser req script then req.body else []) ∧
      ∃ last, outcome.response = some last ∧
        parser.Responds (httpHeaderEq req.method (ascii "HEAD")) outcome.received last := by
  unfold httpExchange at exchanges
  have early : httpEarly parser req script = (req.expectContinue &&
      match (httpCliReceive parser (httpHeaderEq req.method (ascii "HEAD")) true 0
        (parser.start (httpHeaderEq req.method (ascii "HEAD"))) script.reads).1 with
      | .final _ _ => true
      | _ => false) := rfl
  generalize httpHeaderEq req.method (ascii "HEAD") = head at exchanges early ⊢
  have begin_ : parser.Partway head [] (parser.start head) := ⟨[], [], rfl, .none, rfl⟩
  dsimp only at exchanges
  split at exchanges
  · cases exchanges
    cases kept
  split at exchanges
  · rename_i expects
    have first := @httpCliReceive_spec σ parser head true [] (parser.start head) 0 script.reads begin_
    obtain ⟨⟨result, bytes, reads⟩, phase⟩ : ∃ phase, httpCliReceive parser head true 0 (parser.start head)
        script.reads = phase := ⟨_, rfl⟩
    rw [phase] at exchanges first early
    rw [early, expects]
    cases result with
    | proceed state pending =>
      dsimp only at exchanges first
      split at exchanges
      · cases exchanges
        cases kept
      have partway : ∃ used, bytes = used ++ pending ∧ parser.Partway head used state := by
        rcases first with ⟨used, is, partway⟩ | ⟨last, is, -⟩
        · exact ⟨used, is, partway⟩
        · cases is
      obtain ⟨used, rfl, partway⟩ := partway
      have second := @httpCliResume_spec σ parser head used state pending reads partway
      have whole : (httpCliResume parser head state pending reads).1.After parser head []
          (used ++ pending ++ (httpCliResume parser head state pending reads).2.1) ∨
          ∃ last, (httpCliResume parser head state pending reads).1 = .final last [] ∧
            parser.keepAlive last = false := by
        rcases second with after | closes
        · rw [append_assoc]
          exact .inl after.shift
        · exact .inr closes
      obtain ⟨written, received, last, response, responds⟩ := httpConclude_spec exchanges kept whole
      exact ⟨written, last, response, received ▸ responds⟩
    | final last rest =>
      obtain ⟨written, received, last, response, responds⟩ := httpConclude_spec exchanges kept first
      exact ⟨written.trans (append_nil _).symm, last, response, received ▸ responds⟩
    | failed =>
      cases exchanges
      cases kept
    | waiting => cases exchanges
  · rename_i plain
    have first := @httpCliReceive_spec σ parser head false [] (parser.start head) 0 script.reads begin_
    obtain ⟨written, received, last, response, responds⟩ := httpConclude_spec exchanges kept first
    refine ⟨?_, last, response, received ▸ responds⟩
    rw [written, eq_false_iff.mpr plain]
    simp

/-- The values of the response's headers have no carriage return: a line ends there. -/
def HttpTurn.Plain (turn : HttpTurn) : Prop :=
  ∀ status headers, turn.reply = some (status, headers) → ∀ header ∈ headers, 0x0d ∉ header.value

/-- A request that some call of `http_do_request` sends. -/
def HttpReq.Issued (req : HttpReq) : Prop :=
  ∃ (call : HttpCall) (parsed : HttpUrl) (s : HttpRun) (sent : HttpSent), call.checked = some parsed ∧
    Reach call.turn (fun _ turn => turn.Plain) (call.begin parsed) s ∧ sent ∈ s.sent ∧ sent.req = req

theorem HttpRun.paths {parsed : HttpUrl} {s : HttpRun} (admitted : call.Admitted parsed)
    (reach : Reach call.turn (fun _ turn => turn.Plain) (call.begin parsed) s) :
    (∀ loop, s.loop = some loop → 0x0d ∉ loop.parsed.path) ∧ ∀ sent ∈ s.sent, 0x0d ∉ sent.req.url.path := by
  induction reach with
  | start =>
    refine ⟨fun loop is => ?_, nofun⟩
    cases is
    exact admitted.url.2.1.not_mem (by decide)
  | next _ plain moves ih =>
    obtain ⟨loop, at_, moves⟩ := Option.bind_eq_some_iff.mp moves
    obtain ⟨sent, prepares, rfl⟩ := Option.map_eq_some_iff.mp moves
    have path := ih.1 loop at_
    refine ⟨fun next follows => ?_, fun other isIn => ?_⟩
    · obtain ⟨⟨status, headers⟩, replies, moves⟩ := Option.bind_eq_some_iff.mp follows
      obtain ⟨⟨location, found, resolves⟩, -⟩ := redirect_spec moves
      obtain ⟨header, isIn, rfl⟩ := Option.map_eq_some_iff.mp found
      have value := plain status headers replies header (List.mem_of_find?_eq_some isIn)
      exact httpUrlResolveRedirect_path (by decide) value path resolves
    · rcases mem_append.mp isIn with earlier | last
      · exact ih.2 other earlier
      · rw [mem_singleton.mp last, (prepare_spec prepares).2.1]
        exact path

theorem headerOf_line {header : HttpHdr} (name : 0x3a ∉ header.name) :
    headerOf header.line = ⟨header.name, header.value.dropWhile (· = 0x20)⟩ := by
  have before : ∀ c ∈ header.name, decide (c ≠ 0x3a) = true := by
    intro c isIn
    exact decide_eq_true fun is => name (is ▸ isIn)
  have line : header.line = header.name ++ 0x3a :: 0x20 :: header.value := by
    rw [HttpHdr.line, append_assoc]
    rfl
  rw [headerOf, line, takeWhile_append_of_pos before, dropWhile_append_of_pos before]
  simp

theorem announcedLength_eq {headers : List HttpHdr} {n : Nat} (names : ∀ header ∈ headers, 0x3a ∉ header.name)
    (value : ∀ header ∈ headers, httpHeaderEq header.name (ascii "Content-Length") = true → header.value = printed n)
    (some_ : n ≠ 0 → ∃ header ∈ headers, httpHeaderEq header.name (ascii "Content-Length") = true) :
    announcedLength (headers.map HttpHdr.line) = n := by
  have read : (headers.map HttpHdr.line).map headerOf =
      headers.map fun header => ⟨header.name, header.value.dropWhile (· = 0x20)⟩ := by
    rw [map_map]
    exact map_congr_left fun header isIn => headerOf_line (names header isIn)
  rw [announcedLength, read, List.find?_map]
  have same : ((fun header => httpHeaderEq header.name (ascii "Content-Length")) ∘
      fun header : HttpHdr => (⟨header.name, header.value.dropWhile (· = 0x20)⟩ : HttpHdr)) =
      fun header => httpHeaderEq header.name (ascii "Content-Length") := rfl
  rw [same]
  cases found : headers.find? fun header => httpHeaderEq header.name (ascii "Content-Length") with
  | none =>
    have empty : n = 0 := by
      by_contra nonzero
      obtain ⟨header, isIn, named⟩ := some_ nonzero
      exact List.find?_eq_none.mp found header isIn named
    rw [empty]
    rfl
  | some header =>
    have named : httpHeaderEq header.name (ascii "Content-Length") = true := by simpa using List.find?_some found
    have digits := value header (List.mem_of_find?_eq_some found) named
    show decimal (header.value.dropWhile (· = 0x20)) = n
    have first : (printed n).dropWhile (· = 0x20) = printed n := by
      cases text : printed n with
      | nil => rfl
      | cons c rest =>
        have digit : isDigit c = true := printed_isDigit (n := n) (by rw [text]; exact mem_cons_self ..)
        refine dropWhile_cons_of_neg fun is => ?_
        rw [of_decide_eq_true is] at digit
        cases digit
    rw [digits, first, decimal_printed]

/-- The head of an issued request says how long its body is. -/
theorem HttpReq.Issued.reads (issued : req.Issued) :
    ∃ line lines, readHead [] (httpReqSerialize req) = some (line :: lines, req.sentBody) ∧
      line.takeWhile (· ≠ 0x20) = req.method ∧ announcedLength lines = req.body.length ∧
      (req.expectContinue = true → req.body ≠ []) := by
  obtain ⟨call, parsed, s, sent, admits, reach, isIn, rfl⟩ := issued
  have admitted := checked_spec admits
  have origin := (HttpRun.From.of_reach admitted (reach.mono fun _ _ _ => trivial)).sent sent isIn
  have path := (HttpRun.paths admitted reach).2 sent isIn
  refine ⟨_, _, (origin.lines path).readHead origin.small, ?_, ?_, origin.expects⟩
  · have blank : ∀ c ∈ sent.req.method, decide (c ≠ 0x20) = true := by
      intro c among
      have not := httpHeaderIsToken_not_mem origin.method (c := 0x20) (by decide)
      exact decide_eq_true fun is => not (is ▸ among)
    rw [requestLine, append_assoc, append_assoc, takeWhile_append_of_pos blank]
    simp [ascii]
  · refine announcedLength_eq origin.names origin.bodyLength fun nonzero => ?_
    have applies : HttpHdr.mk (ascii "Content-Length") (printed sent.req.body.length) ∈ sent.req.automatic := by
      have nonempty : sent.req.body ≠ [] := fun empty => nonzero (by rw [empty]; rfl)
      simp [automatic, nonempty]
    obtain ⟨header, among, named, -⟩ := present applies
    exact ⟨header, among, named⟩

/-- The connection has carried whole requests and the answers to them, and nothing else. -/
def HttpConn.InSync (parser : ResponseParser σ) (conn : HttpConn) : Prop :=
  ∃ methods, Requests methods conn.written ∧ parser.Answers methods conn.received

/-- A released connection stays in sync exactly if the body was sent and what was read is the answer to the method. -/
theorem HttpConn.InSync.iff_of_exchange {conn : HttpConn} (sync : conn.InSync parser) (issued : req.Issued)
    (exchanges : httpExchange parser req script = some outcome) (kept : outcome.released = true) :
    (HttpConn.mk (conn.written ++ outcome.written) (conn.received ++ outcome.received) true).InSync parser ↔
      httpEarly parser req script = false ∧ parser.Answer req.method outcome.received := by
  obtain ⟨methods, requests, answers⟩ := sync
  obtain ⟨line, lines, reads, method, length, nonempty⟩ := issued.reads
  obtain ⟨written, -⟩ := httpExchange_spec exchanges kept
  constructor
  · rintro ⟨all, wrote, read⟩
    obtain ⟨others, rfl, added⟩ := requests.cancel wrote
    have answered := answers.cancel read
    have head := readHead_append reads (if req.expectContinue && !httpEarly parser req script then req.body else [])
    rw [← written] at head
    generalize outcome.written = bytes at added head
    cases added with
    | nil => cases head
    | @cons _ body rest _ _ later otherReads otherLength after =>
      rw [head] at otherReads
      obtain ⟨⟨rfl, rfl⟩, same⟩ : (_ = _ ∧ _ = _) ∧ _ = _ := by simpa using otherReads
      cases early : httpEarly parser req script with
      | true =>
        -- The head announces a body that was not sent.
        have expects : req.expectContinue = true := (and_eq_true_iff.mp early).1
        rw [sentBody, expects, early] at same
        obtain ⟨rfl, -⟩ := append_eq_nil_iff.mp same.symm
        rw [length] at otherLength
        exact absurd (length_eq_zero_iff.mp otherLength.symm) (nonempty expects)
      | false =>
        have whole : req.body ++ [] = body ++ rest := by
          rw [← same, early, sentBody]
          cases req.expectContinue <;> simp
        obtain ⟨-, rfl⟩ := append_inj whole (by rw [otherLength, length])
        cases after with
        | cons impossible => cases impossible
        | nil =>
          rw [method] at answered
          generalize outcome.received = received at answered
          cases answered with
          | cons answer rest =>
            cases rest
            rw [append_nil]
            exact ⟨rfl, answer⟩
  · rintro ⟨onTime, answer⟩
    refine ⟨methods ++ [req.method], requests.append ?_, answers.append ?_⟩
    · have head := readHead_append reads (if req.expectContinue && !httpEarly parser req script then req.body else [])
      rw [← written, onTime] at head
      have body : req.sentBody ++ (if req.expectContinue && !false then req.body else []) = req.body ++ [] := by
        unfold sentBody
        cases req.expectContinue <;> simp
      rw [body] at head
      rw [← method]
      exact .cons head length.symm .nil
    · have one := ResponseParser.Answers.cons answer .nil
      rw [append_nil] at one
      exact one

/-- An exchange after which the connection may be kept: the final response does not overtake a deferred body, only a
real `HEAD` is taken for one, and no tunnel is opened. -/
def HttpOrderly (parser : ResponseParser σ) (req : HttpReq) (script : HttpScript) : Prop :=
  ∀ outcome, httpExchange parser req script = some outcome → outcome.released = true →
    httpEarly parser req script = false ∧
    (httpHeaderEq req.method (ascii "HEAD") = true → req.method = ascii "HEAD") ∧
    (req.method = ascii "CONNECT" → ∀ last, outcome.response = some last → parser.status last / 100 ≠ 2)

theorem HttpOrderly.answer
    (orderly : HttpOrderly parser req script) (exchanges : httpExchange parser req script = some outcome)
    (kept : outcome.released = true) : parser.Answer req.method outcome.received := by
  obtain ⟨-, sameHead, noTunnel⟩ := orderly outcome exchanges kept
  obtain ⟨-, last, response, responds⟩ := httpExchange_spec exchanges kept
  have head : httpHeaderEq req.method (ascii "HEAD") = decide (req.method = ascii "HEAD") := by
    cases named : httpHeaderEq req.method (ascii "HEAD") with
    | true => rw [decide_eq_true (sameHead named)]
    | false =>
      refine (decide_eq_false fun is => ?_).symm
      rw [is] at named
      exact absurd named (by decide)
  rw [head] at responds
  exact ⟨last, responds, fun tunnel => noTunnel tunnel.1 last response tunnel.2⟩

/-- Along every run of orderly exchanges a connection that can serve a request is in sync; and a connection in sync that
is released after an exchange stays so only if the body was sent and what was read answers the method. -/
theorem http_pooled_in_sync {conn : HttpConn}
    (reach : Reach (HttpConn.step parser) (fun _ act => act.1.Issued ∧ HttpOrderly parser act.1 act.2)
      HttpConn.fresh conn) (usable : conn.usable = true) :
    conn.InSync parser ∧
    ∀ req script outcome, req.Issued → httpExchange parser req script = some outcome → outcome.released = true →
      ((HttpConn.mk (conn.written ++ outcome.written) (conn.received ++ outcome.received) true).InSync parser ↔
        httpEarly parser req script = false ∧ parser.Answer req.method outcome.received) := by
  have sync : conn.InSync parser := by
    induction reach with
    | start => exact ⟨[], .nil, .nil⟩
    | @next before after act _ allowed moves ih =>
      obtain ⟨issued, orderly⟩ := allowed
      obtain ⟨earlier, moves⟩ := Option.ite_none_right_eq_some.mp moves
      obtain ⟨outcome, exchanges, rfl⟩ := Option.map_eq_some_iff.mp moves
      have onTime := (orderly outcome exchanges usable).1
      have answer := orderly.answer exchanges usable
      have kept := ((ih earlier).iff_of_exchange issued exchanges usable).mpr ⟨onTime, answer⟩
      obtain ⟨methods, requests, answers⟩ := kept
      exact ⟨methods, requests, answers⟩
  exact ⟨sync, fun req script outcome issued exchanges kept => sync.iff_of_exchange issued exchanges kept⟩

/-- A parser for responses without a body: the head, up to its empty line. -/
def bareParser : ResponseParser (List UInt8) where
  start _ := []
  feed state c :=
    let bytes := state ++ [c]
    if (ascii "\r\n\r\n").isSuffixOf bytes then .done bytes else .more bytes
  finish _ := none
  status state := decimal ((state.drop 9).take 3)
  headerSeen state := 0x0a ∈ state
  keepAlive _ := true
  finish_closes _ _ impossible := nomatch impossible

theorem HttpCall.first_issued {sent : HttpSent} (first : call.first = some sent) : sent.req.Issued := by
  obtain ⟨parsed, admits, prepares⟩ := Option.bind_eq_some_iff.mp first
  refine ⟨call, parsed, ⟨none, [sent]⟩, sent, admits, ?_, mem_singleton_self sent, rfl⟩
  have moves : call.turn (call.begin parsed) ⟨fun _ => none, none⟩ = some ⟨none, [sent]⟩ := by
    rw [turn, begin, Option.bind_some, prepares]
    rfl
  exact .next .start (fun _ _ replies => by cases replies) moves

/-- A request with a body that waits for the go-ahead. -/
def expectingPost : HttpCall :=
  { method := ascii "POST", url := ascii "http://a/", body := ascii "x", contentType := none, headers := []
    options := some
      { maxRedirects := 0, proxy := none, tls := none, expectContinue := true, allowHttpsDowngrade := false } }

/-- The server asks for the body and answers once it has it. -/
def continuing : HttpScript :=
  { sends := true, sendsBody := true, overdue := false, late := false, keyed := true
    reads := [.data (ascii "HTTP/1.1 100 Continue\r\n\r\n"), .data (ascii "HTTP/1.1 204 No Content\r\n\r\n")] }

def overtaking : HttpScript := { continuing with reads := [.data (ascii "HTTP/1.1 204 No Content\r\n\r\n")] }

/-- The body is sent once the server has said so. -/
theorem http_pooled_in_sync_continue : ∃ sent conn, expectingPost.first = some sent ∧
      HttpConn.fresh.step bareParser (sent.req, continuing) = some conn ∧
      conn.usable = true ∧ conn.InSync bareParser := by
  have run : expectingPost.first.any (fun sent => sent.req.method = ascii "POST" ∧
      httpEarly bareParser sent.req continuing = false ∧
      (HttpConn.fresh.step bareParser (sent.req, continuing)).any (·.usable)) = true := by decide +kernel
  obtain ⟨sent, first, rest⟩ := (Option.any_eq_true ..).mp run
  obtain ⟨method, onTime, rest⟩ := of_decide_eq_true rest
  obtain ⟨conn, moves, usable⟩ := (Option.any_eq_true ..).mp rest
  refine ⟨sent, conn, first, moves, usable, ?_⟩
  refine (http_pooled_in_sync (.next .start ⟨first_issued first, fun _ _ _ => ⟨onTime, ?_, ?_⟩⟩ moves) usable).1
  · rw [method]
    exact fun named => absurd named (by decide)
  · rw [method]
    exact fun named => absurd named (by decide)

/-- A final response in the place of the go-ahead: the connection is released without the body that its request
announces. -/
theorem http_pooled_in_sync_early : ∃ sent conn, expectingPost.first = some sent ∧ sent.req.Issued ∧
      HttpConn.fresh.step bareParser (sent.req, overtaking) = some conn ∧
      conn.usable = true ∧ ¬conn.InSync bareParser := by
  have run : expectingPost.first.any (fun sent => httpEarly bareParser sent.req overtaking = true ∧
      (httpExchange bareParser sent.req overtaking).any (·.released)) = true := by decide +kernel
  obtain ⟨sent, first, rest⟩ := (Option.any_eq_true ..).mp run
  obtain ⟨early, rest⟩ := of_decide_eq_true rest
  obtain ⟨outcome, exchanges, kept⟩ := (Option.any_eq_true ..).mp rest
  have issued := first_issued first
  have fresh : HttpConn.fresh.InSync bareParser := ⟨[], .nil, .nil⟩
  refine ⟨sent, ⟨outcome.written, outcome.received, true⟩, first, issued, ?_, rfl, fun sync => ?_⟩
  · rw [HttpConn.step, if_pos (show HttpConn.fresh.usable = true from rfl), exchanges, Option.map_some, kept]
    rfl
  · have onTime := ((fresh.iff_of_exchange issued exchanges kept).mp sync).1
    rw [early] at onTime
    cases onTime

end Xylem.Http
