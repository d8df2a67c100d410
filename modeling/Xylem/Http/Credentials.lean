import Xylem.Http.Redirect

namespace Xylem.Http

open Lib Xylem.Encoding List HttpReq HttpLoop HttpCall

variable {call : HttpCall} {parsed : HttpUrl} {env : List UInt8 → Option HttpProxy} {loop next : HttpLoop}
  {sent : HttpSent} {status : Nat} {headers : List HttpHdr} {s : HttpRun}

/-- Where the loop is, seen from the request that began it: at its origin unless credentials are stripped. -/
structure HttpLoop.From (loop : HttpLoop) (call : HttpCall) (parsed : HttpUrl) : Prop where
  origin : loop.stripAuth = false → loop.parsed.scheme = parsed.scheme ∧ loop.parsed.host = parsed.host ∧
    loop.parsed.port = parsed.port
  host : Visible loop.parsed.host
  asked : (loop.dropEntity = true ∧ loop.method = ascii "GET" ∧ loop.body = [] ∧ loop.contentType = none) ∨
    (loop.method = call.method ∧ loop.body = call.body ∧ loop.contentType = call.contentType)

theorem HttpLoop.From.redirect (fromStart : loop.From call parsed)
    (moves : call.redirect loop status headers = some next) : next.From call parsed := by
  obtain ⟨⟨location, -, resolves⟩, same, -, asked⟩ := redirect_spec moves
  refine ⟨fun kept => ?_, ?_, ?_⟩
  · obtain ⟨before, scheme, host, port⟩ := same kept
    obtain ⟨oldScheme, oldHost, oldPort⟩ := fromStart.origin before
    exact ⟨scheme.trans oldScheme, host.trans oldHost, port.trans oldPort⟩
  · rcases httpUrlResolveRedirect_cases resolves with ⟨-, _, is⟩ | ⟨-, is⟩ | ⟨-, _, _, relative⟩
    · exact (httpUrlParse_visible is).1
    · exact is ▸ fromStart.host
    · exact relative.host ▸ fromStart.host
  · rcases asked with get | ⟨drop, method, body, type⟩
    · exact .inl get
    · rw [drop, method, body, type]
      exact fromStart.asked

theorem usesProxy_dial {proxy : Option HttpProxy} (uses : usesProxy proxy = true) (url : HttpUrl) :
    ∃ p host, proxy = some p ∧ p.host = some host ∧ host ≠ [] ∧ httpDial url proxy = (host, p.port) := by
  obtain ⟨p, rfl, some_⟩ := (Option.any_eq_true ..).mp uses
  obtain ⟨host, is, nonempty⟩ := (Option.any_eq_true ..).mp some_
  refine ⟨p, host, rfl, is, by simpa using nonempty, ?_⟩
  rw [httpDial, Option.bind_some, is]
  rfl

section

variable (admitted : call.Admitted parsed)
include admitted

theorem HttpCall.Admitted.start : (call.start parsed).From call parsed :=
  ⟨fun _ => ⟨rfl, rfl, rfl⟩, admitted.url.1, .inr ⟨rfl, rfl, rfl⟩⟩

/-- A request that follows from the call, and the loop that sent it. -/
structure HttpSent.From (sent : HttpSent) (call : HttpCall) (parsed : HttpUrl) : Prop where
  credentials : ∀ header ∈ sent.req.headers ++ sent.req.added, isCredential header.name = true →
    sent.req.url.scheme = parsed.scheme ∧ sent.req.url.host = parsed.host ∧ sent.req.url.port = parsed.port
  proxyAuth : ∀ header ∈ sent.req.headers ++ sent.req.added, isProxyAuth header.name = true →
    sent.req.url.scheme = .http ∧ usesProxy sent.proxy = true
  lines : 0x0d ∉ sent.req.url.path → sent.req.OneLine
  method : httpHeaderIsToken sent.req.method = true
  names : ∀ header ∈ sent.req.headers ++ sent.req.added, 0x3a ∉ header.name
  bodyLength : ∀ header ∈ sent.req.headers ++ sent.req.added, httpHeaderEq header.name (ascii "Content-Length") = true →
    header.value = printed sent.req.body.length
  expects : sent.req.expectContinue = true → sent.req.body ≠ []
  small : sent.req.body.length < 10 ^ 20

theorem HttpLoop.From.prepare (fromStart : loop.From call parsed)
    (prepares : call.prepare loop env = some sent) : sent.From call parsed := by
  obtain ⟨method, url, body, type, absolute, filtered, -, -, expect⟩ := prepare_spec prepares
  have token : httpHeaderIsToken sent.req.method = true := by
    rw [method]
    rcases fromStart.asked with ⟨-, get, -⟩ | ⟨same, -⟩
    · rw [get]
      decide
    · rw [same]
      exact admitted.method.1
  refine ⟨fun header isIn named => ?_, fun header isIn named => ?_, fun path => ⟨?_, ?_, path, ?_, ?_⟩, ?_, ?_, ?_, ?_, ?_⟩
  · rcases mem_append.mp isIn with among | added
    · rcases prepare_header prepares among with ⟨-, kept⟩ | ⟨-, own, rfl, -⟩
      · have unstripped : loop.stripAuth = false := by
          cases strip : loop.stripAuth with
          | false => rfl
          | true => simp [keeps, strip, named] at kept
        rw [url]
        exact fromStart.origin unstripped
      · exact absurd (show isCredential (ascii "Proxy-Authorization") = true from named) (by decide)
    · have names : ∀ name ∈ httpCheckNames, isCredential name ≠ true := by decide
      exact absurd named (names _ (automatic_name (mem_of_mem_filter added)))
  · have plain : sent.req.absoluteForm = true → sent.req.url.scheme = .http ∧ usesProxy sent.proxy = true := by
      intro form
      obtain ⟨uses, notSecure⟩ := Bool.and_eq_true_iff.mp (absolute.symm.trans form)
      rw [url]
      refine ⟨?_, uses⟩
      cases scheme : loop.parsed.scheme with
      | http => rfl
      | https => simp [scheme] at notSecure
    rcases mem_append.mp isIn with among | added
    · refine plain ?_
      rcases prepare_header prepares among with ⟨-, kept⟩ | ⟨form, -⟩
      · rw [absolute]
        simp [keeps, named] at kept
        simp [kept, bne]
      · exact form
    · have names : ∀ name ∈ httpCheckNames, isProxyAuth name ≠ true := by decide
      exact absurd named (names _ (automatic_name (mem_of_mem_filter added)))
  · exact httpHeaderIsToken_not_mem token (by decide)
  · rw [url]
    exact fromStart.host.not_mem (by decide)
  · intro header isIn
    rcases prepare_header prepares isIn with ⟨given, -⟩ | ⟨-, own, rfl, letters⟩
    · obtain ⟨token, value, -⟩ := admitted.headers header given
      exact ⟨httpHeaderIsToken_not_mem token (by decide), value⟩
    · refine ⟨show 0x0d ∉ ascii "Proxy-Authorization" by decide, fun isIn => ?_⟩
      exact absurd (letters _ isIn) (by decide +kernel)
  · rw [type]
    rcases fromStart.asked with ⟨-, -, -, none⟩ | ⟨-, -, same⟩
    · rw [none]
      nofun
    · rw [same]
      exact admitted.contentType
  · exact token
  · intro header isIn
    rcases mem_append.mp isIn with among | added
    · rcases prepare_header prepares among with ⟨given, -⟩ | ⟨-, own, rfl, -⟩
      · exact httpHeaderIsToken_not_mem (admitted.headers header given).1 (by decide)
      · show 0x3a ∉ ascii "Proxy-Authorization"
        decide
    · have names : ∀ name ∈ httpCheckNames, 0x3a ∉ name := by decide
      exact names _ (automatic_name (mem_of_mem_filter added))
  · intro header isIn named
    rcases mem_append.mp isIn with among | added
    · rcases prepare_header prepares among with ⟨given, kept⟩ | ⟨-, own, rfl, -⟩
      · rw [body]
        rcases fromStart.asked with ⟨drops, -⟩ | ⟨-, same, -⟩
        · simp [keeps, drops, isEntity, named] at kept
        · rw [same]
          exact (admitted.headers header given).2.2.2.2 named
      · exact absurd (show httpHeaderEq (ascii "Proxy-Authorization") (ascii "Content-Length") = true from named)
          (by decide)
    · exact automatic_bodyLength (mem_of_mem_filter added) named
  · intro expects
    have init : (call.opts.expectContinue && decide (0 < loop.body.length)) = true → 0 < loop.body.length :=
      fun both => of_decide_eq_true (Bool.and_eq_true_iff.mp both).2
    rw [body]
    exact length_pos_iff.mp (httpExpect_spec init (expect.symm.trans expects)).1
  · have most := admitted.body
    rw [body]
    rcases fromStart.asked with ⟨-, -, empty, -⟩ | ⟨-, same, -⟩
    · rw [empty]
      decide
    · rw [same]
      omega

/-- What holds along the requests of a call. -/
structure HttpRun.From (s : HttpRun) (call : HttpCall) (parsed : HttpUrl) : Prop where
  loop : ∀ loop, s.loop = some loop → loop.From call parsed
  sent : ∀ sent ∈ s.sent, sent.From call parsed
  secure : call.opts.allowHttpsDowngrade = false →
    (s.sent.Pairwise fun earlier later => earlier.req.url.scheme = .https → later.req.url.scheme = .https) ∧
    ∀ sent ∈ s.sent, sent.req.url.scheme = .https → ∀ loop, s.loop = some loop → loop.parsed.scheme = .https

theorem HttpRun.From.turn {t : HttpRun} {turn : HttpTurn} (run : s.From call parsed)
    (moves : call.turn s turn = some t) : t.From call parsed := by
  obtain ⟨loop, at_, moves⟩ := Option.bind_eq_some_iff.mp moves
  obtain ⟨sent, prepares, rfl⟩ := Option.map_eq_some_iff.mp moves
  have fromStart := run.loop loop at_
  obtain ⟨-, url, -⟩ := prepare_spec prepares
  refine ⟨fun next follows => ?_, fun other isIn => ?_, fun strict => ⟨?_, ?_⟩⟩
  · obtain ⟨⟨status, headers⟩, -, moves⟩ := Option.bind_eq_some_iff.mp follows
    exact fromStart.redirect moves
  · rcases mem_append.mp isIn with earlier | last
    · exact run.sent other earlier
    · rw [mem_singleton.mp last]
      exact fromStart.prepare admitted prepares
  · refine pairwise_append.mpr ⟨(run.secure strict).1, pairwise_singleton .., fun earlier isIn later is => ?_⟩
    rw [mem_singleton.mp is, url]
    exact fun secure => (run.secure strict).2 earlier isIn secure loop at_
  · intro other isIn secure next follows
    obtain ⟨⟨status, headers⟩, -, moves⟩ := Option.bind_eq_some_iff.mp follows
    have stays := (redirect_spec moves).2.2.1 strict
    rcases mem_append.mp isIn with earlier | last
    · exact stays ((run.secure strict).2 other earlier secure loop at_)
    · rw [mem_singleton.mp last, url] at secure
      exact stays secure

def HttpCall.begin (call : HttpCall) (parsed : HttpUrl) : HttpRun := ⟨some (call.start parsed), []⟩

theorem HttpRun.From.of_reach
    (reach : Reach call.turn (fun _ _ => True) (call.begin parsed) s) : s.From call parsed := by
  induction reach with
  | start =>
    refine ⟨fun loop is => ?_, nofun, fun _ => ⟨List.Pairwise.nil, nofun⟩⟩
    cases is
    exact admitted.start
  | next _ _ moves ih => exact ih.turn admitted moves

end

/-- Along every chain of redirects the credentials of the caller go to the origin of the first request only,
`Proxy-Authorization` goes to a proxy in plain requests only, and nothing is sent in the clear after a request over
TLS unless that is allowed. -/
theorem http_redirect_credentials (admits : call.checked = some parsed)
    (reach : Reach call.turn (fun _ _ => True) (call.begin parsed) s) : (∀ sent ∈ s.sent,
      (∀ header ∈ sent.req.headers ++ sent.req.added, isCredential header.name = true →
        sent.req.url.scheme = parsed.scheme ∧ sent.req.url.host = parsed.host ∧ sent.req.url.port = parsed.port) ∧
      (∀ header ∈ sent.req.headers ++ sent.req.added, isProxyAuth header.name = true →
        sent.req.url.scheme = .http ∧ ∃ proxy host, sent.proxy = some proxy ∧ proxy.host = some host ∧ host ≠ [] ∧
          ∀ url other tls, httpPoolMakeKey url other tls = httpPoolMakeKey sent.req.url sent.proxy call.opts.tls →
            httpDial url other = (host, proxy.port)) ∧
      (0x0d ∉ sent.req.url.path → readHead [] (httpReqSerialize sent.req) =
        some (sent.req.requestLine :: (sent.req.headers ++ sent.req.added).map HttpHdr.line, sent.req.sentBody))) ∧
    (call.opts.allowHttpsDowngrade = false →
      s.sent.Pairwise fun earlier later => earlier.req.url.scheme = .https → later.req.url.scheme = .https) := by
  have run := HttpRun.From.of_reach (checked_spec admits) reach
  refine ⟨fun sent isIn => ⟨(run.sent sent isIn).credentials, fun header among named => ?_, fun path => ?_⟩,
    fun strict => (run.secure strict).1⟩
  · obtain ⟨scheme, uses⟩ := (run.sent sent isIn).proxyAuth header among named
    obtain ⟨proxy, host, is, named, nonempty, dial⟩ := usesProxy_dial uses sent.req.url
    exact ⟨scheme, proxy, host, is, named, nonempty, fun url other tls same => (httpPoolMakeKey_dial same).trans dial⟩
  · exact ((run.sent sent isIn).lines path).readHead (run.sent sent isIn).small

/-- A redirect to another host, which gets no credentials. -/
theorem http_redirect_credentials_moved :
    ∃ (call : HttpCall) (parsed : HttpUrl) (s : HttpRun), call.checked = some parsed ∧
      (s.sent.map fun sent => (sent.req.url.host, sent.req.has (ascii "Authorization"))) =
        [(ascii "a", true), (ascii "b", false)] ∧
      ∀ sent ∈ s.sent, ∀ header ∈ sent.req.headers ++ sent.req.added, isCredential header.name = true →
        sent.req.url.host = parsed.host := by
  let call : HttpCall :=
    { method := ascii "GET", url := ascii "http://a/", body := [], contentType := none
      headers := [⟨ascii "Authorization", ascii "x"⟩], options := none }
  obtain ⟨parsed, admits⟩ := Option.isSome_iff_exists.mp (show call.checked.isSome = true by decide +kernel)
  have begins : call.checked.any (fun parsed => (runAll (guarded call.turn fun _ _ => True) (call.begin parsed)
      [⟨fun _ => none, some (302, [⟨ascii "Location", ascii "http://b/"⟩])⟩, ⟨fun _ => none, none⟩]).any fun s =>
        decide ((s.sent.map fun sent => (sent.req.url.host, sent.req.has (ascii "Authorization"))) =
          [(ascii "a", true), (ascii "b", false)])) = true := by decide +kernel
  rw [admits, Option.any_some] at begins
  obtain ⟨s, reach, is⟩ := exists_reach _ begins
  refine ⟨call, parsed, s, admits, is, fun sent isIn header among named => ?_⟩
  exact (((http_redirect_credentials admits reach).1 sent isIn).1 header among named).2.1

end Xylem.Http
