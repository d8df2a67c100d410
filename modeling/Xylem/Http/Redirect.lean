import Xylem.Http.Admitted
import Xylem.Lib.Run

namespace Xylem.Http

open Lib Xylem.Encoding List

def httpHeaderFind (headers : List HttpHdr) (name : List UInt8) : Option (List UInt8) :=
  (headers.find? fun header => httpHeaderEq header.name name).map HttpHdr.value

/-- What the response makes of the loop: the request that follows, if one does. -/
def HttpCall.redirect (call : HttpCall) (loop : HttpLoop) (status : Nat) (headers : List HttpHdr) : Option HttpLoop :=
  match httpHeaderFind headers (ascii "Location") with
  | none => none
  | some location =>
    if (loop.redirects : Int) < call.opts.maxRedirects ∧ status ∈ [301, 302, 303, 307, 308] then
      (httpUrlResolveRedirect location loop.parsed).bind fun next =>
        if loop.parsed.scheme = .https ∧ next.scheme = .http ∧ !call.opts.allowHttpsDowngrade then none
        else
          let moved := !httpUrlSameOrigin loop.parsed next
          let rewrite := (status = 303 ∧ !httpHeaderEq loop.method (ascii "HEAD")) ∨
            ((status = 301 ∨ status = 302) ∧ httpHeaderEq loop.method (ascii "POST"))
          some
            { parsed := next
              stripAuth := loop.stripAuth || moved
              rebuildHost := loop.rebuildHost || moved
              dropEntity := loop.dropEntity || decide rewrite
              redirects := loop.redirects + 1
              method := if rewrite then ascii "GET" else loop.method
              body := if rewrite then [] else loop.body
              contentType := if rewrite then none else loop.contentType }
    else none

variable (url : HttpUrl) (proxy : Option HttpProxy)

/-- Where `http_tcp_dial` and `http_tls_dial` connect to. -/
def httpDial : List UInt8 × UInt16 :=
  match proxy.bind HttpProxy.host with
  | some host => (host, (proxy.map HttpProxy.port).getD 0)
  | none => (url.host, url.port)

/-- What `_http_pool_make_key` hashes. -/
structure HttpPoolKey where
  host : List UInt8
  scheme : HttpScheme
  proxyHost : Option (List UInt8)
  username : Option (List UInt8)
  password : Option (List UInt8)
  ca : Option (List UInt8)
  cert : Option (List UInt8)
  key : Option (List UInt8)
  port : UInt16
  proxyPort : UInt16
  skipVerify : Bool

/-- `_http_pool_make_key`, with the fields in the place of their hash. -/
def httpPoolMakeKey (tls : Option HttpTls) : HttpPoolKey :=
  let tls := if url.scheme = .https then tls else none
  { host := url.host, scheme := url.scheme, proxyHost := proxy.bind HttpProxy.host
    username := proxy.bind HttpProxy.username, password := proxy.bind HttpProxy.password
    ca := tls.bind HttpTls.ca, cert := tls.bind HttpTls.cert, key := tls.bind HttpTls.key
    port := url.port, proxyPort := (proxy.map HttpProxy.port).getD 0, skipVerify := tls.any HttpTls.skipVerify }

/-- A connection of the pool goes where the request would have dialled. -/
theorem httpPoolMakeKey_dial {a b : HttpUrl} {p q : Option HttpProxy} {t u : Option HttpTls}
    (same : httpPoolMakeKey a p t = httpPoolMakeKey b q u) : httpDial a p = httpDial b q := by
  have proxyHost : p.bind HttpProxy.host = q.bind HttpProxy.host := congrArg HttpPoolKey.proxyHost same
  have proxyPort : (p.map HttpProxy.port).getD 0 = (q.map HttpProxy.port).getD 0 := congrArg HttpPoolKey.proxyPort same
  have host : a.host = b.host := congrArg HttpPoolKey.host same
  have port : a.port = b.port := congrArg HttpPoolKey.port same
  rw [httpDial, httpDial, proxyHost, proxyPort, host, port]

/-- A call of `http_do_request`: the requests it has sent, and its loop until it returns. -/
structure HttpRun where
  loop : Option HttpLoop
  sent : List HttpSent

/-- One turn of the loop: the proxy that the environment names, and the response if there is one. -/
structure HttpTurn where
  env : List UInt8 → Option HttpProxy
  reply : Option (Nat × List HttpHdr)

def HttpCall.turn (call : HttpCall) (s : HttpRun) (turn : HttpTurn) : Option HttpRun :=
  s.loop.bind fun loop =>
    (call.prepare loop turn.env).map fun sent =>
      { sent := s.sent ++ [sent]
        loop := turn.reply.bind fun (status, headers) => call.redirect loop status headers }

variable {call : HttpCall} {parsed : HttpUrl} {env : List UInt8 → Option HttpProxy} {loop next : HttpLoop}
  {sent : HttpSent} {status : Nat} {headers : List HttpHdr}

theorem HttpCall.prepare_header (prepares : call.prepare loop env = some sent) {header : HttpHdr}
    (isIn : header ∈ sent.req.headers) :
    (header ∈ call.headers ∧ loop.keeps (usesProxy sent.proxy) (loop.parsed.scheme == .https) header = true) ∨
    (sent.req.absoluteForm = true ∧ ∃ own, header = ⟨ascii "Proxy-Authorization", own⟩ ∧
      ∀ c ∈ own, c ∈ Base64.alphabet ++ ascii "= ") := by
  obtain ⟨-, -, -, -, -, filtered, is, made, -⟩ := HttpCall.prepare_spec prepares
  have kept : ∀ header ∈ filtered, header ∈ call.headers ∧
      loop.keeps (usesProxy sent.proxy) (loop.parsed.scheme == .https) header = true := by
    intro header isIn
    rw [is] at isIn
    exact mem_filter.mp isIn
  split at made
  · rename_i absolute
    have spec := httpAuthenticate_spec made
    cases credentials : sent.proxy.bind HttpProxy.basic with
    | none =>
      rw [credentials] at spec
      rw [spec] at isIn
      exact .inl (kept header isIn)
    | some own =>
      rw [credentials] at spec
      rw [spec.2.2] at isIn
      rcases mem_append.mp isIn with swapped | last
      · exact .inl (kept header (mem_of_mem_filter ((httpDropSwap_perm (Nat.le_refl _)).mem_iff.mp swapped)))
      · exact .inr ⟨absolute, own, mem_singleton.mp last, spec.2.1⟩
  · rw [← Option.some.inj made] at isIn
    exact .inl (kept header isIn)

theorem HttpCall.redirect_spec (moves : call.redirect loop status headers = some next) :
    (∃ location, httpHeaderFind headers (ascii "Location") = some location ∧
      httpUrlResolveRedirect location loop.parsed = some next.parsed) ∧
    (next.stripAuth = false → loop.stripAuth = false ∧ next.parsed.scheme = loop.parsed.scheme ∧
      next.parsed.host = loop.parsed.host ∧ next.parsed.port = loop.parsed.port) ∧
    (call.opts.allowHttpsDowngrade = false → loop.parsed.scheme = .https → next.parsed.scheme = .https) ∧
    ((next.dropEntity = true ∧ next.method = ascii "GET" ∧ next.body = [] ∧ next.contentType = none) ∨
      (next.dropEntity = loop.dropEntity ∧ next.method = loop.method ∧ next.body = loop.body ∧
        next.contentType = loop.contentType)) := by
  unfold HttpCall.redirect at moves
  split at moves
  · cases moves
  rename_i location found
  split at moves
  · obtain ⟨url, resolves, moves⟩ := Option.bind_eq_some_iff.mp moves
    split at moves
    · cases moves
    rename_i allowed
    cases moves
    refine ⟨⟨location, found, resolves⟩, fun kept => ?_, fun strict secure => ?_, ?_⟩
    · obtain ⟨before, same⟩ := Bool.or_eq_false_iff.mp kept
      obtain ⟨scheme, host, port⟩ := httpUrlSameOrigin_iff.mp (by simpa using same)
      exact ⟨before, scheme.symm, host.symm, port.symm⟩
    · cases scheme : url.scheme with
      | https => rfl
      | http => exact absurd ⟨secure, scheme, by simp [strict]⟩ allowed
    · dsimp only
      split
      · rename_i rewrites
        exact .inl ⟨by rw [decide_eq_true rewrites, Bool.or_true], rfl, rfl, rfl⟩
      · rename_i stays
        exact .inr ⟨by rw [decide_eq_false stays, Bool.or_false], rfl, rfl, rfl⟩
  · cases moves

end Xylem.Http
