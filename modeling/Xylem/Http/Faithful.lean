import Xylem.Http.Admitted

namespace Xylem.Http

open Lib Xylem.Encoding List HttpCall
open HttpReq

variable {call : HttpCall} {parsed : HttpUrl} {env : List UInt8 → Option HttpProxy} {sent : HttpSent}

/-- The credentials that the request carries for its proxy. -/
def HttpSent.credentials (sent : HttpSent) : Option (List UInt8) :=
  if sent.req.absoluteForm then sent.proxy.bind HttpProxy.basic else none

section

variable (prepares : call.prepare (call.start parsed) env = some sent) {header : HttpHdr}
include prepares

theorem HttpCall.prepare_first : match sent.credentials with
    | none => sent.req.headers = call.headers.filter fun header => !isProxyAuth header.name || sent.req.absoluteForm
    | some own => own.length ≤ 21854 ∧ (∀ c ∈ own, c ∈ Base64.alphabet ++ ascii "= ") ∧ sent.req.headers =
        httpDropSwap call.headers.length call.headers ++ [⟨ascii "Proxy-Authorization", own⟩] := by
  obtain ⟨-, -, -, -, absolute, filtered, is, headers, -⟩ := prepare_spec prepares
  have kept : filtered = call.headers.filter fun header => !isProxyAuth header.name || sent.req.absoluteForm := by
    rw [is, absolute]
    refine filter_congr fun header _ => ?_
    simp [HttpLoop.keeps, HttpCall.start, bne]
  unfold HttpSent.credentials
  cases form : sent.req.absoluteForm with
  | false =>
    rw [form, if_neg Bool.false_ne_true] at headers
    rw [if_neg Bool.false_ne_true, ← form, ← kept]
    exact (Option.some.inj headers).symm
  | true =>
    rw [form, if_pos rfl] at headers
    rw [form, filter_eq_self.mpr fun _ _ => Bool.or_true _] at kept
    rw [if_pos rfl, filter_eq_self.mpr fun _ _ => Bool.or_true _, ← kept]
    exact httpAuthenticate_spec headers

theorem HttpCall.first_header (isIn : header ∈ sent.req.headers) :
    header ∈ call.headers ∨ ∃ own, sent.credentials = some own ∧ header = ⟨ascii "Proxy-Authorization", own⟩ := by
  have headers := prepare_first prepares
  cases credentials : sent.credentials with
  | none =>
    rw [credentials] at headers
    rw [headers] at isIn
    exact .inl (mem_of_mem_filter isIn)
  | some own =>
    rw [credentials] at headers
    rw [headers.2.2] at isIn
    rcases mem_append.mp isIn with given | last
    · exact .inl (mem_of_mem_filter ((httpDropSwap_perm (Nat.le_refl _)).mem_iff.mp given))
    · exact .inr ⟨own, rfl, mem_singleton.mp last⟩

theorem HttpCall.first_mem
    (given : header ∈ call.headers) (other : isProxyAuth header.name = false) : header ∈ sent.req.headers := by
  have headers := prepare_first prepares
  cases credentials : sent.credentials with
  | none =>
    rw [credentials] at headers
    rw [headers]
    exact mem_filter.mpr ⟨given, by simp [other]⟩
  | some own =>
    rw [credentials] at headers
    rw [headers.2.2]
    refine mem_append_left _ ((httpDropSwap_perm (Nat.le_refl _)).mem_iff.mpr ?_)
    exact mem_filter.mpr ⟨given, by simp [other]⟩

end

theorem isProxyAuth_of_eq {a b : List UInt8} (same : httpHeaderEq a b = true) (proxy : isProxyAuth a = true) :
    isProxyAuth b = true :=
  httpHeaderEq_iff.mpr ((httpHeaderEq_iff.mp same).symm.trans (httpHeaderEq_iff.mp proxy))

theorem HttpCall.first_has (prepares : call.prepare (call.start parsed) env = some sent) {name : List UInt8}
    (other : isProxyAuth name = false) :
    sent.req.has name = call.headers.any fun header => httpHeaderEq header.name name := by
  have filtered : ∀ form : Bool, (call.headers.filter fun header => !isProxyAuth header.name || form).any
      (fun header => httpHeaderEq header.name name) = call.headers.any fun header => httpHeaderEq header.name name := by
    intro form
    rw [any_filter]
    congr 1
    funext header
    cases same : httpHeaderEq header.name name with
    | false => exact Bool.and_false _
    | true =>
      cases proxy : isProxyAuth header.name with
      | false => rfl
      | true =>
        rw [isProxyAuth_of_eq same proxy] at other
        cases other
  have headers := prepare_first prepares
  unfold has
  cases credentials : sent.credentials with
  | none =>
    rw [credentials] at headers
    rw [headers]
    exact filtered _
  | some own =>
    rw [credentials] at headers
    have not : httpHeaderEq (ascii "Proxy-Authorization") name = false := by
      cases same : httpHeaderEq (ascii "Proxy-Authorization") name with
      | false => rfl
      | true =>
        rw [isProxyAuth_of_eq same (by decide)] at other
        cases other
    have swapped := filtered false
    simp only [Bool.or_false] at swapped
    rw [headers.2.2, any_append, any_cons, any_nil, not, Bool.or_false, Bool.or_false,
      (httpDropSwap_perm (Nat.le_refl _)).any_eq, swapped]

section

variable (admitted : call.Admitted parsed) (prepares : call.prepare (call.start parsed) env = some sent)
include admitted prepares

theorem HttpCall.first_oneLine : sent.req.OneLine := by
  obtain ⟨method, url, -, type, -, -⟩ := prepare_spec prepares
  obtain ⟨host, path, -⟩ := admitted.url
  refine ⟨?_, ?_, ?_, fun header isIn => ?_, ?_⟩
  · rw [method]
    exact httpHeaderIsToken_not_mem admitted.method.1 (by decide)
  · rw [url]
    exact host.not_mem (by decide)
  · rw [url]
    exact path.not_mem (by decide)
  · rcases first_header prepares isIn with given | ⟨own, credentials, rfl⟩
    · obtain ⟨token, value, -⟩ := admitted.headers header given
      exact ⟨httpHeaderIsToken_not_mem token (by decide), value⟩
    · have headers := prepare_first prepares
      rw [credentials] at headers
      refine ⟨show 0x0d ∉ ascii "Proxy-Authorization" by decide, fun isIn => ?_⟩
      exact absurd (headers.2.1 _ isIn) (by decide +kernel)
  · rw [type]
    exact admitted.contentType

theorem HttpCall.first_size : sent.req.size ≤ call.body.length + (call.contentType.getD []).length + 131072 := by
  obtain ⟨method, url, body, type, -, -⟩ := prepare_spec prepares
  have headers : (sent.req.headers.map fun header => header.line.length + 2).sum ≤ 65536 + 21877 := by
    have most := admitted.headerSize
    have filtered : ∀ p : HttpHdr → Bool, ((call.headers.filter p).map fun header => header.line.length + 2).sum ≤
        (call.headers.map fun header => header.line.length + 2).sum :=
      fun p => (filter_sublist.map _).sum_le_sum fun _ _ => Nat.zero_le _
    have headers := prepare_first prepares
    cases credentials : sent.credentials with
    | none =>
      rw [credentials] at headers
      have part := filtered fun header => !isProxyAuth header.name || sent.req.absoluteForm
      rw [headers]
      omega
    | some own =>
      rw [credentials] at headers
      have part := filtered fun header => !isProxyAuth header.name
      have swapped := ((httpDropSwap_perm (Nat.le_refl call.headers.length)).map
        fun header => header.line.length + 2).sum_eq
      have length := headers.1
      rw [headers.2.2, map_append, sum_append, swapped, map_singleton, sum_singleton,
        HttpHdr.line_length, show (ascii "Proxy-Authorization").length = 19 from rfl]
      omega
  have authority := sent.req.url.authority_length
  have host := sent.req.url.hostFits
  have path := sent.req.url.pathFits
  have short := admitted.method.2
  have name : sent.req.method = call.method := method
  have typed : (sent.req.contentType.elim 0 fun type => 14 + type.length + 2) ≤
      (call.contentType.getD []).length + 16 := by
    rw [type]
    show (call.contentType.elim 0 fun type => 14 + type.length + 2) ≤ _
    cases call.contentType with
    | none => exact Nat.zero_le _
    | some type =>
      rw [Option.elim_some, Option.getD_some]
      omega
  have scheme : sent.req.url.scheme.text.length ≤ 5 := by cases sent.req.url.scheme <;> decide
  have whole : sent.req.body = call.body := body
  unfold size
  rw [httpHeaderScan_spec, name, whole]
  dsimp only
  split <;> split <;> omega

end

theorem HttpReq.requestLine_blanks {req : HttpReq} (method : 0x20 ∉ req.method) (host : 0x20 ∉ req.url.host)
    (path : 0x20 ∉ req.url.path) : req.requestLine.count 0x20 = 2 := by
  have authority : 0x20 ∉ req.url.authority := HttpUrl.not_mem_authority host (by decide) (by decide)
  have scheme : 0x20 ∉ req.url.scheme.text := by cases req.url.scheme <;> decide
  have target : 0x20 ∉ req.target := by
    have between : (0x20 : UInt8) ∉ ascii "://" := by decide
    unfold HttpReq.target
    split <;> simp only [mem_append, not_mem_nil, false_or] <;> tauto
  have blank : (ascii " ").count 0x20 = 1 ∧ (ascii " HTTP/1.1").count 0x20 = 1 := by decide
  rw [requestLine, count_append, count_append, count_append,
    count_eq_zero_of_not_mem method, count_eq_zero_of_not_mem target, blank.1, blank.2]

/-- The bytes of a first request are the request line, the headers of the caller in their order, the automatic ones
that these do not replace, and the body, all within the buffer. Of the headers only `Proxy-Authorization` is withheld,
or replaced by the credentials of the proxy. -/
theorem http_request_faithful (admits : call.checked = some parsed)
    (prepares : call.prepare (call.start parsed) env = some sent) : (httpReqSerialize sent.req).length ≤ sent.req.size ∧
    sent.req.size ≤ call.body.length + (call.contentType.getD []).length + 131072 ∧
    readHead [] (httpReqSerialize sent.req) =
      some (sent.req.requestLine :: (sent.req.headers ++ sent.req.added).map HttpHdr.line,
        if sent.req.expectContinue then [] else call.body) ∧
    (sent.req.method = call.method ∧ sent.req.url = parsed ∧ sent.req.body = call.body ∧
      sent.req.contentType = call.contentType) ∧
    (∃ target, sent.req.requestLine = call.method ++ ascii " " ++ target ++ ascii " HTTP/1.1" ∧
      sent.req.requestLine.count 0x20 = 2 ∧ parsed.path.head? = some 0x2f ∧
      target = if usesProxy sent.proxy ∧ parsed.scheme = .http then
        ascii "http" ++ ascii "://" ++ parsed.authority ++ parsed.path else parsed.path) ∧
    (match sent.credentials with
      | none => sent.req.headers = call.headers.filter fun header =>
          !isProxyAuth header.name || (usesProxy sent.proxy && parsed.scheme == .http)
      | some own => ∃ kept, sent.req.headers = kept ++ [⟨ascii "Proxy-Authorization", own⟩] ∧
          kept.Perm (call.headers.filter fun header => !isProxyAuth header.name) ∧
          ((∀ header ∈ call.headers, isProxyAuth header.name = false) → kept = call.headers)) ∧
    sent.req.added = (sent.req.automatic.filter fun header =>
      !call.headers.any fun given => httpHeaderEq given.name header.name) ∧
    (∀ header ∈ sent.req.headers ++ sent.req.added, httpHeaderEq header.name (ascii "Content-Length") = true →
      header.value = printed call.body.length) ∧
    (call.body ≠ [] → ∃ header ∈ sent.req.headers ++ sent.req.added,
      httpHeaderEq header.name (ascii "Content-Length") = true) ∧
    (sent.req.expectContinue = true → call.body ≠ [] ∧ ∃ header ∈ sent.req.headers ++ sent.req.added,
      httpHeaderEq header.name (ascii "Expect") = true ∧ httpHeaderEq header.value (ascii "100-continue") = true) := by
  have admitted := checked_spec admits
  obtain ⟨method, url, body, type, absolute, filtered, is, -, expect⟩ := prepare_spec prepares
  have one := first_oneLine admitted prepares
  have small : sent.req.body.length < 10 ^ 20 := by
    have most := admitted.body
    rw [body]
    show call.body.length < 10 ^ 20
    omega
  obtain ⟨host, path, slash⟩ := admitted.url
  have form : sent.req.absoluteForm = (usesProxy sent.proxy && parsed.scheme == .http) := by
    rw [absolute]
    show (usesProxy sent.proxy && parsed.scheme != .https) = _
    cases parsed.scheme <;> rfl
  have otherName : ∀ {a : List UInt8}, httpHeaderEq a (ascii "Content-Length") = true ∨
      httpHeaderEq a (ascii "Expect") = true → isProxyAuth a = false := by
    intro a is
    cases proxy : isProxyAuth a with
    | false => rfl
    | true =>
      rcases is with is | is
      · exact absurd (isProxyAuth_of_eq is proxy) (by decide)
      · exact absurd (isProxyAuth_of_eq is proxy) (by decide)
  have fromCaller : ∀ header ∈ sent.req.headers, isProxyAuth header.name = false → header ∈ call.headers := by
    intro header isIn other
    rcases first_header prepares isIn with given | ⟨own, -, rfl⟩
    · exact given
    · exact absurd other (show isProxyAuth (ascii "Proxy-Authorization") ≠ false by decide)
  refine ⟨httpReqSerialize_length small, first_size admitted prepares, ?_, ⟨method, url, body, type⟩,
    ⟨sent.req.target, ?_, ?_, slash, ?_⟩, ?_, ?_, ?_, ?_, ?_⟩
  · have reads := one.readHead small
    rw [sentBody, body] at reads
    exact reads
  · rw [requestLine, method]
    rfl
  · refine requestLine_blanks ?_ (url ▸ host.not_mem (by decide)) (url ▸ path.not_mem (by decide))
    rw [method]
    exact httpHeaderIsToken_not_mem admitted.method.1 (by decide)
  · rw [HttpReq.target, form, url]
    show (if usesProxy sent.proxy && parsed.scheme == .http then
      parsed.scheme.text ++ ascii "://" ++ parsed.authority else []) ++ parsed.path = _
    by_cases plain : usesProxy sent.proxy = true ∧ parsed.scheme = .http
    · rw [if_pos plain, plain.1, plain.2]
      rfl
    · rw [if_neg plain, if_neg (by simpa using plain)]
      rfl
  · have headers := prepare_first prepares
    cases credentials : sent.credentials with
    | none =>
      rw [credentials] at headers
      rw [← form]
      exact headers
    | some own =>
      rw [credentials] at headers
      exact ⟨_, headers.2.2, httpDropSwap_perm (Nat.le_refl _), httpDropSwap_of_none⟩
  · have names : ∀ name ∈ httpCheckNames, isProxyAuth name = false := by decide
    refine List.filter_congr fun header isIn => ?_
    rw [first_has prepares (names _ (automatic_name isIn))]
  · intro header isIn named
    rcases List.mem_append.mp isIn with given | added
    · have caller := fromCaller header given (otherName (.inl named))
      exact (admitted.headers header caller).2.2.2.2 named
    · have value := automatic_bodyLength (List.mem_of_mem_filter added) named
      rw [value, body]
      rfl
  · intro some_
    have applies : HttpHdr.mk (ascii "Content-Length") (printed sent.req.body.length) ∈ sent.req.automatic := by
      have nonempty : sent.req.body ≠ [] := by
        rw [body]
        exact some_
      simp [HttpReq.automatic, nonempty]
    obtain ⟨header, isIn, named, -⟩ := present applies
    exact ⟨header, isIn, named⟩
  · intro expects
    have init : (call.opts.expectContinue && decide (0 < call.body.length)) = true → 0 < call.body.length :=
      fun both => of_decide_eq_true (Bool.and_eq_true_iff.mp both).2
    obtain ⟨some_, told⟩ := httpExpect_spec init (expect.symm.trans expects)
    refine ⟨List.length_pos_iff.mp some_, ?_⟩
    rcases told with ⟨-, none⟩ | ⟨header, isIn, named, value⟩
    · -- No header of the caller says it, so that the automatic one does.
      have applies : HttpHdr.mk (ascii "Expect") (ascii "100-continue") ∈ sent.req.automatic := by
        simp [HttpReq.automatic, expects]
      obtain ⟨header, isIn, named, given | rfl⟩ := present applies
      · have caller := fromCaller header given (otherName (.inr named))
        have kept : header ∈ filtered := by
          rw [is]
          refine List.mem_filter.mpr ⟨caller, ?_⟩
          simp [HttpLoop.keeps, HttpCall.start, otherName (.inr named)]
        rw [none header kept] at named
        cases named
      · exact ⟨_, isIn, named, by decide⟩
    · rw [is] at isIn
      have mem := first_mem prepares (List.mem_of_mem_filter isIn) (otherName (.inr named))
      exact ⟨header, List.mem_append_left _ mem, named, value⟩

def plainGet (headers : List HttpHdr) : HttpCall :=
  { method := ascii "GET", url := ascii "http://a/", body := [], contentType := none, headers, options := none }

def plainPost : HttpCall :=
  { plainGet [⟨ascii "X", ascii "1"⟩] with method := ascii "POST", body := ascii "hi", contentType := some (ascii "a/b") }

theorem http_request_faithful_post : ∃ sent lines, plainPost.first = some sent ∧
    readHead [] (httpReqSerialize sent.req) = some (lines, ascii "hi") ∧
    ∃ header ∈ sent.req.headers ++ sent.req.added, httpHeaderEq header.name (ascii "Content-Length") = true := by
  have run : plainPost.first.any (fun sent => !sent.req.expectContinue) = true := by decide +kernel
  obtain ⟨sent, first, plain⟩ := (Option.any_eq_true ..).mp run
  obtain ⟨parsed, admits, prepares⟩ := Option.bind_eq_some_iff.mp first
  obtain ⟨-, -, reads, -, -, -, -, -, length, -⟩ := http_request_faithful admits prepares
  rw [if_neg (by simpa using plain)] at reads
  exact ⟨sent, _, first, reads, length (by decide)⟩

/-- Without a proxy the caller's `Proxy-Authorization` is not sent. -/
theorem http_request_faithful_withheld :
    ∃ sent lines, (plainGet [⟨ascii "Proxy-Authorization", ascii "x"⟩]).first = some sent ∧
      readHead [] (httpReqSerialize sent.req) = some (lines, []) ∧ ascii "Proxy-Authorization: x" ∉ lines := by
  have run : (plainGet [⟨ascii "Proxy-Authorization", ascii "x"⟩]).first.any (fun sent =>
      (readHead [] (httpReqSerialize sent.req)).any fun head =>
        head.2 = [] ∧ ascii "Proxy-Authorization: x" ∉ head.1) = true := by decide +kernel
  obtain ⟨sent, first, rest⟩ := (Option.any_eq_true ..).mp run
  obtain ⟨⟨lines, body⟩, reads, is⟩ := (Option.any_eq_true ..).mp rest
  obtain ⟨rfl, not⟩ := of_decide_eq_true is
  exact ⟨sent, lines, first, reads, not⟩

end Xylem.Http
