import Xylem.Http.Request
import Xylem.Http.UrlVisible

namespace Xylem.Http

open Lib Xylem.Encoding List Option

theorem httpHeaderIsToken_not_mem {text : List UInt8} (token : httpHeaderIsToken text = true) {c : UInt8}
    (other : httpTokenChar c = false) : c ∉ text := by
  intro isIn
  have all := all_eq_true.mp (Bool.and_eq_true_iff.mp token).2 c isIn
  rw [other] at all
  cases all

variable {headers : List HttpHdr} {call : HttpCall} {count bodyLen : Nat}

theorem httpHeadersAdmitted_spec {headerSize : Nat} (fits : headerSize ≤ 65536)
    (admitted : httpHeadersAdmitted bodyLen headerSize headers = true) :
    (∀ header ∈ headers, httpHeaderIsToken header.name = true ∧ 0x0d ∉ header.value ∧ 0x0a ∉ header.value ∧
      httpHeaderEq header.name (ascii "Transfer-Encoding") = false ∧
      (httpHeaderEq header.name (ascii "Content-Length") = true → header.value = printed bodyLen)) ∧
    headerSize + (headers.map fun header => header.line.length + 2).sum ≤ 65536 := by
  induction headers generalizing headerSize with
  | nil => exact ⟨nofun, by simpa using fits⟩
  | cons header rest ih =>
    rw [httpHeadersAdmitted] at admitted
    split at admitted
    · cases admitted
    rename_i clean
    split at admitted
    · cases admitted
    rename_i room
    split at admitted
    · cases admitted
    rename_i coding
    split at admitted
    · cases admitted
    rename_i length
    obtain ⟨each, sum⟩ := ih (by omega) admitted
    have line : header.line.length + 2 = header.name.length + header.value.length + 4 := HttpHdr.line_length ..
    refine ⟨fun other isIn => ?_, ?_⟩
    · rcases mem_cons.mp isIn with rfl | later
      · have parts : httpHeaderIsToken other.name = true ∧ 0x0d ∉ other.value ∧ 0x0a ∉ other.value := by
          simpa [and_assoc] using clean
        refine ⟨parts.1, parts.2.1, parts.2.2, by simpa using coding, fun is => ?_⟩
        simpa [is] using length
      · exact each other later
    · rw [map_cons, sum_cons]
      omega

/-- What `http_do_request` knows once it has checked its arguments. -/
structure HttpCall.Admitted (call : HttpCall) (parsed : HttpUrl) : Prop where
  method : httpHeaderIsToken call.method = true ∧ call.method.length ≤ 64
  body : call.body.length ≤ 2 ^ 64 - 1 - 131072
  contentType : ∀ type, call.contentType = some type → 0x0d ∉ type
  headers : ∀ header ∈ call.headers, httpHeaderIsToken header.name = true ∧ 0x0d ∉ header.value ∧
    0x0a ∉ header.value ∧ httpHeaderEq header.name (ascii "Transfer-Encoding") = false ∧
    (httpHeaderEq header.name (ascii "Content-Length") = true → header.value = printed call.body.length)
  headerSize : (call.headers.map fun header => header.line.length + 2).sum ≤ 65536
  url : Visible parsed.host ∧ Visible parsed.path ∧ parsed.path.head? = some 0x2f

theorem HttpCall.checked_spec {parsed : HttpUrl} (admits : call.checked = some parsed) : call.Admitted parsed := by
  unfold HttpCall.checked at admits
  split at admits
  · cases admits
  rename_i sizes
  split at admits
  · cases admits
  rename_i type
  split at admits
  · cases admits
  rename_i headers
  obtain ⟨url, parses, is⟩ := bind_eq_some_iff.mp admits
  split at is
  · cases is
  cases is
  obtain ⟨each, sum⟩ := httpHeadersAdmitted_spec (Nat.zero_le _) (by simpa using headers)
  have checks : ((httpHeaderIsToken call.method = true ∧ call.method.length ≤ 64) ∧ call.headers.length ≤ 256) ∧
      call.body.length ≤ 2 ^ 64 - 1 - 131072 := by simpa using sizes
  refine ⟨checks.1.1, checks.2, fun value is => ?_, each, by simpa using sum, httpUrlParse_visible parses⟩
  have plain : 0x0d ∉ value ∧ 0x0a ∉ value := by simpa [is] using type
  exact plain.1

theorem HttpCall.prepare_spec {loop : HttpLoop} {env : List UInt8 → Option HttpProxy} {sent : HttpSent}
    (prepares : call.prepare loop env = some sent) :
    sent.req.method = loop.method ∧ sent.req.url = loop.parsed ∧ sent.req.body = loop.body ∧
    sent.req.contentType = loop.contentType ∧
    sent.req.absoluteForm = (usesProxy sent.proxy && loop.parsed.scheme != .https) ∧
    ∃ filtered, filtered = call.headers.filter (loop.keeps (usesProxy sent.proxy) (loop.parsed.scheme == .https)) ∧
      (if sent.req.absoluteForm then httpAuthenticate sent.proxy filtered else some filtered) = some sent.req.headers ∧
      sent.req.expectContinue =
        httpExpect loop.body.length (call.opts.expectContinue && decide (0 < loop.body.length)) filtered := by
  obtain ⟨target, -, prepares⟩ := bind_eq_some_iff.mp prepares
  obtain ⟨headers, authenticated, rfl⟩ := map_eq_some_iff.mp prepares
  exact ⟨rfl, rfl, rfl, rfl, rfl, _, rfl, authenticated, rfl⟩

theorem httpDropSwap_perm (all : headers.length ≤ count) :
    (httpDropSwap count headers).Perm (headers.filter fun header => !isProxyAuth header.name) := by
  induction count generalizing headers with
  | zero =>
    rw [length_eq_zero_iff.mp (Nat.le_zero.mp all)]
    exact List.Perm.refl _
  | succ count ih =>
    cases headers with
    | nil => exact List.Perm.refl _
    | cons header rest =>
      rw [length_cons] at all
      rw [httpDropSwap, filter_cons]
      split
      · rename_i goes
        have moved : (rest.getLast?.toList ++ rest.dropLast).Perm rest := by
          refine perm_append_comm.trans ?_
          rcases eq_nil_or_concat rest with rfl | ⟨front, last, rfl⟩
          · exact List.Perm.refl _
          · simp
        rw [if_neg (by simp [goes])]
        exact (ih (by rw [moved.length_eq]; omega)).trans (moved.filter _)
      · rename_i stays
        rw [if_pos (by simpa using stays)]
        exact (ih (by omega)).cons header

theorem httpDropSwap_of_none (none : ∀ header ∈ headers, isProxyAuth header.name = false) :
    httpDropSwap count headers = headers := by
  induction count generalizing headers with
  | zero => cases headers <;> rfl
  | succ count ih =>
    cases headers with
    | nil => rfl
    | cons header rest =>
      rw [httpDropSwap, if_neg (by simp [none header (mem_cons_self ..)]),
        ih fun other isIn => none other (mem_cons_of_mem _ isIn)]

/-- What `Proxy-Authorization` says for the proxy. -/
def HttpProxy.basic (proxy : HttpProxy) : Option (List UInt8) :=
  proxy.username.map fun username =>
    ascii "Basic " ++ Base64.encode (username ++ ascii ":" ++ proxy.password.getD [])

theorem httpAuthenticate_spec {proxy : Option HttpProxy} {filtered headers : List HttpHdr}
    (authenticated : httpAuthenticate proxy filtered = some headers) :
    match proxy.bind HttpProxy.basic with
    | none => headers = filtered
    | some own => own.length ≤ 21854 ∧ (∀ c ∈ own, c ∈ Base64.alphabet ++ ascii "= ") ∧
      headers = httpDropSwap filtered.length filtered ++ [⟨ascii "Proxy-Authorization", own⟩] := by
  unfold httpAuthenticate at authenticated
  cases proxy with
  | none =>
    cases authenticated
    rfl
  | some proxy =>
    rw [bind_some, bind_some] at *
    unfold HttpProxy.basic
    cases user : proxy.username with
    | none =>
      rw [user] at authenticated
      cases authenticated
      rfl
    | some username =>
      rw [user] at authenticated
      dsimp only at authenticated ⊢
      split at authenticated
      · cases authenticated
      rename_i short
      have length : (username ++ ascii ":" ++ proxy.password.getD []).length =
          username.length + (proxy.password.getD []).length + 1 := by
        rw [length_append, length_append, show (ascii ":").length = 1 from rfl]
        omega
      rw [base64EncodeStd_eq (by rw [length]; exact Nat.le_refl _)] at authenticated
      cases authenticated
      refine ⟨?_, ?_, rfl⟩
      · rw [length_append, Base64.encode_length, length, show (ascii "Basic ").length = 6 from rfl]
        omega
      · intro c isIn
        rcases mem_append.mp isIn with front | encoded
        · have all : ∀ c ∈ ascii "Basic ", c ∈ Base64.alphabet ++ ascii "= " := by decide +kernel
          exact all c front
        · have known := Base64.encode_mem encoded
          rw [mem_append] at known ⊢
          refine known.imp_right fun pad => ?_
          rw [show ascii "= " = ascii "=" ++ ascii " " by decide]
          exact mem_append_left _ pad

theorem httpExpect_spec {expect : Bool} (some_ : expect = true → 0 < bodyLen)
    (expects : httpExpect bodyLen expect headers = true) :
    0 < bodyLen ∧ ((expect = true ∧ ∀ header ∈ headers, httpHeaderEq header.name (ascii "Expect") = false) ∨
      ∃ header ∈ headers, httpHeaderEq header.name (ascii "Expect") = true ∧
        httpHeaderEq header.value (ascii "100-continue") = true) := by
  induction headers generalizing expect with
  | nil => exact ⟨some_ expects, .inl ⟨expects, nofun⟩⟩
  | cons header rest ih =>
    rw [httpExpect, foldl_cons] at expects
    cases named : httpHeaderEq header.name (ascii "Expect") with
    | false =>
      rw [named, if_neg Bool.false_ne_true] at expects
      obtain ⟨some_, before | ⟨other, isIn, is⟩⟩ := ih some_ expects
      · refine ⟨some_, .inl ⟨before.1, fun other isIn => ?_⟩⟩
        rcases mem_cons.mp isIn with rfl | later
        · exact named
        · exact before.2 other later
      · exact ⟨some_, .inr ⟨other, mem_cons_of_mem _ isIn, is⟩⟩
    | true =>
      rw [named, if_pos rfl] at expects
      have body : (decide (0 < bodyLen) && httpHeaderEq header.value (ascii "100-continue")) = true → 0 < bodyLen :=
        fun both => of_decide_eq_true (Bool.and_eq_true_iff.mp both).1
      obtain ⟨some_, before | ⟨other, isIn, is⟩⟩ := ih body expects
      · exact ⟨some_, .inr ⟨header, mem_cons_self .., named, (Bool.and_eq_true_iff.mp before.1).2⟩⟩
      · exact ⟨some_, .inr ⟨other, mem_cons_of_mem _ isIn, is⟩⟩

end Xylem.Http
