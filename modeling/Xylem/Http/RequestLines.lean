import Mathlib.Algebra.Order.BigOperators.Group.List
import Mathlib.Algebra.Order.Group.Nat
import Xylem.Http.Serialize

namespace Xylem.Http

open Lib List HttpUrl HttpReq

namespace HttpReq

variable (req : HttpReq)

/-- The request target: in absolute form for a proxy, in origin form otherwise. -/
def target : List UInt8 :=
  (if req.absoluteForm then req.url.scheme.text ++ ascii "://" ++ req.url.authority else []) ++ req.url.path

def requestLine : List UInt8 := req.method ++ ascii " " ++ req.target ++ ascii " HTTP/1.1"

/-- The automatic headers that apply to the request, in their order. -/
def automatic : List HttpHdr :=
  [⟨ascii "Host", req.url.authority⟩]
    ++ (if req.body ≠ [] ∨ req.method ∈ [ascii "POST", ascii "PUT", ascii "PATCH"] then
      [⟨ascii "Content-Length", printed req.body.length⟩] else [])
    ++ req.contentType.toList.map (HttpHdr.mk (ascii "Content-Type"))
    ++ [⟨ascii "Connection", ascii "keep-alive"⟩]
    ++ [⟨ascii "User-Agent", ascii "xylem/1.0"⟩]
    ++ [⟨ascii "Accept-Encoding", ascii "gzip"⟩]
    ++ (if req.expectContinue then [⟨ascii "Expect", ascii "100-continue"⟩] else [])

/-- Whether one of the headers that the request comes with has the name. -/
def has (name : List UInt8) : Bool := req.headers.any fun header => httpHeaderEq header.name name

def added : List HttpHdr := req.automatic.filter fun header => !req.has header.name

/-- What the head of the request says, line by line. -/
def lines : List (List UInt8) := req.requestLine :: (req.headers ++ req.added).map HttpHdr.line

/-- The body that goes with the head; it is deferred if the server is asked first. -/
def sentBody : List UInt8 := if req.expectContinue then [] else req.body

end HttpReq

variable {req : HttpReq}

theorem HttpReq.written_one (header : HttpHdr) (applies : Prop) [Decidable applies] :
    ((if applies then [header] else []).filter fun header => !req.has header.name).flatMap (fun header =>
        header.name ++ ascii ": " ++ header.value ++ crlf) =
      if (!req.has header.name) ∧ applies then header.name ++ ascii ": " ++ header.value ++ crlf else [] := by
  by_cases holds : applies
  · rw [if_pos holds, filter_cons, filter_nil]
    cases req.has header.name with
    | true => rfl
    | false => simp [holds]
  · rw [if_neg holds, if_neg fun both => holds both.2]
    rfl

theorem HttpUrl.authority_length (url : HttpUrl) : url.authority.length ≤ url.host.length + 8 := by
  have digits : (printed url.port.toNat).length ≤ 5 := by
    refine printed_length_le (by decide) ?_
    have := url.port.toNat_lt
    omega
  unfold authority
  simp only [length_append]
  split <;> split <;> simp [ascii] <;> omega

theorem HttpHdr.line_length (name value : List UInt8) :
    (HttpHdr.mk name value).line.length + 2 = name.length + value.length + 4 := by
  show (name ++ ascii ": " ++ value).length + 2 = _
  rw [length_append, length_append, show (ascii ": ").length = 2 from rfl]
  omega

theorem HttpReq.requestLine_length : req.requestLine.length = req.method.length + 1 +
    (if req.absoluteForm then req.url.scheme.text.length + 3 + req.url.authority.length else 0) +
      req.url.path.length + 9 := by
  simp only [HttpReq.requestLine, HttpReq.target, length_append, show (ascii " ").length = 1 from rfl,
    show (ascii " HTTP/1.1").length = 9 from rfl]
  split
  · rw [length_append, length_append, show (ascii "://").length = 3 from rfl]
    omega
  · rw [length_nil]
    omega

section

variable (small : req.body.length < 10 ^ 20)
include small

theorem httpReqSerialize_eq : httpReqSerialize req = req.lines.flatMap (· ++ crlf) ++ (crlf ++ req.sentBody) := by
  have written : ∀ headers : List HttpHdr, (headers.map HttpHdr.line).flatMap (· ++ crlf) =
      headers.flatMap fun header => header.name ++ ascii ": " ++ header.value ++ crlf := by
    intro headers
    rw [flatMap_map]
    rfl
  have always : ∀ header : HttpHdr, [header] = if True then [header] else [] := fun header => (if_pos trivial).symm
  have typed : req.contentType.toList.map (HttpHdr.mk (ascii "Content-Type")) =
      if req.contentType ≠ none then [⟨ascii "Content-Type", req.contentType.getD []⟩] else [] := by
    cases req.contentType <;> rfl
  have length : (req.body ≠ [] ∨ req.method ∈ [ascii "POST", ascii "PUT", ascii "PATCH"]) =
      (0 < req.body.length ∨ req.method = ascii "POST" ∨ req.method = ascii "PUT" ∨ req.method = ascii "PATCH") := by
    rw [length_pos_iff]
    simp only [mem_cons, not_mem_nil, or_false]
  rw [HttpReq.lines, flatMap_cons, map_append, flatMap_append, written, written, HttpReq.added,
    HttpReq.automatic, always ⟨ascii "Host", _⟩, always ⟨ascii "Connection", _⟩, always ⟨ascii "User-Agent", _⟩,
    always ⟨ascii "Accept-Encoding", _⟩, typed]
  simp only [filter_append, flatMap_append, written_one, length]
  unfold httpReqSerialize HttpReq.requestLine HttpReq.target HttpReq.sentBody
  rw [httpHeaderScan_spec, httpWriteUint_eq small]
  have typedLine : (if !req.has (ascii "Content-Type") then
        req.contentType.elim [] fun type => ascii "Content-Type" ++ (ascii ": " ++ (type ++ crlf)) else []) =
      if (!req.has (ascii "Content-Type")) ∧ req.contentType ≠ none then
        ascii "Content-Type" ++ (ascii ": " ++ (req.contentType.getD [] ++ crlf)) else [] := by
    cases req.contentType with
    | none => rw [Option.elim_none, ite_self, if_neg fun both => both.2 rfl]
    | some type => cases req.has (ascii "Content-Type") <;> rfl
  have texts : ascii "Host: " = ascii "Host" ++ ascii ": " ∧
      ascii "Content-Length: " = ascii "Content-Length" ++ ascii ": " ∧
      ascii "Content-Type: " = ascii "Content-Type" ++ ascii ": " ∧
      ascii "Connection: keep-alive" = ascii "Connection" ++ (ascii ": " ++ ascii "keep-alive") ∧
      ascii "User-Agent: xylem/1.0" = ascii "User-Agent" ++ (ascii ": " ++ ascii "xylem/1.0") ∧
      ascii "Accept-Encoding: gzip" = ascii "Accept-Encoding" ++ (ascii ": " ++ ascii "gzip") ∧
      ascii "Expect: 100-continue" = ascii "Expect" ++ (ascii ": " ++ ascii "100-continue") := by decide
  obtain ⟨host, bodyLength, bodyType, connection, agent, encoding, expect⟩ := texts
  rw [host, bodyLength, bodyType, connection, agent, encoding, expect]
  simp only [and_true, append_assoc]
  rw [← typedLine]
  rfl

theorem HttpReq.automatic_length : (req.automatic.map fun header => header.line.length + 2).sum ≤
      6 + req.url.authority.length + 2 + 38 + (req.contentType.elim 0 fun type => 14 + type.length + 2) + 24 + 23 + 23 +
        if req.expectContinue then 24 + 2 else 0 := by
  have typed : ((req.contentType.toList.map (HttpHdr.mk (ascii "Content-Type"))).map fun header =>
      header.line.length + 2).sum = req.contentType.elim 0 fun type => 14 + type.length + 2 := by
    cases req.contentType with
    | none => rfl
    | some type =>
      rw [Option.toList_some, map_singleton, map_singleton, sum_singleton, HttpHdr.line_length,
        Option.elim_some, show (ascii "Content-Type").length = 12 from rfl]
      omega
  have host : (HttpHdr.mk (ascii "Host") req.url.authority).line.length + 2 = 6 + req.url.authority.length + 2 := by
    rw [HttpHdr.line_length, show (ascii "Host").length = 4 from rfl]
    omega
  have bodyLength : ((if req.body ≠ [] ∨ req.method ∈ [ascii "POST", ascii "PUT", ascii "PATCH"] then
      [HttpHdr.mk (ascii "Content-Length") (printed req.body.length)] else []).map fun header =>
        header.line.length + 2).sum ≤ 38 := by
    have digits := printed_length_le (by decide) small
    split
    · rw [map_singleton, sum_singleton, HttpHdr.line_length, show (ascii "Content-Length").length = 14 from rfl]
      omega
    · exact Nat.zero_le _
  have expect : ((if req.expectContinue then [HttpHdr.mk (ascii "Expect") (ascii "100-continue")] else []).map
      fun header => header.line.length + 2).sum ≤ if req.expectContinue then 24 + 2 else 0 := by
    split
    · decide
    · exact Nat.zero_le _
  have connection : (HttpHdr.mk (ascii "Connection") (ascii "keep-alive")).line.length + 2 = 24 := rfl
  have agent : (HttpHdr.mk (ascii "User-Agent") (ascii "xylem/1.0")).line.length + 2 = 23 := rfl
  have encoding : (HttpHdr.mk (ascii "Accept-Encoding") (ascii "gzip")).line.length + 2 = 23 := rfl
  simp only [HttpReq.automatic, map_append, sum_append, typed, map_singleton, sum_singleton, host,
    connection, agent, encoding]
  omega

theorem httpReqSerialize_length : (httpReqSerialize req).length ≤ req.size := by
  have added : (req.added.map fun header => header.line.length + 2).sum ≤
      (req.automatic.map fun header => header.line.length + 2).sum :=
    (filter_sublist.map _).sum_le_sum fun _ _ => Nat.zero_le _
  have automatic := automatic_length small
  have lines : ∀ texts : List (List UInt8), (texts.flatMap (· ++ crlf)).length = (texts.map (·.length + 2)).sum := by
    intro texts
    rw [length_flatMap]
    refine congrArg List.sum (map_congr_left fun text _ => ?_)
    rw [length_append]
    rfl
  have body : req.sentBody.length = if req.expectContinue then 0 else req.body.length := by
    unfold HttpReq.sentBody
    split <;> rfl
  rw [httpReqSerialize_eq small, length_append, length_append, lines, HttpReq.lines, map_cons,
    sum_cons, map_map, map_append, sum_append, requestLine_length, body, HttpReq.size,
    httpHeaderScan_spec, show crlf.length = 2 from rfl]
  simp only [Function.comp_def]
  omega

end

/-- Nothing that goes into the head of the request has a carriage return. -/
structure HttpReq.OneLine (req : HttpReq) : Prop where
  method : 0x0d ∉ req.method
  host : 0x0d ∉ req.url.host
  path : 0x0d ∉ req.url.path
  headers : ∀ header ∈ req.headers, 0x0d ∉ header.name ∧ 0x0d ∉ header.value
  contentType : ∀ type, req.contentType = some type → 0x0d ∉ type

theorem HttpUrl.not_mem_authority {url : HttpUrl} {c : UInt8} (host : c ∉ url.host) (digit : isDigit c = false)
    (other : c ∉ ascii "[]:") : c ∉ url.authority := by
  have not : c ∉ printed url.port.toNat := fun isIn => by simp [printed_isDigit isIn] at digit
  have brackets : c ≠ 0x5b ∧ c ≠ 0x5d ∧ c ≠ 0x3a := by simpa [ascii] using other
  unfold authority
  simp only [mem_append, not_or]
  refine ⟨⟨⟨?_, host⟩, ?_⟩, ?_⟩
  · split <;> simp [ascii, brackets]
  · split <;> simp [ascii, brackets]
  · split <;> simp [not, brackets]

variable {header : HttpHdr}

theorem HttpHdr.line_oneLine (name : 0x0d ∉ header.name) (value : 0x0d ∉ header.value) :
    header.line ≠ [] ∧ 0x0d ∉ header.line := by
  have colon : (0x0d : UInt8) ∉ ascii ": " := by decide
  refine ⟨append_ne_nil_of_left_ne_nil (append_ne_nil_of_right_ne_nil _ (by decide)) _, ?_⟩
  rw [HttpHdr.line, mem_append, mem_append]
  tauto

/-- The automatic headers whose text does not depend on the request. -/
def httpFixedHeaders : List HttpHdr :=
  [⟨ascii "Connection", ascii "keep-alive"⟩, ⟨ascii "User-Agent", ascii "xylem/1.0"⟩,
    ⟨ascii "Accept-Encoding", ascii "gzip"⟩, ⟨ascii "Expect", ascii "100-continue"⟩]

theorem HttpReq.present (applies : header ∈ req.automatic) :
    ∃ other ∈ req.headers ++ req.added, httpHeaderEq other.name header.name = true ∧
      (other ∈ req.headers ∨ other = header) := by
  cases given : req.has header.name with
  | true =>
    obtain ⟨other, isIn, same⟩ := any_eq_true.mp given
    exact ⟨other, mem_append_left _ isIn, same, .inl isIn⟩
  | false =>
    refine ⟨header, mem_append_right _ (mem_filter.mpr ⟨applies, by simp [given]⟩), ?_, .inr rfl⟩
    exact httpHeaderEq_iff.mpr rfl

section

variable (isIn : header ∈ req.automatic)
include isIn

theorem HttpReq.mem_automatic :
    header = ⟨ascii "Host", req.url.authority⟩ ∨ header = ⟨ascii "Content-Length", printed req.body.length⟩ ∨
      (∃ type, req.contentType = some type ∧ header = ⟨ascii "Content-Type", type⟩) ∨ header ∈ httpFixedHeaders := by
  simp only [HttpReq.automatic, mem_append, mem_singleton] at isIn
  rcases isIn with (((((host | length) | type) | connection) | agent) | encoding) | expect
  · exact .inl host
  · split at length
    · exact .inr (.inl (mem_singleton.mp length))
    · cases length
  · obtain ⟨value, is, rfl⟩ := mem_map.mp type
    exact .inr (.inr (.inl ⟨value, Option.mem_toList.mp is, rfl⟩))
  · exact .inr (.inr (.inr (by simp [httpFixedHeaders, connection])))
  · exact .inr (.inr (.inr (by simp [httpFixedHeaders, agent])))
  · exact .inr (.inr (.inr (by simp [httpFixedHeaders, encoding])))
  · split at expect
    · exact .inr (.inr (.inr (by simp [httpFixedHeaders, mem_singleton.mp expect])))
    · cases expect

theorem HttpReq.automatic_name : header.name ∈ httpCheckNames := by
  rcases mem_automatic isIn with rfl | rfl | ⟨type, -, rfl⟩ | fixed
  · exact mem_cons_self ..
  · exact mem_cons_of_mem _ (mem_cons_self ..)
  · exact mem_cons_of_mem _ (mem_cons_of_mem _ (mem_cons_self ..))
  · have all : ∀ header ∈ httpFixedHeaders, header.name ∈ httpCheckNames := by decide
    exact all header fixed

theorem HttpReq.automatic_bodyLength
    (named : httpHeaderEq header.name (ascii "Content-Length") = true) : header.value = printed req.body.length := by
  rcases mem_automatic isIn with rfl | rfl | ⟨type, -, rfl⟩ | fixed
  · exact absurd (show httpHeaderEq (ascii "Host") (ascii "Content-Length") = true from named) (by decide)
  · rfl
  · exact absurd (show httpHeaderEq (ascii "Content-Type") (ascii "Content-Length") = true from named) (by decide)
  · have other : ∀ header ∈ httpFixedHeaders, httpHeaderEq header.name (ascii "Content-Length") ≠ true := by decide
    exact absurd named (other header fixed)

theorem HttpReq.OneLine.automatic (one : req.OneLine) : 0x0d ∉ header.name ∧ 0x0d ∉ header.value := by
  have names : ∀ name ∈ httpCheckNames, 0x0d ∉ name := by decide
  refine ⟨names _ (automatic_name isIn), ?_⟩
  rcases mem_automatic isIn with rfl | rfl | ⟨type, is, rfl⟩ | fixed
  · exact not_mem_authority one.host (by decide) (by decide)
  · exact fun isIn => absurd (printed_isDigit isIn) (by decide)
  · exact one.contentType type is
  · have all : ∀ header ∈ httpFixedHeaders, 0x0d ∉ header.value := by decide
    exact all header fixed

end

theorem HttpReq.OneLine.lines (one : req.OneLine) : ∀ line ∈ req.lines, line ≠ [] ∧ 0x0d ∉ line := by
  intro line isIn
  rcases mem_cons.mp isIn with rfl | among
  · have authority : 0x0d ∉ req.url.authority := not_mem_authority one.host (by decide) (by decide)
    have scheme : 0x0d ∉ req.url.scheme.text := by cases req.url.scheme <;> decide
    have blank : (0x0d : UInt8) ∉ ascii " " ∧ (0x0d : UInt8) ∉ ascii "://" ∧ (0x0d : UInt8) ∉ ascii " HTTP/1.1" := by
      decide
    have method := one.method
    have path := one.path
    refine ⟨append_ne_nil_of_right_ne_nil _ (by decide), ?_⟩
    rw [HttpReq.requestLine, HttpReq.target]
    split <;> simp only [mem_append, not_mem_nil, false_or] <;> tauto
  · obtain ⟨header, isOne, rfl⟩ := mem_map.mp among
    rcases mem_append.mp isOne with given | added
    · obtain ⟨name, value⟩ := one.headers header given
      exact HttpHdr.line_oneLine name value
    · obtain ⟨name, value⟩ := one.automatic (mem_of_mem_filter added)
      exact HttpHdr.line_oneLine name value

theorem HttpReq.OneLine.readHead (one : req.OneLine) (small : req.body.length < 10 ^ 20) :
    Lib.readHead [] (httpReqSerialize req) = some (req.lines, req.sentBody) := by
  rw [httpReqSerialize_eq small]
  exact readHead_lines one.lines req.sentBody

end Xylem.Http
