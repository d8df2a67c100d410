import Mathlib.Data.List.Basic
import Xylem.Http.Url
import Xylem.Lib.Crlf

namespace Xylem.Http

open Lib List Bool

/-- `xylem_http_hdr_t`. -/
structure HttpHdr where
  name : List UInt8
  value : List UInt8

def HttpHdr.line (header : HttpHdr) : List UInt8 := header.name ++ ascii ": " ++ header.value

def httpTokenChar (c : UInt8) : Bool :=
  (0x61 ≤ c && c ≤ 0x7a) || (0x41 ≤ c && c ≤ 0x5a) || (0x30 ≤ c && c ≤ 0x39) || c ∈ ascii "!#$%&'*+-.^_`|~"

def httpHeaderIsToken (s : List UInt8) : Bool := s ≠ [] && s.all httpTokenChar

/-- The inner loop of `http_header_scan`: the flags once a name has marked the first check that it equals, and how many
it marked. -/
def httpHeaderMark (name : List UInt8) : List (List UInt8) → List Bool → List Bool × Nat
  | _ :: checks, true :: flags =>
    let (flags, found) := httpHeaderMark name checks flags
    (true :: flags, found)
  | check :: checks, false :: flags =>
    if httpHeaderEq name check then (true :: flags, 1)
    else
      let (flags, found) := httpHeaderMark name checks flags
      (false :: flags, found)
  | _, flags => (flags, 0)

def httpHeaderScanLoop (checks : List (List UInt8)) : Nat → List Bool → Nat → List HttpHdr → Nat × List Bool
  | est, overridden, _, [] => (est, overridden)
  | est, overridden, found, header :: rest =>
    let est := est + (header.name.length + 2 + header.value.length + 2)
    if checks.length ≤ found then httpHeaderScanLoop checks est overridden found rest
    else
      let (overridden, more) := httpHeaderMark header.name checks overridden
      httpHeaderScanLoop checks est overridden (found + more) rest

variable (headers : List HttpHdr)

/-- `http_header_scan`: the bytes of the headers as lines, and which of the names are among them. -/
def httpHeaderScan (checks : List (List UInt8)) : Nat × List Bool :=
  httpHeaderScanLoop checks 0 (checks.map fun _ => false) 0 headers

/-- The loop of `http_write_uint`: the last digit first, in a buffer of `room` bytes. -/
def httpWriteDigits : (room val : Nat) → List UInt8
  | 0, _ => []
  | room + 1, val => if val = 0 then [] else UInt8.ofNat (0x30 + val % 10) :: httpWriteDigits room (val / 10)

def httpWriteUint (val : Nat) : List UInt8 := if val = 0 then ascii "0" else (httpWriteDigits 20 val).reverse

def httpCheckNames : List (List UInt8) :=
  [ascii "Host", ascii "Content-Length", ascii "Content-Type", ascii "Connection", ascii "Expect", ascii "User-Agent",
    ascii "Accept-Encoding"]

/-- What `http_req_serialize` is called with. -/
structure HttpReq where
  method : List UInt8
  url : HttpUrl
  body : List UInt8
  contentType : Option (List UInt8)
  expectContinue : Bool
  absoluteForm : Bool
  headers : List HttpHdr

/-- The size that `http_req_serialize` allocates. -/
def HttpReq.size (req : HttpReq) : Nat :=
  let hostLen := req.url.authority.length
  let proxyLen := if req.absoluteForm then req.url.scheme.text.length + 3 + hostLen else 0
  let est := req.method.length + 1 + proxyLen + req.url.path.length + 11
    + (httpHeaderScan req.headers httpCheckNames).1 + 6 + hostLen + 2 + 16 + 20 + 2 + 24 + 24 + 30 + 2
  let est := est + (req.contentType.elim 0 fun type => 14 + type.length + 2)
  let est := est + if req.expectContinue then 24 + 2 else 0
  est + if req.expectContinue then 0 else req.body.length

/-- `http_req_serialize`: the bytes that it writes, from the start of its buffer on. -/
def httpReqSerialize (req : HttpReq) : List UInt8 :=
  let hostVal := req.url.authority
  let overridden := (httpHeaderScan req.headers httpCheckNames).2
  let absent := fun i => !overridden.getD i false
  req.method ++ ascii " "
    ++ (if req.absoluteForm then req.url.scheme.text ++ ascii "://" ++ hostVal else [])
    ++ req.url.path ++ ascii " HTTP/1.1" ++ crlf
    ++ req.headers.flatMap (fun header => header.name ++ ascii ": " ++ header.value ++ crlf)
    ++ (if absent 0 then ascii "Host: " ++ hostVal ++ crlf else [])
    ++ (if absent 1 ∧ (0 < req.body.length ∨ req.method = ascii "POST" ∨ req.method = ascii "PUT" ∨
          req.method = ascii "PATCH") then ascii "Content-Length: " ++ httpWriteUint req.body.length ++ crlf else [])
    ++ (if absent 2 then req.contentType.elim [] fun type => ascii "Content-Type: " ++ type ++ crlf else [])
    ++ (if absent 3 then ascii "Connection: keep-alive" ++ crlf else [])
    ++ (if absent 5 then ascii "User-Agent: xylem/1.0" ++ crlf else [])
    ++ (if absent 6 then ascii "Accept-Encoding: gzip" ++ crlf else [])
    ++ (if absent 4 ∧ req.expectContinue then ascii "Expect: 100-continue" ++ crlf else [])
    ++ crlf
    ++ (if req.expectContinue then [] else req.body)

section Scan

variable {name : List UInt8} {checks : List (List UInt8)} {set : List UInt8 → Bool}

section

variable (distinct : checks.Pairwise fun a b => a.map httpLower ≠ b.map httpLower)
include distinct

theorem httpHeaderMark_spec :
    (httpHeaderMark name checks (checks.map set)).1 = checks.map (fun check => set check || httpHeaderEq name check) ∧
    checks.countP set + (httpHeaderMark name checks (checks.map set)).2 =
      checks.countP fun check => set check || httpHeaderEq name check := by
  induction checks with
  | nil => exact ⟨rfl, rfl⟩
  | cons check checks ih =>
    obtain ⟨others, distinct⟩ := pairwise_cons.mp distinct
    obtain ⟨flags, found⟩ := ih distinct
    rw [map_cons, map_cons, countP_cons, countP_cons]
    cases marked : set check with
    | true =>
      rw [httpHeaderMark]
      dsimp only
      rw [flags, Bool.true_or]
      refine ⟨rfl, ?_⟩
      simp only [if_true]
      omega
    | false =>
      rw [httpHeaderMark]
      split
      · rename_i equal
        have rest : ∀ other ∈ checks, (set other || httpHeaderEq name other) = set other := by
          intro other isIn
          have not : httpHeaderEq name other = false := by
            rw [← not_eq_true, httpHeaderEq_iff, httpHeaderEq_iff.mp equal]
            exact others other isIn
          rw [not, Bool.or_false]
        have same : checks.countP (fun other => set other || httpHeaderEq name other) = checks.countP set :=
          countP_congr fun other isIn => by rw [rest other isIn]
        rw [Bool.false_or, equal, map_congr_left rest, same]
        exact ⟨rfl, rfl⟩
      · rename_i unequal
        dsimp only
        rw [flags, Bool.false_or, eq_false_iff.mpr unequal]
        refine ⟨rfl, ?_⟩
        simp only [false_eq_true, if_false]
        omega

theorem httpHeaderScanLoop_spec (headers : List HttpHdr) (est found : Nat) (few : found = checks.countP set) :
    httpHeaderScanLoop checks est (checks.map set) found headers =
      (est + (headers.map fun header => header.line.length + 2).sum,
        checks.map fun check => set check || headers.any fun header => httpHeaderEq header.name check) := by
  induction headers generalizing est found set with
  | nil =>
    simp only [httpHeaderScanLoop, any_nil, Bool.or_false]
    rfl
  | cons header rest ih =>
    have length : header.line.length = header.name.length + 2 + header.value.length := by
      rw [HttpHdr.line, length_append, length_append]
      rfl
    rw [httpHeaderScanLoop]
    dsimp only
    split
    · -- Every check is marked, so that no further name could mark one.
      rename_i all
      have marked : ∀ check ∈ checks, set check = true := by
        have most := countP_le_length (p := set) (l := checks)
        exact countP_eq_length.mp (by omega)
      rw [ih _ _ few, map_cons, sum_cons, length]
      refine Prod.ext (by dsimp only; omega) (map_congr_left fun check isIn => ?_)
      rw [marked check isIn, Bool.true_or, Bool.true_or]
    · obtain ⟨flags, more⟩ := @httpHeaderMark_spec header.name checks set distinct
      rw [flags, ih _ _ (by rw [few]; exact more), map_cons, sum_cons, length]
      refine Prod.ext (by dsimp only; omega) (map_congr_left fun check _ => ?_)
      rw [any_cons, Bool.or_assoc]

end

end Scan

theorem httpHeaderScan_spec : httpHeaderScan headers httpCheckNames =
      ((headers.map fun header => header.line.length + 2).sum,
        httpCheckNames.map fun check => headers.any fun header => httpHeaderEq header.name check) := by
  have distinct : httpCheckNames.Pairwise fun a b => a.map httpLower ≠ b.map httpLower := by decide
  have none : 0 = httpCheckNames.countP fun _ => false := by decide
  rw [httpHeaderScan, httpHeaderScanLoop_spec distinct headers 0 0 none, Nat.zero_add]
  simp only [Bool.false_or]

/-- Twenty digits are enough for what the loop is given. -/
theorem httpWriteDigits_eq {room val : Nat} (some_ : 0 < val) (small : val < 10 ^ room) :
    (httpWriteDigits room val).reverse = printed val := by
  induction room generalizing val with
  | zero => omega
  | succ room ih =>
    rw [httpWriteDigits, if_neg (by omega), reverse_cons]
    rcases Nat.lt_or_ge val 10 with digit | more
    · have rest : val / 10 = 0 := by omega
      rw [printed_of_lt digit, rest, Nat.mod_eq_of_lt digit]
      cases room <;> rfl
    · rw [printed_of_ge more, ih (by omega) (by rw [Nat.pow_succ] at small; omega)]

theorem httpWriteUint_eq {val : Nat} (small : val < 10 ^ 20) : httpWriteUint val = printed val := by
  unfold httpWriteUint
  split
  · rename_i zero
    rw [zero]
    decide
  · exact httpWriteDigits_eq (by omega) small

end Xylem.Http
