import Mathlib.Data.List.Infix
import Xylem.Http.Tunnel

namespace Xylem.Http

open Lib List

def blankLine : List UInt8 := crlf ++ crlf

variable (resp : List UInt8)

/-- What `strstr` sees of the response: its bytes up to the first zero. -/
def seesBlankLine : Bool := (strstr blankLine (resp.takeWhile (· ≠ 0))).isSome

/-- The loop of `_http_tunnel_handshake` over what `recv` has for it, one chunk at a time: the response and what is left
in the socket. An empty chunk is the end of the stream, no chunk a socket that fails. -/
def httpTunnelRead (resp : List UInt8) : List (List UInt8) → Option (List UInt8 × List UInt8)
  | [] => none
  | chunk :: chunks =>
    let got := chunk.take (1023 - resp.length)
    let rest := chunk.drop (1023 - resp.length)
    if got = [] then none
    else if seesBlankLine (resp ++ got) then some (resp ++ got, rest ++ chunks.flatten)
    else if (resp ++ got).length < 1023 then httpTunnelRead (resp ++ got) chunks
    else some (resp ++ got, rest ++ chunks.flatten)

/-- `_http_tunnel_handshake`: the response that it has consumed and what follows it, if it succeeds. -/
def httpTunnelHandshake (host : List UInt8) (port : UInt16) (username password : Option (List UInt8)) (sent : Bool)
    (chunks : List (List UInt8)) : Option (List UInt8 × List UInt8) :=
  (httpTunnelBuildRequest host port username password).bind fun _ =>
    if sent then
      (httpTunnelRead [] chunks).bind fun (resp, rest) =>
        if (ascii "HTTP/1.1 200").isPrefixOf resp ∨ (ascii "HTTP/1.0 200").isPrefixOf resp then some (resp, rest)
        else none
    else none

/-- A response that ends with its first empty line. -/
structure HeaderBlock : Prop where
  ends : blankLine <:+ resp
  first : ∀ front, front <+: resp → blankLine <:+: front → front = resp

/-- The status line is one of HTTP/1.x with the code 200. -/
def isStatus200 : Bool :=
  (ascii "HTTP/1.").isPrefixOf resp && (resp.drop 7).head?.any isDigit && (ascii " 200").isPrefixOf (resp.drop 8) &&
    (resp.drop 12).head?.any (· ∈ [0x20, 0x0d])

/-- The header block of the response fits the buffer and ends where a read ends. -/
def HandOver (chunks : List (List UInt8)) : Prop :=
  ∃ head, head <+: chunks.flatten ∧ HeaderBlock head ∧ isStatus200 head = true ∧ head.length ≤ 1023 ∧
    (head.length = 1023 ∨ 0 ∉ head ∧ ∃ k, head = (chunks.take k).flatten)

theorem strstr_isSome_iff {pattern text : List UInt8} : (strstr pattern text).isSome = true ↔ pattern <:+: text := by
  induction text with
  | nil =>
    rw [strstr, infix_nil]
    split <;> simp_all
  | cons c rest ih =>
    rw [strstr, infix_cons_iff, ← ih]
    split
    · rename_i starts
      have starts := isPrefixOf_iff_prefix.mp starts
      simp [starts]
    · rename_i other
      have other := mt isPrefixOf_iff_prefix.mpr other
      simp [other]

variable {resp : List UInt8}

theorem seesBlankLine_of_infix (noZero : 0 ∉ resp) (occurs : blankLine <:+: resp) : seesBlankLine resp = true := by
  have whole : resp.takeWhile (· ≠ 0) = resp :=
    takeWhile_eq_self_iff.mpr fun c isIn => decide_eq_true (p := c ≠ 0) fun is => noZero (is ▸ isIn)
  rw [seesBlankLine, whole]
  exact strstr_isSome_iff.mpr occurs

/-- What the loop has read, why it stopped there, and that it did not see an empty line at the end of any read
before. -/
theorem httpTunnelRead_spec {chunks : List (List UInt8)} {out rest : List UInt8} (room : resp.length < 1023)
    (reads : httpTunnelRead resp chunks = some (out, rest)) :
    ∃ got, out = resp ++ got ∧ chunks.flatten = got ++ rest ∧ out.length ≤ 1023 ∧
      (out.length = 1023 ∨ seesBlankLine out = true ∧ ∃ k, got = (chunks.take k).flatten) ∧
      ∀ k, 0 < k → (chunks.take k).flatten.length < got.length →
        seesBlankLine (resp ++ (chunks.take k).flatten) = false := by
  induction chunks generalizing resp with
  | nil => cases reads
  | cons chunk chunks ih =>
    rw [httpTunnelRead] at reads
    obtain ⟨some_, reads⟩ := Option.ite_none_left_eq_some.mp reads
    generalize size : 1023 - resp.length = free at reads some_
    have most : (resp ++ chunk.take free).length ≤ 1023 := by
      rw [length_append, length_take]
      omega
    -- A chunk that does not fit fills the buffer.
    have whole : (resp ++ chunk.take free).length < 1023 → chunk.take free = chunk ∧ chunk.drop free = [] := by
      intro less
      rw [length_append, length_take] at less
      have fits : chunk.length ≤ free := by omega
      exact ⟨take_of_length_le fits, drop_eq_nil_of_le fits⟩
    have split_ : (chunk :: chunks).flatten = chunk.take free ++ (chunk.drop free ++ chunks.flatten) := by
      rw [flatten_cons, ← append_assoc, take_append_drop]
    have none_ : ∀ k, 0 < k → ¬((chunk :: chunks).take k).flatten.length < (chunk.take free).length := by
      intro k positive
      obtain ⟨k, rfl⟩ := Nat.exists_eq_succ_of_ne_zero (Nat.ne_of_gt positive)
      rw [take_succ_cons, flatten_cons, length_append, length_take]
      omega
    split at reads
    · rename_i sees
      obtain ⟨rfl, rfl⟩ := Prod.mk.inj (Option.some.inj reads)
      refine ⟨_, rfl, split_, most, ?_, fun k positive less => absurd less (none_ k positive)⟩
      by_cases less : (resp ++ chunk.take free).length < 1023
      · refine .inr ⟨sees, 1, ?_⟩
        rw [(whole less).1]
        simp
      · exact .inl (by omega)
    rename_i unseen
    split at reads
    · rename_i less
      have same := (whole less).1
      rw [same] at reads less unseen
      obtain ⟨got, rfl, flat, le, stops, before⟩ := ih less reads
      refine ⟨chunk ++ got, append_assoc .., ?_, le, ?_, ?_⟩
      · rw [flatten_cons, flat, append_assoc]
      · refine stops.imp_right fun ⟨sees, k, is⟩ => ⟨sees, k + 1, ?_⟩
        rw [is, take_succ_cons, flatten_cons]
      · intro k positive shorter
        obtain ⟨k, rfl⟩ := Nat.exists_eq_succ_of_ne_zero (Nat.ne_of_gt positive)
        rw [take_succ_cons, flatten_cons] at shorter ⊢
        rw [← append_assoc]
        cases k with
        | zero =>
          rw [take_zero, flatten_nil, append_nil]
          exact Bool.eq_false_iff.mpr unseen
        | succ k =>
          rw [length_append, length_append] at shorter
          exact before (k + 1) (Nat.succ_pos k) (by omega)
    · obtain ⟨rfl, rfl⟩ := Prod.mk.inj (Option.some.inj reads)
      exact ⟨_, rfl, split_, most, .inl (by omega), fun k positive less => absurd less (none_ k positive)⟩

/-- A successful handshake consumes what it has read, which is the header block of the response exactly if that fits the
buffer and ends where a read ends. -/
theorem http_tunnel_hand_over {host : List UInt8} {port : UInt16} {username password : Option (List UInt8)} {sent : Bool}
    {chunks : List (List UInt8)} {resp rest : List UInt8}
    (success : httpTunnelHandshake host port username password sent chunks = some (resp, rest)) :
    chunks.flatten = resp ++ rest ∧ (HeaderBlock resp ∧ isStatus200 resp = true ↔ HandOver chunks) := by
  obtain ⟨req, -, success⟩ := Option.bind_eq_some_iff.mp success
  obtain ⟨-, success⟩ := Option.ite_none_right_eq_some.mp success
  obtain ⟨⟨out, left_⟩, reads, success⟩ := Option.bind_eq_some_iff.mp success
  obtain ⟨-, success⟩ := Option.ite_none_right_eq_some.mp success
  obtain ⟨rfl, rfl⟩ := Prod.mk.inj (Option.some.inj success)
  obtain ⟨got, is, flat, le, stops, before⟩ := httpTunnelRead_spec (by decide) reads
  obtain rfl : got = out := is.symm
  refine ⟨flat, fun ⟨block, status⟩ => ?_, fun ⟨head, front, block, status, short, ends⟩ => ?_⟩
  · refine ⟨got, flat ▸ List.prefix_append .., block, status, le, ?_⟩
    refine stops.imp_right fun ⟨sees, boundary⟩ => ⟨fun isIn => ?_, boundary⟩
    rw [← block.first _ ( List.takeWhile_prefix _) (strstr_isSome_iff.mp sees)] at isIn
    simpa using List.mem_takeWhile_imp isIn
  · have read : got <+: chunks.flatten := flat ▸ List.prefix_append ..
    suffices same : head = got by
      rw [← same]
      exact ⟨block, status⟩
    rcases Nat.lt_trichotomy got.length head.length with shorter | same | longer
    · -- It stopped before the end of the block, which is no place to stop.
      rcases stops with full | ⟨sees, -⟩
      · omega
      · have occurs := (strstr_isSome_iff.mp sees).trans ⟨[], _, takeWhile_append_dropWhile⟩
        exact (block.first got (List.prefix_of_prefix_length_le read front (by omega)) occurs).symm
    · exact (List.prefix_of_prefix_length_le front read (by omega)).eq_of_length same.symm
    · -- It went on after the read that ended the block.
      rcases ends with full | ⟨noZero, k, is⟩
      · omega
      have positive : 0 < k := by
        rcases Nat.eq_zero_or_pos k with rfl | positive
        · have none : head = [] := by rw [is, List.take_zero, List.flatten_nil]
          rw [none] at status
          exact absurd status (by decide)
        · exact positive
      have unseen := before k positive (by rw [← is]; exact longer)
      rw [List.nil_append, ← is, seesBlankLine_of_infix noZero block.ends.isInfix] at unseen
      cases unseen

/-- The proxy sends the header block in two parts, and then the server something of its own. -/
theorem http_tunnel_hand_over_parts : ∃ resp rest, httpTunnelHandshake (ascii "a") 443 none none true
      [ascii "HTTP/1.1 200 OK" ++ crlf, crlf, ascii "hello"] = some (resp, rest) ∧
    rest = ascii "hello" ∧ HeaderBlock resp := by
  have success : httpTunnelHandshake (ascii "a") 443 none none true
      [ascii "HTTP/1.1 200 OK" ++ crlf, crlf, ascii "hello"] =
      some (ascii "HTTP/1.1 200 OK" ++ crlf ++ crlf, ascii "hello") := by decide +kernel
  have block : HeaderBlock (ascii "HTTP/1.1 200 OK" ++ crlf ++ crlf) := by
    refine ⟨⟨ascii "HTTP/1.1 200 OK", by rw [blankLine, append_assoc]⟩, fun front starts occurs => ?_⟩
    have all : ∀ front ∈ (ascii "HTTP/1.1 200 OK" ++ crlf ++ crlf).inits,
        (strstr blankLine front).isSome = true → front = ascii "HTTP/1.1 200 OK" ++ crlf ++ crlf := by decide +kernel
    exact all front ((List.mem_inits _ _).mpr starts) (strstr_isSome_iff.mpr occurs)
  have status : isStatus200 (ascii "HTTP/1.1 200 OK" ++ crlf ++ crlf) = true := by decide +kernel
  have fits : HandOver [ascii "HTTP/1.1 200 OK" ++ crlf, crlf, ascii "hello"] :=
    ⟨_, ⟨ascii "hello", by decide⟩, block, status, by decide, .inr ⟨by decide, 2, by decide⟩⟩
  exact ⟨_, _, success, rfl, ((http_tunnel_hand_over success).2.mpr fits).1⟩

/-- The first byte of the server comes in the read that ends the header block, and is gone with it. -/
theorem http_tunnel_hand_over_swallows : ∃ resp, httpTunnelHandshake (ascii "a") 443 none none true
      [ascii "HTTP/1.1 200 OK" ++ crlf ++ crlf ++ ascii "h", ascii "ello"] = some (resp, ascii "ello") ∧
    ¬HeaderBlock resp := by
  refine ⟨ascii "HTTP/1.1 200 OK" ++ crlf ++ crlf ++ ascii "h", by decide +kernel, fun block => ?_⟩
  obtain ⟨front, is⟩ := block.ends
  have last := congrArg List.getLast? is
  rw [List.getLast?_append_of_ne_nil _ (by decide)] at last
  exact absurd last (by decide)

end Xylem.Http
