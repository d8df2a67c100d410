import Xylem.Encoding.Base64
import Xylem.Http.UrlRoundTrip
import Xylem.Lib.Crlf
import Xylem.Lib.Uri

namespace Xylem.Http

open Lib Xylem.Encoding List Option

variable (host : List UInt8) (port : UInt16) (username password : Option (List UInt8))

/-- The credentials that `_http_tunnel_build_request` sends: none if either part is missing, and no request at all if
their size does not fit an `int`. -/
def httpTunnelAuth : Option (Option (List UInt8)) :=
  match username, password with
  | some username, some password =>
    let cred := username ++ ascii ":" ++ password
    if 2 ^ 31 ≤ cred.length then none
    else
      let encodedLen := base64EncodeSize cred.length
      if 2 ^ 31 ≤ encodedLen then none
      else (base64EncodeStd cred encodedLen).map some
  | _, _ => some none

def httpTunnelTarget : List UInt8 := host ++ ascii ":" ++ printed port.toNat

def httpTunnelBuildRequest : Option (List UInt8) :=
  (httpTunnelAuth username password).bind fun auth =>
    let req := ascii "CONNECT " ++ httpTunnelTarget host port ++ ascii " HTTP/1.1" ++ crlf
      ++ ascii "Host: " ++ httpTunnelTarget host port ++ crlf
      ++ (auth.elim [] fun auth => ascii "Proxy-Authorization: Basic " ++ auth ++ crlf)
      ++ crlf
    if 2 ^ 31 ≤ req.length then none else some req

theorem httpTunnelBuildRequest_lines {host req : List UInt8} {port : UInt16} {username password : Option (List UInt8)}
    (visible : Visible host) (builds : httpTunnelBuildRequest host port username password = some req) :
    ∃ others, readHead [] req = some
      ((ascii "CONNECT " ++ httpTunnelTarget host port ++ ascii " HTTP/1.1") ::
        (ascii "Host: " ++ httpTunnelTarget host port) :: others, []) := by
  obtain ⟨auth, made, is⟩ := bind_eq_some_iff.mp builds
  obtain ⟨-, is⟩ := ite_none_left_eq_some.mp is
  have target : 0x0d ∉ httpTunnelTarget host port := by
    rw [httpTunnelTarget, mem_append, mem_append, not_or, not_or]
    refine ⟨⟨visible.not_mem (by decide), by decide⟩, fun isIn => ?_⟩
    exact absurd (printed_isDigit isIn) (by decide)
  have encoded : ∀ text, auth = some text → 0x0d ∉ text := by
    rintro text rfl isIn
    unfold httpTunnelAuth at made
    split at made
    · obtain ⟨-, made⟩ := ite_none_left_eq_some.mp made
      obtain ⟨-, made⟩ := ite_none_left_eq_some.mp made
      obtain ⟨written, encodes, same⟩ := map_eq_some_iff.mp made
      rw [base64EncodeSize, base64EncodeStd_eq (Nat.le_refl _)] at encodes
      rw [← Option.some.inj same, ← Option.some.inj encodes] at isIn
      exact absurd (Base64.encode_mem isIn) (by decide)
    · cases made
  have line : ∀ front back : List UInt8, 0x0d ∉ front → 0x0d ∉ back →
      0x0d ∉ front ++ httpTunnelTarget host port ++ back := by
    intro front back inFront inBack
    rw [mem_append, mem_append, not_or, not_or]
    exact ⟨⟨inFront, target⟩, inBack⟩
  let lines := (ascii "CONNECT " ++ httpTunnelTarget host port ++ ascii " HTTP/1.1") ::
    (ascii "Host: " ++ httpTunnelTarget host port) ::
    auth.elim [] fun auth => [ascii "Proxy-Authorization: Basic " ++ auth]
  have well : ∀ line ∈ lines, line ≠ [] ∧ 0x0d ∉ line := by
    intro text isIn
    rcases mem_cons.mp isIn with rfl | isIn
    · exact ⟨nofun, line _ _ (by decide) (by decide)⟩
    rcases mem_cons.mp isIn with rfl | isIn
    · have host := line (ascii "Host: ") [] (by decide) not_mem_nil
      rw [append_nil] at host
      exact ⟨nofun, host⟩
    cases auth with
    | none => cases isIn
    | some auth =>
      rw [mem_singleton.mp isIn]
      refine ⟨nofun, ?_⟩
      rw [mem_append, not_or]
      exact ⟨by decide, encoded auth rfl⟩
  refine ⟨auth.elim [] fun auth => [ascii "Proxy-Authorization: Basic " ++ auth], ?_⟩
  rw [← Option.some.inj is]
  have reads := readHead_lines well []
  rw [append_nil] at reads
  rw [← reads]
  refine congrArg (readHead []) ?_
  cases auth <;> simp [lines]

/-- The request names the target twice, and its authority is read back as the host and port of the URL exactly if the
host is a name: an IPv6 address stands there without its brackets. -/
theorem http_tunnel_names_target {text req : List UInt8} {parsed : HttpUrl} {username password : Option (List UInt8)}
    (ipLiteral : List UInt8 → Bool) (is : httpUrlParse text = some parsed) (_https : parsed.scheme = .https)
    (builds : httpTunnelBuildRequest parsed.host parsed.port username password = some req) :
    ∃ authority others, readHead [] req = some
        ((ascii "CONNECT " ++ authority ++ ascii " HTTP/1.1") :: (ascii "Host: " ++ authority) :: others, []) ∧
      (Uri.hostPort ipLiteral authority = some (parsed.host, parsed.port.toNat) ↔ Uri.regName parsed.host = true) := by
  have ok := httpUrlParse_parsed is
  obtain ⟨others, reads⟩ := httpTunnelBuildRequest_lines ok.hostVisible builds
  refine ⟨_, others, reads, ?_⟩
  have first : parsed.host.head? ≠ some 0x5b := fun first =>
    ok.allowed 0x5b (List.mem_of_mem_head? first) (by decide)
  rw [httpTunnelTarget, List.append_assoc]
  exact Uri.hostPort_name first

/-- A name with a port of its own. -/
theorem http_tunnel_names_target_name : ∃ parsed req authority,
    httpUrlParse (ascii "https://Proxy.test:8443/") = some parsed ∧
    httpTunnelBuildRequest parsed.host parsed.port none none = some req ∧
    ascii "CONNECT " ++ authority ++ ascii " HTTP/1.1" ∈ (readHead [] req).elim [] Prod.fst ∧
    Uri.hostPort (fun _ => true) authority = some (parsed.host, parsed.port.toNat) := by
  obtain ⟨parsed, is⟩ := Option.isSome_iff_exists.mp
    (show (httpUrlParse (ascii "https://Proxy.test:8443/")).isSome = true by decide +kernel)
  have facts : (httpUrlParse (ascii "https://Proxy.test:8443/")).all (fun parsed => decide (parsed.scheme = .https ∧
      Uri.regName parsed.host = true ∧
      (httpTunnelBuildRequest parsed.host parsed.port none none).isSome = true)) = true := by decide +kernel
  rw [is] at facts
  obtain ⟨https, name, builds⟩ := of_decide_eq_true facts
  obtain ⟨req, builds⟩ := Option.isSome_iff_exists.mp builds
  obtain ⟨authority, others, reads, back⟩ := http_tunnel_names_target (fun _ => true) is https builds
  refine ⟨parsed, req, authority, is, builds, ?_, back.mpr name⟩
  rw [reads]
  exact List.mem_cons_self ..

/-- The brackets of an IPv6 address are left out, and what stands there is no host and port. -/
theorem http_tunnel_names_target_ipv6 : ∃ parsed, httpUrlParse (ascii "https://[::1]/") = some parsed ∧
    httpTunnelBuildRequest parsed.host parsed.port none none =
      some (ascii "CONNECT ::1:443 HTTP/1.1" ++ crlf ++ ascii "Host: ::1:443" ++ crlf ++ crlf) ∧
    ∀ ipLiteral, Uri.hostPort ipLiteral (ascii "::1:443") = none := by
  obtain ⟨parsed, is⟩ := Option.isSome_iff_exists.mp
    (show (httpUrlParse (ascii "https://[::1]/")).isSome = true by decide +kernel)
  have facts : (httpUrlParse (ascii "https://[::1]/")).all (fun parsed => decide (
      httpTunnelBuildRequest parsed.host parsed.port none none =
        some (ascii "CONNECT ::1:443 HTTP/1.1" ++ crlf ++ ascii "Host: ::1:443" ++ crlf ++ crlf))) = true := by
    decide +kernel
  rw [is] at facts
  exact ⟨parsed, is, of_decide_eq_true facts, fun _ => by rfl⟩

end Xylem.Http
