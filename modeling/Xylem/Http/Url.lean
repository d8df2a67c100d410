import Xylem.Lib.Ascii

namespace Xylem.Http

open Lib List

/-- `http_lower_table`. -/
def httpLower (c : UInt8) : UInt8 := if 0x41 ≤ c ∧ c ≤ 0x5a then c + 0x20 else c

theorem httpLower_httpLower (c : UInt8) : httpLower (httpLower c) = httpLower c := by
  unfold httpLower
  grind

def httpHeaderEq (a b : List UInt8) : Bool :=
  a.length == b.length && (a.zip b).all fun (x, y) => httpLower x == httpLower y

theorem httpHeaderEq_iff {a b : List UInt8} : httpHeaderEq a b = true ↔ a.map httpLower = b.map httpLower := by
  rw [httpHeaderEq, Bool.and_eq_true, beq_iff_eq]
  induction a generalizing b with
  | nil => cases b <;> simp
  | cons x rest ih =>
    cases b with
    | nil => simp
    | cons y others =>
      simp only [length_cons, Nat.add_right_cancel_iff, zip_cons_cons, all_cons, Bool.and_eq_true,
        beq_iff_eq, map_cons, List.cons.injEq, ← ih]
      exact and_left_comm

inductive HttpScheme
  | http
  | https
deriving DecidableEq

def HttpScheme.text : HttpScheme → List UInt8
  | .http => ascii "http"
  | .https => ascii "https"

/-- `http_url_t`: what is in it fits its arrays, and the host is in lower case. -/
structure HttpUrl where
  scheme : HttpScheme
  host : List UInt8
  port : UInt16
  path : List UInt8
  hostFits : host.length < 256
  hostLower : host.map httpLower = host
  pathFits : path.length < 2048
deriving DecidableEq

variable (url : List UInt8)

/-- The scheme in front of the first `://`, and what comes after that. -/
def httpUrlScheme : Option (HttpScheme × List UInt8) :=
  (strstr (ascii "://") url).bind fun sep =>
    let n := url.length - sep.length
    let scheme := (url.take n).map httpLower
    if n ≠ 4 ∧ n ≠ 5 then none
    else if scheme = ascii "http" then some (.http, sep.drop 3)
    else if scheme = ascii "https" then some (.https, sep.drop 3)
    else none

/-- Where the host begins and ends: in brackets, or up to one of `:/?#`. -/
def httpUrlAuthority : List UInt8 → Option (List UInt8 × List UInt8)
  | 0x5b :: p =>
    if 0x5d ∈ p then some (p.takeWhile (· ≠ 0x5d), (p.dropWhile (· ≠ 0x5d)).drop 1) else none
  | p => some (p.takeWhile (· ∉ ascii ":/?#"), p.dropWhile (· ∉ ascii ":/?#"))

/-- The digits of a port, read onto the value so far. -/
def httpUrlDigits (port : Nat) : List UInt8 → Option (Nat × List UInt8)
  | [] => some (port, [])
  | c :: rest =>
    if isDigit c then
      let port := port * 10 + (c.toNat - 0x30)
      if 65535 < port then none else httpUrlDigits port rest
    else some (port, c :: rest)

def httpUrlPort (scheme : HttpScheme) : List UInt8 → Option (UInt16 × List UInt8)
  | 0x3a :: p =>
    if p.head?.any isDigit then
      (httpUrlDigits 0 p).bind fun (port, p) => if port = 0 then none else some (UInt16.ofNat port, p)
    else none
  | p => some (if scheme = .https then 443 else 80, p)

def httpUrlPath (p : List UInt8) : Option (List UInt8) :=
  if p.head?.any (· ∉ ascii "/?#") then none
  else
    let path := p.takeWhile (· ≠ 0x23)
    if path = [] then some (ascii "/")
    else if p.head? = some 0x3f then some (0x2f :: path)
    else some path

def httpUrlParse : Option HttpUrl :=
  if url.any fun c => c ≤ 32 || c == 127 then none
  else
    (httpUrlScheme url).bind fun (scheme, p) =>
    (httpUrlAuthority p).bind fun (name, p) =>
    if fits : name = [] ∨ 256 ≤ name.length then none
    else if name.any (· ∈ ascii "@\\[]") then none
    else
      (httpUrlPort scheme p).bind fun (port, p) =>
      (httpUrlPath p).bind fun path =>
      if long : 2048 ≤ path.length then none
      else
        some
          { scheme, port, path
            host := name.map httpLower
            hostFits := by rw [List.length_map]; omega
            hostLower := List.map_map.trans (List.map_congr_left fun c _ => httpLower_httpLower c)
            pathFits := by omega }

/-- The host as a request names it: in brackets if it is an IPv6 address, and with its port unless that is the one of
the scheme. -/
def HttpUrl.authority (url : HttpUrl) : List UInt8 :=
  let standard := (url.scheme = .http ∧ url.port = 80) ∨ (url.scheme = .https ∧ url.port = 443)
  let ipv6 := 0x3a ∈ url.host
  let port := if standard then [] else 0x3a :: printed url.port.toNat
  (if ipv6 then ascii "[" else []) ++ url.host ++ (if ipv6 then ascii "]" else []) ++ port

def httpUrlSerialize (url : HttpUrl) (cap : Nat) : Option (List UInt8) :=
  let text := url.scheme.text ++ ascii "://" ++ url.authority ++ url.path
  if cap ≤ text.length then none else some text

def httpUrlSameOrigin (a b : HttpUrl) : Bool :=
  a.port == b.port && httpHeaderEq a.host b.host && a.scheme == b.scheme

/-- The path that a relative reference stands for, before the dot segments are removed. -/
def httpUrlCombine (location path : List UInt8) : Option (List UInt8) :=
  if location.head? = some 0x2f then some (location.take 4095)
  else if location.head? = some 0x3f then some ((path.takeWhile (· ≠ 0x3f) ++ location).take 4095)
  else
    let basePath := path.takeWhile (· ≠ 0x3f)
    let directory := if 0x2f ∈ basePath then (basePath.reverse.dropWhile (· ≠ 0x2f)).reverse else basePath.take 1
    let combined := directory ++ location
    if 4096 ≤ combined.length then none else some combined

/-- One segment of the path, after the ones in `built`. -/
def httpUrlSegment (built segment : List UInt8) : Option (List UInt8) :=
  if segment = ascii ".." then some ((built.reverse.dropWhile (· ≠ 0x2f)).drop 1).reverse
  else if segment = [] ∨ segment = ascii "." then some built
  else if 2048 ≤ built.length + segment.length + 1 then none
  else some (built ++ 0x2f :: segment)

def httpUrlResolveRedirect (location : List UInt8) (base : HttpUrl) : Option HttpUrl :=
  if location = [] then none
  else if (strstr (ascii "://") location).isSome then httpUrlParse location
  else if (ascii "//").isPrefixOf location then
    let url := base.scheme.text ++ ascii ":" ++ location
    if 4096 ≤ url.length then none else httpUrlParse url
  else if location.head? = some 0x23 then some base
  else
    (httpUrlCombine location base.path).bind fun combined =>
    let combined := combined.takeWhile (· ≠ 0x23)
    let suffix := combined.dropWhile (· ≠ 0x3f)
    let combined := combined.takeWhile (· ≠ 0x3f)
    if 2048 ≤ suffix.length then none
    else
      ((combined.splitOn 0x2f).foldlM httpUrlSegment []).bind fun built =>
      let built := if built = [] ∨ combined.getLast? = some 0x2f then built ++ [0x2f] else built
      if fits : (built ++ suffix).length < 2048 then some { base with path := built ++ suffix, pathFits := fits }
      else none

/-- Hosts are kept in lower case, so that one origin has one spelling. -/
theorem httpUrlSameOrigin_iff {a b : HttpUrl} :
    httpUrlSameOrigin a b = true ↔ a.scheme = b.scheme ∧ a.host = b.host ∧ a.port = b.port := by
  rw [httpUrlSameOrigin, Bool.and_eq_true, Bool.and_eq_true, beq_iff_eq, beq_iff_eq, httpHeaderEq_iff, a.hostLower,
    b.hostLower]
  constructor
  · rintro ⟨⟨port, host⟩, scheme⟩
    exact ⟨scheme, host, port⟩
  · rintro ⟨scheme, host, port⟩
    exact ⟨⟨port, host⟩, scheme⟩

end Xylem.Http
