import Mathlib.Data.List.TakeWhile
import Xylem.Http.UrlVisible

namespace Xylem.Http

open Lib List HttpUrl

variable {text p q r name path : List UInt8} {parsed : HttpUrl}

theorem HttpUrlParts.parse (parts : HttpUrlParts text p name q r parsed) : httpUrlParse text = some parsed := by
  have clean : ¬(text.any fun c => c ≤ 32 || c == 127) = true := by
    rw [any_eq_true]
    rintro ⟨c, isIn, bad⟩
    obtain ⟨above, notDelete⟩ := parts.visible c isIn
    rw [Bool.or_eq_true, decide_eq_true_eq, beq_iff_eq] at bad
    rcases bad with small | delete
    · exact UInt8.not_lt.mpr small above
    · exact notDelete delete
  have size : ¬(name = [] ∨ 256 ≤ name.length) := by
    have := parts.fits
    exact not_or.mpr ⟨parts.some_, by omega⟩
  have allowed : ¬(name.any (· ∈ ascii "@\\[]")) = true := by
    rw [any_eq_true]
    rintro ⟨c, isIn, bad⟩
    exact parts.allowed c isIn (of_decide_eq_true bad)
  have long : ¬2048 ≤ parsed.path.length := Nat.not_le.mpr parsed.pathFits
  rw [httpUrlParse, if_neg clean, parts.scheme, Option.bind_some]
  dsimp only
  rw [parts.authority, Option.bind_some]
  dsimp only
  rw [dif_neg size, if_neg allowed, parts.port, Option.bind_some]
  dsimp only
  rw [parts.path, Option.bind_some, dif_neg long]
  congr 1
  obtain ⟨scheme, host, port, path, hostFits, hostLower, pathFits⟩ := parsed
  obtain rfl : host = name.map httpLower := parts.host
  rfl

theorem httpLower_eq_iff {c d : UInt8} (other : d ∈ ascii "@\\[]:/?#") : httpLower c = d ↔ c = d := by
  have all : ∀ d ∈ ascii "@\\[]:/?#", ∀ c : Fin 256, httpLower (UInt8.ofFin c) = d ↔ UInt8.ofFin c = d := by
    decide +kernel
  have here := all d other c.toFin
  rwa [UInt8.ofFin_toFin] at here

theorem mem_map_httpLower {d : UInt8} (other : d ∈ ascii "@\\[]:/?#") : d ∈ name.map httpLower ↔ d ∈ name := by
  rw [mem_map]
  constructor
  · rintro ⟨c, isIn, is⟩
    rw [(httpLower_eq_iff other).mp is] at isIn
    exact isIn
  · exact fun isIn => ⟨d, isIn, (httpLower_eq_iff other).mpr rfl⟩

theorem httpUrlScheme_text (scheme : HttpScheme) (rest : List UInt8) :
    httpUrlScheme (scheme.text ++ ascii "://" ++ rest) = some (scheme, rest) := by
  have found : strstr (ascii "://") (scheme.text ++ ascii "://" ++ rest) = some (ascii "://" ++ rest) := by
    cases scheme <;> rfl
  rw [httpUrlScheme, found, Option.bind_some]
  have length : (scheme.text ++ ascii "://" ++ rest).length - (ascii "://" ++ rest).length = scheme.text.length := by
    rw [append_assoc, length_append]
    omega
  dsimp only
  rw [length, append_assoc, take_left]
  cases scheme <;> rfl

theorem httpUrlDigits_append {rest digits : List UInt8} {value : Nat} (isDigits : ∀ c ∈ digits, isDigit c = true)
    (ends : rest.head?.any isDigit = false)
    (small : digits.foldl (fun value c => 10 * value + (c.toNat - 0x30)) value ≤ 65535) :
    httpUrlDigits value (digits ++ rest) =
      some (digits.foldl (fun value c => 10 * value + (c.toNat - 0x30)) value, rest) := by
  induction digits generalizing value with
  | nil =>
    cases rest with
    | nil => rfl
    | cons c others =>
      have stops : isDigit c = false := ends
      rw [nil_append, httpUrlDigits, if_neg (by rw [stops]; decide)]
      rfl
  | cons c digits ih =>
    have digit := isDigits c (mem_cons_self ..)
    have grows : ∀ (digits : List UInt8) (value : Nat),
        value ≤ digits.foldl (fun value c => 10 * value + (c.toNat - 0x30)) value := by
      intro digits
      induction digits with
      | nil => exact fun value => Nat.le_refl _
      | cons c digits ih =>
        intro value
        have := ih (10 * value + (c.toNat - 0x30))
        rw [foldl_cons]
        omega
    rw [foldl_cons] at small ⊢
    have bound := grows digits (10 * value + (c.toNat - 0x30))
    rw [cons_append, httpUrlDigits, if_pos digit]
    dsimp only
    rw [Nat.mul_comm value 10, if_neg (by omega)]
    exact ih (fun c isIn => isDigits c (mem_cons_of_mem _ isIn)) small

variable {rest : List UInt8} {scheme : HttpScheme} {port : UInt16} {c : UInt8}

theorem httpUrlDigits_printed {n : Nat} (small : n ≤ 65535) (ends : rest.head?.any isDigit = false) :
    httpUrlDigits 0 (printed n ++ rest) = some (n, rest) := by
  have value : (printed n).foldl (fun value c => 10 * value + (c.toNat - 0x30)) 0 = n := decimal_printed n
  have reads := httpUrlDigits_append (fun c isIn => printed_isDigit isIn) ends (by rw [value]; exact small)
  rwa [value] at reads

theorem printed_head (n : Nat) : (printed n).head?.any isDigit = true := by
  cases digits : printed n with
  | nil =>
    have length : (printed n).length = (Nat.toDigits 10 n).length := by rw [printed_eq, length_map]
    have some_ := @Nat.length_toDigits_pos 10 n
    rw [digits, length_nil] at length
    omega
  | cons c rest => exact printed_isDigit (by rw [digits]; exact mem_cons_self ..)

theorem httpUrlDigits_le {value port : Nat} (small : value ≤ 65535) (is : httpUrlDigits value q = some (port, r)) :
    port ≤ 65535 := by
  induction q generalizing value with
  | nil =>
    obtain ⟨rfl, -⟩ := Prod.mk.inj (Option.some.inj is)
    exact small
  | cons c rest ih =>
    rw [httpUrlDigits] at is
    split at is
    · obtain ⟨le, is⟩ := Option.ite_none_left_eq_some.mp is
      exact ih (Nat.not_lt.mp le) is
    · obtain ⟨rfl, -⟩ := Prod.mk.inj (Option.some.inj is)
      exact small

theorem httpUrlPort_ne_zero (is : httpUrlPort scheme q = some (port, r)) : port ≠ 0 := by
  unfold httpUrlPort at is
  split at is
  · obtain ⟨-, is⟩ := Option.ite_none_right_eq_some.mp is
    obtain ⟨⟨value, after⟩, digits, is⟩ := Option.bind_eq_some_iff.mp is
    obtain ⟨some_, is⟩ := Option.ite_none_left_eq_some.mp is
    obtain ⟨rfl, -⟩ := Prod.mk.inj (Option.some.inj is)
    have small := httpUrlDigits_le (by decide) digits
    intro zero
    have same := congrArg UInt16.toNat zero
    rw [UInt16.toNat_ofNat', Nat.mod_eq_of_lt (by omega)] at same
    exact some_ same
  · obtain ⟨rfl, -⟩ := Prod.mk.inj (Option.some.inj is)
    split <;> decide

theorem httpUrlPort_printed (some_ : port ≠ 0) (ends : rest.head?.any isDigit = false) :
    httpUrlPort scheme (0x3a :: printed port.toNat ++ rest) = some (port, rest) := by
  have digits : (printed port.toNat ++ rest).head?.any isDigit = true := by
    have first := printed_head port.toNat
    cases digits : printed port.toNat with
    | nil => rw [digits] at first; exact absurd first (by decide)
    | cons c others => rw [digits] at first; exact first
  have small := port.toNat_lt
  have notZero : port.toNat ≠ 0 := fun zero => some_ (UInt16.toNat_inj.mp zero)
  rw [cons_append, httpUrlPort, if_pos digits, httpUrlDigits_printed (by omega) ends, Option.bind_some]
  dsimp only
  rw [if_neg notZero, UInt16.ofNat_toNat]

theorem httpUrlPath_fragment (is : httpUrlPath r = some path) : 0x23 ∉ path := by
  have cut : (0x23 : UInt8) ∉ r.takeWhile (· ≠ 0x23) := fun isIn => by simpa using mem_takeWhile_imp isIn
  unfold httpUrlPath at is
  obtain ⟨-, is⟩ := Option.ite_none_left_eq_some.mp is
  dsimp only at is
  split at is
  · cases is
    decide
  split at is
  · cases is
    exact fun isIn => (mem_cons.mp isIn).elim (by decide) cut
  · cases is
    exact cut

theorem httpUrlPath_path (slash : path.head? = some 0x2f) (fragment : 0x23 ∉ path) : httpUrlPath path = some path := by
  have whole : path.takeWhile (· ≠ 0x23) = path :=
    takeWhile_eq_self_iff.mpr fun c isIn => decide_eq_true fun is => fragment (is ▸ isIn)
  have some_ : path ≠ [] := by
    rintro rfl
    cases slash
  rw [httpUrlPath, if_neg (by rw [slash]; decide)]
  dsimp only
  rw [whole, if_neg some_, if_neg (by rw [slash]; decide)]

variable (url : HttpUrl)

/-- The port that stands after the host, if it has to. -/
def HttpUrl.portText : List UInt8 :=
  if (url.scheme = .http ∧ url.port = 80) ∨ (url.scheme = .https ∧ url.port = 443) then []
  else 0x3a :: printed url.port.toNat

theorem HttpUrl.authority_ipv6 (ipv6 : 0x3a ∈ parsed.host) :
    parsed.authority = 0x5b :: (parsed.host ++ 0x5d :: parsed.portText) := by
  simp only [HttpUrl.authority, ipv6, if_true, portText, append_assoc]
  rfl

theorem HttpUrl.authority_name (notIpv6 : 0x3a ∉ parsed.host) : parsed.authority = parsed.host ++ parsed.portText := by
  simp only [HttpUrl.authority, notIpv6, if_false, portText, nil_append, append_nil]

theorem HttpUrl.portText_parse (some_ : parsed.port ≠ 0) (slash : path.head? = some 0x2f) :
    httpUrlPort parsed.scheme (parsed.portText ++ path) = some (parsed.port, path) := by
  obtain ⟨rest, rfl⟩ : ∃ rest, path = 0x2f :: rest := by
    cases path with
    | nil => cases slash
    | cons c rest => exact ⟨rest, by rw [Option.some.inj slash]⟩
  unfold portText
  split
  · rename_i standard
    rcases standard with ⟨scheme, port⟩ | ⟨scheme, port⟩ <;> rw [scheme, port] <;> rfl
  · exact httpUrlPort_printed some_ rfl

theorem HttpUrl.portText_ends (slash : path.head? = some 0x2f) :
    ∃ c rest, parsed.portText ++ path = c :: rest ∧ c ∈ ascii ":/?#" := by
  unfold portText
  split
  · cases path with
    | nil => cases slash
    | cons c rest => exact ⟨c, rest, rfl, by rw [Option.some.inj slash]; decide⟩
  · exact ⟨_, _, rfl, by decide⟩

theorem takeWhile_append_stop {α : Type} {keep : α → Bool} {front rest : List α} {c : α} (all : ∀ x ∈ front, keep x = true)
    (stops : keep c = false) :
    (front ++ c :: rest).takeWhile keep = front ∧ (front ++ c :: rest).dropWhile keep = c :: rest := by
  rw [takeWhile_append_of_pos all, dropWhile_append_of_pos all,
    takeWhile_cons_of_neg (by rw [stops]; decide), dropWhile_cons_of_neg (by rw [stops]; decide),
    append_nil]
  exact ⟨rfl, rfl⟩

theorem httpUrlAuthority_name (first : name.head? ≠ some 0x5b) (some_ : name ≠ [])
    (inside : ∀ d ∈ name, d ∉ ascii ":/?#") (ends : c ∈ ascii ":/?#") :
    httpUrlAuthority (name ++ c :: rest) = some (name, c :: rest) := by
  obtain ⟨front, back⟩ := @takeWhile_append_stop _ (· ∉ ascii ":/?#") name rest c
    (fun d isIn => decide_eq_true (inside d isIn)) (by simpa using ends)
  obtain ⟨d, others, rfl⟩ := exists_cons_of_ne_nil some_
  have other : d ≠ 0x5b := fun is => first (by rw [is]; rfl)
  rw [cons_append] at front back ⊢
  unfold httpUrlAuthority
  split
  · rename_i same
    exact absurd (List.cons.inj same).1 other
  · rw [front, back]

/-- The text that `http_url_serialize` writes. -/
def HttpUrl.written : List UInt8 := url.scheme.text ++ ascii "://" ++ url.authority ++ url.path

/-- What `http_url_parse` leaves in a URL. -/
structure HttpUrl.Parsed : Prop where
  hostVisible : Visible url.host
  pathVisible : Visible url.path
  some_ : url.host ≠ []
  allowed : ∀ c ∈ url.host, c ∉ ascii "@\\[]"
  port : url.port ≠ 0
  slash : url.path.head? = some 0x2f
  fragment : 0x23 ∉ url.path

theorem httpUrlParse_parsed (is : httpUrlParse text = some parsed) : parsed.Parsed := by
  obtain ⟨p, name, q, r, parts⟩ := httpUrlParse_parts is
  obtain ⟨hostVisible, pathVisible, slash⟩ := httpUrlParse_visible is
  refine ⟨hostVisible, pathVisible, ?_, ?_, httpUrlPort_ne_zero parts.port, slash, httpUrlPath_fragment parts.path⟩
  · rw [parts.host]
    exact fun none => parts.some_ (map_eq_nil_iff.mp none)
  · intro c isIn bad
    have other : c ∈ ascii "@\\[]:/?#" := mem_append_left (ascii ":/?#") bad
    rw [parts.host, mem_map_httpLower other] at isIn
    exact parts.allowed c isIn bad

theorem HttpUrl.Parsed.written_visible (ok : parsed.Parsed) : Visible parsed.written := by
  have plain : ∀ c ∈ HttpScheme.http.text ++ HttpScheme.https.text ++ ascii "://[]", 32 < c ∧ c ≠ 127 := by decide +kernel
  have digits : ∀ c, isDigit c = true → 32 < c ∧ c ≠ 127 := by
    intro c digit
    rw [isDigit, Bool.and_eq_true, decide_eq_true_eq, decide_eq_true_eq] at digit
    refine ⟨UInt8.lt_of_lt_of_le (by decide) digit.1, fun is => ?_⟩
    rw [is] at digit
    exact absurd digit.2 (by decide)
  have port : Visible parsed.portText := by
    unfold portText
    split
    · exact nofun
    · intro c isIn
      rcases mem_cons.mp isIn with rfl | isIn
      · decide
      · exact digits c (printed_isDigit isIn)
  have authority : Visible parsed.authority := by
    intro c isIn
    by_cases ipv6 : 0x3a ∈ parsed.host
    · rw [authority_ipv6 ipv6, mem_cons, mem_append, mem_cons] at isIn
      rcases isIn with rfl | host | rfl | isPort
      · decide
      · exact ok.hostVisible c host
      · decide
      · exact port c isPort
    · rw [authority_name ipv6, mem_append] at isIn
      exact isIn.elim (ok.hostVisible c) (port c)
  intro c isIn
  rw [HttpUrl.written, mem_append, mem_append, mem_append] at isIn
  rcases isIn with ((scheme | colon) | isAuthority) | isPath
  · refine plain c ?_
    rw [mem_append, mem_append]
    cases kind : parsed.scheme with
    | http => exact .inl (.inl (kind ▸ scheme))
    | https => exact .inl (.inr (kind ▸ scheme))
  · exact plain c (mem_append_right _ (mem_append_left (ascii "[]") colon))
  · exact authority c isAuthority
  · exact ok.pathVisible c isPath

/-- A host that needs brackets and does not get them is read back up to the character that it needs them for. -/
theorem httpUrlAuthority_short {rest host after : List UInt8} (inside : c ∈ name) (stops : c ∈ ascii ":/?#")
    (first : name.head? ≠ some 0x5b) (is : httpUrlAuthority (name ++ rest) = some (host, after)) :
    c ∉ host := by
  obtain ⟨d, others, rfl⟩ := exists_cons_of_ne_nil (ne_nil_of_mem inside)
  have other : d ≠ 0x5b := fun eq => first (by rw [eq]; rfl)
  unfold httpUrlAuthority at is
  split at is
  · rename_i same
    exact absurd (List.cons.inj same).1 other
  · obtain ⟨rfl, -⟩ := Prod.mk.inj (Option.some.inj is)
    exact fun isIn => absurd stops (by simpa using mem_takeWhile_imp isIn)

/-- The text of a parsed URL is read back as the same URL exactly if its host is written in brackets or needs none. -/
theorem http_url_round_trip (is : httpUrlParse text = some parsed) :
    ∃ written, (∀ cap, written.length < cap → httpUrlSerialize parsed cap = some written) ∧
      (httpUrlParse written = some parsed ↔ 0x3a ∈ parsed.host ∨ ∀ c ∈ ascii "/?#", c ∉ parsed.host) := by
  have ok := httpUrlParse_parsed is
  have notBracket : parsed.host.head? ≠ some 0x5b := fun first =>
    ok.allowed 0x5b (List.mem_of_mem_head? first) (by decide)
  refine ⟨parsed.written, fun cap room => if_neg (Nat.not_le.mpr room), fun again => ?_, fun condition =>
    @HttpUrlParts.parse _ (parsed.authority ++ parsed.path) _ _ _ _ ⟨ok.written_visible, ?_, ?_, ok.some_,
      parsed.hostFits, ok.allowed, parsed.hostLower.symm, portText_parse ok.port ok.slash, httpUrlPath_path ok.slash ok.fragment⟩⟩
  · by_contra neither
    obtain ⟨notIpv6, bad⟩ := not_or.mp neither
    obtain ⟨c, stops, inside⟩ : ∃ c ∈ ascii "/?#", c ∈ parsed.host := by simpa using bad
    obtain ⟨p, name, q, r, parts⟩ := httpUrlParse_parts again
    have rest : p = parsed.authority ++ parsed.path := by
      have read := parts.scheme
      rw [HttpUrl.written, append_assoc _ parsed.authority, httpUrlScheme_text] at read
      exact (Prod.mk.inj (Option.some.inj read)).2.symm
    have authority := parts.authority
    rw [rest, authority_name notIpv6, append_assoc] at authority
    have stops' : c ∈ ascii ":/?#" := List.mem_append_right (ascii ":") stops
    have absent := httpUrlAuthority_short inside stops' notBracket authority
    rw [parts.host, mem_map_httpLower (List.mem_append_right (ascii "@\\[]") stops')] at inside
    exact absent inside
  · rw [HttpUrl.written, append_assoc _ parsed.authority]
    exact httpUrlScheme_text ..
  · by_cases ipv6 : 0x3a ∈ parsed.host
    · rw [authority_ipv6 ipv6, cons_append, append_assoc, cons_append]
      obtain ⟨front, back⟩ := @takeWhile_append_stop _ (· ≠ 0x5d) parsed.host (parsed.portText ++ parsed.path) 0x5d
        (fun c isIn => decide_eq_true (p := c ≠ 0x5d) fun is => ok.allowed 0x5d (is ▸ isIn) (by decide)) (by decide)
      rw [httpUrlAuthority, if_pos (by simp), front, back]
      rfl
    · obtain ⟨c, rest, ends, stops⟩ : ∃ c rest, parsed.portText ++ parsed.path = c :: rest ∧ c ∈ ascii ":/?#" :=
        portText_ends ok.slash
      have inside : ∀ d ∈ parsed.host, d ∉ ascii ":/?#" := by
        intro d isIn bad
        rcases mem_append.mp (show d ∈ ascii ":" ++ ascii "/?#" from bad) with colon | other
        · rw [List.mem_singleton.mp colon] at isIn
          exact ipv6 isIn
        · exact (condition.resolve_left ipv6) d other isIn
      rw [authority_name ipv6, append_assoc, ends]
      exact httpUrlAuthority_name notBracket ok.some_ inside stops

/-- An IPv6 address with a port of its own. -/
theorem http_url_round_trip_ipv6 : ∃ parsed written, httpUrlParse (ascii "HTTP://[::1]:8080?q") = some parsed ∧
    (∀ cap, written.length < cap → httpUrlSerialize parsed cap = some written) ∧
    httpUrlParse written = some parsed := by
  obtain ⟨parsed, is⟩ := Option.isSome_iff_exists.mp
    (show (httpUrlParse (ascii "HTTP://[::1]:8080?q")).isSome = true by decide +kernel)
  have host : (httpUrlParse (ascii "HTTP://[::1]:8080?q")).any (0x3a ∈ ·.host) = true := by decide +kernel
  obtain ⟨written, writes, again⟩ := http_url_round_trip is
  rw [is] at host
  exact ⟨parsed, written, is, writes, again.mpr (.inl (of_decide_eq_true host))⟩

/-- Brackets around a host that is no IPv6 address are lost, and the slash inside them begins the path. -/
theorem http_url_round_trip_brackets : ∃ parsed written, httpUrlParse (ascii "http://[a/b]/") = some parsed ∧
    httpUrlSerialize parsed 2048 = some written ∧ written = ascii "http://a/b/" ∧
    httpUrlParse written ≠ some parsed := by
  obtain ⟨parsed, is⟩ := Option.isSome_iff_exists.mp
    (show (httpUrlParse (ascii "http://[a/b]/")).isSome = true by decide +kernel)
  have facts : (httpUrlParse (ascii "http://[a/b]/")).all (fun parsed =>
      decide (httpUrlSerialize parsed 2048 = some (ascii "http://a/b/") ∧
        httpUrlParse (ascii "http://a/b/") ≠ some parsed)) = true := by decide +kernel
  rw [is] at facts
  obtain ⟨writes, differs⟩ := of_decide_eq_true facts
  exact ⟨parsed, _, is, writes, rfl, differs⟩

end Xylem.Http
