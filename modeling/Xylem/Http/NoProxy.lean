import Xylem.Http.Url
import Xylem.Lib.Separated

namespace Xylem.Http

open Lib List Bool

variable (host entry : List UInt8)

/-- The test of one entry in `_http_no_proxy_match`. -/
def httpNoProxyEntry : Bool :=
  entry = ascii "*" ||
    (entry.length ≤ host.length && httpHeaderEq (host.drop (host.length - entry.length)) entry &&
      (entry.length == host.length || host[host.length - entry.length - 1]? == some 0x2e))

/-- The loop of `_http_no_proxy_match`, of at most `rounds` entries. -/
def httpNoProxyLoop (host : List UInt8) : (rounds : Nat) → List UInt8 → Bool
  | 0, _ => false
  | rounds + 1, p =>
    let start := p.dropWhile (· ∈ ascii " ,")
    if start = [] then false
    else
      let raw := start.takeWhile (· ≠ 0x2c)
      let entry := (raw.reverse.dropWhile (· = 0x20)).reverse
      httpNoProxyEntry host entry || httpNoProxyLoop host rounds (start.dropWhile (· ≠ 0x2c))

/-- `_http_no_proxy_match`. Every entry has a character, so that there are no more rounds than characters. -/
def httpNoProxyMatch (host noProxy : List UInt8) : Bool := httpNoProxyLoop host noProxy.length noProxy

/-- The entries of a comma-separated list, without the blanks around them. -/
def noProxyEntries : List UInt8 → List (List UInt8) := elements 0x2c (· = 0x20)

/-- The host is the domain or lies in it. -/
def InDomain (host domain : List UInt8) : Prop :=
  domain.map httpLower = host.map httpLower ∨ (0x2e :: domain).map httpLower <:+ host.map httpLower

def withoutDot : List UInt8 → List UInt8
  | 0x2e :: domain => domain
  | entry => entry

/-- What an entry says: every host, the host itself, or a domain with or without a leading dot. -/
def NoProxyCovers : Prop :=
  entry = ascii "*" ∨ entry.map httpLower = host.map httpLower ∨ InDomain host (withoutDot entry)

variable {host entry : List UInt8}

theorem httpNoProxyLoop_iff {rounds : Nat} {p : List UInt8} (enough : p.length ≤ rounds) :
    httpNoProxyLoop host rounds p = true ↔
      ∃ entry ∈ elements 0x2c (· = 0x20) p, httpNoProxyEntry host entry = true := by
  induction rounds generalizing p with
  | zero =>
    obtain rfl : p = [] := length_eq_zero_iff.mp (by omega)
    simp [httpNoProxyLoop, elements, trim]
  | succ rounds ih =>
    have shorter := (dropWhile_suffix (fun x : UInt8 => decide (x ∈ ascii " ,")) (l := p)).length_le
    have head := List.head?_dropWhile_not (fun x : UInt8 => decide (x ∈ ascii " ,")) p
    rw [httpNoProxyLoop, ← elements_skip fun c (skipped : decide (c ∈ ascii " ,") = true) => by simpa [ascii] using skipped]
    cases start : p.dropWhile (· ∈ ascii " ,") with
    | nil => simp [elements, trim]
    | cons c text =>
      rw [start] at head shorter
      have starts : c ∉ ascii " ," := by simpa using head
      have notBlank : c ≠ 0x20 := fun is => starts (by rw [is]; decide)
      have notComma : c ≠ 0x2c := fun is => starts (by rw [is]; decide)
      have less := (dropWhile_suffix (fun x : UInt8 => decide (x ≠ 0x2c)) (l := text)).length_le
      rw [length_cons] at shorter
      dsimp only
      rw [if_neg (cons_ne_nil c text), or_eq_true, elements_cons (by simpa using notBlank) notComma, exists_mem_cons_iff,
        ih (by rw [dropWhile_cons_of_pos (by simpa using notComma)]; omega)]

theorem httpLower_eq_dot {c : UInt8} : httpLower c = 0x2e ↔ c = 0x2e := by
  have all : ∀ c : Fin 256, httpLower (UInt8.ofFin c) = 0x2e ↔ UInt8.ofFin c = 0x2e := by decide +kernel
  have here := all c.toFin
  rwa [UInt8.ofFin_toFin] at here

/-- An entry is compared with the end of the host as it stands, its leading dot included. -/
theorem httpNoProxyEntry_iff : httpNoProxyEntry host entry = true ↔ entry = ascii "*" ∨ InDomain host entry := by
  rw [httpNoProxyEntry, or_eq_true, decide_eq_true_eq]
  refine or_congr_right ?_
  rw [and_eq_true, and_eq_true, or_eq_true, decide_eq_true_eq, beq_iff_eq, beq_iff_eq, httpHeaderEq_iff]
  unfold InDomain
  constructor
  · rintro ⟨⟨fits, same⟩, boundary⟩
    by_cases whole : entry.length = host.length
    · left
      rw [whole, Nat.sub_self, drop_zero] at same
      exact same.symm
    · right
      obtain ⟨inside, dot⟩ := List.getElem?_eq_some_iff.mp (boundary.resolve_left whole)
      have next : host.length - entry.length - 1 + 1 = host.length - entry.length := by omega
      have tail := drop_eq_getElem_cons inside
      rw [next, dot] at tail
      have mapped : (0x2e :: entry).map httpLower = (host.drop (host.length - entry.length - 1)).map httpLower := by
        rw [tail, map_cons, map_cons, same]
      rw [mapped]
      exact (drop_suffix ..).map _
  · rintro (same | within)
    · have length : entry.length = host.length := by simpa using congrArg List.length same
      rw [length, Nat.sub_self, drop_zero]
      exact ⟨⟨Nat.le_refl _, same.symm⟩, .inl rfl⟩
    · have fits : entry.length + 1 ≤ host.length := by simpa using within.length_le
      have tail := suffix_iff_eq_drop.mp within
      rw [length_map, length_map, ← map_drop, length_cons] at tail
      have inside : host.length - (entry.length + 1) < host.length := by omega
      have next : host.length - (entry.length + 1) + 1 = host.length - entry.length := by omega
      rw [drop_eq_getElem_cons inside, next, map_cons, map_cons] at tail
      obtain ⟨dot, same⟩ := List.cons.inj tail
      refine ⟨⟨by omega, same.symm⟩, .inr (List.getElem?_eq_some_iff.mpr ⟨by omega, ?_⟩)⟩
      exact httpLower_eq_dot.mp dot.symm

/-- A leading dot only ever takes hosts away: what an entry matches as it stands, it covers. -/
theorem InDomain.withoutDot (inside : InDomain host entry) :
    entry.map httpLower = host.map httpLower ∨ InDomain host (withoutDot entry) := by
  rcases inside with same | within
  · exact .inl same
  · unfold Http.withoutDot
    split
    · rename_i domain
      exact .inr (.inr ((suffix_cons ..).trans within))
    · exact .inr (.inr within)

/-- `_http_no_proxy_match` agrees with what the entries say exactly if an entry with a leading dot whose domain the host
lies in is not the only one that covers it. -/
theorem http_no_proxy_match (host noProxy : List UInt8) :
    (httpNoProxyMatch host noProxy = true ↔ ∃ entry ∈ noProxyEntries noProxy, NoProxyCovers host entry) ↔
      ∀ domain, 0x2e :: domain ∈ noProxyEntries noProxy → InDomain host domain →
        ∃ entry ∈ noProxyEntries noProxy, entry = ascii "*" ∨ InDomain host entry := by
  have plain : httpNoProxyMatch host noProxy = true ↔
      ∃ entry ∈ noProxyEntries noProxy, entry = ascii "*" ∨ InDomain host entry := by
    rw [httpNoProxyMatch, httpNoProxyLoop_iff (Nat.le_refl _)]
    simp only [httpNoProxyEntry_iff]
    rfl
  rw [plain]
  constructor
  · intro agree domain isIn inside
    exact agree.mpr ⟨0x2e :: domain, isIn, .inr (.inr inside)⟩
  · intro covered
    constructor
    · rintro ⟨entry, isIn, all | inside⟩
      · exact ⟨entry, isIn, .inl all⟩
      · exact ⟨entry, isIn, .inr inside.withoutDot⟩
    · rintro ⟨entry, isIn, all | same | inside⟩
      · exact ⟨entry, isIn, .inl all⟩
      · exact ⟨entry, isIn, .inr (.inl same)⟩
      · unfold withoutDot at inside
        split at inside
        · exact covered _ isIn inside
        · exact ⟨entry, isIn, .inr inside⟩

/-- The entry of the comment in `_http_no_proxy_match`, which does not match the host of the comment. -/
theorem http_no_proxy_match_dot : httpNoProxyMatch (ascii "foo.example.com") (ascii ".example.com") = false ∧
    ∃ entry ∈ noProxyEntries (ascii ".example.com"), NoProxyCovers (ascii "foo.example.com") entry := by
  refine ⟨by decide +kernel, ascii ".example.com", by decide +kernel, .inr (.inr (.inr ?_))⟩
  exact ⟨ascii "foo", by decide +kernel⟩

end Xylem.Http
