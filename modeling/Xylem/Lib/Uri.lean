import Xylem.Lib.Ascii

namespace Xylem.Lib.Uri

open List Bool

variable (c : UInt8)

def isAlpha : Bool := (0x41 ≤ c && c ≤ 0x5a) || (0x61 ≤ c && c ≤ 0x7a)

def isHexDigit : Bool := isDigit c || (0x41 ≤ c && c ≤ 0x46) || (0x61 ≤ c && c ≤ 0x66)

/-- `unreserved` of RFC 3986. -/
def unreserved : Bool := isAlpha c || isDigit c || c ∈ ascii "-._~"

/-- `sub-delims` of RFC 3986. -/
def subDelim : Bool := c ∈ ascii "!$&'()*+,;="

/-- A row of the given characters and of percent-encoded ones. -/
def encoded (plain : UInt8 → Bool) : List UInt8 → Bool
  | 0x25 :: high :: low :: rest => isHexDigit high && isHexDigit low && encoded plain rest
  | c :: rest => plain c && encoded plain rest
  | [] => true

/-- `reg-name` of RFC 3986, which an IPv4 address is as well. -/
def regName (name : List UInt8) : Bool := encoded (fun c => unreserved c || subDelim c) name

def portNumber : List UInt8 → Option Nat
  | 0x3a :: digits => if digits ≠ [] ∧ digits.all isDigit then some (decimal digits) else none
  | _ => none

/-- An authority of a host and a port, read by the grammar of RFC 3986: an IP literal in brackets or a name. -/
def hostPort (ipLiteral : List UInt8 → Bool) : List UInt8 → Option (List UInt8 × Nat)
  | 0x5b :: rest =>
    if 0x5d ∈ rest ∧ ipLiteral (rest.takeWhile (· ≠ 0x5d)) then
      (portNumber ((rest.dropWhile (· ≠ 0x5d)).drop 1)).map fun port => (rest.takeWhile (· ≠ 0x5d), port)
    else none
  | text =>
    if regName (text.takeWhile (· ≠ 0x3a)) then
      (portNumber (text.dropWhile (· ≠ 0x3a))).map fun port => (text.takeWhile (· ≠ 0x3a), port)
    else none

theorem encoded_mem {plain : UInt8 → Bool} {text : List UInt8} (ok : encoded plain text = true) {c : UInt8}
    (isIn : c ∈ text) : plain c = true ∨ c = 0x25 ∨ isHexDigit c = true := by
  fun_induction encoded plain text with
  | case1 high low rest ih =>
    rw [and_eq_true, and_eq_true] at ok
    rcases mem_cons.mp isIn with rfl | isIn
    · exact .inr (.inl rfl)
    rcases mem_cons.mp isIn with rfl | isIn
    · exact .inr (.inr ok.1.1)
    rcases mem_cons.mp isIn with rfl | isIn
    · exact .inr (.inr ok.1.2)
    · exact ih ok.2 isIn
  | case2 first rest other ih =>
    rw [and_eq_true] at ok
    rcases mem_cons.mp isIn with rfl | isIn
    · exact .inl ok.1
    · exact ih ok.2 isIn
  | case3 => cases isIn

/-- A host in front of a port is read back exactly if it is a name. -/
theorem hostPort_name {ipLiteral : List UInt8 → Bool} {host : List UInt8} {port : Nat}
    (first : host.head? ≠ some 0x5b) :
    hostPort ipLiteral (host ++ 0x3a :: printed port) = some (host, port) ↔ regName host = true := by
  have text : hostPort ipLiteral (host ++ 0x3a :: printed port) =
      if regName ((host ++ 0x3a :: printed port).takeWhile (· ≠ 0x3a)) then
        (portNumber ((host ++ 0x3a :: printed port).dropWhile (· ≠ 0x3a))).map fun number =>
          ((host ++ 0x3a :: printed port).takeWhile (· ≠ 0x3a), number)
      else none := by
    cases host with
    | nil => rfl
    | cons c rest =>
      rw [cons_append]
      unfold hostPort
      split
      · rename_i same
        exact absurd (by rw [(List.cons.inj same).1]; rfl) first
      · rfl
  have cut : 0x3a ∉ host → (host ++ 0x3a :: printed port).takeWhile (· ≠ 0x3a) = host ∧
      (host ++ 0x3a :: printed port).dropWhile (· ≠ 0x3a) = 0x3a :: printed port := by
    intro absent
    have all : ∀ c ∈ host, decide (c ≠ 0x3a) = true := fun c isIn =>
      decide_eq_true (p := c ≠ 0x3a) fun is => absent (is ▸ isIn)
    rw [takeWhile_append_of_pos all, dropWhile_append_of_pos all,
      takeWhile_cons_of_neg (by decide), dropWhile_cons_of_neg (by decide), append_nil]
    exact ⟨rfl, rfl⟩
  constructor
  · intro reads
    rw [text] at reads
    obtain ⟨ok, reads⟩ := Option.ite_none_right_eq_some.mp reads
    obtain ⟨number, -, same⟩ := Option.map_eq_some_iff.mp reads
    rw [(Prod.mk.inj same).1] at ok
    exact ok
  · intro ok
    obtain ⟨front, back⟩ := cut fun isIn => absurd (encoded_mem ok isIn) (by decide)
    have digits : (printed port) ≠ [] ∧ (printed port).all isDigit = true := by
      refine ⟨fun none => ?_, all_eq_true.mpr fun c isIn => printed_isDigit isIn⟩
      have length : (printed port).length = (Nat.toDigits 10 port).length := by rw [printed_eq, length_map]
      have some_ := @Nat.length_toDigits_pos 10 port
      rw [none, length_nil] at length
      omega
    rw [text, front, back, if_pos ok, portNumber, if_pos digits, decimal_printed]
    rfl

end Xylem.Lib.Uri
