import Xylem.Crypto.Sha1Correct
import Xylem.Encoding.Base64
import Xylem.Http.Url
import Xylem.Lib.Separated

namespace Xylem.Ws

open Lib Xylem.Crypto Xylem.Encoding List

def wsHandshakeGuid : List UInt8 := ascii "258EAFA5-E914-47DA-95CA-5AB9DC63B5E0"

variable (key : List UInt8)

/-- `ws_handshake_compute_accept`: the text before the terminator, or `none` if it has no room. -/
def wsHandshakeComputeAccept (outSize : Nat) : Option (List UInt8) :=
  if outSize < 29 then none
  else
    let digest := sha1Final (sha1Update (sha1Update sha1Create key) wsHandshakeGuid)
    base64EncodeStd digest 32

def wsHandshakeValidateAccept (expectedKey acceptValue : List UInt8) : Bool :=
  match wsHandshakeComputeAccept expectedKey 29 with
  | none => false
  | some computed => computed == acceptValue

/-- The identifier that the protocol fixes. -/
def protocolGuid : List UInt8 := ascii "258EAFA5-E914-47DA-95CA-C5AB0DC85B11"

/-- The accept key that the protocol asks for. -/
def acceptKey : List UInt8 := Base64.encode (Sha1.sha1 (key ++ protocolGuid))

theorem digest_length (words : Sha1.Words) : words.digest.length = 20 := by
  simp only [Sha1.Words.digest, length_append, Sha1.bigEndian_length]

/-- The function computes what the protocol asks for, with the identifier of the source. -/
theorem wsHandshakeComputeAccept_eq {outSize : Nat} (room : 29 ≤ outSize) :
    wsHandshakeComputeAccept key outSize = some (Base64.encode (Sha1.sha1 (key ++ wsHandshakeGuid))) := by
  rw [wsHandshakeComputeAccept, if_neg (by omega), sha1_two_updates]
  refine base64EncodeStd_eq ?_
  rw [Sha1.sha1, digest_length]
  decide

/-- A client takes the answer of a server with the same identifier, and no other. -/
theorem wsHandshakeValidateAccept_iff (key value : List UInt8) :
    wsHandshakeValidateAccept key value = true ↔ value = Base64.encode (Sha1.sha1 (key ++ wsHandshakeGuid)) := by
  rw [wsHandshakeValidateAccept, wsHandshakeComputeAccept_eq key (Nat.le_refl 29)]
  exact beq_iff_eq.trans eq_comm

/-- The accept key is that of the protocol for the keys whose hash does not tell the two identifiers apart. -/
theorem ws_accept_key (key : List UInt8) (outSize : Nat) : wsHandshakeComputeAccept key outSize = some (acceptKey key) ↔
      29 ≤ outSize ∧ Sha1.sha1 (key ++ wsHandshakeGuid) = Sha1.sha1 (key ++ protocolGuid) := by
  by_cases room : 29 ≤ outSize
  · rw [wsHandshakeComputeAccept_eq key room, Option.some_inj, acceptKey]
    refine ⟨fun same => ⟨room, Base64.encode_inj ?_ same⟩, fun same => congrArg Base64.encode same.2⟩
    rw [Sha1.sha1, Sha1.sha1, digest_length, digest_length]
  · refine iff_of_false ?_ fun both => room both.1
    simp [wsHandshakeComputeAccept, show outSize < 29 by omega]

/-- The key of the example in the protocol, which has to be answered by `s3pPLMBiTxaQ9kYGzzhZRbK+xOo=`. -/
theorem ws_accept_key_sample : acceptKey (ascii "dGhlIHNhbXBsZSBub25jZQ==") = ascii "s3pPLMBiTxaQ9kYGzzhZRbK+xOo=" ∧
    wsHandshakeComputeAccept (ascii "dGhlIHNhbXBsZSBub25jZQ==") 29 ≠
      some (acceptKey (ascii "dGhlIHNhbXBsZSBub25jZQ==")) := by
  have required : acceptKey (ascii "dGhlIHNhbXBsZSBub25jZQ==") = ascii "s3pPLMBiTxaQ9kYGzzhZRbK+xOo=" := by
    rw [acceptKey, ← sha1_two_updates]
    decide +kernel
  refine ⟨required, ?_⟩
  rw [required]
  decide +kernel

/-- The pointer moved past blanks and commas; `none` is a read behind the terminator. -/
def wsHandshakeSkip : List UInt8 → Option (List UInt8)
  | [] => none
  | c :: rest => if c ∈ ascii " \t," then wsHandshakeSkip rest else some (c :: rest)

/-- What `strchr` and `strlen` pass over up to the next comma or the terminator, and the text from there on. -/
def wsHandshakeElement : List UInt8 → Option (List UInt8 × List UInt8)
  | [] => none
  | c :: rest =>
    if c = 0x2c ∨ c = 0 then some ([], c :: rest)
    else (wsHandshakeElement rest).map fun (raw, tail) => (c :: raw, tail)

/-- The loop of `_ws_handshake_has_token` over a terminated text; `none` is a read behind the terminator, or more than
`rounds` rounds. -/
def wsHandshakeTokenLoop (token : List UInt8) : (rounds : Nat) → List UInt8 → Option Bool
  | 0, _ | _, [] => none
  | rounds + 1, c :: text =>
    if c = 0 then some false
    else do
      let value ← wsHandshakeSkip (c :: text)
      let (raw, tail) ← wsHandshakeElement value
      if Http.httpHeaderEq (raw.reverse.dropWhile (· ∈ ascii " \t")).reverse token then some true
      else
        let last ← tail.head?
        wsHandshakeTokenLoop token rounds (if last ≠ 0 then tail.tail else tail)

/-- `_ws_handshake_has_token` of the text before a terminator. Every round has a character. -/
def wsHandshakeHasToken (value : Option (List UInt8)) (token : List UInt8) : Option Bool :=
  match value with
  | none => some false
  | some text => wsHandshakeTokenLoop token (text.length + 1) (text ++ [0])

variable {text token : List UInt8}

theorem wsHandshakeSkip_eq (text : List UInt8) :
    wsHandshakeSkip (text ++ [0]) = some (text.dropWhile (· ∈ ascii " \t,") ++ [0]) := by
  induction text with
  | nil => rfl
  | cons c rest ih =>
    rw [cons_append, wsHandshakeSkip, ih]
    by_cases skipped : c ∈ ascii " \t,"
    · rw [if_pos skipped, dropWhile_cons_of_pos (by simpa using skipped)]
    · rw [if_neg skipped, dropWhile_cons_of_neg (by simpa using skipped)]
      rfl

theorem wsHandshakeElement_eq (plain : 0 ∉ text) :
    wsHandshakeElement (text ++ [0]) = some (text.takeWhile (· ≠ 0x2c), text.dropWhile (· ≠ 0x2c) ++ [0]) := by
  induction text with
  | nil => rfl
  | cons c rest ih =>
    obtain ⟨other, plain⟩ := ne_and_not_mem_of_not_mem_cons plain
    rw [cons_append, wsHandshakeElement, ih plain]
    by_cases comma : c = 0x2c
    · rw [if_pos (.inl comma), takeWhile_cons_of_neg (by simpa using comma),
        dropWhile_cons_of_neg (by simpa using comma)]
      rfl
    · rw [if_neg (not_or.mpr ⟨comma, other.symm⟩), takeWhile_cons_of_pos (by simpa using comma),
        dropWhile_cons_of_pos (by simpa using comma)]
      rfl

theorem wsHandshakeTokenLoop_eq (some_ : token ≠ []) {rounds : Nat} (enough : text.length < rounds) (plain : 0 ∉ text) :
    wsHandshakeTokenLoop token rounds (text ++ [0]) =
      some ((elements 0x2c (· ∈ ascii " \t") text).any (Http.httpHeaderEq · token)) := by
  have empty : Http.httpHeaderEq [] token = false := by
    rw [← Bool.not_eq_true, Http.httpHeaderEq_iff]
    simpa using some_.symm
  induction rounds generalizing text with
  | zero => omega
  | succ rounds ih =>
    cases text with
    | nil => rfl
    | cons c rest =>
      have shorter := (dropWhile_suffix (fun x : UInt8 => decide (x ∈ ascii " \t,")) (l := c :: rest)).sublist
      have head := List.head?_dropWhile_not (fun x : UInt8 => decide (x ∈ ascii " \t,")) (c :: rest)
      obtain ⟨other, _⟩ := ne_and_not_mem_of_not_mem_cons plain
      rw [cons_append, wsHandshakeTokenLoop, if_neg other.symm, ← cons_append, wsHandshakeSkip_eq,
        ← elements_skip fun c (skipped : decide (c ∈ ascii " \t,") = true) => by
          simpa [ascii, or_assoc] using skipped]
      rw [length_cons] at enough
      obtain ⟨more, rfl⟩ : ∃ n, rounds = n + 1 := ⟨rounds - 1, by omega⟩
      rw [Option.bind_eq_bind, Option.bind_some]
      generalize (c :: rest).dropWhile (· ∈ ascii " \t,") = start at head shorter
      have plain : 0 ∉ start := fun isIn => plain (shorter.subset isIn)
      rw [wsHandshakeElement_eq plain, Option.bind_eq_bind, Option.bind_some]
      cases start with
      | nil => exact (if_neg (Bool.eq_false_iff.mp empty)).trans rfl
      | cons d text =>
        have starts : d ∉ ascii " \t," := by simpa using head
        have notBlank : d ∉ ascii " \t" := fun isIn => starts (by revert isIn; simp [ascii]; tauto)
        have notComma : d ≠ 0x2c := fun is => starts (by rw [is]; decide)
        rw [elements_cons (by simpa using notBlank) notComma, any_cons]
        dsimp only
        split
        · rename_i found
          rw [found, Bool.true_or]
        · rename_i missed
          rw [Bool.eq_false_iff.mpr missed, Bool.false_or]
          have length := shorter.length_le
          have less := (dropWhile_suffix (fun x : UInt8 => decide (x ≠ 0x2c)) (l := d :: text)).sublist
          have comma := List.head?_dropWhile_not (fun x : UInt8 => decide (x ≠ 0x2c)) (d :: text)
          generalize (d :: text).dropWhile (· ≠ 0x2c) = tail at comma less
          cases tail with
          | nil => rfl
          | cons e after =>
            obtain rfl : e = 0x2c := by simpa using comma
            have fewer := less.length_le
            simp only [length_cons] at length fewer
            rw [elements_sep, ← ih (by omega) fun isIn => plain (less.subset (.tail _ isIn))]
            rfl

/-- The test is for an element of the list that is the token but for case. It ends and reads no further than the
terminator; an empty element between commas is passed over, so the token has to have a character. -/
theorem ws_handshake_has_token (text token : List UInt8) (plain : 0 ∉ text) (some_ : token ≠ []) :
    ∃ found, wsHandshakeHasToken (some text) token = some found ∧ (found = true ↔ ∃ element ∈ text.splitOn 0x2c,
      (trim (· ∈ ascii " \t") element).map Http.httpLower = token.map Http.httpLower) := by
  refine ⟨_, wsHandshakeTokenLoop_eq some_ (Nat.lt_succ_self _) plain, ?_⟩
  simp only [List.any_eq_true, elements, List.mem_filter, List.mem_map, Http.httpHeaderEq_iff, decide_eq_true_iff]
  constructor
  · rintro ⟨_, ⟨⟨element, isIn, rfl⟩, -⟩, same⟩
    exact ⟨element, isIn, same⟩
  · rintro ⟨element, isIn, same⟩
    refine ⟨_, ⟨⟨element, isIn, rfl⟩, fun none_ => some_ ?_⟩, same⟩
    rw [none_] at same
    exact List.map_eq_nil_iff.mp same.symm

theorem ws_handshake_has_token_upgrade :
    wsHandshakeHasToken (some (ascii "keep-alive,, Upgrade\t")) (ascii "upgrade") = some true := by
  obtain ⟨found, is, exactly⟩ :=
    ws_handshake_has_token (ascii "keep-alive,, Upgrade\t") (ascii "upgrade") (by decide) (by decide)
  rw [is, exactly.mpr ⟨ascii " Upgrade\t", by decide +kernel, by decide +kernel⟩]

end Xylem.Ws
