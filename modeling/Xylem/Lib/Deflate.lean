import Mathlib.Data.List.GetD

namespace Xylem.Lib.Deflate

open List Option

/-- A symbol of a compressed block: a byte, or a copy of `extra + 3` bytes from `dist` bytes back. -/
inductive Token
  | literal (byte : UInt8)
  | copy (dist extra : Nat)
deriving DecidableEq

structure Block where
  final : Bool
  tokens : List Token
deriving DecidableEq

/-- The size of the window that a copy may reach back into. -/
def windowSize : Nat := 32768

def copyBytes (out : List UInt8) (dist : Nat) : Nat → List UInt8
  | 0 => out
  | n + 1 => copyBytes (out ++ [out.getD (out.length - dist) 0]) dist n

variable (out : List UInt8)

/-- Appends what a token stands for to the bytes before it; a copy from before the first byte is an error. -/
def Token.emit : Token → Option (List UInt8)
  | .literal byte => some (out ++ [byte])
  | .copy dist extra =>
    if dist = 0 ∨ windowSize < dist ∨ out.length < dist then none else some (copyBytes out dist (extra + 3))

def emitAll (tokens : List Token) : Option (List UInt8) := tokens.foldlM Token.emit out

variable (blocks : List Block)

/-- The tokens of a sequence of blocks, whether or not a block is marked final. -/
def tokensOf : List Token := blocks.flatMap Block.tokens

/-- The blocks up to and including the first that is marked final. -/
def upToFinal : List Block → List Block
  | [] => []
  | block :: rest => if block.final then [block] else block :: upToFinal rest

/-- The blocks after the first that is marked final. -/
def afterFinal : List Block → List Block
  | [] => []
  | block :: rest => if block.final then rest else afterFinal rest

theorem tokensOf_upToFinal_append : tokensOf (upToFinal blocks) ++ tokensOf (afterFinal blocks) = tokensOf blocks := by
  induction blocks with
  | nil => rfl
  | cons block rest ih =>
    unfold upToFinal afterFinal
    split
    · simp [tokensOf]
    · simp only [tokensOf, flatMap_cons, append_assoc] at ih ⊢
      rw [ih]

theorem copyBytes_prepend (before out : List UInt8) {dist : Nat} (within : dist ≤ out.length)
    (n : Nat) : copyBytes (before ++ out) dist n = before ++ copyBytes out dist n := by
  induction n generalizing out with
  | zero => rfl
  | succ n ih =>
    have same : (before ++ out).getD ((before ++ out).length - dist) 0 = out.getD (out.length - dist) 0 := by
      rw [length_append, getD_append_right _ _ _ _ (by omega)]
      congr 1
      omega
    rw [copyBytes, copyBytes, same, append_assoc]
    exact ih (out ++ [out.getD (out.length - dist) 0]) (by rw [length_append]; omega)

theorem copyBytes_extends (dist n : Nat) : ∃ more, copyBytes out dist n = out ++ more ∧ more.length = n := by
  induction n generalizing out with
  | zero => exact ⟨[], (append_nil out).symm, rfl⟩
  | succ n ih =>
    obtain ⟨more, is, length⟩ := ih (out ++ [out.getD (out.length - dist) 0])
    exact ⟨_ :: more, by rw [copyBytes, is, append_assoc]; rfl, by rw [length_cons, length]⟩

variable {out result : List UInt8} {token : Token} (before : List UInt8) {tokens : List Token}

theorem Token.emit_extends (emits : token.emit out = some result) : ∃ more, result = out ++ more ∧ more ≠ [] := by
  cases token with
  | literal byte =>
    cases emits
    exact ⟨[byte], rfl, cons_ne_nil _ _⟩
  | copy dist extra =>
    simp only [Token.emit] at emits
    split at emits
    · cases emits
    · cases emits
      obtain ⟨more, is, length⟩ := copyBytes_extends out dist (extra + 3)
      refine ⟨more, is, fun empty => ?_⟩
      rw [empty] at length
      cases length

theorem Token.emit_prepend (emits : token.emit out = some result) :
    token.emit (before ++ out) = some (before ++ result) := by
  cases token with
  | literal byte =>
    cases emits
    exact congrArg some (append_assoc ..)
  | copy dist extra =>
    simp only [Token.emit] at emits ⊢
    split at emits
    · cases emits
    · rename_i sound
      cases emits
      rw [if_neg (by rw [length_append]; omega), copyBytes_prepend before out (by omega)]

theorem emitAll_cons (out : List UInt8) (token : Token) (rest : List Token) :
    emitAll out (token :: rest) = (token.emit out).bind fun out => emitAll out rest := rfl

theorem emitAll_append (out : List UInt8) (first second : List Token) :
    emitAll out (first ++ second) = (emitAll out first).bind fun out => emitAll out second := by
  induction first generalizing out with
  | nil => rfl
  | cons token rest ih =>
    rw [cons_append, emitAll_cons, emitAll_cons]
    cases token.emit out with
    | none => rfl
    | some out => exact ih out

theorem emitAll_prepend (emits : emitAll out tokens = some result) :
    emitAll (before ++ out) tokens = some (before ++ result) := by
  induction tokens generalizing out with
  | nil =>
    cases emits
    rfl
  | cons token rest ih =>
    obtain ⟨next, first, later⟩ := bind_eq_some_iff.mp emits
    rw [emitAll_cons, Token.emit_prepend before first]
    exact ih later

theorem emitAll_extends (emits : emitAll out tokens = some result) :
    ∃ more, result = out ++ more ∧ (more = [] ↔ tokens = []) := by
  induction tokens generalizing out with
  | nil =>
    cases emits
    exact ⟨[], (append_nil _).symm, iff_of_true rfl rfl⟩
  | cons token rest ih =>
    obtain ⟨next, first, later⟩ := bind_eq_some_iff.mp emits
    obtain ⟨byte, is, some_⟩ := Token.emit_extends first
    obtain ⟨more, longer, -⟩ := ih later
    exact ⟨byte ++ more, by rw [longer, is, append_assoc], by simp [some_]⟩

section Bits

variable (bytes : List UInt8)

def bitsOf : List Bool :=
  bytes.flatMap fun byte => (List.range 8).map fun i => byte.toNat.testBit i

def readBits : Nat → List Bool → Option (Nat × List Bool)
  | 0, bits => some (0, bits)
  | _ + 1, [] => none
  | n + 1, bit :: bits => (readBits n bits).map fun (value, rest) => (bit.toNat + 2 * value, rest)

/-- The walk over the canonical code of the given lengths, one bit a round. -/
def readSymbolFrom (lengths : List Nat) : Nat → Nat → Nat → Nat → List Bool → Option (Nat × List Bool)
  | 0, _, _, _, _ => none
  | _ + 1, _, _, _, [] => none
  | rounds + 1, len, code, first, bit :: bits =>
    let code := 2 * code + bit.toNat
    let symbols := (lengths.zipIdx.filter fun entry => entry.1 == len).map Prod.snd
    if code < first + symbols.length then (symbols[code - first]?).map fun symbol => (symbol, bits)
    else readSymbolFrom lengths rounds (len + 1) code (2 * (first + symbols.length)) bits

def readSymbol (lengths : List Nat) (bits : List Bool) : Option (Nat × List Bool) :=
  readSymbolFrom lengths 15 1 0 0 bits

/-- Base and number of extra bits of the length symbols from 257 on. -/
def lengthTable : List (Nat × Nat) :=
  [(3, 0), (4, 0), (5, 0), (6, 0), (7, 0), (8, 0), (9, 0), (10, 0), (11, 1), (13, 1), (15, 1), (17, 1), (19, 2),
    (23, 2), (27, 2), (31, 2), (35, 3), (43, 3), (51, 3), (59, 3), (67, 4), (83, 4), (99, 4), (115, 4), (131, 5),
    (163, 5), (195, 5), (227, 5), (258, 0)]

/-- Base and number of extra bits of the distance symbols. -/
def distTable : List (Nat × Nat) :=
  [(1, 0), (2, 0), (3, 0), (4, 0), (5, 1), (7, 1), (9, 2), (13, 2), (17, 3), (25, 3), (33, 4), (49, 4), (65, 5),
    (97, 5), (129, 6), (193, 6), (257, 7), (385, 7), (513, 8), (769, 8), (1025, 9), (1537, 9), (2049, 10), (3073, 10),
    (4097, 11), (6145, 11), (8193, 12), (12289, 12), (16385, 13), (24577, 13)]

def readExtra (table : List (Nat × Nat)) (index : Nat) (bits : List Bool) : Option (Nat × List Bool) := do
  let (base, width) ← table[index]?
  let (extra, bits) ← readBits width bits
  return (base + extra, bits)

/-- The tokens of a compressed block, up to its end symbol. -/
def readTokens (litLengths distLengths : List Nat) : Nat → List Bool → Option (List Token × List Bool)
  | 0, _ => none
  | rounds + 1, bits => do
    let (symbol, bits) ← readSymbol litLengths bits
    if symbol = 256 then return ([], bits)
    else if symbol < 256 then
      let (tokens, bits) ← readTokens litLengths distLengths rounds bits
      return (.literal (UInt8.ofNat symbol) :: tokens, bits)
    else
      let (len, bits) ← readExtra lengthTable (symbol - 257) bits
      let (symbol, bits) ← readSymbol distLengths bits
      let (dist, bits) ← readExtra distTable symbol bits
      let (tokens, bits) ← readTokens litLengths distLengths rounds bits
      return (.copy dist (len - 3) :: tokens, bits)

def fixedLitLengths : List Nat :=
  List.replicate 144 8 ++ List.replicate 112 9 ++ List.replicate 24 7 ++ List.replicate 8 8

def fixedDistLengths : List Nat := List.replicate 30 5

/-- The code lengths of a dynamic block, which are themselves run-length coded. -/
def readLengths (codeLengths : List Nat) : Nat → Nat → List Nat → List Bool → Option (List Nat × List Bool)
  | 0, _, _, _ => none
  | rounds + 1, count, lengths, bits =>
    if count ≤ lengths.length then (if lengths.length = count then some (lengths, bits) else none)
    else do
      let (symbol, bits) ← readSymbol codeLengths bits
      if symbol < 16 then readLengths codeLengths rounds count (lengths ++ [symbol]) bits
      else if symbol = 16 then
        let last ← lengths.getLast?
        let (extra, bits) ← readBits 2 bits
        readLengths codeLengths rounds count (lengths ++ List.replicate (extra + 3) last) bits
      else if symbol = 17 then
        let (extra, bits) ← readBits 3 bits
        readLengths codeLengths rounds count (lengths ++ List.replicate (extra + 3) 0) bits
      else
        let (extra, bits) ← readBits 7 bits
        readLengths codeLengths rounds count (lengths ++ List.replicate (extra + 11) 0) bits

/-- The order in which the lengths of the code-length code are given. -/
def codeLengthOrder : List Nat := [16, 17, 18, 0, 8, 7, 9, 6, 10, 5, 11, 4, 12, 3, 13, 2, 14, 1, 15]

def readCodeLengths : List Nat → List Bool → Option (List (Nat × Nat) × List Bool)
  | [], bits => some ([], bits)
  | symbol :: rest, bits => do
    let (len, bits) ← readBits 3 bits
    let (entries, bits) ← readCodeLengths rest bits
    return ((symbol, len) :: entries, bits)

variable (bits : List Bool)

def readDynamic : Option ((List Nat × List Nat) × List Bool) := do
  let (hlit, bits) ← readBits 5 bits
  let (hdist, bits) ← readBits 5 bits
  let (hclen, bits) ← readBits 4 bits
  let (entries, bits) ← readCodeLengths (codeLengthOrder.take (hclen + 4)) bits
  let codeLengths := (List.range 19).map fun symbol => (entries.lookup symbol).getD 0
  let (lengths, bits) ← readLengths codeLengths (hlit + hdist + 259) (hlit + hdist + 258) [] bits
  return ((lengths.take (hlit + 257), lengths.drop (hlit + 257)), bits)

def readBytes : Nat → List Bool → Option (List Token × List Bool)
  | 0, bits => some ([], bits)
  | n + 1, bits => do
    let (byte, bits) ← readBits 8 bits
    let (tokens, bits) ← readBytes n bits
    return (.literal (UInt8.ofNat byte) :: tokens, bits)

/-- Drops the bits up to the next byte; the whole input is made of bytes. -/
def align : List Bool := bits.drop (bits.length % 8)

def readStored : Option (List Token × List Bool) := do
  let (len, bits) ← readBits 16 (align bits)
  let (nlen, bits) ← readBits 16 bits
  if len + nlen = 65535 then readBytes len bits else none

def readBlock : Option (Block × List Bool) := do
  let (final, bits) ← readBits 1 bits
  let (kind, bits) ← readBits 2 bits
  let (tokens, bits) ← match kind with
    | 0 => readStored bits
    | 1 => readTokens fixedLitLengths fixedDistLengths (bits.length + 1) bits
    | 2 => do
      let ((litLengths, distLengths), bits) ← readDynamic bits
      readTokens litLengths distLengths (bits.length + 1) bits
    | _ => none
  return (⟨final == 1, tokens⟩, bits)

/-- Blocks to the end of the input; what follows a final block starts at the next byte. -/
def readBlocksFrom : Nat → List Bool → Option (List Block)
  | 0, _ => none
  | rounds + 1, bits =>
    if bits = [] then some []
    else
      (readBlock bits).bind fun (block, rest) =>
        (readBlocksFrom rounds (if block.final then align rest else rest)).map (block :: ·)

/-- Blocks to the end of the input or to a final block, where a decompressor stops reading. -/
def readStreamFrom : Nat → List Bool → Option (List Block)
  | 0, _ => none
  | rounds + 1, bits =>
    if bits = [] then some []
    else
      (readBlock bits).bind fun (block, rest) =>
        if block.final then some [block] else (readStreamFrom rounds rest).map (block :: ·)

def readBlocks : Option (List Block) := readBlocksFrom (8 * bytes.length + 1) (bitsOf bytes)

def readStream : Option (List Block) := readStreamFrom (8 * bytes.length + 1) (bitsOf bytes)

variable {blocks : List Block}

/-- A decompressor reads the blocks of a message up to the first final one. -/
theorem readStreamFrom_eq {rounds : Nat} {bits : List Bool} (read : readBlocksFrom rounds bits = some blocks) :
    readStreamFrom rounds bits = some (upToFinal blocks) := by
  induction rounds generalizing bits blocks with
  | zero => cases read
  | succ rounds ih =>
    unfold readBlocksFrom at read
    unfold readStreamFrom
    split at read
    · cases read
      rw [if_pos ‹_›]
      rfl
    · rw [if_neg ‹_›]
      obtain ⟨⟨block, rest⟩, first, later⟩ := bind_eq_some_iff.mp read
      obtain ⟨others, readOthers, rfl⟩ := map_eq_some_iff.mp later
      rw [first, bind_some, upToFinal]
      dsimp only at readOthers ⊢
      split
      · rfl
      · rename_i notFinal
        rw [if_neg notFinal] at readOthers
        rw [ih readOthers]
        rfl

end Bits

example : (readBlocks [0xf2, 0x48, 0xcd, 0xc9, 0xc9, 0x07, 0x00, 0x00, 0x00, 0xff, 0xff]).bind
    (fun blocks => emitAll [] (tokensOf blocks)) = some [0x48, 0x65, 0x6c, 0x6c, 0x6f] := by decide +kernel

end Xylem.Lib.Deflate
