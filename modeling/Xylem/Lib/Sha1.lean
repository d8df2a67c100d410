import Mathlib.Data.List.GetD

namespace Xylem.Lib.Sha1

open List

/-- The five words of a hash value, or the five working variables. -/
structure Words where
  a : UInt32
  b : UInt32
  c : UInt32
  d : UInt32
  e : UInt32

def rotl (n x : UInt32) : UInt32 := x <<< n ||| x >>> (32 - n)

variable (n : Nat) (h : Words) (message : List UInt8) (x y z : UInt32)

def ch : UInt32 := (x &&& y) ^^^ (~~~x &&& z)

def parity : UInt32 := x ^^^ y ^^^ z

def maj : UInt32 := (x &&& y) ^^^ (x &&& z) ^^^ (y &&& z)

/-- The logical function of round `t`. -/
def f (t : Nat) : UInt32 → UInt32 → UInt32 → UInt32 :=
  if t < 20 then ch else if t < 40 then parity else if t < 60 then maj else parity

/-- The constant of round `t`. -/
def k (t : Nat) : UInt32 :=
  if t < 20 then 0x5A827999 else if t < 40 then 0x6ED9EBA1 else if t < 60 then 0x8F1BBCDC else 0xCA62C1D6

def initial : Words := ⟨0x67452301, 0xEFCDAB89, 0x98BADCFE, 0x10325476, 0xC3D2E1F0⟩

/-- A word from four bytes, the first the most significant. -/
def word (bytes : List UInt8) (t : Nat) : UInt32 :=
  UInt32.ofNat ((((bytes.getD (4 * t) 0).toNat * 256 + (bytes.getD (4 * t + 1) 0).toNat) * 256 +
    (bytes.getD (4 * t + 2) 0).toNat) * 256 + (bytes.getD (4 * t + 3) 0).toNat)

def schedule (block : List UInt8) (t : Nat) : UInt32 :=
  if t < 16 then word block t
  else
    rotl 1 (schedule block (t - 3) ^^^ schedule block (t - 8) ^^^ schedule block (t - 14) ^^^ schedule block (t - 16))
termination_by t

/-- Round `t`. -/
def round (w : Nat → UInt32) (v : Words) (t : Nat) : Words :=
  ⟨rotl 5 v.a + f t v.b v.c v.d + v.e + k t + w t, v.a, rotl 30 v.b, v.c, v.d⟩

def Words.add (h v : Words) : Words := ⟨v.a + h.a, v.b + h.b, v.c + h.c, v.d + h.d, v.e + h.e⟩

def compress (block : List UInt8) : Words :=
  h.add ((List.range 80).foldl (round (schedule block)) h)

/-- The hash value after the first `n` blocks of a message. -/
def hashBlocks : Nat → Words → List UInt8 → Words
  | 0, h, _ => h
  | n + 1, h, message => hashBlocks n (compress h (message.take 64)) (message.drop 64)

/-- The `n` low bytes of a number, the most significant first. -/
def bigEndian : Nat → Nat → List UInt8
  | 0, _ => []
  | n + 1, value => bigEndian n (value / 256) ++ [UInt8.ofNat value]

/-- A one bit, zeros, and the length in bits, up to a whole number of blocks. -/
def pad : List UInt8 :=
  message ++ 0x80 :: List.replicate ((119 - message.length % 64) % 64) 0 ++ bigEndian 8 (8 * message.length)

def Words.digest : List UInt8 :=
  bigEndian 4 h.a.toNat ++ bigEndian 4 h.b.toNat ++ bigEndian 4 h.c.toNat ++ bigEndian 4 h.d.toNat ++
    bigEndian 4 h.e.toNat

def sha1 : List UInt8 :=
  (hashBlocks ((pad message).length / 64) initial (pad message)).digest

theorem hashBlocks_append {n : Nat} {h : Words} {message : List UInt8} (more : List UInt8)
    (long : 64 * n ≤ message.length) : hashBlocks n h (message ++ more) = hashBlocks n h message := by
  induction n generalizing h message with
  | zero => rfl
  | succ n ih =>
    rw [hashBlocks, hashBlocks, take_append_of_le_length (by omega), drop_append_of_le_length (by omega),
      ih (by rw [length_drop]; omega)]

theorem hashBlocks_succ :
    hashBlocks (n + 1) h message = compress (hashBlocks n h message) ((message.drop (64 * n)).take 64) := by
  induction n generalizing h message with
  | zero => rfl
  | succ n ih =>
    rw [hashBlocks, ih, hashBlocks, drop_drop]
    congr 3
    omega

theorem bigEndian_length (n value : Nat) : (bigEndian n value).length = n := by
  induction n generalizing value with
  | zero => rfl
  | succ n ih =>
    rw [bigEndian, length_append, ih]
    rfl

theorem pad_length : (pad message).length = 64 * (message.length / 64 + if message.length % 64 < 56 then 1 else 2) := by
  rw [pad, length_append, length_append, length_cons, length_replicate, bigEndian_length]
  split <;> omega

end Xylem.Lib.Sha1
