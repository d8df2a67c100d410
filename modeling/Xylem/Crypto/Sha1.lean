import Xylem.Lib.Sha1

namespace Xylem.Crypto

open Lib

/-- The words of `state`, or the variables `a` to `e`. -/
abbrev Sha1State := Sha1.Words

/-- `xylem_sha1_s`. -/
structure Sha1Ctx where
  buffer : List UInt8
  datalen : Nat
  bitlen : UInt64
  state : Sha1State

def sha1Rol32 (value bits : UInt32) : UInt32 := value <<< bits ||| value >>> (32 - bits)

variable (state : Sha1State) (buffer : List UInt8)

/-- The words that a block gives. -/
def sha1Load : List UInt32 :=
  (List.range 16).map fun i =>
    (buffer.getD (i * 4 + 0) 0).toUInt32 <<< 24 ||| (buffer.getD (i * 4 + 1) 0).toUInt32 <<< 16 |||
      (buffer.getD (i * 4 + 2) 0).toUInt32 <<< 8 ||| (buffer.getD (i * 4 + 3) 0).toUInt32

/-- The loop that fills `W` from word 16 on. -/
def sha1Extend : Nat → List UInt32 → List UInt32
  | 0, w => w
  | n + 1, w =>
    let i := w.length
    sha1Extend n (w ++ [sha1Rol32 (w.getD (i - 3) 0 ^^^ w.getD (i - 8) 0 ^^^ w.getD (i - 14) 0 ^^^ w.getD (i - 16) 0) 1])

/-- One of the four loops of twenty rounds, by its function and its constant. -/
def sha1Rounds (f : UInt32 → UInt32 → UInt32 → UInt32) (k : UInt32) (v : Sha1State) (ws : List UInt32) : Sha1State :=
  ws.foldl (fun v w => ⟨sha1Rol32 v.a 5 + f v.b v.c v.d + v.e + w + k, v.a, sha1Rol32 v.b 30, v.c, v.d⟩) v

def sha1Transform : Sha1State :=
  let w := sha1Extend 64 (sha1Load buffer)
  let v := sha1Rounds (fun b c d => b &&& c ||| ~~~b &&& d) 0x5A827999 state (w.take 20)
  let v := sha1Rounds (fun b c d => b ^^^ c ^^^ d) 0x6ED9EBA1 v ((w.drop 20).take 20)
  let v := sha1Rounds (fun b c d => b &&& c ||| b &&& d ||| c &&& d) 0x8F1BBCDC v ((w.drop 40).take 20)
  let v := sha1Rounds (fun b c d => b ^^^ c ^^^ d) 0xCA62C1D6 v (w.drop 60)
  ⟨state.a + v.a, state.b + v.b, state.c + v.c, state.d + v.d, state.e + v.e⟩

def sha1Create : Sha1Ctx :=
  { buffer := List.replicate 64 0, datalen := 0, bitlen := 0,
    state := ⟨0x67452301, 0xEFCDAB89, 0x98BADCFE, 0x10325476, 0xC3D2E1F0⟩ }

/-- `memcpy` or `memset` into a buffer. -/
def writeAt (pos : Nat) (bytes : List UInt8) : List UInt8 :=
  buffer.take pos ++ bytes ++ buffer.drop (pos + bytes.length)

/-- The loop of `xylem_sha1_update`. -/
def sha1UpdateLoop : Nat → Sha1Ctx → List UInt8 → Sha1Ctx
  | 0, ctx, _ => ctx
  | rounds + 1, ctx, data =>
    if data = [] then ctx
    else
      let toCopy := min data.length (64 - ctx.datalen)
      let buffer := writeAt ctx.buffer ctx.datalen (data.take toCopy)
      let datalen := ctx.datalen + toCopy
      let ctx :=
        if datalen = 64 then
          { buffer, datalen := 0, bitlen := ctx.bitlen + 512, state := sha1Transform ctx.state buffer }
        else { ctx with buffer, datalen }
      sha1UpdateLoop rounds ctx (data.drop toCopy)

/-- `xylem_sha1_update`. Every round of the loop copies a byte at least. -/
def sha1Update (ctx : Sha1Ctx) (data : List UInt8) : Sha1Ctx := sha1UpdateLoop data.length ctx data

/-- The bytes of `total_bitlen` as the end of `xylem_sha1_final` stores them. -/
def sha1Length (totalBitlen : UInt64) : List UInt8 :=
  [(totalBitlen >>> 56).toUInt8, (totalBitlen >>> 48).toUInt8, (totalBitlen >>> 40).toUInt8,
    (totalBitlen >>> 32).toUInt8, (totalBitlen >>> 24).toUInt8, (totalBitlen >>> 16).toUInt8,
    (totalBitlen >>> 8).toUInt8, totalBitlen.toUInt8]

def sha1Digest : List UInt8 :=
  [state.a, state.b, state.c, state.d, state.e].flatMap fun (word : UInt32) =>
    [((word >>> 24) &&& 0xFF).toUInt8, ((word >>> 16) &&& 0xFF).toUInt8, ((word >>> 8) &&& 0xFF).toUInt8,
      (word &&& 0xFF).toUInt8]

def sha1Final (ctx : Sha1Ctx) : List UInt8 :=
  let totalBitlen := ctx.bitlen + UInt64.ofNat ctx.datalen * 8
  let buffer := writeAt ctx.buffer ctx.datalen [0x80]
  let (state, buffer) :=
    if ctx.datalen < 56 then
      (ctx.state, writeAt buffer (ctx.datalen + 1) (List.replicate (56 - (ctx.datalen + 1)) 0))
    else
      let buffer := writeAt buffer (ctx.datalen + 1) (List.replicate (64 - (ctx.datalen + 1)) 0)
      (sha1Transform ctx.state buffer, writeAt buffer 0 (List.replicate 56 0))
  sha1Digest (sha1Transform state (writeAt buffer 56 (sha1Length totalBitlen)))

end Xylem.Crypto
