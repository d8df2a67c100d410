import Xylem.Lib.Ascii
import Xylem.Lib.Deflate
import Xylem.Ws.Conn

namespace Xylem.Ws

open Lib Lib.Deflate

def wsDeflateTail : List UInt8 := [0x00, 0x00, 0xFF, 0xFF]

/-- `inflate_stream`: all that was decompressed since the last reset, and whether a final block was met. -/
structure InflateStream where
  out : List UInt8
  ended : Bool
deriving DecidableEq

def InflateStream.init : InflateStream := ⟨[], false⟩

/-- What `mz_inflate` makes of an input in the end. After a final block it takes no input any more. -/
def InflateStream.feed (stream : InflateStream) (input : List UInt8) : Option (List UInt8 × InflateStream) :=
  if stream.ended then some ([], stream)
  else do
    let blocks ← readStream input
    let out ← emitAll stream.out (tokensOf blocks)
    return (out.drop stream.out.length, ⟨out, blocks.any Block.final⟩)

/-- `ws_deflate_ctx_t` while it is active. Of `deflate_stream` the bytes count that it has taken since its last
reset. -/
structure WsDeflateCtx where
  noContextTakeover : Bool
  deflate : List UInt8
  inflate : InflateStream
deriving DecidableEq

def wsDeflateInit (noContextTakeover : Bool) : WsDeflateCtx := ⟨noContextTakeover, [], .init⟩

/-- What `mz_deflate` with `MZ_SYNC_FLUSH` writes for some bytes after others. -/
abbrev Deflater := List UInt8 → List UInt8 → List UInt8

variable (deflate : Deflater) (ctx : WsDeflateCtx) (data : List UInt8)

/-- The conversion to `mz_uint32`. -/
def mzUint32 (n : Nat) : Nat := n % 2 ^ 32

def wsDeflateCompress : List UInt8 × WsDeflateCtx :=
  let input := data.take (mzUint32 data.length)
  let buf := deflate ctx.deflate input
  let out := if wsDeflateTail.isSuffixOf buf then buf.take (buf.length - 4) else buf
  (out, { ctx with deflate := if ctx.noContextTakeover then [] else ctx.deflate ++ input })

/-- The loop of `ws_deflate_decompress` with a buffer of `cap` bytes that holds `buf`, by the bytes that are still to come
out and whether the stream ends with them. -/
def wsInflateLoop (maxSize : Nat) (ended : Bool) : Nat → Nat → List UInt8 → List UInt8 → Option (List UInt8)
  | 0, _, _, _ => none
  | rounds + 1, cap, buf, rest =>
    let room := mzUint32 (cap - buf.length)
    let availOut := room - rest.length
    let written := buf ++ rest.take room
    -- `total_out` counts the bytes that the conversion has lost; fresh pages are zero
    let out := written ++ List.replicate (cap - availOut - written.length) 0
    if ended && rest.length ≤ room then some out
    else if availOut ≠ 0 then some out
    else
      let newCap := if maxSize ≠ 0 ∧ maxSize < 2 * cap then maxSize else 2 * cap
      if newCap ≤ cap then none else wsInflateLoop maxSize ended rounds newCap out (rest.drop room)

/-- The buffer that `ws_deflate_decompress` starts with. -/
def wsInflateCap (len : Nat) : Nat := max 256 (4 * (len + 4))

def wsDeflateDecompress (maxSize : Nat) :
    Option (List UInt8 × WsDeflateCtx) :=
  match ctx.inflate.feed ((data ++ wsDeflateTail).take (mzUint32 (data.length + 4))) with
  | none => none
  | some (out, stream) =>
    (wsInflateLoop maxSize stream.ended (out.length + maxSize + 2) (wsInflateCap data.length) [] out).map fun out =>
      (out, { ctx with inflate := if ctx.noContextTakeover then .init else stream })

/-- `ws_deflate_offer_t` of a header that names the extension. -/
structure WsDeflateOffer where
  serverNoContextTakeover : Bool
  clientNoContextTakeover : Bool
deriving DecidableEq

/-- The text after a parameter name, if the text begins with the name and the name ends there. -/
def wsDeflateParam (name : String) (ends : String) (p : List UInt8) : Option (List UInt8) :=
  if (ascii name).isPrefixOf p then
    match p.drop (ascii name).length with
    | [] => some []
    | c :: rest => if c ∈ ascii ends then some (c :: rest) else none
  else none

/-- The value of a `*_max_window_bits` parameter: none, or fifteen. -/
def wsDeflateWindowBits (p : List UInt8) : Option (List UInt8) :=
  let p := p.dropWhile (· ∈ ascii " =")
  let digits := p.takeWhile isDigit
  if digits = [] then some p else if decimal digits = 15 then some (p.drop digits.length) else none

/-- The loop of `ws_deflate_parse_offer` over the parameters. -/
def wsDeflateParams : Nat → WsDeflateOffer → List UInt8 → Option WsDeflateOffer
  | 0, _, _ => none
  | rounds + 1, offer, p =>
    let p := p.dropWhile (· ∈ ascii " ;\t")
    -- the extension ends at a comma or with the header
    if p = [] ∨ p.head? = some 0x2C then some offer
    else
      match wsDeflateParam "server_no_context_takeover" "; ," p with
      | some p => wsDeflateParams rounds { offer with serverNoContextTakeover := true } p
      | none =>
        match wsDeflateParam "client_no_context_takeover" "; ," p with
        | some p => wsDeflateParams rounds { offer with clientNoContextTakeover := true } p
        | none =>
          match (wsDeflateParam "server_max_window_bits" "; ,=" p).or
              (wsDeflateParam "client_max_window_bits" "; ,=" p) with
          | some p => (wsDeflateWindowBits p).bind (wsDeflateParams rounds offer)
          | none => none

def wsDeflateParseOffer (header : List UInt8) : Option WsDeflateOffer :=
  (strstr (ascii "permessage-deflate") header).bind fun ext =>
    wsDeflateParams (ext.length + 1) ⟨false, false⟩ (ext.drop (ascii "permessage-deflate").length)

/-- `snprintf` at the end of a text in a buffer of the given size. -/
def wsDeflatePut (outSize : Nat) (add : String) (out : List UInt8) : Option (List UInt8) :=
  if (ascii add).length < outSize - out.length then some (out ++ ascii add) else none

def wsDeflateBuildClientOffer (contextTakeover : Bool) (outSize : Nat) : Option (List UInt8) :=
  if contextTakeover then wsDeflatePut outSize "permessage-deflate" []
  else
    wsDeflatePut outSize "permessage-deflate; client_no_context_takeover; server_no_context_takeover" []

def wsDeflateBuildServerAccept (offer : WsDeflateOffer) (outSize : Nat) : Option (List UInt8) := do
  let out ← wsDeflatePut outSize "permessage-deflate" []
  let out ← if offer.serverNoContextTakeover then wsDeflatePut outSize "; server_no_context_takeover" out else out
  if offer.clientNoContextTakeover then wsDeflatePut outSize "; client_no_context_takeover" out else out

structure WsDeflateOpts where
  permessageDeflate : Bool
  deflateContextTakeover : Bool

variable (isClient : Bool) (opts : WsDeflateOpts) (value : Option (List UInt8))

/-- What `_ws_accept_handshake` makes of the extension header of a request: the parameters it accepts, with the header
of its answer. -/
def wsAcceptDeflate : Option (WsDeflateOffer × List UInt8) :=
  if opts.permessageDeflate then
    (value.bind wsDeflateParseOffer).bind fun offer =>
      let offer := if opts.deflateContextTakeover then offer else ⟨true, true⟩
      (wsDeflateBuildServerAccept offer 128).map fun ext => (offer, ext)
  else none

/-- What `ws_dial_impl` makes of the extension header of an answer; the outer `none` is a failed handshake. -/
def wsDialDeflate : Option (Option WsDeflateOffer) :=
  let extension := if opts.permessageDeflate then wsDeflateBuildClientOffer opts.deflateContextTakeover 128 else none
  match value with
  | none => some none
  | some value => if extension = none then none else (wsDeflateParseOffer value).map some

/-- The context that an end of a connection starts with, and the parameters of the answer, if compression was
negotiated. -/
def wsNegotiate :
    Option (WsDeflateCtx × WsDeflateOffer) :=
  if isClient then
    (wsDialDeflate opts value).join.map fun server =>
      (wsDeflateInit (server.serverNoContextTakeover || !opts.deflateContextTakeover), server)
  else
    (wsAcceptDeflate opts value).map fun (offer, _) => (wsDeflateInit offer.serverNoContextTakeover, offer)

example : wsDeflateParseOffer (ascii "x, permessage-deflate; client_max_window_bits; server_no_context_takeover, y") =
    some ⟨true, false⟩ := by decide +kernel

end Xylem.Ws
