import Xylem.Ws.Utf8

namespace Xylem.Ws

open List
open Xylem.Mux (bigEndian16 bigEndian16_bytes)

def wsFrameCloseValidateSend (code : UInt16) : Bool :=
  (1000 ≤ code && code ≤ 1003) || (1007 ≤ code && code ≤ 1011) || (3000 ≤ code && code ≤ 4999)

def wsFrameCloseValidateRecv (code : UInt16) : Bool :=
  if code ≤ 999 then false
  else if 1004 ≤ code && code ≤ 1006 then false
  else if code == 1015 then false
  else if 1016 ≤ code && code ≤ 2999 then false
  else true

/-- A status code with a reason of some length. The reason is what a pointer points to, `none` a null pointer. -/
structure CloseArgs where
  code : UInt16
  reason : Option (Nat → UInt8)
  reasonLen : Nat

/-- `ws_frame_close_encode` into a buffer of `outSize` bytes that holds `out`; `none` is its `-1`. A null pointer
with a length leaves the bytes of the reason as they were. -/
def wsFrameCloseEncode (args : CloseArgs) (out : Nat → UInt8) (outSize : Nat) : Option (List UInt8) :=
  if 123 < args.reasonLen then none
  else if outSize < 2 + args.reasonLen then none
  else
    let reason := args.reason.getD fun i => out (2 + i)
    some ((args.code >>> 8).toUInt8 :: args.code.toUInt8 :: (List.range args.reasonLen).map reason)

variable (data : List UInt8)

/-- `ws_frame_close_decode`, with the values its outputs have before and its return value. -/
def wsFrameCloseDecode (before : CloseArgs) : CloseArgs × Int :=
  match data with
  | [] => (⟨1005, none, 0⟩, 0)
  | [_] => (before, -1)
  | hi :: lo :: reason =>
    let code := bigEndian16 hi lo
    let args : CloseArgs :=
      if reason = [] then ⟨code, none, 0⟩ else ⟨code, some fun i => reason.getD i 0, reason.length⟩
    (args, if wsFrameCloseValidateRecv code then 0 else -2)

/-- What the stack holds before a Close frame is built: the outputs of the decoder and the payload buffer. -/
structure WsJunk where
  args : CloseArgs
  payload : Nat → UInt8

/-- The payload that `_ws_send_close_frame` writes. -/
def wsClosePayload (args : CloseArgs) (junk : WsJunk) : List UInt8 :=
  (wsFrameCloseEncode args junk.payload 125).getD []

/-- The payload that answers a Close frame with payload `data`. The return value of the decoder is not looked at. -/
def wsCloseEcho (junk : WsJunk) : List UInt8 :=
  wsClosePayload (wsFrameCloseDecode data junk.args).1 junk

def LegalClose (payload : List UInt8) : Prop :=
  payload = [] ∨ ∃ hi lo reason, payload = hi :: lo :: reason ∧
    wsFrameCloseValidateSend (bigEndian16 hi lo) = true ∧ Utf8 reason

/-- A received payload whose code may be sent and whose reason is text. -/
def EchoOk : Prop :=
  ∃ hi lo reason, data = hi :: lo :: reason ∧ wsFrameCloseValidateSend (bigEndian16 hi lo) = true ∧ Utf8 reason

/-- A reason that is too long and dropped, or text at a pointer, or none at all. -/
def ReasonOk (reason : Option (Nat → UInt8)) (reasonLen : Nat) : Prop :=
  123 < reasonLen ∨ reasonLen = 0 ∨ ∃ text, reason = some text ∧ Utf8 ((List.range reasonLen).map text)

theorem not_utf8_ff (rest : List UInt8) : ¬Utf8 (0xFF :: rest) := by
  rw [← wsUtf8Validate_eq_true_iff]
  intro valid
  have top : (0xFF : UInt8).toNat = 255 := rfl
  obtain none | ⟨rest, step, _⟩ := wsUtf8Validate_step valid
  · cases none
  · cases step <;> omega

variable {data reason : List UInt8} {args : CloseArgs}

theorem legalClose_cons {code : UInt16} : LegalClose ((code >>> 8).toUInt8 :: code.toUInt8 :: reason) ↔
      wsFrameCloseValidateSend code = true ∧ Utf8 reason := by
  constructor
  · rintro (none | ⟨hi, lo, reason', eq, valid, text⟩)
    · cases none
    · cases eq
      rw [bigEndian16_bytes] at valid
      exact ⟨valid, text⟩
  · rintro ⟨valid, text⟩
    exact .inr ⟨_, _, _, rfl, by rwa [bigEndian16_bytes], text⟩

theorem wsClosePayload_eq (short : args.reasonLen ≤ 123) (junk : WsJunk) :
    wsClosePayload args junk = (args.code >>> 8).toUInt8 :: args.code.toUInt8 ::
      (List.range args.reasonLen).map (args.reason.getD fun i => junk.payload (2 + i)) := by
  unfold wsClosePayload wsFrameCloseEncode
  rw [if_neg (by omega), if_neg (by omega)]
  rfl

theorem wsClosePayload_long (long : 123 < args.reasonLen) (junk : WsJunk) : wsClosePayload args junk = [] := by
  unfold wsClosePayload wsFrameCloseEncode
  rw [if_pos long]
  rfl

def WsJunk.spoiled : WsJunk := ⟨⟨0, none, 0⟩, fun _ => 0xFF⟩

/-- A Close frame built with a legal code is legal, whatever the stack holds, exactly if its reason is text or is
dropped. -/
theorem wsClosePayload_legal_iff (legal : wsFrameCloseValidateSend args.code = true) :
    (∀ junk, LegalClose (wsClosePayload args junk)) ↔ ReasonOk args.reason args.reasonLen := by
  constructor
  · intro always
    by_cases long : 123 < args.reasonLen
    · exact .inl long
    have spoiled := always .spoiled
    rw [wsClosePayload_eq (Nat.not_lt.mp long), legalClose_cons] at spoiled
    by_cases empty : args.reasonLen = 0
    · exact .inr (.inl empty)
    cases reason : args.reason with
    | some text => exact .inr (.inr ⟨text, rfl, by simpa [reason] using spoiled.2⟩)
    | none =>
      -- the bytes of the stack stand in the reason
      obtain ⟨n, is⟩ := Nat.exists_eq_succ_of_ne_zero empty
      rw [reason, is, range_succ_eq_map] at spoiled
      exact absurd spoiled.2 (not_utf8_ff _)
  · rintro (long | empty | ⟨text, reason, utf8⟩) junk
    · exact .inl (wsClosePayload_long long junk)
    · rw [wsClosePayload_eq (by omega), legalClose_cons, empty]
      exact ⟨legal, [], rfl⟩
    · by_cases long : 123 < args.reasonLen
      · exact .inl (wsClosePayload_long long junk)
      · rw [wsClosePayload_eq (Nat.not_lt.mp long), legalClose_cons, reason]
        exact ⟨legal, utf8⟩

theorem ReasonOk.steady (ok : ReasonOk args.reason args.reasonLen) (junk junk' : WsJunk) :
    wsClosePayload args junk = wsClosePayload args junk' := by
  rcases ok with long | empty | ⟨text, reason, -⟩
  · rw [wsClosePayload_long long, wsClosePayload_long long]
  · rw [wsClosePayload_eq (by omega), wsClosePayload_eq (by omega), empty]
    rfl
  · by_cases long : 123 < args.reasonLen
    · rw [wsClosePayload_long long, wsClosePayload_long long]
    · rw [wsClosePayload_eq (Nat.not_lt.mp long), wsClosePayload_eq (Nat.not_lt.mp long), reason]
      rfl

theorem map_getD_range (bytes : List UInt8) : (List.range bytes.length).map (fun i => bytes.getD i 0) = bytes := by
  apply ext_getElem
  · simp
  · intro i _ lt
    simp [getD_eq_getElem?_getD, lt]

theorem bigEndian16_high (hi lo : UInt8) : (bigEndian16 hi lo >>> 8).toUInt8 = hi := by
  apply UInt8.toBitVec_inj.mp
  ext i small
  simp [bigEndian16, BitVec.getLsbD_eq_getElem, small, show 8 + i < 16 by omega,
    show ¬8 + i < 8 by omega, show i < 16 by omega]

theorem bigEndian16_low (hi lo : UInt8) : (bigEndian16 hi lo).toUInt8 = lo := by
  apply UInt8.toBitVec_inj.mp
  ext i small
  simp [bigEndian16]

theorem wsCloseEcho_eq {hi lo : UInt8} (short : reason.length ≤ 123) (junk : WsJunk) :
    wsCloseEcho (hi :: lo :: reason) junk = hi :: lo :: reason := by
  unfold wsCloseEcho wsFrameCloseDecode
  dsimp only
  split
  · rename_i empty
    rw [wsClosePayload_eq (Nat.zero_le _), empty, bigEndian16_high, bigEndian16_low]
    rfl
  · rw [wsClosePayload_eq short, bigEndian16_high, bigEndian16_low, Option.getD_some, map_getD_range]

/-- The answer to a Close frame is legal, whatever the stack holds, exactly if its own payload has a code and a
reason that are. -/
theorem wsCloseEcho_legal_iff (control : data.length ≤ 125) :
    (∀ junk, LegalClose (wsCloseEcho data junk)) ↔ EchoOk data := by
  have refused : ∀ {args : CloseArgs} {junk}, args.reasonLen ≤ 123 → wsFrameCloseValidateSend args.code = false →
      ¬LegalClose (wsClosePayload args junk) := by
    intro args junk short bad legal
    rw [wsClosePayload_eq short, legalClose_cons, bad] at legal
    cases legal.1
  match data, control with
  | [], _ | [_], _ =>
    refine ⟨fun always => absurd (always .spoiled) (refused (Nat.zero_le _) rfl), fun ⟨_, _, _, eq, _⟩ => ?_⟩
    cases eq
  | hi :: lo :: reason, control =>
    have short : reason.length ≤ 123 := by
      rw [length_cons, length_cons] at control
      omega
    constructor
    · intro always
      have legal := always .spoiled
      rw [wsCloseEcho_eq short] at legal
      rcases legal with none | legal
      · cases none
      · exact legal
    · intro ok junk
      rw [wsCloseEcho_eq short]
      exact .inr ok

theorem EchoOk.steady (ok : EchoOk data) (control : data.length ≤ 125) (junk junk' : WsJunk) :
    wsCloseEcho data junk = wsCloseEcho data junk' := by
  obtain ⟨hi, lo, reason, rfl, -⟩ := ok
  have short : reason.length ≤ 123 := by
    rw [length_cons, length_cons] at control
    omega
  rw [wsCloseEcho_eq short, wsCloseEcho_eq short]

end Xylem.Ws
