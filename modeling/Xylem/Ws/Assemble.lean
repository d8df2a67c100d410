import Xylem.Ws.Turn

namespace Xylem.Ws

open Lib List Option

/-- What a stream of frames has come to: the messages that are whole, and the one under way. -/
structure Assembly where
  msgs : List WsMessage
  part : Option (UInt8 × List UInt8)

def Assembly.empty : Assembly := ⟨[], none⟩

variable (limit : Nat) (a : Assembly)

/-- A message of which `data` has come, all of it after the last frame. -/
def Assembly.put (opcode : UInt8) (data : List UInt8) (fin : Bool) : Option Assembly :=
  if limit < data.length then none
  else if !fin then some { a with part := some (opcode, data) }
  else if opcode = 0x1 && !wsUtf8Validate data then none
  else some ⟨a.msgs ++ [(WsType.ofOpcode opcode, data)], none⟩

/-- What one more frame makes of it, for a receiver that takes messages of up to `limit` bytes. -/
def Assembly.take (chunk : WsChunk) : Option Assembly :=
  if chunk.opcode = 0x9 ∨ chunk.opcode = 0xA then some a
  else if chunk.opcode = 0x0 then
    match a.part with
    | some (opcode, data) => a.put limit opcode (data ++ chunk.data) chunk.fin
    | none => none
  else if chunk.opcode = 0x1 ∨ chunk.opcode = 0x2 then
    match a.part with
    | some _ => none
    | none => a.put limit chunk.opcode chunk.data chunk.fin
  else none

def assemble (chunks : List WsChunk) : Option Assembly :=
  chunks.foldlM (Assembly.take limit) a

def WsFrame.chunk (frame : WsFrame) : WsChunk := ⟨frame.fin, frame.opcode, frame.payload, frame.rsv1⟩

theorem assemble_append (first second : List WsChunk) :
    assemble limit a (first ++ second) = (assemble limit a first).bind fun b => assemble limit b second :=
  foldlM_append

theorem assemble_cons (chunk : WsChunk) (rest : List WsChunk) :
    assemble limit a (chunk :: rest) = (a.take limit chunk).bind fun b => assemble limit b rest :=
  foldlM_cons

variable {limit : Nat} {a b : Assembly} {data : List UInt8} {chunk : WsChunk} {msg : WsMessage}

theorem Assembly.put_msgs {opcode : UInt8} {fin : Bool} (put : a.put limit opcode data fin = some b) :
    a.msgs <+: b.msgs := by
  unfold Assembly.put at put
  split at put
  · cases put
  split at put
  · cases put
    exact prefix_rfl
  split at put
  · cases put
  · cases put
    exact prefix_append _ _

theorem Assembly.take_msgs (took : a.take limit chunk = some b) : a.msgs <+: b.msgs := by
  unfold Assembly.take at took
  split at took
  · cases took
    exact prefix_rfl
  split at took
  · split at took
    · exact Assembly.put_msgs took
    · cases took
  split at took
  · split at took
    · cases took
    · exact Assembly.put_msgs took
  · cases took

theorem assemble_msgs {chunks : List WsChunk} (whole : assemble limit a chunks = some b) : a.msgs <+: b.msgs := by
  induction chunks generalizing a with
  | nil => cases whole; exact prefix_rfl
  | cons chunk rest ih =>
    rw [assemble_cons] at whole
    obtain ⟨next, took, later⟩ := bind_eq_some_iff.mp whole
    exact (Assembly.take_msgs took).trans (ih later)

/-- A message that a receiver with the limit `limit` takes: not too long, and text if it is said to be. -/
def Receivable (limit : Nat) (msg : WsMessage) : Prop :=
  msg.2.length ≤ limit ∧ (msg.1 = .text → Utf8 msg.2)

instance (limit : Nat) (msg : WsMessage) : Decidable (Receivable limit msg) :=
  inferInstanceAs (Decidable (_ ∧ (_ → _)))

theorem WsType.ofOpcode_opcode (type : WsType) : WsType.ofOpcode type.opcode = type := by
  cases type <;> rfl

theorem Assembly.put_whole (ok : Receivable limit msg) (a : Assembly) :
    a.put limit msg.1.opcode msg.2 true = some ⟨a.msgs ++ [msg], none⟩ := by
  have text : ¬(msg.1.opcode = 0x1 && !wsUtf8Validate msg.2) = true := by
    rw [Bool.and_eq_true, decide_eq_true_eq, Bool.not_eq_true']
    rintro ⟨is, invalid⟩
    have type : msg.1 = .text := by rw [← WsType.ofOpcode_opcode msg.1, is]; rfl
    rw [(wsUtf8Validate_eq_true_iff _).mpr (ok.2 type)] at invalid
    cases invalid
  unfold Assembly.put
  rw [if_neg (Nat.not_lt.mpr ok.1), if_neg (by simp), if_neg text, WsType.ofOpcode_opcode]

theorem Assembly.put_more (short : data.length ≤ limit) (a : Assembly) (opcode : UInt8) :
    a.put limit opcode data false = some { a with part := some (opcode, data) } := by
  unfold Assembly.put
  rw [if_neg (Nat.not_lt.mpr short), if_pos (by rfl)]

theorem Assembly.take_continuation (limit : Nat) (msgs : List WsMessage) (opcode : UInt8) (before data : List UInt8)
    (fin rsv1 : Bool) :
    Assembly.take limit ⟨msgs, some (opcode, before)⟩ ⟨fin, 0x0, data, rsv1⟩ =
      Assembly.put limit ⟨msgs, some (opcode, before)⟩ opcode (before ++ data) fin := rfl

theorem Assembly.take_first (limit : Nat) (msgs : List WsMessage) (type : WsType) (data : List UInt8)
    (fin rsv1 : Bool) :
    Assembly.take limit ⟨msgs, none⟩ ⟨fin, type.opcode, data, rsv1⟩ =
      Assembly.put limit ⟨msgs, none⟩ type.opcode data fin := by
  cases type <;> rfl

theorem wsSendLoop_nil (threshold rounds : Nat) (opcode : UInt8) (useDeflate first : Bool) :
    wsSendLoop threshold opcode useDeflate rounds first [] = [] := by
  cases rounds <;> simp [wsSendLoop]

theorem assemble_sendLoop {limit threshold rounds : Nat} {msgs : List WsMessage} {before data : List UInt8}
    (ok : Receivable limit msg) (positive : 0 < threshold) (split : before ++ data = msg.2) (some_ : data ≠ [])
    (enough : data.length ≤ rounds) :
    assemble limit ⟨msgs, some (msg.1.opcode, before)⟩
      (wsSendLoop threshold msg.1.opcode false rounds false data) = some ⟨msgs ++ [msg], none⟩ := by
  induction rounds generalizing before data with
  | zero => exact absurd (length_eq_zero_iff.mp (Nat.le_zero.mp enough)) some_
  | succ rounds ih =>
    have size : before.length + data.length = msg.2.length := by rw [← split, length_append]
    have limit_ := ok.1
    unfold wsSendLoop
    rw [if_neg some_, assemble_cons, if_neg (by decide), Assembly.take_continuation]
    by_cases last : data.length ≤ threshold
    · rw [decide_eq_true last, take_of_length_le last, split, Assembly.put_whole ok, bind_some,
        drop_eq_nil_of_le last, wsSendLoop_nil]
      rfl
    · have taken : (before ++ data.take threshold).length ≤ limit := by
        rw [length_append, length_take]
        omega
      rw [decide_eq_false last, Assembly.put_more taken, bind_some]
      refine ih ?_ ?_ ?_
      · rw [append_assoc, take_append_drop, split]
      · intro none
        have := congrArg List.length none
        rw [length_drop] at this
        simp only [length_nil] at this
        omega
      · rw [length_drop]
        omega

/-- The frames of a message make up the message. -/
theorem assemble_sendChunks {limit threshold : Nat} (ok : Receivable limit msg) (positive : 0 < threshold)
    (msgs : List WsMessage) :
    assemble limit ⟨msgs, none⟩ (wsSendChunks threshold msg.1.opcode false msg.2) = some ⟨msgs ++ [msg], none⟩ := by
  have limit_ := ok.1
  unfold wsSendChunks
  split
  · rw [assemble_cons, Assembly.take_first, Assembly.put_whole ok]
    rfl
  · rename_i long
    obtain ⟨rounds, is⟩ := Nat.exists_eq_succ_of_ne_zero (show msg.2.length ≠ 0 by omega)
    have some_ : msg.2 ≠ [] := fun none => by simp [none] at is
    rw [is]
    unfold wsSendLoop
    have taken : (msg.2.take threshold).length ≤ limit := by
      rw [length_take]
      omega
    rw [if_neg some_, assemble_cons, if_pos rfl, Assembly.take_first, decide_eq_false long, Assembly.put_more taken,
      bind_some]
    refine assemble_sendLoop ok positive (take_append_drop _ _) ?_ ?_
    · intro none
      have := congrArg List.length none
      rw [length_drop] at this
      simp only [length_nil] at this
      omega
    · rw [length_drop]
      omega

theorem assemble_control (control : chunk.opcode = 0x9 ∨ chunk.opcode = 0xA) (a : Assembly)
    (first second : List WsChunk) :
    assemble limit a (first ++ chunk :: second) = assemble limit a (first ++ second) := by
  rw [assemble_append, assemble_append]
  congr 1
  funext b
  rw [assemble_cons, Assembly.take, if_pos control]
  rfl

end Xylem.Ws
