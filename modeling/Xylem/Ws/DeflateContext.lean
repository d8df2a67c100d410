import Xylem.Ws.Deflate

namespace Xylem.Ws

open Lib Lib.Deflate List Bool InflateStream

/-- A compressed message: the payload of its frames, and the data that it stands for. -/
abbrev Compressed := List UInt8 × List UInt8

/-- The blocks of a payload, with the bytes that the sender left away. -/
def blocksOf (payload : List UInt8) : List Block := (readBlocks (payload ++ wsDeflateTail)).getD []

/-- The payload is made of whole blocks that give the data after the bytes of the window. -/
def Expands (window : List UInt8) (msg : Compressed) : Prop :=
  ∃ blocks, readBlocks (msg.1 ++ wsDeflateTail) = some blocks ∧ emitAll window (tokensOf blocks) = some (window ++ msg.2)

/-- The messages of an end that compresses each after those before it, or each on its own if it may not take its
window over. -/
def Follows (noContextTakeover : Bool) : List UInt8 → List Compressed → Prop
  | _, [] => True
  | window, msg :: rest =>
    Expands window msg ∧ Follows noContextTakeover (if noContextTakeover then [] else window ++ msg.2) rest

/-- What comes out of the payloads, one after the other. -/
def decompressAll (ctx : WsDeflateCtx) (maxSize : Nat) : List (List UInt8) → Option (List (List UInt8))
  | [] => some []
  | payload :: rest =>
    (wsDeflateDecompress ctx payload maxSize).bind fun (data, ctx) =>
      (decompressAll ctx maxSize rest).map (data :: ·)

def compressAll (deflate : Deflater) : WsDeflateCtx → List (List UInt8) → List Compressed × WsDeflateCtx
  | ctx, [] => ([], ctx)
  | ctx, data :: rest =>
    let (payload, ctx) := wsDeflateCompress deflate ctx data
    let (sent, ctx) := compressAll deflate ctx rest
    ((payload, data) :: sent, ctx)

/-- The compressor ends every message with a flush, and its blocks give the bytes back. -/
def Deflater.Sound (deflate : Deflater) : Prop :=
  ∀ before data, ∃ payload, deflate before data = payload ++ wsDeflateTail ∧ Expands before (payload, data)

def Unfinished (msg : Compressed) : Prop := ∀ block ∈ blocksOf msg.1, block.final = false

/-- Nothing comes after a final block: no data in its message, and no data in a later one unless the stream is reset
after each message. -/
def InTime (noContextTakeover : Bool) : List Compressed → Prop
  | [] => True
  | msg :: rest =>
    tokensOf (afterFinal (blocksOf msg.1)) = [] ∧
    ((blocksOf msg.1).any Block.final = true → noContextTakeover = true ∨ ∀ later ∈ rest, later.2 = []) ∧
    InTime noContextTakeover rest

/-- Where `total` bytes have room: less than `max_msg_size`, or than the buffer that is there at the start, or as much if
the stream ends with them. -/
def HasRoom (maxSize cap total : Nat) (ended : Bool) : Prop :=
  maxSize = 0 ∨ total < max maxSize cap ∨ ended = true ∧ total = max maxSize cap

instance (maxSize cap total : Nat) (ended : Bool) : Decidable (HasRoom maxSize cap total ended) :=
  inferInstanceAs (Decidable (_ ∨ _))

def Fits (maxSize : Nat) (msg : Compressed) : Prop :=
  HasRoom maxSize (wsInflateCap msg.1.length) msg.2.length ((blocksOf msg.1).any Block.final)

/-- A message whose buffers a `mz_uint32` can count. -/
def Short (msg : Compressed) : Prop := wsInflateCap msg.1.length < 2 ^ 32 ∧ msg.2.length < 2 ^ 32

variable {ctx : WsDeflateCtx} {noContextTakeover kept isClient : Bool} {before window : List UInt8}
  {history : List Compressed} {maxSize : Nat} {msg : Compressed} {deflate : Deflater} {offer : WsDeflateOffer}
  {opts : WsDeflateOpts}

/-- As long as the conversions lose nothing, the loop returns the data if it has room. -/
theorem wsInflateLoop_eq {rounds cap : Nat} {ended : Bool} {buf rest : List UInt8} (inside : buf.length ≤ cap)
    (room : cap - buf.length < 2 ^ 32) (small : 0 < maxSize ∧ maxSize ≤ 2 ^ 32 ∨ buf.length + rest.length < 2 ^ 32)
    (enough : buf.length + rest.length + 2 ≤ rounds + cap) (some_ : 0 < cap) (more : 0 < rounds) :
    wsInflateLoop maxSize ended rounds cap buf rest =
      if HasRoom maxSize cap (buf.length + rest.length) ended then some (buf ++ rest) else none := by
  induction rounds generalizing cap buf rest with
  | zero => omega
  | succ rounds ih =>
    unfold wsInflateLoop
    rw [mzUint32, Nat.mod_eq_of_lt room]
    dsimp only
    split
    · rename_i whole
      simp only [and_eq_true, decide_eq_true_eq] at whole
      have nothing : cap - (cap - buf.length - rest.length) - (buf ++ rest).length = 0 := by rw [length_append]; omega
      rw [take_of_length_le whole.2, nothing, if_pos (by unfold HasRoom; simp [whole.1]; omega)]
      exact congrArg some (append_nil _)
    rename_i notWhole
    simp only [and_eq_true, decide_eq_true_eq] at notWhole
    split
    · rename_i left
      have nothing : cap - (cap - buf.length - rest.length) - (buf ++ rest).length = 0 := by rw [length_append]; omega
      rw [take_of_length_le (by omega), nothing, if_pos (by unfold HasRoom; omega)]
      exact congrArg some (append_nil _)
    rename_i full
    have filled : (buf ++ rest.take (cap - buf.length)).length = cap := by rw [length_append, length_take]; omega
    have nothing : cap - (cap - buf.length - rest.length) - (buf ++ rest.take (cap - buf.length)).length = 0 := by omega
    rw [nothing, replicate_zero, append_nil]
    have grows : ∀ newCap, cap < newCap → newCap ≤ 2 * cap → (maxSize ≠ 0 → newCap ≤ maxSize) →
        wsInflateLoop maxSize ended rounds newCap (buf ++ rest.take (cap - buf.length)) (rest.drop (cap - buf.length)) =
          if HasRoom maxSize newCap (buf.length + rest.length) ended then some (buf ++ rest) else none := by
      intro newCap larger double limited
      have total : (buf ++ rest.take (cap - buf.length)).length + (rest.drop (cap - buf.length)).length =
          buf.length + rest.length := by rw [filled, length_drop]; omega
      rw [ih (by omega) (by omega) (by omega) (by omega) (by omega) (by omega), total, append_assoc, take_append_drop]
    split
    · rename_i limited
      split
      · rw [if_neg]
        unfold HasRoom
        rintro (zero | less | ⟨ends, equal⟩)
        · exact limited.1 zero
        · omega
        · exact notWhole ⟨ends, by omega⟩
      · rw [grows maxSize (by omega) (by omega) fun _ => Nat.le_refl _]
        refine if_congr ?_ rfl rfl
        unfold HasRoom
        rw [Nat.max_self, Nat.max_eq_left (by omega)]
    · rename_i unlimited
      rw [if_neg (by omega), grows (2 * cap) (by omega) (Nat.le_refl _) (by omega)]
      refine if_congr ?_ rfl rfl
      unfold HasRoom
      cases ended <;> simp <;> omega

/-- What the conversions lose is counted as output all the same. -/
theorem wsInflateLoop_longer {rounds cap : Nat} {ended : Bool} {buf rest out : List UInt8} (inside : buf.length ≤ cap)
    (returns : wsInflateLoop maxSize ended rounds cap buf rest = some out) :
    rest.length + (cap - mzUint32 (cap - buf.length)) ≤ out.length := by
  induction rounds generalizing cap buf rest with
  | zero => cases returns
  | succ rounds ih =>
    have exact_ := Nat.mod_le (cap - buf.length) (2 ^ 32)
    unfold wsInflateLoop mzUint32 at returns
    unfold mzUint32
    generalize (cap - buf.length) % 2 ^ 32 = room at *
    dsimp only at returns
    have length : ∀ n, rest.length + (cap - room) ≤ cap - (room - rest.length) + n → rest.length + (cap - room) ≤
        (buf ++ rest.take room ++ List.replicate (cap - (room - rest.length) - (buf ++ rest.take room).length) 0).length + n := by
      intro n
      simp only [length_append, length_take, length_replicate]
      omega
    split at returns
    · rename_i whole
      simp only [and_eq_true, decide_eq_true_eq] at whole
      exact Option.some.inj returns ▸ length 0 (by omega)
    split at returns
    · exact Option.some.inj returns ▸ length 0 (by omega)
    generalize (if maxSize ≠ 0 ∧ maxSize < 2 * cap then maxSize else 2 * cap) = newCap at returns
    split at returns
    · cases returns
    · have bound := length (rest.length - room) (by omega)
      have later := ih (by simp only [length_append, length_take, length_replicate]; omega) returns
      rw [length_drop] at later
      have fewer := Nat.mod_le (newCap - (buf ++ rest.take room ++
        List.replicate (cap - (room - rest.length) - (buf ++ rest.take room).length) 0).length) (2 ^ 32)
      unfold mzUint32 at later
      omega

theorem wsDeflateInput_eq {data : List UInt8} (short : data.length + 4 < 2 ^ 32) :
    (data ++ wsDeflateTail).take (mzUint32 (data.length + 4)) = data ++ wsDeflateTail := by
  rw [mzUint32, Nat.mod_eq_of_lt short]
  exact take_of_length_le (Nat.le_of_eq length_append)

theorem wsDeflateDecompress_eq {data out : List UInt8} {stream : InflateStream}
    (short : wsInflateCap data.length < 2 ^ 32) (small : 0 < maxSize ∧ maxSize ≤ 2 ^ 32 ∨ out.length < 2 ^ 32)
    (feeds : ctx.inflate.feed (data ++ wsDeflateTail) = some (out, stream)) :
    wsDeflateDecompress ctx data maxSize = if HasRoom maxSize (wsInflateCap data.length) out.length stream.ended then
      some (out, { ctx with inflate := if ctx.noContextTakeover then .init else stream }) else none := by
  have cap : 256 ≤ wsInflateCap data.length ∧ 4 * (data.length + 4) ≤ wsInflateCap data.length := by
    unfold wsInflateCap; omega
  have loop := @wsInflateLoop_eq maxSize (out.length + maxSize + 2) (wsInflateCap data.length) stream.ended [] out (Nat.zero_le _) short
    (by simpa using small) (by rw [length_nil]; omega) (Nat.lt_of_lt_of_le (by decide) cap.1) (by omega)
  rw [wsDeflateDecompress, wsDeflateInput_eq (by omega), feeds]
  dsimp only
  rw [loop, length_nil, Nat.zero_add]
  exact apply_ite (Option.map _) _ _ _

theorem any_final_upToFinal (blocks : List Block) : (upToFinal blocks).any Block.final = blocks.any Block.final := by
  induction blocks with
  | nil => rfl
  | cons block rest ih =>
    unfold upToFinal
    split
    · rename_i final
      simp [final]
    · rw [any_cons, any_cons, ih]

theorem afterFinal_eq_nil {blocks : List Block} (none : blocks.any Block.final = false) : afterFinal blocks = [] := by
  induction blocks with
  | nil => rfl
  | cons block rest ih =>
    rw [any_cons, or_eq_false_iff] at none
    rw [afterFinal, none.1, if_neg (by decide)]
    exact ih none.2

/-- A running stream that holds at least the window of the sender gives the data up to a final block. -/
theorem InflateStream.feed_expands {stream : InflateStream}
    (running : stream.ended = false) (holds : stream.out = before ++ window) (expands : Expands window msg) :
    ∃ given late, msg.2 = given ++ late ∧ (late = [] ↔ tokensOf (afterFinal (blocksOf msg.1)) = []) ∧
      stream.feed (msg.1 ++ wsDeflateTail) =
        some (given, ⟨before ++ window ++ given, (blocksOf msg.1).any Block.final⟩) := by
  obtain ⟨blocks, read, emits⟩ := expands
  have is : blocksOf msg.1 = blocks := by rw [blocksOf, read]; rfl
  rw [← tokensOf_upToFinal_append, emitAll_append] at emits
  obtain ⟨middle, early, rest⟩ := Option.bind_eq_some_iff.mp emits
  obtain ⟨given, rfl, -⟩ := emitAll_extends early
  obtain ⟨late, whole, empty⟩ := emitAll_extends rest
  rw [append_assoc, append_cancel_left_eq] at whole
  refine ⟨given, late, whole, by rw [is]; exact empty, ?_⟩
  have out : emitAll stream.out (tokensOf (upToFinal blocks)) = some (stream.out ++ given) := by
    rw [holds, append_assoc]
    exact emitAll_prepend before early
  rw [feed, running, if_neg (by decide), readStream, readStreamFrom_eq read, is, ← any_final_upToFinal, ← holds]
  change (emitAll stream.out (tokensOf (upToFinal blocks))).bind _ = _
  rw [out]
  change some (List.drop stream.out.length (stream.out ++ given), _) = _
  rw [drop_left]

theorem decompressAll_cons_iff {payloads datas : List (List UInt8)} (running : ctx.inflate.ended = false)
    (holds : ctx.inflate.out = before ++ window) (expands : Expands window msg) (short : Short msg) :
    decompressAll ctx maxSize (msg.1 :: payloads) = some (msg.2 :: datas) ↔
      tokensOf (afterFinal (blocksOf msg.1)) = [] ∧ Fits maxSize msg ∧
      decompressAll
        { ctx with
          inflate := if ctx.noContextTakeover then .init
            else ⟨before ++ window ++ msg.2, (blocksOf msg.1).any Block.final⟩ } maxSize payloads = some datas := by
  obtain ⟨given, late, whole, empty, feeds⟩ := feed_expands running holds expands
  have few : given.length < 2 ^ 32 := Nat.lt_of_le_of_lt (by rw [whole, length_append]; omega) short.2
  rw [decompressAll, wsDeflateDecompress_eq short.1 (.inr few) feeds, ← empty]
  constructor
  · intro right
    split at right
    · rename_i fits
      obtain ⟨others, rest, is⟩ := Option.map_eq_some_iff.mp right
      obtain ⟨rfl, rfl⟩ := List.cons.inj is
      have none : late = [] := append_right_eq_self.mp whole.symm
      exact ⟨none, fits, rest⟩
    · cases right
  · rintro ⟨none, fits, rest⟩
    rw [none, append_nil] at whole
    rw [← whole, if_pos (show HasRoom _ _ _ _ from fits), Option.bind_some]
    exact congrArg (Option.map _) rest

theorem decompressAll_ended (ended : ctx.inflate.ended = true)
    (kept : ctx.noContextTakeover = false) {payloads : List (List UInt8)}
    (short : ∀ payload ∈ payloads, wsInflateCap payload.length < 2 ^ 32) :
    decompressAll ctx maxSize payloads = some (payloads.map fun _ => []) := by
  induction payloads with
  | nil => rfl
  | cons payload rest ih =>
    obtain ⟨first, others⟩ := forall_mem_cons.mp short
    have room : HasRoom maxSize (wsInflateCap payload.length) ([] : List UInt8).length ctx.inflate.ended :=
      .inr (.inl (by rw [wsInflateCap, length_nil]; omega))
    have nothing := @wsDeflateDecompress_eq ctx maxSize payload [] ctx.inflate first (.inr (by decide))
      (by rw [feed, if_pos ended])
    rw [if_pos room, if_neg (by rw [kept]; decide)] at nothing
    rw [decompressAll, nothing, Option.bind_some]
    dsimp only
    rw [ih others]
    rfl

theorem Expands.tokens_eq_nil (expands : Expands window msg) (empty : msg.2 = []) : tokensOf (blocksOf msg.1) = [] := by
  obtain ⟨blocks, read, emits⟩ := expands
  obtain ⟨more, is, none⟩ := emitAll_extends emits
  rw [append_cancel_left_eq] at is
  rw [blocksOf, read]
  exact none.mp (is.symm.trans empty)

theorem InTime.of_empty
    (follows : Follows noContextTakeover window history) (empty : ∀ msg ∈ history, msg.2 = []) : InTime kept history := by
  induction history generalizing window with
  | nil => trivial
  | cons msg rest ih =>
    have tokens := follows.1.tokens_eq_nil (empty msg (mem_cons_self ..))
    rw [← tokensOf_upToFinal_append] at tokens
    have rest := fun later member => empty later (mem_cons_of_mem _ member)
    exact ⟨(append_eq_nil_iff.mp tokens).2, fun _ => .inr rest, ih follows.2 rest⟩

theorem Fits.of_empty (empty : msg.2 = []) : Fits maxSize msg := by
  refine .inr (.inl ?_)
  rw [empty, wsInflateCap]
  show 0 < _
  omega

theorem all_eq_nil_iff (history : List Compressed) :
    (history.map Prod.fst).map (fun _ => ([] : List UInt8)) = history.map Prod.snd ↔ ∀ msg ∈ history, msg.2 = [] := by
  induction history with
  | nil => simp
  | cons msg rest ih =>
    simp only [map_cons, List.cons.injEq, ih, forall_mem_cons]
    exact and_congr_left fun _ => eq_comm

/-- An end that resets its decompressor only where the sender starts anew gets every message, up to final blocks and
to its limit. -/
theorem decompressAll_iff (agrees : ctx.noContextTakeover = true → noContextTakeover = true)
    (running : ctx.inflate.ended = false) (holds : ctx.inflate.out = before ++ window)
    (follows : Follows noContextTakeover window history) (short : ∀ msg ∈ history, Short msg) :
    decompressAll ctx maxSize (history.map Prod.fst) = some (history.map Prod.snd) ↔
      InTime ctx.noContextTakeover history ∧ ∀ msg ∈ history, Fits maxSize msg := by
  induction history generalizing ctx before window with
  | nil => exact iff_of_true rfl ⟨trivial, fun _ member => absurd member not_mem_nil⟩
  | cons msg rest ih =>
    obtain ⟨first, short⟩ := forall_mem_cons.mp short
    rw [map_cons, map_cons, decompressAll_cons_iff running holds follows.1 first, forall_mem_cons, InTime]
    suffices later : decompressAll _ maxSize (rest.map Prod.fst) = some (rest.map Prod.snd) ↔
        ((blocksOf msg.1).any Block.final = true → ctx.noContextTakeover = true ∨ ∀ later ∈ rest, later.2 = []) ∧
        InTime ctx.noContextTakeover rest ∧ ∀ msg ∈ rest, Fits maxSize msg by
      rw [later]
      tauto
    have next := follows.2
    cases flag : ctx.noContextTakeover with
    | true =>
      -- the stream starts anew, and so does the sender
      cases agrees flag
      rw [if_pos rfl, @ih ⟨true, ctx.deflate, .init⟩ [] [] (fun _ => rfl) rfl rfl next short]
      exact ⟨fun holds => ⟨fun _ => .inl rfl, holds⟩, And.right⟩
    | false =>
      cases final : (blocksOf msg.1).any Block.final with
      | false =>
        have split : before ++ window ++ msg.2 = (if noContextTakeover then before ++ window ++ msg.2 else before) ++
              if noContextTakeover then [] else window ++ msg.2 := by
          cases noContextTakeover
          · exact append_assoc ..
          · exact (append_nil _).symm
        rw [if_neg (by decide), @ih ⟨false, ctx.deflate, ⟨_, false⟩⟩ _ _ nofun rfl split next short]
        exact ⟨fun holds => ⟨nofun, holds⟩, And.right⟩
      | true =>
        have caps : ∀ payload ∈ rest.map Prod.fst, wsInflateCap payload.length < 2 ^ 32 := by
          simpa using fun payload data member => (short (payload, data) member).1
        rw [if_neg (by decide), decompressAll_ended rfl rfl caps, Option.some_inj, all_eq_nil_iff]
        constructor
        · intro empty
          exact ⟨fun _ => .inr empty, .of_empty next empty, fun later member => .of_empty (empty later member)⟩
        · rintro ⟨none, -⟩
          exact (none rfl).resolve_left (by decide)

theorem InTime.of_unfinished (none : ∀ msg ∈ history, Unfinished msg) : InTime kept history := by
  induction history with
  | nil => trivial
  | cons msg rest ih =>
    have notFinal : (blocksOf msg.1).any Block.final = false := by
      rw [any_eq_false]
      intro block member
      rw [none msg (mem_cons_self ..) block member]
      decide
    refine ⟨?_, fun final => absurd (notFinal.symm.trans final) (by decide),
      ih fun later member => none later (mem_cons_of_mem _ member)⟩
    rw [afterFinal_eq_nil notFinal]
    rfl

theorem wsDeflateCompress_eq {data payload : List UInt8} (small : data.length < 2 ^ 32)
    (flushes : deflate ctx.deflate data = payload ++ wsDeflateTail) :
    wsDeflateCompress deflate ctx data =
      (payload, { ctx with deflate := if ctx.noContextTakeover then [] else ctx.deflate ++ data }) := by
  have ends : wsDeflateTail.isSuffixOf (payload ++ wsDeflateTail) = true := by
    rw [isSuffixOf_iff_suffix]
    exact suffix_append ..
  have length : (payload ++ wsDeflateTail).length - 4 = payload.length := by
    rw [length_append]
    exact Nat.add_sub_cancel ..
  rw [wsDeflateCompress, mzUint32, Nat.mod_eq_of_lt small, take_length, flushes, if_pos ends, length, take_left]

/-- An end that starts anew where it has to is one that a peer can follow. -/
theorem compressAll_follows (sound : deflate.Sound) {own : Bool}
    (agrees : own = true → ctx.noContextTakeover = true) {datas : List (List UInt8)}
    (small : ∀ data ∈ datas, data.length < 2 ^ 31) :
    Follows own (before ++ ctx.deflate) (compressAll deflate ctx datas).1 := by
  induction datas generalizing ctx before with
  | nil => trivial
  | cons data rest ih =>
    obtain ⟨payload, flushes, blocks, read, emits⟩ := sound ctx.deflate data
    obtain ⟨first, small⟩ := forall_mem_cons.mp small
    rw [compressAll, wsDeflateCompress_eq (by omega) flushes]
    refine ⟨⟨blocks, read, by rw [append_assoc]; exact emitAll_prepend before emits⟩, ?_⟩
    cases flag : ctx.noContextTakeover with
    | true =>
      rw [if_pos rfl]
      have later := @ih ⟨true, [], ctx.inflate⟩ (if own then [] else before ++ ctx.deflate ++ data) (fun _ => rfl) small
      rw [append_nil] at later
      exact later
    | false =>
      have keeps : own = false := eq_false_iff.mpr fun is => absurd (flag.symm.trans (agrees is)) (by decide)
      have later := @ih ⟨false, ctx.deflate ++ data, ctx.inflate⟩ before
        (fun is => absurd (keeps.symm.trans is) (by decide)) small
      rw [keeps, if_neg (by decide), append_assoc]
      rw [keeps] at later
      exact later

theorem compressAll_reset (resets : ctx.noContextTakeover = true)
    (fresh : ctx.deflate = []) (datas : List (List UInt8)) : (compressAll deflate ctx datas).2.deflate = [] := by
  induction datas generalizing ctx with
  | nil => exact fresh
  | cons data rest ih => exact ih resets (if_pos resets)

/-- The parameter of the answer that binds the end itself. -/
def WsDeflateOffer.own (offer : WsDeflateOffer) (isClient : Bool) : Bool :=
  if isClient then offer.clientNoContextTakeover else offer.serverNoContextTakeover

/-- The parameter of the answer that binds the peer. -/
def WsDeflateOffer.peer (offer : WsDeflateOffer) (isClient : Bool) : Bool := offer.own !isClient

/-- The parameters and options with which one flag does for both directions. -/
def WsDeflateOffer.Agrees (offer : WsDeflateOffer) (isClient : Bool) (opts : WsDeflateOpts) : Prop :=
  if isClient then
    (offer.clientNoContextTakeover = true → offer.serverNoContextTakeover = true) ∧
    (opts.deflateContextTakeover = true ∨ offer.serverNoContextTakeover = true)
  else offer.serverNoContextTakeover = true → offer.clientNoContextTakeover = true

theorem wsNegotiate_ctx {value : Option (List UInt8)}
    (negotiated : wsNegotiate isClient opts value = some (ctx, offer)) :
    ctx = wsDeflateInit (offer.serverNoContextTakeover || isClient && !opts.deflateContextTakeover) := by
  unfold wsNegotiate at negotiated
  cases isClient with
  | true =>
    obtain ⟨server, -, is⟩ := Option.map_eq_some_iff.mp negotiated
    cases is
    rfl
  | false =>
    obtain ⟨server, -, is⟩ := Option.map_eq_some_iff.mp negotiated
    cases is
    simp

theorem WsDeflateOffer.agrees_iff {flag : Bool}
    (is : flag = (offer.serverNoContextTakeover || isClient && !opts.deflateContextTakeover)) :
    (offer.own isClient = true → flag = true) ∧ (flag = true → offer.peer isClient = true) ↔
      offer.Agrees isClient opts := by
  subst is
  obtain ⟨server, client⟩ := offer
  cases isClient <;> cases server <;> cases client <;> cases takeover : opts.deflateContextTakeover <;>
    simp [WsDeflateOffer.own, WsDeflateOffer.peer, WsDeflateOffer.Agrees, takeover]

/-- The word twice, the second time as a copy of the first. -/
def helloTwice : List Compressed :=
  [([0xF2, 0x48, 0xCD, 0xC9, 0xC9, 0x07, 0x00], ascii "Hello"), ([0xF2, 0x00, 0x11, 0x00, 0x00], ascii "Hello")]

theorem helloTwice_follows : Follows false [] helloTwice := by
  have first : Expands [] helloTwice[0] := by
    refine ⟨blocksOf helloTwice[0].1, ?_, ?_⟩ <;> decide +kernel
  have second : Expands (ascii "Hello") helloTwice[1] := by
    refine ⟨blocksOf helloTwice[1].1, ?_, ?_⟩ <;> decide +kernel
  exact ⟨first, second, trivial⟩

/-- What both directions need of the contexts, and when they have it. One flag resets the compressor and the
decompressor, so it has to be set if the end may not take its own window over, and must not be set if the peer may. -/
theorem ws_deflate_contexts {isClient : Bool} {opts : WsDeflateOpts} {value : Option (List UInt8)} {ctx : WsDeflateCtx}
    {offer : WsDeflateOffer} (negotiated : wsNegotiate isClient opts value = some (ctx, offer)) :
    (((∀ deflate datas, offer.own isClient = true → (compressAll deflate ctx datas).2.deflate = []) ∧
      ∀ history maxSize, Follows (offer.peer isClient) [] history →
        (∀ msg ∈ history, Short msg ∧ Unfinished msg ∧ Fits maxSize msg) →
        decompressAll ctx maxSize (history.map Prod.fst) = some (history.map Prod.snd)) ↔
      offer.Agrees isClient opts) ∧
    (offer.Agrees isClient opts → (∀ deflate : Deflater, deflate.Sound → ∀ datas, (∀ data ∈ datas, data.length < 2 ^ 31) →
        Follows (offer.own isClient) [] (compressAll deflate ctx datas).1) ∧
      ∀ history maxSize, Follows (offer.peer isClient) [] history → (∀ msg ∈ history, Short msg) →
        (decompressAll ctx maxSize (history.map Prod.fst) = some (history.map Prod.snd) ↔
          InTime ctx.noContextTakeover history ∧ ∀ msg ∈ history, Fits maxSize msg)) := by
  have is := wsNegotiate_ctx negotiated
  generalize flag : (offer.serverNoContextTakeover || isClient && !opts.deflateContextTakeover) = set at is
  subst is
  rw [← WsDeflateOffer.agrees_iff flag.symm]
  have right : (set = true → offer.peer isClient = true) → ∀ history maxSize, Follows (offer.peer isClient) [] history →
      (∀ msg ∈ history, Short msg) → (decompressAll (wsDeflateInit set) maxSize (history.map Prod.fst) = some (history.map Prod.snd) ↔
        InTime set history ∧ ∀ msg ∈ history, Fits maxSize msg) := fun agrees history maxSize follows short =>
    @decompressAll_iff (wsDeflateInit set) _ [] [] history maxSize agrees rfl rfl follows short
  refine ⟨⟨?_, ?_⟩, ?_⟩
  · rintro ⟨resets, decompresses⟩
    constructor
    · intro own
      by_contra notSet
      have reset := resets (fun _ _ => []) [[0x61]] own
      rw [Bool.eq_false_iff.mpr notSet] at reset
      exact absurd reset (by decide)
    · rintro rfl
      by_contra takesOver
      rw [Bool.eq_false_iff.mpr takesOver] at decompresses
      have twice := decompresses helloTwice 0 helloTwice_follows (by
        intro msg member
        refine ⟨?_, ?_, .inl rfl⟩ <;> revert msg
        · unfold Short
          decide
        · unfold Unfinished
          decide +kernel)
      exact absurd twice (by decide +kernel)
  · rintro ⟨sends, receives⟩
    refine ⟨fun deflate datas own => compressAll_reset (sends own) rfl datas, fun history maxSize follows good => ?_⟩
    exact (right receives history maxSize follows fun msg member => (good msg member).1).mpr
      ⟨.of_unfinished fun msg member => (good msg member).2.1, fun msg member => (good msg member).2.2⟩
  · rintro ⟨sends, receives⟩
    exact ⟨fun deflate sound datas => @compressAll_follows (wsDeflateInit set) [] deflate sound _ sends datas, right receives⟩

/-- With no parameters both ends keep their windows, and the copy is understood. -/
theorem ws_deflate_contexts_kept :
    wsNegotiate false ⟨true, true⟩ (some (ascii "permessage-deflate")) = some (wsDeflateInit false, ⟨false, false⟩) ∧
    decompressAll (wsDeflateInit false) 1024 (helloTwice.map Prod.fst) = some (helloTwice.map Prod.snd) := by
  have negotiated : wsNegotiate false ⟨true, true⟩ (some (ascii "permessage-deflate")) =
      some (wsDeflateInit false, ⟨false, false⟩) := by decide +kernel
  have both := (ws_deflate_contexts negotiated).1.mpr (by simp [WsDeflateOffer.Agrees])
  refine ⟨negotiated, both.2 helloTwice 1024 helloTwice_follows ?_⟩
  unfold Short Unfinished Fits
  decide +kernel

/-- A server that is asked not to keep its own window forgets that of the client; a client that is told not to keep its
own window keeps it; and with no parameters nothing comes out after a final block. -/
theorem ws_deflate_contexts_mixed : (∃ ctx offer, wsNegotiate false ⟨true, true⟩
        (some (ascii "permessage-deflate; server_no_context_takeover")) = some (ctx, offer) ∧
      Follows (offer.peer false) [] helloTwice ∧
      decompressAll ctx 1024 (helloTwice.map Prod.fst) ≠ some (helloTwice.map Prod.snd)) ∧
    (∃ ctx offer, wsNegotiate true ⟨true, true⟩
        (some (ascii "permessage-deflate; client_no_context_takeover")) = some (ctx, offer) ∧
      offer.own true = true ∧ (compressAll (fun _ data => data) ctx [ascii "Hello"]).2.deflate ≠ []) ∧
    ∃ ctx offer, wsNegotiate false ⟨true, true⟩ (some (ascii "permessage-deflate")) = some (ctx, offer) ∧
      Expands [] ([0xF3, 0x48, 0xCD, 0xC9, 0xC9, 0x07, 0x00, 0x00], ascii "Hello") ∧
      decompressAll ctx 1024 [[0xF3, 0x48, 0xCD, 0xC9, 0xC9, 0x07, 0x00, 0x00],
        [0xF2, 0x48, 0xCD, 0xC9, 0xC9, 0x07, 0x00]] = some [ascii "Hello", []] := by
  refine ⟨⟨wsDeflateInit true, ⟨true, false⟩, ?_, helloTwice_follows, ?_⟩,
    ⟨wsDeflateInit false, ⟨false, true⟩, ?_, rfl, ?_⟩, ⟨wsDeflateInit false, ⟨false, false⟩, ?_, ?_, ?_⟩⟩
  · decide +kernel
  · decide +kernel
  · decide +kernel
  · decide +kernel
  · decide +kernel
  · exact ⟨blocksOf [0xF3, 0x48, 0xCD, 0xC9, 0xC9, 0x07, 0x00, 0x00], by decide +kernel, by decide +kernel⟩
  · decide +kernel

/-- Data within the limit has a first buffer whose size a `mz_uint32` holds, and if it is as long as the limit, room to
spare there or a final block; longer data has no room in the first buffer. -/
def MeetsLimit (maxSize cap len : Nat) (final : Bool) : Prop :=
  (len ≤ maxSize → cap < 2 ^ 32 ∧ (len = maxSize → maxSize < cap ∨ final = true)) ∧
  (maxSize < len → mzUint32 cap < len ∨ mzUint32 cap = len ∧ final = false)

/-- Where the limit is exact. A stream that met a final block gives nothing any more. -/
def ExactLimit (ctx : WsDeflateCtx) (maxSize : Nat) (msg : Compressed) : Prop :=
  if ctx.inflate.ended then msg.2 = [] ∧ wsInflateCap msg.1.length < 2 ^ 32
  else MeetsLimit maxSize (wsInflateCap msg.1.length) msg.2.length ((blocksOf msg.1).any Block.final)

/-- A limit within the first buffer leaves it at that. -/
theorem wsInflateLoop_first {rounds cap : Nat} {ended : Bool} {rest : List UInt8} (limited : 0 < maxSize)
    (within : maxSize ≤ cap) : (wsInflateLoop maxSize ended (rounds + 1) cap [] rest).isSome = true ↔
      rest.length < mzUint32 cap ∨ ended = true ∧ rest.length = mzUint32 cap := by
  unfold wsInflateLoop
  rw [length_nil, Nat.sub_zero]
  generalize mzUint32 cap = room
  dsimp only
  split
  · rename_i whole
    simp only [and_eq_true, decide_eq_true_eq] at whole
    simp [whole.1]
    omega
  rename_i notWhole
  simp only [and_eq_true, decide_eq_true_eq] at notWhole
  split
  · exact iff_of_true rfl (.inl (by omega))
  · rw [if_pos (by split <;> omega)]
    refine iff_of_false (by decide) ?_
    rintro (less | ⟨ends, equal⟩)
    · omega
    · exact notWhole ⟨ends, by omega⟩

/-- A first buffer whose size is lost in the conversion gives too much. -/
theorem wsInflateLoop_long {rounds cap : Nat} {ended : Bool} {rest out : List UInt8} (large : 2 ^ 32 ≤ cap)
    (returns : wsInflateLoop maxSize ended rounds cap [] rest = some out) : rest.length + 2 ^ 32 ≤ out.length := by
  have longer := wsInflateLoop_longer (Nat.zero_le _) returns
  rw [length_nil, Nat.sub_zero, mzUint32] at longer
  omega

/-- The data comes out if it is within the limit, and nothing otherwise. -/
def Exactly (maxSize : Nat) (data : List UInt8) (result : Option (List UInt8)) : Prop :=
  (result.isSome = true ↔ data.length ≤ maxSize) ∧ ∀ out, result = some out → out = data

section

variable {cap : Nat} {data : List UInt8} (limited : 0 < maxSize) (large : 256 ≤ cap)
  (bounded : maxSize < 2 ^ 32 ∨ data.length < 2 ^ 32)
include limited large bounded

theorem wsInflateLoop_exactly {final : Bool} :
    Exactly maxSize data (wsInflateLoop maxSize final (data.length + maxSize + 2) cap [] data) ↔
      MeetsLimit maxSize cap data.length final := by
  unfold MeetsLimit
  by_cases short : cap < 2 ^ 32
  · rw [@wsInflateLoop_eq maxSize _ cap final [] data (Nat.zero_le _) short (by simp; omega) (by simp; omega)
      (by omega) (by omega), mzUint32, Nat.mod_eq_of_lt short, length_nil, Nat.zero_add, nil_append]
    trans (HasRoom maxSize cap data.length final ↔ data.length ≤ maxSize)
    · by_cases room : HasRoom maxSize cap data.length final <;> simp [Exactly, room]
    · unfold HasRoom
      cases final <;> simp <;> omega
  · trans (wsInflateLoop maxSize final (data.length + maxSize + 2) cap [] data).isSome = false ∧ maxSize < data.length
    · cases result : wsInflateLoop maxSize final (data.length + maxSize + 2) cap [] data with
      | none => simp [Exactly]
      | some out =>
        have long := wsInflateLoop_long (Nat.le_of_not_lt short) result
        exact iff_of_false (fun right => by rw [right.2 out rfl] at long; omega) (by simp)
    by_cases few : maxSize < 2 ^ 32
    · rw [← Bool.not_eq_true, wsInflateLoop_first limited (by omega)]
      cases final <;> simp <;> omega
    · exact iff_of_false (fun more => by omega) fun exact_ => short (exact_.1 (by omega)).1

theorem wsInflateLoop_exactly_ended :
    Exactly maxSize data (wsInflateLoop maxSize true (0 + maxSize + 2) cap [] []) ↔ data = [] ∧ cap < 2 ^ 32 := by
  by_cases short : cap < 2 ^ 32
  · rw [@wsInflateLoop_eq maxSize _ cap true [] [] (Nat.zero_le _) short (.inr (by decide)) (by simp; omega)
      (by omega) (by omega), if_pos (.inr (.inl (by simp; omega)))]
    refine ⟨fun right => ⟨(right.2 [] rfl).symm, short⟩, ?_⟩
    rintro ⟨rfl, _⟩
    exact ⟨iff_of_true rfl (Nat.zero_le _), fun out is => (Option.some.inj is).symm⟩
  · refine iff_of_false (fun right => ?_) fun exact_ => short exact_.2
    obtain ⟨out, returns⟩ : ∃ out, wsInflateLoop maxSize true (0 + maxSize + 2) cap [] [] = some out := by
      rw [wsInflateLoop]
      simp
    have long := wsInflateLoop_long (Nat.le_of_not_lt short) returns
    have within := right.1.mp (returns ▸ rfl)
    rw [right.2 out returns] at long
    omega

end

/-- The limit is exact where `ExactLimit` says, for payloads that a `mz_uint32` counts and for data or a limit below four
gigabytes. -/
theorem ws_decompress_limit_iff (holds : ctx.inflate.out = before ++ window) (expands : Expands window msg)
    (complete : tokensOf (afterFinal (blocksOf msg.1)) = []) (limited : 0 < maxSize) (input : msg.1.length + 4 < 2 ^ 32)
    (bounded : maxSize < 2 ^ 32 ∨ msg.2.length < 2 ^ 32) :
    (((wsDeflateDecompress ctx msg.1 maxSize).isSome = true ↔ msg.2.length ≤ maxSize) ∧
      ∀ out next, wsDeflateDecompress ctx msg.1 maxSize = some (out, next) → out = msg.2) ↔
    ExactLimit ctx maxSize msg := by
  have large : 256 ≤ wsInflateCap msg.1.length := by unfold wsInflateCap; omega
  have loop : ∀ {out stream}, ctx.inflate.feed (msg.1 ++ wsDeflateTail) = some (out, stream) →
      (wsDeflateDecompress ctx msg.1 maxSize).map Prod.fst =
        wsInflateLoop maxSize stream.ended (out.length + maxSize + 2) (wsInflateCap msg.1.length) [] out := by
    intro out stream feeds
    rw [wsDeflateDecompress, wsDeflateInput_eq input, feeds]
    exact (Option.map_map ..).trans (congrFun Option.map_id _)
  trans Exactly maxSize msg.2 ((wsDeflateDecompress ctx msg.1 maxSize).map Prod.fst)
  · simp [Exactly]
  unfold ExactLimit
  cases ended : ctx.inflate.ended with
  | true =>
    rw [if_pos rfl, loop (by rw [InflateStream.feed, ended]; rfl), ended]
    exact wsInflateLoop_exactly_ended limited large bounded
  | false =>
    obtain ⟨given, late, whole, empty, feeds⟩ := InflateStream.feed_expands ended holds expands
    rw [empty.mpr complete, List.append_nil] at whole
    rw [if_neg (by decide), loop feeds, ← whole]
    exact wsInflateLoop_exactly limited large bounded

theorem ws_decompress_limit_iff_word :
    (wsDeflateDecompress (wsDeflateInit false) helloTwice[0].1 5).isSome = true := by
  have word := @ws_decompress_limit_iff (wsDeflateInit false) [] [] 5 helloTwice[0] rfl helloTwice_follows.1
    (by decide +kernel) (by decide) (by decide) (.inl (by decide))
  exact (word.mpr (by unfold ExactLimit MeetsLimit; decide +kernel)).1.mpr (by decide)

/-- Five bytes come out with a limit of one. -/
theorem ws_decompress_exceeds : ∃ next, Expands [] helloTwice[0] ∧
    wsDeflateDecompress (wsDeflateInit false) helloTwice[0].1 1 = some (ascii "Hello", next) :=
  ⟨⟨false, [], ⟨ascii "Hello", false⟩⟩, helloTwice_follows.1, by decide +kernel⟩

end Xylem.Ws
