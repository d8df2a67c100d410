import Xylem.Ws.CloseLegal

namespace Xylem.Ws

open Lib List WsEnd WsFrame

variable {δ : Type} {codec : WsDeflate δ}

/-- The step asks for more bytes, so it makes room for them. -/
def WsEnd.readsOn (codec : WsDeflate δ) (σ : WsEnd δ) : WsAct → Bool
  | .turn env =>
    match σ.rx with
    | .inner _ =>
      if σ.conn.recvBuf = [] then true
      else if env.rdExpired then false
      else
        match wsRecvFrame codec σ.conn with
        | .more => true
        | _ => false
    | _ => false
  | _ => false

/-- A connection that has at most the bytes and the room that another had. -/
structure WsConn.Shrinks (c d : WsConn δ) : Prop where
  limit : d.maxMsgSize = c.maxMsgSize
  room : d.recvCap = c.recvCap
  bytes : d.recvBuf.length ≤ c.recvBuf.length
  frag : d.fragCap ≤ max c.fragCap (max 4096 (2 * c.maxMsgSize))

theorem WsConn.Shrinks.refl (c : WsConn δ) : c.Shrinks c := ⟨rfl, rfl, Nat.le_refl _, Nat.le_max_left _ _⟩

variable {c d : WsConn δ} {len limit bound : Nat} {σ τ : WsEnd δ}

theorem WsConn.Shrinks.of_eq (limit : d.maxMsgSize = c.maxMsgSize) (room : d.recvCap = c.recvCap)
    (bytes : d.recvBuf = c.recvBuf) (frag : d.fragCap = c.fragCap) : c.Shrinks d :=
  ⟨limit, room, (congrArg List.length bytes).le, frag ▸ Nat.le_max_left _ _⟩

theorem WsConn.Shrinks.trans {e : WsConn δ} (first : c.Shrinks d) (second : d.Shrinks e) : c.Shrinks e := by
  refine ⟨second.limit.trans first.limit, second.room.trans first.room, second.bytes.trans first.bytes, ?_⟩
  have one := first.frag
  have two := second.frag
  rw [first.limit] at two
  omega

variable {buf data rest : List UInt8} {inside masked : Bool} {fh : WsFrameHeader} {env : WsEnv} {call : RxCall}
  {act : WsAct} {len7 : UInt8} {size : Nat}

/-- The fragments keep to the message limit, so their buffer to twice that. -/
theorem wsFragAppend_shrinks (appended : wsFragAppend c data len inside = .ok d)
    (limited : 0 < c.maxMsgSize) : c.Shrinks d := by
  unfold wsFragAppend at appended
  dsimp only at appended
  split at appended
  · cases appended
  rename_i within
  split at appended
  · cases appended
  cases appended
  have small : (c.fragBuf.length + len) % 2 ^ 64 ≤ c.maxMsgSize := by
    simp only [Bool.and_eq_true, bne_iff_ne, decide_eq_true_eq] at within
    omega
  refine ⟨rfl, rfl, Nat.le_refl _, ?_⟩
  split
  · have bound := doubling_le 64 (if c.fragCap = 0 then 4096 else c.fragCap) ((c.fragBuf.length + len) % 2 ^ 64)
    unfold wsCapFor
    split at bound <;> rename_i zero <;> simp only [zero, if_true, if_false] <;> omega
  · exact Nat.le_max_left _ _

theorem wsFragAppend_recvBuf (appended : wsFragAppend c data len inside = .ok d) : d.recvBuf = c.recvBuf := by
  unfold wsFragAppend at appended
  dsimp only at appended
  split at appended
  · cases appended
  split at appended <;> cases appended
  rfl

/-- What a round leaves has at most the bytes and the room of `c`. -/
def WsTurn.Shrinks (c : WsConn δ) : WsTurn δ → Prop
  | .fail d => c.Shrinks d
  | .next d => c.Shrinks d
  | .ready d => c.Shrinks d
  | .pong _ rest => rest.length ≤ c.recvBuf.length
  | .close _ rest => rest.length ≤ c.recvBuf.length
  | .more => True
  | .overrun => True

theorem wsRecvFinish_shrinks (fewer : rest.length ≤ c.recvBuf.length) : (wsRecvFinish codec c rest).Shrinks c := by
  unfold wsRecvFinish
  split
  · exact .refl _
  split
  · exact ⟨rfl, rfl, Nat.le_refl _, Nat.zero_le _⟩
  · exact ⟨rfl, rfl, fewer, Nat.zero_le _⟩

theorem WsTurn.Shrinks.trans {turn : WsTurn δ} (first : c.Shrinks d) (second : turn.Shrinks d) : turn.Shrinks c := by
  cases turn with
  | fail _ | next _ | ready _ => exact WsConn.Shrinks.trans first second
  | pong _ _ | close _ _ => exact Nat.le_trans second first.bytes
  | more | overrun => trivial

theorem wsRecvContinuation_shrinks (limited : 0 < c.maxMsgSize) (fewer : rest.length ≤ c.recvBuf.length) :
    (wsRecvContinuation codec c fh rest).Shrinks c := by
  unfold wsRecvContinuation
  split
  · exact .refl _
  split
  · exact .refl _
  · trivial
  · rename_i d appended
    have first := wsFragAppend_shrinks appended limited
    split
    · exact .trans first (wsRecvFinish_shrinks (by rwa [wsFragAppend_recvBuf appended]))
    · exact ⟨first.limit, first.room, fewer, first.frag⟩

theorem wsRecvData_shrinks (limited : 0 < c.maxMsgSize) (fewer : rest.length ≤ c.recvBuf.length) :
    (wsRecvData codec c fh rest).Shrinks c := by
  unfold wsRecvData
  split
  · exact .refl _
  split
  · split
    · exact .refl _
    split
    · trivial
    split
    · exact .refl _
    split
    · exact .of_eq rfl rfl rfl rfl
    · exact ⟨rfl, rfl, fewer, Nat.le_max_left _ _⟩
  · dsimp only
    split
    · exact .of_eq rfl rfl rfl rfl
    · trivial
    · rename_i d appended
      have first := wsFragAppend_shrinks appended limited
      exact ⟨first.limit, first.room, fewer, first.frag⟩

/-- A round never adds bytes or room to the receive buffer, and keeps the fragments to the message limit. -/
theorem wsRecvFrame_shrinks (limited : 0 < c.maxMsgSize) : (wsRecvFrame codec c).Shrinks c := by
  have fewer : ∀ n, (c.recvBuf.drop n).length ≤ c.recvBuf.length := fun n => by
    rw [length_drop]
    exact Nat.sub_le _ _
  unfold wsRecvFrame
  split
  · trivial
  · exact .refl _
  split
  · exact .refl _
  split
  · trivial
  split
  · trivial
  split
  · exact fewer _
  split
  · exact fewer _
  split
  · exact ⟨rfl, rfl, fewer _, Nat.le_max_left _ _⟩
  split
  · exact wsRecvContinuation_shrinks limited (fewer _)
  · exact wsRecvData_shrinks limited (fewer _)

inductive WsEnd.BufStep (codec : WsDeflate δ) (σ : WsEnd δ) (act : WsAct) (τ : WsEnd δ) : Prop
  | keeps : σ.readsOn codec act = false → σ.conn.Shrinks τ.conn → BufStep codec σ act τ
  | grows : σ.readsOn codec act = true →
      τ.conn = wsEnsureRecvBuf σ.conn (σ.conn.recvBuf.length + 4096) → BufStep codec σ act τ
  | reads {chunk : List UInt8} : σ.readsOn codec act = false → σ.conn.recvBuf.length + chunk.length ≤ σ.conn.recvCap →
      τ.conn = { σ.conn with recvBuf := σ.conn.recvBuf ++ chunk } → BufStep codec σ act τ

theorem WsEnd.recvReturns_shrinks (shrinks : c.Shrinks σ.conn) (call : RxCall) (ok : Bool) :
    c.Shrinks (σ.recvReturns call ok).conn := by
  unfold recvReturns
  split
  · exact shrinks
  · dsimp only
    split <;> exact shrinks.trans (.of_eq rfl rfl rfl rfl)

theorem WsEnd.writeFrame_shrinks (σ : WsEnd δ) (env : WsEnv) (frame : WsChunk) :
    σ.conn.Shrinks (σ.writeFrame env frame).1.conn := by
  unfold writeFrame
  split
  · exact .of_eq rfl rfl rfl rfl
  · dsimp only
    split <;> exact .of_eq rfl rfl rfl rfl

theorem asInt_le (n : Nat) : asInt n ≤ n := by
  unfold asInt
  rw [Int.bmod_def]
  split <;> omega

namespace WsEnd

theorem inner_buf (limited : 0 < σ.conn.maxMsgSize) (at_ : σ.rx = .inner call) :
    σ.BufStep codec (.turn env) (σ.inner codec env call) := by
  have shrinks : (wsRecvFrame codec σ.conn).Shrinks σ.conn := wsRecvFrame_shrinks limited
  unfold inner
  split
  · rename_i empty
    exact .grows (by simp [readsOn, at_, empty]) rfl
  rename_i some_
  split
  · rename_i late
    exact .keeps (by simp [readsOn, at_, some_, late]) (recvReturns_shrinks (.refl _) _ _)
  rename_i early
  cases turn : wsRecvFrame codec σ.conn with
  | more => exact .grows (by simp [readsOn, at_, some_, early, turn]) rfl
  | fail c | ready c =>
    have shrinks : σ.conn.Shrinks c := by rwa [turn] at shrinks
    exact .keeps (by simp [readsOn, at_, some_, turn])
      (recvReturns_shrinks shrinks _ _)
  | overrun => exact .keeps (by simp [readsOn, at_, some_, turn]) (.refl _)
  | next c =>
    rw [turn] at shrinks
    exact .keeps (by simp [readsOn, at_, some_, turn]) shrinks
  | pong payload rest =>
    rw [turn] at shrinks
    refine .keeps (by simp [readsOn, at_, some_, turn]) ?_
    have wrote := σ.writeFrame_shrinks env ⟨true, 0xA, payload, false⟩
    dsimp only
    unfold answerPing
    split
    · rename_i τ is
      rw [is] at wrote
      exact ⟨wrote.limit, wrote.room, shrinks, wrote.frag⟩
    · rename_i τ is
      rw [is] at wrote
      exact recvReturns_shrinks wrote _ _
  | close payload rest =>
    rw [turn] at shrinks
    refine .keeps (by simp [readsOn, at_, some_, turn]) ?_
    dsimp only
    refine recvReturns_shrinks ?_ _ _
    split
    · exact ⟨rfl, rfl, shrinks, Nat.le_max_left _ _⟩
    · have wrote := writeFrame_shrinks { σ with conn := { σ.conn with closeReceived := true } } env
        ⟨true, 0x8, wsCloseEcho payload env.junk, false⟩
      exact ⟨wrote.limit, wrote.room, shrinks, wrote.frag⟩

theorem enterWrite_shrinks {start : WsEnd δ → WsEnd δ}
    (starts : ∀ τ : WsEnd δ, τ.conn.Shrinks (start τ).conn) : σ.conn.Shrinks (σ.enterWrite start).conn := by
  unfold enterWrite
  split
  · exact .refl _
  split
  · exact .of_eq rfl rfl rfl rfl
  · have started := starts { σ with conn := { σ.conn with writing := true } }
    exact ⟨started.limit, started.room, started.bytes, started.frag⟩

theorem txStep_shrinks (moved : σ.txStep env = some τ) : σ.conn.Shrinks τ.conn := by
  unfold txStep at moved
  split at moved
  · cases moved
  · cases moved
    split <;> exact .of_eq rfl rfl rfl rfl
  · rename_i call frame rest pending
    have wrote := σ.writeFrame_shrinks env frame
    split at moved
    · rename_i ρ is
      cases moved
      rwa [is] at wrote
    · rename_i ρ is
      cases moved
      rw [is] at wrote
      exact wrote.trans (.of_eq rfl rfl rfl rfl)

theorem closeHandshake_shrinks (σ : WsEnd δ) (args : CloseArgs) (env : WsEnv) :
    σ.conn.Shrinks (σ.closeHandshake args env).conn := by
  unfold closeHandshake
  dsimp only
  by_cases sent : σ.conn.closeSent = true
  · rw [if_pos sent]
    split <;> exact .of_eq rfl rfl rfl rfl
  · rw [if_neg sent]
    have wrote := writeFrame_shrinks { σ with conn := { σ.conn with msg := none } } env
      ⟨true, 0x8, wsClosePayload { args with code := wsCloseCode args.code } env.junk, false⟩
    split <;> exact ⟨wrote.limit, wrote.room, wrote.bytes, wrote.frag⟩

theorem close_shrinks (σ : WsEnd δ) (args : CloseArgs) (env : WsEnv) : σ.conn.Shrinks (σ.close args env).conn := by
  unfold close
  split
  · exact .of_eq rfl rfl rfl rfl
  split
  · exact .of_eq rfl rfl rfl rfl
  · have handshake := closeHandshake_shrinks { σ with conn := { σ.conn with closing := true } } args env
    exact ⟨handshake.limit, handshake.room, handshake.bytes, handshake.frag⟩

theorem finish_shrinks (σ : WsEnd δ) (env : WsEnv) (len : Nat) (ok : Bool) :
    σ.conn.Shrinks (σ.finish env len ok).conn := by
  unfold finish
  split
  · split
    · exact .of_eq rfl rfl rfl rfl
    split <;> exact .of_eq rfl rfl rfl rfl
  · exact .of_eq rfl rfl rfl rfl

theorem recv_shrinks (σ : WsEnd δ) (len : Nat) : σ.conn.Shrinks (σ.recv len).conn := by
  unfold recv
  split
  · exact .refl _
  dsimp only
  split
  · exact .of_eq rfl rfl rfl rfl
  split <;> exact .of_eq rfl rfl rfl rfl

theorem step_buf (limited : 0 < σ.conn.maxMsgSize)
    (fits : σ.conn.recvBuf.length ≤ σ.conn.recvCap) (moved : σ.step codec act = some τ) :
    σ.BufStep codec act τ := by
  cases act with
  | recv len =>
    cases moved
    exact .keeps rfl (σ.recv_shrinks len)
  | turn env =>
    simp only [step] at moved
    split at moved
    · rename_i call at_
      cases moved
      refine .keeps (by simp [readsOn, at_]) ?_
      split
      · exact recvReturns_shrinks (.refl _) _ _
      · exact .refl _
    · rename_i call at_
      cases moved
      exact inner_buf limited at_
    · cases moved
  | read chunk =>
    simp only [step] at moved
    split at moved
    · split at moved
      · cases moved
        exact .keeps rfl (recvReturns_shrinks (.refl _) _ _)
      split at moved
      · rename_i call at_ _ chunk_
        cases moved
        have room := asInt_le (σ.conn.recvCap - σ.conn.recvBuf.length)
        have small := chunk_.2.trans room
        exact .reads rfl (by omega) rfl
      · cases moved
    · cases moved
  | readFails =>
    simp only [step] at moved
    split at moved
    · cases moved
      exact .keeps rfl (recvReturns_shrinks (.refl _) _ _)
    · cases moved
  | finish env =>
    simp only [step] at moved
    split at moved
    · cases moved
      exact .keeps rfl (σ.finish_shrinks env _ _)
    · cases moved
  | send type data =>
    simp only [step] at moved
    split at moved
    · cases moved
      refine .keeps rfl (enterWrite_shrinks fun τ => ?_)
      split
      · exact .refl _
      split <;> exact .of_eq rfl rfl rfl rfl
    · cases moved
  | ping data =>
    cases moved
    refine .keeps rfl ?_
    unfold ping
    split
    · exact .refl _
    · exact enterWrite_shrinks fun τ => .refl _
  | tx env => exact .keeps rfl (txStep_shrinks moved)
  | close args env =>
    cases moved
    exact .keeps rfl (σ.close_shrinks args env)

end WsEnd

theorem wsFrameDecodeLen_none (short : wsFrameDecodeLen len7 rest = none) : rest.length < 8 := by
  unfold wsFrameDecodeLen at short
  split at short
  · cases short
  split at short
  · split at short
    · cases short
    · match rest with
      | [] | [_] => simp
      | a :: b :: _ => rename_i none; exact absurd rfl (none a b _)
  · split at short
    · cases short
    · match rest with
      | [] | [_] | [_, _] | [_, _, _] | [_, _, _, _] | [_, _, _, _, _] | [_, _, _, _, _, _]
      | [_, _, _, _, _, _, _] => simp
      | a :: b :: c :: d :: e :: f :: g :: h :: _ => rename_i none; exact absurd rfl (none a b c d e f g h _)

theorem wsFrameDecodeLen_some {len : UInt64} (read : wsFrameDecodeLen len7 rest = some (len, size)) : size ≤ 8 := by
  unfold wsFrameDecodeLen at read
  split at read
  · cases read; simp
  split at read
  · split at read <;> cases read; simp
  · split at read <;> cases read; simp

theorem wsFrameDecodeKey_none (short : wsFrameDecodeKey masked rest = none) : rest.length < 4 := by
  unfold wsFrameDecodeKey at short
  split at short
  · split at short
    · cases short
    · match rest with
      | [] | [_] | [_, _] | [_, _, _] => simp
      | a :: b :: c :: d :: _ => rename_i none; exact absurd rfl (none a b c d _)
  · cases short

theorem wsFrameDecodeKey_some {key : MaskKey} (read : wsFrameDecodeKey masked rest = some (key, size)) : size ≤ 4 := by
  unfold wsFrameDecodeKey at read
  split at read
  · split at read <;> cases read; simp
  · cases read; simp

/-- A header takes at most fourteen bytes, so fourteen are never too few. -/
theorem wsFrameDecodeHeader_more (short : wsFrameDecodeHeader buf = .more) : buf.length < 14 := by
  unfold wsFrameDecodeHeader at short
  split at short
  · rename_i b0 b1 rest
    dsimp only at short
    simp only [length_cons]
    split at short
    · cases short
    split at short
    · rename_i none
      have := wsFrameDecodeLen_none none
      omega
    rename_i len size read
    split at short
    · rename_i none
      have lenSize := wsFrameDecodeLen_some read
      have keySize := wsFrameDecodeKey_none none
      rw [length_drop] at keySize
      omega
    · split at short <;> cases short
  · match buf with
    | [] | [_] => simp
    | b0 :: b1 :: rest => rename_i none; exact absurd rfl (none b0 b1 rest)

theorem wsFrameDecodeHeader_size (decoded : wsFrameDecodeHeader buf = .ok fh) : fh.headerSize ≤ 14 := by
  unfold wsFrameDecodeHeader at decoded
  split at decoded
  · dsimp only at decoded
    split at decoded
    · cases decoded
    split at decoded
    · cases decoded
    rename_i read
    split at decoded
    · cases decoded
    rename_i key
    split at decoded
    · cases decoded
    cases decoded
    have lenSize := wsFrameDecodeLen_some read
    have keySize := wsFrameDecodeKey_some key
    dsimp only
    omega
  · cases decoded

/-- A frame that is not all there leaves less in the buffer than its header announces. -/
theorem wsRecvFrame_more_length (turn : wsRecvFrame codec c = .more)
    (announced : ∀ fh, wsFrameDecodeHeader c.recvBuf = .ok fh → fh.payloadLen.toNat ≤ limit) :
    c.recvBuf.length ≤ limit + 14 := by
  unfold wsRecvFrame at turn
  split at turn
  · rename_i short
    have := wsFrameDecodeHeader_more short
    omega
  · cases turn
  rename_i fh decoded
  split at turn
  · cases turn
  split at turn
  · rename_i incomplete
    have header := wsFrameDecodeHeader_size decoded
    have payload := announced fh decoded
    have total : fh.total ≤ fh.headerSize + fh.payloadLen.toNat := Nat.mod_le _ _
    omega
  split at turn
  · cases turn
  dsimp only at turn
  split at turn
  · cases turn
  split at turn
  · cases turn
  split at turn
  · cases turn
  split at turn
  · exact nomatch turn ▸ wsRecvContinuation_isData c fh _
  · exact nomatch turn ▸ wsRecvData_isData c fh _

/-- The buffer is as large as needed after as many doublings as that takes, often none. -/
theorem wsEnsureRecvBuf_eq (c : WsConn δ) (needed : Nat) :
    wsEnsureRecvBuf c needed = { c with recvCap := doubling 64 c.recvCap needed } := by
  unfold wsEnsureRecvBuf
  split
  · rename_i enough
    rw [doubling, if_neg (Nat.not_lt.mpr enough)]
  · rfl

/-- What the buffers of a connection with the message limit `limit` keep to. -/
structure WsConn.Caps (limit : Nat) (c : WsConn δ) : Prop where
  limitIs : c.maxMsgSize = limit
  pos : 0 < c.recvCap
  fits : c.recvBuf.length ≤ c.recvCap
  frag : c.fragCap ≤ max 4096 (2 * limit)

theorem WsConn.Caps.step (caps : σ.conn.Caps limit) (limited : 0 < limit)
    (moved : σ.step codec act = some τ) : τ.conn.Caps limit := by
  have limitIs := caps.limitIs
  cases step_buf (by rw [limitIs]; exact limited) caps.fits moved with
  | keeps _ shrinks =>
    have frag := shrinks.frag
    rw [limitIs] at frag
    exact ⟨shrinks.limit.trans limitIs, shrinks.room ▸ caps.pos, shrinks.room ▸ shrinks.bytes.trans caps.fits,
      frag.trans (Nat.max_le.mpr ⟨caps.frag, Nat.le_refl _⟩)⟩
  | grows _ is =>
    have larger := self_le_doubling 64 σ.conn.recvCap (σ.conn.recvBuf.length + 4096)
    rw [is, wsEnsureRecvBuf_eq]
    exact ⟨limitIs, Nat.lt_of_lt_of_le caps.pos larger, caps.fits.trans larger, caps.frag⟩
  | reads _ room is =>
    rw [is]
    exact ⟨limitIs, caps.pos, by simpa using room, caps.frag⟩

/-- `2 * (M + 14 + 4096)` plus the capacities that a connection starts with. -/
def wsMemoryBound (c : WsConn δ) : Nat := 2 * (c.maxMsgSize + 14 + 4096) + (c.recvCap + c.fragCap)

/-- A step that asks for more bytes has at most so many that, with 4096 more, they fit the largest capacity
within the bound. -/
def ReadsWithin (codec : WsDeflate δ) (bound : Nat) (σ : WsEnd δ) (act : WsAct) : Prop :=
  σ.readsOn codec act = true → σ.conn.recvBuf.length + 4096 ≤ roomiest σ.conn.recvCap bound

instance (codec : WsDeflate δ) (bound : Nat) (σ : WsEnd δ) (act : WsAct) : Decidable (ReadsWithin codec bound σ act) :=
  inferInstanceAs (Decidable (_ → _))

/-- The frame at the front of the buffer announces at most `limit` bytes. -/
def AnnouncesWithin (limit : Nat) (σ : WsEnd δ) (_act : WsAct) : Prop :=
  ∀ fh, wsFrameDecodeHeader σ.conn.recvBuf = .ok fh → fh.payloadLen.toNat ≤ limit

theorem WsEnd.readsOn_step (reads : σ.readsOn codec act = true) : ∃ τ, σ.step codec act = some τ := by
  unfold readsOn at reads
  split at reads
  · split at reads
    · rename_i at_
      simp only [step, at_]
      exact ⟨_, rfl⟩
    · cases reads
  · cases reads

/-- The room that a step makes is within the bound exactly under the condition. -/
theorem WsConn.Caps.grown_le_iff (caps : c.Caps limit) (within : c.recvCap ≤ bound) :
    (wsEnsureRecvBuf c (c.recvBuf.length + 4096)).recvCap ≤ bound ↔
      c.recvBuf.length + 4096 ≤ roomiest c.recvCap bound := by
  have pos := caps.pos
  have fits := caps.fits
  rw [wsEnsureRecvBuf_eq]
  exact doubling_le_iff (by omega) pos within

theorem readsWithin_iff (limited : 0 < limit) (large : 2 * (limit + 14 + 4096) ≤ bound)
    (caps : σ.conn.Caps limit) (within : σ.conn.recvCap ≤ bound) (act : WsAct) :
    ReadsWithin codec bound σ act ↔
      ∀ τ, σ.step codec act = some τ → τ.conn.recvCap ≤ bound ∧ τ.conn.fragCap ≤ bound := by
  have exact_ := caps.grown_le_iff within
  constructor
  · intro ok τ moved
    have frag := (caps.step limited moved).frag
    refine ⟨?_, by omega⟩
    cases step_buf (by rw [caps.limitIs]; exact limited) caps.fits moved with
    | keeps _ shrinks => rwa [shrinks.room]
    | grows reads is => rw [is]; exact exact_.mpr (ok reads)
    | reads _ _ is => rwa [is]
  · intro always reads
    obtain ⟨τ, moved⟩ := readsOn_step reads
    cases step_buf (by rw [caps.limitIs]; exact limited) caps.fits moved with
    | grows _ is => exact exact_.mp (is ▸ (always τ moved).1)
    | keeps no _ | reads no _ _ => rw [no] at reads; cases reads

/-- A frame announced within the message limit is received within the bound. -/
theorem AnnouncesWithin.readsWithin (announced : AnnouncesWithin limit σ act)
    (large : 2 * (limit + 14 + 4096) ≤ bound) (caps : σ.conn.Caps limit) (within : σ.conn.recvCap ≤ bound) :
    ReadsWithin codec bound σ act := by
  intro reads
  rw [← caps.grown_le_iff within, wsEnsureRecvBuf_eq]
  have small : σ.conn.recvBuf.length ≤ limit + 14 := by
    unfold readsOn at reads
    split at reads
    · split at reads
      · split at reads
        · rename_i empty
          simp [empty]
        split at reads
        · cases reads
        split at reads
        · rename_i turn
          exact wsRecvFrame_more_length turn announced
        · cases reads
      · cases reads
    · cases reads
  have grown := doubling_le 64 σ.conn.recvCap (σ.conn.recvBuf.length + 4096)
  dsimp only
  omega

theorem wsHandshakeCreateConn_caps (isClient : Bool) (maxMsgSize threshold : Nat) (deflate : Option δ)
    {leftover : List UInt8} (fits : leftover.length ≤ 16384) :
    let c := wsHandshakeCreateConn isClient maxMsgSize threshold deflate leftover
    c.Caps c.maxMsgSize ∧ 0 < c.maxMsgSize := by
  have enough : leftover.length ≤ wsRecvBufInit * 2 ^ 64 := fits.trans (by decide)
  have grown := le_doubling enough
  have larger := self_le_doubling 64 wsRecvBufInit leftover.length
  refine ⟨⟨rfl, ?_, ?_, ?_⟩, ?_⟩
  · simpa [wsHandshakeCreateConn, wsEnsureRecvBuf_eq] using Nat.lt_of_lt_of_le (by decide) larger
  · simpa [wsHandshakeCreateConn, wsEnsureRecvBuf_eq] using grown
  · simp [wsHandshakeCreateConn, wsEnsureRecvBuf_eq]
  · simp only [wsHandshakeCreateConn, wsEnsureRecvBuf_eq]
    split <;> omega

/-- The capacities of a connection stay within `2 * (M + 14 + 4096)` plus those it starts with exactly along the
schedules that never ask for more bytes with too many in the buffer; and they do so as long as no frame announces
more than the message limit. -/
theorem recv_memory_bounded_iff {δ : Type} (codec : WsDeflate δ) (isClient : Bool) (maxMsgSize threshold : Nat)
    (deflate : Option δ) (leftover : List UInt8) (fits : leftover.length ≤ 16384) (acts : List WsAct) :
    let c := wsHandshakeCreateConn isClient maxMsgSize threshold deflate leftover
    (AllowedRun (WsEnd.step codec) (ReadsWithin codec (wsMemoryBound c)) (.start c) acts ↔
      ∀ k σ, runAll (WsEnd.step codec) (.start c) (acts.take k) = some σ →
        σ.conn.recvCap ≤ wsMemoryBound c ∧ σ.conn.fragCap ≤ wsMemoryBound c) ∧
    (AllowedRun (WsEnd.step codec) (AnnouncesWithin c.maxMsgSize) (.start c) acts →
      AllowedRun (WsEnd.step codec) (ReadsWithin codec (wsMemoryBound c)) (.start c) acts) := by
  intro c
  obtain ⟨caps, limited⟩ := wsHandshakeCreateConn_caps isClient maxMsgSize threshold deflate fits
  have large : 2 * (c.maxMsgSize + 14 + 4096) ≤ wsMemoryBound c := Nat.le_add_right _ _
  have room : c.recvCap ≤ wsMemoryBound c := by unfold wsMemoryBound; omega
  have frag : c.fragCap ≤ wsMemoryBound c := by unfold wsMemoryBound; omega
  generalize wsMemoryBound c = bound at large room frag
  constructor
  · exact allowedRun_iff (fun σ : WsEnd δ => σ.conn.Caps c.maxMsgSize)
      (fun σ : WsEnd δ => σ.conn.recvCap ≤ bound ∧ σ.conn.fragCap ≤ bound)
      (fun σ act τ caps _ moved => caps.step limited moved)
      (fun σ act caps good => readsWithin_iff limited large caps good.1 act) caps ⟨room, frag⟩ acts
  · refine AllowedRun.mono (fun σ : WsEnd δ => σ.conn.Caps c.maxMsgSize ∧ σ.conn.recvCap ≤ bound) ?_ ?_ ⟨caps, room⟩
    · rintro σ act τ ⟨caps, room⟩ announced moved
      have reads : ReadsWithin codec bound σ act := announced.readsWithin large caps room
      exact ⟨caps.step limited moved, ((readsWithin_iff limited large caps room act).mp reads τ moved).1⟩
    · rintro σ act ⟨caps, room⟩ announced
      exact announced.readsWithin large caps room

/-- A message arrives in two pieces: with the first byte in the buffer the next read has it doubled. -/
theorem recv_memory_bounded_grows : let round := [.turn (.calm .zero .spoiled), .turn (.calm .zero .spoiled)]
    let acts := .recv 1 :: round ++ .read [0x82] :: round ++ .read [0x81, 0, 0, 0, 0, 7] :: round
    (∃ σ, runAll (WsEnd.step plainCodec) (sampleServer []) acts = some σ ∧ σ.conn.recvCap = 8192) ∧
    ∀ k σ, runAll (WsEnd.step plainCodec) (sampleServer []) (acts.take k) = some σ →
      σ.conn.recvCap ≤ wsMemoryBound (sampleServer []).conn ∧ σ.conn.fragCap ≤ wsMemoryBound (sampleServer []).conn := by
  intro round acts
  refine ⟨⟨_, rfl, by decide +kernel⟩, ?_⟩
  exact (recv_memory_bounded_iff plainCodec false 0 0 none [] (by decide) acts).1.mp (by decide +kernel)

/-- The end with other bytes and another capacity in its receive buffer. -/
def WsEnd.filled (σ : WsEnd δ) (buf : List UInt8) (cap : Nat) : WsEnd δ :=
  { σ with conn := { σ.conn with recvBuf := buf, recvCap := cap } }

theorem WsEnd.filled_readOn (σ : WsEnd δ) (buf : List UInt8) (cap : Nat) (call : RxCall) :
    (σ.filled buf cap).readOn call = { σ.filled buf (doubling 64 cap (buf.length + 4096)) with rx := .reading call } := by
  unfold readOn
  rw [wsEnsureRecvBuf_eq]
  rfl

theorem WsEnd.step_asks (at_ : σ.rx = .inner call) (waits : wsRecvFrame codec σ.conn = .more) :
    σ.step codec (.turn (.calm .zero .spoiled)) = some (σ.readOn call) := by
  simp only [step, at_, inner, WsEnv.calm, waits]
  split <;> rfl

theorem WsEnd.step_read {chunk : List UInt8} (at_ : σ.rx = .reading call) (enough : ¬σ.conn.room ≤ 0)
    (takes : 0 < chunk.length ∧ (chunk.length : Int) ≤ σ.conn.room) :
    σ.step codec (.read chunk) =
      some { σ with conn := { σ.conn with recvBuf := σ.conn.recvBuf ++ chunk }, rx := .top call } := by
  simp only [step, at_]
  rw [if_neg enough, if_pos takes]

/-- The schedule of a round that asks for more bytes, of the read and of the next check. -/
def feeding (chunk : List UInt8) : List WsAct :=
  [.turn (.calm .zero .spoiled), .read chunk, .turn (.calm .zero .spoiled)]

section Feeding

variable {σ : WsEnd δ} {call : RxCall} {frame : WsFrame} {k n cap : Nat}

theorem WsEnd.filled_room (part : k ≤ frame.bytes.length) :
    (σ.filled (frame.bytes.take k) cap).conn.room = asInt (cap - k) := by
  unfold WsConn.room filled
  rw [length_take_of_le part]

theorem WsEnd.filled_asks (at_ : σ.rx = .inner call) (ok : frame.Sendable σ.conn.deflate)
    (part : k < frame.bytes.length) : (σ.filled (frame.bytes.take k) cap).step codec (.turn (.calm .zero .spoiled)) =
      some { σ.filled (frame.bytes.take k) (doubling 64 cap (k + 4096)) with rx := .reading call } := by
  have waits : wsRecvFrame codec (σ.filled (frame.bytes.take k) cap).conn = .more := wsRecvFrame_waits ok part rfl
  rw [step_asks (show (σ.filled _ cap).rx = .inner call from at_) waits, filled_readOn, length_take_of_le part.le]

theorem WsEnd.filled_reads (some_ : 0 < n) (within : k + n ≤ frame.bytes.length) (room : (n : Int) ≤ asInt (cap - k)) :
    WsEnd.step codec { σ.filled (frame.bytes.take k) cap with rx := .reading call }
      (.read ((frame.bytes.drop k).take n)) =
      some { σ.filled (frame.bytes.take (k + n)) cap with rx := .top call } := by
  have is : (σ.filled (frame.bytes.take k) cap).conn.room = asInt (cap - k) := filled_room (by omega)
  have chunk : ((frame.bytes.drop k).take n).length = n := by
    rw [length_take, length_drop]
    omega
  rw [step_read rfl (by rw [is]; omega) ⟨by omega, by rw [is, chunk]; exact room⟩]
  simp only [filled, take_add]

theorem WsEnd.filled_turns (at_ : σ.rx = .inner call) (going : σ.conn.closed = false) (buf : List UInt8) :
    WsEnd.step codec { σ.filled buf cap with rx := .top call } (.turn (.calm .zero .spoiled)) =
      some (σ.filled buf cap) := by
  simp [step, going, WsEnv.calm, filled, at_]

theorem runAll_feeding (at_ : σ.rx = .inner call) (going : σ.conn.closed = false) (ok : frame.Sendable σ.conn.deflate)
    (some_ : 0 < n) (within : k + n ≤ frame.bytes.length) (room : (n : Int) ≤ asInt (doubling 64 cap (k + 4096) - k)) :
    runAll (WsEnd.step codec) (σ.filled (frame.bytes.take k) cap) (feeding ((frame.bytes.drop k).take n)) =
      some (σ.filled (frame.bytes.take (k + n)) (doubling 64 cap (k + 4096))) := by
  rw [feeding, runAll, filled_asks at_ ok (by omega), Option.bind_some, runAll,
    filled_reads some_ within room, Option.bind_some, runAll, filled_turns at_ going]
  rfl

end Feeding

variable (payload : List UInt8)

/-- A whole binary frame that a server sends. -/
def WsFrame.binary : WsFrame := ⟨true, false, 0x2, false, .zero, payload⟩

theorem WsFrame.binary_sendable {payload : List UInt8} (short : payload.length < 2 ^ 63) (deflate : Option δ) :
    (binary payload).Sendable deflate := by
  refine ⟨⟨rfl, show (0x2 : UInt8) < 16 by decide, fun control => ?_, ?_⟩, ?_, rfl⟩
  · cases control
  · exact short.trans (by decide)
  · have header := (binary payload).header_length_le.2
    rw [WsFrame.bytes_length]
    change _ + payload.length < _
    omega

theorem WsFrame.binary_bytes_length : payload.length + 2 ≤ (binary payload).bytes.length := by
  have header := (binary payload).header_length_le.1
  rw [WsFrame.bytes_length]
  change _ ≤ _ + payload.length
  omega

/-- The end of a connection at the head of the inner loop of its first `ws_recv`. -/
def WsEnd.receiving (c : WsConn δ) (len : Nat) : WsEnd δ :=
  { WsEnd.start c with conn := { c with reading := true }, rx := .inner (.recv len) }

/-- A server with a message limit of one byte grows its buffer to 16384 bytes for a frame of which it has read 8192,
and would go on; the bound is 12318. -/
theorem recv_memory_grows_past : let c : WsConn Unit := wsHandshakeCreateConn false 1 0 none []
    wsMemoryBound c = 12318 ∧
    ∃ acts σ, runAll (WsEnd.step plainCodec) (.start c) acts = some σ ∧ σ.conn.recvCap = 16384 := by
  intro c
  obtain ⟨payload, size⟩ : ∃ payload : List UInt8, payload.length = 65535 :=
    ⟨List.replicate 65535 0, List.length_replicate⟩
  have ok := binary_sendable (show payload.length < 2 ^ 63 by omega) (none : Option Unit)
  have long := binary_bytes_length payload
  generalize binary payload = frame at ok long
  have first : runAll (WsEnd.step plainCodec) ((WsEnd.receiving c 0).filled (frame.bytes.take 0) 4096)
      (feeding ((frame.bytes.drop 0).take 4096)) =
      some ((WsEnd.receiving c 0).filled (frame.bytes.take 4096) 4096) :=
    runAll_feeding rfl rfl ok (by decide) (by omega) (by decide +kernel)
  have second : runAll (WsEnd.step plainCodec) ((WsEnd.receiving c 0).filled (frame.bytes.take 4096) 4096)
      (feeding ((frame.bytes.drop 4096).take 4096)) =
      some ((WsEnd.receiving c 0).filled (frame.bytes.take 8192) 8192) :=
    runAll_feeding rfl rfl ok (by decide) (by omega) (by decide +kernel)
  have third : wsRecvFrame plainCodec ((WsEnd.receiving c 0).filled (frame.bytes.take 8192) 8192).conn = .more :=
    wsRecvFrame_waits ok (show 8192 < frame.bytes.length by omega) rfl
  refine ⟨by decide, [WsAct.recv 0, .turn (.calm .zero .spoiled)] ++ (feeding ((frame.bytes.drop 0).take 4096) ++
    (feeding ((frame.bytes.drop 4096).take 4096) ++ [WsAct.turn (.calm .zero .spoiled)])),
    ((WsEnd.receiving c 0).filled (frame.bytes.take 8192) 8192).readOn (.recv 0), ?_, ?_⟩
  · rw [runAll_append, show runAll (WsEnd.step plainCodec) (.start c) [.recv 0, .turn (.calm .zero .spoiled)] =
        some ((WsEnd.receiving c 0).filled (frame.bytes.take 0) 4096) from rfl, Option.bind_some,
      runAll_append, first, Option.bind_some, runAll_append, second, Option.bind_some]
    rw [runAll, step_asks rfl third]
    rfl
  · rw [filled_readOn, List.length_take_of_le (by omega)]
    exact (by decide +kernel : doubling 64 8192 (8192 + 4096) = 16384)

/-- A header with which `_ws_recv_impl` goes on to the payload. -/
def WsConn.Passes (c : WsConn δ) (fh : WsFrameHeader) : Prop :=
  wsFrameDecodeHeader c.recvBuf = .ok fh ∧ (fh.rsv1 && c.deflate.isNone) = false ∧ ¬c.recvBuf.length < fh.total

/-- The payload is in the buffer, and the frame is what is taken out of it, as long as `frame_total` does not wrap. -/
theorem ws_frame_bounds_iff {δ : Type} (c : WsConn δ) (size : c.recvBuf.length < 2 ^ 64) :
    (∀ fh, c.Passes fh → fh.inside c.recvBuf = true ∧
      (c.recvBuf.drop fh.total).length + (fh.headerSize + fh.payloadLen.toNat) = c.recvBuf.length) ↔
    ∀ fh, c.Passes fh → fh.headerSize + fh.payloadLen.toNat < 2 ^ 64 := by
  refine forall₂_congr fun fh passes => ?_
  have fits := Nat.not_lt.mp passes.2.2
  rw [WsFrameHeader.inside, decide_eq_true_eq, List.length_drop]
  unfold WsFrameHeader.total at fits ⊢
  constructor
  · rintro ⟨inside, -⟩
    omega
  · intro small
    rw [Nat.mod_eq_of_lt small] at fits ⊢
    omega

theorem ws_frame_bounds_iff_byte : WsFrameHeader.inside ⟨true, false, 2, false, .zero, 1, 2⟩ [0x82, 1, 97] = true := by
  let c := wsHandshakeCreateConn true 0 0 (none : Option Unit) [0x82, 1, 97]
  refine ((ws_frame_bounds_iff c (by decide)).mpr ?_ _ (by unfold WsConn.Passes; decide +kernel)).1
  rintro _ ⟨⟨⟩, -⟩
  decide

/-- A length of `2 ^ 64 - 10` with its header of ten bytes makes a frame of none. -/
theorem ws_frame_bounds_wrap : ∃ fh, (wsHandshakeCreateConn true 0 0 (none : Option Unit)
    [0x82, 0x7F, 0xFF, 0xFF, 0xFF, 0xFF, 0xFF, 0xFF, 0xFF, 0xF6]).Passes fh ∧ fh.payloadLen.toNat = 2 ^ 64 - 10 :=
  ⟨⟨true, false, 2, false, .zero, 0xFFFFFFFFFFFFFFF6, 10⟩, by unfold WsConn.Passes; decide +kernel, rfl⟩

end Xylem.Ws
