import Xylem.Ws.Turn

namespace Xylem.Ws

open Lib List WsEnd

variable {δ : Type} {codec : WsDeflate δ}

/-- Why a step writes a Close frame: it answers one with the payload `data`, or `ws_close` was called. -/
inductive CloseCause
  | echo (data : List UInt8)
  | own (args : CloseArgs)

def CloseCause.payload (junk : WsJunk) : CloseCause → List UInt8
  | .echo data => wsCloseEcho data junk
  | .own args => wsClosePayload { args with code := wsCloseCode args.code } junk

def CloseCause.Ok : CloseCause → Prop
  | .echo data => EchoOk data
  | .own args => ReasonOk args.reason args.reasonLen

variable (σ : WsEnd δ)

/-- The payloads of the Close frames written so far. -/
def WsEnd.closes : List (List UInt8) := (σ.wire.filter (·.opcode = 0x8)).map (·.payload)

/-- The received payload that the next round answers with a Close frame. -/
def WsEnd.echoes (codec : WsDeflate δ) (σ : WsEnd δ) (env : WsEnv) : Option (List UInt8) :=
  if σ.conn.recvBuf = [] || env.rdExpired || σ.conn.closeSent || σ.conn.closed || env.wrExpired then none
  else
    match wsRecvFrame codec σ.conn with
    | .close payload _ => some payload
    | _ => none

/-- The Close frame that a step writes. -/
def WsEnd.closeCause (codec : WsDeflate δ) (σ : WsEnd δ) : WsAct → Option CloseCause
  | .turn env =>
    match σ.rx with
    | .inner _ => (σ.echoes codec env).map .echo
    | _ => none
  | .close args env =>
    let busy := σ.conn.closing || σ.conn.closed || σ.conn.reading || σ.conn.writing
    if busy || σ.conn.closeSent || env.wrExpired then none else some (.own args)
  | _ => none

/-- The step writes no Close frame, or one from a legal payload or reason. -/
def CloseOk (codec : WsDeflate δ) (σ : WsEnd δ) (act : WsAct) : Prop :=
  ∀ cause, σ.closeCause codec act = some cause → cause.Ok

def WsAct.junk : WsAct → WsJunk
  | .turn env => env.junk
  | .finish env => env.junk
  | .tx env => env.junk
  | .close _ env => env.junk
  | _ => .spoiled

/-- The same step over another stack. -/
def WsAct.withJunk (junk : WsJunk) : WsAct → WsAct
  | .turn env => .turn { env with junk }
  | .finish env => .finish { env with junk }
  | .tx env => .tx { env with junk }
  | .close args env => .close args { env with junk }
  | act => act

/-- The frames that wait to be sent are none of them Close frames. -/
def WsEnd.TxPlain : Prop :=
  ∀ call frames, σ.tx = some (call, frames) → ∀ frame ∈ frames, frame.opcode ≠ 0x8

@[simp] theorem WsEnd.abort_wire : σ.abort.wire = σ.wire := rfl
@[simp] theorem WsEnd.abort_tx : σ.abort.tx = σ.tx := rfl
@[simp] theorem WsEnd.abort_closes : σ.abort.closes = σ.closes := rfl

variable {σ τ : WsEnd δ}

theorem WsEnd.closes_congr (wire : τ.wire = σ.wire) : τ.closes = σ.closes := by
  unfold WsEnd.closes
  rw [wire]

theorem WsEnd.writeFrame_tx (σ : WsEnd δ) (env : WsEnv) (frame : WsChunk) : (σ.writeFrame env frame).1.tx = σ.tx := by
  unfold writeFrame
  split
  · rfl
  · dsimp only
    split <;> rfl

variable {env : WsEnv} {act : WsAct} {cause : CloseCause}

theorem WsEnd.writeFrame_closes_other {frame : WsChunk} (other : frame.opcode ≠ 0x8) :
    (σ.writeFrame env frame).1.closes = σ.closes := by
  unfold writeFrame
  split
  · rfl
  · dsimp only
    split <;> simp [WsEnd.closes, other]

theorem WsEnd.writeFrame_closes (σ : WsEnd δ) (env : WsEnv) (payload : List UInt8) :
    (σ.writeFrame env ⟨true, 0x8, payload, false⟩).1.closes =
      σ.closes ++ if σ.conn.closed || env.wrExpired then [] else [payload] := by
  unfold writeFrame
  split
  · rename_i stopped
    simp
  · dsimp only
    split <;> simp [WsEnd.closes]

theorem WsEnd.recvReturns_wire (σ : WsEnd δ) (call : RxCall) (ok : Bool) :
    (σ.recvReturns call ok).wire = σ.wire ∧ (σ.recvReturns call ok).tx = σ.tx := by
  unfold recvReturns
  split
  · exact ⟨rfl, rfl⟩
  · dsimp only
    split <;> exact ⟨rfl, rfl⟩

/-- A Close frame is short, as every control frame. -/
theorem wsFrameDecodeHeader_control {buf : List UInt8} {fh : WsFrameHeader}
    (decoded : wsFrameDecodeHeader buf = .ok fh) (control : wsFrameIsControl fh.opcode = true) :
    fh.payloadLen ≤ 125 ∧ fh.fin = true := by
  unfold wsFrameDecodeHeader at decoded
  split at decoded
  · dsimp only at decoded
    split at decoded
    · cases decoded
    split at decoded
    · cases decoded
    split at decoded
    · cases decoded
    split at decoded
    · cases decoded
    · rename_i passes
      cases decoded
      dsimp only at control
      rw [control] at passes
      simp only [Bool.true_and, Bool.or_eq_true, decide_eq_true_eq, not_or, UInt64.not_lt] at passes
      refine ⟨passes.1, ?_⟩
      simpa [bne] using passes.2
  · cases decoded

theorem WsFrameHeader.payload_length_le (fh : WsFrameHeader) (buf : List UInt8) :
    (fh.payload buf).length ≤ fh.payloadLen.toNat := by
  unfold WsFrameHeader.payload
  split <;> simp [wsFrameApplyMask_length]

theorem wsRecvFrame_close_length {c : WsConn δ} {payload rest : List UInt8}
    (turn : wsRecvFrame codec c = .close payload rest) : payload.length ≤ 125 := by
  unfold wsRecvFrame at turn
  split at turn
  · cases turn
  · cases turn
  rename_i fh decoded
  split at turn
  · cases turn
  split at turn
  · cases turn
  split at turn
  · cases turn
  dsimp only at turn
  split at turn
  · rename_i close
    cases turn
    have short : fh.payloadLen.toNat ≤ 125 := (wsFrameDecodeHeader_control decoded (by rw [close]; rfl)).1
    exact (fh.payload_length_le c.recvBuf).trans short
  split at turn
  · cases turn
  split at turn
  · cases turn
  split at turn
  · exact nomatch turn ▸ wsRecvContinuation_isData c fh _
  · exact nomatch turn ▸ wsRecvData_isData c fh _

section

variable (σ : WsEnd δ) (env : WsEnv) (call : RxCall) (payload rest : List UInt8)

theorem WsEnd.answerPing_closes :
    (σ.answerPing env call payload rest).closes = σ.closes ∧ (σ.answerPing env call payload rest).tx = σ.tx := by
  have closes : (σ.writeFrame env ⟨true, 0xA, payload, false⟩).1.closes = σ.closes :=
    writeFrame_closes_other (show (0xA : UInt8) ≠ 0x8 by decide)
  have tx := σ.writeFrame_tx env ⟨true, 0xA, payload, false⟩
  unfold answerPing
  split
  · rename_i τ wrote
    rw [wrote] at closes tx
    exact ⟨closes, tx⟩
  · rename_i τ wrote
    rw [wrote] at closes tx
    obtain ⟨wire, same⟩ := τ.recvReturns_wire call false
    exact ⟨(closes_congr wire).trans closes, same.trans tx⟩

theorem WsEnd.answerClose_closes : (σ.answerClose env call payload rest).closes = (σ.closes ++
      if σ.conn.closeSent || σ.conn.closed || env.wrExpired then [] else [wsCloseEcho payload env.junk]) ∧
      (σ.answerClose env call payload rest).tx = σ.tx := by
  unfold answerClose
  rw [closes_congr (recvReturns_wire _ _ _).1, (recvReturns_wire _ _ _).2]
  cases σ.conn.closeSent with
  | false => exact ⟨writeFrame_closes _ env _, writeFrame_tx _ env _⟩
  | true => exact ⟨(append_nil _).symm, rfl⟩

end

theorem wsSendChunks_opcode (threshold : Nat) (type : WsType) (useDeflate : Bool) (data : List UInt8) :
    ∀ frame ∈ wsSendChunks threshold type.opcode useDeflate data, frame.opcode ≠ 0x8 := by
  intro frame member close
  have isData := wsSendChunks_isData threshold type useDeflate data frame member
  rw [WsChunk.IsData, close] at isData
  revert isData
  decide

theorem WsEnd.closeHandshake_closes (σ : WsEnd δ) (args : CloseArgs) (env : WsEnv) :
    (σ.closeHandshake args env).closes = (σ.closes ++
      if σ.conn.closeSent || σ.conn.closed || env.wrExpired then []
      else [(CloseCause.own args).payload env.junk]) ∧ (σ.closeHandshake args env).tx = σ.tx := by
  unfold closeHandshake
  dsimp only
  cases σ.conn.closeSent with
  | true =>
    simp only [if_true]
    split <;> exact ⟨(append_nil _).symm, rfl⟩
  | false =>
    simp only [Bool.false_eq_true, if_false]
    split <;> exact ⟨writeFrame_closes _ env _, writeFrame_tx _ env _⟩

theorem WsEnd.close_closes (codec : WsDeflate δ) (σ : WsEnd δ) (args : CloseArgs) (env : WsEnv) :
    (σ.close args env).closes = σ.closes ++ ((σ.closeCause codec (.close args env)).map (·.payload env.junk)).toList ∧
      (σ.close args env).tx = σ.tx := by
  unfold WsEnd.close closeCause
  split
  · rename_i stopped
    rw [stopped]
    exact ⟨(append_nil _).symm, rfl⟩
  rename_i going
  split
  · rename_i busy
    rw [Bool.or_assoc _ σ.conn.reading, busy, Bool.or_true]
    exact ⟨(append_nil _).symm, rfl⟩
  · rename_i free
    have wrote := closeHandshake_closes { σ with conn := { σ.conn with closing := true } } args env
    simp only [Bool.or_eq_true, not_or, Bool.not_eq_true] at going free
    refine ⟨wrote.1.trans ?_, wrote.2⟩
    simp only [going, free, Bool.or_self, Bool.false_or, Bool.or_false]
    cases σ.conn.closeSent <;> cases env.wrExpired <;> rfl

theorem WsEnd.inner_closes (codec : WsDeflate δ) (σ : WsEnd δ) (env : WsEnv) (call : RxCall) :
    (σ.inner codec env call).closes = σ.closes ++ ((σ.echoes codec env).map (wsCloseEcho · env.junk)).toList ∧
      (σ.inner codec env call).tx = σ.tx := by
  unfold WsEnd.inner WsEnd.echoes
  split
  · rename_i empty
    simp only [empty, decide_true, Bool.true_or, if_true]
    exact ⟨(append_nil _).symm, rfl⟩
  rename_i some_
  split
  · rename_i late
    rw [late]
    simp only [Bool.or_true, Bool.true_or, if_true]
    exact ⟨(closes_congr (recvReturns_wire _ _ _).1).trans (append_nil _).symm, (recvReturns_wire _ _ _).2⟩
  rename_i early
  have early : env.rdExpired = false := Bool.not_eq_true _ ▸ early
  cases turn : wsRecvFrame codec σ.conn with
  | close payload rest =>
    obtain ⟨closes, tx⟩ := σ.answerClose_closes env call payload rest
    refine ⟨closes.trans ?_, tx⟩
    simp only [some_, early, decide_false, Bool.false_or]
    split <;> rfl
  | pong payload rest =>
    simp only [ite_self, Option.map_none, Option.toList_none, append_nil]
    exact σ.answerPing_closes env call payload rest
  | more | overrun | next c =>
    simp only [ite_self, Option.map_none, Option.toList_none, append_nil]
    exact ⟨rfl, by trivial⟩
  | fail c | ready c =>
    simp only [ite_self, Option.map_none, Option.toList_none, append_nil]
    exact ⟨closes_congr (recvReturns_wire _ _ _).1, (recvReturns_wire _ _ _).2⟩

section

variable (plain : σ.TxPlain)
include plain

theorem WsEnd.enterWrite_closes {start : WsEnd δ → WsEnd δ}
    (starts : ∀ τ : WsEnd δ, τ.TxPlain → (start τ).wire = τ.wire ∧ (start τ).TxPlain) :
    (σ.enterWrite start).closes = σ.closes ∧ (σ.enterWrite start).TxPlain := by
  unfold WsEnd.enterWrite
  split
  · exact ⟨rfl, plain⟩
  split
  · exact ⟨rfl, plain⟩
  · obtain ⟨wire, keeps⟩ := starts { σ with conn := { σ.conn with writing := true } } plain
    exact ⟨closes_congr wire, keeps⟩

theorem WsEnd.send_closes (codec : WsDeflate δ) (type : WsType) (data : List UInt8) :
    (σ.send codec type data).closes = σ.closes ∧ (σ.send codec type data).TxPlain := by
  refine enterWrite_closes plain fun τ plain => ?_
  split
  · refine ⟨rfl, fun call frames is => ?_⟩
    cases is
    exact wsSendChunks_opcode _ _ _ _
  split
  · exact ⟨rfl, plain⟩
  · refine ⟨rfl, fun call frames is => ?_⟩
    cases is
    exact wsSendChunks_opcode _ _ _ _

theorem WsEnd.ping_closes (data : List UInt8) : (σ.ping data).closes = σ.closes ∧ (σ.ping data).TxPlain := by
  unfold WsEnd.ping
  split
  · exact ⟨rfl, plain⟩
  · refine enterWrite_closes plain fun τ plain => ⟨rfl, fun call frames is => ?_⟩
    cases is
    simp

theorem WsEnd.txStep_closes (moved : σ.txStep env = some τ) : τ.closes = σ.closes ∧ τ.TxPlain := by
  unfold WsEnd.txStep at moved
  split at moved
  · cases moved
  · cases moved
    split <;> exact ⟨rfl, fun _ _ is => nomatch is⟩
  · rename_i call frame rest pending
    have closes : (σ.writeFrame env frame).1.closes = σ.closes :=
      writeFrame_closes_other (plain _ _ pending frame mem_cons_self)
    split at moved
    · rename_i ρ wrote
      cases moved
      rw [wrote] at closes
      refine ⟨closes, fun call' frames is => ?_⟩
      cases is
      exact fun frame member => plain _ _ pending frame (mem_cons_of_mem _ member)
    · rename_i ρ wrote
      cases moved
      rw [wrote] at closes
      exact ⟨closes, fun _ _ is => nomatch is⟩

theorem WsEnd.step_closes (moved : σ.step codec act = some τ) :
    τ.closes = σ.closes ++ ((σ.closeCause codec act).map (·.payload act.junk)).toList ∧ τ.TxPlain := by
  have quiet : ∀ {τ : WsEnd δ}, τ.wire = σ.wire → τ.tx = σ.tx → τ.closes = σ.closes ++ [] ∧ τ.TxPlain :=
    fun wire tx => ⟨(closes_congr wire).trans (append_nil _).symm, by unfold WsEnd.TxPlain; rwa [tx]⟩
  cases act with
  | recv len =>
    cases moved
    unfold WsEnd.recv
    split
    · exact quiet rfl rfl
    dsimp only
    split
    · exact quiet rfl rfl
    split <;> exact quiet rfl rfl
  | turn env =>
    simp only [WsEnd.step, closeCause] at moved ⊢
    split at moved
    · cases moved
      rename_i call at_
      simp only [at_]
      split
      · exact quiet (recvReturns_wire _ _ _).1 (recvReturns_wire _ _ _).2
      · exact quiet rfl rfl
    · cases moved
      rename_i call at_
      obtain ⟨closes, tx⟩ := σ.inner_closes codec env call
      simp only [at_, Option.map_map]
      exact ⟨closes, by unfold WsEnd.TxPlain; rwa [tx]⟩
    · cases moved
  | read chunk =>
    simp only [WsEnd.step] at moved
    split at moved
    · split at moved
      · cases moved
        exact quiet (recvReturns_wire _ _ _).1 (recvReturns_wire _ _ _).2
      split at moved
      · cases moved
        exact quiet rfl rfl
      · cases moved
    · cases moved
  | readFails =>
    simp only [WsEnd.step] at moved
    split at moved
    · cases moved
      exact quiet (recvReturns_wire _ _ _).1 (recvReturns_wire _ _ _).2
    · cases moved
  | finish env =>
    simp only [WsEnd.step] at moved
    split at moved
    · cases moved
      unfold WsEnd.finish
      split
      · split
        · exact quiet rfl rfl
        split <;> exact quiet rfl rfl
      · exact quiet rfl rfl
    · cases moved
  | send type data =>
    simp only [WsEnd.step] at moved
    split at moved
    · cases moved
      obtain ⟨closes, still⟩ := send_closes plain codec type data
      exact ⟨closes.trans (append_nil _).symm, still⟩
    · cases moved
  | ping data =>
    cases moved
    obtain ⟨closes, still⟩ := ping_closes plain data
    exact ⟨closes.trans (append_nil _).symm, still⟩
  | tx env =>
    obtain ⟨closes, still⟩ := txStep_closes plain moved
    exact ⟨closes.trans (append_nil _).symm, still⟩
  | close args env =>
    cases moved
    obtain ⟨closes, tx⟩ := σ.close_closes codec args env
    exact ⟨closes, by unfold WsEnd.TxPlain; rwa [tx]⟩

end

/-- Nothing of the stack is left in an answer to a legal Close frame. -/
theorem WsEnd.inner_withJunk (ok : ∀ data, σ.echoes codec env = some data → EchoOk data)
    (call : RxCall) (junk : WsJunk) : σ.inner codec { env with junk } call = σ.inner codec env call := by
  unfold WsEnd.inner
  split
  · rfl
  dsimp only
  split
  · rfl
  rename_i some_ early
  split
  case h_7 payload rest turn =>
    unfold WsEnd.echoes at ok
    have short := wsRecvFrame_close_length turn
    simp only [turn, some_, early, decide_false, Bool.false_or] at ok
    unfold answerClose writeFrame
    dsimp only
    cases sent : σ.conn.closeSent with
    | true => rfl
    | false =>
      simp only [sent, Bool.false_or, Bool.false_eq_true, if_false] at ok ⊢
      split
      · rfl
      · rename_i writes
        rw [if_neg writes] at ok
        rw [(ok payload rfl).steady short junk env.junk]
  all_goals rfl

/-- A step that writes no Close frame, or a legal one, does not depend on the stack. -/
theorem CloseOk.withJunk (ok : CloseOk codec σ act) (junk : WsJunk) :
    σ.step codec (act.withJunk junk) = σ.step codec act := by
  cases act with
  | turn env =>
    simp only [WsAct.withJunk, WsEnd.step]
    split
    · rfl
    · rename_i call at_
      have legal : ∀ data, σ.echoes codec env = some data → EchoOk data := by
        intro data is
        refine ok (.echo data) ?_
        simp only [closeCause, at_, is, Option.map_some]
      rw [inner_withJunk legal]
    · rfl
  | close args env =>
    simp only [WsAct.withJunk, WsEnd.step, WsEnd.close]
    split
    · rfl
    split
    · rfl
    rename_i going free
    unfold closeHandshake writeFrame
    cases sent : σ.conn.closeSent with
    | true => rfl
    | false =>
      simp only [Bool.false_eq_true, if_false]
      cases late : env.wrExpired with
      | true => simp only [Bool.or_true, if_true]
      | false =>
        have legal := ok (.own args) (by simp [closeCause, going, free, sent, late])
        have steady : wsClosePayload { args with code := wsCloseCode args.code } junk =
            wsClosePayload { args with code := wsCloseCode args.code } env.junk :=
          @ReasonOk.steady { args with code := wsCloseCode args.code } legal _ _
        rw [steady]
  | recv _ | read _ | readFails | finish _ | send _ _ | ping _ | tx _ => rfl

theorem wsCloseCode_legal (code : UInt16) : wsFrameCloseValidateSend (wsCloseCode code) = true := by
  unfold wsCloseCode
  split
  · rfl
  · rename_i given
    simp only [Bool.or_eq_true, not_or, Bool.not_eq_true', Bool.not_eq_false] at given
    exact given.2

/-- The frame that a step writes is legal over every stack exactly if its cause is in order. -/
theorem WsEnd.closeCause_legal_iff (is : σ.closeCause codec act = some cause) :
    (∀ junk, LegalClose (cause.payload junk)) ↔ cause.Ok := by
  cases cause with
  | own args => exact wsClosePayload_legal_iff (wsCloseCode_legal args.code)
  | echo data =>
    refine wsCloseEcho_legal_iff ?_
    unfold closeCause at is
    split at is
    · split at is
      · obtain ⟨payload, echoes, eq⟩ := Option.map_eq_some_iff.mp is
        cases eq
        unfold WsEnd.echoes at echoes
        split at echoes
        · cases echoes
        split at echoes
        · rename_i turn
          cases echoes
          exact wsRecvFrame_close_length turn
        · cases echoes
      · cases is
    · dsimp only at is
      split at is <;> cases is
    · cases is

variable (junk : Nat → WsJunk)

/-- The schedule over other stacks, one for each of its steps. -/
def withJunks (acts : List WsAct) : List WsAct := acts.mapIdx fun i act => act.withJunk (junk i)

theorem withJunks_cons (act : WsAct) (acts : List WsAct) :
    withJunks junk (act :: acts) = act.withJunk (junk 0) :: withJunks (fun i => junk (i + 1)) acts := by
  simp [withJunks, mapIdx_cons]

theorem WsEnd.closeCause_withJunk (σ : WsEnd δ) (act : WsAct) (junk : WsJunk) :
    σ.closeCause codec (act.withJunk junk) = σ.closeCause codec act := by
  cases act <;> rfl

/-- What a run of steps in order never depends on. -/
theorem AllowedRun.withJunks {acts : List WsAct}
    (allowed : AllowedRun (WsEnd.step codec) (CloseOk codec) σ acts) (junk : Nat → WsJunk) :
    runAll (WsEnd.step codec) σ (withJunks junk acts) = runAll (WsEnd.step codec) σ acts := by
  induction acts generalizing σ junk with
  | nil => rfl
  | cons act acts ih =>
    obtain ⟨ok, later⟩ := allowed
    rw [withJunks_cons, runAll, runAll, ok.withJunk]
    cases moved : σ.step codec act with
    | none => rfl
    | some τ => exact ih (later τ moved) _

theorem WsEnd.closeCause_step (is : σ.closeCause codec act = some cause) (junk : WsJunk) :
    ∃ τ, σ.step codec (act.withJunk junk) = some τ ∧ (act.withJunk junk).junk = junk := by
  unfold closeCause at is
  split at is
  · split at is
    · rename_i at_
      simp only [WsAct.withJunk, WsEnd.step, at_]
      exact ⟨_, rfl, rfl⟩
    · cases is
  · exact ⟨_, rfl, rfl⟩
  · cases is

theorem allowedRun_iff_legal (plain : σ.TxPlain) (legal : ∀ payload ∈ σ.closes, LegalClose payload)
    (acts : List WsAct) :
    AllowedRun (WsEnd.step codec) (CloseOk codec) σ acts ↔ ∀ (junk : Nat → WsJunk) (k : Nat) (τ : WsEnd δ),
        runAll (WsEnd.step codec) σ (withJunks junk (acts.take k)) = some τ →
          ∀ payload ∈ τ.closes, LegalClose payload := by
  induction acts generalizing σ with
  | nil =>
    refine ⟨fun _ junk k τ run => ?_, fun _ => trivial⟩
    rw [take_nil] at run
    cases run
    exact legal
  | cons act acts ih =>
    constructor
    · rintro ⟨ok, later⟩ junk k τ run
      cases k with
      | zero => cases run; exact legal
      | succ k =>
        rw [take_succ_cons, withJunks_cons, runAll, ok.withJunk] at run
        obtain ⟨ρ, moved, run⟩ := Option.bind_eq_some_iff.mp run
        obtain ⟨closes, still⟩ := step_closes plain moved
        have legalNext : ∀ payload ∈ ρ.closes, LegalClose payload := by
          intro payload member
          rw [closes, mem_append] at member
          rcases member with old | new
          · exact legal payload old
          · cases cause : σ.closeCause codec act with
            | none => simp [cause] at new
            | some why =>
              rw [cause, Option.map_some, Option.toList_some, mem_singleton] at new
              rw [new]
              exact (closeCause_legal_iff cause).mpr (ok why cause) _
        exact (ih still legalNext).mp (later ρ moved) _ k τ run
    · intro always
      have ok : CloseOk codec σ act := by
        intro cause is
        refine (closeCause_legal_iff is).mp fun junk => ?_
        obtain ⟨τ, moved, same⟩ := closeCause_step is junk
        have closes := (step_closes plain moved).1
        rw [closeCause_withJunk, is, same] at closes
        refine always (fun _ => junk) 1 τ ?_ _ (closes ▸ mem_append_right _ mem_cons_self)
        rw [take_succ_cons, withJunks_cons, runAll, moved]
        rfl
      refine ⟨ok, fun τ moved => ?_⟩
      obtain ⟨closes, still⟩ := step_closes plain moved
      have next : ∀ (junk : Nat → WsJunk) (k : Nat) (ρ : WsEnd δ),
          runAll (WsEnd.step codec) τ (withJunks junk (acts.take k)) = some ρ →
            ∀ payload ∈ ρ.closes, LegalClose payload := by
        intro junk k ρ run
        refine always (fun i => junk (i - 1)) (k + 1) ρ ?_
        rw [take_succ_cons, withJunks_cons, runAll, ok.withJunk, moved]
        exact run
      exact (ih still (next (fun _ => .spoiled) 0 τ rfl)).mpr next

/-- The Close frames of every run are legal and free of the stack exactly for the schedules whose steps are in
order: no Close frame is answered unless its code may be sent and its reason is text, and `ws_close` gets a
reason that is text, absent or dropped. -/
theorem close_frames_legal_iff {δ : Type} (codec : WsDeflate δ) (isClient : Bool) (maxMsgSize threshold : Nat)
    (deflate : Option δ) (leftover : List UInt8) (acts : List WsAct) :
    let init := WsEnd.start (wsHandshakeCreateConn isClient maxMsgSize threshold deflate leftover)
    (AllowedRun (WsEnd.step codec) (CloseOk codec) init acts ↔ ∀ (junk : Nat → WsJunk) (k : Nat) (σ : WsEnd δ),
        runAll (WsEnd.step codec) init (withJunks junk (acts.take k)) = some σ →
          ∀ payload ∈ σ.closes, LegalClose payload) ∧
    (AllowedRun (WsEnd.step codec) (CloseOk codec) init acts → ∀ junk : Nat → WsJunk,
      runAll (WsEnd.step codec) init (withJunks junk acts) = runAll (WsEnd.step codec) init acts) := by
  intro init
  have plain : init.TxPlain := fun _ _ is => nomatch is
  have legal : ∀ payload ∈ init.closes, LegalClose payload := fun _ member => nomatch member
  exact ⟨allowedRun_iff_legal plain legal acts, fun allowed junk => AllowedRun.withJunks allowed junk⟩

def plainCodec : WsDeflate Unit := ⟨fun _ _ => none, fun _ _ _ => none⟩

/-- No deadline has passed and the transport takes what it is given. -/
def WsEnv.calm (key : MaskKey) (junk : WsJunk) : WsEnv := ⟨false, false, true, key, junk⟩

variable (bytes : List UInt8)

/-- A server whose client has sent `bytes`. -/
def sampleServer : WsEnd Unit := .start (wsHandshakeCreateConn false 0 0 none bytes)

/-- `ws_close` without a reason is in order, so its frame is legal over every stack. -/
theorem close_frames_legal_no_reason : AllowedRun (WsEnd.step plainCodec) (CloseOk plainCodec) (sampleServer [])
      [.close ⟨1000, none, 0⟩ (.calm .zero .spoiled)] ∧
    ∀ (junk : Nat → WsJunk) (k : Nat) (σ : WsEnd Unit), runAll (WsEnd.step plainCodec) (sampleServer [])
        (withJunks junk ([.close ⟨1000, none, 0⟩ (.calm .zero .spoiled)].take k)) = some σ →
          ∀ payload ∈ σ.closes, LegalClose payload := by
  have allowed : AllowedRun (WsEnd.step plainCodec) (CloseOk plainCodec) (sampleServer [])
      [.close ⟨1000, none, 0⟩ (.calm .zero .spoiled)] := by
    refine ⟨fun cause is => ?_, fun _ _ => trivial⟩
    cases is
    exact .inr (.inl rfl)
  exact ⟨allowed, (close_frames_legal_iff plainCodec false 0 0 none [] _).1.mp allowed⟩

/-- `ws_recv` up to the answer to the first frame, over the given stack. -/
def sampleRecv (junk : WsJunk) : List WsAct := [.recv 0, .turn (.calm .zero junk), .turn (.calm .zero junk)]

/-- A stack that holds a status code and a byte everywhere. -/
def WsJunk.sample (code : UInt16) (byte : UInt8) : WsJunk := ⟨⟨code, none, 0⟩, fun _ => byte⟩

/-- The Close frames of a run against the transport. -/
def sampleCloses (acts : List WsAct) : Option (List (List UInt8)) :=
  (runAll (WsEnd.step plainCodec) (sampleServer bytes) acts).map (·.closes)

/-- An empty Close frame is answered with the code 1005, which never stands on the wire. A Close frame of one byte is
answered with what the stack happens to hold, and so is a reason given to `ws_close` by its length alone; a reason
that is no text is sent as it is. -/
theorem close_frames_illegal :
    sampleCloses [0x88, 0x00] (sampleRecv .spoiled) = some [[0x03, 0xED]] ∧ ¬LegalClose [0x03, 0xED] ∧
    sampleCloses [0x88, 0x01, 0x00] (sampleRecv (.sample 0 0)) = some [[0x00, 0x00]] ∧
    sampleCloses [0x88, 0x01, 0x00] (sampleRecv (.sample 1000 0)) = some [[0x03, 0xE8]] ∧
    sampleCloses [] [.close ⟨1000, none, 1⟩ (.calm .zero (.sample 0 0x41))] = some [[0x03, 0xE8, 0x41]] ∧
    sampleCloses [] [.close ⟨1000, none, 1⟩ (.calm .zero (.sample 0 0xFF))] = some [[0x03, 0xE8, 0xFF]] ∧
    sampleCloses [] [.close ⟨1000, some fun _ => 0xFF, 1⟩ (.calm .zero .spoiled)] = some [[0x03, 0xE8, 0xFF]] ∧
    ¬LegalClose [0x03, 0xE8, 0xFF] := by
  have code : ¬LegalClose [0x03, 0xED] := by
    intro legal
    have refused := (show LegalClose [((1005 : UInt16) >>> 8).toUInt8, (1005 : UInt16).toUInt8] from legal)
    exact absurd (legalClose_cons.mp refused).1 (by decide)
  have text : ¬LegalClose [0x03, 0xE8, 0xFF] := by
    intro legal
    have refused := (show LegalClose [((1000 : UInt16) >>> 8).toUInt8, (1000 : UInt16).toUInt8, 0xFF] from legal)
    exact not_utf8_ff [] (legalClose_cons.mp refused).2
  refine ⟨by decide +kernel, code, by decide +kernel, by decide +kernel, by decide +kernel, by decide +kernel,
    by decide +kernel, text⟩

end Xylem.Ws
