import Xylem.Ws.Callers

namespace Xylem.Ws

open Lib Function WsIo

/-- The part of the protocol that a caller is in. -/
inductive IoSection
  | none
  | tx
  | recv
  | handshake
deriving DecidableEq

def RxOp.part : RxOp → IoSection
  | .recv => .recv
  | .close => .handshake

def WriteFor.part : WriteFor → IoSection
  | .tx _ _ => .tx
  | .pong op | .answer op => op.part
  | .goodbye => .handshake

def CallerPc.part : CallerPc → IoSection
  | .out | .closeAbort => .none
  | .txCheckSent _ _ | .txCheckReceived _ _ | .txNext _ _ | .txAbort | .txLeave => .tx
  | .write _ _ next | .writeAbort next => next.part
  | .rx op _ | .rxAbort op => op.part
  | .rxLeave => .recv
  | .goodbyeCheck _ | .goodbyeSent _ | .closeLoop => .handshake

variable {ι : Type} [DecidableEq ι] (s t : WsIo ι) (i : ι)

/-- What a step of the caller `i` does to the flags that say who is where. -/
inductive SectionStep : Prop
  | stay : (t.pc i).part = (s.pc i).part → t.reading = s.reading → t.writing = s.writing → t.closing = s.closing →
      t.handshakes = s.handshakes → SectionStep
  | enterTx : (s.pc i).part = .none → (t.pc i).part = .tx → s.writing = false → s.closing = false →
      s.closed = false → t.reading = s.reading → t.writing = true → t.closing = false →
      t.handshakes = s.handshakes → SectionStep
  | leaveTx : (s.pc i).part = .tx → (t.pc i).part = .none → t.reading = s.reading → t.writing = false →
      t.closing = s.closing → t.handshakes = s.handshakes → SectionStep
  | enterRx : (s.pc i).part = .none → (t.pc i).part = .recv → s.reading = false → s.closing = false →
      s.closed = false → t.reading = true → t.writing = s.writing → t.closing = false →
      t.handshakes = s.handshakes → SectionStep
  | leaveRx : (s.pc i).part = .recv → (t.pc i).part = .none → t.reading = false → t.writing = s.writing →
      t.closing = s.closing → t.handshakes = s.handshakes → SectionStep
  | shake : (s.pc i).part = .none → (t.pc i).part = .handshake → s.reading = false → s.writing = false →
      s.closing = false → s.closed = false → t.reading = false → t.writing = false → t.closing = true →
      t.handshakes = s.handshakes + 1 → SectionStep
  | shaken : (s.pc i).part = .handshake → (t.pc i).part = .none → t.reading = s.reading → t.writing = s.writing →
      t.closing = s.closing → t.handshakes = s.handshakes → SectionStep
  | refused : (s.pc i).part = .none → (t.pc i).part = .none → t.reading = s.reading → t.writing = s.writing →
      t.closing = true → t.handshakes = s.handshakes → SectionStep

/-- What any step does: the other callers stay where they are, and `transport.close` is called by `_ws_abort` only. -/
structure CallerStep : Prop where
  others : ∀ j, j ≠ i → t.pc j = s.pc j
  moves : SectionStep s t i
  ends : t.closed = s.closed ∧ t.closes = s.closes ∨ t.closed = s.abort.closed ∧ t.closes = s.abort.closes

variable {s t u : WsIo ι} {i : ι} {pc : CallerPc} {env : IoEnv}

@[simp] theorem WsIo.goto_self : (u.goto i pc).pc i = pc := update_self ..

theorem WsIo.goto_others (same : u.pc = s.pc) (j : ι) (other : j ≠ i) : (u.goto i pc).pc j = s.pc j :=
  (update_of_ne other ..).trans (congrFun same j)

section

variable (same : u.pc = s.pc) (part : pc.part = (s.pc i).part) (flags : u.reading = s.reading ∧ u.writing = s.writing ∧ u.closing = s.closing ∧ u.handshakes = s.handshakes)
include same part flags

theorem CallerStep.inside
    (ends : u.closed = s.closed ∧ u.closes = s.closes ∨ u.closed = s.abort.closed ∧ u.closes = s.abort.closes) :
    CallerStep s (u.goto i pc) i :=
  ⟨goto_others same, .stay (by rw [goto_self, part]) flags.1 flags.2.1 flags.2.2.1 flags.2.2.2, ends⟩

theorem CallerStep.quiet (ends : u.closed = s.closed ∧ u.closes = s.closes) : CallerStep s (u.goto i pc) i :=
  .inside same part flags (.inl ends)

end

namespace WsIo

theorem afterWrite_part (next : WriteFor) (ok : Bool) : (WsIo.afterWrite next ok).part = next.part := by
  cases next <;> cases ok <;> rfl

theorem write_step {stage : WriteStage} {frame : WsChunk} {next : WriteFor}
    (at_ : s.pc i = .write stage frame next) (moved : s.write i env stage frame next = some t) :
    CallerStep s t i := by
  have part : (s.pc i).part = next.part := by rw [at_]; rfl
  cases stage with
  | lock =>
    simp only [write] at moved
    split at moved
    · cases moved
      exact .quiet rfl part.symm ⟨rfl, rfl, rfl, rfl⟩ ⟨rfl, rfl⟩
    · cases moved
  | check | header | payload =>
    cases moved
    exact .quiet rfl part.symm ⟨rfl, rfl, rfl, rfl⟩ ⟨rfl, rfl⟩
  | unlock ok =>
    cases moved
    refine .quiet rfl ?_ ⟨rfl, rfl, rfl, rfl⟩ ⟨rfl, rfl⟩
    rw [part]
    split
    · exact afterWrite_part next true
    · rfl

theorem rx_step {op : RxOp} {stage : RxStage} (at_ : s.pc i = .rx op stage) : CallerStep s (s.rx i env op stage) i := by
  have part : (s.pc i).part = op.part := by rw [at_]; rfl
  cases stage with
  | start | top | received payload | setSent => exact .quiet rfl part.symm ⟨rfl, rfl, rfl, rfl⟩ ⟨rfl, rfl⟩
  | inner =>
    simp only [rx]
    split <;> exact .quiet rfl part.symm ⟨rfl, rfl, rfl, rfl⟩ ⟨rfl, rfl⟩
  | answers payload =>
    refine .quiet rfl ?_ ⟨rfl, rfl, rfl, rfl⟩ ⟨rfl, rfl⟩
    rw [part]
    split <;> rfl
  | ret ok =>
    cases op with
    | recv | close =>
      refine .quiet rfl ?_ ⟨rfl, rfl, rfl, rfl⟩ ⟨rfl, rfl⟩
      rw [part]
      split <;> rfl

theorem go_step (moved : s.go i env = some t) : CallerStep s t i := by
  have still : ∀ {pc : CallerPc}, pc.part = (s.pc i).part → CallerStep s (s.goto i pc) i := fun part =>
    .quiet rfl part ⟨rfl, rfl, rfl, rfl⟩ ⟨rfl, rfl⟩
  have aborts : ∀ {pc : CallerPc}, pc.part = (s.pc i).part → CallerStep s (s.abort.goto i pc) i := fun part =>
    .inside rfl part ⟨rfl, rfl, rfl, rfl⟩ (.inr ⟨rfl, rfl⟩)
  unfold go at moved
  split at moved
  · cases moved
  · rename_i at_
    cases moved
    refine still ?_
    rw [at_]
    split <;> rfl
  · rename_i at_
    cases moved
    refine still ?_
    rw [at_]
    split <;> rfl
  · rename_i at_
    cases moved
    refine still ?_
    rw [at_]
    split <;> rfl
  · rename_i at_
    cases moved
    exact still (by rw [at_]; rfl)
  · rename_i at_
    cases moved
    exact aborts (by rw [at_]; rfl)
  · rename_i at_
    cases moved
    exact ⟨goto_others rfl, .leaveTx (by rw [at_]; rfl) (by rw [goto_self]; rfl) rfl rfl rfl rfl, .inl ⟨rfl, rfl⟩⟩
  · rename_i at_
    exact write_step at_ moved
  · rename_i at_
    cases moved
    exact aborts (by rw [at_, afterWrite_part]; rfl)
  · rename_i at_
    cases moved
    exact rx_step at_
  · rename_i at_
    cases moved
    exact aborts (by rw [at_]; rfl)
  · rename_i at_
    cases moved
    exact ⟨goto_others rfl, .shaken (by rw [at_]; rfl) (by rw [goto_self]; rfl) rfl rfl rfl rfl, .inr ⟨rfl, rfl⟩⟩
  · rename_i at_
    cases moved
    exact ⟨goto_others rfl, .leaveRx (by rw [at_]; rfl) (by rw [goto_self]; rfl) rfl rfl rfl rfl, .inl ⟨rfl, rfl⟩⟩
  · rename_i at_
    cases moved
    refine still ?_
    rw [at_]
    split <;> rfl
  · rename_i at_
    cases moved
    refine .quiet rfl ?_ ⟨rfl, rfl, rfl, rfl⟩ ⟨rfl, rfl⟩
    rw [at_]
    split <;> rfl
  · rename_i at_
    cases moved
    refine still ?_
    rw [at_]
    split <;> rfl
  · rename_i at_
    cases moved
    exact aborts (by rw [at_]; rfl)

theorem enterTx_step {call : TxCall} {frames : List WsChunk} (out : s.pc i = .out) :
    CallerStep s (s.enterTx i call frames) i := by
  have part : (s.pc i).part = .none := by rw [out]; rfl
  unfold enterTx
  split
  · exact ⟨fun _ _ => rfl, .stay rfl rfl rfl rfl rfl, .inl ⟨rfl, rfl⟩⟩
  · rename_i free
    simp only [Bool.or_eq_true, not_or, Bool.not_eq_true] at free
    obtain ⟨⟨writing, closing⟩, closed⟩ := free
    exact ⟨goto_others rfl, .enterTx part (by rw [goto_self]; rfl) writing closing closed rfl rfl closing rfl,
      .inl ⟨rfl, rfl⟩⟩

theorem enterRx_step {ready : Bool} (out : s.pc i = .out) : CallerStep s (s.enterRx i ready) i := by
  have part : (s.pc i).part = .none := by rw [out]; rfl
  unfold enterRx
  split
  · exact ⟨fun _ _ => rfl, .stay rfl rfl rfl rfl rfl, .inl ⟨rfl, rfl⟩⟩
  · rename_i free
    simp only [Bool.or_eq_true, not_or, Bool.not_eq_true] at free
    obtain ⟨⟨reading, closing⟩, closed⟩ := free
    exact ⟨goto_others rfl, .enterRx part (by rw [goto_self]; rfl) reading closing closed rfl rfl closing rfl,
      .inl ⟨rfl, rfl⟩⟩

theorem enterClose_step {payload : List UInt8} (out : s.pc i = .out) : CallerStep s (s.enterClose i payload) i := by
  have part : (s.pc i).part = .none := by rw [out]; rfl
  unfold enterClose
  dsimp only
  split
  · exact ⟨fun _ _ => rfl, .refused part part rfl rfl rfl rfl, .inl ⟨rfl, rfl⟩⟩
  rename_i first
  simp only [Bool.or_eq_true, not_or, Bool.not_eq_true] at first
  split
  · exact ⟨goto_others rfl, .refused part (by rw [goto_self]; rfl) rfl rfl rfl rfl, .inl ⟨rfl, rfl⟩⟩
  · rename_i free
    simp only [Bool.or_eq_true, not_or, Bool.not_eq_true] at free
    exact ⟨goto_others rfl, .shake part (by rw [goto_self]; rfl) free.1 free.2 first.1 first.2 free.1 free.2 rfl rfl,
      .inl ⟨rfl, rfl⟩⟩

theorem step_caller {threshold : Nat} {move : ι × IoAct} (moved : s.step threshold move = some t) :
    CallerStep s t move.1 := by
  obtain ⟨i, act⟩ := move
  cases act with
  | go env => exact go_step moved
  | send type useDeflate data =>
    simp only [step] at moved
    split at moved
    · rename_i out
      cases moved
      exact enterTx_step out
    · cases moved
  | ping data =>
    simp only [step] at moved
    split at moved
    · rename_i out
      cases moved
      exact enterTx_step out.1
    · cases moved
  | recv ready =>
    simp only [step] at moved
    split at moved
    · rename_i out
      cases moved
      exact enterRx_step out
    · cases moved
  | close payload =>
    simp only [step] at moved
    split at moved
    · rename_i out
      cases moved
      exact enterClose_step out
    · cases moved

end WsIo

end Xylem.Ws
