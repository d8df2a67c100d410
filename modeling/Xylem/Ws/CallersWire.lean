import Xylem.Ws.CallersMove

namespace Xylem.Ws

open Lib List WsIo

/-- The caller holds `write_lock`. -/
def CallerPc.holds : CallerPc → Bool
  | .write .lock _ _ => false
  | .write _ _ _ => true
  | _ => false

/-- The frames that a send or ping past its tests of the two Close flags has yet to write. -/
def CallerPc.pending : CallerPc → List WsChunk
  | .txNext _ frames => frames
  | .write .lock frame (.tx _ rest) | .write .check frame (.tx _ rest) => frame :: rest
  | .write _ _ (.tx _ rest) => rest
  | _ => []

/-- The frame that the caller is about to hand to the transport. -/
def CallerPc.header : CallerPc → Option WsChunk
  | .write .header frame _ => some frame
  | _ => none

/-- The caller has noted a Close frame and is about to answer it. -/
def CallerPc.answering : CallerPc → Bool
  | .rx _ (.answers _) | .write _ _ (.answer _) => true
  | _ => false

def TxCall.Carries : TxCall → WsChunk → Prop
  | .send, frame => frame.IsData
  | .ping, frame => frame.opcode = 0x9

/-- The frames in the hands of a caller are of the kind it writes. -/
def CallerPc.Typed : CallerPc → Prop
  | .txCheckSent call frames | .txCheckReceived call frames | .txNext call frames => ∀ frame ∈ frames, call.Carries frame
  | .write _ frame (.tx call rest) => ∀ each ∈ frame :: rest, call.Carries each
  | .write _ frame (.pong _) => frame.opcode = 0xA
  | .write _ frame (.answer _) | .write _ frame .goodbye => frame.opcode = 0x8
  | _ => True

variable {ι : Type} [DecidableEq ι] (s t : WsIo ι) (i : ι)

/-- What a step of the caller `i` does to the lock, to the frames in its hands and to those on the wire. -/
inductive WireMove : Prop
  | quiet : t.wire = s.wire → t.lock = s.lock → (t.pc i).holds = (s.pc i).holds → (t.pc i).header = none →
      (t.pc i).pending ⊆ (s.pc i).pending →
      ((t.pc i).answering = true → (s.pc i).answering = true ∨ t.closeReceived = true) → WireMove
  | tested : t.wire = s.wire → t.lock = s.lock → (s.pc i).holds = false → (t.pc i).holds = false →
      (t.pc i).header = none → (t.pc i).answering = false → (s.pc i).part = .tx → s.closeReceived = false →
      WireMove
  | locks (frame : WsChunk) (next : WriteFor) : t.wire = s.wire → s.lock = none → t.lock = some i →
      s.pc i = .write .lock frame next → t.pc i = .write .check frame next → WireMove
  | checks (frame : WsChunk) (next : WriteFor) : t.wire = s.wire → t.lock = s.lock → s.closed = false →
      s.pc i = .write .check frame next → t.pc i = .write .header frame next → WireMove
  | writes (frame : WsChunk) (next : WriteFor) (stage : WriteStage) : t.wire = s.wire ++ [frame] → t.lock = s.lock →
      stage = .payload ∨ stage = .unlock true ∨ stage = .unlock false →
      s.pc i = .write .header frame next → t.pc i = .write stage frame next → WireMove
  | unlocks : t.wire = s.wire → t.lock = none → (s.pc i).holds = true → (t.pc i).holds = false →
      (t.pc i).header = none → (t.pc i).answering = false → (t.pc i).pending ⊆ (s.pc i).pending → WireMove

/-- The flags that are never taken back, and what becomes of the frames. -/
structure WireStep : Prop where
  closed : s.closed = true → t.closed = true
  received : s.closeReceived = true → t.closeReceived = true
  moves : WireMove s t i
  typed : (s.pc i).Typed → (t.pc i).Typed

variable {s t u : WsIo ι} {i : ι} {pc : CallerPc} {env : IoEnv}

/-- What a step leaves alone that neither locks nor writes. -/
structure WsIo.Calm (s u : WsIo ι) : Prop where
  wire : u.wire = s.wire
  lock : u.lock = s.lock
  closed : s.closed = true → u.closed = true
  received : s.closeReceived = true → u.closeReceived = true

omit [DecidableEq ι] in
theorem WsIo.Calm.refl : s.Calm s := ⟨rfl, rfl, id, id⟩

omit [DecidableEq ι] in
theorem WsIo.Calm.abort : s.Calm s.abort := ⟨rfl, rfl, fun _ => rfl, id⟩

theorem WireStep.of_calm (calm : s.Calm u) (holds : pc.holds = (s.pc i).holds) (header : pc.header = none)
    (pending : pc.pending ⊆ (s.pc i).pending)
    (answering : pc.answering = true → (s.pc i).answering = true ∨ u.closeReceived = true)
    (typed : (s.pc i).Typed → pc.Typed) : WireStep s (u.goto i pc) i := by
  refine ⟨calm.closed, calm.received, .quiet calm.wire calm.lock ?_ ?_ ?_ ?_, ?_⟩ <;> rw [goto_self] <;> assumption

theorem WireStep.idle (calm : s.Calm u) (holds : (s.pc i).holds = false)
    (idle : pc.holds = false ∧ pc.pending = [] ∧ pc.header = none ∧ pc.answering = false) (typed : pc.Typed) :
    WireStep s (u.goto i pc) i :=
  .of_calm calm (by rw [holds, idle.1]) idle.2.2.1 (by rw [idle.2.1]; exact nil_subset _)
    (fun answering => absurd (idle.2.2.2.symm.trans answering) (by decide)) fun _ => typed

theorem WsIo.afterWrite_idle (next : WriteFor) (ok : Bool) :
    (WsIo.afterWrite next ok).holds = false ∧ (WsIo.afterWrite next ok).header = none ∧
    (WsIo.afterWrite next ok).answering = false := by
  cases next <;> cases ok <;> exact ⟨rfl, rfl, rfl⟩

theorem WsIo.write_wire {stage : WriteStage} {frame : WsChunk} {next : WriteFor}
    (at_ : s.pc i = .write stage frame next) (moved : s.write i env stage frame next = some t) : WireStep s t i := by
  have typed : ∀ stage', (s.pc i).Typed → (CallerPc.write stage' frame next).Typed := by
    intro stage' typed
    rw [at_] at typed
    cases next <;> exact typed
  have later : ∀ stage', (CallerPc.write stage' frame next).holds = (s.pc i).holds → stage' ≠ .lock → stage' ≠ .check →
      stage' ≠ .header → WireStep s (s.goto i (.write stage' frame next)) i := by
    intro stage' holds notLock notCheck notHeader
    refine .of_calm .refl holds ?_ ?_ ?_ (typed stage')
    · cases stage' <;> first | rfl | contradiction
    · rw [at_]
      cases stage' <;> first | contradiction | cases stage <;> cases next <;> simp [CallerPc.pending]
    · intro answering
      rw [at_]
      cases next <;> exact .inl answering
  cases stage with
  | lock =>
    simp only [WsIo.write] at moved
    split at moved
    · rename_i free
      cases moved
      exact ⟨id, id, .locks frame next rfl free rfl at_ goto_self, by rw [goto_self]; exact typed .check⟩
    · cases moved
  | check =>
    cases moved
    split
    · exact later _ (by rw [at_]; rfl) (by decide) (by decide) (by decide)
    · rename_i free
      simp only [Bool.or_eq_true, not_or, Bool.not_eq_true] at free
      exact ⟨id, id, .checks frame next rfl rfl free.1 at_ goto_self, by rw [goto_self]; exact typed .header⟩
  | header =>
    cases moved
    refine ⟨id, id, .writes frame next _ rfl rfl ?_ at_ goto_self, by rw [goto_self]; exact typed _⟩
    split
    · exact .inr (.inr rfl)
    split
    · exact .inr (.inl rfl)
    · exact .inl rfl
  | payload =>
    cases moved
    exact later _ (by rw [at_]; rfl) (by simp) (by simp) (by simp)
  | unlock ok =>
    cases moved
    have holds : (s.pc i).holds = true := by rw [at_]; rfl
    refine ⟨id, id, .unlocks rfl rfl holds ?_ ?_ ?_ ?_, ?_⟩ <;> rw [goto_self]
    · split
      · exact (afterWrite_idle next true).1
      · rfl
    · split
      · exact (afterWrite_idle next true).2.1
      · rfl
    · split
      · exact (afterWrite_idle next true).2.2
      · rfl
    · rw [at_]
      cases ok <;> cases next <;> simp [CallerPc.pending, WsIo.afterWrite]
    · intro typed
      rw [at_] at typed
      cases ok with
      | false => trivial
      | true =>
        cases next with
        | tx call rest => exact fun each member => typed each (mem_cons_of_mem _ member)
        | pong op | answer op | goodbye => trivial

theorem WsIo.rx_wire {op : RxOp} {stage : RxStage} (at_ : s.pc i = .rx op stage) :
    WireStep s (s.rx i env op stage) i := by
  have holds : (s.pc i).holds = false := by rw [at_]; rfl
  cases stage with
  | start | top =>
    refine .idle .refl holds ?_ ?_ <;> split <;> trivial
  | inner =>
    simp only [WsIo.rx]
    split
    · refine .idle .refl holds ?_ ?_ <;> split <;> trivial
    · exact .idle .refl holds ⟨rfl, rfl, rfl, rfl⟩ trivial
    · exact .idle .refl holds ⟨rfl, rfl, rfl, rfl⟩ trivial
    · exact .idle .refl holds ⟨rfl, rfl, rfl, rfl⟩ trivial
    · exact .idle .refl holds ⟨rfl, rfl, rfl, rfl⟩ rfl
    · exact .idle .refl holds ⟨rfl, rfl, rfl, rfl⟩ trivial
  | received payload =>
    exact .of_calm ⟨rfl, rfl, id, fun _ => rfl⟩ (by rw [holds]; rfl) rfl (nil_subset _) (fun _ => .inr rfl)
      fun _ => trivial
  | answers payload =>
    refine .of_calm .refl ?_ ?_ ?_ (fun _ => .inl (by rw [at_]; rfl)) fun _ => ?_
    · rw [holds]
      split <;> rfl
    · split <;> rfl
    · split <;> exact nil_subset _
    · split
      · trivial
      · exact rfl
  | setSent => exact .idle ⟨rfl, rfl, id, id⟩ holds ⟨rfl, rfl, rfl, rfl⟩ trivial
  | ret ok =>
    cases op <;> refine .idle .refl holds ?_ ?_ <;> split <;> trivial

theorem WsIo.go_wire (moved : s.go i env = some t) : WireStep s t i := by
  unfold WsIo.go at moved
  split at moved
  · cases moved
  · rename_i at_
    cases moved
    have holds : (s.pc i).holds = false := by rw [at_]; rfl
    split
    · exact .idle .refl holds ⟨rfl, rfl, rfl, rfl⟩ trivial
    · refine .of_calm .refl holds.symm rfl (nil_subset _) nofun fun typed => ?_
      rw [at_] at typed
      exact typed
  · rename_i at_
    cases moved
    have holds : (s.pc i).holds = false := by rw [at_]; rfl
    split
    · exact .idle .refl holds ⟨rfl, rfl, rfl, rfl⟩ trivial
    · rename_i free
      simp only [Bool.or_eq_true, not_or, Bool.not_eq_true] at free
      refine ⟨id, id, .tested rfl rfl holds ?_ ?_ ?_ (by rw [at_]; rfl) free.1, fun typed => ?_⟩ <;> rw [goto_self]
      · rfl
      · rfl
      · rfl
      · rw [at_] at typed
        exact typed
  · rename_i at_
    cases moved
    refine .idle .refl (by rw [at_]; rfl) ?_ ?_ <;> split <;> trivial
  · rename_i at_
    cases moved
    refine .of_calm .refl (by rw [at_]; rfl) rfl ?_ nofun fun typed => ?_
    · rw [at_]
      exact List.Subset.refl _
    · rw [at_] at typed
      exact typed
  · rename_i at_
    cases moved
    exact .idle .abort (by rw [at_]; rfl) ⟨rfl, rfl, rfl, rfl⟩ trivial
  · rename_i at_
    cases moved
    exact .idle ⟨rfl, rfl, id, id⟩ (by rw [at_]; rfl) ⟨rfl, rfl, rfl, rfl⟩ trivial
  · rename_i at_
    exact write_wire at_ moved
  · rename_i next at_
    cases moved
    refine .idle .abort (by rw [at_]; rfl) ?_ ?_
    · obtain ⟨holds, header, answering⟩ := afterWrite_idle next false
      exact ⟨holds, by cases next <;> rfl, header, answering⟩
    · cases next <;> trivial
  · rename_i at_
    cases moved
    exact rx_wire at_
  · rename_i at_
    cases moved
    exact .idle .abort (by rw [at_]; rfl) ⟨rfl, rfl, rfl, rfl⟩ trivial
  · rename_i at_
    cases moved
    exact .idle .abort (by rw [at_]; rfl) ⟨rfl, rfl, rfl, rfl⟩ trivial
  · rename_i at_
    cases moved
    exact .idle ⟨rfl, rfl, id, id⟩ (by rw [at_]; rfl) ⟨rfl, rfl, rfl, rfl⟩ trivial
  · rename_i at_
    cases moved
    split
    · exact .idle .refl (by rw [at_]; rfl) ⟨rfl, rfl, rfl, rfl⟩ trivial
    · exact .idle .refl (by rw [at_]; rfl) ⟨rfl, rfl, rfl, rfl⟩ rfl
  · rename_i at_
    cases moved
    refine .idle ⟨rfl, rfl, id, id⟩ (by rw [at_]; rfl) ?_ ?_ <;> split <;> trivial
  · rename_i at_
    cases moved
    refine .idle .refl (by rw [at_]; rfl) ?_ ?_ <;> split <;> trivial
  · rename_i at_
    cases moved
    exact .idle .abort (by rw [at_]; rfl) ⟨rfl, rfl, rfl, rfl⟩ trivial

omit [DecidableEq ι] in
theorem WireStep.refused (out : s.pc i = .out) (calm : s.Calm u) (same : u.pc i = s.pc i) : WireStep s u i := by
  refine ⟨calm.closed, calm.received, .quiet calm.wire calm.lock ?_ ?_ ?_ ?_, ?_⟩ <;> rw [same]
  · rw [out]
    rfl
  · exact List.Subset.refl _
  · exact .inl
  · exact id

theorem WsIo.enterTx_wire {call : TxCall} {frames : List WsChunk} (out : s.pc i = .out)
    (typed : ∀ frame ∈ frames, call.Carries frame) : WireStep s (s.enterTx i call frames) i := by
  unfold WsIo.enterTx
  split
  · exact .refused out .refl rfl
  · exact .idle ⟨rfl, rfl, id, id⟩ (by rw [out]; rfl) ⟨rfl, rfl, rfl, rfl⟩ typed

theorem WsIo.enterClose_wire {payload : List UInt8} (out : s.pc i = .out) : WireStep s (s.enterClose i payload) i := by
  unfold WsIo.enterClose
  dsimp only
  split
  · exact .refused out ⟨rfl, rfl, id, id⟩ rfl
  split
  · exact .idle ⟨rfl, rfl, id, id⟩ (by rw [out]; rfl) ⟨rfl, rfl, rfl, rfl⟩ trivial
  · exact .idle ⟨rfl, rfl, id, id⟩ (by rw [out]; rfl) ⟨rfl, rfl, rfl, rfl⟩ trivial

theorem WsIo.step_wire {threshold : Nat} {move : ι × IoAct} (moved : s.step threshold move = some t) :
    WireStep s t move.1 := by
  obtain ⟨i, act⟩ := move
  cases act with
  | go env => exact go_wire moved
  | send type useDeflate data =>
    simp only [WsIo.step] at moved
    split at moved
    · rename_i out
      cases moved
      exact enterTx_wire out (wsSendChunks_isData threshold type useDeflate data)
    · cases moved
  | ping data =>
    simp only [WsIo.step] at moved
    split at moved
    · rename_i out
      cases moved
      exact enterTx_wire out.1 fun frame member => by rw [mem_singleton.mp member]; rfl
    · cases moved
  | recv ready =>
    simp only [WsIo.step] at moved
    split at moved
    · rename_i out
      cases moved
      unfold WsIo.enterRx
      split
      · exact .refused out .refl rfl
      · refine .idle ⟨rfl, rfl, id, id⟩ (by rw [out]; rfl) ?_ ?_ <;> cases ready <;> trivial
    · cases moved
  | close payload =>
    simp only [WsIo.step] at moved
    split at moved
    · rename_i out
      cases moved
      exact enterClose_wire out
    · cases moved

end Xylem.Ws
