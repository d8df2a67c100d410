import Xylem.Ws.CallersWire
import Xylem.Ws.Exclusive

namespace Xylem.Ws

open Lib List WsIo

variable {ι : Type} (s : WsIo ι)

/-- No text, binary or continuation frame stands after a Close frame. -/
def WsIo.NoDataAfterClose : Prop :=
  s.wire.Pairwise fun earlier later => earlier.opcode = 0x8 → ¬later.IsData

instance (s : WsIo ι) : Decidable s.NoDataAfterClose := inferInstanceAs (Decidable (List.Pairwise ..))

/-- No send is between its tests of the two Close flags and the last of its frames. -/
def WsIo.NonePending : Prop := ∀ j, ∀ frame ∈ (s.pc j).pending, ¬frame.IsData

/-- `ws_recv` is about to hand the header of its answer to a Close frame to the transport. -/
def CallerPc.writesAnswer : CallerPc → Bool
  | .write .header _ (.answer .recv) => true
  | _ => false

/-- An answer of `ws_recv` to a Close frame is written when the connection is aborted already, or while no send is
past its tests with a frame left. -/
def WsIo.AnswerOk (move : ι × IoAct) : Prop :=
  (s.pc move.1).writesAnswer = true → s.closed = true ∨ s.NonePending

instance [Fintype ι] (s : WsIo ι) : Decidable s.NonePending := inferInstanceAs (Decidable (∀ _, _))

instance [Fintype ι] (s : WsIo ι) (move : ι × IoAct) : Decidable (s.AnswerOk move) :=
  inferInstanceAs (Decidable (_ → _))

/-- What the lock and the frames in the hands of the callers satisfy in every run. -/
structure WsIo.Tidy : Prop where
  exclusive : s.Exclusive
  typed : ∀ j, (s.pc j).Typed
  held : ∀ j, (s.pc j).holds = true → s.lock = some j
  answered : ∀ j, (s.pc j).answering = true → s.closeReceived = true

/-- No send passes its tests any more, and none that has passed them gets its frames through. -/
structure WsIo.Sealed : Prop where
  entry : s.closeReceived = true ∨ s.closing = true ∧ ∀ j, (s.pc j).part ≠ .tx
  spent : s.closed = true ∨ s.NonePending

/-- What keeps data off the wire once a Close frame is on it. -/
structure WsIo.Over : Prop extends s.Sealed where
  header : ∀ j frame, (s.pc j).header = some frame → ¬frame.IsData

variable {s t : WsIo ι} {i : ι} {frame : WsChunk} {next : WriteFor}

theorem WsIo.tidy_init : (WsIo.init : WsIo ι).Tidy := ⟨exclusive_init, fun _ => trivial, nofun, nofun⟩

/-- Only the holder of the lock is at the stages that need it. -/
theorem WsIo.Tidy.holder_unique (tidy : s.Tidy) {i j : ι} (holds : (s.pc i).holds = true)
    (also : (s.pc j).holds = true) : i = j :=
  Option.some.inj ((tidy.held i holds).symm.trans (tidy.held j also))

theorem WsIo.Tidy.step (tidy : s.Tidy) (caller : CallerStep s t i) (wire : WireStep s t i) : t.Tidy := by
  have others := caller.others
  refine ⟨tidy.exclusive.step caller, fun j => ?_, fun j holds => ?_, fun j answering => ?_⟩
  · by_cases own : j = i
    · subst own
      exact wire.typed (tidy.typed j)
    · rw [others j own]
      exact tidy.typed j
  · by_cases own : j = i
    · subst own
      cases wire.moves with
      | quiet _ lock same _ _ _ => rw [lock]; exact tidy.held j (same.symm.trans holds)
      | tested _ _ _ no _ _ _ _ | unlocks _ _ _ no _ _ _ => rw [no] at holds; cases holds
      | locks _ _ _ _ lock _ _ => exact lock
      | checks _ _ _ lock _ at_ _ | writes _ _ _ _ lock _ at_ _ => rw [lock]; exact tidy.held j (by rw [at_]; rfl)
    · rw [others j own] at holds
      have held := tidy.held j holds
      cases wire.moves with
      | quiet _ lock _ _ _ _ => rw [lock, held]
      | tested _ lock _ _ _ _ _ _ => rw [lock, held]
      | locks _ _ _ free _ _ _ => rw [free] at held; cases held
      | checks _ _ _ lock _ _ _ => rw [lock, held]
      | writes _ _ _ _ lock _ _ _ => rw [lock, held]
      | unlocks _ _ also _ _ _ _ => exact absurd (tidy.holder_unique holds also) own
  · by_cases own : j = i
    · subst own
      cases wire.moves with
      | quiet _ _ _ _ _ before =>
        exact (before answering).elim (fun before => wire.received (tidy.answered j before)) id
      | tested _ _ _ _ _ no _ _ | unlocks _ _ _ _ _ no _ => rw [no] at answering; cases answering
      | locks frame next _ _ _ at_ goes | checks frame next _ _ _ at_ goes | writes frame next _ _ _ _ at_ goes =>
        rw [goes] at answering
        exact wire.received (tidy.answered j (by rw [at_]; cases next <;> exact answering))
    · rw [others j own] at answering
      exact wire.received (tidy.answered j answering)

variable {pc : CallerPc} {stage : WriteStage} {u : WsIo ι}

theorem CallerPc.pending_eq_nil (part : pc.part ≠ .tx) : pc.pending = [] := by
  unfold CallerPc.pending
  split
  · exact absurd rfl part
  · exact absurd rfl part
  · exact absurd rfl part
  · exact absurd rfl part
  · rfl

theorem CallerPc.Typed.data_of_send (typed : (CallerPc.write stage frame next).Typed) (isData : frame.IsData) :
    ∃ rest, next = .tx .send rest := by
  have other : ∀ code : UInt8, frame.opcode = code → code ≠ 0x0 → code ≠ 0x1 → code ≠ 0x2 → False := by
    rintro code rfl not0 not1 not2
    exact isData.elim not0 fun rest => rest.elim not1 not2
  cases next with
  | tx call rest =>
    cases call with
    | send => exact ⟨rest, rfl⟩
    | ping => exact (other 0x9 (typed frame (mem_cons_self ..)) (by decide) (by decide) (by decide)).elim
  | pong op => exact (other 0xA typed (by decide) (by decide) (by decide)).elim
  | answer op | goodbye => exact (other 0x8 typed (by decide) (by decide) (by decide)).elim

theorem CallerPc.Typed.close (typed : (CallerPc.write stage frame next).Typed) (close : frame.opcode = 0x8) :
    (∃ op, next = .answer op) ∨ next = .goodbye := by
  cases next with
  | tx call rest =>
    have carries : call.Carries frame := typed frame (mem_cons_self ..)
    cases call <;> simp [TxCall.Carries, WsChunk.IsData, close] at carries
  | pong op =>
    have pong : frame.opcode = 0xA := typed
    rw [close] at pong
    exact absurd pong (by decide)
  | answer op => exact .inl ⟨op, rfl⟩
  | goodbye => exact .inr rfl

theorem WsIo.NonePending.step (none : s.NonePending) (others : ∀ j, j ≠ i → t.pc j = s.pc j)
    (own : (t.pc i).pending ⊆ (s.pc i).pending) : t.NonePending := by
  intro j frame member
  by_cases is : j = i
  · subst is
    exact none j frame (own member)
  · rw [others j is] at member
    exact none j frame member

theorem WsIo.Sealed.step (finished : s.Sealed) (caller : CallerStep s t i) (wire : WireStep s t i) : t.Sealed := by
  have others := caller.others
  refine ⟨?_, ?_⟩
  · rcases finished.entry with received | ⟨closing, none⟩
    · exact .inl (wire.received received)
    · have own : t.closing = true ∧ (t.pc i).part ≠ .tx := by
        have out := none i
        cases caller.moves <;> simp_all
      refine .inr ⟨own.1, fun j => ?_⟩
      by_cases is : j = i
      · subst is
        exact own.2
      · rw [others j is]
        exact none j
  · rcases finished.spent with closed | none
    · exact .inl (wire.closed closed)
    · cases wire.moves with
      | quiet _ _ _ _ pending _ | unlocks _ _ _ _ _ _ pending => exact .inr (none.step others pending)
      | tested _ _ _ _ _ _ tx notReceived =>
        rcases finished.entry with received | ⟨-, no⟩
        · exact absurd (notReceived.symm.trans received) (by decide)
        · exact absurd tx (no i)
      | locks frame next _ _ _ at_ goes =>
        refine .inr (none.step others ?_)
        rw [at_, goes]
        cases next <;> exact List.Subset.refl _
      | checks frame next _ _ _ at_ goes =>
        refine .inr (none.step others ?_)
        rw [at_, goes]
        cases next <;> simp [CallerPc.pending]
      | writes frame next stage _ _ later at_ goes =>
        refine .inr (none.step others ?_)
        rw [at_, goes]
        rcases later with rfl | rfl | rfl <;> cases next <;> simp [CallerPc.pending]

theorem WsIo.Over.step (finished : s.Over) (tidy : s.Tidy) (caller : CallerStep s t i) (wire : WireStep s t i) : t.Over := by
  refine ⟨finished.toSealed.step caller wire, fun j frame header isData => ?_⟩
  by_cases own : j = i
  · subst own
    cases wire.moves with
    | quiet _ _ _ no _ _ | tested _ _ _ _ no _ _ _ | unlocks _ _ _ _ no _ _ => rw [no] at header; cases header
    | locks _ _ _ _ _ _ goes => rw [goes] at header; cases header
    | checks frame' next _ _ notClosed at_ goes =>
      rw [goes] at header
      cases header
      -- the frame passed its test of the flag, so it was pending while the connection was not aborted
      have typed := tidy.typed j
      rw [at_] at typed
      obtain ⟨rest, rfl⟩ := typed.data_of_send isData
      rcases finished.spent with closed | none
      · exact absurd (notClosed.symm.trans closed) (by decide)
      · exact none j frame (by rw [at_]; exact mem_cons_self ..) isData
    | writes _ _ stage _ _ later _ goes =>
      rw [goes] at header
      rcases later with rfl | rfl | rfl <;> cases header
  · rw [caller.others j own] at header
    exact finished.header j frame header isData

/-- The handshake is alone on the connection, and an answer of `ws_recv` meets the condition. -/
theorem WsIo.Sealed.of_close (tidy : s.Tidy) (at_ : s.pc i = .write .header frame next) (close : frame.opcode = 0x8)
    (ok : (s.pc i).writesAnswer = true → s.closed = true ∨ s.NonePending) : s.Sealed := by
  have shaking : next.part = .handshake → s.Sealed := by
    intro part
    have alone : ∀ j, (s.pc j).part ≠ .tx := by
      intro j tx
      obtain ⟨-, writing, -⟩ := tidy.exclusive.shake i (by rw [at_]; exact part)
      exact absurd (tidy.exclusive.tx j tx) (by rw [writing]; decide)
    refine ⟨.inr ⟨(tidy.exclusive.shake i (by rw [at_]; exact part)).2.2, alone⟩, .inr fun j => ?_⟩
    rw [CallerPc.pending_eq_nil (alone j)]
    exact fun _ member => (not_mem_nil member).elim
  have typed := tidy.typed i
  rw [at_] at typed
  rcases typed.close close with ⟨op, rfl⟩ | rfl
  · cases op with
    | recv => exact ⟨.inl (tidy.answered i (by rw [at_]; rfl)), ok (by rw [at_]; rfl)⟩
    | close => exact shaking rfl
  · exact shaking rfl

/-- What one step keeps when the answers meet the condition. -/
structure WsIo.Ordered (s : WsIo ι) : Prop where
  tidy : s.Tidy
  finished : ∀ frame ∈ s.wire, frame.opcode = 0x8 → s.Over
  order : s.NoDataAfterClose

theorem WsIo.Ordered.step (ordered : s.Ordered) (caller : CallerStep s t i) (wire : WireStep s t i)
    (ok : (s.pc i).writesAnswer = true → s.closed = true ∨ s.NonePending) : t.Ordered := by
  have tidy := ordered.tidy.step caller wire
  have still : t.wire = s.wire → t.Ordered := by
    intro same
    refine ⟨tidy, fun frame member close => ?_, ?_⟩
    · rw [same] at member
      exact (ordered.finished frame member close).step ordered.tidy caller wire
    · rw [WsIo.NoDataAfterClose, same]
      exact ordered.order
  cases wire.moves with
  | quiet same _ _ _ _ _ | tested same _ _ _ _ _ _ _ | unlocks same _ _ _ _ _ _ => exact still same
  | locks _ _ same _ _ _ _ | checks _ _ same _ _ _ _ => exact still same
  | writes frame next stage longer _ later at_ goes =>
    refine ⟨tidy, fun earlier member close => ?_, ?_⟩
    · rw [longer, mem_append, mem_singleton] at member
      rcases member with old | rfl
      · exact (ordered.finished earlier old close).step ordered.tidy caller wire
      · refine ⟨(WsIo.Sealed.of_close ordered.tidy at_ close ok).step caller wire, fun j other header => ?_⟩
        -- the writer still holds the lock, and nobody else can be at the header of a frame
        have holds : (t.pc i).holds = true := by rw [goes]; rcases later with rfl | rfl | rfl <;> rfl
        have also : (t.pc j).holds = true := by
          unfold CallerPc.header at header
          split at header
          · rename_i is
            rw [is]
            rfl
          · cases header
        cases tidy.holder_unique holds also
        rw [goes] at header
        rcases later with rfl | rfl | rfl <;> cases header
    · rw [WsIo.NoDataAfterClose, longer, pairwise_append]
      refine ⟨ordered.order, pairwise_singleton .., fun earlier member last is close => ?_⟩
      rw [mem_singleton.mp is]
      exact (ordered.finished earlier member close).header i frame (by rw [at_]; rfl)

variable [DecidableEq ι] {threshold : Nat}

theorem WsIo.Tidy.of_reach {ok : WsIo ι → ι × IoAct → Prop} (reach : Reach (WsIo.step threshold) ok WsIo.init s) :
    s.Tidy :=
  Reach.invariant tidy_init
    (fun _ _ _ _ tidy _ moved => tidy.step (step_caller moved) (step_wire moved)) reach

theorem WsIo.Ordered.of_reach (reach : Reach (WsIo.step threshold) WsIo.AnswerOk WsIo.init s) : s.Ordered := by
  have start : (WsIo.init : WsIo ι).Ordered := ⟨tidy_init, nofun, .nil⟩
  exact Reach.invariant start
    (fun _ _ _ _ ordered ok moved => ordered.step (step_caller moved) (step_wire moved) ok) reach

/-- The surroundings let a caller go on. -/
def IoEnv.fair : IoEnv := ⟨false, false, .more⟩

/-- A step that the caller `i` can take towards the end of its frame. -/
def WsIo.Goes (threshold : Nat) (i : ι) (s t : WsIo ι) : Prop :=
  Reach (WsIo.step threshold) (fun _ _ => True) s t ∧ t.closed = s.closed ∧ ∀ j, j ≠ i → t.pc j = s.pc j

theorem WsIo.Goes.trans (first : WsIo.Goes threshold i s t) (second : WsIo.Goes threshold i t u) :
    WsIo.Goes threshold i s u :=
  ⟨first.1.trans second.1, second.2.1.trans first.2.1, fun j other => (second.2.2 j other).trans (first.2.2 j other)⟩

theorem WsIo.goes_write (at_ : s.pc i = .write stage frame next)
    (moved : s.write i .fair stage frame next = some (u.goto i pc)) (same : u.pc = s.pc)
    (closed : u.closed = s.closed) :
    WsIo.Goes threshold i s (u.goto i pc) := by
  have went : s.step threshold (i, .go .fair) = some (u.goto i pc) := by
    simp only [WsIo.step, WsIo.go, at_]
    exact moved
  exact ⟨.next .start trivial went, closed, goto_others same⟩

theorem WsIo.goes_unlocked (threshold : Nat) (at_ : s.pc i = .write .header frame next) :
    ∃ t, WsIo.Goes threshold i s t ∧ t.wire = s.wire ++ [frame] ∧ t.lock = none := by
  have unlocks : ∀ u : WsIo ι, u.pc i = .write (.unlock true) frame next →
      ∃ t, WsIo.Goes threshold i u t ∧ t.wire = u.wire ∧ t.lock = none := fun u at_ =>
    ⟨_, goes_write at_ rfl rfl rfl, rfl, rfl⟩
  by_cases empty : frame.data = []
  · have header : s.write i .fair .header frame next =
        some ({ s with wire := s.wire ++ [frame] }.goto i (.write (.unlock true) frame next)) := by
      simp [WsIo.write, IoEnv.fair, empty]
    obtain ⟨t, goes, wire, lock⟩ := unlocks _ goto_self
    exact ⟨t, (goes_write at_ header rfl rfl).trans goes, wire, lock⟩
  · have header : s.write i .fair .header frame next =
        some ({ s with wire := s.wire ++ [frame] }.goto i (.write .payload frame next)) := by
      simp [WsIo.write, IoEnv.fair, empty]
    obtain ⟨t, goes, wire, lock⟩ := unlocks _ goto_self
    exact ⟨t, (goes_write at_ header rfl rfl).trans ((goes_write goto_self rfl rfl rfl).trans goes), wire, lock⟩

theorem WsIo.goes_written (threshold : Nat) (at_ : s.pc i = .write .lock frame next) (free : s.lock = none)
    (notClosed : s.closed = false) : ∃ t, WsIo.Goes threshold i s t ∧ t.wire = s.wire ++ [frame] := by
  have locks : s.write i .fair .lock frame next = some ({ s with lock := some i }.goto i (.write .check frame next)) :=
    if_pos free
  have locked : WsIo.Goes threshold i s _ := goes_write at_ locks rfl rfl
  generalize is : ({ s with lock := some i }.goto i (.write .check frame next) : WsIo ι) = u at locked
  have atCheck : u.pc i = .write .check frame next := by rw [← is, goto_self]
  have wire : u.wire = s.wire := by rw [← is]; rfl
  have checks : u.write i .fair .check frame next = some (u.goto i (.write .header frame next)) := by
    rw [WsIo.write, locked.2.1, notClosed]
    rfl
  obtain ⟨t, goes, written, -⟩ := goes_unlocked threshold (goto_self (u := u) (i := i))
  exact ⟨t, locked.trans ((goes_write atCheck checks rfl rfl).trans goes), written.trans (by rw [← wire]; rfl)⟩

theorem TxCall.send_of_carries {call : TxCall} {frames : List WsChunk} (carries : ∀ each ∈ frames, call.Carries each)
    (member : frame ∈ frames) (isData : frame.IsData) : call = .send := by
  cases call with
  | send => rfl
  | ping =>
    have ping : frame.opcode = 0x9 := carries frame member
    rw [WsChunk.IsData, ping] at isData
    exact absurd isData (by decide)

theorem CallerPc.Typed.pending_send (typed : pc.Typed) (holds : pc.holds = false) (member : frame ∈ pc.pending)
    (isData : frame.IsData) :
    ∃ first rest, first.IsData ∧ (pc = .txNext .send (first :: rest) ∨ pc = .write .lock first (.tx .send rest)) := by
  unfold CallerPc.pending at member
  split at member
  · rename_i call frames
    cases TxCall.send_of_carries typed member isData
    cases frames with
    | nil => cases member
    | cons first rest => exact ⟨first, rest, typed first (mem_cons_self ..), .inl rfl⟩
  · rename_i first call rest
    cases TxCall.send_of_carries typed member isData
    exact ⟨first, rest, typed first (mem_cons_self ..), .inr rfl⟩
  · cases holds
  · rename_i stage first call rest notLock notCheck
    cases stage with
    | lock => exact (notLock rfl).elim
    | check | header | payload | unlock => cases holds
  · cases member

/-- An answer that does not meet the condition can be followed by data. -/
theorem WsIo.Tidy.data_follows (tidy : s.Tidy) (answer : (s.pc i).writesAnswer = true) (notClosed : s.closed = false)
    (pending : ¬s.NonePending) :
    ∃ t, Reach (WsIo.step threshold) (fun _ _ => True) s t ∧ ¬t.NoDataAfterClose := by
  obtain ⟨close, at_⟩ : ∃ close, s.pc i = .write .header close (.answer .recv) := by
    unfold CallerPc.writesAnswer at answer
    split at answer
    · exact ⟨_, ‹_›⟩
    · cases answer
  have typed := tidy.typed i
  rw [at_] at typed
  obtain ⟨j, later⟩ := not_forall.mp pending
  push Not at later
  obtain ⟨frame, member, isData⟩ := later
  have other : j ≠ i := by
    rintro rfl
    rw [at_] at member
    cases member
  have holds : (s.pc j).holds = false := by
    refine Bool.eq_false_iff.mpr fun also => other (tidy.holder_unique also ?_)
    rw [at_]
    rfl
  obtain ⟨first, rest, firstData, place⟩ := (tidy.typed j).pending_send holds member isData
  -- the answer goes out, the lock is free, and the send is not stopped
  obtain ⟨u, answered, wire, free⟩ := goes_unlocked threshold at_
  have open_ : u.closed = false := answered.2.1.trans notClosed
  have follows : ∀ v, Reach (WsIo.step threshold) (fun _ _ => True) u v → v.pc j = .write .lock first (.tx .send rest) →
      v.lock = none → v.closed = false → v.wire = u.wire →
      ∃ t, Reach (WsIo.step threshold) (fun _ _ => True) s t ∧ ¬t.NoDataAfterClose := by
    intro v reach atLock free open_ same
    obtain ⟨t, goes, written⟩ := goes_written threshold atLock free open_
    refine ⟨t, answered.1.trans (reach.trans goes.1), fun order => ?_⟩
    rw [WsIo.NoDataAfterClose, written, same, wire, pairwise_append] at order
    exact order.2.2 close (mem_append_right _ (mem_singleton_self _)) first (mem_singleton_self _) typed
      firstData
  rw [← answered.2.2 j other] at place
  rcases place with atNext | atLock
  · have asks : u.step threshold (j, .go .fair) = some (u.goto j (.write .lock first (.tx .send rest))) := by
      simp only [WsIo.step, WsIo.go, atNext]
    exact follows _ (.next .start trivial asks) goto_self free open_ rfl
  · exact follows u .start atLock free open_ rfl

/-- No data follows a Close frame in a run in which every answer of `ws_recv` meets the condition, and an answer that
does not meet it can be followed by data. -/
theorem ws_no_data_after_close (threshold : Nat) :
    (∀ s : WsIo ι, Reach (WsIo.step threshold) WsIo.AnswerOk WsIo.init s → s.NoDataAfterClose) ∧
    ∀ s : WsIo ι, Reach (WsIo.step threshold) (fun _ _ => True) WsIo.init s → ∀ move, ¬s.AnswerOk move →
      ∃ t, Reach (WsIo.step threshold) (fun _ _ => True) s t ∧ ¬t.NoDataAfterClose := by
  refine ⟨fun s reach => (WsIo.Ordered.of_reach reach).order, fun s reach move broken => ?_⟩
  obtain ⟨answer, neither⟩ := Classical.not_imp.mp broken
  obtain ⟨notClosed, pending⟩ := not_or.mp neither
  exact (WsIo.Tidy.of_reach reach).data_follows answer (Bool.eq_false_iff.mpr notClosed) pending

/-- A message goes out whole, then the answer of `ws_recv` to a Close frame. -/
theorem ws_no_data_after_close_answer : ∃ s : WsIo Bool, Reach (WsIo.step 4) WsIo.AnswerOk WsIo.init s ∧
    s.wire.map WsChunk.opcode = [0x1, 0x8] ∧ s.NoDataAfterClose := by
  have run : ∃ s : WsIo Bool, Reach (WsIo.step 4) WsIo.AnswerOk WsIo.init s ∧ s.wire.map WsChunk.opcode = [0x1, 0x8] :=
    exists_reach ((true, IoAct.send .text false [0x61, 0x62, 0x63]) :: List.replicate 8 (true, IoAct.go .fair) ++
      [(false, IoAct.recv false), (false, .go .fair), (false, .go .fair), (false, .go ⟨false, false, .close [0x03, 0xE8]⟩)] ++
      List.replicate 5 (false, IoAct.go .fair)) (by decide +kernel)
  obtain ⟨s, reach, wire⟩ := run
  exact ⟨s, reach, wire, (ws_no_data_after_close 4).1 s reach⟩

/-- A send of three bytes in frames of one has written the first when `ws_recv` answers a Close frame; the second
frame follows the answer. -/
theorem ws_no_data_after_close_fragments : ∃ s : WsIo Bool,
    Reach (WsIo.step 1) (fun _ _ => True) WsIo.init s ∧ ¬s.NoDataAfterClose :=
  exists_reach ((true, IoAct.send .text false [0x61, 0x62, 0x63]) :: List.replicate 8 (true, IoAct.go .fair) ++
    [(false, IoAct.recv false), (false, .go .fair), (false, .go .fair), (false, .go ⟨false, false, .close [0x03, 0xE8]⟩)] ++
    List.replicate 7 (false, IoAct.go .fair) ++ List.replicate 4 (true, IoAct.go .fair)) (by decide +kernel)

end Xylem.Ws
