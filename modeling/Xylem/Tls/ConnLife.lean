import Xylem.Tls.Transport

namespace Xylem.Tls

open List DtlsOp

variable {A : Type} (k : Nat) (c : DtlsConn A)

/-- A step of the server as one session sees it: the session, whether it is pending, and what is still to be done
about it. -/
inductive ConnStep : Bool → List DtlsOp → DtlsConn A → Bool → List DtlsOp → Prop
  | stay {p W} (inbox wakePending) : ConnStep p W { c with inbox, wakePending } p W
  | done {p op W} : op = .operate k ∨ op = .returns k ∨ op = .shutdown k ∧ c.closed = true → ConnStep p (op :: W) c p W
  | changed {p W} (inbox wakePending) : ConnStep p (.deadlineChanged k :: W) { c with inbox, wakePending } p W
  | failed {p W} : ConnStep p (.operate k :: W) c p (.shutdown k :: .operate k :: W)
  | gone {p W} : c.inSessions = false → ConnStep p (.unlink k :: W) c p (.closeInbox k :: W)
  | swept {W} : c.inSessions = true →
      ConnStep false W { c with refs := c.refs + 1 } false (.shutdown k :: .unref k :: W)
  | taken {W} : ConnStep true W { c with refs := c.refs + 1, held := true, accepts := c.accepts + 1 } false W
  | discarded {W} :
      ConnStep true W { c with inSessions := false, discards := c.discards + 1 } false
        (.shutdown k :: .dropTable k :: W)
  | shut {p W} : c.closed = false → ConnStep p (.shutdown k :: W) { c with closed := true } p (.unlink k :: W)
  | unlinked {p W} : c.inSessions = true →
      ConnStep p (.unlink k :: W) { c with inSessions := false } p (.closeInbox k :: .dropTable k :: W)
  | closedInbox {p W} : ConnStep p (.closeInbox k :: W) { c with inboxClosed := true } p W
  | unref {p W} :
      ConnStep p (.unref k :: W) { c with refs := c.refs - 1 } p ((if c.refs = 1 then [DtlsOp.free k] else []) ++ W)
  | dropTable {p W} :
      ConnStep p (.dropTable k :: W) { c with refs := c.refs - 1, drops := c.drops + 1 } p
        ((if c.refs = 1 then [DtlsOp.free k] else []) ++ W)
  | freed {p W} : ConnStep p (.free k :: W) { c with frees := c.frees + 1 } p W
  | operation {p W} : c.held = true →
      ConnStep p W { c with refs := c.refs + 1 } p (.operate k :: .unref k :: .returns k :: W)
  | called {p W op} : c.held = true → op = .deadlineChanged k ∨ op = .shutdown k →
      ConnStep p W c p (op :: .returns k :: W)
  | destroyed {p W} : c.held = true → .returns k ∉ W →
      ConnStep p W { c with held := false } p (.shutdown k :: .unref k :: W)

variable (V : List DtlsOp)

/-- The references of a session are that of the table, that of the user, and those that coroutines still have to
release. The table's is released once; without any left the session is freed, or about to be. -/
structure DtlsConn.Refs : Prop where
  refs : c.refs = c.inSessions.toNat + c.held.toNat + V.count (.unref k) + V.count (.dropTable k)
  drops : c.drops + V.count (.dropTable k) + c.inSessions.toNat = 1
  frees : c.frees + V.count (.free k) = if c.refs = 0 then 1 else 0

/-- The inbox is closed, or somebody goes on to close it. -/
def DtlsConn.Ending : Prop :=
  c.inboxClosed = true ∨ .closeInbox k ∈ V ∨ .unlink k ∈ V ∨ c.closed = false ∧ .shutdown k ∈ V

/-- A call of the user goes on while the user has the handle. The inbox is closed after the session left the table. -/
structure DtlsConn.Order : Prop where
  held : .returns k ∈ V → c.held = true
  inbox : c.inboxClosed = true ∨ .closeInbox k ∈ V → c.inSessions = false
  closing : c.inSessions = false → c.Ending k V

/-- What holds of a session from its creation on. A pending session is in the table and nobody else knows of it. -/
structure DtlsConn.Life (p : Bool) (V : List DtlsOp) : Prop where
  refs : c.Refs k V
  order : c.Order k V
  waiting : p = true → c.inSessions = true ∧ c.held = false ∧ c.closed = false ∧ V = []
  queue : c.accepts + c.discards + p.toNat = c.queued ∧ c.queued ≤ 1

variable {k : Nat} {c c' : DtlsConn A} {p p' : Bool} {V V' W : List DtlsOp} (q : Prop) {op : DtlsOp}

theorem count_freeing [Decidable q] (op : DtlsOp) :
    ((if q then [DtlsOp.free k] else []) ++ W).count op = (if q ∧ op = .free k then 1 else 0) + W.count op := by
  rw [count_append]
  by_cases last : q
  · by_cases same : op = .free k
    · simp [last, same]
    · rw [if_pos last, count_singleton, if_neg (by simpa using Ne.symm same), if_neg (by simp [same])]
  · simp [last]

theorem mem_freeing [Decidable q] (other : op ≠ .free k) : op ∈ (if q then [DtlsOp.free k] else []) ++ W ↔ op ∈ W := by
  rw [mem_append]
  by_cases last : q
  · rw [if_pos last, mem_singleton, or_iff_right other]
  · rw [if_neg last, or_iff_right not_mem_nil]

namespace DtlsConn

theorem Refs.step (life : c.Life k p V) (step : ConnStep k c p V c' p' V') : c'.Refs k V' := by
  obtain ⟨⟨refs, drops, frees⟩, -, waiting, -⟩ := life
  cases step with
  | stay inbox wake => exact ⟨refs, drops, frees⟩
  | done kind =>
    rcases kind with rfl | rfl | ⟨rfl, closed⟩
    all_goals exact ⟨by simpa using refs, by simpa using drops, by simpa using frees⟩
  | changed inbox wake | failed | gone out | shut open_ | closedInbox =>
    exact ⟨by simpa using refs, by simpa using drops, by simpa using frees⟩
  | called own kind =>
    rcases kind with rfl | rfl
    all_goals exact ⟨by simpa using refs, by simpa using drops, by simpa using frees⟩
  | swept held | operation held =>
    have some_ : c.refs ≠ 0 := by rw [refs, held]; simp
    rw [if_neg some_] at frees
    refine ⟨?_, by simpa using drops, by simpa using frees⟩
    simp only [count_cons, beq_iff_eq, reduceCtorEq, if_false, if_true]
    omega
  | taken =>
    obtain ⟨linked, free, -, rfl⟩ := waiting rfl
    have one : c.refs = 1 := by simpa [linked, free] using refs
    rw [one] at frees
    exact ⟨by simp [one, linked], drops, by simpa using frees⟩
  | discarded =>
    obtain ⟨linked, free, -, rfl⟩ := waiting rfl
    have one : c.refs = 1 := by simpa [linked, free] using refs
    rw [linked] at drops
    exact ⟨by simp [one, free], by simpa using drops, by simpa using frees⟩
  | unlinked linked =>
    rw [linked] at refs drops
    refine ⟨?_, ?_, by simpa using frees⟩
    all_goals
      simp only [count_cons, beq_iff_eq, reduceCtorEq, if_false, if_true, Bool.toNat_true, Bool.toNat_false] at *
      omega
  | unref | dropTable =>
    simp only [count_cons, beq_iff_eq, reduceCtorEq, if_false, if_true] at refs drops frees
    rw [if_neg (by omega)] at frees
    refine ⟨?_, ?_, ?_⟩
    all_goals simp only [count_freeing, reduceCtorEq, and_false, if_false, and_true]
    · omega
    · omega
    · split <;> split <;> omega
  | freed =>
    simp only [count_cons, beq_iff_eq, reduceCtorEq, if_false, if_true] at refs drops frees
    refine ⟨by simpa using refs, by simpa using drops, ?_⟩
    show c.frees + 1 + _ = if c.refs = 0 then 1 else 0
    omega
  | destroyed own free =>
    rw [own] at refs
    refine ⟨?_, by simpa using drops, by simpa using frees⟩
    simp only [count_cons, beq_iff_eq, reduceCtorEq, if_false, if_true, Bool.toNat_true,
      Bool.toNat_false] at refs ⊢
    omega

theorem Ending.sub (ending : c.Ending k V) (sub : V ⊆ V') : c.Ending k V' :=
  ending.imp_right (Or.imp (@sub _) (Or.imp (@sub _) (And.imp_right (@sub _))))

theorem Ending.tail (ending : c.Ending k (op :: V))
    (other : op ≠ .closeInbox k ∧ op ≠ .unlink k ∧ op ≠ .shutdown k) : c.Ending k V := by
  rcases ending with done | here | here | ⟨open_, here⟩
  · exact .inl done
  · exact .inr (.inl ((mem_cons.mp here).resolve_left other.1.symm))
  · exact .inr (.inr (.inl ((mem_cons.mp here).resolve_left other.2.1.symm)))
  · exact .inr (.inr (.inr ⟨open_, (mem_cons.mp here).resolve_left other.2.2.symm⟩))

theorem Order.freeing (order : c.Order k (op :: W))
    (other : op ≠ .closeInbox k ∧ op ≠ .unlink k ∧ op ≠ .shutdown k) (q : Prop) [Decidable q] :
    c.Order k ((if q then [DtlsOp.free k] else []) ++ W) := by
  refine ⟨fun later => order.held (.tail _ ?_), fun out => order.inbox (out.imp_right fun here => .tail _ ?_),
    fun out => ((order.closing out).tail other).sub (subset_append_right _ _)⟩
  · exact (mem_freeing q (show returns k ≠ .free k from nofun)).mp later
  · exact (mem_freeing q (show closeInbox k ≠ .free k from nofun)).mp here

theorem Order.step (life : c.Life k p V) (step : ConnStep k c p V c' p' V') : c'.Order k V' := by
  obtain ⟨-, order, waiting, -⟩ := life
  obtain ⟨held, inbox, closing⟩ := id order
  cases step with
  | stay inbox' wake => exact ⟨held, inbox, closing⟩
  | done kind =>
    refine ⟨fun later => held (.tail _ later), fun out => inbox (out.imp_right (.tail _)), fun out => ?_⟩
    rcases kind with rfl | rfl | ⟨rfl, closed⟩
    · exact (closing out).tail ⟨nofun, nofun, nofun⟩
    · exact (closing out).tail ⟨nofun, nofun, nofun⟩
    · simpa [Ending, closed] using closing out
  | changed inbox' wake | freed =>
    exact ⟨fun later => held (.tail _ later), fun out => inbox (out.imp_right (.tail _)),
      fun out => (closing out).tail ⟨nofun, nofun, nofun⟩⟩
  | failed =>
    exact ⟨by simpa using held, by simpa using inbox, fun out => (closing out).sub (subset_cons_self _ _)⟩
  | gone out => exact ⟨by simpa using held, fun _ => out, fun _ => .inr (.inl (.head _))⟩
  | swept linked => exact ⟨by simpa using held, by simpa using inbox, fun out => nomatch linked.symm.trans out⟩
  | taken => exact ⟨fun _ => rfl, inbox, closing⟩
  | discarded =>
    obtain ⟨-, -, open_, rfl⟩ := waiting rfl
    exact ⟨fun later => by simp at later, fun _ => rfl, fun _ => .inr (.inr (.inr ⟨open_, .head _⟩))⟩
  | shut open_ => exact ⟨by simpa using held, by simpa using inbox, fun _ => .inr (.inr (.inl (.head _)))⟩
  | unlinked linked => exact ⟨by simpa using held, fun _ => rfl, fun _ => .inr (.inl (.head _))⟩
  | closedInbox => exact ⟨by simpa using held, fun _ => inbox (.inr (.head _)), fun _ => .inl rfl⟩
  | unref | dropTable =>
    have released := order.freeing ⟨nofun, nofun, nofun⟩ (c.refs = 1)
    exact ⟨released.held, released.inbox, released.closing⟩
  | operation own =>
    exact ⟨fun _ => own, by simpa using inbox,
      fun out => (closing out).sub (subset_append_right [operate k, .unref k, .returns k] _)⟩
  | called own kind =>
    refine ⟨fun _ => own, ?_, fun out => (closing out).sub (subset_append_right [_, returns k] _)⟩
    rcases kind with rfl | rfl <;> simpa using inbox
  | destroyed own free =>
    exact ⟨fun here => absurd (by simpa using here) free, by simpa using inbox,
      fun out => (closing out).sub (subset_append_right [shutdown k, .unref k] _)⟩

theorem Life.step (life : c.Life k p V) (step : ConnStep k c p V c' p' V') : c'.Life k p' V' := by
  refine ⟨.step life step, .step life step, ?_, ?_⟩
  · obtain ⟨-, -, waiting, -⟩ := life
    cases step with
    | stay => exact waiting
    | taken | discarded | swept => exact nofun
    | done | changed | failed | gone | shut | unlinked | closedInbox | unref | dropTable | freed =>
      exact fun pending => nomatch (waiting pending).2.2.2
    | operation own | called own | destroyed own =>
      exact fun pending => nomatch (waiting pending).2.1.symm.trans own
  · obtain ⟨-, -, -, queue⟩ := life
    cases step with
    | taken | discarded =>
      exact ⟨by rw [← queue.1]; simp only [Bool.toNat_true, Bool.toNat_false]; omega, queue.2⟩
    | stay | done | changed | failed | gone | swept | shut | unlinked | closedInbox | unref | dropTable | freed
    | operation | called | destroyed => exact queue

theorem Life.perm (life : c.Life k p V) (perm : V.Perm V') : c.Life k p V' := by
  obtain ⟨⟨refs, drops, frees⟩, ⟨held, inbox, closing⟩, waiting, queue⟩ := life
  rw [perm.count_eq, perm.count_eq] at refs
  rw [perm.count_eq] at drops frees
  refine ⟨⟨refs, drops, frees⟩, ⟨fun here => held (perm.mem_iff.mpr here), fun out => inbox ?_,
    fun out => (closing out).sub perm.subset⟩, fun pending => ?_, queue⟩
  · exact out.imp_right perm.mem_iff.mpr
  · obtain ⟨linked, free, open_, rfl⟩ := waiting pending
    exact ⟨linked, free, open_, nil_perm.mp perm⟩

end DtlsConn

end Xylem.Tls
