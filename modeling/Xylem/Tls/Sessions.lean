import Xylem.Tls.ConnLife
import Xylem.Tls.Effect

namespace Xylem.Tls

open Lib List
open Function (update update_eq_self update_of_ne update_self)
open DtlsOp

variable {A : Type}

def about (k : Nat) (L : List DtlsOp) : List DtlsOp := L.filter fun op => op.session == some k

variable {k j : Nat} {op : DtlsOp} {L R more : List DtlsOp}

theorem about_cons (k : Nat) (op : DtlsOp) (R : List DtlsOp) :
    about k (op :: R) = if op.session = some k then op :: about k R else about k R := by
  unfold about
  rw [filter_cons]
  simp only [beq_iff_eq]

theorem about_append (k : Nat) (first second : List DtlsOp) :
    about k (first ++ second) = about k first ++ about k second := filter_append ..

theorem mem_about (mine : op.session = some k) : op ∈ about k L ↔ op ∈ L := by
  unfold about
  rw [mem_filter, beq_iff_eq, and_iff_left mine]

theorem count_about (mine : op.session = some k) : (about k L).count op = L.count op :=
  count_filter (by simpa using mine)

theorem about_discards (pending : List Nat) (nodup : pending.Nodup) (j : Nat) :
    about j (pending.flatMap fun k => [.shutdown k, .dropTable k]) =
      if j ∈ pending then [.shutdown j, .dropTable j] else [] := by
  induction pending with
  | nil => rfl
  | cons k rest ih =>
    obtain ⟨new, nodup⟩ := nodup_cons.mp nodup
    rw [flatMap_cons, about_append, ih nodup]
    by_cases here : j = k
    · subst here
      rw [if_neg new, if_pos mem_cons_self]
      simp [session, about]
    · have other : ¬ k = j := fun same => here same.symm
      simp [session, about, here, other]

structure DtlsConn.Unborn (c : DtlsConn A) : Prop where
  refs : c.refs = 0
  inSessions : c.inSessions = false
  held : c.held = false
  frees : c.frees = 0

namespace DtlsTransport

/-- Every session lives as it should, and numbers that name none yet occur nowhere. -/
structure Sessions (s : DtlsTransport A) (L : List DtlsOp) : Prop where
  born : ∀ k < s.created, (s.conn k).Life k (decide (k ∈ s.pending)) (about k L)
  unborn : ∀ k, s.created ≤ k → (s.conn k).Unborn ∧ k ∉ s.pending ∧ about k L = []

variable {s t : DtlsTransport A}

theorem Sessions.lt_created (sessions : s.Sessions L) (member : op ∈ L) (mine : op.session = some k) :
    k < s.created := by
  by_contra new
  have none_ := (sessions.unborn k (Nat.le_of_not_lt new)).2.2
  have here := (mem_about mine).mpr member
  rw [none_] at here
  cases here

variable {c : DtlsConn A} {L' : List DtlsOp}

theorem Sessions.move (sessions : s.Sessions L) (old : k < s.created)
    (step : ConnStep k (s.conn k) (decide (k ∈ s.pending)) (about k L) c (decide (k ∈ t.pending)) (about k L'))
    (created : t.created = s.created) (conn : t.conn = update s.conn k c)
    (others : ∀ j, j ≠ k → about j L' = about j L ∧ (j ∈ t.pending ↔ j ∈ s.pending)) : t.Sessions L' := by
  refine ⟨fun j born => ?_, fun j new => ?_⟩ <;> rw [conn]
  · by_cases here : j = k
    · subst here
      rw [update_self]
      exact (sessions.born j old).step step
    · obtain ⟨same, still⟩ := others j here
      rw [update_of_ne here, same, decide_eq_decide.mpr still]
      exact sessions.born j (created ▸ born)
  · rw [created] at new
    have here : j ≠ k := fun same => absurd (same ▸ new) (Nat.not_le_of_lt old)
    obtain ⟨same, still⟩ := others j here
    rw [update_of_ne here, same, still]
    exact sessions.unborn j new

theorem Sessions.keep (sessions : s.Sessions L) (created : t.created = s.created) (conn : SameButInbox s.conn t.conn)
    (pending : t.pending = s.pending) (same : ∀ j, about j L' = about j L) :
    t.Sessions L' := by
  refine ⟨fun j born => ?_, fun j new => ?_⟩ <;> obtain ⟨inbox, wakePending, now⟩ := conn j <;>
    rw [now, same, pending]
  · exact (sessions.born j (created ▸ born)).step (.stay inbox wakePending)
  · obtain ⟨⟨refs, inSessions, held, frees⟩, nowhere, none_⟩ := sessions.unborn j (created ▸ new)
    exact ⟨⟨refs, inSessions, held, frees⟩, nowhere, none_⟩

theorem about_nothing (left_ : ∀ o ∈ more, o.session = some k ∨ o.session = none) (other : j ≠ k) :
    about j more = [] := by
  refine filter_eq_nil_iff.mpr fun o here => ?_
  rcases left_ o here with same | none_
  · rw [same]
    simpa using other.symm
  · rw [none_]
    simp

theorem about_none {first : List DtlsOp} (none_ : ∀ o ∈ first, o.session = none) (j : Nat) :
    about j (first ++ R) = about j R := by
  have nothing : about j first = [] := filter_eq_nil_iff.mpr fun o here => by rw [none_ o here]; simp
  rw [about_append, nothing, nil_append]

section

variable (sessions : s.Sessions (op :: R))
include sessions

theorem Sessions.does (mine : op.session = some k) (left_ : ∀ o ∈ more, o.session = some k ∨ o.session = none)
    (step : ConnStep k (s.conn k) (decide (k ∈ s.pending)) (op :: about k R) c (decide (k ∈ s.pending))
      (about k more ++ about k R)) (created : t.created = s.created) (conn : t.conn = update s.conn k c)
    (pending : t.pending = s.pending) :
    t.Sessions (more ++ R) := by
  refine sessions.move (sessions.lt_created mem_cons_self mine) ?_ created conn fun j other =>
    ⟨by rw [about_append, about_nothing left_ other, nil_append, about_cons, if_neg (by rw [mine]; simpa using other.symm)], by rw [pending]⟩
  rw [pending, about_append, about_cons, if_pos mine]
  exact step

theorem Sessions.idle {conn : Nat → DtlsConn A} (still : Idle s op more)
    (same : SameButInbox s.conn conn) : { s with conn }.Sessions (more ++ R) := by
  have inboxes : { s with conn }.Sessions (op :: R) := sessions.keep rfl same rfl fun _ => rfl
  have quiet : (∀ o ∈ op :: more, o.session = none) → { s with conn }.Sessions (more ++ R) := by
    intro none_
    refine inboxes.keep rfl (.refl _) rfl fun j => ?_
    rw [about_none (fun o here => none_ o (.tail _ here)),
      ← about_none (R := R) (fun o here => none_ o (mem_singleton.mp here ▸ .head _) : ∀ o ∈ [op], _) j]
    rfl
  have alone : ∀ k, conn = update conn k (conn k) := fun k => (update_eq_self k conn).symm
  cases still with
  | ended | received | swept | refused | missed | returnedListener => exact quiet (by simp [session])
  | stopped dispatcher => exact quiet (by cases dispatcher <;> simp [session])
  | finished k => exact inboxes.does rfl (by simp) (.done (.inl rfl)) rfl (alone k) rfl
  | failed k =>
    refine inboxes.does rfl (by simp [session]) ?_ rfl (alone k) rfl
    simpa [about, session] using ConnStep.failed
  | read k =>
    refine inboxes.does rfl (by simp [session]) ?_ rfl (alone k) rfl
    simpa [about, session] using ConnStep.stay _ _
  | changed k => exact inboxes.does rfl (by simp) (.changed _ _) rfl (alone k) rfl
  | again k closed =>
    obtain ⟨inbox, wakePending, now⟩ := same k
    have still : (conn k).closed = true := by rw [now]; exact closed
    exact inboxes.does rfl (by simp) (.done (.inr (.inr ⟨rfl, still⟩))) rfl (alone k) rfl
  | gone k out =>
    obtain ⟨inbox, wakePending, now⟩ := same k
    refine inboxes.does rfl (by simp [session]) ?_ rfl (alone k) rfl
    simpa [about, session] using ConnStep.gone (show (conn k).inSessions = false by rw [now]; exact out)
  | returned k => exact inboxes.does rfl (by simp) (.done (.inr (.inl rfl))) rfl (alone k) rfl

theorem Sessions.create {p : Bool} (none_ : op.session = none)
    (left_ : ∀ o ∈ more, o.session = some s.created ∨ o.session = none)
    (life : c.Life s.created p (about s.created more)) (created : t.created = s.created + 1)
    (conn : t.conn = update s.conn s.created c) (at_ : decide (s.created ∈ t.pending) = p)
    (others : ∀ j, j ≠ s.created → (j ∈ t.pending ↔ j ∈ s.pending)) : t.Sessions (more ++ R) := by
  have same : ∀ j, about j (op :: R) = about j R := fun j => by rw [about_cons, none_]; rfl
  have apart : ∀ j, j ≠ s.created → about j (more ++ R) = about j (op :: R) := by
    intro j other
    rw [same, about_append, about_nothing left_ other, nil_append]
  refine ⟨fun j born => ?_, fun j new => ?_⟩ <;> rw [conn]
  · by_cases here : j = s.created
    · have before := (sessions.unborn s.created (Nat.le_refl _)).2.2
      rw [same] at before
      rw [here, update_self, at_, about_append, before, append_nil]
      exact life
    · rw [update_of_ne here, apart j here, decide_eq_decide.mpr (others j here)]
      exact sessions.born j (by omega)
  · have here : j ≠ s.created := by omega
    rw [update_of_ne here, apart j here, others j here]
    exact sessions.unborn j (by omega)

theorem Sessions.effect (linked : ∀ k ∈ s.table, (s.conn k).inSessions = true)
    (nodup : s.pending.Nodup) (swept : op = .sweep → s.pending = []) (effect : Effect s op t more) :
    t.Sessions (more ++ R) := by
  -- a session in a table or list has been created
  have born : ∀ k, (s.conn k).inSessions = true ∨ k ∈ s.pending → k < s.created := by
    intro k here
    by_contra new
    obtain ⟨unborn, nowhere, -⟩ := sessions.unborn k (Nat.le_of_not_lt new)
    exact here.elim (fun linked => absurd (unborn.inSessions.symm.trans linked) (by decide)) nowhere
  cases effect with
  | idle conn still same => exact sessions.idle still same
  | publish peer inbox accepting =>
    refine sessions.create (p := true) rfl (by simp [DtlsOp.session]) ?_ rfl rfl (by simp)
      fun j other => by simp [other]
    refine ⟨⟨?_, ?_, ?_⟩, ⟨?_, ?_, ?_⟩, ?_, ?_⟩ <;> simp [DtlsConn.fresh, about, DtlsOp.session]
  | unpublish peer inbox accepting =>
    have new := (sessions.unborn s.created (Nat.le_refl _)).2.1
    refine sessions.create (p := false) rfl (by simp [DtlsOp.session]) ?_ rfl rfl (by simpa using new)
      fun j other => Iff.rfl
    refine ⟨⟨?_, ?_, ?_⟩, ⟨?_, ?_, ?_⟩, ?_, ?_⟩ <;> simp [DtlsConn.fresh, about, DtlsOp.session, DtlsConn.Ending]
  | stop dispatcher accepting =>
    have tail : ∀ j, about j ((s.pending.flatMap fun k => [shutdown k, .dropTable k]) ++
        (if dispatcher then [DtlsOp.sweep] else []) ++ R) =
        (if j ∈ s.pending then [shutdown j, .dropTable j] else []) ++ about j R := by
      intro j
      rw [append_assoc, about_append, about_discards _ nodup, about_none]
      cases dispatcher <;> simp [DtlsOp.session]
    have head : ∀ j, about j (DtlsOp.stopAccepting dispatcher :: R) = about j R := fun j => about_cons ..
    rw [stopAccepting_eq accepting]
    refine ⟨fun j old => ?_, fun j new => ?_⟩ <;> rw [tail]
    · have life := sessions.born j old
      rw [head] at life
      by_cases here : j ∈ s.pending
      · rw [decide_eq_true here] at life
        simpa [here] using life.step .discarded
      · rw [decide_eq_false here] at life
        simpa [here] using life
    · obtain ⟨unborn, nowhere, none_⟩ := sessions.unborn j new
      rw [head] at none_
      simpa [nowhere, none_] using unborn
  | sweep k here =>
    have present := linked k here
    have empty := swept rfl
    refine sessions.move (born k (.inl present)) ?_ rfl rfl fun j other => ⟨?_, Iff.rfl⟩
    · show ConnStep k (s.conn k) (decide (k ∈ s.pending)) _ _ (decide (k ∈ s.pending)) _
      rw [empty]
      simpa [about, DtlsOp.session] using ConnStep.swept present
    · simp [about, DtlsOp.session, other.symm]
  | token | freeTransport => exact sessions.keep rfl (.refl _) rfl fun j => by simp [about, DtlsOp.session]
  | take k rest accepting head =>
    obtain ⟨new, -⟩ := nodup_cons.mp (head ▸ nodup)
    refine sessions.move (born k (.inr (head ▸ .head _))) ?_ rfl rfl fun j other =>
      ⟨by simp [about, DtlsOp.session], ?_⟩
    · show ConnStep k (s.conn k) (decide (k ∈ s.pending)) _ _ (decide (k ∈ rest)) _
      rw [decide_eq_true (head ▸ .head _), decide_eq_false new]
      simpa [about, DtlsOp.session] using ConnStep.taken
    · show j ∈ rest ↔ j ∈ s.pending
      rw [head, mem_cons, or_iff_right other]
  | shut k open_ =>
    refine sessions.does rfl (by simp [DtlsOp.session]) ?_ rfl rfl rfl
    simpa [about, DtlsOp.session] using ConnStep.shut open_
  | unlink k here =>
    refine sessions.does rfl (by simp [DtlsOp.session]) ?_ rfl rfl rfl
    simpa [about, DtlsOp.session] using ConnStep.unlinked here
  | closeInbox k => exact sessions.does rfl (by simp) .closedInbox rfl rfl rfl
  | unref k | dropTable k =>
    refine sessions.does rfl (by split <;> simp [DtlsOp.session]) ?_ rfl rfl rfl
    rw [show about k (if (s.conn k).refs = 1 then [.free k] else []) = if (s.conn k).refs = 1 then [.free k] else [] by
      split <;> simp [about, DtlsOp.session]]
    first | exact .unref | exact .dropTable
  | free k =>
    refine sessions.does rfl (by simp [DtlsOp.session]) ?_ rfl rfl rfl
    simpa [about, DtlsOp.session] using ConnStep.freed
  | unrefTransport =>
    refine sessions.keep rfl (.refl _) rfl fun j => ?_
    rw [about_none (by split <;> simp [DtlsOp.session])]
    simp [about_cons, DtlsOp.session]

end

theorem Sessions.perm (sessions : s.Sessions L) (perm : L.Perm L') : s.Sessions L' := by
  refine ⟨fun k old => (sessions.born k old).perm (perm.filter _), fun k new => ?_⟩
  obtain ⟨unborn, nowhere, none_⟩ := sessions.unborn k new
  have same : (about k L).Perm (about k L') := perm.filter _
  rw [none_] at same
  exact ⟨unborn, nowhere, nil_perm.mp same⟩

theorem Sessions.call (sessions : s.Sessions L) (work : s.work.flatten = L) {program : List DtlsOp}
    (call : Call s t program) : t.Sessions (program ++ L) := by
  have born : ∀ k, (s.conn k).held = true → k < s.created := by
    intro k own
    by_contra new
    exact absurd ((sessions.unborn k (Nat.le_of_not_lt new)).1.held.symm.trans own) (by decide)
  have alone : ∀ k, s.conn = update s.conn k (s.conn k) := fun k => (update_eq_self k s.conn).symm
  cases call with
  | accept | closeListener | destroyListener =>
    exact sessions.keep rfl (.refl _) rfl fun j => by simp [about, session]
  | operation k own =>
    refine sessions.move (born k own) ?_ rfl rfl fun j other => ⟨by simp [about, session, other.symm], Iff.rfl⟩
    show ConnStep k (s.conn k) (decide (k ∈ s.pending)) _ _ (decide (k ∈ s.pending)) _
    simpa [about, session] using ConnStep.operation own
  | setDeadline k own | close k own =>
    refine sessions.move (born k own) ?_ rfl (alone k) fun j other =>
      ⟨by simp [about, session, other.symm], Iff.rfl⟩
    simpa [about, session] using ConnStep.called own (by first | exact .inl rfl | exact .inr rfl)
  | destroy k own free =>
    rw [work] at free
    refine sessions.move (born k own) ?_ rfl rfl fun j other => ⟨by simp [about, session, other.symm], Iff.rfl⟩
    have quiet : .returns k ∉ about k L := fun here => free ((mem_about rfl).mp here)
    show ConnStep k (s.conn k) (decide (k ∈ s.pending)) _ _ (decide (k ∈ s.pending)) _
    simpa [about, session] using ConnStep.destroyed own quiet

end DtlsTransport

end Xylem.Tls
