import Xylem.Tls.Sessions

namespace Xylem.Tls

open Lib List
open Function (update update_of_ne update_self)

variable {A : Type}

namespace DtlsTransport

/-- The table, the pending list and the channel of the accepts agree with the flags, and the socket is closed when
nobody needs it any more. -/
structure Tables (s : DtlsTransport A) (L : List DtlsOp) : Prop where
  nodup : s.table.Nodup
  mem : ∀ k, k ∈ s.table ↔ (s.conn k).inSessions = true
  pending : s.pending.Nodup
  accept : s.acceptClosed = !s.accepting
  stopped : s.accepting = false → s.pending = []
  swept : .sweep ∈ L → s.accepting = false
  socket : s.socketCloses = if s.accepting = false ∧ s.table = [] then 1 else 0
  intact : s.aborted = false

variable {s t : DtlsTransport A} {op : DtlsOp} {more L R L' : List DtlsOp}

theorem Tables.keep (tables : s.Tables L) (table : t.table = s.table) (pending : t.pending = s.pending)
    (flags : t.accepting = s.accepting ∧ t.acceptClosed = s.acceptClosed ∧ t.socketCloses = s.socketCloses ∧
      t.aborted = s.aborted)
    (linked : ∀ k, (t.conn k).inSessions = (s.conn k).inSessions)
    (sweeps : .sweep ∈ L' → .sweep ∈ L ∨ s.accepting = false) : t.Tables L' := by
  obtain ⟨nodup, mem, pendings, accept, stopped, swept, socket, intact⟩ := tables
  obtain ⟨accepting, closed, closes, aborted⟩ := flags
  refine ⟨by rwa [table], fun k => by rw [table, linked, mem], by rwa [pending], by rwa [closed, accepting],
    by rwa [accepting, pending], fun here => ?_, by rwa [closes, accepting, table], by rwa [aborted]⟩
  rw [accepting]
  exact (sweeps here).elim swept id

theorem update_inSessions {k : Nat} {c : DtlsConn A} (same : c.inSessions = (s.conn k).inSessions) (j : Nat) :
    (update s.conn k c j).inSessions = (s.conn j).inSessions := by
  by_cases here : j = k
  · rw [here, update_self, same]
  · rw [update_of_ne here]

theorem Tables.effect (tables : s.Tables (op :: R)) (sessions : s.Sessions (op :: R)) (effect : s.Effect op t more) :
    t.Tables (more ++ R) := by
  have new : s.created ∉ s.table := fun here =>
    nomatch (sessions.unborn _ (Nat.le_refl _)).1.inSessions.symm.trans ((tables.mem _).mp here)
  have sweeps : .sweep ∉ more → .sweep ∈ more ++ R → .sweep ∈ op :: R ∨ s.accepting = false := fun none_ here =>
    .inl (.tail _ ((mem_append.mp here).resolve_left none_))
  cases effect with
  | idle conn still same =>
    have linked : ∀ k, (conn k).inSessions = (s.conn k).inSessions := fun k => by
      obtain ⟨inbox, wakePending, now⟩ := same k
      rw [now]
    refine tables.keep rfl rfl ⟨rfl, rfl, rfl, rfl⟩ linked fun here => ?_
    cases still with
    | stopped dispatcher stopped => exact .inr stopped
    | ended | received | swept | refused | missed | finished | failed | read | changed | again | gone | returned
    | returnedListener => exact sweeps (by simp) here
  | publish peer inbox accepting =>
    have closed : s.acceptClosed = false := by rw [tables.accept, accepting]; rfl
    refine ⟨nodup_cons.mpr ⟨new, tables.nodup⟩, fun k => ?_, ?_, tables.accept, fun stopped => ?_, tables.swept,
      ?_, tables.intact⟩
    · show k ∈ s.created :: s.table ↔ (update s.conn s.created _ k).inSessions = true
      by_cases here : k = s.created
      · rw [here, update_self]
        exact iff_of_true mem_cons_self rfl
      · rw [update_of_ne here, mem_cons, or_iff_right here, tables.mem]
    · have fresh := (sessions.unborn _ (Nat.le_refl _)).2.1
      exact nodup_append.mpr ⟨tables.pending, nodup_singleton _, fun a here b there same =>
        fresh (mem_singleton.mp there ▸ same ▸ here)⟩
    · exact nomatch accepting.symm.trans stopped
    · rw [if_neg (by simp [accepting])]
      exact tables.socket.trans (if_neg (by simp [accepting]))
  | unpublish peer inbox accepting =>
    refine ⟨tables.nodup, fun k => ?_, tables.pending, tables.accept, tables.stopped, fun here => ?_, tables.socket,
      tables.intact⟩
    · show k ∈ s.table ↔ (update s.conn s.created _ k).inSessions = true
      by_cases here : k = s.created
      · rw [here, update_self]
        exact iff_of_false new nofun
      · rw [update_of_ne here, tables.mem]
    · exact (sweeps (by simp) here).elim tables.swept id
  | stop dispatcher accepting =>
    rw [stopAccepting_eq accepting]
    refine ⟨tables.nodup.filter _, fun k => ?_, nodup_nil, rfl, fun _ => rfl, fun _ => rfl, ?_, tables.intact⟩
    · rw [mem_filter, tables.mem]
      by_cases here : k ∈ s.pending
      · simp [here]
      · simp [here]
    · have open_ : s.socketCloses = 0 := tables.socket.trans (if_neg (by simp [accepting]))
      simp only [open_, true_and]
  | sweep k here =>
    exact tables.keep rfl rfl ⟨rfl, rfl, rfl, rfl⟩ (update_inSessions rfl) fun _ => .inl (.head _)
  | token | freeTransport => exact tables.keep rfl rfl ⟨rfl, rfl, rfl, rfl⟩ (fun _ => rfl) (sweeps (by simp))
  | take k rest accepting head =>
    refine ⟨tables.nodup, fun j => ?_, (nodup_cons.mp (head ▸ tables.pending)).2, tables.accept,
      (fun stopped => nomatch accepting.symm.trans stopped), fun here => ?_, tables.socket, tables.intact⟩
    · show j ∈ s.table ↔ (update s.conn k _ j).inSessions = true
      rw [tables.mem, update_inSessions]
      rfl
    · exact (sweeps (by simp) here).elim tables.swept id
  | unlink k here =>
    have present : k ∈ s.table := (tables.mem k).mpr here
    refine ⟨tables.nodup.erase k, fun j => ?_, tables.pending, tables.accept, tables.stopped, fun sweep => ?_, ?_,
      tables.intact⟩
    · show j ∈ s.table.erase k ↔ (update s.conn k _ j).inSessions = true
      rw [tables.nodup.mem_erase_iff]
      by_cases same : j = k
      · rw [same, update_self]
        exact iff_of_false (fun both => both.1 rfl) nofun
      · rw [update_of_ne same, and_iff_right same, tables.mem]
    · exact (sweeps (by simp) sweep).elim tables.swept id
    · have open_ : s.socketCloses = 0 :=
        tables.socket.trans (if_neg fun both => ne_nil_of_mem present both.2)
      simp [open_]
  | shut k | closeInbox k | free k =>
    exact tables.keep rfl rfl ⟨rfl, rfl, rfl, rfl⟩ (update_inSessions rfl) (sweeps (by simp))
  | unref k | dropTable k =>
    exact tables.keep rfl rfl ⟨rfl, rfl, rfl, rfl⟩ (update_inSessions rfl) (sweeps (by split <;> simp))
  | unrefTransport =>
    exact tables.keep rfl rfl ⟨rfl, rfl, rfl, rfl⟩ (fun _ => rfl) (sweeps (by split <;> simp))

theorem Tables.call {program : List DtlsOp} (tables : s.Tables L) (call : s.Call t program) :
    t.Tables (program ++ L) := by
  have sweeps : .sweep ∉ program → .sweep ∈ program ++ L → .sweep ∈ L ∨ s.accepting = false := fun none_ here =>
    .inl ((mem_append.mp here).resolve_left none_)
  cases call with
  | accept | setDeadline | close | closeListener | destroyListener =>
    exact tables.keep rfl rfl ⟨rfl, rfl, rfl, rfl⟩ (fun _ => rfl) (sweeps (by simp))
  | operation k | destroy k =>
    exact tables.keep rfl rfl ⟨rfl, rfl, rfl, rfl⟩ (update_inSessions rfl) (sweeps (by simp))

theorem Tables.perm (tables : s.Tables L) (perm : L.Perm L') : s.Tables L' :=
  tables.keep rfl rfl ⟨rfl, rfl, rfl, rfl⟩ (fun _ => rfl) fun here => .inl (perm.mem_iff.mpr here)

end DtlsTransport

end Xylem.Tls
