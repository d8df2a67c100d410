import Xylem.Tls.Sessions

namespace Xylem.Tls

open Lib List
open Function (update update_of_ne)

variable {A : Type}

namespace DtlsTransport

variable (s : DtlsTransport A)

/-- The sessions that were created and not freed. -/
def live : Nat := (List.range s.created).countP fun k => (s.conn k).frees = 0

/-- The references of the transport are that of the listener, one of each session, and those that coroutines still have
to release; without any left it is freed, or about to be. -/
structure Counts (L : List DtlsOp) : Prop where
  refs : s.refs = s.listener.toNat + s.live + L.count .unrefTransport
  frees : s.frees + L.count .freeTransport = if s.refs = 0 then 1 else 0
  held : .returnsListener ∈ L → s.listener = true

variable {s t : DtlsTransport A} {op : DtlsOp} {more L R : List DtlsOp}

theorem live_congr (created : t.created = s.created) (frees : ∀ k, (t.conn k).frees = (s.conn k).frees) :
    t.live = s.live := by
  unfold live
  rw [created]
  exact countP_congr fun k _ => by rw [frees]

variable {c : DtlsConn A} {program : List DtlsOp}

theorem live_create (created : t.created = s.created + 1) (conn : t.conn = update s.conn s.created c)
    (fresh : c.frees = 0) : t.live = s.live + 1 := by
  have same : ∀ k ∈ List.range s.created, decide ((t.conn k).frees = 0) = decide ((s.conn k).frees = 0) := by
    intro k old
    rw [conn, update_of_ne (Nat.ne_of_lt (mem_range.mp old))]
  unfold live
  rw [created, range_succ, countP_append, countP_congr fun k old => by rw [same k old]]
  simp [conn, fresh]

theorem live_free {k : Nat} (old : k < s.created) (before : (s.conn k).frees = 0) (freed : c.frees ≠ 0)
    (created : t.created = s.created) (conn : t.conn = update s.conn k c) :
    t.live + 1 = s.live := by
  have here : k ∈ List.range s.created := mem_range.mpr old
  have apart : ∀ j ∈ (List.range s.created).erase k, decide ((t.conn j).frees = 0) = decide ((s.conn j).frees = 0) := by
    intro j member
    rw [conn, update_of_ne (nodup_range.mem_erase_iff.mp member).1]
  unfold live
  rw [created, (perm_cons_erase here).countP_eq, (perm_cons_erase here).countP_eq, countP_cons,
    countP_cons, countP_congr fun j member => by rw [apart j member]]
  simp [conn, before, freed]

theorem update_frees {k : Nat} (same : c.frees = (s.conn k).frees) (j : Nat) :
    (update s.conn k c j).frees = (s.conn j).frees := by
  by_cases here : j = k
  · rw [here, Function.update_self, same]
  · rw [update_of_ne here]

theorem count_swap {x : DtlsOp} (out : x ∉ op :: more) : (more ++ R).count x = (op :: R).count x := by
  have first : op ≠ x := fun same => out (same ▸ .head _)
  have later : x ∉ more := fun here => out (.tail _ here)
  rw [count_append, count_eq_zero.mpr later, Nat.zero_add, count_cons_of_ne first]

section

variable (counts : s.Counts (op :: R))
include counts

theorem Counts.keep (refs : t.refs = s.refs) (frees : t.frees = s.frees)
    (listener : t.listener = s.listener) (live : t.live = s.live)
    (plain : .unrefTransport ∉ op :: more ∧ .freeTransport ∉ op :: more ∧ .returnsListener ∉ more) :
    t.Counts (more ++ R) := by
  refine ⟨?_, ?_, fun here => ?_⟩
  · rw [refs, listener, live, count_swap plain.1]
    exact counts.refs
  · rw [frees, refs, count_swap plain.2.1]
    exact counts.frees
  · rw [listener]
    exact counts.held (.tail _ ((mem_append.mp here).resolve_left plain.2.2))

theorem Counts.idle {conn : Nat → DtlsConn A} (still : s.Idle op more)
    (same : SameButInbox s.conn conn) : { s with conn }.Counts (more ++ R) := by
  have live : { s with conn }.live = s.live := live_congr rfl fun k => by
    obtain ⟨inbox, wakePending, now⟩ := same k
    show (conn k).frees = _
    rw [now]
  refine counts.keep rfl rfl rfl live ?_
  cases still with
  | stopped dispatcher => cases dispatcher <;> simp
  | ended | received | swept | refused | missed | finished | failed | read | changed | again | gone | returned
  | returnedListener => simp

theorem Counts.create (alive : s.refs ≠ 0) (created : t.created = s.created + 1)
    (conn : t.conn = update s.conn s.created c) (fresh : c.frees = 0) (refs : t.refs = s.refs + 1)
    (frees : t.frees = s.frees) (listener : t.listener = s.listener)
    (plain : .unrefTransport ∉ op :: more ∧ .freeTransport ∉ op :: more ∧ .returnsListener ∉ more) :
    t.Counts (more ++ R) := by
  obtain ⟨before, free, held⟩ := counts
  rw [if_neg alive] at free
  refine ⟨?_, ?_, fun here => ?_⟩
  · rw [refs, listener, live_create created conn fresh, count_swap plain.1]
    omega
  · rw [frees, refs, count_swap plain.2.1, if_neg (Nat.succ_ne_zero _)]
    exact free
  · rw [listener]
    exact held (.tail _ ((mem_append.mp here).resolve_left plain.2.2))

theorem Counts.effect (sessions : s.Sessions (op :: R))
    (alive : op = .receive → s.refs ≠ 0) (effect : s.Effect op t more) : t.Counts (more ++ R) := by
  cases effect with
  | idle conn still same => exact counts.idle still same
  | publish | unpublish => exact counts.create (alive rfl) rfl rfl rfl rfl rfl rfl (by simp)
  | stop dispatcher accepting =>
    rw [stopAccepting_eq accepting]
    refine counts.keep rfl rfl rfl (live_congr rfl fun k => ?_) (by cases dispatcher <;> simp)
    show (if _ then _ else _ : DtlsConn A).frees = _
    split <;> rfl
  | token => exact counts.keep rfl rfl rfl rfl (by simp)
  | sweep k | take k | unlink k | shut k | closeInbox k =>
    exact counts.keep rfl rfl rfl (live_congr rfl (update_frees rfl)) (by simp)
  | unref k | dropTable k =>
    exact counts.keep rfl rfl rfl (live_congr rfl (update_frees rfl)) (by split <;> simp)
  | free k =>
    have old := sessions.lt_created (.head _) rfl
    have life := (sessions.born k old).refs.frees
    rw [count_about rfl, count_cons_self] at life
    have unfreed : (s.conn k).frees = 0 := by split at life <;> omega
    have fewer := live_free (t := s.setConn k { s.conn k with frees := (s.conn k).frees + 1 }) old unfreed
      (Nat.succ_ne_zero _) rfl rfl
    have refs : s.refs = s.listener.toNat + s.live + R.count .unrefTransport := by simpa using counts.refs
    have frees : s.frees + R.count .freeTransport = if s.refs = 0 then 1 else 0 := by simpa using counts.frees
    refine ⟨?_, ?_, fun here => counts.held (.tail _ ((mem_append.mp here).resolve_left (by simp)))⟩
    · show s.refs = s.listener.toNat + live _ + (DtlsOp.unrefTransport :: R).count .unrefTransport
      rw [count_cons_self]
      omega
    · rw [count_append, count_eq_zero.mpr (by simp), Nat.zero_add]
      exact frees
  | unrefTransport =>
    have refs : s.refs = s.listener.toNat + s.live + (R.count .unrefTransport + 1) := by simpa using counts.refs
    have frees : s.frees + R.count .freeTransport = 0 := by
      have before := counts.frees
      rw [if_neg (by omega)] at before
      simpa using before
    refine ⟨?_, ?_, fun here => counts.held (.tail _ ((mem_append.mp here).resolve_left (by split <;> simp)))⟩
    · show s.refs - 1 = s.listener.toNat + s.live + _
      rw [count_append, count_eq_zero.mpr (by split <;> simp)]
      omega
    · show s.frees + _ = if s.refs - 1 = 0 then 1 else 0
      rw [count_append]
      by_cases last : s.refs = 1
      · rw [if_pos last, if_pos (by omega), count_singleton_self]
        omega
      · rw [if_neg last, if_neg (by omega), count_nil]
        omega
  | freeTransport =>
    have frees : s.frees + (R.count .freeTransport + 1) = if s.refs = 0 then 1 else 0 := by simpa using counts.frees
    have refs : s.refs = s.listener.toNat + s.live + R.count .unrefTransport := by simpa using counts.refs
    refine ⟨refs, ?_, fun here => counts.held (.tail _ here)⟩
    show s.frees + 1 + R.count .freeTransport = if s.refs = 0 then 1 else 0
    omega

end

theorem Counts.other (counts : s.Counts L) (refs : t.refs = s.refs) (frees : t.frees = s.frees)
    (listener : t.listener = s.listener) (live : t.live = s.live)
    (plain : .unrefTransport ∉ program ∧ .freeTransport ∉ program ∧ .returnsListener ∉ program) :
    t.Counts (program ++ L) := by
  refine ⟨?_, ?_, fun here => ?_⟩
  · rw [refs, listener, live, count_append, count_eq_zero.mpr plain.1, Nat.zero_add]
    exact counts.refs
  · rw [frees, refs, count_append, count_eq_zero.mpr plain.2.1, Nat.zero_add]
    exact counts.frees
  · rw [listener]
    exact counts.held ((mem_append.mp here).resolve_left plain.2.2)

theorem Counts.call (counts : s.Counts L) (work : s.work.flatten = L) (call : s.Call t program) :
    t.Counts (program ++ L) := by
  have refs := counts.refs
  have frees := counts.frees
  have alive : s.listener = true → s.refs ≠ 0 := fun own => by
    rw [own, Bool.toNat_true] at refs
    omega
  cases call with
  | accept own =>
    rw [if_neg (alive own)] at frees
    refine ⟨?_, ?_, fun _ => own⟩
    · show s.refs + 1 = s.listener.toNat + s.live + _
      rw [refs]
      simp
      omega
    · show s.frees + _ = if s.refs + 1 = 0 then 1 else 0
      rw [if_neg (Nat.succ_ne_zero _)]
      simpa using frees
  | operation k | destroy k =>
    exact counts.other rfl rfl rfl (live_congr rfl (update_frees rfl)) (by simp)
  | setDeadline | close => exact counts.other rfl rfl rfl rfl (by simp)
  | closeListener own => exact ⟨by simpa using refs, by simpa using frees, fun _ => own⟩
  | destroyListener own free =>
    rw [work] at free
    rw [own] at refs
    refine ⟨?_, by simpa using frees, fun here => absurd (by simpa using here) free⟩
    show s.refs = false.toNat + s.live + _
    rw [refs]
    simp
    omega

theorem Counts.perm {L' : List DtlsOp} (counts : s.Counts L) (perm : L.Perm L') : s.Counts L' :=
  ⟨by rw [← perm.count_eq]; exact counts.refs, by rw [← perm.count_eq]; exact counts.frees,
    fun here => counts.held (perm.mem_iff.mpr here)⟩

end DtlsTransport

end Xylem.Tls
