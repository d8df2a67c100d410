import Xylem.Lib.Run
import Xylem.Tls.Wake

namespace Xylem.Tls

open Lib List Bool
open Option (ite_none_left_eq_some ite_none_right_eq_some map_eq_some_iff)
open Function (update update_of_ne update_self)

variable {ι : Type}

namespace DtlsSession

variable {s t : DtlsSession ι} {env : ReadEnv}

section Callers

variable {i : ι} [DecidableEq ι]

theorem Inv.go {oom : Bool} (inv : s.Inv) (flag : Flag s.locked fun j => (s.pc j).inside = true)
    (moved : s.go i oom = some t) : t.Inv := by
  have ok := inv.callers i
  unfold DtlsSession.go at moved
  split at moved <;> rename_i at_ <;> rw [at_] at ok
  · cases moved
  · -- setLock
    obtain ⟨-, moved⟩ := ite_none_left_eq_some.mp moved
    cases moved
    exact (inv.lock true).goto trivial (by rw [at_]; rfl) fun may => .inl (by rwa [at_] at may)
  · -- setTest
    cases moved
    by_cases present : (s.inSessions && !s.closed) = true
    · rw [if_pos present]
      have linked : s.inSessions = true := (and_eq_true_iff.mp present).1
      exact inv.goto linked (by rw [at_]; rfl) fun may => .inl (by rwa [at_] at may)
    · rw [if_neg present]
      refine inv.goto trivial (by rw [at_]; rfl) fun _ => .inr (.inr (.inl ?_))
      by_cases linked : s.inSessions = true
      · simpa [linked] using present
      · exact inv.unlinked (eq_false_iff.mpr linked)
  · -- setExchange
    rename_i read
    cases moved
    have holds : (s.pc i).inside = true := by rw [at_]; rfl
    have nobody : ∀ j, (s.pc j).sending = false := by
      refine fun j => eq_false_iff.mpr fun sends => ?_
      rw [flag.unique j i (DtlsCallerPc.inside_of_sending sends) holds, at_] at sends
      cases sends
    by_cases raised : s.wakePending = true
    · rw [if_pos raised]
      have found := inv.found nobody raised
      refine inv.update flag holds true s.inbox s.sent trivial (fun _ => ?_)
        (fun other _ => .inr (.inl (found.resolve_right other))) id inv.balance
      have tally := inv.tally nobody
      rwa [raised] at tally
    · rw [if_neg raised]
      obtain ⟨absent, other⟩ := inv.none nobody (eq_false_iff.mpr raised)
      exact inv.update flag holds true s.inbox s.sent ⟨ok, rfl, absent, other⟩ (fun quiet => nomatch quiet)
        (fun _ may => .inl (by rwa [at_] at may)) id inv.balance
  · -- setSend
    rename_i read
    have holds : (s.pc i).inside = true := by rw [at_]; rfl
    split at moved
    · rename_i closed
      exact absurd ((inv.drained closed).symm.trans ok.1) (by decide)
    · split at moved
      · cases moved
        exact inv.fail.goto ok.2 (by rw [at_]; rfl) fun _ => .inr (.inr (.inr rfl))
      · cases moved
        have count : (s.inbox ++ [s.self]).count s.self = 1 := by
          rw [count_append, count_eq_zero.mpr ok.2.2.1, count_singleton_self]
        have before : s.inbox.count s.self = 0 := count_eq_zero.mpr ok.2.2.1
        have told : s.self ∈ s.inbox ++ [s.self] := mem_append_right _ mem_cons_self
        refine (inv.update (p := .setUnlock read) flag holds s.wakePending (s.inbox ++ [s.self]) (s.sent + 1) trivial
          (fun _ => ?_) (fun _ _ => .inr (.inl told)) ?_ ?_).succeed told
        · rw [count, if_neg ok.2.2.2, ok.2.1]; rfl
        · exact mem_append_left _
        · rw [inv.balance, before, count]
  · -- setFail
    cases moved
    have holds : (s.pc i).inside = true := by rw [at_]; rfl
    refine inv.update flag holds false s.inbox s.sent trivial (fun _ => ?_) (fun _ may => ?_) id inv.balance
    · rw [count_eq_zero.mpr ok.2.1, if_neg ok.2.2]; rfl
    · rw [at_] at may; cases may
  · -- setUnlock
    cases moved
    exact (inv.lock false).goto trivial (by rw [at_]; rfl) fun may => by rw [at_] at may; cases may
  · -- shut
    obtain ⟨⟨u, next⟩, shut, rfl⟩ := map_eq_some_iff.mp moved
    obtain ⟨after, okAfter⟩ := inv.shutdown flag ok shut
    have pcs := (shutdown_frame shut).1
    refine after.goto ?_ ?_ ?_
    · cases next with
      | none => trivial
      | some stage => exact okAfter stage rfl
    · rw [pcs, at_]; cases next <;> rfl
    · intro may; rw [pcs, at_] at may; cases may
  · -- push
    rename_i dgram
    obtain ⟨-, moved⟩ := ite_none_left_eq_some.mp moved
    cases moved
    have pcs := (push_frame s dgram oom).1
    refine (inv.push ok oom).goto trivial ?_ ?_
    · rw [pcs, at_]; rfl
    · intro may; rw [pcs, at_] at may; cases may

end Callers

theorem Inv.consume (inv : s.Inv) : s.consume.Inv := by
  refine ⟨inv.callers, inv.reading, inv.tally, inv.unlinked, inv.drained, inv.stale, inv.balance, inv.intact, nofun, ?_⟩
  show (s.pendingDgram.toList ++ s.released).count s.self = _
  cases held : s.pendingDgram with
  | none => exact inv.once
  | some dgram =>
    have other : dgram ≠ s.self := fun same => inv.apart (by rw [held, same])
    exact (count_cons_of_ne other).trans inv.once

theorem Inv.goReader (inv : s.Inv) (flag : Flag s.locked fun j => (s.pc j).inside = true)
    (moved : s.goReader env = some t) : t.Inv := by
  have ok := inv.reading
  unfold DtlsSession.goReader at moved
  split at moved <;> rename_i at_ <;> rw [at_] at ok
  · cases moved
  · -- top
    cases moved
    exact inv.readerOn (by rw [at_]; decide) (by split <;> rfl)
  · -- backend
    cases moved
    have held : (if env.consumes then s.consume else s).Inv := by
      split
      · exact inv.consume
      · exact inv
    refine held.readerOn ?_ ?_
    · split <;> exact fun control => nomatch at_.symm.trans control
    · cases env.result with
      | ok | closed | wantRead | error => rfl
      | wantWrite => show DtlsReaderPc.plain (if _ then _ else _) = true; split <;> rfl
  · -- load
    cases moved
    exact inv.readerTo (by rw [at_]; decide) nofun trivial fun d reads => .inl (Option.some.inj reads)
  · -- compute
    rename_i deadline
    cases moved
    have other : s.reader ≠ .control := by rw [at_]; exact nofun
    cases computed : dtlsWait deadline env.now with
    | none => exact inv.readerOn other rfl
    | some wait => exact inv.readerTo other nofun ⟨_, computed⟩ fun d reads => .inr (by rw [at_]; exact reads)
  · -- enter
    cases moved
    have other : s.reader ≠ .control := by rw [at_]; exact nofun
    split
    · exact inv.readerOn other rfl
    · split
      · exact inv.readerOn other rfl
      · exact inv.readerTo other nofun ok fun d reads => .inr (by rw [at_]; exact reads)
  · -- wait
    have other : s.reader ≠ .control := by rw [at_]; exact nofun
    split at moved
    · cases moved
      exact inv.readerOn other rfl
    · split at moved
      · rename_i message rest inbox
        have tally := inv.tally
        have balance := inv.balance
        rw [inbox, if_neg other] at tally
        rw [inbox] at balance
        split at moved
        · -- the control message
          rename_i same
          cases moved
          have here : s.self ∈ s.inbox := by rw [inbox, same]; exact mem_cons_self
          rw [same, count_cons_self] at tally balance
          exact inv.reads trivial (fun i sends => absurd here ((inv.callers i).absent sends).1)
            (fun nobody => by rw [if_pos rfl, ← tally nobody]) nofun (by omega) inv.apart rfl
        · -- a datagram
          rename_i differs
          cases moved
          rw [count_cons_of_ne differs] at tally balance
          exact inv.reads differs
            (fun i _ => ⟨rfl, fun here => by rw [inbox]; exact mem_cons_of_mem _ here, nofun⟩)
            (fun nobody => by rw [if_neg nofun, ← tally nobody]) nofun balance inv.apart rfl
      · obtain ⟨-, moved⟩ := ite_none_right_eq_some.mp moved
        cases moved
        exact inv.readerOn other rfl
  · -- control
    cases moved
    refine inv.reads trivial (fun i sends => absurd at_ ((inv.callers i).absent sends).2) (fun nobody => ?_) nofun
      inv.balance inv.apart rfl
    have tally := inv.tally nobody
    rw [if_pos at_] at tally
    rw [if_neg nofun, if_neg nofun]
    split at tally <;> omega
  · -- dgram
    cases moved
    have other : s.reader ≠ .control := by rw [at_]; exact nofun
    refine inv.reads trivial (fun i _ => ⟨rfl, id, nofun⟩) (fun nobody => ?_) nofun inv.balance
      (fun same => ok (Option.some.inj same)) rfl
    have tally := inv.tally nobody
    rw [if_neg other] at tally
    rwa [if_neg nofun]
  · -- shut
    rename_i stage
    obtain ⟨⟨u, next⟩, shut, rfl⟩ := map_eq_some_iff.mp moved
    obtain ⟨after, okAfter⟩ := inv.shutdown flag ok shut
    have other : u.reader ≠ .control := by rw [(shutdown_frame shut).2.2, at_]; exact nofun
    cases next with
    | none => exact after.readerOn other rfl
    | some stage => exact after.readerTo other nofun (okAfter stage rfl) nofun

/-- The session was freed: the control messages are accounted for, and the session was freed once. -/
structure Over (s : DtlsSession ι) : Prop where
  gone : s.gone = true
  reader : s.reader = .out
  inbox : s.inbox = []
  balance : s.sent = s.taken
  intact : s.aborted = false
  pending : s.pendingDgram = none
  once : s.released.count s.self = 1

theorem Inv.release (inv : s.Inv) (out : s.reader = .out) (alive : s.gone = false) : s.release.Over := by
  have apart : (s.pendingDgram.toList).count s.self = 0 :=
    count_eq_zero.mpr fun here => inv.apart (Option.mem_toList.mp here)
  have others : (s.inbox.filter fun message => message != s.self).count s.self = 0 :=
    count_eq_zero.mpr fun here => absurd (mem_filter.mp here).2 (by simp)
  have once := inv.once
  rw [alive, if_neg Bool.false_ne_true] at once
  refine ⟨rfl, out, rfl, inv.balance, inv.intact, rfl, ?_⟩
  show List.count s.self (s.self :: (s.inbox.filter fun message => message != s.self) ++ s.pendingDgram.toList ++
    s.released) = 1
  rw [count_append, count_append, count_cons_self, apart, others, once]

/-- Who won the exchange of `closed` goes on to close the inbox. -/
def Ended (s : DtlsSession ι) : Prop :=
  s.closed = true → s.inboxClosed = true ∨ s.reader.ending = true ∨ ∃ i, (s.pc i).ending = true

theorem Ended.shutdown {stage : ShutStage} {next : Option ShutStage} (ended : s.Ended)
    (moved : s.shutdown stage = some (t, next)) :
    t.closed = true → t.inboxClosed = true ∨ (∃ after, next = some after ∧ after ≠ .exchange) ∨
      stage = .exchange ∧ (s.reader.ending = true ∨ ∃ i, (s.pc i).ending = true) := by
  intro closed
  cases stage with
  | exchange =>
    cases moved
    by_cases before : s.closed = true
    · exact (ended before).imp_right fun others => .inr ⟨rfl, others⟩
    · exact .inr (.inl ⟨.unlink, by rw [if_neg before], by decide⟩)
  | unlink =>
    obtain ⟨-, moved⟩ := ite_none_left_eq_some.mp moved
    cases moved
    exact .inr (.inl ⟨.inbox, rfl, by decide⟩)
  | inbox =>
    cases moved
    exact .inl rfl

theorem goReader_cases (moved : s.goReader env = some t) :
    (∃ stage u next, s.reader = .shut stage ∧ s.shutdown stage = some (u, next) ∧
      t = { u with reader := next.elim .out .shut }) ∨
    s.reader.ending = false ∧ t.pc = s.pc ∧ t.locked = s.locked ∧ t.closed = s.closed ∧
      t.inboxClosed = s.inboxClosed := by
  unfold DtlsSession.goReader at moved
  split at moved <;> rename_i at_ <;> rw [at_]
  · cases moved
  · cases moved; exact .inr ⟨rfl, rfl, rfl, rfl, rfl⟩
  · cases moved; right; split <;> exact ⟨rfl, rfl, rfl, rfl, rfl⟩
  · cases moved; exact .inr ⟨rfl, rfl, rfl, rfl, rfl⟩
  · cases moved; exact .inr ⟨rfl, rfl, rfl, rfl, rfl⟩
  · cases moved; exact .inr ⟨rfl, rfl, rfl, rfl, rfl⟩
  · right
    split at moved
    · cases moved; exact ⟨rfl, rfl, rfl, rfl, rfl⟩
    · split at moved
      · split at moved <;> cases moved <;> exact ⟨rfl, rfl, rfl, rfl, rfl⟩
      · obtain ⟨-, moved⟩ := ite_none_right_eq_some.mp moved
        cases moved
        exact ⟨rfl, rfl, rfl, rfl, rfl⟩
  · cases moved; exact .inr ⟨rfl, rfl, rfl, rfl, rfl⟩
  · cases moved; exact .inr ⟨rfl, rfl, rfl, rfl, rfl⟩
  · obtain ⟨⟨u, next⟩, shut, rfl⟩ := map_eq_some_iff.mp moved
    exact .inl ⟨_, u, next, rfl, shut, rfl⟩

section Moves

variable {i : ι} [DecidableEq ι] {oom : Bool}

theorem go_cases (moved : s.go i oom = some t) :
    (∃ stage u next, s.pc i = .shut stage ∧ s.shutdown stage = some (u, next) ∧ t = u.goto i (next.elim .out .shut)) ∨
    (s.pc i).ending = false ∧ t.reader = s.reader ∧ t.closed = s.closed ∧ t.inboxClosed = s.inboxClosed ∧
      ∃ p, t.pc = update s.pc i p ∧
        (t.locked = s.locked ∧ p.inside = (s.pc i).inside ∨ s.locked = false ∧ t.locked = true ∨
          (s.pc i).inside = true ∧ p.inside = false) := by
  unfold DtlsSession.go at moved
  split at moved <;> rename_i at_ <;> rw [at_]
  · cases moved
  · obtain ⟨free, moved⟩ := ite_none_left_eq_some.mp moved
    cases moved
    exact .inr ⟨rfl, rfl, rfl, rfl, _, rfl, .inr (.inl ⟨eq_false_iff.mpr free, rfl⟩)⟩
  · cases moved
    exact .inr ⟨rfl, rfl, rfl, rfl, _, rfl, .inl ⟨rfl, by split <;> rfl⟩⟩
  · cases moved
    exact .inr ⟨rfl, rfl, rfl, rfl, _, rfl, .inl ⟨rfl, by split <;> rfl⟩⟩
  · split at moved
    · cases moved
      exact .inr ⟨rfl, rfl, rfl, rfl, s.pc i, (Function.update_eq_self i s.pc).symm, .inl ⟨rfl, by rw [at_]⟩⟩
    · split at moved <;> cases moved <;> exact .inr ⟨rfl, rfl, rfl, rfl, _, rfl, .inl ⟨rfl, rfl⟩⟩
  · cases moved
    exact .inr ⟨rfl, rfl, rfl, rfl, _, rfl, .inl ⟨rfl, rfl⟩⟩
  · cases moved
    exact .inr ⟨rfl, rfl, rfl, rfl, .out, rfl, .inr (.inr ⟨rfl, rfl⟩)⟩
  · obtain ⟨⟨u, next⟩, shut, rfl⟩ := map_eq_some_iff.mp moved
    exact .inl ⟨_, u, next, rfl, shut, rfl⟩
  · rename_i dgram
    obtain ⟨-, moved⟩ := ite_none_left_eq_some.mp moved
    cases moved
    obtain ⟨pcs, locked, reader, closed, inbox⟩ := push_frame s dgram oom
    refine .inr ⟨rfl, reader, closed, inbox, .out, ?_, .inl ⟨locked, rfl⟩⟩
    show update (s.push dgram oom).pc i .out = _
    rw [pcs]

theorem lock_go (flag : Flag s.locked fun j => (s.pc j).inside = true) (moved : s.go i oom = some t) :
    Flag t.locked fun j => (t.pc j).inside = true := by
  rcases go_cases moved with ⟨stage, u, next, at_, shut, rfl⟩ | ⟨-, -, -, -, p, pcs, locks⟩
  · obtain ⟨pcs, locked, -⟩ := shutdown_frame shut
    show Flag u.locked fun j => (update u.pc i _ j).inside = true
    rw [pcs, locked]
    refine flag.goto ?_
    rw [at_]
    cases next <;> rfl
  · rw [pcs]
    rcases locks with ⟨locked, same⟩ | ⟨free, locked⟩ | ⟨holds, out⟩
    · rw [locked]
      exact flag.goto same
    · rw [locked]
      exact flag.goto_enter free
    · exact flag.goto_leave holds out

theorem Ended.go (ended : s.Ended) (moved : s.go i oom = some t) : t.Ended := by
  -- the others keep what they do
  have others : ∀ p : DtlsCallerPc, (s.pc i).ending = false → (∃ j, (s.pc j).ending = true) →
      ∃ j, (update s.pc i p j).ending = true := by
    rintro p before ⟨j, at_⟩
    have other : j ≠ i := fun same => by rw [same, before] at at_; cases at_
    exact ⟨j, by rwa [update_of_ne other]⟩
  intro closed
  rcases go_cases moved with ⟨stage, u, next, at_, shut, rfl⟩ | ⟨before, reader, same, inbox, p, pcs, -⟩
  · obtain ⟨pcs, -, reader⟩ := shutdown_frame shut
    show u.inboxClosed = true ∨ u.reader.ending = true ∨ ∃ j, (update u.pc i _ j).ending = true
    rw [pcs, reader]
    rcases ended.shutdown shut closed with done | ⟨after, rfl, later⟩ | ⟨rfl, reads | calls⟩
    · exact .inl done
    · refine .inr (.inr ⟨i, ?_⟩)
      rw [update_self]
      cases after with
      | exchange => exact absurd rfl later
      | unlink | inbox => rfl
    · exact .inr (.inl reads)
    · exact .inr (.inr (others _ (by rw [at_]; rfl) calls))
  · rw [reader, inbox, pcs]
    exact (ended (same ▸ closed)).imp_right (Or.imp_right (others p before))

end Moves

theorem Ended.goReader (ended : s.Ended) (moved : s.goReader env = some t) : t.Ended := by
  intro closed
  rcases goReader_cases moved with ⟨stage, u, next, at_, shut, rfl⟩ | ⟨before, pcs, -, same, inbox⟩
  · obtain ⟨pcs, -, -⟩ := shutdown_frame shut
    rw [pcs]
    rcases ended.shutdown shut closed with done | ⟨after, rfl, later⟩ | ⟨rfl, reads | calls⟩
    · exact .inl done
    · refine .inr (.inl ?_)
      cases after with
      | exchange => exact absurd rfl later
      | unlink | inbox => rfl
    · rw [at_] at reads
      cases reads
    · exact .inr (.inr calls)
  · rw [inbox, pcs]
    rcases ended (same ▸ closed) with done | reads | calls
    · exact .inl done
    · rw [before] at reads
      cases reads
    · exact .inr (.inr calls)

/-- What holds until the session is freed. -/
structure Good (s : DtlsSession ι) : Prop where
  inv : s.Inv
  flag : Flag s.locked fun i => (s.pc i).inside = true
  ended : s.Ended

section Run

variable {i : ι} {p : DtlsCallerPc} [DecidableEq ι]

theorem Good.begin_ (good : s.Good) (out : s.pc i = .out) (ok : s.CallerOk p) (outside : p.inside = false)
    (silent : p.sending = false) : (s.goto i p).Good := by
  have still : (s.pc i).changing = false := by rw [out]; rfl
  refine ⟨good.inv.goto ok (by rw [out, silent]; rfl) fun may => absurd (still.symm.trans may) (by decide),
    good.flag.goto (by rw [out, outside]; rfl),
    fun closed => ?_⟩
  refine (good.ended closed).imp_right (Or.imp_right fun ⟨j, at_⟩ => ⟨j, ?_⟩)
  have other : j ≠ i := fun same => by rw [same, out] at at_; cases at_
  show (update s.pc i p j).ending = true
  rwa [update_of_ne other]

theorem Good.step {a : DtlsSessionAct ι} (good : s.Good) (allowed : s.Allowed a) (moved : s.step a = some t) :
    t.Good ∨ t.Over := by
  obtain ⟨alive, moved⟩ := ite_none_left_eq_some.mp moved
  cases a with
  | setRead i deadline =>
    obtain ⟨out, moved⟩ := ite_none_right_eq_some.mp moved
    cases moved
    have begun : (s.goto i (.setLock true)).Good := good.begin_ out trivial rfl rfl
    refine .inl ⟨begun.inv.setDeadline ⟨i, ?_⟩ deadline, begun.flag, begun.ended⟩
    show (update s.pc i (.setLock true) i).changing = true
    rw [update_self]
    rfl
  | setWrite i | close i =>
    obtain ⟨out, moved⟩ := ite_none_right_eq_some.mp moved
    cases moved
    exact .inl (good.begin_ out trivial rfl rfl)
  | dgram i message =>
    obtain ⟨out, moved⟩ := ite_none_right_eq_some.mp moved
    cases moved
    exact .inl (good.begin_ out allowed rfl rfl)
  | go i oom => exact .inl ⟨good.inv.go good.flag moved, lock_go good.flag moved, good.ended.go moved⟩
  | read =>
    obtain ⟨out, moved⟩ := ite_none_right_eq_some.mp moved
    cases moved
    refine .inl ⟨good.inv.readerOn (by rw [out]; decide) rfl, good.flag, fun closed => ?_⟩
    rcases good.ended closed with done | reads | calls
    · exact .inl done
    · rw [out] at reads
      cases reads
    · exact .inr (.inr calls)
  | reader env =>
    refine .inl ⟨good.inv.goReader good.flag moved, ?_, good.ended.goReader moved⟩
    rcases goReader_cases moved with ⟨stage, u, next, -, shut, rfl⟩ | ⟨-, pcs, locked, -⟩
    · obtain ⟨pcs, locked, -⟩ := shutdown_frame shut
      rw [pcs, locked]
      exact good.flag
    · rw [pcs, locked]
      exact good.flag
  | free =>
    cases moved
    exact .inr (good.inv.release allowed.1 (eq_false_iff.mpr fun gone => alive (by rw [gone]; rfl)))

theorem reach_good {self : Nat} (reach : Reach step Allowed (init self) s) : s.Good ∨ s.Over := by
  induction reach with
  | start => exact .inl ⟨inv_init self, Flag.nobody fun _ => nofun, fun closed => nomatch closed⟩
  | next _ allowed moved ih =>
    rcases ih with good | finished
    · exact good.step allowed moved
    · obtain ⟨alive, -⟩ := ite_none_left_eq_some.mp moved
      exact absurd (by rw [finished.gone]; rfl) alive

end Run

theorem Inv.count_le (inv : s.Inv) : s.inbox.count s.self ≤ 1 := by
  by_cases nobody : ∀ i, (s.pc i).sending = false
  · have tally := inv.tally nobody
    split at tally <;> split at tally <;> omega
  · obtain ⟨i, sends⟩ := not_forall.mp nobody
    have absent := ((inv.callers i).absent (by simpa using sends)).1
    rw [count_eq_zero.mpr absent]
    exact Nat.zero_le 1

/-- A message in the inbox ends the wait, and so does the closing of the inbox. -/
theorem goReader_wakes {deadline wait : Nat} (waits : s.reader = .wait deadline wait)
    (wakes : s.inbox ≠ [] ∨ s.inboxClosed = true) (env : ReadEnv) :
    ∃ t, s.goReader env = some t ∧ t.reader.deadline = none := by
  unfold DtlsSession.goReader
  rw [waits]
  dsimp only
  split
  · exact ⟨_, rfl, rfl⟩
  · cases inbox : s.inbox with
    | nil => exact ⟨_, if_pos (wakes.resolve_left fun some_ => some_ inbox), rfl⟩
    | cons message rest =>
      by_cases same : message = s.self
      · exact ⟨_, if_pos same, rfl⟩
      · exact ⟨_, if_neg same, rfl⟩

end DtlsSession

/-- Whatever calls set deadlines, push datagrams and close the session: a reader that waits with a deadline that is
not the current one has a control message in its inbox once no call that sets the read deadline is in progress,
unless the session was closed, in which case its inbox is closed or about to be, or the message could not be
allocated. The control message is taken for no datagram, is sent once until it is taken out, and is freed with the
session. -/
theorem dtls_deadline_not_missed {ι : Type} [DecidableEq ι] {self : Nat} {s : DtlsSession ι}
    (reach : Reach DtlsSession.step DtlsSession.Allowed (DtlsSession.init self) s) :
    (∀ deadline wait, s.reader = .wait deadline wait → (∃ now, dtlsWait deadline now = some wait) ∧
      ((∀ i, (s.pc i).setsRead = false) →
        s.rdDeadline = deadline ∨ s.self ∈ s.inbox ∨ s.closed = true ∨ s.failed = true) ∧
      (s.closed = true → s.inboxClosed = true ∨ ∃ i, (s.pc i).ending = true) ∧
      (s.self ∈ s.inbox ∨ s.inboxClosed = true → ∀ env, ∃ t, s.goReader env = some t ∧ t.reader.deadline = none)) ∧
    (∀ message, s.reader = .dgram message → message ≠ s.self) ∧ s.pendingDgram ≠ some s.self ∧
    s.sent = s.taken + s.inbox.count s.self ∧ s.inbox.count s.self ≤ 1 ∧
    s.released.count s.self = (if s.gone then 1 else 0) ∧ s.aborted = false := by
  rcases DtlsSession.reach_good reach with ⟨inv, flag, ended⟩ | finished
  · refine ⟨fun deadline wait waits => ⟨?_, fun nobody => ?_, fun closed => ?_, fun wakes => ?_⟩, fun message at_ => ?_,
      inv.apart, inv.balance, inv.count_le, inv.once, inv.intact⟩
    · have ok := inv.reading
      rwa [waits] at ok
    · rcases inv.stale deadline (by rw [waits]; rfl) with same | inbox | closed | failed | ⟨i, may⟩
      · exact .inl same
      · exact .inr (.inl inbox)
      · exact .inr (.inr (.inl closed))
      · exact .inr (.inr (.inr failed))
      · exact absurd ((DtlsCallerPc.setsRead_of_changing may).symm.trans (nobody i)) (by decide)
    · rcases ended closed with done | reads | calls
      · exact .inl done
      · rw [waits] at reads
        cases reads
      · exact .inr calls
    · exact DtlsSession.goReader_wakes waits (wakes.imp_left List.ne_nil_of_mem)
    · have ok := inv.reading
      rwa [at_] at ok
  · obtain ⟨gone, reader, inbox, balance, intact, pending, once⟩ := finished
    rw [reader, inbox, pending, once, gone]
    exact ⟨nofun, nofun, nofun, balance, Nat.zero_le 1, rfl, intact⟩

/-- A reader waits without a deadline when another call sets one; the call leaves the control message. -/
theorem dtls_deadline_not_missed_set : ∃ s : DtlsSession (Fin 2),
    Reach DtlsSession.step DtlsSession.Allowed (DtlsSession.init 7) s ∧ s.reader = .wait 0 (2 ^ 64 - 1) ∧
    (∀ i, s.pc i = .out) ∧ s.rdDeadline = 5 ∧ s.self ∈ s.inbox := by
  have run : ∃ s : DtlsSession (Fin 2), Reach DtlsSession.step DtlsSession.Allowed (DtlsSession.init 7) s ∧
      s.reader = .wait 0 (2 ^ 64 - 1) ∧ (∀ i, s.pc i = .out) ∧ s.rdDeadline = 5 ∧ s.closed = false ∧
      s.failed = false :=
    exists_reach ([DtlsSessionAct.read] ++ List.replicate 5 (DtlsSessionAct.reader ⟨.wantRead, false, true, 1, false⟩) ++
      [DtlsSessionAct.setRead 1 5] ++ List.replicate 5 (DtlsSessionAct.go 1 false)) (by decide +kernel)
  obtain ⟨s, reach, waits, out, deadline, open_, sent⟩ := run
  refine ⟨s, reach, waits, out, deadline, ?_⟩
  rcases ((dtls_deadline_not_missed reach).1 0 _ waits).2.1 fun i => by rw [out i]; rfl with
    same | inbox | closed | failed
  · rw [deadline] at same
    cases same
  · exact inbox
  · rw [open_] at closed
    cases closed
  · rw [sent] at failed
    cases failed

/-- A close has set the flag and not yet closed the inbox when a call sets the deadline: it leaves no control message,
and the reader waits on with the old one until the inbox is closed. -/
theorem dtls_deadline_missed_closing : ∃ s : DtlsSession (Fin 2),
    Reach DtlsSession.step DtlsSession.Allowed (DtlsSession.init 7) s ∧ s.reader = .wait 0 (2 ^ 64 - 1) ∧
    (∀ i, (s.pc i).setsRead = false) ∧ s.rdDeadline = 5 ∧ s.self ∉ s.inbox ∧ s.failed = false ∧
    s.inboxClosed = false :=
  exists_reach ([DtlsSessionAct.read] ++ List.replicate 5 (DtlsSessionAct.reader ⟨.wantRead, false, true, 1, false⟩) ++
    [DtlsSessionAct.close 0, .go 0 false, .setRead 1 5] ++ List.replicate 3 (DtlsSessionAct.go 1 false)) (by decide +kernel)

end Xylem.Tls
