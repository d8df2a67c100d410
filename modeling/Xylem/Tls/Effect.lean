import Xylem.Tls.Transport

namespace Xylem.Tls

open Lib Function DtlsTransport
open Option (ite_none_right_eq_some)

variable {A : Type}

def DtlsOp.session : DtlsOp → Option Nat
  | .operate k | .deadlineChanged k | .shutdown k | .unlink k | .closeInbox k | .unref k | .dropTable k | .free k
  | .returns k => some k
  | _ => none

namespace DtlsTransport

variable (s : DtlsTransport A)

inductive Idle : DtlsOp → List DtlsOp → Prop
  | ended : Idle .receive []
  | received : Idle .receive [.receive]
  | stopped (dispatcher : Bool) : s.accepting = false →
      Idle (.stopAccepting dispatcher) (if dispatcher then [.sweep] else [])
  | swept : Idle .sweep []
  | refused : Idle .awaitToken []
  | missed : Idle .takePending []
  | finished (k : Nat) : Idle (.operate k) []
  | failed (k : Nat) : Idle (.operate k) [.shutdown k, .operate k]
  | read (k : Nat) : Idle (.operate k) [.operate k]
  | changed (k : Nat) : Idle (.deadlineChanged k) []
  | again (k : Nat) : (s.conn k).closed = true → Idle (.shutdown k) []
  | gone (k : Nat) : (s.conn k).inSessions = false → Idle (.unlink k) [.closeInbox k]
  | returned (k : Nat) : Idle (.returns k) []
  | returnedListener : Idle .returnsListener []

def SameButInbox (conn conn' : Nat → DtlsConn A) : Prop :=
  ∀ k, ∃ inbox wakePending, conn' k = { conn k with inbox, wakePending }

/-- Everything that an operation can do, and what it leaves to do first. -/
inductive Effect : DtlsOp → DtlsTransport A → List DtlsOp → Prop
  | idle {op : DtlsOp} {more : List DtlsOp} (conn : Nat → DtlsConn A) : Idle s op more → SameButInbox s.conn conn →
      Effect op { s with conn } more
  | publish (peer : A) (inbox : List (Option (List UInt8))) : s.accepting = true → Effect .receive
        { s with
          created := s.created + 1, refs := s.refs + 1, table := s.created :: s.table, tokens := s.tokens + 1,
          pending := s.pending ++ [s.created],
          conn := Function.update s.conn s.created { DtlsConn.fresh peer with inbox, queued := 1 } }
        [.receive]
  | unpublish (peer : A) (inbox : List (Option (List UInt8))) : s.accepting = true → Effect .receive
        { s with
          created := s.created + 1, refs := s.refs + 1,
          conn := Function.update s.conn s.created
            { DtlsConn.fresh peer with inbox, inSessions := false, closed := true, inboxClosed := true } }
        [.dropTable s.created, .receive]
  | stop (dispatcher : Bool) : s.accepting = true → Effect (.stopAccepting dispatcher) s.stopAccepting.1
        ((s.pending.flatMap fun k => [DtlsOp.shutdown k, .dropTable k]) ++ if dispatcher then [DtlsOp.sweep] else [])
  | sweep (k : Nat) : k ∈ s.table → Effect .sweep (s.ref k) [.shutdown k, .unref k, .sweep]
  | token : Effect .awaitToken { s with tokens := s.tokens - 1 } [.takePending]
  | take (k : Nat) (rest : List Nat) : s.accepting = true → s.pending = k :: rest → Effect .takePending
        { s with
          pending := rest,
          conn := Function.update s.conn k
            { s.conn k with refs := (s.conn k).refs + 1, held := true, accepts := (s.conn k).accepts + 1 } }
        []
  | shut (k : Nat) : (s.conn k).closed = false →
      Effect (.shutdown k) (s.setConn k { s.conn k with closed := true }) [.unlink k]
  | unlink (k : Nat) : (s.conn k).inSessions = true → Effect (.unlink k)
        { s with
          table := s.table.erase k,
          socketCloses := if !s.accepting && s.table.erase k = [] then s.socketCloses + 1 else s.socketCloses,
          conn := Function.update s.conn k { s.conn k with inSessions := false } }
        [.closeInbox k, .dropTable k]
  | closeInbox (k : Nat) : Effect (.closeInbox k) (s.setConn k { s.conn k with inboxClosed := true }) []
  | unref (k : Nat) :
      Effect (.unref k) (s.setConn k { s.conn k with refs := (s.conn k).refs - 1 })
        (if (s.conn k).refs = 1 then [.free k] else [])
  | dropTable (k : Nat) :
      Effect (.dropTable k)
        (s.setConn k { s.conn k with refs := (s.conn k).refs - 1, drops := (s.conn k).drops + 1 })
        (if (s.conn k).refs = 1 then [.free k] else [])
  | free (k : Nat) :
      Effect (.free k) (s.setConn k { s.conn k with frees := (s.conn k).frees + 1 }) [.unrefTransport]
  | unrefTransport :
      Effect .unrefTransport { s with refs := s.refs - 1 } (if s.refs = 1 then [.freeTransport] else [])
  | freeTransport : Effect .freeTransport { s with frees := s.frees + 1 } []

/-- A call of the user, and what it has to do. -/
inductive Call : DtlsTransport A → List DtlsOp → Prop
  | accept : s.listener = true → Call { s with refs := s.refs + 1 } [.awaitToken, .unrefTransport, .returnsListener]
  | operation (k : Nat) : (s.conn k).held = true → Call (s.ref k) [.operate k, .unref k, .returns k]
  | setDeadline (k : Nat) : (s.conn k).held = true → Call s [.deadlineChanged k, .returns k]
  | close (k : Nat) : (s.conn k).held = true → Call s [.shutdown k, .returns k]
  | destroy (k : Nat) : (s.conn k).held = true → .returns k ∉ s.work.flatten →
      Call (s.setConn k { s.conn k with held := false }) [.shutdown k, .unref k]
  | closeListener : s.listener = true → Call s [.stopAccepting false, .returnsListener]
  | destroyListener : s.listener = true → .returnsListener ∉ s.work.flatten →
      Call { s with listener := false } [.stopAccepting false, .unrefTransport]

variable {s t : DtlsTransport A} {op : DtlsOp} {more : List DtlsOp}

theorem SameButInbox.refl (conn : Nat → DtlsConn A) : SameButInbox conn conn := fun _ => ⟨_, _, rfl⟩

theorem SameButInbox.update (conn : Nat → DtlsConn A) (k : Nat) (inbox : List (Option (List UInt8)))
    (wakePending : Bool) : SameButInbox conn (update conn k { conn k with inbox, wakePending }) := by
  intro j
  by_cases here : j = k
  · subst here
    exact ⟨inbox, wakePending, update_self ..⟩
  · exact ⟨_, _, update_of_ne here ..⟩

theorem inboxPush_open {k : Nat} (open_ : (s.conn k).inboxClosed = false) (data : List UInt8) (pushed : Bool) :
    ∃ inbox, s.inboxPush k data pushed = s.setConn k { s.conn k with inbox } := by
  unfold inboxPush
  split
  · refine ⟨(s.conn k).inbox, ?_⟩
    show s = { s with conn := update s.conn k (s.conn k) }
    rw [update_eq_self]
  · unfold sendInbox
    simp only [open_, Bool.false_eq_true, if_false]
    exact ⟨_, rfl⟩

theorem readInbox_effect (k : Nat) : ∃ conn, s.readInbox k = { s with conn } ∧ SameButInbox s.conn conn := by
  unfold readInbox
  split
  · exact ⟨s.conn, rfl, SameButInbox.refl _⟩
  · exact ⟨_, rfl, SameButInbox.update s.conn k _ false⟩
  · exact ⟨_, rfl, SameButInbox.update s.conn k _ (s.conn k).wakePending⟩

theorem deadlineChanged_effect {k : Nat} (open_ : (s.conn k).inSessions = true → (s.conn k).inboxClosed = false)
    (oom : Bool) : ∃ conn, s.deadlineChanged k oom = { s with conn } ∧ SameButInbox s.conn conn := by
  unfold deadlineChanged
  dsimp only
  split
  · rename_i changes
    have linked : (s.conn k).inSessions = true := by simp_all
    unfold sendInbox setConn
    dsimp only
    rw [update_self, if_neg (by simpa using open_ linked), update_idem]
    exact ⟨_, rfl, SameButInbox.update s.conn k _ true⟩
  · exact ⟨s.conn, rfl, SameButInbox.refl _⟩

theorem stopAccepting_eq (accepting : s.accepting = true) : s.stopAccepting.1 = { s with
        accepting := false, acceptClosed := true, pending := [], table := s.table.filter fun k => k ∉ s.pending,
        socketCloses :=
          if (s.table.filter fun k => k ∉ s.pending) = [] then s.socketCloses + 1 else s.socketCloses,
        conn := fun k =>
          if k ∈ s.pending then { s.conn k with inSessions := false, discards := (s.conn k).discards + 1 }
          else s.conn k } := by
  unfold stopAccepting
  rw [if_neg (by simpa using accepting)]

theorem takePending_effect : Effect s .takePending s.takePending [] := by
  unfold takePending
  split
  · rename_i k rest accepting pending
    exact .take k rest accepting pending
  · exact .idle _ .missed (SameButInbox.refl _)

section Exec

variable [DecidableEq A] {env : DtlsEnv A}

theorem dispatch_effect {peer : A} {data : List UInt8} {made pushed sent : Bool}
    (open_ : ∀ k ∈ s.table, (s.conn k).inboxClosed = false) (accept : s.accepting = true → s.acceptClosed = false)
    (ran : s.dispatch peer data made pushed sent = (t, more)) :
    Effect s .receive t (more ++ [DtlsOp.receive]) := by
  unfold dispatch at ran
  split at ran
  · rename_i k found
    obtain ⟨inbox, pushed_⟩ := inboxPush_open (open_ k (List.mem_of_find?_eq_some found)) data pushed
    rw [pushed_] at ran
    cases ran
    exact .idle _ .received (SameButInbox.update s.conn k inbox (s.conn k).wakePending)
  · split at ran
    · rename_i admitted
      have accepting : s.accepting = true := by simp_all
      have fresh : (s.create peer).conn s.created = DtlsConn.fresh peer := update_self ..
      obtain ⟨inbox, pushed_⟩ := @inboxPush_open _ (s.create peer) s.created (by rw [fresh]; rfl) data pushed
      rw [fresh] at pushed_
      have closed : ((s.create peer).inboxPush s.created data pushed).acceptClosed = false := by
        rw [pushed_]; exact accept accepting
      have update : ∀ c : DtlsConn A, update (update (update s.conn s.created
          (DtlsConn.fresh peer)) s.created { DtlsConn.fresh peer with inbox }) s.created c =
          update s.conn s.created c := by
        intro c
        rw [update_idem, update_idem]
      dsimp only at ran
      rw [if_neg (by rw [closed]; decide), pushed_] at ran
      split at ran
      · cases ran
        have effect := Effect.publish peer inbox accepting
        simp only [enqueue, setConn, create, update_self, update]
        exact effect
      · cases ran
        have effect := Effect.unpublish peer inbox accepting
        simp only [discardNew, setConn, create, update_self, update, List.erase_cons_head]
        exact effect
    · cases ran
      exact .idle _ .received (SameButInbox.refl _)

section

variable (open_ : ∀ k, (s.conn k).inSessions = true → (s.conn k).inboxClosed = false)
include open_

theorem exec_effect
    (linked : ∀ k ∈ s.table, (s.conn k).inSessions = true) (accept : s.accepting = true → s.acceptClosed = false)
    (ran : s.exec env op = some (t, more)) : Effect s op t more := by
  have idle : ∀ {op more}, Idle s op more → Effect s op s more := fun still => .idle _ still (SameButInbox.refl _)
  unfold exec at ran
  split at ran
  · split at ran
    · rename_i peer data made pushed sent
      cases ran
      exact dispatch_effect (fun k here => open_ k (linked k here)) accept rfl
    · cases ran
      exact idle .ended
  · rename_i dispatcher
    by_cases stopped : (!s.accepting) = true
    · have same : s.stopAccepting = (s, []) := if_pos stopped
      rw [same] at ran
      cases ran
      exact idle (.stopped dispatcher (by simpa using stopped))
    · have effect := Effect.stop dispatcher (show s.accepting = true by simpa using stopped)
      have left_ : s.stopAccepting.2 = s.pending.flatMap fun k => [.shutdown k, .dropTable k] := by
        unfold stopAccepting
        rw [if_neg stopped]
      rw [← left_] at effect
      obtain ⟨u, now⟩ : ∃ u, s.stopAccepting = u := ⟨_, rfl⟩
      rw [now] at ran effect
      cases ran
      exact effect
  · split at ran
    · cases ran
      exact idle .swept
    · obtain ⟨here, ran⟩ := ite_none_right_eq_some.mp ran
      cases ran
      exact .sweep _ here
    · cases ran
  · split at ran
    · cases ran
      exact .token
    · obtain ⟨-, ran⟩ := ite_none_right_eq_some.mp ran
      cases ran
      exact idle .refused
  · cases ran
    exact takePending_effect
  · rename_i k
    split at ran
    · cases ran
      obtain ⟨conn, same, inboxes⟩ := @readInbox_effect _ s k
      rw [same]
      exact .idle conn (.read k) inboxes
    · cases ran
      exact idle (.failed k)
    · cases ran
      exact idle (.finished k)
  · rename_i k
    obtain ⟨conn, same, inboxes⟩ := deadlineChanged_effect (open_ k) env.isFails
    rw [same] at ran
    cases ran
    exact .idle conn (.changed k) inboxes
  · rename_i k
    split at ran
    · rename_i closed
      cases ran
      exact idle (.again k closed)
    · rename_i open_
      cases ran
      exact .shut k (by simpa using open_)
  · rename_i k
    have ran := Option.some.inj ran
    unfold unlink at ran
    split at ran
    · rename_i here
      cases ran
      exact .unlink k here
    · rename_i gone
      cases ran
      exact idle (.gone k (by simpa using gone))
  · cases ran; exact .closeInbox _
  · cases ran; exact .unref _
  · cases ran; exact .dropTable _
  · cases ran; exact .free _
  · cases ran; exact .unrefTransport
  · cases ran; exact .freeTransport
  · cases ran; exact idle (.returned _)
  · cases ran; exact idle .returnedListener

theorem step_cases {a : DtlsAct A}
    (linked : ∀ k ∈ s.table, (s.conn k).inSessions = true) (accept : s.accepting = true → s.acceptClosed = false)
    (allowed : s.Allowed a) (moved : s.step a = some t) :
    (∃ i op rest u more, s.work[i]? = some (op :: rest) ∧ Effect s op u more ∧
      t = { u with work := s.work.set i (more ++ rest) }) ∨
    ∃ u program, Call s u program ∧ t = { u with work := s.work ++ [program] } := by
  obtain ⟨-, moved⟩ := Option.ite_none_left_eq_some.mp moved
  cases a with
  | run i env =>
    dsimp only at moved
    split at moved
    · rename_i op rest at_
      obtain ⟨⟨u, more⟩, ran, rfl⟩ := Option.map_eq_some_iff.mp moved
      have effect := exec_effect open_ linked accept ran
      have same : u.work = s.work := by
        cases effect with
        | stop _ accepting => unfold stopAccepting; split <;> rfl
        | idle | publish | unpublish | sweep | token | take | shut | unlink | closeInbox | unref | dropTable | free
        | unrefTransport | freeTransport => rfl
      exact .inl ⟨i, op, rest, u, more, at_, effect, by rw [same]⟩
    · cases moved
  | accept =>
    obtain ⟨held, moved⟩ := ite_none_right_eq_some.mp moved
    cases moved
    exact .inr ⟨_, _, .accept held, rfl⟩
  | operation k =>
    obtain ⟨held, moved⟩ := ite_none_right_eq_some.mp moved
    cases moved
    exact .inr ⟨_, _, .operation k held, rfl⟩
  | setDeadline k =>
    obtain ⟨held, moved⟩ := ite_none_right_eq_some.mp moved
    cases moved
    exact .inr ⟨_, _, .setDeadline k held, rfl⟩
  | close k =>
    obtain ⟨held, moved⟩ := ite_none_right_eq_some.mp moved
    cases moved
    exact .inr ⟨_, _, .close k held, rfl⟩
  | destroy k =>
    obtain ⟨held, moved⟩ := ite_none_right_eq_some.mp moved
    cases moved
    exact .inr ⟨_, _, .destroy k held allowed, rfl⟩
  | closeListener =>
    obtain ⟨held, moved⟩ := ite_none_right_eq_some.mp moved
    cases moved
    exact .inr ⟨_, _, .closeListener held, rfl⟩
  | destroyListener =>
    obtain ⟨held, moved⟩ := ite_none_right_eq_some.mp moved
    cases moved
    exact .inr ⟨_, _, .destroyListener held allowed, rfl⟩

end

end Exec

end DtlsTransport

end Xylem.Tls
