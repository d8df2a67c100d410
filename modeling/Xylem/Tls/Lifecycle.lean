import Xylem.Lib.Run
import Xylem.Tls.Backing
import Xylem.Tls.Tables
import Xylem.Tls.TransportRefs

namespace Xylem.Tls

open Lib List Bool DtlsOp

variable {A : Type}

namespace DtlsTransport

variable {s t : DtlsTransport A} {op : DtlsOp} {more rest program : List DtlsOp}

structure Inv (s : DtlsTransport A) : Prop where
  sessions : s.Sessions s.work.flatten
  tables : s.Tables s.work.flatten
  counts : s.Counts s.work.flatten
  orderly : ∀ program ∈ s.work, Orderly program

theorem inv_init (peer : A) : (init peer).Inv := by
  refine ⟨⟨nofun, fun k _ => ⟨⟨rfl, rfl, rfl, rfl⟩, nofun, rfl⟩⟩,
    ⟨nodup_nil, ?_, nodup_nil, rfl, fun _ => rfl, ?_, rfl, rfl⟩, ⟨rfl, rfl, ?_⟩, ?_⟩
  · exact fun k => iff_of_false nofun nofun
  · simp [init]
  · simp [init]
  · intro program here
    rw [mem_singleton.mp here]
    exact ⟨fun k => by simp [Backed, uses, session], by simp [Backed, usesTransport, keepsTransport]⟩

theorem Inv.alive (inv : s.Inv) (here : program ∈ s.work) (member : op ∈ program)
    (uses : op.usesTransport = true) : s.refs ≠ 0 := by
  obtain ⟨later, there, keeps⟩ := (inv.orderly program here).transport.holder member uses
  have somewhere : later ∈ s.work.flatten := mem_flatten.mpr ⟨program, here, there⟩
  have refs := inv.counts.refs
  rcases or_eq_true_iff.mp keeps with same | same
  · have count : 0 < s.work.flatten.count .unrefTransport := count_pos_iff.mpr (beq_iff_eq.mp same ▸ somewhere)
    omega
  · rw [inv.counts.held (beq_iff_eq.mp same ▸ somewhere), toNat_true] at refs
    omega

theorem Inv.uses_refs (inv : s.Inv) {k : Nat} (old : k < s.created) (member : op ∈ s.work.flatten)
    (uses : op.uses k = true) : (s.conn k).refs ≠ 0 := by
  obtain ⟨program, here, there⟩ := mem_flatten.mp member
  obtain ⟨later, after, keeps⟩ := ((inv.orderly program here).session k).holder there uses
  have somewhere : later ∈ s.work.flatten := mem_flatten.mpr ⟨program, here, after⟩
  have life := inv.sessions.born k old
  have refs := life.refs.refs
  rw [count_about rfl, count_about rfl] at refs
  simp only [DtlsOp.keeps, or_eq_true, beq_iff_eq] at keeps
  rcases keeps with (rfl | rfl) | rfl
  · have count := count_pos_iff.mpr somewhere
    omega
  · have count := count_pos_iff.mpr somewhere
    omega
  · rw [life.order.held ((mem_about rfl).mpr somewhere), toNat_true] at refs
    omega

theorem Inv.effect (inv : s.Inv) {i : Nat} (at_ : s.work[i]? = some (op :: rest)) (effect : s.Effect op t more) :
    { t with work := s.work.set i (more ++ rest) }.Inv := by
  obtain ⟨before, after, whole, next⟩ := Work.split at_ more
  have program : op :: rest ∈ s.work := mem_of_getElem? at_
  -- the others have to do what they had to do before
  have pick : s.work.flatten.Perm (op :: (before ++ (rest ++ after))) := whole ▸ perm_middle
  have put : (more ++ (before ++ (rest ++ after))).Perm (s.work.set i (more ++ rest)).flatten :=
    next ▸ perm_append_comm_assoc ..
  have sessions := inv.sessions.perm pick
  have tables := inv.tables.perm pick
  have counts := inv.counts.perm pick
  have swept : op = .sweep → s.pending = [] := fun same => tables.stopped (tables.swept (same ▸ .head _))
  have alive : op = .receive → s.refs ≠ 0 := fun same => inv.alive program (.head _) (same ▸ rfl)
  have sessions' := (sessions.effect (fun k here => (tables.mem k).mp here) tables.pending swept effect).perm put
  have tables' := (tables.effect sessions effect).perm put
  have counts' := (counts.effect sessions alive effect).perm put
  refine ⟨sessions'.keep rfl (.refl _) rfl fun _ => rfl, tables'.keep rfl rfl ⟨rfl, rfl, rfl, rfl⟩ (fun _ => rfl) .inl,
    ⟨counts'.refs, counts'.frees, counts'.held⟩, fun p here => ?_⟩
  rcases mem_or_eq_of_mem_set here with old | rfl
  · exact inv.orderly p old
  · exact (inv.orderly _ program).effect effect

theorem Inv.call (inv : s.Inv) (call : s.Call t program) : { t with work := s.work ++ [program] }.Inv := by
  have put : (program ++ s.work.flatten).Perm (s.work ++ [program]).flatten := by
    rw [flatten_append, flatten_singleton]
    exact perm_append_comm
  have sessions := (inv.sessions.call rfl call).perm put
  have tables := (inv.tables.call call).perm put
  have counts := (inv.counts.call rfl call).perm put
  refine ⟨sessions.keep rfl (.refl _) rfl fun _ => rfl, tables.keep rfl rfl ⟨rfl, rfl, rfl, rfl⟩ (fun _ => rfl) .inl,
    ⟨counts.refs, counts.frees, counts.held⟩, fun p here => ?_⟩
  rcases mem_append.mp here with old | new
  · exact inv.orderly p old
  · exact mem_singleton.mp new ▸ Orderly.call call

theorem Inv.step [DecidableEq A] (inv : s.Inv) {a : DtlsAct A} (allowed : s.Allowed a) (moved : s.step a = some t) :
    t.Inv := by
  have open_ : ∀ k, (s.conn k).inSessions = true → (s.conn k).inboxClosed = false := by
    intro k linked
    by_cases old : k < s.created
    · refine eq_false_iff.mpr fun closed => ?_
      exact nomatch ((inv.sessions.born k old).order.inbox (.inl closed)).symm.trans linked
    · exact nomatch (inv.sessions.unborn k (Nat.le_of_not_lt old)).1.inSessions.symm.trans linked
  have accept : s.accepting = true → s.acceptClosed = false := fun accepting => by
    rw [inv.tables.accept, accepting]
    rfl
  rcases step_cases open_ (fun k here => (inv.tables.mem k).mp here) accept allowed moved with
    ⟨i, op, rest, u, more, at_, effect, rfl⟩ | ⟨u, program, call, rfl⟩
  · exact inv.effect at_ effect
  · exact inv.call call

theorem Inv.of_reach [DecidableEq A] {peer : A} (reach : Reach DtlsTransport.step Allowed (init peer) s) : s.Inv := by
  induction reach with
  | start => exact inv_init peer
  | next _ allowed moved ih => exact ih.step allowed moved

/-- Without references a session is in nobody's hands, and its inbox is closed. -/
theorem Inv.unused (inv : s.Inv) {k : Nat} (old : k < s.created) (none_ : (s.conn k).refs = 0) :
    (s.conn k).inSessions = false ∧ (s.conn k).held = false ∧ (s.conn k).inboxClosed = true ∧
    ∀ op ∈ s.work.flatten, op.uses k = false := by
  have idle : ∀ op ∈ s.work.flatten, op.uses k = false := fun op here =>
    eq_false_iff.mpr fun uses => inv.uses_refs old here uses none_
  have life := inv.sessions.born k old
  have refs := life.refs.refs
  rw [none_] at refs
  have out : (s.conn k).inSessions = false := by
    cases linked : (s.conn k).inSessions with
    | false => rfl
    | true => rw [linked, toNat_true] at refs; omega
  have free : (s.conn k).held = false := by
    cases own : (s.conn k).held with
    | false => rfl
    | true => rw [own, toNat_true] at refs; omega
  refine ⟨out, free, ?_, idle⟩
  have nobody : ∀ op : DtlsOp, op.session = some k → op ≠ .free k → op ∉ about k s.work.flatten := by
    intro op mine other here
    have uses : op.uses k = true := by simp [DtlsOp.uses, mine, other]
    exact absurd ((idle op ((mem_about mine).mp here)).symm.trans uses) (by decide)
  rcases life.order.closing out with done | here | here | ⟨-, here⟩
  · exact done
  · exact absurd here (nobody _ rfl (by simp))
  · exact absurd here (nobody _ rfl (by simp))
  · exact absurd here (nobody _ rfl (by simp))

theorem Inv.finished (inv : s.Inv) (none_ : s.refs = 0) :
    s.listener = false ∧ (∀ k < s.created, (s.conn k).frees = 1) ∧ ∀ op ∈ s.work.flatten, op = .freeTransport := by
  have refs := inv.counts.refs
  rw [none_] at refs
  have freed : ∀ k < s.created, (s.conn k).frees ≠ 0 := by
    intro k old unfreed
    have some_ : 0 < s.live := countP_pos_iff.mpr ⟨k, mem_range.mpr old, by simpa using unfreed⟩
    omega
  have released : ∀ k < s.created, (s.conn k).frees = 1 ∧ s.work.flatten.count (.free k) = 0 ∧ (s.conn k).refs = 0 := by
    intro k old
    have life := (inv.sessions.born k old).refs.frees
    have some_ := freed k old
    rw [count_about rfl] at life
    split at life
    · exact ⟨by omega, by omega, by assumption⟩
    · omega
  refine ⟨?_, fun k old => (released k old).1, fun op here => ?_⟩
  · cases own : s.listener with
    | false => rfl
    | true => rw [own, toNat_true] at refs; omega
  · obtain ⟨program, member, there⟩ := mem_flatten.mp here
    by_cases transport : op.usesTransport = true
    · exact absurd none_ (inv.alive member there transport)
    · cases session : op.session with
      | none => cases op <;> first | rfl | exact absurd rfl transport | cases session
      | some k =>
        have old := inv.sessions.lt_created here session
        obtain ⟨-, frees, refs⟩ := released k old
        have idle := (inv.unused old refs).2.2.2 op here
        have free : op = .free k := by simpa [uses, session] using idle
        exact absurd (free ▸ here) (count_eq_zero.mp frees)

/-- The references of the transport are those of the listener, the sessions and the coroutines, and no other. -/
theorem Inv.unreferenced (inv : s.Inv) (done : s.listener = false ∧ (∀ k < s.created, (s.conn k).frees = 1) ∧
    ∀ op ∈ s.work.flatten, op = .freeTransport) : s.refs = 0 := by
  obtain ⟨gone, freed, idle⟩ := done
  have none_ : s.live = 0 := countP_eq_zero.mpr fun k here => by simp [freed k (mem_range.mp here)]
  have released : unrefTransport ∉ s.work.flatten := fun here => nomatch idle _ here
  rw [inv.counts.refs, gone, none_, count_eq_zero.mpr released]
  rfl

end DtlsTransport

/-- Whatever datagrams arrive and whatever calls the user makes within the contract: the reference of the table is
dropped once for every session, by whoever takes the session out of the table; a session that was pending is returned
by one accept, or discarded by the listener, or still pending; nothing is sent on a closed inbox or on the closed accept
channel, since that ends the program; the socket is closed when no accepts are to come and the table is empty, and not
before; a session is freed once, when nobody has it or works on it any more, and with its inbox closed; and so is the
transport, once the listener, every session and all work on it are gone. -/
theorem dtls_session_lifecycle [DecidableEq A] {peer : A} {s : DtlsTransport A}
    (reach : Reach DtlsTransport.step DtlsTransport.Allowed (DtlsTransport.init peer) s) : (∀ k < s.created,
      ((s.conn k).drops + s.work.flatten.count (.dropTable k) + (if k ∈ s.table then 1 else 0) = 1) ∧
      ((s.conn k).accepts + (s.conn k).discards + (if k ∈ s.pending then 1 else 0) = (s.conn k).queued ∧
        (s.conn k).queued ≤ 1) ∧
      ((s.conn k).frees + s.work.flatten.count (.free k) = if (s.conn k).refs = 0 then 1 else 0) ∧
      ((s.conn k).refs = 0 ↔ k ∉ s.table ∧ (s.conn k).held = false ∧ ∀ op ∈ s.work.flatten, op.uses k = false) ∧
      ((s.conn k).refs = 0 → (s.conn k).inboxClosed = true)) ∧
    s.aborted = false ∧
    (s.socketCloses = if s.accepting = false ∧ s.table = [] then 1 else 0) ∧
    (s.frees + s.work.flatten.count .freeTransport = if s.refs = 0 then 1 else 0) ∧
    (s.refs = 0 ↔ s.listener = false ∧ (∀ k < s.created, (s.conn k).frees = 1) ∧
      ∀ op ∈ s.work.flatten, op = .freeTransport) := by
  have inv := DtlsTransport.Inv.of_reach reach
  refine ⟨fun k old => ?_, inv.tables.intact, inv.tables.socket, inv.counts.frees, inv.finished, inv.unreferenced⟩
  have life := inv.sessions.born k old
  have linked : (if k ∈ s.table then 1 else 0) = (s.conn k).inSessions.toNat := by
    rw [if_congr (inv.tables.mem k) rfl rfl]
    cases (s.conn k).inSessions <;> rfl
  have refs := life.refs.refs
  have drops := life.refs.drops
  have frees := life.refs.frees
  rw [count_about rfl, count_about rfl] at refs
  rw [count_about rfl] at drops frees
  refine ⟨by rw [linked]; exact drops, ⟨?_, life.queue.2⟩, frees, ⟨fun none_ => ?_, ?_⟩, fun none_ => ?_⟩
  · rw [← life.queue.1]
    by_cases here : k ∈ s.pending <;> simp [here]
  · obtain ⟨out, free, -, idle⟩ := inv.unused old none_
    exact ⟨(fun here => nomatch out.symm.trans ((inv.tables.mem k).mp here)), free, idle⟩
  · rintro ⟨out, free, idle⟩
    have unref : DtlsOp.unref k ∉ s.work.flatten := fun here =>
      nomatch (idle _ here).symm.trans (show uses k (.unref k) = true by simp [uses, session])
    have drop : dropTable k ∉ s.work.flatten := fun here =>
      nomatch (idle _ here).symm.trans (show uses k (.dropTable k) = true by simp [uses, session])
    rw [refs, free, ← linked, if_neg out, List.count_eq_zero.mpr unref, List.count_eq_zero.mpr drop]
    rfl
  · exact (inv.unused old none_).2.2.1

/-- A datagram that starts a session. -/
def sampleHello : List UInt8 := [22, 0xfe, 0xfd, 0, 0, 0, 0, 0, 0, 0, 0, 0, 12, 1] ++ List.replicate 11 0

/-- One peer is accepted and its session destroyed, the other is still pending when the listener is destroyed. -/
theorem dtls_session_lifecycle_freed : ∃ s : DtlsTransport Nat,
    Reach DtlsTransport.step DtlsTransport.Allowed (DtlsTransport.init 0) s ∧ s.created = 2 ∧
    (s.conn 0).accepts = 1 ∧ (s.conn 1).discards = 1 ∧ s.socketCloses = 1 ∧ s.frees = 1 ∧
    ∀ k < 2, (s.conn k).frees = 1 := by
  have run : ∃ s : DtlsTransport Nat, Reach DtlsTransport.step DtlsTransport.Allowed (DtlsTransport.init 0) s ∧
      s.created = 2 ∧ (s.conn 0).accepts = 1 ∧ (s.conn 1).discards = 1 ∧ s.socketCloses = 1 ∧ s.frees = 1 ∧
      s.refs = 0 :=
    exists_reach ([DtlsAct.run 0 (.datagram 7 sampleHello true true true), .run 0 (.datagram 8 sampleHello true true true),
      .accept, .run 1 .plain, .run 1 .plain, .run 1 .plain, .run 1 .plain, .destroy 0] ++
      List.replicate 7 (DtlsAct.run 2 .plain) ++ [DtlsAct.destroyListener] ++ List.replicate 8 (DtlsAct.run 3 .plain) ++
      List.replicate 5 (DtlsAct.run 0 .plain)) (by decide +kernel)
  obtain ⟨s, reach, created, accepted, discarded, closed, freed, none_⟩ := run
  refine ⟨s, reach, created, accepted, discarded, closed, freed, fun k old => ?_⟩
  exact ((dtls_session_lifecycle reach).2.2.2.2.mp none_).2.1 k (created ▸ old)

end Xylem.Tls
