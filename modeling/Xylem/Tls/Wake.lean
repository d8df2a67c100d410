import Mathlib.Data.List.Count
import Xylem.Lib.Flag
import Xylem.Tls.Session

namespace Xylem.Tls

open Lib List
open Function (update_of_ne update_self)

variable {ι : Type}

namespace DtlsCallerPc

/-- The caller holds `sessions_mu` from one step to the next. -/
def inside : DtlsCallerPc → Bool
  | .setTest _ | .setExchange _ | .setSend _ | .setFail _ | .setUnlock _ => true
  | _ => false

/-- The caller has raised the flag for a control message that it has not sent. -/
def sending : DtlsCallerPc → Bool
  | .setSend _ | .setFail _ => true
  | _ => false

/-- A call of `dtls_set_read_deadline` that may still send the control message. -/
def changing : DtlsCallerPc → Bool
  | .setLock read | .setTest read | .setExchange read | .setSend read => read
  | _ => false

/-- A call of `dtls_set_read_deadline` is in progress. -/
def setsRead : DtlsCallerPc → Bool
  | .setLock read | .setTest read | .setExchange read | .setSend read | .setFail read | .setUnlock read => read
  | _ => false

/-- The shutdown that won the exchange, up to the closing of the inbox. -/
def ending : DtlsCallerPc → Bool
  | .shut .unlink | .shut .inbox => true
  | _ => false

end DtlsCallerPc

def DtlsReaderPc.ending : DtlsReaderPc → Bool
  | .shut .unlink | .shut .inbox => true
  | _ => false

/-- The deadline that the reader computes its wait from. -/
def DtlsReaderPc.deadline : DtlsReaderPc → Option Nat
  | .compute deadline | .enter deadline _ | .wait deadline _ => some deadline
  | _ => none

/-- The reader relies on nothing: it has no deadline and no message at hand, and closes nothing. -/
def DtlsReaderPc.plain : DtlsReaderPc → Bool
  | .out | .top | .backend | .load | .shut .exchange => true
  | _ => false

variable {pc : DtlsCallerPc}

theorem DtlsCallerPc.inside_of_sending (sending : pc.sending = true) : pc.inside = true := by
  cases pc <;> first | rfl | cases sending

theorem DtlsCallerPc.setsRead_of_changing (changing : pc.changing = true) : pc.setsRead = true := by
  cases pc <;> first | exact changing | cases changing

variable (s : DtlsSession ι)

/-- Closing goes in order: the flag, the table, the inbox. -/
def DtlsSession.ShutOk : ShutStage → Prop
  | .exchange => True
  | .unlink => s.closed = true
  | .inbox => s.closed = true ∧ s.inSessions = false

def DtlsSession.CallerOk : DtlsCallerPc → Prop
  | .setExchange _ => s.inSessions = true
  | .setSend _ => s.inSessions = true ∧ s.wakePending = true ∧ s.self ∉ s.inbox ∧ s.reader ≠ .control
  | .setFail _ => s.wakePending = true ∧ s.self ∉ s.inbox ∧ s.reader ≠ .control
  | .shut stage => s.ShutOk stage
  | .push dgram => dgram ≠ s.self
  | _ => True

def DtlsSession.ReaderOk : DtlsReaderPc → Prop
  | .enter deadline wait | .wait deadline wait => ∃ now, dtlsWait deadline now = some wait
  | .dgram message => message ≠ s.self
  | .shut stage => s.ShutOk stage
  | _ => True

/-- The flag counts the control message: it is in the inbox, in the hand of the reader that has not cleared the flag,
or about to be sent. A reader whose deadline is no longer the current one will find it. -/
structure DtlsSession.Inv : Prop where
  callers : ∀ i, s.CallerOk (s.pc i)
  reading : s.ReaderOk s.reader
  tally : (∀ i, (s.pc i).sending = false) →
    s.inbox.count s.self + (if s.reader = .control then 1 else 0) = if s.wakePending then 1 else 0
  unlinked : s.inSessions = false → s.closed = true
  drained : s.inboxClosed = true → s.inSessions = false
  stale : ∀ d, s.reader.deadline = some d → s.rdDeadline = d ∨ s.self ∈ s.inbox ∨ s.closed = true ∨ s.failed = true ∨
    ∃ i, (s.pc i).changing = true
  balance : s.sent = s.taken + s.inbox.count s.self
  intact : s.aborted = false
  apart : s.pendingDgram ≠ some s.self
  once : s.released.count s.self = if s.gone then 1 else 0

namespace DtlsSession

variable {s t : DtlsSession ι} {i : ι} {p : DtlsCallerPc}

theorem inv_init (self : Nat) : (init self : DtlsSession ι).Inv where
  callers _ := trivial
  reading := trivial
  tally _ := rfl
  unlinked linked := absurd linked (by simp [init])
  drained closed := absurd closed (by simp [init])
  stale _ none_ := absurd none_ (by simp [init, DtlsReaderPc.deadline])
  balance := rfl
  intact := rfl
  apart := by simp [init]
  once := rfl

variable {stage : ShutStage} {r : DtlsReaderPc}

theorem ShutOk.mono (ok : s.ShutOk stage) (closed : s.closed = true → t.closed = true)
    (unlinked : s.inSessions = false → t.inSessions = false) : t.ShutOk stage := by
  cases stage with
  | exchange => trivial
  | unlink => exact closed ok
  | inbox => exact ⟨closed ok.1, unlinked ok.2⟩

theorem CallerOk.outside (ok : s.CallerOk p) (out : p.inside = false) (closed : s.closed = true → t.closed = true)
    (unlinked : s.inSessions = false → t.inSessions = false) (self : t.self = s.self) : t.CallerOk p := by
  cases p with
  | shut stage => exact ShutOk.mono ok closed unlinked
  | push dgram => exact fun same => ok (same.trans self)
  | setExchange | setSend | setFail => cases out
  | out | setLock | setTest | setUnlock => trivial

theorem CallerOk.absent (ok : s.CallerOk p) (sending : p.sending = true) : s.self ∉ s.inbox ∧ s.reader ≠ .control := by
  cases p with
  | setSend => exact ⟨ok.2.2.1, ok.2.2.2⟩
  | setFail => exact ⟨ok.2.1, ok.2.2⟩
  | out | setLock | setTest | setExchange | setUnlock | shut | push => cases sending

/-- A step that leaves the table alone may touch the flag, the inbox and the reader unless the caller is about to
send. -/
theorem CallerOk.keeps (ok : s.CallerOk p) (closed : s.closed = true → t.closed = true)
    (linked : t.inSessions = s.inSessions) (self : t.self = s.self)
    (sending : p.sending = true → t.wakePending = s.wakePending ∧ (t.self ∈ t.inbox → s.self ∈ s.inbox) ∧
      (t.reader = .control → s.reader = .control)) : t.CallerOk p := by
  cases p with
  | setExchange => exact linked.trans ok
  | setSend =>
    obtain ⟨present, raised, absent, other⟩ := ok
    obtain ⟨flag, fewer, control⟩ := sending rfl
    exact ⟨linked.trans present, flag.trans raised, fun here => absent (fewer here), fun here => other (control here)⟩
  | setFail =>
    obtain ⟨raised, absent, other⟩ := ok
    obtain ⟨flag, fewer, control⟩ := sending rfl
    exact ⟨flag.trans raised, fun here => absent (fewer here), fun here => other (control here)⟩
  | shut stage => exact ShutOk.mono ok closed linked.trans
  | push dgram => exact fun same => ok (same.trans self)
  | out | setLock | setTest | setUnlock => trivial

theorem ReaderOk.mono (ok : s.ReaderOk r) (closed : s.closed = true → t.closed = true)
    (unlinked : s.inSessions = false → t.inSessions = false) (self : t.self = s.self) : t.ReaderOk r := by
  cases r with
  | dgram message => exact fun same => ok (same.trans self)
  | shut stage => exact ShutOk.mono ok closed unlinked
  | enter | wait => exact ok
  | out | top | backend | load | compute | control => trivial

section

variable (inv : s.Inv)
include inv

/-- Only a call of `dtls_set_read_deadline` changes the deadline, and it has yet to tell the reader. -/
theorem Inv.setDeadline (changing : ∃ i, (s.pc i).changing = true) (d : Nat) : { s with rdDeadline := d }.Inv :=
  ⟨inv.callers, inv.reading, inv.tally, inv.unlinked, inv.drained, fun _ _ => .inr (.inr (.inr (.inr changing))),
    inv.balance, inv.intact, inv.apart, inv.once⟩

theorem Inv.lock (up : Bool) : { s with locked := up }.Inv :=
  ⟨inv.callers, inv.reading, inv.tally, inv.unlinked, inv.drained, inv.stale, inv.balance, inv.intact, inv.apart,
    inv.once⟩

theorem Inv.fail : { s with failed := true }.Inv :=
  ⟨inv.callers, inv.reading, inv.tally, inv.unlinked, inv.drained, fun _ _ => .inr (.inr (.inr (.inl rfl))),
    inv.balance, inv.intact, inv.apart, inv.once⟩

theorem Inv.succeed (told : s.self ∈ s.inbox) : { s with failed := false }.Inv :=
  ⟨inv.callers, inv.reading, inv.tally, inv.unlinked, inv.drained, fun _ _ => .inr (.inl told), inv.balance, inv.intact,
    inv.apart, inv.once⟩

theorem Inv.reads {inbox : List Nat} {wake : Bool} {taken : Nat} {len : Int} {dgram : Option Nat}
    {released : List Nat} (ok : s.ReaderOk r)
    (sending : ∀ i, (s.pc i).sending = true → wake = s.wakePending ∧ (s.self ∈ inbox → s.self ∈ s.inbox) ∧ r ≠ .control)
    (tally : (∀ i, (s.pc i).sending = false) →
      inbox.count s.self + (if r = .control then 1 else 0) = if wake then 1 else 0)
    (stale : ∀ d, r.deadline = some d → s.rdDeadline = d ∨ s.reader.deadline = some d ∧ inbox = s.inbox)
    (balance : s.sent = taken + inbox.count s.self) (apart : dgram ≠ some s.self)
    (once : released.count s.self = s.released.count s.self) :
    { s with
      inbox, wakePending := wake, taken, inboxLen := len, pendingDgram := dgram, released, reader := r }.Inv where
  callers i := (inv.callers i).keeps id rfl rfl fun sends =>
    have ⟨flag, fewer, other⟩ := sending i sends
    ⟨flag, fewer, fun here => absurd here other⟩
  reading := ok.mono id id rfl
  tally := tally
  unlinked := inv.unlinked
  drained := inv.drained
  stale d reads := by
    rcases stale d reads with same | ⟨before, same⟩
    · exact .inl same
    · rw [same]; exact inv.stale d before
  balance := balance
  intact := inv.intact
  apart := apart
  once := once.trans inv.once

theorem Inv.readerTo (before : s.reader ≠ .control) (after : r ≠ .control) (ok : s.ReaderOk r)
    (deadline : ∀ d, r.deadline = some d → s.rdDeadline = d ∨ s.reader.deadline = some d) :
    { s with reader := r }.Inv := by
  refine inv.reads ok (fun _ _ => ⟨rfl, id, after⟩) (fun nobody => ?_)
    (fun d reads => (deadline d reads).imp_right fun same => ⟨same, rfl⟩) inv.balance inv.apart rfl
  have tally := inv.tally nobody
  rw [if_neg before] at tally
  rwa [if_neg after]

theorem Inv.readerOn (before : s.reader ≠ .control) (plain : r.plain = true) : { s with reader := r }.Inv := by
  refine inv.readerTo before (fun control => ?_) ?_ fun d reads => ?_
  · rw [control] at plain
    cases plain
  · cases r with
    | shut stage => cases stage <;> trivial
    | dgram | enter | wait => cases plain
    | out | top | backend | load | compute | control => trivial
  · cases r with
    | compute | enter | wait => cases plain
    | out | top | backend | load | control | dgram | shut => cases reads

theorem Inv.shutdown (flag : Flag s.locked fun j => (s.pc j).inside = true) (ok : s.ShutOk stage)
    {next : Option ShutStage} (moved : s.shutdown stage = some (t, next)) :
    t.Inv ∧ ∀ after, next = some after → t.ShutOk after := by
  cases stage with
  | exchange =>
    cases moved
    refine ⟨⟨fun j => (inv.callers j).keeps (fun _ => rfl) rfl rfl fun _ => ⟨rfl, id, id⟩,
      inv.reading.mono (fun _ => rfl) id rfl, inv.tally, fun _ => rfl, inv.drained,
      fun _ _ => .inr (.inr (.inl rfl)), inv.balance, inv.intact, inv.apart, inv.once⟩, fun after goes => ?_⟩
    split at goes
    · cases goes
    · cases goes; rfl
  | unlink =>
    obtain ⟨free, moved⟩ := Option.ite_none_left_eq_some.mp moved
    have outside : ∀ j, (s.pc j).inside = false := fun j =>
      Bool.eq_false_iff.mpr (flag.empty (Bool.eq_false_iff.mpr free) j)
    cases moved
    refine ⟨⟨fun j => (inv.callers j).outside (outside j) id (fun _ => rfl) rfl,
      inv.reading.mono id (fun _ => rfl) rfl, inv.tally, fun _ => ok, fun _ => rfl, inv.stale, inv.balance, inv.intact,
      inv.apart, inv.once⟩, fun after goes => ?_⟩
    cases goes
    exact ⟨ok, rfl⟩
  | inbox =>
    cases moved
    exact ⟨⟨fun j => (inv.callers j).keeps id rfl rfl fun _ => ⟨rfl, id, id⟩, inv.reading.mono id id rfl, inv.tally,
      inv.unlinked, fun _ => ok.2, inv.stale, inv.balance, inv.intact, inv.apart, inv.once⟩,
      fun _ goes => nomatch goes⟩

theorem Inv.push {dgram : Nat} (other : dgram ≠ s.self) (oom : Bool) : (s.push dgram oom).Inv := by
  have drops : { s with released := dgram :: s.released }.Inv :=
    ⟨inv.callers, inv.reading, inv.tally, inv.unlinked, inv.drained, inv.stale, inv.balance, inv.intact, inv.apart,
      (count_cons_of_ne other).trans inv.once⟩
  unfold DtlsSession.push
  split
  · exact drops
  · rename_i found
    split
    · rename_i closed
      exact absurd (inv.drained closed) (by simp_all)
    · split
      · exact drops
      · have count : (s.inbox ++ [dgram]).count s.self = s.inbox.count s.self := by
          rw [count_append, count_singleton, if_neg (by simpa using other), Nat.add_zero]
        have mem : s.self ∈ s.inbox ++ [dgram] ↔ s.self ∈ s.inbox := by
          rw [mem_append, mem_singleton, or_iff_left (Ne.symm other)]
        refine ⟨fun j => (inv.callers j).keeps id rfl rfl fun _ => ⟨rfl, mem.mp, id⟩, inv.reading.mono id id rfl,
          fun nobody => ?_, inv.unlinked, inv.drained, fun d reads => ?_, inv.balance.trans ?_, inv.intact, inv.apart,
          inv.once⟩
        · exact (congrArg (· + _) count).trans (inv.tally nobody)
        · exact (inv.stale d reads).imp_right (Or.imp_left mem.mpr)
        · exact congrArg (s.taken + ·) count.symm

end

/-- If the flag is up and nobody is about to send, the control message is in the inbox, or the reader has it and will
load the deadline again. -/
theorem Inv.found (inv : s.Inv) (nobody : ∀ j, (s.pc j).sending = false) (raised : s.wakePending = true) :
    s.self ∈ s.inbox ∨ s.reader = .control := by
  have tally := inv.tally nobody
  rw [raised, if_pos rfl] at tally
  by_cases control : s.reader = .control
  · exact .inr control
  · rw [if_neg control] at tally
    exact .inl (count_pos_iff.mp (by omega))

theorem Inv.none (inv : s.Inv) (nobody : ∀ j, (s.pc j).sending = false) (down : s.wakePending = false) :
    s.self ∉ s.inbox ∧ s.reader ≠ .control := by
  have tally := inv.tally nobody
  rw [down, if_neg Bool.false_ne_true] at tally
  refine ⟨count_eq_zero.mp (by omega), fun control => ?_⟩
  rw [if_pos control] at tally
  omega

section Callers

variable [DecidableEq ι]

theorem changing_goto {Q : Prop} (goes : (s.pc i).changing = true → p.changing = true ∨ Q)
    (before : ∃ j, (s.pc j).changing = true) : Q ∨ ∃ j, (Function.update s.pc i p j).changing = true := by
  obtain ⟨j, may⟩ := before
  by_cases here : j = i
  · rcases goes (here ▸ may) with still | rest
    · exact .inr ⟨i, by rwa [update_self]⟩
    · exact .inl rest
  · exact .inr ⟨j, by rwa [update_of_ne here]⟩

theorem Inv.goto (inv : s.Inv) (ok : s.CallerOk p) (sending : p.sending = (s.pc i).sending)
    (changing : (s.pc i).changing = true → p.changing = true ∨ s.self ∈ s.inbox ∨ s.closed = true ∨ s.failed = true) :
    (s.goto i p).Inv := by
  refine ⟨fun j => ?_, inv.reading, fun nobody => inv.tally fun j => ?_, inv.unlinked, inv.drained, fun d reads => ?_,
    inv.balance, inv.intact, inv.apart, inv.once⟩
  · show s.CallerOk (Function.update s.pc i p j)
    by_cases here : j = i
    · rw [here, update_self]; exact ok
    · rw [update_of_ne here]; exact inv.callers j
  · have quiet : (Function.update s.pc i p j).sending = false := nobody j
    by_cases here : j = i
    · rw [here, update_self, sending] at quiet; rw [here]; exact quiet
    · rwa [update_of_ne here] at quiet
  · have moves := changing_goto changing
    rcases inv.stale d reads with same | inbox | closed | failed | may
    · exact .inl same
    · exact .inr (.inl inbox)
    · exact .inr (.inr (.inl closed))
    · exact .inr (.inr (.inr (.inl failed)))
    · have after := moves may
      rw [or_assoc, or_assoc] at after
      exact .inr after

/-- The flag and the inbox are changed by the caller that holds `sessions_mu`; nobody else is about to send. -/
theorem Inv.update (inv : s.Inv) (flag : Flag s.locked fun j => (s.pc j).inside = true)
    (holds : (s.pc i).inside = true) (wake : Bool) (inbox : List Nat) (sent : Nat)
    (ok : { s with wakePending := wake, inbox, sent }.CallerOk p)
    (tally : p.sending = false → inbox.count s.self + (if s.reader = .control then 1 else 0) = if wake then 1 else 0)
    (stale : s.reader ≠ .control → (s.pc i).changing = true →
      p.changing = true ∨ s.self ∈ inbox ∨ s.closed = true ∨ s.failed = true)
    (more : s.self ∈ s.inbox → s.self ∈ inbox) (balance : sent = s.taken + inbox.count s.self) :
    ({ s with wakePending := wake, inbox, sent }.goto i p).Inv := by
  have others : ∀ j, j ≠ i → (s.pc j).inside = false := fun j other =>
    Bool.eq_false_iff.mpr fun here => other (flag.unique j i here holds)
  refine ⟨fun j => ?_, inv.reading, fun nobody => tally ?_, inv.unlinked, inv.drained, fun d reads => ?_,
    balance, inv.intact, inv.apart, inv.once⟩
  · show { s with wakePending := wake, inbox, sent }.CallerOk (Function.update s.pc i p j)
    by_cases here : j = i
    · rw [here, update_self]; exact ok
    · rw [update_of_ne here]
      exact (inv.callers j).outside (others j here) id id rfl
  · have quiet : (Function.update s.pc i p i).sending = false := nobody i
    rwa [update_self] at quiet
  · have other : s.reader ≠ .control := fun same => by
      have none_ : s.reader.deadline = some d := reads
      rw [same] at none_
      cases none_
    have moves := changing_goto (stale other)
    rcases inv.stale d reads with same | here | closed | failed | may
    · exact .inl same
    · exact .inr (.inl (more here))
    · exact .inr (.inr (.inl closed))
    · exact .inr (.inr (.inr (.inl failed)))
    · have after := moves may
      rw [or_assoc, or_assoc] at after
      exact .inr after

end Callers

end DtlsSession

end Xylem.Tls
