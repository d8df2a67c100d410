import Xylem.Mux.SessionMove

namespace Xylem.Mux

open LoopPc Session Slot Option FrameWrite

def Effect.bytes : Effect → List UInt8
  | .send frame => muxFrameEncode frame.hdr
  | .sendData bytes => bytes
  | _ => []

/-- Payload that a call of `_mux_write_frame` has announced in a header and not yet handed over. -/
def FrameWrite.rest (fw : FrameWrite) : List UInt8 :=
  match fw.pc with
  | .hdrCall | .data => fw.frame.data
  | _ => []

/-- What a step of caller `X` can do to the calls of `_mux_write_frame` that are in progress. -/
inductive CallMove {ι : Type} [DecidableEq ι] (free ok : Bool) (X : ι) (calls calls' : ι → Option FrameWrite) :
    Effect → Prop
  | quiet : calls' = calls → CallMove free ok X calls calls' .none
  | start (frame : Frame) : calls X = none → calls' = Function.update calls X (some ⟨frame, .lock⟩) →
      CallMove free ok X calls calls' .none
  | tryLock (frame : Frame) : calls X = none → free = true → calls' = Function.update calls X (some ⟨frame, .hdr⟩) →
      CallMove free ok X calls calls' .lock
  | step {fw fw' eff} : calls X = some fw → fw.step free ok = some (fw', eff) →
      calls' = Function.update calls X (some fw') → CallMove free ok X calls calls' eff
  | unlock {fw sent} : calls X = some fw → fw.pc = .unlock sent → calls' = Function.update calls X none →
      CallMove free ok X calls calls' .unlock

/-- Who holds `write_mu` after a step of `X`. -/
def Effect.holder {ι : Type} (mu : Option ι) (X : ι) : Effect → Option ι
  | .lock => some X
  | .unlock => Option.none
  | _ => mu

open Effect (frames holder)

/-- The holder of `write_mu` is the one caller that is past its lock. -/
def Exclusive {ι : Type} (mu : Option ι) (calls : ι → Option FrameWrite) : Prop :=
  ∀ X, (∃ fw, calls X = some fw ∧ fw.pc ≠ .lock) ↔ mu = some X

/-- The payload that the holder of `write_mu` still owes the transport. -/
def owedBytes {ι : Type} (mu : Option ι) (calls : ι → Option FrameWrite) : List UInt8 :=
  match mu with
  | some X => (calls X).elim [] FrameWrite.rest
  | none => []

variable {fw fw' : FrameWrite}
  {eff : Effect} {free : Bool}

/-- A step takes the lock when it is free, or it is a step of a caller that is past its lock. -/
theorem FrameWrite.step_lock {ok : Bool} (moved : fw.step free ok = some (fw', eff)) : fw'.pc ≠ .lock ∧
      (eff = .lock ∧ free = true ∧ fw.pc = .lock ∨ eff ≠ .lock ∧ eff ≠ .unlock ∧ fw.pc ≠ .lock) := by
  unfold step at moved
  split at moved <;> rename_i at_
  · split at moved <;> cases moved
    exact ⟨nofun, Or.inl ⟨rfl, by assumption, at_⟩⟩
  · cases moved; simp [at_]
  · cases moved
    refine ⟨?_, Or.inr (by simp [at_])⟩
    dsimp only
    split <;> exact nofun
  · cases moved; simp [at_]
  · cases moved; simp [at_]
  · cases moved

theorem FrameWrite.step_rest (moved : fw.step free true = some (fw', eff)) :
    eff.bytes ++ fw'.rest = fw.rest ++ eff.frames.flatMap Frame.bytes := by
  unfold step at moved
  split at moved <;> rename_i at_
  · split at moved <;> cases moved
    simp [Effect.bytes, frames, rest, at_]
  · cases moved; simp [Effect.bytes, frames, rest, at_, Frame.bytes]
  · cases moved
    by_cases empty : fw.frame.data = [] <;> simp [Effect.bytes, frames, rest, at_, empty]
  · cases moved; simp [Effect.bytes, frames, rest, at_]
  · cases moved; simp [Effect.bytes, frames, rest, at_]
  · cases moved

section Calls

variable {ι : Type} [DecidableEq ι] {ok : Bool} {X : ι} {mu : Option ι} {calls calls' : ι → Option FrameWrite}
  {eff : Effect}

/-- The frames of one end never interleave: `write_mu` keeps at most one caller past its lock. -/
theorem CallMove.exclusive (inv : Exclusive mu calls) (move : CallMove mu.isNone ok X calls calls' eff) :
    Exclusive (eff.holder mu X) calls' := by
  cases move with
  | quiet same => rw [same]; exact inv
  | start frame idle same =>
    intro Y
    rw [same]
    by_cases here : Y = X
    · subst here
      have unheld : mu ≠ some Y := fun held => by simpa [idle] using (inv Y).mpr held
      simp [holder, unheld]
    · simpa [here, holder] using inv Y
  | tryLock frame idle free same =>
    intro Y
    rw [same]
    by_cases here : Y = X
    · subst here; simp [holder]
    · have none := isNone_iff_eq_none.mp free
      have outside := inv Y
      rw [none] at outside
      simpa [here, Ne.symm here, holder] using outside
  | @step fw fw' eff at_ moved same =>
    obtain ⟨past, ⟨rfl, free, _⟩ | ⟨noLock, noUnlock, inside⟩⟩ := step_lock moved
    · intro Y
      rw [same]
      by_cases here : Y = X
      · subst here; simp [holder, past]
      · have outside := inv Y
        rw [isNone_iff_eq_none.mp free] at outside
        simpa [here, Ne.symm here, holder] using outside
    · have held : mu = some X := (inv X).mp ⟨fw, at_, inside⟩
      have kept : eff.holder mu X = mu := by cases eff <;> simp_all [holder]
      intro Y
      rw [same, kept]
      by_cases here : Y = X
      · subst here; simp [held, past]
      · simpa [here] using inv Y
  | @unlock fw sent at_ pc same =>
    have held : mu = some X := (inv X).mp ⟨fw, at_, by simp [pc]⟩
    intro Y
    rw [same]
    by_cases here : Y = X
    · subst here; simp [holder]
    · have outside := inv Y
      rw [held] at outside
      simpa [here, Ne.symm here, holder] using outside

/-- What a step writes, and what is owed after it, make up what was owed before it and the frames it sends. -/
theorem CallMove.owed (inv : Exclusive mu calls) (move : CallMove mu.isNone true X calls calls' eff) :
    eff.bytes ++ owedBytes (eff.holder mu X) calls' = owedBytes mu calls ++ eff.frames.flatMap Frame.bytes := by
  cases move with
  | quiet same => simp [same, Effect.bytes, frames, holder]
  | start frame idle same =>
    have unheld : mu ≠ some X := fun held => by simpa [idle] using (inv X).mpr held
    cases mu with
    | none => simp [owedBytes, holder, Effect.bytes, frames]
    | some Y =>
      have away : Y ≠ X := fun here => unheld (here ▸ rfl)
      simp [owedBytes, holder, Effect.bytes, frames, same, away]
  | tryLock frame idle free same =>
    simp [isNone_iff_eq_none.mp free, owedBytes, holder, Effect.bytes, frames, same,
      FrameWrite.rest]
  | @step fw fw' eff at_ moved same =>
    have rest := step_rest moved
    obtain ⟨_, ⟨rfl, free, pc⟩ | ⟨noLock, noUnlock, inside⟩⟩ := step_lock moved
    · have none : fw.rest = [] := by simp [FrameWrite.rest, pc]
      rw [none] at rest
      simpa [isNone_iff_eq_none.mp free, owedBytes, holder, same] using rest
    · have held : mu = some X := (inv X).mp ⟨fw, at_, inside⟩
      have kept : eff.holder mu X = mu := by cases eff <;> simp_all [holder]
      rw [kept, held]
      simpa [owedBytes, same, at_] using rest
  | @unlock fw sent at_ pc same =>
    have held : mu = some X := (inv X).mp ⟨fw, at_, by simp [pc]⟩
    simp [held, owedBytes, holder, Effect.bytes, frames, at_, FrameWrite.rest, pc]

end Calls

def OpenPc.call : OpenPc → Option FrameWrite
  | .frame fw => some fw
  | _ => none

def ReadPc.call : ReadPc → Option FrameWrite
  | .frame _ fw => some fw
  | _ => none

def WritePc.call : WritePc → Option FrameWrite
  | .frame _ fw => some fw
  | _ => none

def ClosePc.call : ClosePc → Option FrameWrite
  | .frame fw => some fw
  | _ => none

/-- The calls of `_mux_write_frame` in progress on a stream. -/
def Slot.call (slot : Slot) : Task → Option FrameWrite
  | .opener => slot.op.call
  | .reader => slot.rd.call
  | .writer => slot.wr.call
  | .closer => slot.cl.call

instance {P : Task → Prop} [DecidablePred P] : Decidable (∀ t, P t) :=
  decidable_of_iff (P .opener ∧ P .reader ∧ P .writer ∧ P .closer)
    ⟨fun all t => by cases t <;> tauto, fun all => ⟨all _, all _, all _, all _⟩⟩

def LoopPc.call : LoopPc → Option FrameWrite
  | .ping fw => some fw
  | _ => none

def ShutPc.call : ShutPc → Option FrameWrite
  | .frame fw => some fw
  | _ => none

/-- All calls of `_mux_write_frame` in progress on a session. -/
def Session.writing (σ : Session) : Holder → Option FrameWrite
  | .task t r => (σ.slots r).call t
  | .loop => σ.loop.call
  | .shut => σ.shut.call

section Slots

variable {window : UInt32} {free ok : Bool} {slot slot' : Slot} {eff : Effect}

theorem OpenMove.call (move : OpenMove free ok slot slot' eff) :
    CallMove free ok Task.opener slot.call slot'.call eff := by
  cases move with
  | frame at_ step =>
    exact .step (by simp [Slot.call, OpenPc.call, at_]) step (by funext t; cases t <;> simp [Slot.call, OpenPc.call])
  | @unlock fw sent at_ pc =>
    refine .unlock (by simp [Slot.call, OpenPc.call, at_]) pc ?_
    funext t; cases t <;> cases sent <;> simp [Slot.call, OpenPc.call]
  | abandon at_ => exact .quiet (by funext t; cases t <;> simp [Slot.call, OpenPc.call, at_, unref])

theorem ReadMove.call (move : ReadMove window free ok slot slot' eff) :
    CallMove free ok Task.reader slot.call slot'.call eff := by
  cases move with
  | frame at_ step =>
    exact .step (by simp [Slot.call, ReadPc.call, at_]) step (by funext t; cases t <;> simp [Slot.call, ReadPc.call])
  | unlock at_ pc =>
    exact .unlock (by simp [Slot.call, ReadPc.call, at_]) pc (by funext t; cases t <;> simp [Slot.call, ReadPc.call])
  | announce delta at_ =>
    exact .start ⟨windowUpdateHdr slot.s.id delta, []⟩ (by simp [Slot.call, ReadPc.call, at_]) (by funext t; cases t <;> simp [Slot.call, ReadPc.call])
  | take at_ | empty at_ | finish at_ | wait at_ | park at_ | retry at_ | ret at_ =>
    exact .quiet (by funext t; cases t <;> simp [Slot.call, ReadPc.call, at_, unref])

theorem WriteMove.call (move : WriteMove free ok slot slot' eff) :
    CallMove free ok Task.writer slot.call slot'.call eff := by
  cases move with
  | frame at_ step =>
    exact .step (by simp [Slot.call, WritePc.call, at_]) step (by funext t; cases t <;> simp [Slot.call, WritePc.call])
  | @unlock rest fw sent at_ pc =>
    refine .unlock (by simp [Slot.call, WritePc.call, at_]) pc ?_
    funext t; cases t <;> cases sent <;> simp [Slot.call, WritePc.call]
  | @chunk rest n at_ =>
    exact .start ⟨dataHdr slot.s.id (UInt32.ofNat n), rest.take n⟩ (by simp [Slot.call, WritePc.call, at_]) (by funext t; cases t <;> simp [Slot.call, WritePc.call])
  | @deduct rest n at_ =>
    refine .quiet ?_
    have next : (writeNext (rest.drop n)).call = none := by unfold writeNext; split <;> rfl
    funext t; cases t <;> simp [Slot.call, at_, next]
    rfl
  | refuse at_ | full at_ | park at_ | retry at_ | ret at_ =>
    exact .quiet (by funext t; cases t <;> simp [Slot.call, WritePc.call, at_, unref])

theorem CloseMove.call (move : CloseMove free ok slot slot' eff) :
    CallMove free ok Task.closer slot.call slot'.call eff := by
  cases move with
  | frame at_ step =>
    exact .step (by simp [Slot.call, ClosePc.call, at_]) step (by funext t; cases t <;> simp [Slot.call, ClosePc.call])
  | unlock at_ pc =>
    exact .unlock (by simp [Slot.call, ClosePc.call, at_]) pc (by funext t; cases t <;> simp [Slot.call, ClosePc.call])
  | lock at_ unlocked =>
    exact .tryLock ⟨finHdr slot.s.id, []⟩ (by simp [Slot.call, ClosePc.call, at_]) unlocked
      (by funext t; cases t <;> simp [Slot.call, ClosePc.call])
  | wakeRecv at_ parked =>
    exact .quiet (by funext t; cases t <;> simp [Slot.call, ClosePc.call, ReadPc.call, at_, parked])
  | wakeSend at_ parked =>
    exact .quiet (by funext t; cases t <;> simp [Slot.call, ClosePc.call, WritePc.call, at_, parked])
  | state at_ | skip at_ | ret at_ =>
    exact .quiet (by funext t; cases t <;> simp [Slot.call, ClosePc.call, at_, unref])

theorem Slot.call_readyRecv (woken : slot.readyRecv = some slot') : slot'.call = slot.call := by
  obtain ⟨len, parked, rfl⟩ := readyRecv_some woken
  funext t; cases t <;> simp [Slot.call, ReadPc.call, parked]

theorem Slot.call_readySend (woken : slot.readySend = some slot') : slot'.call = slot.call := by
  obtain ⟨rest, parked, rfl⟩ := readySend_some woken
  funext t; cases t <;> simp [Slot.call, WritePc.call, parked]

end Slots

/-- Coroutines start from their idle position: streams that do not exist have none, and `closed` is set before the
closer of a session or of a stream starts. -/
structure Session.Regular (σ : Session) : Prop where
  unborn : ∀ r, σ.nslots ≤ r → σ.slots r = Slot.unborn
  unshut : σ.closed = false → σ.shut = .idle
  unclosed : ∀ r, (σ.slots r).s.closed = false → (σ.slots r).cl = .idle

section Sessions

variable {cfg : Config} {σ σ' : Session} {eff : Effect} {r : Nat} {slot' : Slot} (h : FrameHdr) (slot : Slot)

theorem Session.setSlot_writing (same : slot'.call = (σ.slots r).call) : (σ.setSlot r slot').writing = σ.writing := by
  funext X
  cases X with
  | task t r' =>
    by_cases here : r' = r
    · subst here; simp [Session.writing, setSlot, same]
    · simp [Session.writing, setSlot, here]
  | loop | shut => rfl

variable {t : Task} {ok : Bool} {act : Act}

theorem CallMove.lift (move : CallMove free ok t (σ.slots r).call slot'.call eff) :
    CallMove free ok (Holder.task t r) σ.writing (σ.setSlot r slot').writing eff := by
  have update : ∀ x, slot'.call = Function.update (σ.slots r).call t x →
      (σ.setSlot r slot').writing = Function.update σ.writing (.task t r) x := by
    intro x same
    funext X
    cases X with
    | task t' r' =>
      by_cases here : r' = r
      · subst here
        by_cases task : t' = t
        · subst task; simp [Session.writing, setSlot, same]
        · simp [Session.writing, setSlot, same, task]
      · simp [Session.writing, setSlot, here]
    | loop | shut => simp [Session.writing, setSlot]
  cases move with
  | quiet same => exact .quiet (setSlot_writing same)
  | start frame idle same => exact .start frame idle (update _ same)
  | tryLock frame idle free same => exact .tryLock frame idle free (update _ same)
  | step at_ moved same => exact .step at_ moved (update _ same)
  | unlock at_ pc same => exact .unlock at_ pc (update _ same)

@[simp] theorem LoopPc.call_afterFin (r : Nat) : (afterFin h r).call = none := by
  unfold afterFin; split <;> rfl

variable (found : Option Nat)

@[simp] theorem LoopPc.call_afterPush : (afterPush h found).call = none := by
  unfold afterPush
  split
  · split
    · rfl
    · exact call_afterFin ..
  · rfl

@[simp] theorem LoopPc.call_dataBody : (dataBody h found).call = none := by
  unfold dataBody
  split
  · split
    · rfl
    · split <;> rfl
  · exact call_afterPush ..

@[simp] theorem LoopPc.call_afterSyn : (afterSyn h found).call = none := by
  unfold afterSyn
  split
  · exact call_dataBody ..
  · rfl

theorem Session.writing_congr (slots : ∀ r, (σ'.slots r).call = (σ.slots r).call) (loop : σ'.loop.call = σ.loop.call)
    (shut : σ'.shut.call = σ.shut.call) : σ'.writing = σ.writing := by
  funext X
  cases X with
  | task t r => exact congrFun (slots r) t
  | loop => exact loop
  | shut => exact shut

theorem Session.setSlot_call (same : slot'.call = (σ.slots r).call) (r' : Nat) :
    ((σ.setSlot r slot').slots r').call = (σ.slots r').call := by
  by_cases here : r' = r
  · subst here; simpa [setSlot] using same
  · simp [setSlot, here]

theorem Slot.call_notifyReset : slot.notifyReset.1.call = slot.call := by
  funext t; cases t <;> rfl

theorem LoopMove.quiet (regular : σ.Regular) (move : LoopMove cfg σ σ') :
    σ'.writing = σ.writing ∧ σ'.writeMu = σ.writeMu := by
  have idle : σ.loop.call = none := by
    cases move <;> (rename σ.loop = _ => at_; rw [at_]; rfl)
  -- a step that moves the loop to `pc` and at most replaces one stream by one with the same calls
  have goes : ∀ pc : LoopPc, pc.call = none → ({ σ with loop := pc } : Session).writing = σ.writing := fun pc none =>
    writing_congr (fun _ => rfl) (none.trans idle.symm) rfl
  have sets : ∀ (pc : LoopPc) r slot', pc.call = none → slot'.call = (σ.slots r).call →
      ({ σ.setSlot r slot' with loop := pc } : Session).writing = σ.writing := fun pc r slot' none same =>
    writing_congr (setSlot_call same) (none.trans idle.symm) rfl
  cases move with
  | dataFind => exact ⟨goes _ (by split; rfl; exact call_dataBody ..), rfl⟩
  | synKnown | chanNone | chanWait | chanWake => exact ⟨goes _ (call_afterSyn ..), rfl⟩
  | synNew =>
    refine ⟨writing_congr (fun r => ?_) (by rw [idle]; rfl) rfl, rfl⟩
    by_cases here : r = σ.nslots
    · subst here
      simp only [muxAddStream, Function.update_self, regular.unborn _ (Nat.le_refl _)]
      funext t; cases t <;> rfl
    · simp [muxAddStream, here]
  | push => exact ⟨sets _ _ _ (by split; rfl; apply call_afterPush) (by funext t; cases t <;> rfl), rfl⟩
  | wakePush _ woken => exact ⟨sets _ _ _ (call_afterPush ..) (call_readyRecv woken), rfl⟩
  | fin => exact ⟨sets _ _ _ (by split; rfl; apply call_afterFin) (by funext t; cases t <;> rfl), rfl⟩
  | wakeFin _ woken => exact ⟨sets _ _ _ (call_afterFin ..) (call_readyRecv woken), rfl⟩
  | rst => exact ⟨sets _ _ _ rfl (call_notifyReset ..), rfl⟩
  | wakeRstRecv _ woken => exact ⟨sets _ _ _ rfl (call_readyRecv woken), rfl⟩
  | wakeRstSend _ woken | wakeWu _ woken => exact ⟨sets _ _ _ rfl (call_readySend woken), rfl⟩
  | wuApply => exact ⟨sets _ _ _ (by split <;> rfl) (by funext t; cases t <;> rfl), rfl⟩
  | down _ open_ =>
    exact ⟨writing_congr (fun _ => rfl) idle.symm (by rw [regular.unshut open_]; rfl), rfl⟩
  | _ => exact ⟨goes _ rfl, rfl⟩

theorem AcceptMove.quiet (move : AcceptMove σ σ') : σ'.writing = σ.writing ∧ σ'.writeMu = σ.writeMu := by
  cases move with
  | hand => exact ⟨writing_congr (setSlot_call (by funext t; cases t <;> rfl)) rfl rfl, rfl⟩
  | _ => exact ⟨rfl, rfl⟩

theorem ShutMove.writing (move : ShutMove ok σ σ' eff) :
    CallMove σ.writeMu.isNone ok Holder.shut σ.writing σ'.writing eff ∧ σ'.writeMu = eff.holder σ.writeMu .shut := by
  have goes : ∀ (pc : ShutPc), ({ σ with shut := pc } : Session).writing = Function.update σ.writing .shut pc.call := by
    intro pc
    funext X
    cases X <;> simp [Session.writing]
  have keeps : σ.shut.call = none → ∀ (pc : ShutPc) r slot', pc.call = none → slot'.call = (σ.slots r).call →
      ({ σ.setSlot r slot' with shut := pc } : Session).writing = σ.writing := fun idle pc r slot' none same =>
    writing_congr (setSlot_call same) rfl (none.trans idle.symm)
  have stays : σ.shut.call = none → ∀ pc : ShutPc, pc.call = none →
      ({ σ with shut := pc } : Session).writing = σ.writing := fun idle pc none =>
    writing_congr (fun _ => rfl) rfl (none.trans idle.symm)
  cases move with
  | count at_ | resetEnd at_ | wakeEnd at_ | skip at_ | close at_ =>
    exact ⟨.quiet (stays (by rw [at_]; rfl) _ rfl), rfl⟩
  | reset at_ => exact ⟨.quiet (keeps (by rw [at_]; rfl) _ _ _ rfl (call_notifyReset ..)), rfl⟩
  | wakeRecv at_ _ woken => exact ⟨.quiet (keeps (by rw [at_]; rfl) _ _ _ rfl (call_readyRecv woken)), rfl⟩
  | wakeSend at_ _ woken => exact ⟨.quiet (keeps (by rw [at_]; rfl) _ _ _ rfl (call_readySend woken)), rfl⟩
  | lock at_ free =>
    exact ⟨.tryLock ⟨goAwayHdr, []⟩ (by simp [Session.writing, at_, ShutPc.call]) (by simp [free]) (goes _), rfl⟩
  | unlock at_ pc => exact ⟨.unlock (by simp [Session.writing, at_, ShutPc.call]) pc (goes _), rfl⟩
  | @frame fw fw' eff at_ step =>
    have notLock : fw.pc ≠ .lock := fun lock => by simp [FrameWrite.step, lock] at step
    have step' : fw.step σ.writeMu.isNone ok = some (fw', eff) := by
      unfold FrameWrite.step at step ⊢
      split at step <;> first | exact absurd (by assumption) notLock | exact step
    refine ⟨.step (by simp [Session.writing, at_, ShutPc.call]) step' (Eq.trans ?_ (goes (.frame fw'))), ?_⟩ <;>
      cases eff <;> rfl

theorem WireMove.writing {input : Input} (move : WireMove σ input σ' eff) :
    ∃ ok, ((Act.runLoop input).reliable = true → ok = true) ∧
      CallMove σ.writeMu.isNone ok Holder.loop σ.writing σ'.writing eff ∧ σ'.writeMu = eff.holder σ.writeMu .loop := by
  have goes : ∀ (pc : LoopPc), ({ σ with loop := pc } : Session).writing = Function.update σ.writing .loop pc.call := by
    intro pc
    funext X
    cases X <;> simp [Session.writing]
  have stays : σ.loop.call = none → ∀ pc : LoopPc, pc.call = none →
      ({ σ with loop := pc } : Session).writing = σ.writing := fun idle pc none =>
    writing_congr (fun _ => rfl) (none.trans idle.symm) rfl
  cases move with
  | version at_ | payload at_ | junk at_ | failHdr at_ | failDiscard at_ =>
    exact ⟨true, fun _ => rfl, .quiet (stays (by rw [at_]; rfl) _ rfl), rfl⟩
  | discard at_ => exact ⟨true, fun _ => rfl, .quiet (stays (by rw [at_]; rfl) _ (by split <;> rfl)), rfl⟩
  | failPayload at_ =>
    exact ⟨true, fun _ => rfl, .quiet (stays (by rw [at_]; rfl) _ (call_afterPush ..)), rfl⟩
  | @header bs at_ =>
    have idle : σ.loop.call = none := by rw [at_]; rfl
    refine ⟨true, fun _ => rfl, ?_, rfl⟩
    cases call : (muxDispatch (muxFrameDecode bs)).call with
    | none => exact .quiet (stays idle _ call)
    | some fw =>
      have atLock : fw.pc = .lock := by
        unfold muxDispatch at call
        repeat' split at call
        all_goals first | cases call; rfl | cases call
      exact .start fw.frame idle ((goes _).trans (by rw [call, ← atLock]))
  | @ping fw fw' eff ok at_ step =>
    have isNone : decide (σ.writeMu = none) = σ.writeMu.isNone := by cases σ.writeMu <;> rfl
    rw [isNone] at step
    refine ⟨ok, id, .step (by simp [Session.writing, at_, LoopPc.call]) step (Eq.trans ?_ (goes (.ping fw'))), ?_⟩ <;>
      cases eff <;> rfl
  | @pong fw sent ok at_ pc =>
    exact ⟨ok, id, .unlock (by simp [Session.writing, at_, LoopPc.call]) pc (goes _), rfl⟩

theorem UserMove.writing (regular : σ.Regular) (move : UserMove cfg σ act σ') :
    ∃ X, CallMove σ.writeMu.isNone true X σ.writing σ'.writing .none ∧ σ'.writeMu = σ.writeMu := by
  have quiet : σ'.writing = σ.writing → σ'.writeMu = σ.writeMu →
      ∃ X, CallMove σ.writeMu.isNone true X σ.writing σ'.writing .none ∧ σ'.writeMu = σ.writeMu := fun same mu =>
    ⟨.loop, .quiet same, mu⟩
  cases move with
  | openStart =>
    have none := regular.unborn σ.nslots (Nat.le_refl _)
    refine ⟨.task .opener σ.nslots, .start ⟨synHdr σ.nextStreamId cfg.window, []⟩ ?_ ?_, rfl⟩
    · simp only [Session.writing, none]; rfl
    · funext X
      cases X with
      | task t r =>
        by_cases here : r = σ.nslots
        · subst here
          cases t <;> simp [Session.writing, none, Slot.call] <;> rfl
        · simp [Session.writing, here]
      | loop | shut => simp [Session.writing]
  | readStart started =>
    obtain ⟨⟨_, idle, _⟩, rfl⟩ := readStart_some started
    exact quiet (setSlot_writing (by funext t; cases t <;> simp [Slot.call, ReadPc.call, idle, Slot.ref])) rfl
  | writeStart started =>
    obtain ⟨⟨_, idle, _⟩, rfl⟩ := writeStart_some started
    exact quiet (setSlot_writing (by funext t; cases t <;> simp [Slot.call, WritePc.call, idle, Slot.ref])) rfl
  | closeStart started =>
    refine quiet (setSlot_writing ?_) rfl
    obtain ⟨_, ⟨_, rfl⟩ | ⟨live, rfl⟩⟩ := closeStart_some started
    · funext t; cases t <;> rfl
    · have idle := regular.unclosed _ live
      funext t; cases t <;> simp [Slot.call, ClosePc.call, idle]
  | muxClose open_ | destroy _ open_ =>
    exact quiet (writing_congr (fun _ => rfl) rfl (by rw [regular.unshut open_]; rfl)) rfl
  | _ => exact quiet rfl rfl

theorem CallMove.onSlot (move : CallMove (decide (σ.writeMu = none)) ok t (σ.slots r).call slot'.call eff) :
    CallMove σ.writeMu.isNone ok (Holder.task t r) σ.writing
        ((σ.setSlot r slot').applyEffect (.task t r) eff).writing eff ∧
      ((σ.setSlot r slot').applyEffect (.task t r) eff).writeMu = eff.holder σ.writeMu (.task t r) := by
  have isNone : decide (σ.writeMu = none) = σ.writeMu.isNone := by cases σ.writeMu <;> rfl
  have keeps : ((σ.setSlot r slot').applyEffect (.task t r) eff).writing = (σ.setSlot r slot').writing := by
    cases eff <;> rfl
  rw [isNone] at move
  exact ⟨keeps ▸ move.lift, by cases eff <;> rfl⟩

/-- What one step of a session does to the frames being written and to `write_mu`. -/
theorem Session.step_writing (regular : σ.Regular) (live : act ≠ .destroyFree)
    (moved : σ.step cfg act = some (σ', eff)) :
    ∃ X ok, (act.reliable = true → ok = true) ∧ CallMove σ.writeMu.isNone ok X σ.writing σ'.writing eff ∧
      σ'.writeMu = eff.holder σ.writeMu X := by
  have move := (Session.step_move moved).2
  -- the opener's last step replaces its stream by one with the same calls
  have opener : ∀ {r : Nat} (s : Stream) op handed frees, (σ.slots r).op = .sent → op.call = none →
      Slot.call { σ.slots r with s := s, op := op, handed := handed, frees := frees } = (σ.slots r).call := by
    intro r s op handed frees at_ none
    have before : (σ.slots r).op.call = Option.none := by rw [at_]; rfl
    funext t; cases t <;> simp [Slot.call, none, before]
  cases move with
  | @opener r ok _ _ move | @reader r ok _ _ move | @writer r ok _ _ move | @closer r ok _ _ move =>
    exact ⟨_, ok, id, move.call.onSlot⟩
  | publish at_ | refuse at_ =>
    exact ⟨.loop, true, fun _ => rfl, .quiet (setSlot_writing (opener _ _ _ _ at_ rfl)), rfl⟩
  | free => exact absurd rfl live
  | accept move => exact ⟨.loop, true, fun _ => rfl, .quiet move.quiet.1, move.quiet.2⟩
  | @shut ok _ _ move => exact ⟨.shut, ok, id, move.writing⟩
  | loop move => exact ⟨.loop, true, fun _ => rfl, .quiet (move.quiet regular).1, (move.quiet regular).2⟩
  | wire move => exact ⟨.loop, move.writing⟩
  | user _ move =>
    obtain ⟨X, moves, mu⟩ := move.writing regular
    exact ⟨X, true, fun _ => rfl, moves, mu⟩

end Sessions

end Xylem.Mux
