import Xylem.Lib.Run
import Xylem.Mux.SlotStep

namespace Xylem.Mux

open Session Slot List LoopPc AcceptPc
open Function (update update_of_ne update_self)

def Slot.Tabled (slot : Slot) : Prop := slot.op = .accepted ∨ slot.op = .published

/-- The stream waits for a call of accept to return it. -/
def Slot.Waits (slot : Slot) : Prop := slot.op = .accepted ∧ slot.handed = false

/-- The stream that a `_mux_accept_syn` call has created and not yet queued. -/
def LoopPc.passing : LoopPc → List Nat
  | .chanCheck _ r | .chanPush _ r => [r]
  | _ => []

/-- The stream that a call of accept has taken from the queue and is about to return. -/
def AcceptPc.holding : AcceptPc → List Nat
  | .got r => [r]
  | _ => []

/-- The streams between the SYN that created them and the call of accept that returns them. -/
def Session.waiting (σ : Session) : List Nat := σ.queue ++ σ.loop.passing ++ σ.accept.holding

def LoopPc.target : LoopPc → Option Nat
  | .chanCheck _ r | .chanPush _ r | .chanTake _ r | .chanWake _ r | .payload _ r | .push _ r _ | .wakePush _ r
  | .fin _ r | .wakeFin _ r | .rst _ r | .wakeRst r _ _ | .wuApply _ r | .wakeWu r => some r
  | _ => none

/-- The table and the accept channel against the streams they refer to, in any session. -/
structure Session.Linked (σ : Session) : Prop where
  inert : ∀ r, σ.nslots ≤ r → σ.slots r = Slot.unborn
  table : ∀ r, r ∈ σ.streams ↔ (σ.slots r).Tabled
  tableNodup : σ.streams.Nodup
  waiting : ∀ r, r ∈ σ.waiting ↔ (σ.slots r).Waits
  waitingNodup : σ.waiting.Nodup
  target : ∀ r, σ.loop.target = some r → r ∈ σ.streams

variable (h : FrameHdr) {found : Option Nat} {r : Nat}

@[simp] theorem afterFin_passing (r : Nat) : (afterFin h r).passing = [] := by
  unfold afterFin; split <;> rfl

@[simp] theorem afterPush_passing (found : Option Nat) : (afterPush h found).passing = [] := by
  unfold afterPush
  repeat' split
  all_goals first | rfl | exact afterFin_passing h _

@[simp] theorem dataBody_passing (found : Option Nat) : (dataBody h found).passing = [] := by
  unfold dataBody
  repeat' split
  all_goals first | rfl | exact afterPush_passing h _

@[simp] theorem afterSyn_passing (found : Option Nat) : (afterSyn h found).passing = [] := by
  unfold afterSyn
  split
  · exact dataBody_passing h found
  · rfl

@[simp] theorem muxDispatch_passing : (muxDispatch h).passing = [] := by
  unfold muxDispatch
  repeat' split
  all_goals rfl

theorem afterFin_target {h : FrameHdr} {r r' : Nat} (at_ : (afterFin h r).target = some r') : r = r' := by
  unfold afterFin at at_
  split at at_ <;> cases at_
  rfl

theorem afterPush_target {h : FrameHdr} (at_ : (afterPush h found).target = some r) : found = some r := by
  unfold afterPush at at_
  split at at_
  · split at at_
    · cases at_; rfl
    · rw [afterFin_target at_]
  · cases at_

theorem dataBody_target {h : FrameHdr} (at_ : (dataBody h found).target = some r) : found = some r := by
  unfold dataBody at at_
  split at at_
  · split at at_
    · cases at_; rfl
    · split at at_ <;> cases at_
  · exact afterPush_target at_

theorem afterSyn_target {h : FrameHdr} (at_ : (afterSyn h found).target = some r) : found = some r := by
  unfold afterSyn at at_
  split at at_
  · exact dataBody_target at_
  · cases at_

theorem muxDispatch_target : (muxDispatch h).target = none := by
  unfold muxDispatch
  repeat' split
  all_goals rfl

/-- The two sides of a step agree on where the stream is linked. -/
structure SameLinks (slot slot' : Slot) : Prop where
  tabled : slot'.Tabled ↔ slot.Tabled
  waits : slot'.Waits ↔ slot.Waits

section Slots

variable {window : UInt32} {free ok : Bool} {slot slot' : Slot} {eff : Effect}

theorem SameLinks.of_eq (op : slot'.op = slot.op) (handed : slot'.handed = slot.handed) : SameLinks slot slot' :=
  ⟨by simp only [Slot.Tabled, op], by simp only [Slot.Waits, op, handed]⟩

theorem Slot.born (busy : slot.rd ≠ .idle ∨ slot.wr ≠ .idle ∨ slot.cl ≠ .idle ∨ slot.handed = true ∨
    slot.op ≠ .failed) : slot ≠ Slot.unborn := by
  rintro rfl
  simp [Slot.unborn, Slot.fresh] at busy

theorem OpenMove.links (move : OpenMove free ok slot slot' eff) : slot ≠ Slot.unborn ∧ SameLinks slot slot' := by
  cases move with
  | frame at_ | abandon at_ =>
    exact ⟨Slot.born (by simp [at_]), by simp [Slot.Tabled, at_], by simp [Slot.Waits, at_]⟩
  | unlock at_ =>
    refine ⟨Slot.born (by simp [at_]), ?_, ?_⟩
    · simp only [Slot.Tabled, at_]; split <;> simp
    · simp only [Slot.Waits, at_]; split <;> simp

theorem ReadMove.links (move : ReadMove window free ok slot slot' eff) : slot ≠ Slot.unborn ∧ SameLinks slot slot' := by
  cases move <;> exact ⟨Slot.born (by simp_all), .of_eq rfl rfl⟩

theorem WriteMove.links (move : WriteMove free ok slot slot' eff) : slot ≠ Slot.unborn ∧ SameLinks slot slot' := by
  cases move <;> exact ⟨Slot.born (by simp_all), .of_eq rfl rfl⟩

theorem CloseMove.links (move : CloseMove free ok slot slot' eff) : slot ≠ Slot.unborn ∧ SameLinks slot slot' := by
  cases move <;> exact ⟨Slot.born (by simp_all), .of_eq rfl rfl⟩

theorem Slot.readyRecv_links (woken : slot.readyRecv = some slot') : slot ≠ Slot.unborn ∧ SameLinks slot slot' := by
  obtain ⟨_, parked, rfl⟩ := readyRecv_some woken
  exact ⟨Slot.born (by simp [parked]), .of_eq rfl rfl⟩

theorem Slot.readySend_links (woken : slot.readySend = some slot') : slot ≠ Slot.unborn ∧ SameLinks slot slot' := by
  obtain ⟨_, parked, rfl⟩ := readySend_some woken
  exact ⟨Slot.born (by simp [parked]), .of_eq rfl rfl⟩

end Slots

section Moves

variable {cfg : Config} {σ σ' : Session} {act : Act} {eff : Effect}

theorem Session.Linked.create (cfg : Config) : (Session.create cfg).Linked where
  inert := fun _ _ => rfl
  table := by simp [Session.create, Slot.Tabled, Slot.unborn, Slot.fresh]
  tableNodup := .nil
  waiting := by simp [Session.create, Session.waiting, passing, holding, Slot.Waits, Slot.unborn, Slot.fresh]
  waitingNodup := by simp [Session.create, Session.waiting, passing, holding]
  target := nofun

theorem Session.Linked.control (links : σ.Linked) (nslots : σ'.nslots = σ.nslots) (slots : σ'.slots = σ.slots)
    (streams : σ'.streams = σ.streams) (waiting : σ'.waiting.Perm σ.waiting)
    (target : ∀ r, σ'.loop.target = some r → r ∈ σ.streams) : σ'.Linked where
  inert := by rw [nslots, slots]; exact links.inert
  table := by rw [streams, slots]; exact links.table
  tableNodup := streams ▸ links.tableNodup
  waiting := fun r => by rw [waiting.mem_iff, slots]; exact links.waiting r
  waitingNodup := waiting.nodup_iff.mpr links.waitingNodup
  target := by rw [streams]; exact target

variable {r : Nat} {slot' : Slot} {pc : LoopPc}

namespace Session.Linked

theorem slot (links : σ.Linked) (born : σ.slots r ≠ Slot.unborn) (same : SameLinks (σ.slots r) slot')
    (nslots : σ'.nslots = σ.nslots) (slots : σ'.slots = update σ.slots r slot')
    (streams : σ'.streams = σ.streams) (waiting : σ'.waiting = σ.waiting)
    (target : ∀ r, σ'.loop.target = some r → r ∈ σ.streams) : σ'.Linked where
  inert := fun r' outside => by
    rw [slots, update_of_ne, links.inert r' (nslots ▸ outside)]
    rintro rfl
    exact born (links.inert _ (nslots ▸ outside))
  table := fun r' => by
    rw [streams, slots, links.table]
    by_cases here : r' = r
    · subst here; rw [update_self]; exact same.tabled.symm
    · rw [update_of_ne here]
  tableNodup := streams ▸ links.tableNodup
  waiting := fun r' => by
    rw [waiting, slots, links.waiting]
    by_cases here : r' = r
    · subst here; rw [update_self]; exact same.waits.symm
    · rw [update_of_ne here]
  waitingNodup := waiting ▸ links.waitingNodup
  target := by rw [streams]; exact target

theorem link (links : σ.Linked) (tabled waits : Bool) (before : ¬ (σ.slots r).Tabled ∧ ¬ (σ.slots r).Waits)
    (after : (slot'.Tabled ↔ tabled = true) ∧ (slot'.Waits ↔ waits = true))
    (room : σ.nslots ≤ σ'.nslots ∧ r < σ'.nslots) (slots : σ'.slots = update σ.slots r slot')
    (streams : σ'.streams = σ.streams ++ if tabled then [r] else [])
    (waiting : σ'.waiting.Perm (σ.waiting ++ if waits then [r] else []))
    (target : ∀ r', σ'.loop.target = some r' → r' ∈ σ'.streams) : σ'.Linked where
  inert := fun r' outside => by
    rw [slots, update_of_ne (by omega), links.inert r' (by omega)]
  table := fun r' => by
    have others := links.table r'
    rw [streams, slots, mem_append, others]
    by_cases here : r' = r
    · subst here; simp [before.1, after.1]
    · cases tabled <;> simp [here]
  tableNodup := by
    have absent : r ∉ σ.streams := fun member => before.1 ((links.table r).mp member)
    rw [streams]
    cases tabled
    · simpa using links.tableNodup
    · exact links.tableNodup.append (nodup_singleton r) (by simpa using absent)
  waiting := fun r' => by
    have others := links.waiting r'
    rw [waiting.mem_iff, slots, mem_append, others]
    by_cases here : r' = r
    · subst here; simp [before.2, after.2]
    · cases waits <;> simp [here]
  waitingNodup := by
    have absent : r ∉ σ.waiting := fun member => before.2 ((links.waiting r).mp member)
    rw [waiting.nodup_iff]
    cases waits
    · simpa using links.waitingNodup
    · exact links.waitingNodup.append (nodup_singleton r) (by simpa using absent)
  target := target

theorem outside (links : σ.Linked) (outside : σ.nslots ≤ r) : ¬ (σ.slots r).Tabled ∧ ¬ (σ.slots r).Waits := by
  rw [links.inert r outside]
  simp [Slot.Tabled, Slot.Waits, Slot.unborn, Slot.fresh]

theorem tabled_born (links : σ.Linked) (member : r ∈ σ.streams) : r < σ.nslots ∧ σ.slots r ≠ Slot.unborn := by
  have tabled := (links.table r).mp member
  have born : σ.slots r ≠ Slot.unborn := by
    intro unborn
    rw [unborn] at tabled
    simp [Slot.Tabled, Slot.unborn, Slot.fresh] at tabled
  exact ⟨Nat.lt_of_not_le fun outside => born (links.inert r outside), born⟩

end Session.Linked

theorem Session.applyEffect_lock (σ : Session) (holder : Holder) (eff : Effect) :
    ∃ mu, σ.applyEffect holder eff = { σ with writeMu := mu } := by
  cases eff <;> exact ⟨_, rfl⟩

section

variable (links : σ.Linked)
include links

theorem Session.Linked.task {holder : Holder} (move : σ.slots r ≠ Slot.unborn ∧ SameLinks (σ.slots r) slot') :
    ((σ.setSlot r slot').applyEffect holder eff).Linked := by
  obtain ⟨mu, same⟩ := applyEffect_lock (σ.setSlot r slot') holder eff
  rw [same]
  exact links.slot move.1 move.2 rfl rfl rfl rfl links.target

theorem Session.Linked.setLoop (passing : pc.passing = σ.loop.passing)
    (target : ∀ r, pc.target = some r → r ∈ σ.streams) : Session.Linked { σ with loop := pc } :=
  links.control rfl rfl rfl (.of_eq (by simp only [Session.waiting, passing])) target

theorem Session.Linked.handle (move : σ.slots r ≠ Slot.unborn ∧ SameLinks (σ.slots r) slot')
    (passing : pc.passing = σ.loop.passing) (target : ∀ r, pc.target = some r → r ∈ σ.streams) :
    Session.Linked { σ.setSlot r slot' with loop := pc } :=
  links.slot move.1 move.2 rfl rfl rfl (by simp only [Session.waiting, setSlot, passing]) target

theorem AcceptMove.linked (move : AcceptMove σ σ') : σ'.Linked := by
  cases move with
  | @pop r rest at_ queue =>
    refine links.control rfl rfl rfl ?_ links.target
    simp only [Session.waiting, at_, queue, holding, append_nil]
    exact perm_append_singleton r (rest ++ σ.loop.passing)
  | @hand r at_ =>
    have before : σ.waiting = σ.queue ++ σ.loop.passing ++ [r] := by simp only [Session.waiting, at_]; rfl
    have waits : (σ.slots r).Waits := (links.waiting r).mp (by rw [before]; simp)
    have nodup := links.waitingNodup
    rw [before, nodup_append] at nodup
    obtain ⟨rest, _, apart⟩ := nodup
    have after : { σ.setSlot r { σ.slots r with handed := true } with accept := idle }.waiting =
        σ.queue ++ σ.loop.passing := append_nil _
    refine {
      inert := fun r' outside => ?_
      table := fun r' => ?_
      tableNodup := links.tableNodup
      waiting := fun r' => ?_
      waitingNodup := by rw [after]; exact rest
      target := links.target }
    · have other : r' ≠ r := by
        rintro rfl
        exact absurd (links.inert _ outside) (Slot.born (by simp [waits.1]))
      simpa [setSlot, other] using links.inert r' outside
    · refine (links.table r').trans ?_
      by_cases here : r' = r
      · subst here; simp [setSlot, Slot.Tabled]
      · simp [setSlot, here]
    · rw [after]
      by_cases here : r' = r
      · subst here
        have absent : r' ∉ σ.queue ++ σ.loop.passing := fun member => apart r' member r' (by simp) rfl
        simp [setSlot, Slot.Waits, absent]
      · have others := links.waiting r'
        rw [before, mem_append, mem_singleton, or_iff_left here] at others
        rw [others]
        simp [setSlot, here]
  | ended at_ | look at_ | lookClosed at_ =>
    refine links.control rfl rfl rfl (.of_eq ?_) links.target
    simp only [Session.waiting, at_]
    split <;> rfl
  | empty at_ | checked at_ | announce at_ | refused at_ | cancel at_ | park at_ | retry at_ =>
    exact links.control rfl rfl rfl (.of_eq (by simp only [Session.waiting, at_]; rfl)) links.target

theorem ShutMove.linked {ok : Bool} (move : ShutMove ok σ σ' eff) : σ'.Linked := by
  cases move with
  | @reset i n r at_ more here =>
    obtain ⟨_, born⟩ := links.tabled_born (mem_of_getElem? here)
    have same : SameLinks (σ.slots r) (σ.slots r).notifyReset.1 := .of_eq rfl rfl
    exact links.slot born same rfl rfl rfl rfl links.target
  | wakeRecv _ _ woken =>
    obtain ⟨born, same⟩ := readyRecv_links woken
    exact links.slot born same rfl rfl rfl rfl links.target
  | wakeSend _ _ woken =>
    obtain ⟨born, same⟩ := readySend_links woken
    exact links.slot born same rfl rfl rfl rfl links.target
  | @frame fw fw' =>
    obtain ⟨mu, same⟩ := applyEffect_lock { σ with shut := .frame fw' } .shut eff
    rw [same]
    exact links.control rfl rfl rfl (.refl _) links.target
  | _ => exact links.control rfl rfl rfl (.refl _) links.target

theorem UserMove.linked (move : UserMove cfg σ act σ') : σ'.Linked := by
  cases move with
  | openStart =>
    refine links.link false false (links.outside (Nat.le_refl _)) ?_ ⟨by simp, by simp⟩ rfl
      (by simp) (by simpa using .refl _) links.target
    simp [Slot.Tabled, Slot.Waits, Slot.opened, Slot.fresh]
  | acceptStart at_ =>
    refine links.control rfl rfl rfl (.of_eq ?_) links.target
    simp only [Session.waiting, at_]
    split <;> rfl
  | readStart started =>
    obtain ⟨allowed, rfl⟩ := Slot.readStart_some started
    exact links.slot (Slot.born (.inr (.inr (.inr (.inl allowed.1))))) (by exact .of_eq rfl rfl) rfl rfl rfl rfl links.target
  | writeStart started =>
    obtain ⟨allowed, rfl⟩ := Slot.writeStart_some started
    exact links.slot (Slot.born (.inr (.inr (.inr (.inl allowed.1))))) (by exact .of_eq rfl rfl) rfl rfl rfl rfl links.target
  | closeStart started =>
    obtain ⟨handed, ⟨_, rfl⟩ | ⟨_, rfl⟩⟩ := Slot.closeStart_some started <;>
      exact links.slot (Slot.born (.inr (.inr (.inr (.inl handed))))) (by exact .of_eq rfl rfl) rfl rfl rfl rfl links.target
  | openClosed | muxCloseAgain => exact links
  | muxClose | destroyClosed | destroy => exact links.control rfl rfl rfl (.refl _) links.target

theorem LoopMove.linked (move : LoopMove cfg σ σ') : σ'.Linked := by
  -- the handlers pass on the stream they work on, or one that a lookup has found
  have stays : ∀ {r r'}, σ.loop.target = some r → r = r' → r' ∈ σ.streams := fun at_ same => same ▸ links.target _ at_
  have found : ∀ {id r}, σ.muxFindStream id = some r → r ∈ σ.streams := fun look => List.mem_of_find?_eq_some look
  have alive : ∀ {r}, σ.loop.target = some r → σ.slots r ≠ Slot.unborn :=
    fun at_ => (links.tabled_born (links.target _ at_)).2
  cases move with
  | @dataFind h at_ =>
    refine links.setLoop (by rw [at_]; split <;> first | rfl | exact dataBody_passing _ _) fun r target => ?_
    split at target
    · cases target
    · exact found (dataBody_target target)
  | synKnown at_ look =>
    exact links.setLoop (by rw [at_, afterSyn_passing]; rfl) fun r target => found (look r (afterSyn_target target))
  | @synNew h at_ open_ missing =>
    refine links.link true true (links.outside (Nat.le_refl _)) ?_ ⟨by simp [muxAddStream],
      by simp [muxAddStream]⟩ rfl rfl ?_ fun r target => ?_
    · simp [Slot.Tabled, Slot.Waits, Slot.accepted, Slot.fresh]
    · simp only [Session.waiting, muxAddStream, at_, passing, if_true, append_nil]
      rw [append_assoc, append_assoc]
      exact perm_append_comm.append_left _
    · cases Option.some.inj target
      simp [muxAddStream]
  | @chanPush h r at_ =>
    refine links.control rfl rfl rfl (.of_eq ?_) fun r' target => stays (by rw [at_]; rfl) (Option.some.inj target)
    simp only [Session.waiting, at_, passing, append_nil]
  | chanCheck at_ | chanParked at_ =>
    exact links.control rfl rfl rfl (.of_eq (by simp only [Session.waiting, at_]; rfl))
      fun r target => stays (by rw [at_]; rfl) (Option.some.inj target)
  | chanNone at_ | chanWait at_ =>
    exact links.control rfl rfl rfl (.of_eq (by simp only [Session.waiting, at_, afterSyn_passing]; rfl))
      fun r target => stays (by rw [at_]; rfl) (Option.some.inj (afterSyn_target target))
  | chanWake at_ parked =>
    exact links.control rfl rfl rfl
      (.of_eq (by simp only [Session.waiting, at_, parked, afterSyn_passing]; rfl))
      fun r target => stays (by rw [at_]; rfl) (Option.some.inj (afterSyn_target target))
  | @push h r bytes at_ =>
    refine links.handle ⟨alive (by rw [at_]; rfl), .of_eq rfl rfl⟩ ?_ fun r' target => ?_
    · rw [at_]; split <;> first | rfl | exact afterPush_passing _ _
    · split at target
      · exact stays (by rw [at_]; rfl) (Option.some.inj target)
      · exact stays (by rw [at_]; rfl) (Option.some.inj (afterPush_target target))
  | wakePush at_ woken =>
    exact links.handle (readyRecv_links woken) (by rw [at_, afterPush_passing]; rfl)
      fun r' target => stays (by rw [at_]; rfl) (Option.some.inj (afterPush_target target))
  | @fin h r at_ =>
    refine links.handle ⟨alive (by rw [at_]; rfl), .of_eq rfl rfl⟩ ?_ fun r' target => ?_
    · rw [at_]; split <;> first | rfl | exact afterFin_passing _ _
    · split at target
      · exact stays (by rw [at_]; rfl) (Option.some.inj target)
      · exact stays (by rw [at_]; rfl) (afterFin_target target)
  | wakeFin at_ woken =>
    exact links.handle (readyRecv_links woken) (by rw [at_, afterFin_passing]; rfl)
      fun r' target => stays (by rw [at_]; rfl) (afterFin_target target)
  | rst at_ =>
    exact links.handle ⟨alive (by rw [at_]; rfl), .of_eq rfl rfl⟩ (by rw [at_]; rfl)
      fun r' target => stays (by rw [at_]; rfl) (Option.some.inj target)
  | wakeRstRecv at_ woken =>
    exact links.handle (readyRecv_links woken) (by rw [at_]; rfl)
      fun r' target => stays (by rw [at_]; rfl) (Option.some.inj target)
  | wakeRstSend at_ woken =>
    exact links.handle (readySend_links woken) (by rw [at_]; rfl)
      fun r' target => stays (by rw [at_]; rfl) (Option.some.inj target)
  | wuFound at_ look => exact links.setLoop (by rw [at_]; rfl) fun r' target => Option.some.inj target ▸ found look
  | @wuApply h r at_ =>
    refine links.handle ⟨alive (by rw [at_]; rfl), .of_eq rfl rfl⟩ ?_ fun r' target => ?_
    · rw [at_]; split <;> rfl
    · split at target
      · exact stays (by rw [at_]; rfl) (Option.some.inj target)
      · cases target
  | wakeWu at_ woken => exact links.handle (readySend_links woken) (by rw [at_]; rfl) (by simp [target])
  | start at_ | stop at_ | wakeRstEnd at_ | wuLost at_ | downClosed at_ | down at_ | downWait at_
  | chanCloseParked at_ | chanClose at_ | finish at_ =>
    exact links.control rfl rfl rfl (.of_eq (by simp only [Session.waiting, at_]; rfl)) (by simp [target])
  | chanCloseWake at_ parked =>
    exact links.control rfl rfl rfl (.of_eq (by simp only [Session.waiting, at_, parked]; rfl)) (by simp [target])

theorem WireMove.linked {input : Input} (move : WireMove σ input σ' eff) : σ'.Linked := by
  have stays : ∀ {r r'}, σ.loop.target = some r → r = r' → r' ∈ σ.streams := fun at_ same => same ▸ links.target _ at_
  cases move with
  | header at_ =>
    exact links.setLoop (by rw [at_, muxDispatch_passing]; rfl) fun r target => by
      rw [muxDispatch_target] at target; cases target
  | payload at_ | junk at_ =>
    exact links.setLoop (by rw [at_]; rfl) fun r target => stays (by rw [at_]; rfl) (Option.some.inj target)
  | discard at_ =>
    refine links.setLoop (by rw [at_]; split <;> rfl) fun r target => ?_
    split at target <;> cases target
  | failPayload at_ =>
    exact links.setLoop (by rw [at_, afterPush_passing]; rfl) fun r target =>
      stays (by rw [at_]; rfl) (Option.some.inj (afterPush_target target))
  | @ping fw fw' _ ok at_ =>
    obtain ⟨mu, same⟩ := applyEffect_lock { σ with loop := .ping fw' } .loop eff
    rw [same]
    exact links.control rfl rfl rfl (.of_eq (by simp only [Session.waiting, at_]; rfl)) nofun
  | version at_ | failHdr at_ | failDiscard at_ | pong at_ =>
    exact links.control rfl rfl rfl (.of_eq (by simp only [Session.waiting, at_]; rfl)) nofun

theorem SessionMove.linked (live : act ≠ .destroyFree) (move : SessionMove cfg σ act σ' eff) : σ'.Linked := by
  cases move with
  | opener move | reader move | writer move | closer move => exact links.task move.links
  | @publish r at_ =>
    have inside : r < σ.nslots := Nat.lt_of_not_le fun outside => Slot.born (by simp [at_]) (links.inert r outside)
    refine links.link true false ?_ ?_ ⟨Nat.le_refl _, inside⟩ rfl rfl (by simpa using .refl _)
      fun r' target => mem_append_left _ (links.target r' target)
    · simp [Slot.Tabled, Slot.Waits, at_]
    · simp [Slot.Tabled, Slot.Waits]
  | @refuse r at_ =>
    have same : SameLinks (σ.slots r) { (σ.slots r).ref.unref.unref with op := .failed } :=
      ⟨by simp [Slot.Tabled, at_], by simp [Slot.Waits, at_]⟩
    exact links.slot (Slot.born (by simp [at_])) same rfl rfl rfl rfl links.target
  | free => exact absurd rfl live
  | accept move | shut move | loop move | wire move | user _ move => exact move.linked links

end

/-- A step of a session without its effect on the transport. -/
def Session.next (cfg : Config) (σ : Session) (act : Act) : Option Session := (σ.step cfg act).map Prod.fst

/-- The states that a session reaches in runs that obey a guard, whatever its peer and its transport do. -/
abbrev Session.Reachable (cfg : Config) (guard : Session → Act → Prop) : Session → Prop :=
  Lib.Reach (Session.next cfg) guard (Session.create cfg)

theorem Session.next_move (moved : σ.next cfg act = some σ') : σ.freed = false ∧ ∃ eff, SessionMove cfg σ act σ' eff := by
  obtain ⟨⟨_, eff⟩, stepped, rfl⟩ := Option.map_eq_some_iff.mp moved
  obtain ⟨live, move⟩ := Session.step_move stepped
  exact ⟨live, eff, move⟩

end Moves

end Xylem.Mux
