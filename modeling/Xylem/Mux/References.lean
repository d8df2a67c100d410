import Xylem.Mux.Links

namespace Xylem.Mux

open ClosePc Session Slot AcceptPc List

def ClosePc.isDone : ClosePc → Bool
  | .done _ => true
  | _ => false

variable (slot : Slot)

/-- The references that belong to no call in progress: the table's, and the one that open or accept passes to the user
and that `xylem_mux_close_stream` drops at its end. -/
def Slot.links : Int :=
  match slot.op with
  | .frame _ | .sent | .abandon => 1
  | .accepted | .published => if slot.cl.isDone then 1 else 2
  | .failed => 0

/-- The references that are owed to a stream; a read and a write in progress have one each. -/
def Slot.refs : Int :=
  slot.links + (if slot.rd = .idle then 0 else 1) + (if slot.wr = .idle then 0 else 1)

/-- Every reference of a stream is owned by someone, and only a failed open has freed its stream. -/
structure Slot.Counted : Prop where
  refs : slot.s.refcnt = slot.refs
  frees : slot.frees = if slot.op = .failed then 1 else 0
  usable : slot.handed = true → slot.Tabled
  unused : slot.handed = false → slot.rd = .idle ∧ slot.wr = .idle ∧ slot.cl = .idle
  published : slot.op = .published → slot.handed = true
  closer : slot.cl ≠ .idle → slot.s.closed = true

section Slots

variable {window : UInt32} {free ok : Bool} {slot slot' : Slot} {eff : Effect}

theorem Slot.Counted.opened (id window : UInt32) : (Slot.opened id window).Counted := by
  constructor <;> simp [Slot.opened, Slot.fresh, Slot.refs, Slot.links, muxStreamCreate]

theorem Slot.Counted.accepted (id window : UInt32) : (Slot.accepted id window).Counted := by
  constructor <;> simp [Slot.accepted, Slot.fresh, Slot.refs, Slot.links, muxStreamCreate, muxStreamRef, isDone]

theorem Slot.Counted.busy (counted : slot.Counted) (busy : slot.rd ≠ .idle ∨ slot.wr ≠ .idle ∨ slot.cl ≠ .idle) :
    slot.handed = true := by
  by_contra unhanded
  have idle := counted.unused (Bool.eq_false_iff.mpr unhanded)
  simp [idle] at busy

theorem Slot.Tabled.links (tabled : slot.Tabled) : slot.links = if slot.cl.isDone then 1 else 2 := by
  rcases tabled with op | op <;> simp [Slot.links, op]

theorem Slot.Tabled.one_le_refs (tabled : slot.Tabled) : 1 ≤ slot.refs := by
  rw [Slot.refs, tabled.links]
  repeat' split
  all_goals omega

theorem Slot.Counted.keep (counted : slot.Counted) (refcnt : slot'.s.refcnt = slot.s.refcnt)
    (frees : slot'.frees = slot.frees) (op : slot'.op = slot.op) (handed : slot'.handed = slot.handed)
    (rd : slot'.rd = .idle ↔ slot.rd = .idle) (wr : slot'.wr = .idle ↔ slot.wr = .idle)
    (cl : slot'.cl = .idle ↔ slot.cl = .idle) (done : slot'.cl.isDone = slot.cl.isDone)
    (closed : slot.s.closed = true → slot'.s.closed = true) : slot'.Counted where
  refs := by simp only [refcnt, counted.refs, Slot.refs, Slot.links, op, done, rd, wr]
  frees := by rw [frees, op, counted.frees]
  usable := by simpa only [handed, Slot.Tabled, op] using counted.usable
  unused := by simpa only [handed, rd, wr, cl] using counted.unused
  published := by simpa only [handed, op] using counted.published
  closer := fun busy => closed (counted.closer (busy ∘ cl.mpr))

theorem Slot.Counted.drop (counted : slot.Counted) (handed : slot.handed = true) (op : slot'.op = slot.op)
    (handed' : slot'.handed = slot.handed) (s : slot'.s = muxStreamUnref slot.s)
    (frees : slot'.frees = slot.unref.frees) (refs : slot'.refs = slot.refs - 1)
    (closed : slot.s.closed = true ∨ slot'.cl = .idle) : slot'.Counted := by
  have tabled : slot'.Tabled := by simpa only [Slot.Tabled, op] using counted.usable handed
  have many : slot.s.refcnt ≠ 1 := by
    have more := tabled.one_le_refs
    rw [counted.refs]
    omega
  exact {
    refs := by rw [s, refs, ← counted.refs]; rfl
    frees := by simp [frees, unref, many, op, counted.frees]
    usable := fun _ => tabled
    unused := by simp [handed', handed]
    published := by simp [handed', handed]
    closer := fun busy => by rw [s]; exact closed.resolve_right busy }

theorem OpenMove.counted (counted : slot.Counted) (move : OpenMove free ok slot slot' eff) : slot'.Counted := by
  have refs := counted.refs
  have frees := counted.frees
  have unhanded : slot.handed = false := by
    by_contra handed
    have tabled := counted.usable (by simpa using handed)
    cases move <;> simp_all [Slot.Tabled]
  obtain ⟨rd, wr, cl⟩ := counted.unused unhanded
  cases move with
  | frame at_ => constructor <;> simp_all [Slot.refs, Slot.links]
  | @unlock fw sent at_ => cases sent <;> constructor <;> simp_all [Slot.refs, Slot.links]
  | abandon at_ => constructor <;> simp_all [Slot.refs, Slot.links, unref, muxStreamUnref]

theorem ReadMove.counted (counted : slot.Counted) (move : ReadMove window free ok slot slot' eff) : slot'.Counted := by
  cases move with
  | ret at_ =>
    have handed := counted.busy (by simp [at_])
    refine counted.drop handed rfl rfl rfl rfl ?_ ((em (slot.cl = .idle)).symm.imp counted.closer id)
    simp [Slot.refs, Slot.links, at_, unref]
    omega
  | take at_ | announce _ at_ | empty at_ | finish at_ | wait at_ | park at_ | retry at_ | frame at_ | unlock at_ =>
    exact counted.keep rfl rfl rfl rfl (by simp [at_]) Iff.rfl Iff.rfl rfl id

theorem WriteMove.counted (counted : slot.Counted) (move : WriteMove free ok slot slot' eff) : slot'.Counted := by
  cases move with
  | ret at_ =>
    have handed := counted.busy (by simp [at_])
    refine counted.drop handed rfl rfl rfl rfl ?_ ((em (slot.cl = .idle)).symm.imp counted.closer id)
    simp [Slot.refs, Slot.links, at_, unref]
  | unlock at_ =>
    refine counted.keep rfl rfl rfl rfl Iff.rfl ?_ Iff.rfl rfl id
    simp only [at_]
    split <;> simp
  | deduct at_ =>
    refine counted.keep rfl rfl rfl rfl Iff.rfl ?_ Iff.rfl rfl id
    simp only [at_, writeNext]
    split <;> simp
  | refuse at_ | full at_ | chunk _ at_ | park at_ | retry at_ | frame at_ =>
    exact counted.keep rfl rfl rfl rfl Iff.rfl (by simp [at_]) Iff.rfl rfl id

theorem CloseMove.counted (counted : slot.Counted) (move : CloseMove free ok slot slot' eff) : slot'.Counted := by
  cases move with
  | ret at_ =>
    have handed := counted.busy (by simp [at_])
    refine counted.drop handed rfl rfl rfl rfl ?_ (.inl (counted.closer (by simp [at_])))
    rcases counted.usable handed with op | op <;> simp [Slot.refs, Slot.links, at_, unref, op, isDone] <;> omega
  | wakeRecv at_ parked => exact counted.keep rfl rfl rfl rfl (by simp [parked]) Iff.rfl (by simp [at_]) (by simp [at_, isDone]) id
  | wakeSend at_ parked => exact counted.keep rfl rfl rfl rfl Iff.rfl (by simp [parked]) (by simp [at_]) (by simp [at_, isDone]) id
  | state at_ | lock at_ | skip at_ | frame at_ | unlock at_ =>
    exact counted.keep rfl rfl rfl rfl Iff.rfl Iff.rfl (by simp [at_]) (by simp [at_, isDone]) id

section

variable (counted : slot.Counted)
include counted

namespace Slot.Counted

theorem take (handed : slot.handed = true) (op : slot'.op = slot.op)
    (handed' : slot'.handed = slot.handed) (s : slot'.s = muxStreamRef slot.s) (frees : slot'.frees = slot.frees)
    (cl : slot'.cl = slot.cl) (refs : slot'.refs = slot.refs + 1) : slot'.Counted where
  refs := by rw [s, refs, ← counted.refs]; rfl
  frees := by rw [frees, op, counted.frees]
  usable := fun _ => by simpa only [Slot.Tabled, op] using counted.usable handed
  unused := by simp [handed', handed]
  published := by simp [handed', handed]
  closer := fun busy => by rw [s]; exact counted.closer (cl ▸ busy)

theorem closeStart (started : slot.closeStart = some slot') : slot'.Counted := by
  obtain ⟨handed, ⟨_, rfl⟩ | ⟨open_, rfl⟩⟩ := closeStart_some started
  · exact counted.keep rfl rfl rfl rfl Iff.rfl Iff.rfl Iff.rfl rfl id
  · have idle : slot.cl = .idle := by
      by_contra busy
      exact absurd ((counted.closer busy).symm.trans open_) (by decide)
    exact {
      refs := by simpa [Slot.refs, Slot.links, idle, isDone] using counted.refs
      frees := counted.frees
      usable := counted.usable
      unused := by simp [handed]
      published := counted.published
      closer := fun _ => rfl }

theorem unhanded (op : ¬ slot.Tabled) : slot.handed = false := by
  by_contra handed
  exact op (counted.usable (by simpa using handed))

theorem publish (at_ : slot.op = .sent) : Slot.Counted { slot.ref with op := .published, handed := true } := by
  obtain ⟨rd, wr, cl⟩ := counted.unused (counted.unhanded (by simp [Slot.Tabled, at_]))
  have refs := counted.refs
  have frees := counted.frees
  constructor <;> simp_all [Slot.refs, Slot.links, Slot.ref, muxStreamRef, isDone, Slot.Tabled]

theorem refuse (at_ : slot.op = .sent) : Slot.Counted { slot.ref.unref.unref with op := .failed } := by
  have unhanded := counted.unhanded (by simp [Slot.Tabled, at_])
  obtain ⟨rd, wr, cl⟩ := counted.unused unhanded
  have refs := counted.refs
  have frees := counted.frees
  constructor <;> simp_all [Slot.refs, Slot.links, Slot.ref, unref, muxStreamRef, muxStreamUnref]

theorem hand (waits : slot.Waits) : Slot.Counted { slot with handed := true } := by
  exact { counted with usable := fun _ => .inl waits.1, unused := nofun, published := fun _ => rfl }

end Slot.Counted

end

end Slots

section Steps

variable {cfg : Config} {σ σ' : Session} {act : Act} {r : Nat} {slot' : Slot} {guard : Session → Act → Prop}

theorem SlotStep.counted (links : σ.Linked) (live : act ≠ .destroyFree) (counted : (σ.slots r).Counted)
    (step : SlotStep cfg σ act r slot') : slot'.Counted := by
  cases step with
  | same => exact counted
  | opening _ move | read _ move | write _ move | close _ move => exact move.counted counted
  | readStart _ started =>
    obtain ⟨⟨handed, idle, _⟩, rfl⟩ := readStart_some started
    exact counted.take handed rfl rfl rfl rfl rfl (by simp [Slot.refs, Slot.links, Slot.ref, idle]; omega)
  | writeStart _ started =>
    obtain ⟨⟨handed, idle, _⟩, rfl⟩ := writeStart_some started
    exact counted.take handed rfl rfl rfl rfl rfl (by simp [Slot.refs, Slot.links, Slot.ref, idle])
  | closeStart _ started => exact counted.closeStart started
  | publish _ at_ => exact counted.publish at_
  | refuse _ at_ => exact counted.refuse at_
  | hand at_ => exact counted.hand ((links.waiting r).mp (by simp [Session.waiting, at_, holding]))
  | push =>
    refine counted.keep ?_ rfl rfl rfl Iff.rfl Iff.rfl Iff.rfl rfl ?_ <;>
      (unfold Slot.pushData muxStreamPushData; dsimp only; split)
    all_goals first | rfl | exact id
  | update | fin => exact counted.keep rfl rfl rfl rfl Iff.rfl Iff.rfl Iff.rfl rfl id
  | reset => exact counted.keep rfl rfl rfl rfl Iff.rfl Iff.rfl Iff.rfl rfl fun _ => rfl
  | wakeRecv woken =>
    obtain ⟨_, parked, rfl⟩ := readyRecv_some woken
    exact counted.keep rfl rfl rfl rfl (by simp [parked]) Iff.rfl Iff.rfl rfl id
  | wakeSend woken =>
    obtain ⟨_, parked, rfl⟩ := readySend_some woken
    exact counted.keep rfl rfl rfl rfl Iff.rfl (by simp [parked]) Iff.rfl rfl id
  | free _ at_ => exact absurd at_ live

variable {eff : Effect}

theorem SessionMove.life (move : SessionMove cfg σ act σ' eff) :
    (σ'.nslots = σ.nslots ∨ σ'.nslots = σ.nslots + 1 ∧ σ.closed = false ∧
      ∃ id, σ'.slots σ.nslots = Slot.opened id cfg.window ∨ σ'.slots σ.nslots = Slot.accepted id cfg.window) ∧
    (σ'.destroying = σ.destroying ∨
      σ'.closed = true ∧ σ'.accept = .idle ∧ ∀ r < σ'.nslots, (σ'.slots r).isIdle = true) ∧
    (act ≠ .destroyFree → σ'.freed = σ.freed) := by
  cases move with
  | opener | reader | writer | closer => cases eff <;> exact ⟨.inl rfl, .inl rfl, fun _ => rfl⟩
  | publish | refuse => exact ⟨.inl rfl, .inl rfl, fun _ => rfl⟩
  | free => exact ⟨.inl rfl, .inl rfl, fun live => absurd rfl live⟩
  | accept move => cases move <;> exact ⟨.inl rfl, .inl rfl, fun _ => rfl⟩
  | shut move =>
    cases move with
    | frame => cases eff <;> exact ⟨.inl rfl, .inl rfl, fun _ => rfl⟩
    | _ => exact ⟨.inl rfl, .inl rfl, fun _ => rfl⟩
  | loop move =>
    cases move with
    | @synNew h _ open_ =>
      exact ⟨.inr ⟨rfl, open_, h.streamId, .inr (by simp [muxAddStream])⟩, .inl rfl, fun _ => rfl⟩
    | _ => exact ⟨.inl rfl, .inl rfl, fun _ => rfl⟩
  | wire move =>
    cases move with
    | ping => cases eff <;> exact ⟨.inl rfl, .inl rfl, fun _ => rfl⟩
    | _ => exact ⟨.inl rfl, .inl rfl, fun _ => rfl⟩
  | user _ move =>
    cases move with
    | openStart open_ => exact ⟨.inr ⟨rfl, open_, σ.nextStreamId, .inl (by simp)⟩, .inl rfl, fun _ => rfl⟩
    | destroyClosed idle closed => exact ⟨.inl rfl, .inr ⟨closed, idle.2.1, idle.1⟩, fun _ => rfl⟩
    | destroy idle _ => exact ⟨.inl rfl, .inr ⟨rfl, idle.2.1, idle.1⟩, fun _ => rfl⟩
    | _ => exact ⟨.inl rfl, .inl rfl, fun _ => rfl⟩

/-- The first `xylem_mux_close_stream` on a stream finds it not closed, that is, neither a reset from the peer nor the
close of the session has come before it. -/
def ClosesFirst (σ : Session) : Act → Prop
  | .closeStart r => (σ.slots r).closeCalled = false → (σ.slots r).s.closed = false
  | _ => True

instance (σ : Session) (act : Act) : Decidable (ClosesFirst σ act) := by
  cases act <;> dsimp only [ClosesFirst] <;> infer_instance

structure Session.Balanced (σ : Session) : Prop where
  links : σ.Linked
  counted : ∀ r < σ.nslots, (σ.slots r).Counted
  ended : σ.destroying = true → σ.closed = true ∧ σ.accept = .idle ∧ ∀ r < σ.nslots, (σ.slots r).isIdle = true
  exited : σ.readerDone = true → σ.loop = .exited

theorem Session.Balanced.create (cfg : Config) : (Session.create cfg).Balanced where
  links := .create cfg
  counted := nofun
  ended := nofun
  exited := nofun

theorem SlotStep.closing (first : ClosesFirst σ act) (live : act ≠ .destroyFree)
    (closing : (σ.slots r).closeCalled = true → (σ.slots r).cl ≠ .idle) (step : SlotStep cfg σ act r slot') :
    slot'.closeCalled = true → slot'.cl ≠ .idle := by
  cases step with
  | closeStart at_ started =>
    obtain ⟨_, ⟨closed, rfl⟩ | ⟨_, rfl⟩⟩ := closeStart_some started
    · intro _
      by_cases called : (σ.slots r).closeCalled = true
      · exact closing called
      · subst at_
        have open_ := first (Bool.eq_false_iff.mpr called)
        exact absurd (closed.symm.trans open_) (by decide)
    · simp
  | close _ move => cases move <;> simp_all
  | opening _ move | read _ move | write _ move => cases move <;> exact closing
  | readStart _ started => obtain ⟨_, rfl⟩ := readStart_some started; exact closing
  | writeStart _ started => obtain ⟨_, rfl⟩ := writeStart_some started; exact closing
  | wakeRecv woken => obtain ⟨_, _, rfl⟩ := readyRecv_some woken; exact closing
  | wakeSend woken => obtain ⟨_, _, rfl⟩ := readySend_some woken; exact closing
  | same | publish | refuse | hand | push | update | fin | reset => exact closing
  | free _ at_ => exact absurd at_ live

theorem SlotStep.idle (accept : σ.accept = .idle) (idle : (σ.slots r).isIdle = true)
    (started : ∀ len bytes, act ≠ .readStart r len ∧ act ≠ .writeStart r bytes ∧ act ≠ .closeStart r)
    (live : act ≠ .destroyFree) (step : SlotStep cfg σ act r slot') : slot'.isIdle = true := by
  have parts := idle
  simp only [Slot.isIdle, Bool.and_eq_true, beq_iff_eq] at parts
  obtain ⟨⟨⟨rd, wr⟩, cl⟩, op⟩ := parts
  cases step with
  | same => exact idle
  | opening _ move | read _ move | write _ move | close _ move => cases move <;> simp_all
  | readStart at_ => exact absurd at_ (started _ []).1
  | writeStart at_ => exact absurd at_ (started 0 _).2.1
  | closeStart at_ => exact absurd at_ (started 0 []).2.2
  | publish _ at_ | refuse _ at_ => simp [at_] at op
  | hand at_ => cases accept.symm.trans at_
  | push | update | fin | reset => exact idle
  | wakeRecv woken => obtain ⟨_, parked, _⟩ := readyRecv_some woken; cases rd.symm.trans parked
  | wakeSend woken => obtain ⟨_, parked, _⟩ := readySend_some woken; cases wr.symm.trans parked
  | free _ at_ => exact absurd at_ live

theorem SessionMove.accept_idle (move : SessionMove cfg σ act σ' eff) (destroying : σ.destroying = true)
    (idle : σ.accept = .idle) : σ'.accept = .idle ∧ ∀ r len bytes,
      act ≠ .readStart r len ∧ act ≠ .writeStart r bytes ∧ act ≠ .closeStart r := by
  cases move with
  | opener | reader | writer | closer => cases eff <;> exact ⟨idle, by simp⟩
  | publish | refuse | free => exact ⟨idle, by simp⟩
  | accept move => cases move <;> simp_all
  | shut move =>
    cases move with
    | frame => cases eff <;> exact ⟨idle, by simp⟩
    | _ => exact ⟨idle, by simp⟩
  | loop move =>
    cases move with
    | chanWake _ parked | chanCloseWake _ parked => cases idle.symm.trans parked
    | _ => exact ⟨idle, by simp⟩
  | wire move =>
    cases move with
    | ping => cases eff <;> exact ⟨idle, by simp⟩
    | _ => exact ⟨idle, by simp⟩
  | user usable => exact absurd (destroying.symm.trans usable) (by decide)

/-- Once `xylem_mux_destroy` has been entered, no call is made and none is in progress. -/
theorem SessionMove.ended (move : SessionMove cfg σ act σ' eff) (live : act ≠ .destroyFree)
    (ended : σ.destroying = true → σ.closed = true ∧ σ.accept = .idle ∧ ∀ r < σ.nslots, (σ.slots r).isIdle = true)
    (destroying : σ'.destroying = true) :
    σ'.closed = true ∧ σ'.accept = .idle ∧ ∀ r < σ'.nslots, (σ'.slots r).isIdle = true := by
  by_cases before : σ.destroying = true
  · obtain ⟨closed, accept, idle⟩ := ended before
    obtain ⟨accept', quiet⟩ := move.accept_idle before accept
    refine ⟨move.stays_closed closed, accept', fun r inside => ?_⟩
    rcases move.life.1 with same | ⟨_, open_, _⟩
    · rcases move.slot r with step | ⟨_, open_, _⟩
      · exact step.idle accept (idle r (by omega)) (quiet r) live
      · exact absurd (closed.symm.trans open_) (by decide)
    · exact absurd (closed.symm.trans open_) (by decide)
  · exact move.life.2.1.resolve_left fun same => before (same.symm.trans destroying)

theorem SessionMove.exited (move : SessionMove cfg σ act σ' eff)
    (exited : σ.readerDone = true → σ.loop = .exited) (done : σ'.readerDone = true) : σ'.loop = .exited := by
  cases move with
  | opener | reader | writer | closer => cases eff <;> exact exited done
  | publish | refuse | free => exact exited done
  | accept move | user _ move => cases move <;> exact exited done
  | shut move =>
    cases move with
    | frame => cases eff <;> exact exited done
    | _ => exact exited done
  | loop move =>
    cases move with
    | finish => rfl
    | _ => simp_all [setSlot, muxAddStream]
  | wire move =>
    cases move with
    | ping at_ => cases eff <;> cases at_.symm.trans (exited done)
    | _ => simp_all

theorem Session.Balanced.step (bal : σ.Balanced) (live : act ≠ .destroyFree)
    (move : SessionMove cfg σ act σ' eff) : σ'.Balanced where
  links := move.linked bal.links live
  counted := fun r inside => by
    rcases move.life.1 with same | ⟨more, _, id, new⟩
    · rcases move.slot r with step | ⟨new, _⟩
      · exact step.counted bal.links live (bal.counted r (by omega))
      · omega
    · by_cases here : r = σ.nslots
      · subst here
        rcases new with new | new <;> rw [new]
        · exact .opened id cfg.window
        · exact .accepted id cfg.window
      · rcases move.slot r with step | ⟨new, _⟩
        · exact step.counted bal.links live (bal.counted r (by omega))
        · exact absurd new here
  ended := move.ended live bal.ended
  exited := move.exited bal.exited

theorem Session.balanced (reach : Session.Reachable cfg guard σ) (live : σ.freed = false) : σ.Balanced := by
  induction reach with
  | start => exact .create cfg
  | next _ _ moved ih =>
    obtain ⟨before, eff, move⟩ := next_move moved
    refine (ih before).step ?_ move
    rintro rfl
    cases move with
    | free => cases live
    | user _ move => cases move

/-- A freed session is what `_mux_free` has made of one that had nothing left to do. -/
theorem Session.freed_reach (reach : Session.Reachable cfg guard σ) (freed : σ.freed = true) :
    ∃ before : Session, Session.Reachable cfg guard before ∧ before.freed = false ∧
      before.destroying = true ∧ before.shut = .finished ∧ before.readerDone = true ∧ σ = before.muxFree := by
  cases reach with
  | start => cases freed
  | @next before _ act previous _ moved =>
    obtain ⟨live, eff, move⟩ := next_move moved
    by_cases last : act = .destroyFree
    · subst last
      cases move with
      | free destroying shut done => exact ⟨before, previous, live, destroying, shut, done, rfl⟩
      | user _ move => cases move
    · exact absurd freed (by rw [move.life.2.2 last, live]; decide)

/-- A stream on which close was called has been taken by a close that drops the user's reference. -/
theorem Session.closing (reach : Session.Reachable cfg ClosesFirst σ) (live : σ.freed = false) (r : Nat) :
    (σ.slots r).closeCalled = true → (σ.slots r).cl ≠ .idle := by
  induction reach with
  | start => nofun
  | @next _ _ act _ first moved ih =>
    obtain ⟨before, eff, move⟩ := next_move moved
    have last : act ≠ .destroyFree := by
      rintro rfl
      cases move with
      | free => cases live
      | user _ move => cases move
    rcases move.slot r with step | ⟨_, _, ⟨_, new⟩ | ⟨h, _, _, new⟩⟩
    · exact step.closing first last (ih before)
    · rw [new]; nofun
    · rw [new]; nofun

end Steps

section Free

variable {cfg : Config} {σ σ' : Session} {act : Act} {r : Nat}

theorem unrefAll_apply (slots : Nat → Slot) {rs : List Nat} (nodup : rs.Nodup) (r : Nat) :
    unrefAll slots rs r = if r ∈ rs then (slots r).unref else slots r := by
  induction rs generalizing slots with
  | nil => simp [unrefAll]
  | cons r' rest ih =>
    obtain ⟨absent, nodup⟩ := nodup_cons.mp nodup
    rw [unrefAll, ih _ nodup]
    by_cases here : r = r'
    · subst here; simp [absent]
    · simp [here]

theorem Session.Linked.muxFree_slots (links : σ.Linked) (r : Nat) :
    σ.muxFree.slots r = if r ∈ σ.streams then (if r ∈ σ.queue then (σ.slots r).unref else σ.slots r).unref
      else if r ∈ σ.queue then (σ.slots r).unref else σ.slots r := by
  have queue : σ.queue.Nodup := by
    have nodup := links.waitingNodup
    rw [Session.waiting, append_assoc] at nodup
    exact (nodup_append.mp nodup).1
  simp only [muxFree, unrefAll_apply _ links.tableNodup, unrefAll_apply _ queue]

theorem Session.Linked.unlinked (links : σ.Linked) (failed : (σ.slots r).op = .failed) :
    r ∉ σ.streams ∧ r ∉ σ.waiting := by
  rw [links.table, links.waiting]
  simp [Slot.Tabled, Slot.Waits, failed]

theorem SlotStep.freed {slot' : Slot} (links : σ.Linked) (counted : (σ.slots r).Counted)
    (failed : (σ.slots r).op = .failed) (live : act ≠ .destroyFree) (step : SlotStep cfg σ act r slot') :
    slot' = σ.slots r := by
  obtain ⟨table, waiting⟩ := links.unlinked failed
  have unhanded := counted.unhanded (by simp [Slot.Tabled, failed])
  obtain ⟨rd, wr, cl⟩ := counted.unused unhanded
  have away : ∀ {pc}, σ.loop = pc → pc.target ≠ some r := fun at_ target => table (links.target r (by rw [at_, target]))
  cases step with
  | same => rfl
  | opening _ move | read _ move | write _ move | close _ move => cases move <;> simp_all
  | readStart _ started => exact absurd (readStart_some started).1.1 (by simp [unhanded])
  | writeStart _ started => exact absurd (writeStart_some started).1.1 (by simp [unhanded])
  | closeStart _ started => exact absurd (closeStart_some started).1 (by simp [unhanded])
  | publish _ at_ | refuse _ at_ => simp [failed] at at_
  | hand at_ => exact absurd (by simp [Session.waiting, at_, holding]) waiting
  | push at_ | update at_ | fin at_ => exact absurd rfl (away at_)
  | reset where_ =>
    rcases where_ with ⟨_, at_⟩ | member
    · exact absurd rfl (away at_)
    · exact absurd member table
  | wakeRecv woken => obtain ⟨_, parked, _⟩ := readyRecv_some woken; simp [rd] at parked
  | wakeSend woken => obtain ⟨_, parked, _⟩ := readySend_some woken; simp [wr] at parked
  | free _ at_ => exact absurd at_ live

/-- No step touches a stream that has been freed. -/
theorem Session.Balanced.untouched (bal : σ.Balanced) (moved : σ.next cfg act = some σ')
    (freed : (σ.slots r).frees ≠ 0) : σ'.slots r = σ.slots r := by
  have inside : r < σ.nslots := by
    refine Nat.lt_of_not_le fun outside => freed ?_
    rw [bal.links.inert r outside]
    rfl
  have failed : (σ.slots r).op = .failed := by
    by_contra op
    exact freed (by rw [(bal.counted r inside).frees, if_neg op])
  obtain ⟨_, eff, move⟩ := next_move moved
  by_cases live : act = .destroyFree
  · subst live
    obtain ⟨table, waiting⟩ := bal.links.unlinked failed
    have queue : r ∉ σ.queue := fun member => waiting (by simp [Session.waiting, member])
    cases move with
    | free => rw [bal.links.muxFree_slots, if_neg table, if_neg queue]
    | user _ move => cases move
  · rcases move.slot r with step | ⟨new, _⟩
    · exact step.freed bal.links (bal.counted r inside) failed live
    · omega

/-- Someone may follow a pointer to the stream: the table, the accept channel, a handler of the reader loop, the user
or a call in progress. -/
def Session.Holds (σ : Session) (r : Nat) : Prop :=
  r ∈ σ.streams ∨ r ∈ σ.waiting ∨ σ.loop.target = some r ∨ (σ.slots r).handed = true ∨ (σ.slots r).rd ≠ .idle ∨
    (σ.slots r).wr ≠ .idle ∨ (σ.slots r).cl ≠ .idle ∨ (∃ fw, (σ.slots r).op = .frame fw) ∨
    (σ.slots r).op = .sent ∨ (σ.slots r).op = .abandon

theorem Session.Balanced.alive (bal : σ.Balanced) (holds : σ.Holds r) :
    (σ.slots r).frees = 0 ∧ 0 < (σ.slots r).s.refcnt := by
  have op : (σ.slots r).op ≠ .failed := by
    intro failed
    obtain ⟨table, waiting⟩ := bal.links.unlinked failed
    have target : σ.loop.target ≠ some r := fun target => table (bal.links.target r target)
    have idle : (σ.slots r).handed = false ∧ (σ.slots r).rd = .idle ∧ (σ.slots r).wr = .idle ∧
        (σ.slots r).cl = .idle := by
      by_cases inside : r < σ.nslots
      · have unhanded := (bal.counted r inside).unhanded (by simp [Slot.Tabled, failed])
        exact ⟨unhanded, (bal.counted r inside).unused unhanded⟩
      · rw [bal.links.inert r (Nat.le_of_not_lt inside)]
        exact ⟨rfl, rfl, rfl, rfl⟩
    simp [Session.Holds, table, waiting, target, idle, failed] at holds
  have inside : r < σ.nslots := Nat.lt_of_not_le fun outside => Slot.born (by simp [op]) (bal.links.inert r outside)
  have counted := bal.counted r inside
  refine ⟨by rw [counted.frees, if_neg op], ?_⟩
  have links : 1 ≤ (σ.slots r).links := by
    unfold Slot.links
    split <;> first | omega | contradiction
  rw [counted.refs, Slot.refs]
  repeat' split
  all_goals omega

theorem Session.Balanced.freed (bal : σ.Balanced) (destroying : σ.destroying = true) (done : σ.readerDone = true)
    (closed : (σ.slots r).handed = true → (σ.slots r).cl ≠ .idle) (inside : r < σ.nslots) :
    (σ.muxFree.slots r).frees = 1 ∧ (σ.muxFree.slots r).s.refcnt = 0 := by
  obtain ⟨_, accept, idle⟩ := bal.ended destroying
  have counted := bal.counted r inside
  have refs := counted.refs
  have frees := counted.frees
  have queue : r ∈ σ.queue ↔ (σ.slots r).Waits := by
    rw [← bal.links.waiting]
    simp [Session.waiting, accept, bal.exited done, LoopPc.passing, holding]
  have parts := idle r inside
  simp only [Slot.isIdle, Bool.and_eq_true, beq_iff_eq] at parts
  obtain ⟨⟨⟨rd, wr⟩, cl⟩, op⟩ := parts
  rw [bal.links.muxFree_slots]
  by_cases failed : (σ.slots r).op = .failed
  · obtain ⟨table, waiting⟩ := bal.links.unlinked failed
    have absent : r ∉ σ.queue := fun member => waiting (by simp [Session.waiting, member])
    rw [if_neg table, if_neg absent, frees, if_pos failed, refs]
    simp [Slot.refs, Slot.links, failed, rd, wr]
  have tabled : (σ.slots r).Tabled := by
    unfold Slot.Tabled
    split at op <;> simp_all
  have links := tabled.links
  rw [if_neg failed] at frees
  rw [if_pos ((bal.links.table r).mpr tabled)]
  by_cases waits : (σ.slots r).Waits
  · have unclosed := (counted.unused waits.2).2.2
    rw [if_pos (queue.mpr waits)]
    simp [unref, muxStreamUnref, frees, refs, Slot.refs, links, rd, wr, unclosed, isDone]
  · have handed : (σ.slots r).handed = true := by
      rcases tabled with op | op
      · by_contra unhanded
        exact waits ⟨op, Bool.eq_false_iff.mpr unhanded⟩
      · exact counted.published op
    have ended := closed handed
    have finished : (σ.slots r).cl.isDone = true := by
      unfold isDone
      split at cl <;> simp_all
    rw [if_neg (queue.not.mpr waits)]
    simp [unref, muxStreamUnref, frees, refs, Slot.refs, links, rd, wr, finished]

end Free

/-- Every stream is alive as long as anyone may follow a pointer to it, no freed stream is touched, and once
`xylem_mux_destroy` is through every stream has been freed exactly once, provided that the user has closed each stream
it was given and each first close came before any reset of the stream. -/
theorem streams_freed_exactly_once {cfg : Config} {σ : Session} (reach : Session.Reachable cfg ClosesFirst σ) :
    (σ.freed = false → ∀ r, σ.Holds r → (σ.slots r).frees = 0 ∧ 0 < (σ.slots r).s.refcnt) ∧
    (∀ act σ', σ.next cfg act = some σ' → ∀ r, (σ.slots r).frees ≠ 0 → σ'.slots r = σ.slots r) ∧
    (σ.freed = true → (∀ r < σ.nslots, (σ.slots r).handed = true → (σ.slots r).closeCalled = true) →
      ∀ r < σ.nslots, (σ.slots r).frees = 1 ∧ (σ.slots r).s.refcnt = 0) := by
  by_cases freed : σ.freed = true
  · obtain ⟨before, previous, live, destroying, _, done, rfl⟩ := freed_reach reach freed
    have bal := balanced previous live
    refine ⟨nofun, fun act σ' moved => absurd (next_move moved).1 (by simp [muxFree]),
      fun _ closed r inside => bal.freed destroying done (fun handed => ?_) inside⟩
    have called := closed r inside
    rw [bal.links.muxFree_slots] at called
    refine Session.closing previous live r ?_
    repeat' split at called
    all_goals exact called handed
  · have bal := balanced reach (Bool.eq_false_iff.mpr freed)
    exact ⟨fun _ r => bal.alive, fun act σ' moved r => bal.untouched moved, fun done => absurd done freed⟩

/-- `xylem_mux_close` on a session with one stream, from its exchange on `closed` to its return. -/
def closesSession : List Act := .muxClose :: List.replicate 9 (.runShut true)

/-- `xylem_mux_destroy` on a closed session. -/
def destroys : List Act := Act.destroyStart :: List.replicate 4 (.runLoop .go) ++ [Act.destroyFree]

/-- A stream that is opened and closed before its session is closed. -/
theorem streams_freed_exactly_once_closed_in_time : ∃ σ : Session,
    Session.Reachable ⟨.client, 16⟩ ClosesFirst σ ∧ σ.freed = true ∧ σ.nslots = 1 ∧
      (σ.slots 0).frees = 1 ∧ (σ.slots 0).s.refcnt = 0 := by
  obtain ⟨σ, reach, freed, one, closed⟩ : ∃ σ : Session, Session.Reachable ⟨.client, 16⟩ ClosesFirst σ ∧
      σ.freed = true ∧ σ.nslots = 1 ∧
      ∀ r < σ.nslots, (σ.slots r).handed = true → (σ.slots r).closeCalled = true :=
    Lib.exists_reach (Act.openStart :: List.replicate 4 (.runOpen 0 true) ++ [Act.openPublish 0, .closeStart 0] ++
      List.replicate 6 (Act.runClose 0 true) ++ closesSession ++ destroys) (by decide +kernel)
  exact ⟨σ, reach, freed, one, (streams_freed_exactly_once reach).2.2 freed closed 0 (by omega)⟩

/-- The session is closed before the user closes the stream: `xylem_mux_close_stream` finds `closed` set by the reset
and returns without dropping the user's reference, and the stream is never freed. -/
theorem reset_before_close_leaks : ∃ σ : Session, Session.Reachable ⟨.client, 16⟩ (fun _ _ => True) σ ∧
    σ.freed = true ∧ σ.nslots = 1 ∧ (σ.slots 0).handed = true ∧ (σ.slots 0).closeCalled = true ∧
    (σ.slots 0).frees = 0 ∧ (σ.slots 0).s.refcnt = 1 :=
  Lib.exists_reach (Act.openStart :: List.replicate 4 (.runOpen 0 true) ++ [Act.openPublish 0] ++ closesSession ++
    [Act.closeStart 0] ++ destroys) (by decide +kernel)

end Xylem.Mux
