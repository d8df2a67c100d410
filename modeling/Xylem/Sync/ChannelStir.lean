import Xylem.Sync.ChannelWait

namespace Xylem.Sync.Channel

open Container Function State

variable {ι : Type*}

/-- A message is there and a receiver waits or is about to: the sender of some message has not yet looked at the word. -/
def State.Stirred [DecidableEq ι] (σ : State ι) : Prop :=
  ∀ i, (σ.pc i).checked = true → σ.waiter.armed = true → σ.queue.canPop = true → ∃ j, σ.pc j = .sendTransition

def State.Fits (kind : ι → Kind) (σ : State ι) : Prop := ∀ i, (σ.pc i).Fits (kind i)

variable {kind : ι → Kind} {σ σ' : State ι} {tokens tokens' : Tokens ι} {agent : ι ⊕ Record ι} {i : ι} {p : Pc ι}
  {place : Record ι → Lib.Place (ι ⊕ Record ι)} {k : Kind} {r : Record ι} {p' : Pc ι} {call : Call}

theorem Misses.fits (misses : Misses call p) : p.Fits k := by cases misses <;> trivial

theorem Pc.not_waits_of_registers (registers : p.registers = true) : p.waits = false := by
  cases p <;> first | rfl | cases registers

theorem Misses.unchecked (misses : Misses call p) : p.checked = false := by cases misses <;> rfl

theorem State.Goes.fits (goes : σ.Goes k r p p') (fits : p.Fits k) : p'.Fits k := by
  cases goes with
  | reserve coro => exact coro
  | publish thrd => exact thrd
  | _ => trivial

theorem Pc.Swaps.fits {w w' : Word ι} (swaps : Pc.Swaps r p w w' p') (fits : p.Fits k) : p'.Fits k := by
  cases swaps <;> trivial

theorem State.Ledger.spent_at (ledger : σ.Ledger tokens place) (waits : σ.Waits r)
    (here : r ∈ σ.waiter.queue ∨ ∃ agent, σ.Hand agent r) : tokens r.1 = 0 := by
  refine ledger.spent r waits fun given => ?_
  rcases here with queued | ⟨agent, hand⟩
  · exact nomatch given.symm.trans ((ledger.queued r).mp queued)
  · exact nomatch given.symm.trans ((ledger.handed agent r).mp hand)

variable [DecidableEq ι]

theorem Line.Inv.alone {order : List (Option (Msg ι))} {taken : List (Msg ι)} (inv : σ.line.Inv order taken) : σ.Alone :=
  inv.held.alone.unique

section Stop

variable (σ : State ι) (r : Record ι)

@[simp] theorem State.timerStop_pc : (σ.timerStop r).pc = σ.pc := by unfold timerStop; split <;> rfl

@[simp] theorem State.timerStop_waiter : (σ.timerStop r).waiter = σ.waiter := by unfold timerStop; split <;> rfl

@[simp] theorem State.timerStop_queue : (σ.timerStop r).queue = σ.queue := by unfold timerStop; split <;> rfl

end Stop

namespace State

theorem Stirred.of_unchecked (nobody : ∀ j, (σ.pc j).checked = false) : σ.Stirred := fun j checked => by
  rw [nobody j] at checked
  cases checked

theorem Stirred.of_not_armed (quiet : σ.waiter.armed = false) : σ.Stirred := fun _ _ armed => by
  rw [quiet] at armed
  cases armed

theorem Stirred.goto (stirred : σ.Stirred)
    (checks : p.checked = true → (σ.pc i).checked = true ∨ σ.waiter.armed = false ∨ σ.queue.canPop = false)
    (other : σ.pc i ≠ .sendTransition) : (σ.goto i p).Stirred := by
  intro j checked armed canPop
  have before : ∃ k, (σ.pc k).checked = true := by
    rw [goto_pc] at checked
    split at checked
    · rcases checks checked with before | quiet | empty
      · exact ⟨i, before⟩
      · exact absurd (quiet.symm.trans armed) (by decide)
      · exact absurd (empty.symm.trans canPop) (by decide)
    · exact ⟨j, checked⟩
  obtain ⟨k, before⟩ := before
  obtain ⟨l, at_⟩ := stirred k before armed canPop
  refine ⟨l, ?_⟩
  rw [goto_pc, if_neg fun own : l = i => other (own ▸ at_), at_]

theorem Stirred.of_receiver {τ : State ι} (alone : σ.Alone) (here : (σ.pc i).role.receiving = true)
    (same : τ.pc = σ.pc) (unchecked : p.checked = false) : (τ.goto i p).Stirred :=
  .of_unchecked fun j => by
    rw [goto_pc, same]
    split
    · exact unchecked
    · rename_i other
      exact Bool.eq_false_iff.mpr fun checked => other (alone j i (Pc.receiving_of_checked checked) here)

omit [DecidableEq ι] in
theorem Ledger.not_armed (ledger : σ.Ledger tokens place) (alone : σ.Alone) (reserved : σ.Reserved)
    (waits : (σ.pc i).waits = true) (other : σ.waiter ≠ .waiter (σ.record i)) : σ.waiter.armed = false := by
  cases word : σ.waiter with
  | none | closed => rfl
  | wait =>
    obtain ⟨j, reserving⟩ := reserved word
    obtain rfl := alone j i (Pc.receiving_of_reserving reserving) (Pc.receiving_of_waits waits)
    cases pc : σ.pc j <;> simp_all [Pc.waits, Pc.reserving]
  | waiter r =>
    have queued : r ∈ σ.waiter.queue := by simp [word, Word.queue]
    have there := (ledger.waiting r).mpr (by simp [(ledger.queued r).mp queued])
    obtain rfl := alone r.1 i (Pc.receiving_of_waits there.2) (Pc.receiving_of_waits waits)
    exact absurd (word.trans (congrArg Word.waiter there.1.symm)) other

omit [DecidableEq ι] in
theorem Goes.not_transition (goes : σ.Goes k r p p') : p ≠ .sendTransition := by
  cases goes <;> exact nofun

omit [DecidableEq ι] in
theorem Goes.checked [DecidableEq ι] (goes : σ.Goes k r p p') (checked : p'.checked = true) :
    p.checked = true ∨ σ.queue.canPop = false ∨ p.waits = true ∧ σ.waiter ≠ .waiter r := by
  cases goes with
  | reservedEmpty empty | publishedEmpty empty => exact .inr (.inl empty)
  | taken other => exact .inr (.inr ⟨rfl, other⟩)
  | reservedTimed | reservedOpen | reservedUnfired | expire | drain => exact .inl rfl
  | _ => cases checked

end State

theorem canPop_clear (queue : Mpsc.Queue (Msg ι)) (m : Msg ι) : (queue.clear (some m)).canPop = queue.canPop := by
  cases head : queue.head <;> simp [Mpsc.Queue.canPop, Mpsc.Queue.clear, head]

theorem Move.stirred (move : Move kind σ tokens agent σ' tokens') (ledger : σ.Ledger tokens place) (alone : σ.Alone)
    (reserved : σ.Reserved) (stirred : σ.Stirred) : σ'.Stirred := by
  cases move with
  | send at_ | sendOpen at_ | sendClosed at_ | close at_ | shutTwice at_ =>
    exact stirred.goto nofun (by rw [at_]; nofun)
  | count at_ | push at_ | recv at_ | ret at_ => exact State.Stirred.goto stirred nofun (by simp [at_])
  | @clear i at_ =>
    have same : State.Stirred { σ with queue := σ.queue.clear (some (σ.message i)) } := fun j checked armed canPop =>
      stirred j checked armed (canPop_clear σ.queue _ ▸ canPop)
    exact same.goto nofun (by simp [at_])
  | @link i => exact fun _ _ _ _ => ⟨i, by rw [goto_pc, if_pos rfl]⟩
  | transition _ word | take _ word | timerTransition _ word | timerTake _ word => exact .of_not_armed word.not_armed
  | shut | shutTake => exact .of_not_armed rfl
  | pop at_ | popped at_ => exact .of_receiver alone (by rw [at_]; exact ofPop_receiving _) rfl rfl
  | missed at_ _ misses =>
    exact .of_receiver alone (by rw [at_]; exact ofPop_receiving _) rfl misses.unchecked
  | took at_ ends => exact .of_receiver alone (by rw [at_]; rfl) rfl (by cases ends <;> rfl)
  | goes step =>
    refine stirred.goto (fun checked => ?_) step.not_transition
    rcases step.checked checked with before | empty | ⟨waits, other⟩
    · exact .inl before
    · exact .inr (.inr empty)
    · exact .inr (.inl (ledger.not_armed alone reserved waits other))
  | @swaps i next pc step =>
    generalize at_ : σ.pc i = p at step
    generalize word : σ.waiter = w at step
    cases step with
    | commit =>
      have armed : State.Stirred { σ with waiter := .waiter (σ.record i) } := fun j checked _ canPop =>
        stirred j checked (by rw [word]; rfl) canPop
      exact armed.goto (fun _ => .inl (by rw [show σ.pc i = _ from at_]; rfl)) (by simp [at_])
    | _ => exact .of_receiver alone (by rw [at_]; rfl) rfl rfl
  | await at_ | wakeThrd at_ => exact stirred.goto nofun (by rcases at_ with at_ | at_ <;> rw [at_] <;> nofun)
  | @stop i payload at_ =>
    have stopped : (σ.timerStop (σ.record i)).Stirred := by simpa [State.Stirred] using stirred
    exact stopped.goto nofun (by simp [at_])
  | wakeCoro at_ other parked =>
    refine (stirred.goto (p := .out) nofun (by rcases at_ with at_ | at_ <;> rw [at_] <;> nofun)).goto nofun ?_
    rw [goto_pc, if_neg other, parked]
    nofun
  | fire | timerThrd => exact stirred
  | timerCoro _ parked => exact State.Stirred.goto stirred nofun (by simp [parked])

theorem State.Fits.goto (fits : σ.Fits kind) (here : p.Fits (kind i)) : (σ.goto i p).Fits kind := by
  intro j
  rw [goto_pc]
  split
  · rename_i own
    exact own ▸ here
  · exact fits j

theorem Move.fits (move : Move kind σ tokens agent σ' tokens') (fits : σ.Fits kind) : σ'.Fits kind := by
  cases move with
  | goes step => exact fits.goto (step.fits (fits _))
  | swaps step => exact State.Fits.goto fits (step.fits (fits _))
  | missed _ _ misses => exact State.Fits.goto fits misses.fits
  | took _ ends => exact State.Fits.goto fits (by cases ends <;> trivial)
  | @stop i _ at_ =>
    have stopped : (σ.timerStop (σ.record i)).Fits kind := by simpa [State.Fits] using fits
    exact stopped.goto trivial
  | wakeCoro => exact (fits.goto (p := .out) trivial).goto trivial
  | fire | timerTransition | timerTake | timerThrd => exact fits
  | recv | transition | take | shut | shutTake | count | clear | push | link | pop | popped | ret | timerCoro =>
    exact State.Fits.goto fits trivial
  | send | sendOpen | sendClosed | close | shutTwice | await | wakeThrd => exact fits.goto trivial

theorem Move.tokenless (move : Move kind σ tokens agent σ' tokens') (tokenless : ∀ j, kind j = .coro → tokens j = 0)
    (j : ι) (coro : kind j = .coro) : tokens' j = 0 := by
  have before := tokenless j coro
  cases move <;> grind [thrdWakeSignal_apply, update_apply]

theorem State.goto_clean (waits : p.waits = (σ.pc i).waits ∨ (σ.pc i).waits = false) (j : ι) :
    ((σ.pc j).waits = false → tokens j = tokens j) ∧
      ((σ.pc j).waits = true → ((σ.goto i p).pc j).waits = false → tokens j = 0) := by
  refine ⟨fun _ => rfl, fun before after => ?_⟩
  rw [goto_pc] at after
  grind

theorem Move.clean (move : Move kind σ tokens agent σ' tokens') (ledger : σ.Ledger tokens place) (j : ι) :
    ((σ.pc j).waits = false → tokens' j = tokens j) ∧
      ((σ.pc j).waits = true → (σ'.pc j).waits = false → tokens' j = 0) := by
  cases move with
  | goes step => exact goto_clean (.inl step.alike.waits) j
  | @swaps i next pc step =>
    generalize at_ : σ.pc i = p at step
    generalize word : σ.waiter = w at step
    cases step with
    | withdraw | cancel =>
      have waits : σ.Waits (σ.record i) := ⟨rfl, show (σ.pc i).waits = true by rw [at_]; rfl⟩
      have spent : tokens i = 0 := ledger.spent_at waits (.inl (by simp [word, Word.queue]))
      refine ⟨fun _ => rfl, fun before after => ?_⟩
      rw [goto_pc] at after
      grind
    | _ => exact goto_clean (.inr (by rw [show σ.pc _ = _ from at_]; rfl)) j
  | @await i at_ some_ =>
    have waits : (σ.pc i).waits = true := by rcases at_ with at_ | at_ <;> rw [at_] <;> rfl
    have one : tokens i = 1 := ledger.given (σ.record i) (by_contra fun away => Nat.pos_iff_ne_zero.mp some_
      (ledger.spent (σ.record i) ⟨rfl, waits⟩ away))
    simp only [goto_pc, update_apply]
    grind
  | @wakeCoro i r at_ other parked current =>
    have here : σ.Hand (.inl i) r := by rcases at_ with at_ | at_ <;> simp [State.Hand, at_, Pc.hand]
    have spent := ledger.spent_at (ledger.hand_waits here) (.inr ⟨_, here⟩)
    have away : (σ.pc i).waits = false := by rcases at_ with at_ | at_ <;> rw [at_] <;> rfl
    refine ⟨fun _ => rfl, fun before after => ?_⟩
    simp only [goto_pc] at after
    grind
  | @wakeThrd i r at_ =>
    have here : σ.Hand (.inl i) r := by rcases at_ with at_ | at_ <;> simp [State.Hand, at_, Pc.hand]
    have waits := (ledger.hand_waits here).2
    have away : (σ.pc i).waits = false := by rcases at_ with at_ | at_ <;> rw [at_] <;> rfl
    simp only [goto_pc, thrdWakeSignal_apply]
    grind
  | @timerCoro t r at_ =>
    have here : σ.Hand (.inr t) r := by simp [State.Hand, at_, TimerPc.hand]
    have spent := ledger.spent_at (ledger.hand_waits here) (.inr ⟨_, here⟩)
    refine ⟨fun _ => rfl, fun before after => ?_⟩
    simp only [goto_pc] at after
    grind
  | @timerThrd t r at_ =>
    have here : σ.Hand (.inr t) r := by simp [State.Hand, at_, TimerPc.hand]
    have waits := (ledger.hand_waits here).2
    simp only [thrdWakeSignal_apply]
    grind
  | fire | timerTransition | timerTake => exact ⟨fun _ => rfl, fun before after => by simp_all⟩
  | stop at_ =>
    refine ⟨fun _ => rfl, fun before after => ?_⟩
    rw [goto_pc, timerStop_pc] at after
    grind [Pc.waits]
  | send at_ | sendOpen at_ | sendClosed at_ | close at_ | shutTwice at_ | count at_ | clear at_ | push at_ | link at_
    | transition at_ | take at_ | shut at_ | shutTake at_ | recv at_ | pop at_ | popped at_ | missed at_ | took at_
    | ret at_ =>
      exact goto_clean (.inr (by rw [show σ.pc _ = _ from at_]; rfl)) j

structure State.Inv (kind : ι → Kind) (σ : State ι) (tokens : Tokens ι) : Prop where
  line : ∃ order taken, σ.line.Inv order taken
  ledger : ∃ place, σ.Ledger tokens place
  fresh : σ.Fresh
  reserved : σ.Reserved
  stirred : σ.Stirred
  fits : σ.Fits kind

theorem Move.inv (move : Move kind σ tokens agent σ' tokens') (inv : σ.Inv kind tokens)
    (clean : ∀ i, agent = .inl i → (σ.pc i).registers = true → tokens i = 0) : σ'.Inv kind tokens' := by
  obtain ⟨order, taken, line⟩ := inv.line
  obtain ⟨place, ledger⟩ := inv.ledger
  refine ⟨?_, move.ledger ledger inv.fresh clean, move.fresh inv.fresh, move.reserved inv.reserved,
    move.stirred ledger line.alone inv.reserved inv.stirred, move.fits inv.fits⟩
  rcases move.line with same | step
  · exact ⟨order, taken, same ▸ line⟩
  · exact step.inv line

theorem create_inv (kind : ι → Kind) (tokens : Tokens ι) : create.Inv kind tokens where
  line := ⟨[none], [], {
    chain := Mpsc.init_chain fun _ => rfl
    knows := fun _ => trivial
    sent := rfl
    nodup := List.nodup_nil
    own := fun _ => rfl
    held := ⟨Lib.Flag.nobody nofun, nofun, fun _ => rfl⟩
    counts := ⟨0, Lib.Tally.zero nofun, rfl⟩ }⟩
  ledger := ⟨_, Lib.Ledger.empty (by rintro (i | t) r <;> exact nofun) (by rintro r ⟨_, waits⟩; cases waits)⟩
  fresh _ _ _ := rfl
  reserved := nofun
  stirred _ := nofun
  fits _ := trivial

end Xylem.Sync.Channel
