import Xylem.Lib.Flag
import Xylem.Lib.Ledger
import Xylem.Sync.Frame

namespace Xylem.Sync

open Function (update update_apply update_self)
open Sync.Frame WaitList List
open Lib.Ledger (keep ready signal takeAll)

universe u v

open Points

variable {ι : Type u} {P : Type v}

namespace Frame

section State

variable [Points ι P] (f : Frame ι P)

def Inside : ι ⊕ Record ι → Prop
  | .inl i => guarded (f.pc i) = true
  | .inr r => (f.list.timer r).guarded = true

def Guarded : Prop := Lib.Flag f.list.guard f.Inside

def Hand : ι ⊕ Record ι → Record ι → Prop
  | .inl i, r => r ∈ hands (f.pc i)
  | .inr t, r => t = r ∧ (f.list.timer t).hits = true

/-- How far a wait is: only the current wait of a party is in progress. -/
def phase (f : Frame ι P) (r : Record ι) : Phase :=
  if f.epoch r.1 < r.2 then .fresh else if r.2 < f.epoch r.1 then .idle else Points.phase (f.pc r.1)

def Waits (r : Record ι) : Prop := (f.phase r).waiting = true

def waiting (f : Frame ι P) (i : ι) : Bool := (Points.phase (f.pc i)).waiting

/-- Every waiter is queued, about to be signalled by one party or by its own timer, or signalled. -/
def Ledger (f : Frame ι P) (tokens : Tokens ι) : (Record ι → Lib.Place (ι ⊕ Record ι)) → Prop :=
  Lib.Ledger f.list.waiters f.Hand (fun r => tokens r.1) f.Waits

/-- A registration is made and the guard given back before anyone else can take the registration. -/
def Registered : Prop := ∀ i, registering (f.pc i) = true → f.waiter i ∈ f.list.waiters

/-- No waiter is twice in the hands of a party. -/
def Apart : Prop := ∀ i, (hands (f.pc i)).Nodup

protected def Fits (kind : ι → Kind) (f : Frame ι P) : Prop := ∀ i, Sync.Fits (kind i) (f.pc i)

end State

variable [Points ι P] {kind : ι → Kind} {f f' : Frame ι P} {tokens tokens' : Tokens ι}
  {a : ι ⊕ Record ι} {i : ι} {p : P} {place : Record ι → Lib.Place (ι ⊕ Record ι)} {r : Record ι}

omit [Points ι P] in
theorem eq_waiter (party : r.1 = i) (now : r.2 = f.epoch i) : r = f.waiter i := Prod.ext party now

theorem phase_waiter (f : Frame ι P) (i : ι) : f.phase (f.waiter i) = Points.phase (f.pc i) := by
  simp [phase, waiter]

theorem phase_next (f : Frame ι P) (i : ι) : f.phase (i, f.epoch i + 1) = .fresh := by simp [phase]

theorem waits_waiter : f.Waits (f.waiter i) ↔ f.waiting i = true := by
  rw [Waits, phase_waiter, waiting]

theorem Waits.current (waits : f.Waits r) : r = f.waiter r.1 := by
  unfold Waits phase at waits
  refine eq_waiter rfl (Nat.le_antisymm ?_ ?_) <;> by_contra other <;>
    simp [Nat.lt_of_not_le other, Nat.not_lt_of_gt (Nat.lt_of_not_le other), Phase.waiting] at waits

theorem inside_congr (pc : f'.pc = f.pc)
    (timer : ∀ r, (f'.list.timer r).guarded = true → (f.list.timer r).guarded = true) (a : ι ⊕ Record ι)
    (inside : f'.Inside a) : f.Inside a := by
  cases a with
  | inl j => simpa [Inside, pc] using inside
  | inr r => exact timer r inside

section

variable (ledger : f.Ledger tokens place)
include ledger

theorem Ledger.hand_waits (hand : f.Hand a r) :
    r = f.waiter r.1 ∧ f.waiting r.1 = true ∧ tokens r.1 = 0 ∧ r ∉ f.list.waiters := by
  have at_ := (ledger.handed a r).mp hand
  have waits : f.Waits r := (ledger.waiting r).mpr (by simp [at_])
  have current := waits.current
  refine ⟨current, waits_waiter.mp (current ▸ waits), ledger.spent r waits (by simp [at_]), fun queued => ?_⟩
  exact nomatch at_.symm.trans ((ledger.queued r).mp queued)

theorem Ledger.not_hits (queued : r ∈ f.list.waiters) : (f.list.timer r).hits = false :=
  Bool.eq_false_iff.mpr fun hits => (ledger.hand_waits (a := .inr r) ⟨rfl, hits⟩).2.2.2 queued

theorem Ledger.signalled {r s : Record ι} (hand : f.Hand a r) (other : s ≠ r)
    (waits : f.Waits s) : s.1 ≠ r.1 := fun same =>
  other (waits.current.trans (by rw [same]; exact (ledger.hand_waits hand).1.symm))

theorem Ledger.not_queued (waits : f.waiting i = true) (some_ : 0 < tokens i) :
    f.waiter i ∉ f.list.waiters ∧ tokens i = 1 := by
  have given : place (f.waiter i) = .token := by_contra fun away =>
    Nat.pos_iff_ne_zero.mp some_ (ledger.spent (f.waiter i) (waits_waiter.mpr waits) away)
  refine ⟨fun queued => ?_, ledger.given (f.waiter i) given⟩
  exact nomatch given.symm.trans ((ledger.queued _).mp queued)

end

/-- Who is inside the guard may take any registration: nobody else is registering. -/
theorem Guarded.registered (guard : f.Guarded) (inside : f.Inside a) (pc : f'.pc = f.pc)
    (own : ∀ i, a = .inl i → registering (f.pc i) = false) : f'.Registered := by
  intro i registering
  rw [pc] at registering
  have same := guard.unique a (.inl i) inside (Points.inside _ registering)
  simp [own i same] at registering

variable [DecidableEq ι]

omit [Points ι P] in
theorem goto_pc (f : Frame ι P) (i j : ι) (p : P) : (f.goto i p).pc j = if j = i then p else f.pc j := update_apply ..

theorem phase_goto (f : Frame ι P) (i : ι) (p : P) (r : Record ι) :
    (f.goto i p).phase r = if r = f.waiter i then Points.phase p else f.phase r := by
  by_cases at_ : r = f.waiter i
  · subst at_
    simp [phase, waiter, goto]
  · rw [if_neg at_]
    unfold phase
    rw [goto_pc]
    by_cases party : r.1 = i
    · have other : r.2 ≠ f.epoch i := fun now => at_ (eq_waiter party now)
      simp only [goto, party]
      rcases Nat.lt_or_gt_of_ne other with lt | gt
      · simp [lt, Nat.not_lt_of_gt lt]
      · simp [gt]
    · simp [goto, party]

theorem phase_begin {call : Call} (out : Points.phase (f.pc i) = .idle) (r : Record ι) :
    (f.begin i call).phase r = if r = (i, f.epoch i + 1) then .idle else f.phase r := by
  unfold phase
  by_cases party : r.1 = i
  · simp only [begin, party, update_self, out, Prod.ext_iff, true_and]
    by_cases new : r.2 = f.epoch i + 1
    · simp [new]
    · rcases Nat.lt_trichotomy r.2 (f.epoch i) with lt | eq | gt
      · simp [new, lt, Nat.not_lt_of_gt lt, Nat.lt_succ_of_lt lt, Nat.not_lt_of_gt (Nat.lt_succ_of_lt lt)]
      · simp [eq]
      · simp [new, gt, show f.epoch i + 1 < r.2 by omega]
  · have other : r ≠ (i, f.epoch i + 1) := fun same => party (by rw [same])
    simp [begin, party, other]

section

variable (epoch : f'.epoch = f.epoch) (pc : f'.pc = update f.pc i p)
include epoch pc

theorem waits_at (r : Record ι) :
    f'.Waits r ↔ if r = f.waiter i then (Points.phase p).waiting = true else f.Waits r := by
  have phase : f'.phase r = (f.goto i p).phase r := by
    unfold Frame.phase
    rw [epoch, pc]
    rfl
  unfold Waits
  rw [phase, phase_goto]
  split <;> rfl

theorem waits_keep (same : (Points.phase p).waiting = f.waiting i) (r : Record ι) : f'.Waits r ↔ f.Waits r := by
  rw [waits_at epoch pc]
  split
  · rename_i here; rw [here, waits_waiter, same]
  · rfl

theorem waits_done
    (done : (Points.phase p).waiting = false) (r : Record ι) : f'.Waits r ↔ f.Waits r ∧ r ≠ f.waiter i := by
  rw [waits_at epoch pc]
  split
  · rename_i here; simp [here, done]
  · rename_i other; simp [other]

end

theorem waits_begin {call : Call} (out : Points.phase (f.pc i) = .idle) (r : Record ι) :
    (f.begin i call).Waits r ↔ f.Waits r := by
  unfold Waits
  rw [phase_begin out]
  split
  · rename_i new
    simp [new, phase_next, Phase.waiting]
  · rfl

section Guarded

theorem Guarded.goto (guard : f.Guarded) (same : guarded p = true → guarded (f.pc i) = true) :
    (f.goto i p).Guarded := by
  refine guard.mono fun a inside => ?_
  cases a with
  | inl j =>
    simp only [Inside, goto_pc] at inside ⊢
    grind
  | inr r => exact inside

theorem Guarded.enter (guard : f.Guarded) (free : f.list.guard = false) :
    Guarded { f.goto i p with list := { f.list with guard := true } } := by
  refine Lib.Flag.enter (a := Sum.inl i) guard free fun a inside => ?_
  cases a with
  | inl j =>
    simp only [Inside, goto_pc] at inside ⊢
    grind
  | inr r => exact .inr inside

theorem Guarded.leave (guard : f.Guarded) (here : guarded (f.pc i) = true) (out : guarded p = false) :
    Guarded { f.goto i p with list := { f.list with guard := false } } := by
  refine Lib.Flag.leave (a := Sum.inl i) guard here fun a inside => ?_
  cases a with
  | inl j =>
    simp only [Inside, goto_pc] at inside ⊢
    grind
  | inr r => exact ⟨nofun, inside⟩

variable {pc : TimerPc}

omit [Points ι P] in
theorem setTimer_guarded {l : WaitList ι} {r s : Record ι} (inside : ((l.setTimer r pc).timer s).guarded = true) :
    s = r ∧ pc.guarded = true ∨ s ≠ r ∧ (l.timer s).guarded = true := by
  simp only [setTimer, update_apply] at inside
  grind

theorem Guarded.setTimer (guard : f.Guarded) (out : pc.guarded = false) :
    Guarded { f with list := f.list.setTimer r pc } := by
  refine Lib.Flag.mono guard (inside_congr rfl fun s inside => ?_)
  rcases setTimer_guarded inside with ⟨_, here⟩ | ⟨_, here⟩
  · simp [out] at here
  · exact here

theorem Guarded.timerStop (guard : f.Guarded) : Guarded { f with list := f.list.timerStop r } := by
  unfold WaitList.timerStop
  split
  · exact guard.setTimer rfl
  · exact guard

theorem Guarded.timer {list : WaitList ι} (guard : f.Guarded) (move : f.list.TimerMove r list) :
    Guarded { f with list := list } := by
  cases move with
  | fire at_ => exact guard.setTimer rfl
  | enter at_ free =>
    refine Lib.Flag.enter (a := Sum.inr r) guard free fun a inside => ?_
    cases a with
    | inl j => exact .inr inside
    | inr s =>
      rcases setTimer_guarded inside with ⟨rfl, _⟩ | ⟨_, here⟩
      · exact .inl rfl
      · exact .inr here
  | hit at_ | miss at_ =>
    refine Lib.Flag.mono guard (inside_congr rfl fun s inside => ?_)
    rcases setTimer_guarded inside with ⟨rfl, _⟩ | ⟨_, here⟩
    · rw [at_]; rfl
    · exact here
  | @leave hit at_ =>
    refine Lib.Flag.leave (a := Sum.inr r) guard (by simp [Inside, at_, TimerPc.guarded]) fun a inside => ?_
    cases a with
    | inl j => exact ⟨nofun, inside⟩
    | inr s =>
      rcases setTimer_guarded inside with ⟨_, here⟩ | ⟨other, here⟩
      · cases hit <;> cases here
      · exact ⟨fun same => other (Sum.inr.inj same), here⟩

end Guarded

section Hand

theorem hand_at (pc : f'.pc = update f.pc i p) (timer : f'.list.timer = f.list.timer)
    (a : ι ⊕ Record ι) (r : Record ι) : f'.Hand a r ↔ if a = .inl i then r ∈ hands p else f.Hand a r := by
  cases a with
  | inl j =>
    simp only [Hand, pc, update_apply, Sum.inl.injEq]
    split <;> rfl
  | inr s => simp [Hand, timer]

theorem hand_keep (pc : f'.pc = update f.pc i p) (timer : f'.list.timer = f.list.timer)
    (same : hands p = hands (f.pc i)) (a : ι ⊕ Record ι) (r : Record ι) : f'.Hand a r ↔ f.Hand a r := by
  rw [hand_at pc timer]
  split
  · rename_i here; rw [here, same]; rfl
  · rfl

variable {s : Record ι} {pc : TimerPc}

theorem hand_done (pc : f'.pc = update f.pc i p) (timer : f'.list.timer = f.list.timer)
    (had : hands (f.pc i) = s :: hands p) (fresh : s ∉ hands p) (a : ι ⊕ Record ι) (r : Record ι) :
    f'.Hand a r ↔ f.Hand a r ∧ ¬ (a = .inl i ∧ r = s) := by
  rw [hand_at pc timer]
  split
  · rename_i here
    simp only [here, Hand, had, mem_cons, true_and]
    exact ⟨fun there => ⟨.inr there, fun same => fresh (same ▸ there)⟩, fun there => there.1.resolve_left there.2⟩
  · rename_i other; simp [other]

theorem hand_silent (quiet : pc.hits = false) (a : ι ⊕ Record ι) (r : Record ι) :
    Hand { f with list := f.list.setTimer s pc } a r ↔ f.Hand a r ∧ ¬ (a = .inr s ∧ r = s) := by
  cases a with
  | inl => simp [Hand]
  | inr t =>
    simp only [Hand, setTimer, update_apply, Sum.inr.injEq]
    grind

theorem hand_setTimer (same : pc.hits = (f.list.timer s).hits) (a : ι ⊕ Record ι) (r : Record ι) :
    Hand { f with list := f.list.setTimer s pc } a r ↔ f.Hand a r := by
  cases a with
  | inl => rfl
  | inr t =>
    simp only [Hand, setTimer, update_apply]
    grind

theorem hand_timerStop (s : Record ι) (a : ι ⊕ Record ι) (r : Record ι) :
    Hand { f with list := f.list.timerStop s } a r ↔ f.Hand a r := by
  unfold WaitList.timerStop
  split
  · exact hand_setTimer (by simp [*, TimerPc.hits]) a r
  · exact .rfl

theorem hand_hit (s : Record ι) (a : ι ⊕ Record ι) (r : Record ι) :
    Hand { f with list := f.list.timeoutHit s } a r ↔ a = .inr s ∧ r = s ∨ f.Hand a r := by
  cases a with
  | inl => simp [Hand]
  | inr t =>
    simp only [Hand, timeoutHit, setTimer, update_apply, Sum.inr.injEq]
    grind [removeWaiter]

end Hand

section

variable (ledger : f.Ledger tokens place)
include ledger

theorem Ledger.goto (hand : hands p = hands (f.pc i))
    (waits : (Points.phase p).waiting = f.waiting i) : (f.goto i p).Ledger tokens place :=
  keep ledger (hand_keep rfl rfl hand) (waits_keep rfl rfl waits) (fun _ _ => rfl)

theorem Ledger.begin {call : Call} (out : Points.phase (f.pc i) = .idle) : (f.begin i call).Ledger tokens place :=
  keep ledger (fun a _ => by cases a <;> rfl) (waits_begin out) (fun _ _ => rfl)

theorem Ledger.setTimer {pc : TimerPc} (same : pc.hits = (f.list.timer r).hits) :
    Ledger { f with list := f.list.setTimer r pc } tokens place :=
  keep ledger (hand_setTimer same) (fun _ => .rfl) (fun _ _ => rfl)

theorem Ledger.timerStop : Ledger { f with list := f.list.timerStop r } tokens place := by
  unfold WaitList.timerStop
  split
  · exact ledger.setTimer (by simp [*, TimerPc.hits])
  · exact ledger

theorem Ledger.timer {list : WaitList ι} (move : f.list.TimerMove r list) :
    ∃ place', Ledger { f with list := list } tokens place' := by
  cases move with
  | fire at_ | enter at_ | miss at_ => exact ⟨place, ledger.setTimer (by rw [at_]; rfl)⟩
  | @leave hit at_ => exact ⟨place, ledger.setTimer (by rw [at_]; cases hit <;> rfl)⟩
  | hit at_ queued =>
    exact ⟨_, Lib.Ledger.take ledger queued erase_sublist
      (fun s => ledger.nodup.mem_erase_iff.trans and_comm) (hand_hit r) (fun _ => .rfl)⟩

end

theorem Registered.goto (registered : f.Registered)
    (here : registering p = true → f.waiter i ∈ f.list.waiters) : (f.goto i p).Registered := by
  intro j registering
  rw [goto_pc] at registering
  split at registering
  · rename_i at_; exact at_ ▸ here registering
  · exact registered j registering

theorem Apart.goto (apart : f.Apart) (here : (hands p).Nodup) : (f.goto i p).Apart := by
  intro j
  rw [goto_pc]
  split
  · exact here
  · exact apart j

theorem Fits.goto (fits : f.Fits kind) (here : Sync.Fits (kind i) p) : (f.goto i p).Fits kind := by
  intro j
  rw [goto_pc]
  split
  · rename_i at_; exact at_ ▸ here
  · exact fits j

end Frame

variable [DecidableEq ι] [Points ι P] {kind : ι → Kind} {f f' : Frame ι P} {tokens tokens' : Tokens ι}
  {a : ι ⊕ Record ι} {place : Record ι → Lib.Place (ι ⊕ Record ι)}

omit [DecidableEq ι] in
theorem not_registering {p : P} (out : guarded p = false) : registering p = false :=
  Bool.eq_false_iff.mpr fun here => absurd ((Points.inside p here).symm.trans out) (by decide)

namespace FrameMove

section

variable (move : FrameMove kind f tokens a f' tokens')
include move

theorem guarded (guard : f.Guarded) : f'.Guarded := by
  have out : ∀ {p q : P}, Points.guarded p = false → Points.guarded p = true → Points.guarded q = true :=
    fun out here => absurd (out.symm.trans here) (by decide)
  cases move with
  | begin _ _ _ out_ | pollTake _ _ _ out_ | pollMiss _ _ _ out_ | returns _ _ out_ =>
    exact Frame.Guarded.goto guard (out out_)
  | goto _ same => exact guard.goto fun here => same ▸ here
  | take _ same => exact Frame.Guarded.goto guard fun here => same ▸ here
  | enter free => exact guard.enter free
  | leave here _ gone => exact guard.leave here gone
  | push _ here | pop _ _ here | popAll _ here | cancel _ _ here => exact Frame.Guarded.goto guard fun _ => here
  | arm _ _ here => exact Frame.Guarded.goto (guard.setTimer rfl) fun _ => Points.inside _ here
  | stop _ _ out_ => exact Frame.Guarded.goto guard.timerStop (out out_)
  | consume _ _ _ out_ | wakeThrd _ _ _ out_ => exact guard.goto (out out_)
  | wakeCoro _ _ _ out_ _ _ _ _ _ _ out' => exact (guard.goto (out out_)).goto (out out')
  | timer move => exact guard.timer move
  | timerCoro _ _ _ _ _ out_ => exact Frame.Guarded.goto (guard.setTimer rfl) (out out_)
  | timerThrd => exact guard.setTimer rfl

theorem ledger (ledger : f.Ledger tokens place) (registered : f.Registered) (apart : f.Apart)
    (clean : ∀ i, a = .inl i → f.waiting i = false → tokens i = 0) : ∃ place', f'.Ledger tokens' place' := by
  cases move with
  | @begin i p call idle _ goes _ before =>
    exact ⟨place, Frame.Ledger.goto (ledger.begin idle) goes.hands
      (by simp [waiting, Frame.begin, idle, before, Phase.waiting])⟩
  | @pollTake i p idle _ goes _ ending | @pollMiss i p idle _ goes _ ending =>
    exact ⟨place, Frame.Ledger.goto (f := f.begin i (.timedwait 0)) (ledger.begin idle) goes.hands
      (by simp [waiting, Frame.begin, idle, ending, Phase.waiting])⟩
  | goto goes _ _ step => exact ⟨place, ledger.goto goes.hands step.waiting_eq⟩
  | enter _ goes _ same =>
    exact ⟨place, Frame.Ledger.goto (f := f) ledger goes.hands (by rw [same]; rfl)⟩
  | leave _ goes _ step => exact ⟨place, Frame.Ledger.goto (f := f) ledger goes.hands step.waiting_eq⟩
  | take goes _ _ before ending | returns goes _ _ before ending =>
    exact ⟨place, Frame.Ledger.goto (f := f) ledger goes.hands (by simp [waiting, before, ending, Phase.waiting])⟩
  | @push i p arming goes _ _ before waits =>
    refine ⟨_, Lib.Ledger.enqueue ledger
      (by simp [waits_waiter, waiting, before, Phase.waiting])
      (clean i rfl (by simp [waiting, before, Phase.waiting])) (hand_keep rfl rfl goes.hands) (fun s => ?_)⟩
    refine (waits_at (f := f) (i := i) (p := p) (by rfl) (by rfl) s).trans ?_
    split
    · rename_i here; simp [here, waits, Phase.waiting]
    · rename_i other; simp [other]
  | @arm i p goes _ here _ before waits =>
    exact ⟨place, Frame.Ledger.goto (ledger.setTimer (ledger.not_hits (registered i here)).symm) goes.hands
      (by simp [waiting, before, waits, Phase.waiting])⟩
  | stop goes _ _ same => exact ⟨place, Frame.Ledger.goto ledger.timerStop goes.hands (by rw [same]; rfl)⟩
  | @pop i p r rest queue _ _ _ _ _ same none_ one =>
    have fresh : r ∉ rest := (nodup_cons.mp (queue ▸ ledger.nodup)).1
    refine ⟨_, Lib.Ledger.take (r := r) (a := Sum.inl i) ledger (by simp [queue])
      (queue ▸ sublist_cons_self r rest) (fun s => ?_) (fun a s => ?_)
      (waits_keep rfl rfl (by rw [same]; rfl))⟩
    · rw [queue, mem_cons]
      exact ⟨fun here => ⟨.inr here, fun same => fresh (same ▸ here)⟩, fun here => here.1.resolve_left here.2⟩
    · refine (hand_at (f := f) (i := i) (p := p) (by rfl) (by rfl) a s).trans ?_
      split
      · rename_i here; simp [here, Frame.Hand, none_, one]
      · rename_i other; simp [other]
  | @popAll i p _ _ _ _ _ same none_ all_ =>
    refine ⟨_, takeAll (a := Sum.inl i) ledger (fun a s => ?_) (waits_keep rfl rfl (by rw [same]; rfl))⟩
    refine (hand_at (f := f) (i := i) (p := p) (by rfl) (by rfl) a s).trans ?_
    split
    · rename_i here; simp [here, Frame.Hand, none_, all_]
    · rename_i other; simp [other]
  | @cancel i p queued goes _ _ _ _ _ _ ending =>
    exact ⟨_, Lib.Ledger.cancel ledger queued erase_sublist
      (fun s => ledger.nodup.mem_erase_iff.trans and_comm) (hand_keep rfl rfl goes.hands)
      (waits_done rfl rfl (by rw [ending]; rfl))⟩
  | @consume i p arming some_ goes _ _ _ waits ending =>
    refine ⟨_, Lib.Ledger.consume ledger
      (waits_waiter.mpr (by simp [waiting, waits, Phase.waiting])) some_
      (hand_keep rfl rfl goes.hands) (waits_done rfl rfl (by rw [ending]; rfl)) (fun s other here => ?_)⟩
    have party : s.1 ≠ i := fun same => other (here.current.trans (by rw [same]))
    simp [party]
  | @wakeCoro i p r q arming had _ _ _ same other current coro goes _ _ waits resumed =>
    have still : (f.goto i p).pc r.1 = f.pc r.1 := Function.update_of_ne other _ _
    have fresh : r ∉ hands p := (nodup_cons.mp (had ▸ apart i)).1
    refine ⟨_, ready (r := r) (a := Sum.inl i) ledger (by simp [Frame.Hand, had]) (fun a s => ?_)
      (fun s => ?_)⟩
    · refine (hand_keep (i := r.1) (p := q) (by rfl) (by rfl)
        (by rw [still]; exact goes.hands) a s).trans ?_
      exact hand_done (i := i) (p := p) (by rfl) (by rfl) had fresh a s
    · refine (waits_done (f := f.goto i p) (i := r.1) (p := q) (by rfl) (by rfl) (by rw [resumed]; rfl) s).trans ?_
      refine (waits_keep (i := i) (p := p) (by rfl) (by rfl) (by rw [same]; rfl) s).and ?_
      rw [show (f.goto i p).waiter r.1 = r from current]
  | @wakeThrd i p r had _ _ _ same =>
    have hand : f.Hand (.inl i) r := by simp [Frame.Hand, had]
    have fresh : r ∉ hands p := (nodup_cons.mp (had ▸ apart i)).1
    refine ⟨_, signal (r := r) (a := Sum.inl i) ledger hand (hand_done rfl rfl had fresh)
      (waits_keep rfl rfl (by rw [same]; rfl)) (by simp [thrdWakeSignal]) (fun s other here => ?_)⟩
    simp [thrdWakeSignal, ledger.signalled hand other here]
  | timer move => exact ledger.timer move
  | @timerCoro r q arming at_ current coro goes _ _ waits resumed =>
    have hand : f.Hand (.inr r) r := ⟨rfl, by rw [at_]; rfl⟩
    refine ⟨_, ready (r := r) (a := Sum.inr r) ledger hand (fun a s => ?_) (fun s => ?_)⟩
    · refine (hand_keep (f := { f with list := f.list.setTimer r .done }) (i := r.1) (p := q) (by rfl)
        (by rfl) goes.hands a s).trans ?_
      exact hand_silent rfl a s
    · refine (waits_done (f := f) (i := r.1) (p := q) (by rfl) (by rfl) (by rw [resumed]; rfl) s).trans ?_
      rw [current]
  | @timerThrd r at_ =>
    have hand : f.Hand (.inr r) r := ⟨rfl, by rw [at_]; rfl⟩
    refine ⟨_, signal (r := r) (a := Sum.inr r) ledger hand (hand_silent rfl) (fun _ => .rfl)
      (by simp [thrdWakeSignal]) (fun s other here => ?_)⟩
    simp [thrdWakeSignal, ledger.signalled hand other here]

theorem registered (guard : f.Guarded) (registered : f.Registered) : f'.Registered := by
  have out : ∀ {p : P} {b : Prop}, Points.guarded p = false → registering p = true → b :=
    fun out here => absurd ((not_registering out).symm.trans here) (by decide)
  have quiet : ∀ {p : P} {b : Prop}, registering p = false → registering p = true → b :=
    fun no here => absurd (no.symm.trans here) (by decide)
  cases move with
  | @begin i p _ _ _ _ gone | @pollTake i p _ _ _ gone | @pollMiss i p _ _ _ gone =>
    intro j here
    by_cases at_ : j = i
    · simp only [at_, Frame.goto, update_self] at here
      exact out gone here
    · simp only [Frame.goto, Frame.hand, Frame.begin, at_, update_apply, if_false] at here
      simpa [Frame.goto, Frame.hand, Frame.begin, waiter, at_] using registered j here
  | @goto i _ _ _ here => exact registered.goto fun now => registered i (here now)
  | enter _ _ no | take _ _ no => exact Frame.Registered.goto registered (quiet no)
  | leave _ _ gone | returns _ _ gone | consume _ _ _ gone | wakeThrd _ _ _ gone | timerCoro _ _ _ _ _ gone =>
    exact Frame.Registered.goto registered (out gone)
  | @push i =>
    have more : Frame.Registered { f with list := f.list.pushWaiter (f.waiter i) } := fun j here =>
      mem_append_left _ (registered j here)
    exact more.goto fun _ => mem_append_right _ mem_cons_self
  | @arm i _ _ _ here => exact Frame.Registered.goto (f := f) registered fun _ => registered i here
  | stop _ _ gone =>
    refine Frame.Registered.goto (fun j here => ?_) (out gone)
    unfold WaitList.timerStop
    split <;> exact registered j here
  | @pop i _ _ _ _ _ here _ own no | @popAll i _ _ here _ own no | @cancel i _ _ _ here _ own no =>
    exact Frame.Registered.goto
      (guard.registered (a := .inl i) here rfl fun j same => Sum.inl.inj same ▸ own) (quiet no)
  | wakeCoro _ _ _ gone _ _ _ _ _ _ gone' => exact (registered.goto (out gone)).goto (out gone')
  | @timer r _ move =>
    cases move with
    | hit at_ =>
      have inside : f.Inside (.inr r) := by simp [Frame.Inside, at_, TimerPc.guarded]
      exact guard.registered inside rfl nofun
    | fire | enter | miss | leave => exact registered
  | timerThrd => exact registered

theorem apart (ledger : f.Ledger tokens place) (apart : f.Apart) : f'.Apart := by
  cases move with
  | @begin i _ _ _ _ goes | @pollTake i _ _ _ goes | @pollMiss i _ _ _ goes | @goto i _ goes | @enter i _ _ goes
  | @leave i _ _ goes | @take i _ goes | @push i _ _ goes | @arm i _ goes | @stop i _ goes | @returns i _ _ goes
  | @cancel i _ _ goes | @consume i _ _ _ goes =>
    exact Frame.Apart.goto apart (goes.hands ▸ apart i)
  | pop _ _ _ _ _ _ _ _ one => exact Frame.Apart.goto apart (one ▸ nodup_singleton _)
  | popAll _ _ _ _ _ _ _ all_ => exact Frame.Apart.goto apart (all_ ▸ ledger.nodup)
  | @wakeCoro i _ r _ _ had _ _ _ _ _ _ _ goes =>
    exact (apart.goto (nodup_cons.mp (had ▸ apart i)).2).goto (goes.hands ▸ apart r.1)
  | @wakeThrd i _ _ had => exact apart.goto (nodup_cons.mp (had ▸ apart i)).2
  | timer | timerThrd => exact apart
  | @timerCoro r _ _ _ _ _ goes => exact Frame.Apart.goto apart (goes.hands ▸ apart r.1)

theorem fits (fits : f.Fits kind) : f'.Fits kind := by
  cases move with
  | begin _ _ goes | pollTake _ _ goes | pollMiss _ _ goes | goto goes | enter _ goes | leave _ goes | take goes
  | push goes | arm goes | stop goes | returns goes | cancel _ goes | consume _ goes => exact Frame.Fits.goto fits goes.fits
  | pop _ here | popAll here => exact Frame.Fits.goto fits here
  | wakeCoro _ here _ _ _ _ _ coro goes => exact (fits.goto here).goto (coro ▸ goes.fits)
  | wakeThrd _ here => exact fits.goto here
  | timer | timerThrd => exact fits
  | timerCoro _ _ coro goes => exact Frame.Fits.goto fits (coro ▸ goes.fits)

end

end FrameMove

theorem Frame.goto_clean {i : ι} {p : P} {j : ι}
    (waits : (Points.phase p).waiting = f.waiting i ∨ f.waiting i = false ∨ tokens i = 0) :
    (f.waiting j = false → tokens j = tokens j) ∧
      (f.waiting j = true → (f.goto i p).waiting j = false → tokens j = 0) := by
  refine ⟨fun _ => rfl, fun before after => ?_⟩
  unfold waiting at *
  rw [goto_pc] at after
  grind

namespace FrameMove

section

variable (move : FrameMove kind f tokens a f' tokens')
include move

theorem clean (ledger : f.Ledger tokens place) (j : ι) : (f.waiting j = false → tokens' j = tokens j) ∧
      (f.waiting j = true → f'.waiting j = false → tokens' j = 0) := by
  cases move with
  | begin idle | pollTake idle | pollMiss idle =>
    exact goto_clean (f := f) (.inr (.inl (by simp [Frame.waiting, idle, Phase.waiting])))
  | goto _ _ _ step | leave _ _ _ step => exact goto_clean (f := f) (.inl step.waiting_eq)
  | enter _ _ _ same | stop _ _ _ same | pop _ _ _ _ _ _ same | popAll _ _ _ _ _ same =>
    exact goto_clean (f := f) (.inl (by rw [same]; rfl))
  | take _ _ _ before | push _ _ _ before =>
    exact goto_clean (f := f) (.inr (.inl (by simp [Frame.waiting, before, Phase.waiting])))
  | arm _ _ _ _ before waits =>
    exact goto_clean (f := f) (.inl (by simp [Frame.waiting, before, waits, Phase.waiting]))
  | returns _ _ _ ending =>
    exact goto_clean (f := f) (.inr (.inl (by simp [Frame.waiting, ending, Phase.waiting])))
  | @cancel i _ queued _ _ _ _ _ _ waits =>
    refine goto_clean (f := f) (.inr (.inr ?_))
    exact ledger.spent (f.waiter i) (waits_waiter.mpr waits) (by simp [(ledger.queued _).mp queued])
  | @consume i _ _ some_ _ _ _ _ waits =>
    have waiting : f.waiting i = true := by simp [Frame.waiting, waits, Phase.waiting]
    have one := (ledger.not_queued waiting some_).2
    unfold Frame.waiting at *
    simp only [goto_pc, update_apply]
    grind
  | @wakeCoro i p r q _ had _ _ _ same =>
    have none_ := (ledger.hand_waits (a := .inl i) (r := r) (by simp [Frame.Hand, had])).2.2.1
    refine ⟨fun _ => rfl, fun before after => ?_⟩
    unfold Frame.waiting at *
    simp only [goto_pc] at after
    grind
  | @wakeThrd i p r had _ _ _ same =>
    have own := (ledger.hand_waits (a := .inl i) (r := r) (by simp [Frame.Hand, had])).2.1
    unfold Frame.waiting at *
    simp only [goto_pc, thrdWakeSignal_apply]
    grind
  | timer => exact ⟨fun _ => rfl, fun before after => absurd (before.symm.trans after) (by decide)⟩
  | @timerCoro r _ _ at_ =>
    exact goto_clean (f := f) (.inr (.inr (ledger.hand_waits (a := .inr r) ⟨rfl, by rw [at_]; rfl⟩).2.2.1))
  | @timerThrd r at_ =>
    have own := (ledger.hand_waits (a := .inr r) ⟨rfl, by rw [at_]; rfl⟩).2.1
    unfold Frame.waiting at *
    simp only [thrdWakeSignal_apply]
    grind

theorem clean_of (ledger : f.Ledger tokens place)
    (before : ∀ j, f.waiting j = false → tokens j = 0) (j : ι) (away : f'.waiting j = false) : tokens' j = 0 := by
  by_cases waits : f.waiting j = true
  · exact (move.clean ledger j).2 waits away
  · rw [(move.clean ledger j).1 (by simpa using waits)]
    exact before j (by simpa using waits)

theorem enters (j : ι) (waits : f'.waiting j = true) : f.waiting j = true ∨ a = .inl j := by
  by_cases here : a = .inl j
  · exact .inr here
  · refine .inl ?_
    unfold waiting at *
    cases move with
    | @wakeCoro i p r q _ _ _ _ _ _ _ _ _ _ _ _ _ resumed | @timerCoro r q _ _ _ _ _ _ _ _ resumed =>
      simp only [goto_pc] at waits
      have done : (phase q).waiting = false := by rw [resumed]; rfl
      grind
    | timer | timerThrd => exact waits
    | _ =>
      have other : ∀ {i}, (Sum.inl i : ι ⊕ Record ι) ≠ .inl j → j ≠ i := fun other same => other (by rw [same])
      simpa [Frame.goto, Frame.begin, Frame.hand, Frame.returns, other here] using waits

end

end FrameMove

end Xylem.Sync
