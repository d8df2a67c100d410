import Xylem.Lib.Shared
import Xylem.Sync.MutexSafe

namespace Xylem.Sync.Mutex

open State

variable {ι : Type*} {p q : Pc ι} {token : Nat}

namespace Pc

theorem guarded_of_registers (registers : p.registers = true) : p.guarded = true := by
  unfold Pc.registers at registers
  split at registers <;> first | rfl | cases registers

theorem Enters.idle (enters : p.Enters q) : q.registers = false := by cases enters <;> rfl

theorem Leaves.idle (leaves : p.Leaves q) : q.registers = false ∧ p ≠ .unlock := by
  cases leaves <;> exact ⟨rfl, nofun⟩

theorem Pushes.idle (pushes : p.Pushes q) : q.registers = false ∧ p ≠ .unlock := by
  cases pushes <;> exact ⟨rfl, nofun⟩

/-- Steps under way that lead to the wake of a waiter or to another attempt of a woken one: an unlock that has not
looked at the queue yet, a waiter in its hands, a token, and a woken waiter before its attempt. -/
@[grind] def stirs (token : Nat) : Pc ι → Prop
  | .unlock | .pop | .release (some _) | .wake _ | .resumed | .awake => True
  | .await => 0 < token
  | _ => False

theorem Enters.stirs (enters : p.Enters q) (stirs : p.stirs token) : q.stirs token := by
  cases enters <;> first | exact trivial | exact stirs

theorem Leaves.stirs (leaves : p.Leaves q) (stirs : p.stirs token) : q.stirs token := by
  cases leaves <;> first | exact trivial | exact stirs.elim

theorem stirs_of_not_waits {token token' : Nat} (away : p.waits = false) (stirs : p.stirs token) : p.stirs token' := by
  unfold Pc.stirs at *
  split <;> simp_all [Pc.waits]

def unlocking : Pc ι → Bool
  | .unlock | .pop | .release _ | .wake _ => true
  | _ => false

/-- A waiter has been signalled and has not tried to take the lock since. -/
def woken (token : Nat) : Pc ι → Prop
  | .resumed | .awake => True
  | .await => 0 < token
  | _ => False

theorem unlocking_or_woken (stirs : p.stirs token) : p.unlocking = true ∨ p.woken token := by
  unfold Pc.stirs at stirs
  split at stirs <;> first | exact .inl rfl | exact .inr trivial | exact .inr stirs | exact stirs.elim

theorem unlocking_of_hand {w : ι} (hand : p.hand = some w) : p.unlocking = true := by
  unfold Pc.hand at hand
  split at hand <;> first | rfl | cases hand

end Pc

/-- While a party is about to register itself, the lock stays taken or its release waits for the guard. -/
def State.Awaited (σ : State ι) : Prop := ∀ i, (σ.pc i).registers = true → σ.locked = true ∨ ∃ u, σ.pc u = .unlock

variable [DecidableEq ι] {kind : ι → Kind} {σ σ' : State ι} {tokens tokens' : Tokens ι} {i : ι}

theorem State.Awaited.goto (awaited : σ.Awaited) (idle : p.registers = false) (other : σ.pc i ≠ .unlock) :
    (σ.goto i p).Awaited := by
  intro j registers
  rw [goto_pc] at registers
  rcases awaited j (by grind) with locked | ⟨u, at_⟩
  · exact .inl locked
  · exact .inr ⟨u, by rw [goto_pc]; grind⟩

theorem Move.awaited (move : Move kind σ tokens i σ' tokens') (guard : σ.Guarded) (awaited : σ.Awaited) :
    σ'.Awaited := by
  cases move with
  | take => exact fun _ _ => .inl rfl
  | fail _ locked | busy _ locked => exact fun _ _ => .inl locked
  | unlock => exact fun _ _ => .inr ⟨i, by simp [goto_pc]⟩
  | enter enters free =>
    -- the guard is free, so nobody is about to register
    intro j registers
    by_cases at_ : j = i
    · simp [goto_pc, at_, enters.idle] at registers
    · simp only [goto_pc, at_, if_false] at registers
      exact absurd (Pc.guarded_of_registers registers) (guard.empty free j)
  | leave leaves | push leaves => exact State.Awaited.goto awaited leaves.idle.1 leaves.idle.2
  | wakeCoro at_ parked =>
    exact (awaited.goto rfl (by simp [at_])).goto rfl (by rw [goto_pc]; grind)
  | call at_ | free at_ | pop at_ | popNone at_ | await at_ | wakeThrd at_ =>
    exact State.Awaited.goto awaited rfl (by simp [at_])

/-- No waiter is left behind. -/
def State.Stirred (σ : State ι) (tokens : Tokens ι) : Prop :=
  σ.waiters = [] ∨ σ.locked = true ∨ ∃ i, (σ.pc i).stirs (tokens i)

theorem State.Stirred.goto (stirred : σ.Stirred tokens) (keeps : (σ.pc i).stirs (tokens i) → p.stirs (tokens i)) :
    (σ.goto i p).Stirred tokens := by
  rcases stirred with none_ | locked | ⟨j, stirs⟩
  · exact .inl none_
  · exact .inr (.inl locked)
  · exact .inr (.inr ⟨j, by rw [goto_pc]; grind⟩)

theorem Move.stirred {place : ι → Lib.Place ι} (move : Move kind σ tokens i σ' tokens')
    (ledger : σ.Ledger tokens place) (registered : σ.Registered) (fits : ∀ j, (σ.pc j).Fits (kind j))
    (awaited : σ.Awaited) (stirred : σ.Stirred tokens) : σ'.Stirred tokens' := by
  cases move with
  | take => exact .inr (.inl rfl)
  | fail _ locked | busy _ locked => exact .inr (.inl locked)
  | popNone _ none_ => exact .inl none_
  | call at_ | free at_ => exact stirred.goto (by simp [at_, Pc.stirs])
  | enter enters => exact stirred.goto enters.stirs
  | leave leaves => exact stirred.goto leaves.stirs
  | push pushes =>
    rcases awaited i pushes.registers with locked | ⟨u, at_⟩
    · exact .inr (.inl locked)
    · refine .inr (.inr ⟨u, ?_⟩)
      rw [goto_pc]
      grind [pushes.registers, mutexPushWaiter]
  | pop | unlock | await => exact .inr (.inr ⟨i, by simp [goto_pc, Pc.stirs]⟩)
  | @wakeCoro w => exact .inr (.inr ⟨w, by simp [goto_pc, Pc.stirs]⟩)
  | @wakeThrd w at_ thrd =>
    have here : σ.pc w = .await := by
      rcases ledger.at_hand registered (i := i) (w := w) (by simp [at_, Pc.hand]) with parked | await
      · exact absurd (parked ▸ fits w : Pc.Fits (kind w) .parked) (by simp [Pc.Fits, thrd])
      · exact await
    refine .inr (.inr ⟨w, ?_⟩)
    rw [goto_pc, if_neg (by rintro rfl; simp [at_] at here), here]
    simp [Pc.stirs, thrdWakeSignal]

structure State.Inv (kind : ι → Kind) (σ : State ι) (tokens : Tokens ι) : Prop where
  exclusive : σ.Exclusive
  guarded : σ.Guarded
  ledger : ∃ place, σ.Ledger tokens place
  registered : σ.Registered
  fits : ∀ i, (σ.pc i).Fits (kind i)
  awaited : σ.Awaited
  stirred : σ.Stirred tokens

theorem Move.inv (move : Move kind σ tokens i σ' tokens') (inv : σ.Inv kind tokens)
    (clean : (σ.pc i).registers = true → tokens i = 0) : σ'.Inv kind tokens' := by
  obtain ⟨place, ledger⟩ := inv.ledger
  exact ⟨move.exclusive inv.exclusive, move.guarded inv.guarded, move.ledger ledger clean,
    move.registered inv.guarded inv.registered, move.fits inv.fits, move.awaited inv.guarded inv.awaited,
    move.stirred ledger inv.registered inv.fits inv.awaited inv.stirred⟩

omit [DecidableEq ι] in
theorem create_inv (kind : ι → Kind) (tokens : Tokens ι) : create.Inv kind tokens where
  exclusive := Lib.Flag.nobody nofun
  guarded := Lib.Flag.nobody nofun
  ledger := ⟨_, Lib.Ledger.empty nofun nofun⟩
  registered := nofun
  fits _ := trivial
  awaited := nofun
  stirred := .inl rfl

omit [DecidableEq ι] in
theorem State.Inv.frame (inv : σ.Inv kind tokens) (same : ∀ i, (σ.pc i).waits = true → tokens' i = tokens i) :
    σ.Inv kind tokens' := by
  obtain ⟨place, ledger⟩ := inv.ledger
  have stirred : σ.Stirred tokens' := by
    refine inv.stirred.imp_right (Or.imp_right fun ⟨i, stirs⟩ => ⟨i, ?_⟩)
    by_cases waits : (σ.pc i).waits = true
    · rwa [same i waits]
    · exact Pc.stirs_of_not_waits (by simpa using waits) stirs
  exact { inv with
    ledger := ⟨place, ledger.keep (fun _ _ => .rfl) (fun _ => .rfl) same⟩
    stirred := stirred }

theorem Move.enters (move : Move kind σ tokens i σ' tokens') (j : ι) (waits : (σ'.pc j).waits = true) :
    (σ.pc j).waits = true ∨ j = i ∧ (σ.pc i).registers = true := by
  by_cases here : j = i
  · subst here
    cases move with
    | take tries => exact .inl (by rwa [goto_pc, if_pos rfl, tries.alike.1.waits] at waits)
    | fail tries => exact .inl (by rwa [goto_pc, if_pos rfl, tries.alike.2.waits] at waits)
    | enter enters =>
      simp only [goto_pc, if_true] at waits
      exact .inl (enters.inside.2.1 ▸ waits)
    | leave leaves =>
      simp only [spinUnlock, goto_pc, if_true] at waits
      exact .inl (leaves.outside.2.2.2 ▸ waits)
    | push pushes => exact .inr ⟨rfl, pushes.registers⟩
    | wakeCoro _ _ other => simp [goto_pc, other.symm, Pc.waits] at waits
    | call | free | busy | pop | popNone | await | wakeThrd | unlock => simp [goto_pc, Pc.waits] at waits
  · refine .inl ?_
    cases move with
    | wakeCoro =>
      simp only [goto_pc, here, if_false] at waits
      grind
    | _ => simpa [goto, spinUnlock, mutexPushWaiter, here] using waits

omit [DecidableEq ι] in
/-- The mutex as one of the devices that wake by tokens. -/
def device (kind : ι → Kind) : Lib.Device ι (State ι) where
  waits σ i := (σ.pc i).waits
  Inv σ tokens := σ.Inv kind tokens
  frame inv same := inv.frame same

theorem Move.device (move : Move kind σ tokens i σ' tokens') (inv : σ.Inv kind tokens) :
    (device kind).Step σ tokens (fun j => j = i ∧ (σ.pc i).registers = true) σ' tokens' := by
  obtain ⟨place, ledger⟩ := inv.ledger
  exact {
    inv := fun clean => move.inv inv fun registers => clean i ⟨rfl, registers⟩ (Pc.not_waits_of_registers registers)
    quiet := fun j => (move.clean ledger j).1
    spent := fun j => (move.clean ledger j).2
    enters := move.enters }

abbrev Sys (ι : Type*) := State ι × Tokens ι

def Sys.step (kind : ι → Kind) (s : Sys ι) (act : Act ι) : Option (Sys ι) := s.1.step kind s.2 act

def Sys.init : Sys ι := (create, fun _ => 0)

abbrev Sys.Reachable (kind : ι → Kind) : Sys ι → Prop := Lib.Reach (Sys.step kind) (fun _ _ => True) Sys.init

/-- The invariant of a mutex and its parties: nobody but a waiter has a token. -/
structure Sys.Inv (kind : ι → Kind) (s : Sys ι) : Prop extends s.1.Inv kind s.2 where
  clean : ∀ i, (s.1.pc i).waits = false → s.2 i = 0
  tokenless : ∀ i, kind i = .coro → s.2 i = 0

theorem Sys.Reachable.inv {s : Sys ι} (run : Sys.Reachable kind s) : s.Inv kind := by
  have start : Sys.Inv kind Sys.init := ⟨create_inv kind _, fun _ _ => rfl, fun _ _ => rfl⟩
  refine Lib.Reach.invariant start (fun s act t _ inv _ step => ?_) run
  have move := step_move step
  obtain ⟨_, ledger⟩ := inv.ledger
  refine ⟨move.inv inv.toInv fun registers => inv.clean _ (Pc.not_waits_of_registers registers), fun j away => ?_, move.tokenless inv.tokenless⟩
  have clean := move.clean ledger j
  by_cases waits : (s.1.pc j).waits = true
  · exact clean.2 waits away
  · rw [clean.1 (by simpa using waits)]
    exact inv.clean j (by simpa using waits)

/-- Queued, parked as a coroutine or blocked as a thread. -/
def State.Waits (σ : State ι) (i : ι) : Prop := i ∈ σ.waiters ∨ σ.pc i = .parked ∨ σ.pc i = .await

/-- At most one party has taken the lock and not released it, and as long as a locker is queued or parked the lock is
taken, an unlock is in progress or a wake is pending. -/
theorem lock_excludes_and_wakes (kind : ι → Kind) {s : Sys ι} (run : Sys.Reachable kind s) :
    (∀ i j, s.1.held i = true → s.1.held j = true → i = j) ∧
      ¬ (s.1.locked = false ∧ (∀ i, (s.1.pc i).unlocking = false) ∧ (∀ i, ¬ (s.1.pc i).woken (s.2 i)) ∧
        ∃ i, s.1.Waits i) := by
  have inv := run.inv
  refine ⟨inv.exclusive.unique, ?_⟩
  rintro ⟨free, quiet, still, i, waits⟩
  have nobody : s.1.waiters = [] := by
    rcases inv.stirred with none_ | locked | ⟨j, stirs⟩
    · exact none_
    · exact absurd (free.symm.trans locked) (by decide)
    · exact (Pc.unlocking_or_woken stirs).elim (fun busy => by simp [quiet j] at busy) (fun woken => (still j woken).elim)
  obtain ⟨place, ledger⟩ := inv.ledger
  have at_ : s.1.pc i = .parked ∨ s.1.pc i = .await := waits.resolve_left (by simp [nobody])
  have lives := (ledger.waiting i).mp (by rcases at_ with at_ | at_ <;> simp [at_, Pc.waits])
  cases here : place i with
  | none => exact lives here
  | queue => simpa [nobody] using (ledger.queued i).mpr here
  | hand a => simpa [quiet a] using Pc.unlocking_of_hand ((ledger.handed a i).mpr here)
  | token =>
    have one := ledger.given i here
    rcases at_ with parked | await
    · have coro : kind i = .coro := by simpa [parked, Pc.Fits] using inv.fits i
      simp [inv.tokenless i coro] at one
    · exact still i (by simp [await, Pc.woken, one])

/-- A thread is queued behind a coroutine that holds the lock. -/
theorem lock_excludes_and_wakes_contended : ∃ s : Sys Bool,
    Sys.Reachable (fun i => if i then .thrd else .coro) s ∧ s.1.waiters = [true] ∧ s.1.held false = true ∧
      s.1.held true = false := by
  obtain ⟨s, run, queued, held⟩ : ∃ s : Sys Bool, Sys.Reachable (fun i => if i then .thrd else .coro) s ∧
      s.1.waiters = [true] ∧ s.1.held false = true :=
    Lib.exists_reach ([Act.lock false, .run false, .lock true] ++ List.replicate 132 (Act.run true)) (by decide +kernel)
  have unique := (lock_excludes_and_wakes _ run).1 true false
  exact ⟨s, run, queued, held, by_contra fun taken => by simpa using unique (by simpa using taken) held⟩

end Xylem.Sync.Mutex
