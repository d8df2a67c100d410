import Xylem.Sync.SemSafe

namespace Xylem.Sync.Sem

open State List Nat

variable {ι : Type*} {kind : ι → Kind} {σ σ' : State ι} {tokens tokens' : Tokens ι} {a : ι ⊕ Record ι} {i : ι}
  {value : Nat} {pc : ι → Pc ι} {p q : Pc ι}

/-- A call that found no token and is about to register its waiter. -/
def Pc.pushing : Pc ι → Bool
  | .commitPush | .push => true
  | _ => false

theorem Pc.guarded_of_pushing (pushing : p.pushing = true) : p.guarded = true := by
  unfold Pc.pushing at pushing
  split at pushing <;> first | rfl | cases pushing

theorem Pc.Enters.quiet (enters : p.Enters q) : q.pushing = false ∧ q ≠ .bank := by
  cases enters <;> exact ⟨rfl, nofun⟩

theorem Pc.Leaves.quiet (leaves : p.Leaves q) : q.pushing = false ∧ q ≠ .bank := by
  cases leaves <;> exact ⟨rfl, nofun⟩

theorem Pc.Pushes.quiet {call : Call} (pushes : Pc.Pushes call p q) :
    p.pushing = true ∧ q.pushing = false ∧ q ≠ .bank := by
  cases pushes <;> exact ⟨rfl, rfl, nofun⟩

theorem Pc.Takes.quiet (takes : p.Takes q) : q.pushing = false ∧ q ≠ .bank := by
  cases takes <;> exact ⟨rfl, nofun⟩

theorem Pc.Fails.quiet (fails : p.Fails q) : q ≠ .bank := by
  cases fails <;> exact nofun

variable [DecidableEq ι]

/-- Every token was there at the start or posted; it is banked, handed to a wait, or a wait has returned with it. -/
def State.Balance (value : Nat) (σ : State ι) : Prop :=
  value + σ.posts = σ.successes + σ.handed.length + σ.count

theorem State.Balance.returns (balance : σ.Balance value) (here : σ.waiter i ∈ σ.handed) :
    (σ.returns i true).Balance value := by
  have length := length_erase_of_mem here
  have pos := length_pos_of_mem here
  unfold State.Balance at *
  simp only [State.returns, Frame.returns, if_true]
  omega

theorem State.Balance.take {pc : Pc ι} (balance : σ.Balance value) (some_ : 0 < σ.count) :
    ((σ.takeToken i).goto i pc).Balance value := by
  unfold State.Balance at *
  simp only [goto, Frame.goto, takeToken, Frame.hand, length_cons]
  omega

theorem Move.balance (move : Move kind σ tokens a σ' tokens') (sound : σ.Sound kind)
    (banks : ∀ i, a = .inl i → σ.pc i = .bank → σ.count + 1 < 2 ^ 32) (balance : σ.Balance value) :
    σ'.Balance value := by
  cases move with
  | pollTake _ some_ => exact State.Balance.take balance some_
  | take _ some_ => exact balance.take some_
  | @ret i got at_ =>
    cases got
    · exact balance
    · exact balance.returns (((sound (σ.waiter i)).handed_iff ((σ.phase_waiter i).trans (by rw [at_]; rfl))).mpr rfl)
  | pop =>
    unfold State.Balance at *
    simp only [goto, Frame.goto, length_cons]
    omega
  | @bank i at_ =>
    have small := mod_eq_of_lt (banks i rfl at_)
    unfold State.Balance at *
    simp only [goto, Frame.goto, small]
    omega
  | _ => exact balance

/-- Banked tokens and queued waiters exclude each other. -/
structure Banks (count : Nat) (waiters : List (Record ι)) (pc : ι → Pc ι) : Prop where
  banked : 0 < count → waiters = []
  pushing : ∀ i, (pc i).pushing = true → count = 0
  banking : ∀ i, pc i = .bank → waiters = []

abbrev State.Banked (σ : State ι) : Prop := Banks σ.count σ.list.waiters σ.pc

theorem Banks.goto {count count' : Nat} {waiters waiters' : List (Record ι)} (banks : Banks count waiters pc)
    (le : count' ≤ count) (fewer : waiters = [] → waiters' = []) (pushing : p.pushing = true → count' = 0)
    (banking : p = .bank → waiters' = []) :
    Banks count' waiters' (Function.update pc i p) where
  banked some_ := fewer (banks.banked (Nat.lt_of_lt_of_le some_ le))
  pushing j here := by
    by_cases at_ : j = i
    · exact pushing (by simpa [at_] using here)
    · exact le_zero.mp (banks.pushing j (by simpa [at_] using here) ▸ le)
  banking j here := by
    by_cases at_ : j = i
    · exact banking (by simpa [at_] using here)
    · exact fewer (banks.banking j (by simpa [at_] using here))

theorem Banks.quiet {count : Nat} {waiters : List (Record ι)} (banks : Banks count waiters pc)
    (quiet : p.pushing = false ∧ p ≠ .bank) :
    Banks count waiters (Function.update pc i p) :=
  banks.goto (Nat.le_refl _) id (fun here => absurd (quiet.1.symm.trans here) (by decide))
    (fun at_ => absurd at_ quiet.2)

theorem Move.banked (move : Move kind σ tokens a σ' tokens') (guard : σ.Guarded) (banked : σ.Banked) : σ'.Banked := by
  have fewer : ∀ r, σ.list.waiters = [] → σ.list.waiters.erase r = [] := fun r none_ => by simp [none_]
  cases move with
  | begin | pollMiss | slowCoro | slowThrd | resumed | fired | await | expire | miss | post | wakeThrd | arm | ret
  | timerCoro =>
    exact banked.quiet ⟨rfl, by simp⟩
  | pollTake => exact banked.goto (sub_le ..) id (by simp [Pc.pushing]) (by simp)
  | take takes =>
    exact banked.goto (sub_le ..) id (fun here => absurd (takes.quiet.1.symm.trans here) (by decide))
      (fun at_ => absurd at_ takes.quiet.2)
  | fail fails none_ => exact banked.goto (Nat.le_refl _) id (fun _ => none_) (fun at_ => absurd at_ fails.quiet)
  | enter enters => exact banked.quiet enters.quiet
  | leave leaves => exact banked.quiet leaves.quiet
  | @push i pc pushes =>
    have none_ : σ.count = 0 := banked.pushing i pushes.quiet.1
    refine ⟨fun some_ => absurd (show 0 < σ.count from some_) (by omega), fun _ _ => none_, fun j here => ?_⟩
    by_cases at_ : j = i
    · exact absurd (show pc = .bank by simpa [goto, Frame.goto, at_] using here) pushes.quiet.2.2
    · have bank : σ.pc j = .bank := by simpa [goto, Frame.goto, semPushWaiter, at_] using here
      refine absurd (Sum.inl.inj (guard.unique (.inl j) (.inl i) ?_ (Pc.guarded_of_pushing pushes.quiet.1))) at_
      exact (congrArg Pc.guarded bank).trans rfl
  | stop =>
    refine banked.goto (Nat.le_refl _) (fun none_ => ?_) (by simp [Pc.pushing]) (by simp)
    unfold WaitList.timerStop
    split <;> exact none_
  | hit => exact banked.goto (Nat.le_refl _) (fewer _) (by simp [Pc.pushing]) (by simp)
  | pop at_ queue => exact banked.goto (Nat.le_refl _) (fun none_ => by simp [queue] at none_) (by simp [Pc.pushing]) (by simp)
  | popNone _ none_ => exact banked.goto (Nat.le_refl _) id (by simp [Pc.pushing]) (fun _ => none_)
  | @bank i at_ =>
    have none_ := banked.banking i at_
    refine ⟨fun _ => none_, fun j here => ?_, fun _ _ => none_⟩
    by_cases same : j = i
    · simp [goto, Frame.goto, same, Pc.pushing] at here
    · have pushing : (σ.pc j).pushing = true := by simpa [goto, Frame.goto, same] using here
      refine absurd (Sum.inl.inj (guard.unique (.inl j) (.inl i) (Pc.guarded_of_pushing pushing) ?_)) same
      exact (congrArg Pc.guarded at_).trans rfl
  | wakeCoro => exact Banks.quiet (banked.quiet ⟨rfl, by simp⟩) ⟨rfl, by simp⟩
  | timer move =>
    cases move with
    | hit =>
      exact ⟨fun some_ => fewer _ (banked.banked some_), banked.pushing, fun j at_ => fewer _ (banked.banking j at_)⟩
    | _ => exact banked
  | timerThrd => exact banked

/-- The invariant of a semaphore that was created with `value` tokens. -/
structure State.Inv (kind : ι → Kind) (value : Nat) (σ : State ι) (tokens : Tokens ι) : Prop extends
    frame : σ.toFrame.Inv kind tokens where
  balance : σ.Balance value
  banked : σ.Banked

theorem Move.inv (move : Move kind σ tokens a σ' tokens') (inv : σ.Inv kind value tokens)
    (clean : ∀ i, a = .inl i → σ.waiting i = false → tokens i = 0)
    (banks : ∀ i, a = .inl i → σ.pc i = .bank → σ.count + 1 < 2 ^ 32) : σ'.Inv kind value tokens' where
  frame := (move.frame inv.fits).inv inv.frame clean
  balance := move.balance inv.sound banks inv.balance
  banked := move.banked inv.guarded inv.banked

omit [DecidableEq ι] in
theorem create_inv (kind : ι → Kind) (value : Nat) (tokens : Tokens ι) : (create value).Inv kind value tokens where
  frame := Frame.init_inv kind tokens rfl rfl rfl rfl
  balance := by simp [State.Balance, create, Frame.init]
  banked := ⟨fun _ => rfl, nofun, nofun⟩

abbrev Sys (ι : Type*) := State ι × Tokens ι

def Sys.step (kind : ι → Kind) (s : Sys ι) (act : Act ι) : Option (Sys ι) := s.1.step kind s.2 act

def Sys.init (value : Nat) : Sys ι := (create value, fun _ => 0)

/-- A post that banks its token finds fewer than `2 ^ 32 - 1` in the bank. -/
def Sys.Room (s : Sys ι) : Act ι → Prop
  | .run i => s.1.pc i = .bank → s.1.count + 1 < 2 ^ 32
  | _ => True

instance (s : Sys ι) (act : Act ι) : Decidable (s.Room act) := by
  cases act <;> unfold Sys.Room <;> infer_instance

abbrev Sys.Reachable (kind : ι → Kind) (value : Nat) : Sys ι → Prop :=
  Lib.Reach (Sys.step kind) Sys.Room (Sys.init value)

structure Sys.Inv (kind : ι → Kind) (value : Nat) (s : Sys ι) : Prop extends sem : s.1.Inv kind value s.2 where
  clean : ∀ i, s.1.waiting i = false → s.2 i = 0

theorem Sys.Reachable.inv {s : Sys ι} (run : Sys.Reachable kind value s) : s.Inv kind value := by
  have start : Sys.Inv kind value (Sys.init value) := ⟨create_inv kind value _, fun _ _ => rfl⟩
  refine Lib.Reach.invariant start (fun s act t _ inv room step => ?_) run
  have move := step_move step
  obtain ⟨_, ledger⟩ := inv.ledger
  refine ⟨move.inv inv.sem (fun i _ => inv.clean i) (fun i here at_ => ?_), fun j away => ?_⟩
  · cases act with
    | run j => exact room (Sum.inl.inj here ▸ at_)
    | call j | post j =>
      have out := (Option.ite_none_right_eq_some.mp step).1
      rw [Sum.inl.inj here, at_] at out
      cases out
    | expire j =>
      have out := (Option.ite_none_right_eq_some.mp step).1.1
      rw [Sum.inl.inj here, at_] at out
      cases out
    | timer r => cases here
  · exact (move.frame inv.fits).clean_of ledger inv.clean j away

/-- No token is lost or duplicated: the initial tokens and the posts are the waits that returned with a token, the waits
that were handed one and have not returned, and the bank, which is empty while waiters are queued. Queued waiters get
tokens in turn, and a timed wait returns without one exactly if its waiter was cancelled in the queue. -/
theorem sem_conserves_tokens (kind : ι → Kind) (value : Nat) {s : Sys ι} (run : Sys.Reachable kind value s) :
    value + s.1.posts = s.1.successes + s.1.handed.length + s.1.count ∧
      s.1.handed.Nodup ∧ (∀ r ∈ s.1.handed, s.1.result r = none) ∧
      (0 < s.1.count → s.1.list.waiters = []) ∧
      s.1.list.pushed.filter (fun r => !s.1.list.cancelled r) = s.1.list.popped ++ s.1.list.waiters ∧
      ∀ r timeoutMs got, s.1.call r = .timedwait timeoutMs → 0 < timeoutMs → s.1.result r = some got →
        (got = false ↔ s.1.list.cancelled r = true) := by
  have inv := run.inv
  refine ⟨inv.balance, inv.handed, fun r here => (inv.sound r).open_ here, inv.banked.banked, inv.fifo.order, ?_⟩
  intro r timeoutMs got call timed returned
  have real : s.1.call r ≠ .timedwait 0 := fun zero => by
    cases call.symm.trans zero
    exact absurd timed (by decide)
  have cancelled : s.1.list.cancelled r = !got := (inv.sound r).cancelled_iff returned real
  rw [cancelled]
  cases got <;> decide

/-- A thread gives up while it is queued. -/
theorem sem_conserves_tokens_timeout : ∃ s : Sys Unit,
    Sys.Reachable (fun _ => .thrd) 0 s ∧ s.1.result ((), 1) = some false ∧ s.1.list.cancelled ((), 1) = true := by
  obtain ⟨s, run, call, returned⟩ : ∃ s : Sys Unit, Sys.Reachable (fun _ => .thrd) 0 s ∧
      s.1.call ((), 1) = .timedwait 5 ∧ s.1.result ((), 1) = some false :=
    Lib.exists_reach (Act.call () (.timedwait 5) :: List.replicate 5 (.run ()) ++ Act.expire () :: List.replicate 4 (.run ()))
      (by decide +kernel)
  have exact_ := (sem_conserves_tokens _ _ run).2.2.2.2.2 ((), 1) 5 false call (by decide) returned
  exact ⟨s, run, returned, exact_.mp rfl⟩

/-- A zero timeout is one attempt, without a waiter that could be cancelled. -/
theorem sem_polls_without_waiter : ∃ s : Sys Unit,
    Sys.Reachable (fun _ => .thrd) 0 s ∧ s.1.call ((), 1) = .timedwait 0 ∧ s.1.result ((), 1) = some false ∧
      s.1.list.cancelled ((), 1) = false :=
  Lib.exists_reach [.call () (.timedwait 0), .run ()] (by decide +kernel)

end Xylem.Sync.Sem
