import Xylem.Sync.MutexLock

namespace Xylem.Sync.Mutex

open State Function

variable {ι : Type*}

def Pc.locking : Pc ι → Bool
  | .out | .unlock | .pop | .release _ | .wake _ => false
  | _ => true

/-- A thread that took the lock inside the guard has it. -/
def State.Took (σ : State ι) : Prop := ∀ i, σ.pc i = .leave true → σ.held i = true

variable {kind : ι → Kind} {σ σ' : State ι} {tokens tokens' : Tokens ι} {i : ι} {p q : Pc ι}

theorem Pc.Tries.locking {p q r : Pc ι} (tries : p.Tries kind i q r) :
    p.unlocking = false ∧ (p.locking = true → (q = .out ∨ q.locking = true) ∧ r.locking = true) := by
  cases tries with
  | trylock => exact ⟨rfl, nofun⟩
  | check => exact ⟨rfl, fun _ => ⟨.inr rfl, rfl⟩⟩
  | _ => exact ⟨rfl, fun _ => ⟨.inl rfl, rfl⟩⟩

theorem Pc.Enters.calls (enters : p.Enters q) : q.unlocking = p.unlocking ∧ q.locking = p.locking := by
  cases enters <;> exact ⟨rfl, rfl⟩

theorem Pc.Leaves.calls (leaves : p.Leaves q) :
    (p.unlocking = true → q = .out ∨ q.unlocking = true) ∧ (p.locking = true → p = .leave true ∧ q = .out ∨ q.locking = true) := by
  cases leaves with
  | took => exact ⟨nofun, fun _ => .inl ⟨rfl, rfl⟩⟩
  | wake => exact ⟨fun _ => .inr rfl, nofun⟩
  | done => exact ⟨fun _ => .inl rfl, nofun⟩
  | _ => exact ⟨nofun, fun _ => .inr rfl⟩

theorem Pc.Tries.not_took {p q r : Pc ι} (tries : p.Tries kind i q r) : r ≠ .leave true := by
  cases tries <;> exact nofun

theorem Pc.Enters.not_took (enters : p.Enters q) : q ≠ .leave true := by cases enters <;> exact nofun

theorem Pc.Leaves.not_took (leaves : p.Leaves q) : q ≠ .leave true := by cases leaves <;> exact nofun

theorem Pc.Pushes.not_took (pushes : p.Pushes q) : q ≠ .leave true := by cases pushes <;> exact nofun

variable [DecidableEq ι]

theorem Move.others (move : Move kind σ tokens i σ' tokens') {j : ι} (other : j ≠ i) :
    σ'.held j = σ.held j ∧ (σ'.pc j = σ.pc j ∨ σ.pc j = .parked ∧ σ'.pc j = .resumed) := by
  cases move with
  | @wakeCoro w at_ parked =>
    refine ⟨rfl, ?_⟩
    by_cases here : j = w
    · exact .inr ⟨here ▸ parked, by rw [here, goto_pc, if_pos rfl]⟩
    · exact .inl (by simp [goto_pc, here, other])
  | take | unlock => simp [goto, other]
  | _ => exact ⟨rfl, .inl (by simp [goto, spinUnlock, mutexPushWaiter, other])⟩

/-- A call that unlocks goes on unlocking until it returns, one that locks until it returns with the lock. -/
theorem Move.own (move : Move kind σ tokens i σ' tokens') (took : σ.Took) :
    ((σ.pc i).unlocking = true → σ'.pc i = .out ∨ (σ'.pc i).unlocking = true) ∧
      ((σ.pc i).locking = true → σ'.pc i = .out ∧ σ'.held i = true ∨ (σ'.pc i).locking = true) := by
  have here : ∀ {τ : State ι} {p : Pc ι}, (τ.goto i p).pc i = p := fun {τ p} =>
    (τ.goto_pc i i p).trans (if_pos rfl)
  cases move with
  | call at_ | unlock at_ => rw [at_]; exact ⟨nofun, nofun⟩
  | take tries =>
    refine ⟨fun inside => absurd (tries.locking.1.symm.trans inside) (by decide), fun inside => ?_⟩
    rw [here]
    exact (tries.locking.2 inside).1.imp_left fun out => ⟨out, update_self ..⟩
  | fail tries =>
    refine ⟨fun inside => absurd (tries.locking.1.symm.trans inside) (by decide), fun inside => ?_⟩
    rw [here]
    exact .inr (tries.locking.2 inside).2
  | free at_ | busy at_ | await at_ => rw [at_, here]; exact ⟨nofun, fun _ => .inr rfl⟩
  | @enter pc enters =>
    have now : ({ σ.goto i pc with guard := true } : State ι).pc i = pc := here
    rw [now, enters.calls.1, enters.calls.2]
    exact ⟨.inr, .inr⟩
  | @leave pc leaves =>
    have now : (σ.spinUnlock i pc).pc i = pc := here
    rw [now]
    exact ⟨leaves.calls.1, fun inside => (leaves.calls.2 inside).imp_left fun ⟨at_, out⟩ => ⟨out, took i at_⟩⟩
  | push pushes =>
    rw [here]
    cases at_ : σ.pc i <;> rw [at_] at pushes <;> cases pushes <;> exact ⟨nofun, fun _ => .inr rfl⟩
  | pop at_ | popNone at_ => rw [at_, here]; exact ⟨fun _ => .inr rfl, nofun⟩
  | wakeThrd at_ => rw [at_, here]; exact ⟨fun _ => .inl rfl, nofun⟩
  | wakeCoro at_ _ other =>
    rw [at_, goto_pc, if_neg (Ne.symm other), here]
    exact ⟨fun _ => .inl rfl, nofun⟩

theorem State.Took.goto (took : σ.Took) (other : p ≠ .leave true) : (σ.goto i p).Took := by
  intro j at_
  rw [goto_pc] at at_
  split at at_
  · exact absurd at_ other
  · exact took j at_

theorem Move.took (move : Move kind σ tokens i σ' tokens') (took : σ.Took) : σ'.Took := by
  cases move with
  | @take taken _ tries =>
    intro j at_
    by_cases here : j = i
    · rw [here]; exact update_self ..
    · rw [goto_pc, if_neg here] at at_
      exact (update_of_ne here ..).trans (took j at_)
  | fail tries => exact took.goto tries.not_took
  | enter enters | leave enters => exact State.Took.goto (σ := σ) took enters.not_took
  | push pushes => exact State.Took.goto (σ := σ.mutexPushWaiter i) took pushes.not_took
  | wakeCoro => exact (took.goto (p := .out) nofun).goto nofun
  | unlock at_ =>
    intro j leaves
    have leaves : (σ.goto i .unlock).pc j = .leave true := leaves
    rw [goto_pc] at leaves
    split at leaves
    · cases leaves
    · rename_i other
      exact (update_of_ne other ..).trans (took j leaves)
  | call | free | busy | pop | popNone | await | wakeThrd => exact State.Took.goto (σ := { σ with waiters := _ }) took nofun

end Xylem.Sync.Mutex
