import Xylem.Sync.CondSafe
import Xylem.Sync.MutexCall

namespace Xylem.Sync.Cond

open Option Mutex.State

variable {ι : Type*}

def Pc.holds : Pc ι → Bool
  | .commit | .commitPush | .commitArm | .commitUnlock | .enter | .push | .leave | .unlock | .signal | .signalPop
  | .signalLeave _ | .broadcast | .broadcastPop | .broadcastLeave _ | .wake _ | .ret _ => true
  | _ => false

def Pc.unlocks : Pc ι → Bool
  | .commitLeave | .await => true
  | _ => false

def Pc.locks : Pc ι → Bool
  | .ret _ => true
  | _ => false

/-- Where a party can be in the mutex while it is at a point of the condition variable. -/
def Coupled (p : Pc ι) (m : Mutex.Pc ι) (held : Bool) : Prop :=
  p = .out ∨ (m = .out ∧ (p.holds = true → held = true)) ∨ (p.unlocks = true ∧ m.unlocking = true) ∨
    (p.locks = true ∧ m.locking = true)

/-- A condition variable, the mutex of its users, and their wake tokens. -/
structure Sys (ι : Type*) where
  cond : State ι
  mutex : Mutex.State ι
  tokens : Tokens ι

inductive SysAct (ι : Type*)
  | cond (act : Act ι)
  | mutex (act : Mutex.Act ι)

/-- Calls are made by parties that are in no other call, with the mutex held. -/
def Sys.Allows [DecidableEq ι] (s : Sys ι) : Act ι → Prop
  | .call i _ | .signal i | .broadcast i => s.mutex.pc i = .out ∧ s.mutex.held i = true
  | .run i | .expire i => s.mutex.pc i = .out
  | .timer _ => True

section Step

variable [DecidableEq ι]

instance (s : Sys ι) (act : Act ι) : Decidable (s.Allows act) := by
  cases act <;> unfold Sys.Allows <;> infer_instance

/-- The call of the mutex that a step of the condition variable begins. -/
def MutexCall.acts : MutexCall → Act ι → Option (Mutex.Act ι)
  | .lock, .run i => some (.lock i)
  | .unlock, .run i => some (.unlock i)
  | _, _ => Option.none

def Sys.condStep (kind : ι → Kind) (s : Sys ι) (act : Act ι) : Option (Sys ι) :=
  (s.cond.step kind s.tokens act).bind fun (cond, tokens, call) =>
    match call.acts act with
    | some act => (s.mutex.step kind tokens act).map fun (mutex, tokens) => ⟨cond, mutex, tokens⟩
    | none => some ⟨cond, s.mutex, tokens⟩

/-- One step of the system. Users lock and unlock the mutex on their own between their calls. -/
def Sys.step (kind : ι → Kind) (s : Sys ι) : SysAct ι → Option (Sys ι)
  | .cond act => if s.Allows act then s.condStep kind act else none
  | .mutex (.run i) => (s.mutex.step kind s.tokens (.run i)).map fun (mutex, tokens) => ⟨s.cond, mutex, tokens⟩
  | .mutex act =>
    if s.cond.pc act.party = .out then
      (s.mutex.step kind s.tokens act).map fun (mutex, tokens) => ⟨s.cond, mutex, tokens⟩
    else none

end Step

def Sys.init : Sys ι := ⟨create, Mutex.create, fun _ => 0⟩

abbrev Sys.Reachable [DecidableEq ι] (kind : ι → Kind) : Sys ι → Prop :=
  Lib.Reach (Sys.step kind) (fun _ _ => True) Sys.init

section Move

variable [DecidableEq ι] {kind : ι → Kind} {s t : Sys ι}

/-- What a step of the system can be: one of the condition variable alone, one that begins a call of the mutex, or one
of the mutex alone. -/
inductive SysMove (kind : ι → Kind) (s : Sys ι) : Sys ι → Prop
  | cond {a cond tokens} : Move kind s.cond s.tokens a cond tokens .none →
      (∀ i, a = .inl i → s.mutex.pc i = .out ∧ (s.cond.pc i = .out → s.mutex.held i = true)) →
      SysMove kind s ⟨cond, s.mutex, tokens⟩
  | calls {i pc call mutex tokens} : Pc.Calls (s.cond.pc i) pc call → s.mutex.pc i = .out →
      Mutex.Move kind s.mutex s.tokens i mutex tokens →
      (call = .lock → (mutex.pc i).locking = true) → (call = .unlock → (mutex.pc i).unlocking = true) →
      SysMove kind s ⟨s.cond.goto i pc, mutex, tokens⟩
  | mutex {i mutex tokens} : Mutex.Move kind s.mutex s.tokens i mutex tokens →
      s.cond.pc i = .out ∨ s.mutex.pc i ≠ .out → SysMove kind s ⟨s.cond, mutex, tokens⟩

variable {act : Act ι} {i : ι}

/-- Only a call in progress begins a call of the mutex. -/
theorem State.step_call {σ σ' : State ι} {tokens tokens' : Tokens ι} {call : MutexCall}
    (step : σ.step kind tokens act = some (σ', tokens', call)) : call = .none ∨ ∃ i, act = .run i := by
  cases act with
  | run i => exact .inr ⟨i, rfl⟩
  | timer r =>
    obtain ⟨_, _, same⟩ := map_eq_some_iff.mp step
    cases same
    exact .inl rfl
  | call | signal | broadcast | expire =>
    cases (ite_none_right_eq_some.mp step).2
    exact .inl rfl

theorem Sys.Allows.party (allows : s.Allows act) (party : act.agent = .inl i) : s.mutex.pc i = .out := by
  cases act with
  | call | signal | broadcast => cases party; exact allows.1
  | run | expire => cases party; exact allows
  | timer => cases party

theorem Sys.Allows.held {moved : State ι × Tokens ι × MutexCall} (allows : s.Allows act)
    (party : act.agent = .inl i) (out : s.cond.pc i = .out) (step : s.cond.step kind s.tokens act = some moved) :
    s.mutex.held i = true := by
  cases act with
  | call | signal | broadcast => cases party; exact allows.2
  | timer => cases party
  | run =>
    cases party
    have stuck : s.cond.run kind s.tokens i = none := by
      unfold State.run
      rw [out]
    exact nomatch stuck.symm.trans step
  | expire =>
    cases party
    exact nomatch out.symm.trans (ite_none_right_eq_some.mp step).1.1

theorem Sys.condStep_move (allows : s.Allows act) (step : s.condStep kind act = some t) : SysMove kind s t := by
  obtain ⟨⟨cond, tokens, call⟩, moved, step⟩ := bind_eq_some_iff.mp step
  have move := State.step_move moved
  rcases State.step_call moved with rfl | ⟨i, rfl⟩
  · cases step
    exact .cond move fun i party => ⟨allows.party party, fun out => allows.held party out moved⟩
  · cases call with
    | none =>
      cases step
      exact .cond move fun i party => ⟨allows.party party, fun out => allows.held party out moved⟩
    | lock | unlock =>
      obtain ⟨⟨mutex, _⟩, locked, same⟩ := map_eq_some_iff.mp step
      cases same
      cases move with
      | calls calls =>
        refine .calls calls allows (step_move locked) (fun here => ?_) (fun here => ?_)
        all_goals cases here
        all_goals
          cases (ite_none_right_eq_some.mp locked).2
          rw [show pc _ i = _ from Function.update_self ..]
          rfl

theorem Sys.step_move {act : SysAct ι} (step : s.step kind act = some t) : SysMove kind s t := by
  cases act with
  | cond act =>
    obtain ⟨allows, step⟩ := ite_none_right_eq_some.mp step
    exact Sys.condStep_move allows step
  | mutex act =>
    cases act with
    | run i =>
      obtain ⟨_, moved, same⟩ := map_eq_some_iff.mp step
      cases same
      refine .mutex (i := i) (step_move moved) (.inr fun out => ?_)
      have stuck : s.mutex.run kind s.tokens i = none := by
        unfold run
        rw [out]
      exact nomatch stuck.symm.trans moved
    | lock i | trylock i | unlock i =>
      obtain ⟨out, step⟩ := ite_none_right_eq_some.mp step
      obtain ⟨_, moved, same⟩ := map_eq_some_iff.mp step
      cases same
      exact .mutex (step_move moved) (.inl out)

end Move

section Coupled

variable {p : Pc ι} {m : Mutex.Pc ι} {has : Bool}

theorem Coupled.outside (coupled : Coupled p .out has) (holds : p.holds = true) : has = true := by
  rcases coupled with rfl | ⟨_, here⟩ | ⟨_, inside⟩ | ⟨_, inside⟩
  · cases holds
  · exact here holds
  · cases inside
  · cases inside

theorem Coupled.has_lock (coupled : Coupled p m has) (holds : p.holds = true) (locks : p.locks = false) :
    has = true := by
  rcases coupled with rfl | ⟨_, here⟩ | ⟨unlocks, _⟩ | ⟨here, _⟩
  · cases holds
  · exact here holds
  · cases p <;> simp [Pc.holds, Pc.unlocks] at holds unlocks
  · exact absurd (locks.symm.trans here) (by decide)

theorem Coupled.out (coupled : Coupled p m has) (busy : p ≠ .out) (unlocks : p.unlocks = false)
    (locks : p.locks = false) : m = .out := by
  rcases coupled with out | ⟨out, _⟩ | ⟨here, _⟩ | ⟨here, _⟩
  · exact absurd out busy
  · exact out
  · exact absurd (unlocks.symm.trans here) (by decide)
  · exact absurd (locks.symm.trans here) (by decide)

theorem Coupled.registers (coupled : Coupled p m has) (registers : m.registers = true) :
    (Points.phase p).waiting = false := by
  rcases coupled with rfl | ⟨rfl, _⟩ | ⟨_, inside⟩ | ⟨here, _⟩
  · rfl
  · cases registers
  · cases m <;> simp [Mutex.Pc.registers, Mutex.Pc.unlocking] at registers inside
  · cases p <;> first | rfl | cases here

variable {kind : ι → Kind} {σ σ' : State ι} {tokens tokens' : Tokens ι} {a : ι ⊕ Record ι} {mutex : Mutex.State ι}
  {q : Pc ι} {call : Call}

theorem Pc.Enters.holds (enters : p.Enters q) : q.holds = p.holds := by cases enters <;> rfl

theorem Pc.Pushes.holds (pushes : Pc.Pushes call p q) : q.holds = p.holds := by
  cases pushes <;> rfl

theorem Pc.Leaves.holds (leaves : p.Leaves q) : q.holds = p.holds := by cases leaves <;> rfl

theorem Pc.Moves.holds {fired : Bool} (moves : Pc.Moves call fired p q)
    (holds : q.holds = true) : p.holds = true ∨ p = .out := by
  cases moves <;> first | exact .inl rfl | exact .inr rfl | cases holds

variable [DecidableEq ι]

/-- Where the parties are in the condition variable and in its mutex. -/
def State.Coupled (σ : State ι) (mutex : Mutex.State ι) : Prop :=
  ∀ i, Cond.Coupled (σ.pc i) (mutex.pc i) (mutex.held i)

theorem State.Coupled.goto {i : ι} (coupled : σ.Coupled mutex) (now : Cond.Coupled p (mutex.pc i) (mutex.held i)) :
    (σ.goto i p).Coupled mutex := by
  intro j
  rw [show (σ.goto i p).pc j = _ from σ.toFrame.goto_pc i j p]
  split
  · rename_i here; exact here ▸ now
  · exact coupled j

theorem Move.coupled (move : Move kind σ tokens a σ' tokens' .none) (coupled : σ.Coupled mutex)
    (outside : ∀ i, a = .inl i → mutex.pc i = .out ∧ (σ.pc i = .out → mutex.held i = true)) : σ'.Coupled mutex := by
  -- a party outside the mutex comes to hold it only at the start of a call
  have go : ∀ {τ : State ι} {i : ι} {p : Pc ι}, a = .inl i → τ.pc = σ.pc →
      (p.holds = true → (σ.pc i).holds = true ∨ σ.pc i = .out) → (τ.goto i p).Coupled mutex := by
    intro τ i p acts pc holds
    have same : τ.Coupled mutex := fun j => by rw [pc]; exact coupled j
    refine same.goto (.inr (.inl ⟨(outside i acts).1, fun here => ?_⟩))
    refine (holds here).elim (fun before => Coupled.outside ?_ before) (outside i acts).2
    exact (outside i acts).1 ▸ coupled i
  have ready : ∀ {τ : State ι} {r : Record ι}, τ.Coupled mutex → σ.pc r.1 = .parked →
      (τ.goto r.1 .resumed).Coupled mutex := fun same parked =>
    same.goto (.inr (.inl ⟨(parked ▸ coupled _ : Cond.Coupled .parked _ _).out nofun rfl rfl, nofun⟩))
  cases move with
  | begin at_ | poll at_ => exact go rfl rfl fun _ => .inr at_
  | enter enters | push enters | leave enters => exact go rfl rfl fun holds => .inl (enters.holds ▸ holds)
  | calls calls => cases at_ : σ.pc _ <;> rw [at_] at calls <;> cases calls
  | moves moves => exact go rfl rfl moves.holds
  | arm at_ | pop at_ | popAll at_ | ret at_ | wakeThrd at_ =>
    exact go rfl rfl fun _ => .inl (by rw [at_]; rfl)
  | hit | stop | await => exact go rfl rfl nofun
  | @wakeCoro i r rest at_ other parked =>
    exact ready (go rfl rfl fun _ => .inl (by rw [at_]; rfl)) parked
  | timer | timerThrd => exact coupled
  | @timerCoro r at_ parked => exact ready coupled parked

end Coupled

end Xylem.Sync.Cond
