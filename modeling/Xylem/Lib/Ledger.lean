import Mathlib.Data.List.Nodup

namespace Xylem.Lib

open List
open Function (update)

/-- Where the registration of a waiter is: nowhere, in the queue, in the hands of an agent that will signal it, or
turned into a token that its owner has not taken yet. -/
inductive Place (α : Type*)
  | none
  | queue
  | hand (agent : α)
  | token

variable {ρ α : Type*}

/-- Every waiting registration is in exactly one place, and nothing else is in any. -/
structure Ledger (queue : List ρ) (hand : α → ρ → Prop) (token : ρ → Nat) (waits : ρ → Prop)
    (place : ρ → Place α) : Prop where
  nodup : queue.Nodup
  queued : ∀ r, r ∈ queue ↔ place r = .queue
  handed : ∀ a r, hand a r ↔ place r = .hand a
  waiting : ∀ r, waits r ↔ place r ≠ .none
  spent : ∀ r, waits r → place r ≠ .token → token r = 0
  given : ∀ r, place r = .token → token r = 1

variable {queue queue' : List ρ} {hand hand' : α → ρ → Prop} {token token' : ρ → Nat} {waits waits' : ρ → Prop}
  {place : ρ → Place α}

section Move

variable [DecidableEq ρ]

theorem Ledger.move (ledger : Ledger queue hand token waits place) (r : ρ) (next : Place α) (nodup : queue'.Nodup)
    (inQueue : r ∈ queue' ↔ next = .queue) (queues : ∀ s, s ≠ r → (s ∈ queue' ↔ s ∈ queue))
    (inHand : ∀ a, hand' a r ↔ next = .hand a) (hands : ∀ a s, s ≠ r → (hand' a s ↔ hand a s))
    (now : waits' r ↔ next ≠ .none) (others : ∀ s, s ≠ r → (waits' s ↔ waits s))
    (spent : next ≠ .none → next ≠ .token → token' r = 0) (given : next = .token → token' r = 1)
    (tokens : ∀ s, s ≠ r → waits s → token' s = token s) :
    Ledger queue' hand' token' waits' (update place r next) := by
  have same : ∀ s, s ≠ r → update place r next s = place s := fun s other =>
    Function.update_of_ne other _ _
  refine ⟨nodup, fun s => ?_, fun a s => ?_, fun s => ?_, fun s here away => ?_, fun s here => ?_⟩
    <;> by_cases at_ : s = r
  · subst at_; simpa using inQueue
  · rw [same s at_, queues s at_]; exact ledger.queued s
  · subst at_; simpa using inHand a
  · rw [same s at_, hands a s at_]; exact ledger.handed a s
  · subst at_; simpa using now
  · rw [same s at_, others s at_]; exact ledger.waiting s
  · subst at_
    exact spent (now.mp here) (by simpa using away)
  · rw [same s at_] at away
    have was := (others s at_).mp here
    rw [tokens s at_ was]
    exact ledger.spent s was away
  · subst at_; exact given (by simpa using here)
  · rw [same s at_] at here
    have was := (ledger.waiting s).mpr (by simp [here])
    rw [tokens s at_ was]
    exact ledger.given s here

variable {r : ρ} {a : α}

section

variable (ledger : Ledger queue hand token waits place)
include ledger

theorem Ledger.enqueue (away : ¬ waits r) (none_ : token r = 0)
    (hands : ∀ b s, hand' b s ↔ hand b s) (waiting : ∀ s, waits' s ↔ s = r ∨ waits s) :
    Ledger (queue ++ [r]) hand' token waits' (update place r .queue) := by
  have nowhere : place r = .none := by_contra fun here => away ((ledger.waiting r).mpr here)
  have absent : r ∉ queue := fun here => nomatch nowhere.symm.trans ((ledger.queued r).mp here)
  refine ledger.move r .queue (ledger.nodup.append (nodup_singleton r) (by simpa using absent)) (by simp)
    (fun s other => by simp [other]) (fun a => ?_) (fun a s _ => hands a s) (by simp [waiting])
    (fun s other => by simp [waiting, other]) (fun _ _ => none_) nofun (fun _ _ _ => rfl)
  rw [hands, ledger.handed, nowhere]
  simp

theorem Ledger.take (here : r ∈ queue) (sub : queue'.Sublist queue)
    (queues : ∀ s, s ∈ queue' ↔ s ∈ queue ∧ s ≠ r) (hands : ∀ b s, hand' b s ↔ b = a ∧ s = r ∨ hand b s)
    (waiting : ∀ s, waits' s ↔ waits s) :
    Ledger queue' hand' token waits' (update place r (.hand a)) := by
  have at_ : place r = .queue := (ledger.queued r).mp here
  have was : waits r := (ledger.waiting r).mpr (by simp [at_])
  refine ledger.move r (.hand a) (ledger.nodup.sublist sub) (by simp [queues]) (fun s other => by simp [queues, other])
    (fun b => ?_) (fun b s other => by simp [hands, other]) (by simp [waiting, was]) (fun s _ => waiting s)
    (fun _ _ => ledger.spent r was (by simp [at_])) nofun (fun _ _ _ => rfl)
  rw [hands, ledger.handed, at_]
  simp [eq_comm]

theorem Ledger.takeAll (hands : ∀ b s, hand' b s ↔ b = a ∧ s ∈ queue ∨ hand b s) (waiting : ∀ s, waits' s ↔ waits s) :
    Ledger [] hand' token waits' (fun r => if r ∈ queue then .hand a else place r) where
  nodup := nodup_nil
  queued r := by
    have stays := ledger.queued r
    by_cases here : r ∈ queue <;> simp_all
  handed b r := by
    have queued := ledger.queued r
    have handed := ledger.handed b r
    by_cases here : r ∈ queue
    · simp_all [eq_comm]
    · simp_all
  waiting r := by
    have queued := ledger.queued r
    have stays := ledger.waiting r
    by_cases here : r ∈ queue <;> simp_all
  spent r here away := by
    have queued := ledger.queued r
    refine ledger.spent r ((waiting r).mp here) fun given => ?_
    by_cases there : r ∈ queue <;> simp_all
  given r here := by
    by_cases there : r ∈ queue
    · simp [there] at here
    · exact ledger.given r (by simpa [there] using here)

section

variable (here : hand a r) (hands : ∀ b s, hand' b s ↔ hand b s ∧ ¬ (b = a ∧ s = r))
include here hands

theorem Ledger.signal (waiting : ∀ s, waits' s ↔ waits s)
    (more : token' r = token r + 1) (tokens : ∀ s, s ≠ r → waits s → token' s = token s) :
    Ledger queue hand' token' waits' (update place r .token) := by
  have at_ : place r = .hand a := (ledger.handed a r).mp here
  have was : waits r := (ledger.waiting r).mpr (by simp [at_])
  have zero : token r = 0 := ledger.spent r was (by simp [at_])
  exact ledger.move r .token ledger.nodup (by simp [ledger.queued, at_]) (fun _ _ => .rfl)
    (fun b => by simp [hands, ledger.handed, at_, eq_comm]) (fun b s other => by simp [hands, other])
    (by simp [waiting, was]) (fun s _ => waiting s) (fun _ away => absurd rfl away) (fun _ => by rw [more, zero]) tokens

theorem Ledger.ready (waiting : ∀ s, waits' s ↔ waits s ∧ s ≠ r) :
    Ledger queue hand' token waits' (update place r .none) := by
  have at_ : place r = .hand a := (ledger.handed a r).mp here
  exact ledger.move r .none ledger.nodup (by simp [ledger.queued, at_]) (fun _ _ => .rfl)
    (fun b => by simp [hands, ledger.handed, at_, eq_comm]) (fun b s other => by simp [hands, other])
    (by simp [waiting]) (fun s other => by simp [waiting, other]) (fun away => absurd rfl away) nofun (fun _ _ _ => rfl)

end

theorem Ledger.consume (was : waits r) (some_ : 0 < token r)
    (hands : ∀ b s, hand' b s ↔ hand b s) (waiting : ∀ s, waits' s ↔ waits s ∧ s ≠ r)
    (tokens : ∀ s, s ≠ r → waits s → token' s = token s) :
    Ledger queue hand' token' waits' (update place r .none) := by
  have at_ : place r = .token := by_contra fun away => Nat.pos_iff_ne_zero.mp some_ (ledger.spent r was away)
  exact ledger.move r .none ledger.nodup (by simp [ledger.queued, at_]) (fun _ _ => .rfl)
    (fun b => by simp [hands, ledger.handed, at_]) (fun b s other => hands b s)
    (by simp [waiting]) (fun s other => by simp [waiting, other]) (fun away => absurd rfl away) nofun tokens

theorem Ledger.cancel (here : r ∈ queue) (sub : queue'.Sublist queue)
    (queues : ∀ s, s ∈ queue' ↔ s ∈ queue ∧ s ≠ r) (hands : ∀ b s, hand' b s ↔ hand b s)
    (waiting : ∀ s, waits' s ↔ waits s ∧ s ≠ r) :
    Ledger queue' hand' token waits' (update place r .none) := by
  have at_ : place r = .queue := (ledger.queued r).mp here
  exact ledger.move r .none (ledger.nodup.sublist sub) (by simp [queues]) (fun s other => by simp [queues, other])
    (fun b => by simp [hands, ledger.handed, at_]) (fun b s other => hands b s)
    (by simp [waiting]) (fun s other => by simp [waiting, other]) (fun away => absurd rfl away) nofun (fun _ _ _ => rfl)

end

end Move

theorem Ledger.empty (idle : ∀ a r, ¬ hand a r) (nobody : ∀ r, ¬ waits r) :
    Ledger [] hand token waits fun _ => .none where
  nodup := nodup_nil
  queued := by simp
  handed a r := by simp [idle]
  waiting r := by simp [nobody]
  spent r here := absurd here (nobody r)
  given := nofun

theorem Ledger.keep (ledger : Ledger queue hand token waits place) (hands : ∀ a r, hand' a r ↔ hand a r)
    (others : ∀ r, waits' r ↔ waits r) (tokens : ∀ r, waits r → token' r = token r) :
    Ledger queue hand' token' waits' place where
  nodup := ledger.nodup
  queued := ledger.queued
  handed a r := (hands a r).trans (ledger.handed a r)
  waiting r := (others r).trans (ledger.waiting r)
  spent r here away := (tokens r ((others r).mp here)).trans (ledger.spent r ((others r).mp here) away)
  given r here := (tokens r ((ledger.waiting r).mpr (by simp [here]))).trans (ledger.given r here)

end Xylem.Lib
