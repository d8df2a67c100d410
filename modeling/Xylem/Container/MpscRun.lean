import Mathlib.Data.Fintype.Defs
import Xylem.Container.Mpsc
import Xylem.Lib.Run

namespace Xylem.Container.Mpsc

open List Option
open Function (update_of_ne update_self)

/-- Where a producer is in `mpsc_push`. -/
inductive PushPc (ν : Type*)
  | out
  /-- Before the store of `node->next`. -/
  | clear (node : ν)
  | exchange (node : ν)
  /-- Before the store of `prev->next`. -/
  | link (prev : Option ν) (node : ν)
  deriving DecidableEq

/-- A queue with its producers and its consumer. The last two fields record the nodes in the order in which the tail was
exchanged for them, each with its producer, and the nodes that `mpsc_pop` returned. -/
structure Sys (ι ν : Type*) where
  queue : Queue ν
  pusher : ι → PushPc ν
  popper : Option (PopPc ν)
  exchanged : List (ι × ν)
  popped : List ν

inductive Act (ι ν : Type*)
  | push (i : ι) (node : ν)
  | run (i : ι)
  | pop
  | runPop

variable {ι ν : Type*}

/-- The node of a producer that has not exchanged the tail yet. -/
def PushPc.holds : PushPc ν → Option ν
  | .clear node | .exchange node => some node
  | _ => none

/-- The link that a producer has to store. -/
def PushPc.owes : PushPc ν → Option (Option ν × Option ν)
  | .link prev node => some (prev, some node)
  | _ => none

namespace Sys

def init : Sys ι ν := ⟨Mpsc.init, fun _ => .out, none, [], []⟩

variable (s : Sys ι ν)

/-- The nodes pushed so far, in the order of the exchanges. -/
def pushed : List ν := s.exchanged.map Prod.snd

/-- A node may be pushed if it is not in the queue and no other push has it. -/
def Fresh : Act ι ν → Prop
  | .push _ node => node ∉ s.pushed.drop s.popped.length ∧ ∀ j, (s.pusher j).holds ≠ some node
  | _ => True

instance [DecidableEq ν] [Fintype ι] (s : Sys ι ν) (act : Act ι ν) : Decidable (s.Fresh act) := by
  cases act <;> unfold Fresh <;> infer_instance

/-- The links that are still to be stored, by a producer or by the consumer. -/
def pending : Option ι → Option (Option ν × Option ν)
  | none => s.popper.bind PopPc.owes
  | some i => (s.pusher i).owes

variable [DecidableEq ι] [DecidableEq ν] (s : Sys ι ν) (i : ι)

def goto (pc : PushPc ν) : Sys ι ν := { s with pusher := Function.update s.pusher i pc }

/-- One step of `mpsc_push`. -/
def runPush : Option (Sys ι ν) :=
  match s.pusher i with
  | .out => none
  | .clear node => some ({ s with queue := s.queue.clear (some node) }.goto i (.exchange node))
  | .exchange node =>
    some ({ s with queue := s.queue.exchange (some node), exchanged := s.exchanged ++ [(i, node)] }.goto i
      (.link s.queue.tail node))
  | .link prev node => some ({ s with queue := s.queue.link prev (some node) }.goto i .out)

/-- One step of `mpsc_pop`. -/
def runPop : Option (Sys ι ν) :=
  s.popper.map fun pc =>
    match s.queue.pop pc with
    | (queue, .goto next) => { s with queue := queue, popper := some next }
    | (queue, .done node) => { s with queue := queue, popper := none, popped := s.popped ++ node.toList }

def step : Act ι ν → Option (Sys ι ν)
  | .push i node => if s.pusher i = .out then some (s.goto i (.clear node)) else none
  | .run i => s.runPush i
  | .pop => if s.popper = none then some { s with popper := some .start } else none
  | .runPop => s.runPop

abbrev Reachable : Sys ι ν → Prop := Lib.Reach step Fresh init

end Sys

theorem mem_content {order : List (Option ν)} {node : ν} : node ∈ content order ↔ some node ∈ order := by
  simp [content]

/-- The invariant of a queue and its users: the chain of nodes from head to tail, what the consumer knows, and that the
nodes which are about to be pushed are in no chain and in one push only. -/
structure Sys.Shape (s : Sys ι ν) (order : List (Option ν)) : Prop where
  chain : Chain s.queue order s.pending
  knows : ∀ pc ∈ s.popper, pc.Knows s.queue order
  log : s.pushed = s.popped ++ content order
  away : ∀ i node, (s.pusher i).holds = some node → some node ∉ order
  sole : ∀ i j node, (s.pusher i).holds = some node → (s.pusher j).holds = some node → i = j
  cleared : ∀ i node, s.pusher i = .exchange node → s.queue.next (some node) = none

theorem Sys.init_shape : (init : Sys ι ν).Shape [none] where
  chain := init_chain fun a => by cases a <;> rfl
  knows := nofun
  log := rfl
  away := nofun
  sole := nofun
  cleared := nofun

section Push

variable {s : Sys ι ν} {order : List (Option ν)} {i : ι} {node : ν} {pc : PushPc ν} {j : ι}

theorem Sys.Shape.unpopped (shape : s.Shape order) : s.pushed.drop s.popped.length = content order := by
  rw [shape.log, drop_left]

theorem Sys.Shape.ne_of_holds {m : ν} (shape : s.Shape order) (mine : (s.pusher i).holds = some node) (other : j ≠ i)
    (holds : (s.pusher j).holds = some m) : m ≠ node := fun same =>
  other (shape.sole j i m holds (same ▸ mine))

variable [DecidableEq ι]

theorem Sys.pending_goto (s : Sys ι ν) (i : ι) (pc : PushPc ν) (a : Option ι) :
    (s.goto i pc).pending a = if a = some i then pc.owes else s.pending a := by
  cases a with
  | none => rfl
  | some j => simp only [pending, goto, Function.update_apply, Option.some.injEq]; split <;> rfl

theorem Sys.pending_keep (same : pc.owes = (s.pusher i).owes) (a : Option ι) :
    (s.goto i pc).pending a = s.pending a := by
  rw [pending_goto]
  split
  · rename_i here
    rw [here, same]
    rfl
  · rfl

theorem Sys.holds_goto (holds : ((s.goto i pc).pusher j).holds = some node) :
    j = i ∧ pc.holds = some node ∨ j ≠ i ∧ (s.pusher j).holds = some node := by
  by_cases here : j = i
  · simp only [goto, here, update_self] at holds
    exact .inl ⟨here, holds⟩
  · simp only [goto, update_of_ne here] at holds
    exact .inr ⟨here, holds⟩

theorem Sys.at_goto (at_ : (s.goto i pc).pusher j = .exchange node) :
    j = i ∧ pc = .exchange node ∨ j ≠ i ∧ s.pusher j = .exchange node := by
  by_cases here : j = i
  · simp only [goto, here, update_self] at at_
    exact .inl ⟨here, at_⟩
  · simp only [goto, update_of_ne here] at at_
    exact .inr ⟨here, at_⟩

theorem Sys.Shape.begin (shape : s.Shape order) (at_ : s.pusher i = .out) (new : node ∉ content order)
    (free : ∀ j, (s.pusher j).holds ≠ some node) : (s.goto i (.clear node)).Shape order where
  chain := shape.chain.congr (Sys.pending_keep (by rw [at_]; rfl))
  knows := shape.knows
  log := shape.log
  away j m holds := by
    rcases holds_goto holds with ⟨_, same⟩ | ⟨_, holds⟩
    · cases same
      exact fun here => new (mem_content.mpr here)
    · exact shape.away j m holds
  sole j k m first second := by
    rcases holds_goto first with ⟨here, same⟩ | ⟨_, first⟩ <;>
      rcases holds_goto second with ⟨there, same'⟩ | ⟨_, second⟩
    · rw [here, there]
    · cases same
      exact absurd second (free k)
    · cases same'
      exact absurd first (free j)
    · exact shape.sole j k m first second
  cleared j m here := by
    rcases at_goto here with ⟨_, same⟩ | ⟨_, here⟩
    · cases same
    · exact shape.cleared j m here

/-- The exchange of the tail: from here on the node is in the queue. -/
theorem Sys.Shape.exchange (shape : s.Shape order) (at_ : s.pusher i = .exchange node) :
    ({ s with queue := s.queue.exchange (some node), exchanged := s.exchanged ++ [(i, node)] }.goto i
      (.link s.queue.tail node)).Shape (order ++ [some node]) where
  chain := by
    have away := shape.away i node (by rw [at_]; rfl)
    have quiet : s.pending (some i) = none := by simp only [pending, at_]; rfl
    refine shape.chain.exchange away (shape.cleared i node at_) quiet ?_ fun a other => ?_
    · rw [pending_goto, if_pos rfl]; rfl
    · rw [pending_goto, if_neg other]; rfl
  knows pc at_ := (shape.knows pc at_).exchange
  log := by
    have log := shape.log
    simp only [pushed] at log
    simp only [goto, pushed, map_append, log, content_append, append_assoc]
    rfl
  away j m holds := by
    rcases holds_goto holds with ⟨_, same⟩ | ⟨other, holds⟩
    · cases same
    · have ne := shape.ne_of_holds (by rw [at_]; rfl) other holds
      simpa [ne] using shape.away j m holds
  sole j k m first second := by
    rcases holds_goto first with ⟨_, same⟩ | ⟨_, first⟩
    · cases same
    · rcases holds_goto second with ⟨_, same⟩ | ⟨_, second⟩
      · cases same
      · exact shape.sole j k m first second
  cleared j m here := by
    rcases at_goto here with ⟨_, same⟩ | ⟨_, here⟩
    · cases same
    · exact shape.cleared j m here

variable [DecidableEq ν]

theorem Sys.Shape.clear (shape : s.Shape order) (at_ : s.pusher i = .clear node) :
    ({ s with queue := s.queue.clear (some node) }.goto i (.exchange node)).Shape order where
  chain := by
    have away := shape.away i node (by rw [at_]; rfl)
    exact (shape.chain.clear away).congr (Sys.pending_keep (by simp only [at_]; rfl))
  knows pc at_ := (shape.knows pc at_).clear
  log := shape.log
  away j m holds := by
    rcases holds_goto holds with ⟨_, same⟩ | ⟨_, holds⟩
    · cases same
      exact shape.away i node (by rw [at_]; rfl)
    · exact shape.away j m holds
  sole j k m first second := by
    have before : ∀ j, (({ s with queue := s.queue.clear (some node) }.goto i (.exchange node)).pusher j).holds =
        some m → (s.pusher j).holds = some m := fun j holds => by
      rcases holds_goto holds with ⟨rfl, same⟩ | ⟨_, holds⟩
      · rw [at_]; exact same
      · exact holds
    exact shape.sole j k m (before j first) (before k second)
  cleared j m here := by
    rcases at_goto here with ⟨_, same⟩ | ⟨other, here⟩
    · cases same
      exact update_self ..
    · have holds : (s.pusher j).holds = some m := congrArg PushPc.holds here
      have ne := shape.ne_of_holds (by rw [at_]; rfl) other holds
      exact (update_of_ne (fun same => ne (Option.some.inj same)) _ _).trans (shape.cleared j m here)

theorem Sys.Shape.link {prev : Option ν} (shape : s.Shape order) (at_ : s.pusher i = .link prev node) :
    ({ s with queue := s.queue.link prev (some node) }.goto i .out).Shape order := by
  have here : s.pending (some i) = some (prev, some node) := by simp only [pending, at_]; rfl
  have inside : prev ∈ order := (shape.chain.pend _ _ _ here).1.mem.1
  have before : ∀ j m, (({ s with queue := s.queue.link prev (some node) }.goto i .out).pusher j).holds = some m →
      (s.pusher j).holds = some m := fun j m holds => by
    rcases holds_goto holds with ⟨_, same⟩ | ⟨_, holds⟩
    · cases same
    · exact holds
  refine ⟨shape.chain.link here ?_ fun a other => ?_, fun pc at_ => (shape.knows pc at_).link shape.chain here,
    shape.log, fun j m holds => shape.away j m (before j m holds),
    fun j k m first second => shape.sole j k m (before j m first) (before k m second), fun j m at_ => ?_⟩
  · rw [pending_goto, if_pos rfl]; rfl
  · rw [pending_goto, if_neg other]; rfl
  · rcases at_goto at_ with ⟨_, same⟩ | ⟨_, at_⟩
    · cases same
    · have away := shape.away j m (congrArg PushPc.holds at_)
      have other : some m ≠ prev := fun same => away (same ▸ inside)
      exact (update_of_ne other _ _).trans (shape.cleared j m at_)

end Push

section Pop

variable [DecidableEq ι] [DecidableEq ν] {s t : Sys ι ν} {order : List (Option ν)} {pc : PopPc ν}

omit [DecidableEq ι] [DecidableEq ν] in
theorem Sys.Shape.pop (shape : s.Shape order) (idle : s.popper = none) :
    Sys.Shape { s with popper := some .start } order where
  chain := shape.chain.congr fun a => by
    cases a with
    | none => simp only [pending, idle]; rfl
    | some i => rfl
  knows pc here := by cases here; trivial
  log := shape.log
  away := shape.away
  sole := shape.sole
  cleared := shape.cleared

variable {q : Queue ν} {node : Option ν}

namespace Sys.Shape

omit [DecidableEq ι] in
theorem pop_cleared {after : PopStep ν} (shape : s.Shape order) (at_ : s.popper = some pc)
    (moved : s.queue.pop pc = (q, after)) (i : ι) (node : ν) (here : s.pusher i = .exchange node) :
    q.next (some node) = none := by
  have owes : s.pending none = pc.owes := by simp only [pending, at_, bind_some]
  exact (shape.chain.pop_next owes moved (shape.away i node (by rw [here]; rfl))).trans (shape.cleared i node here)

theorem popGoto {pc' : PopPc ν} (shape : s.Shape order) (at_ : s.popper = some pc)
    (moved : s.queue.pop pc = (q, .goto pc')) :
    ∃ order', Sys.Shape { s with queue := q, popper := some pc' } order' := by
  have owes : s.pending none = pc.owes := by simp only [pending, at_, bind_some]
  obtain ⟨order', same, knows, chain⟩ := shape.chain.pop_goto (shape.knows pc at_) owes moved
  exact ⟨order', {
    chain := chain.congr fun a => by
      cases a with
      | none => exact (update_self none pc'.owes s.pending).symm
      | some i => exact (update_of_ne (some_ne_none i) _ _).symm
    knows := fun p here => by cases here; exact knows
    log := by rw [same]; exact shape.log
    away := fun i node holds here => shape.away i node holds (by rwa [← mem_content, ← same, mem_content])
    sole := shape.sole
    cleared := shape.pop_cleared at_ moved }⟩

omit [DecidableEq ι] in
theorem popDone (shape : s.Shape order) (at_ : s.popper = some pc) (moved : s.queue.pop pc = (q, .done node)) :
    ∃ order', Sys.Shape { s with queue := q, popper := none, popped := s.popped ++ node.toList } order' := by
  have owes : s.pending none = pc.owes := by simp only [pending, at_, bind_some]
  obtain ⟨free, ended⟩ := shape.chain.pop_done (shape.knows pc at_) moved
  have quiet : ∀ a, Sys.pending { s with queue := q, popper := none, popped := s.popped ++ node.toList } a =
      s.pending a := fun a => by
    cases a with
    | none => exact (owes.trans free).symm
    | some i => rfl
  rcases ended with ⟨rfl, rfl, _⟩ | ⟨m, order', rfl, rest, chain⟩
  · have log : s.pushed = s.popped ++ [] ++ content order := by rw [append_nil]; exact shape.log
    exact ⟨order, shape.chain.congr quiet, nofun, log, shape.away, shape.sole, shape.cleared⟩
  · have log : s.pushed = s.popped ++ [m] ++ content order' := by rw [shape.log, rest, append_assoc]; rfl
    refine ⟨order', chain.congr quiet, nofun, log, fun i node holds here => ?_, shape.sole, shape.pop_cleared at_ moved⟩
    refine shape.away i node holds (mem_content.mp ?_)
    rw [rest]
    exact mem_cons_of_mem _ (mem_content.mpr here)

theorem runPop (shape : s.Shape order) (step : s.runPop = some t) : ∃ order', t.Shape order' := by
  obtain ⟨pc, at_, same⟩ := map_eq_some_iff.mp step
  split at same
  · rename_i moved
    exact same ▸ shape.popGoto at_ moved
  · rename_i moved
    exact same ▸ shape.popDone at_ moved

theorem step {act : Act ι ν} (shape : s.Shape order) (fresh : s.Fresh act) (step : s.step act = some t) :
    ∃ order', t.Shape order' := by
  cases act with
  | push i node =>
    obtain ⟨at_, same⟩ := ite_none_right_eq_some.mp step
    cases same
    exact ⟨order, shape.begin at_ (shape.unpopped ▸ fresh.1) fresh.2⟩
  | run i =>
    cases at_ : s.pusher i with
    | out =>
      simp only [Sys.step, runPush, at_] at step
      cases step
    | clear node =>
      simp only [Sys.step, runPush, at_] at step
      cases step
      exact ⟨order, shape.clear at_⟩
    | exchange node =>
      simp only [Sys.step, runPush, at_] at step
      cases step
      exact ⟨_, shape.exchange at_⟩
    | link prev node =>
      simp only [Sys.step, runPush, at_] at step
      cases step
      exact ⟨order, shape.link at_⟩
  | pop =>
    obtain ⟨idle, same⟩ := ite_none_right_eq_some.mp step
    cases same
    exact ⟨order, shape.pop idle⟩
  | runPop => exact shape.runPop step

end Sys.Shape

theorem Sys.Reachable.shape (run : Sys.Reachable s) : ∃ order, s.Shape order := by
  induction run with
  | start => exact ⟨_, Sys.init_shape⟩
  | next _ fresh step ih =>
    obtain ⟨_, shape⟩ := ih
    exact shape.step fresh step

/-- `mpsc_pop` never returns the sentinel: it returns NULL from its test for an empty queue only, and else a node. -/
theorem PopPc.Knows.done_iff {q q' : Queue ν} (knows : pc.Knows q order) (step : q.pop pc = (q', .done node)) :
    node = none ↔ pc = .empty := by
  cases pc with
  | start =>
    simp only [Queue.pop] at step
    split at step
    · cases step
    · split at step
      · cases step
      · cases step
        exact iff_of_false ‹_› (by simp)
  | empty =>
    simp only [Queue.pop] at step
    split at step
    · cases step
    · cases step
      exact iff_of_true rfl rfl
  | skipped | again =>
    simp only [Queue.pop] at step
    split at step
    · cases step
    · cases step
      exact iff_of_false knows (by simp)
  | last | clear | push | link => cases step

omit [DecidableEq ι] in
/-- With nobody at work, the queue can be popped exactly if it has a node. -/
theorem Sys.Shape.canPop_iff (shape : s.Shape order) (quiet : ∀ a, s.pending a = none) :
    s.queue.canPop = true ↔ content order ≠ [] := by
  obtain ⟨rest, eq⟩ := shape.chain.order_eq
  cases head : s.queue.head with
  | some node =>
    refine iff_of_true (by simp [Queue.canPop, head]) ?_
    rw [eq, head]
    exact cons_ne_nil _ _
  | none =>
    cases next : s.queue.next s.queue.head with
    | none =>
      have same : s.queue.head = s.queue.tail := by
        by_contra other
        obtain ⟨agent, b, owed⟩ := shape.chain.no_next next other
        exact nomatch (quiet agent).symm.trans owed
      refine iff_of_false (by rw [head] at next; simp [Queue.canPop, head, next]) ?_
      rw [shape.chain.single same, head]
      exact not_not.mpr rfl
    | some second =>
      obtain ⟨rest, eq⟩ := shape.chain.next_head next
      refine iff_of_true (by rw [head] at next; simp [Queue.canPop, head, next]) ?_
      have nodup := shape.chain.nodup
      rw [eq, head] at nodup
      cases second with
      | none => exact absurd mem_cons_self (nodup_cons.mp nodup).1
      | some node =>
        rw [eq, head]
        exact cons_ne_nil _ _

/-- Whatever the interleaving, the nodes returned so far are the first of those pushed, in the order of the exchanges,
and the rest forms a chain without repetition, into which the sentinel is pushed only while it is not there. `mpsc_pop`
returns NULL only from a state in which every pushed node has been returned, and else a node, never the sentinel. With
no call in progress `mpsc_can_pop` tells whether a pushed node is left. -/
theorem mpsc_pops_in_exchange_order (run : Sys.Reachable s) :
    (∃ order, Chain s.queue order s.pending ∧ s.pushed = s.popped ++ content order ∧
      (s.popper = some .clear ∨ s.popper = some .push → none ∉ order)) ∧
      (∀ pc q node, s.popper = some pc → s.queue.pop pc = (q, .done node) →
        (node = none ↔ pc = .empty) ∧ (node = none → s.popped = s.pushed)) ∧
      ((∀ i, s.pusher i = .out) → s.popper = none → (s.queue.canPop = true ↔ s.popped ≠ s.pushed)) := by
  obtain ⟨order, shape⟩ := run.shape
  refine ⟨⟨order, shape.chain, shape.log, ?_⟩, fun pc q node at_ moved => ?_, fun idle out => ?_⟩
  · rintro (at_ | at_)
    · exact (shape.knows _ at_).2
    · exact (shape.knows _ at_).2.1
  · have knows := shape.knows pc at_
    refine ⟨knows.done_iff moved, fun none_ => ?_⟩
    obtain ⟨_, ⟨_, _, single⟩ | ⟨m, _, some_, _⟩⟩ := shape.chain.pop_done knows moved
    · rw [shape.log, single]
      exact (List.append_nil _).symm
    · exact nomatch none_.symm.trans some_
  · have quiet : ∀ a, s.pending a = none := fun a => by
      cases a with
      | none => simp only [Sys.pending, out, Option.bind_none]
      | some i => simp only [Sys.pending, idle i]; rfl
    rw [shape.canPop_iff quiet, shape.log]
    simp

/-- A pusher is between its exchange and its link while the consumer takes the node before it. -/
theorem mpsc_pops_in_exchange_order_gap : ∃ s : Sys Bool Nat, Sys.Reachable s ∧ s.pusher true = .link (some 7) 8 ∧
    s.popper = some .last ∧ ∃ order, s.pushed = s.popped ++ content order ∧ order.Nodup := by
  obtain ⟨s, run, gap, at_⟩ : ∃ s : Sys Bool Nat, Sys.Reachable s ∧ s.pusher true = .link (some 7) 8 ∧
      s.popper = some .last :=
    Lib.exists_reach [Act.push false 7, .run false, .run false, .run false, .push true 8, .run true, .run true,
      .pop, .runPop, .runPop] (by decide +kernel)
  obtain ⟨⟨order, chain, log, _⟩, _⟩ := mpsc_pops_in_exchange_order run
  exact ⟨s, run, gap, at_, order, log, chain.nodup⟩

end Pop

end Xylem.Container.Mpsc
