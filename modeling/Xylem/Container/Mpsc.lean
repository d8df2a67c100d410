import Mathlib.Data.List.Nodup

namespace Xylem.Container.Mpsc

open List
open Function (update update_of_ne update_self)

variable (ν : Type*)

/-- `mpsc_t` over a type of nodes; `none` is the sentinel, and a node without successor has no `next`. -/
structure Queue where
  tail : Option ν
  head : Option ν
  next : Option ν → Option (Option ν)

/-- Where the consumer is in `mpsc_pop`. -/
inductive PopPc
  /-- Before the loads of `head` and `head->next`. -/
  | start
  /-- The sentinel has no successor: before the load of the tail. -/
  | empty
  /-- The sentinel was skipped: before the load of the new head's successor. -/
  | skipped
  /-- The head has no successor: before the load of the tail. -/
  | last
  /-- `mpsc_push` of the sentinel. -/
  | clear
  | push
  | link (prev : Option ν)
  /-- Before the load of the head's successor after the sentinel is back. -/
  | again
  deriving DecidableEq

/-- `mpsc_pop` goes on, or returns. -/
inductive PopStep
  | goto (pc : PopPc ν)
  | done (node : Option ν)

variable {ν : Type*}

def init : Queue ν := ⟨none, none, fun _ => none⟩

section Step

variable [DecidableEq ν] (q : Queue ν) (node : Option ν)

/-- The store of `node->next` in `mpsc_push`. -/
def Queue.clear : Queue ν := { q with next := Function.update q.next node none }

/-- The exchange of the tail in `mpsc_push`. -/
def Queue.exchange : Queue ν := { q with tail := node }

/-- The store of `prev->next` in `mpsc_push`. -/
def Queue.link (prev node : Option ν) : Queue ν := { q with next := Function.update q.next prev (some node) }

/-- The head is returned and its successor becomes the head. -/
def Queue.advance (next : Option ν) : Queue ν × PopStep ν := ({ q with head := next }, .done q.head)

/-- One step of `mpsc_pop`. Only the consumer writes `head`, so a load of it and the load that follows are one step. -/
def Queue.pop : PopPc ν → Queue ν × PopStep ν
  | .start =>
    match q.next q.head with
    | none => (q, .goto (if q.head = none then .empty else .last))
    | some next => if q.head = none then ({ q with head := next }, .goto .skipped) else q.advance next
  | .empty => (q, if q.head ≠ q.tail then .goto .start else .done none)
  | .skipped =>
    match q.next q.head with
    | none => (q, .goto .last)
    | some next => q.advance next
  | .last => (q, .goto (if q.head ≠ q.tail then .start else .clear))
  | .clear => (q.clear none, .goto .push)
  | .push => (q.exchange none, .goto (.link q.tail))
  | .link prev => (q.link prev none, .goto .again)
  | .again =>
    match q.next q.head with
    | none => (q, .goto .start)
    | some next => q.advance next

def Queue.canPop : Bool := !(q.head = none && q.next q.head = none)

end Step

def Adj : List ν → ν → ν → Prop
  | a :: b :: rest, x, y => x = a ∧ y = b ∨ Adj (b :: rest) x y
  | _, _, _ => False

variable {a b t : ν} {l : List ν}

theorem Adj.mem (adj : Adj l a b) : a ∈ l ∧ b ∈ l.tail := by
  induction l with
  | nil => exact adj.elim
  | cons c rest ih =>
    cases rest with
    | nil => exact adj.elim
    | cons d rest =>
      rcases adj with ⟨rfl, rfl⟩ | adj
      · exact ⟨mem_cons_self, mem_cons_self⟩
      · exact ⟨mem_cons_of_mem _ (ih adj).1, mem_cons_of_mem _ (ih adj).2⟩

theorem Adj.unique {c : ν} (nodup : l.Nodup) (first : Adj l a b) (second : Adj l a c) : b = c := by
  induction l with
  | nil => exact first.elim
  | cons d rest ih =>
    cases rest with
    | nil => exact first.elim
    | cons e rest =>
      have fresh := (nodup_cons.mp nodup).1
      rcases first with ⟨rfl, rfl⟩ | first <;> rcases second with ⟨same, rfl⟩ | second
      · rfl
      · exact absurd second.mem.1 fresh
      · exact absurd first.mem.1 (same ▸ fresh)
      · exact ih (nodup_cons.mp nodup).2 first second

theorem Adj.ne_last (nodup : l.Nodup) (last : l.getLast? = some t) (adj : Adj l a b) : a ≠ t := by
  induction l with
  | nil => exact adj.elim
  | cons c rest ih =>
    cases rest with
    | nil => exact adj.elim
    | cons d rest =>
      rw [List.getLast?_cons_cons] at last
      rcases adj with ⟨rfl, rfl⟩ | adj
      · exact fun same => (nodup_cons.mp nodup).1 (same ▸ List.mem_of_getLast? last)
      · exact ih (nodup_cons.mp nodup).2 last adj

theorem adj_concat {p : ν} (last : l.getLast? = some t) : Adj (l ++ [p]) a b ↔ Adj l a b ∨ a = t ∧ b = p := by
  induction l with
  | nil => cases last
  | cons c rest ih =>
    cases rest with
    | nil =>
      cases Option.some.inj last
      simp [Adj]
    | cons d rest =>
      have more := ih (by simpa using last)
      simp only [cons_append] at more ⊢
      simp only [Adj, more, or_assoc]

/-- The nodes from the head to the tail in the order in which they were pushed. Between two of them the link is there or
will be stored by one agent, the one whose exchange made them neighbours. -/
structure Chain {α : Type*} (q : Queue ν) (order : List (Option ν)) (pending : α → Option (Option ν × Option ν)) :
    Prop where
  head : order.head? = some q.head
  tail : order.getLast? = some q.tail
  nodup : order.Nodup
  linked : ∀ a b, Adj order a b → q.next a = some b ∨ q.next a = none ∧ ∃ agent, pending agent = some (a, b)
  last : q.next q.tail = none
  pend : ∀ agent a b, pending agent = some (a, b) → Adj order a b ∧ q.next a = none
  only : ∀ agent agent' a b b', pending agent = some (a, b) → pending agent' = some (a, b') → agent = agent'

section Chain

variable {α : Type*} {q : Queue ν} {order : List (Option ν)} {pending pending' : α → Option (Option ν × Option ν)}
  {node : Option ν}

theorem init_chain (quiet : ∀ a, pending a = none) : Chain (init : Queue ν) [none] pending where
  head := rfl
  tail := rfl
  nodup := nodup_singleton _
  linked _ _ adj := adj.elim
  last := rfl
  pend agent a b here := by simp [quiet] at here
  only agent agent' a b b' here := by simp [quiet] at here

section

variable (chain : Chain q order pending)
include chain

namespace Chain

theorem congr (same : ∀ a, pending' a = pending a) : Chain q order pending' :=
  funext same ▸ chain

theorem order_eq : ∃ rest, order = q.head :: rest := by
  obtain ⟨rest, same⟩ := List.head?_eq_some_iff.mp chain.head
  exact ⟨rest, same⟩

theorem next_head (next : q.next q.head = some node) : ∃ rest, order = q.head :: node :: rest := by
  obtain ⟨rest, same⟩ := chain.order_eq
  cases rest with
  | nil =>
    have tail := chain.tail
    rw [same] at tail
    have here : q.head = q.tail := Option.some.inj tail
    exact nomatch next.symm.trans ((congrArg q.next here).trans chain.last)
  | cons second rest =>
    rcases chain.linked q.head second (by rw [same]; exact Or.inl ⟨rfl, rfl⟩) with linked | ⟨unlinked, _⟩
    · rw [linked] at next
      exact ⟨rest, Option.some.inj next ▸ same⟩
    · rw [unlinked] at next
      cases next

theorem single (same : q.head = q.tail) : order = [q.head] := by
  obtain ⟨rest, eq⟩ := chain.order_eq
  cases rest with
  | nil => exact eq
  | cons second rest =>
    have tail := chain.tail
    have nodup := chain.nodup
    rw [eq, List.getLast?_cons_cons, ← same] at tail
    rw [eq] at nodup
    exact absurd (List.mem_of_getLast? tail) (nodup_cons.mp nodup).1

theorem no_next (next : q.next q.head = none) (other : q.head ≠ q.tail) :
    ∃ agent b, pending agent = some (q.head, b) := by
  obtain ⟨rest, eq⟩ := chain.order_eq
  cases rest with
  | nil =>
    have tail := chain.tail
    rw [eq] at tail
    exact absurd (Option.some.inj tail) other
  | cons second rest =>
    rcases chain.linked q.head second (by rw [eq]; exact Or.inl ⟨rfl, rfl⟩) with linked | ⟨_, agent, pend⟩
    · rw [linked] at next
      cases next
    · exact ⟨agent, second, pend⟩

theorem advance (next : q.next q.head = some node) :
    ∃ rest, order = q.head :: node :: rest ∧ Chain { q with head := node } (node :: rest) pending := by
  obtain ⟨rest, rfl⟩ := chain.next_head next
  refine ⟨rest, rfl, rfl, ?_, (nodup_cons.mp chain.nodup).2, fun a b adj => chain.linked a b (Or.inr adj), chain.last,
    fun agent a b here => ?_, chain.only⟩
  · rw [← chain.tail, List.getLast?_cons_cons]
  · obtain ⟨adj, unlinked⟩ := chain.pend agent a b here
    rcases adj with ⟨rfl, rfl⟩ | adj
    · rw [unlinked] at next
      cases next
    · exact ⟨adj, unlinked⟩

theorem clear [DecidableEq ν] (away : node ∉ order) : Chain (q.clear node) order pending := by
  have other : ∀ a ∈ order, (q.clear node).next a = q.next a := fun a here =>
    update_of_ne (fun same : a = node => away (same ▸ here)) _ _
  refine ⟨chain.head, chain.tail, chain.nodup, fun a b adj => ?_, ?_, fun agent a b here => ?_, chain.only⟩
  · rw [other a adj.mem.1]
    exact chain.linked a b adj
  · exact (other q.tail (List.mem_of_getLast? chain.tail)).trans chain.last
  · obtain ⟨adj, unlinked⟩ := chain.pend agent a b here
    exact ⟨adj, (other a adj.mem.1).trans unlinked⟩

end Chain

end

variable {agent : α}

section

variable (chain : Chain q order pending)
include chain

theorem Chain.exchange [DecidableEq α] (away : node ∉ order) (next : q.next node = none)
    (quiet : pending agent = none) (now : pending' agent = some (q.tail, node))
    (others : ∀ a, a ≠ agent → pending' a = pending a) : Chain (q.exchange node) (order ++ [node]) pending' := by
  have before : ∀ a b, pending' a = some b → a = agent ∧ b = (q.tail, node) ∨ a ≠ agent ∧ pending a = some b := by
    intro a b here
    by_cases same : a = agent
    · exact Or.inl ⟨same, Option.some.inj (here.symm.trans (same ▸ now))⟩
    · exact Or.inr ⟨same, (others a same).symm.trans here⟩
  refine ⟨?_, by simp [Queue.exchange], ?_, fun a b adj => ?_, next, fun a x y here => ?_, fun a a' x y y' one two => ?_⟩
  · rw [List.head?_append, chain.head]
    rfl
  · exact nodup_append.mpr ⟨chain.nodup, nodup_singleton _, fun x here y at_ same =>
      away (mem_singleton.mp at_ ▸ same ▸ here)⟩
  · rcases (adj_concat chain.tail).mp adj with adj | ⟨rfl, rfl⟩
    · refine (chain.linked a b adj).imp_right fun ⟨unlinked, a', here⟩ => ⟨unlinked, a', (others a' fun same => ?_).trans here⟩
      rw [same, quiet] at here
      cases here
    · exact Or.inr ⟨chain.last, agent, now⟩
  · rcases before a (x, y) here with ⟨_, same⟩ | ⟨_, here⟩
    · cases same
      exact ⟨(adj_concat chain.tail).mpr (Or.inr ⟨rfl, rfl⟩), chain.last⟩
    · obtain ⟨adj, unlinked⟩ := chain.pend a x y here
      exact ⟨(adj_concat chain.tail).mpr (Or.inl adj), unlinked⟩
  · have tail : ∀ a b, pending a = some (q.tail, b) → False := fun a b here =>
      (chain.pend a q.tail b here).1.ne_last chain.nodup chain.tail rfl
    rcases before a (x, y) one with ⟨rfl, same⟩ | ⟨_, one⟩ <;> rcases before a' (x, y') two with ⟨rfl, same'⟩ | ⟨_, two⟩
    · rfl
    · cases same
      exact (tail a' y' two).elim
    · cases same'
      exact (tail a y one).elim
    · exact chain.only a a' x y y' one two

theorem Chain.link [DecidableEq ν] {prev : Option ν} (here : pending agent = some (prev, node))
    (now : pending' agent = none) (others : ∀ a, a ≠ agent → pending' a = pending a) :
    Chain (q.link prev node) order pending' := by
  obtain ⟨adj, unlinked⟩ := chain.pend agent prev node here
  have before : ∀ a b, pending' a = some b → a ≠ agent ∧ pending a = some b := by
    intro a b there
    have other : a ≠ agent := fun same => by rw [same, now] at there; cases there
    exact ⟨other, (others a other).symm.trans there⟩
  refine ⟨chain.head, chain.tail, chain.nodup, fun a b near => ?_, ?_, fun a x y there => ?_,
    fun a a' x y y' one two => chain.only a a' x y y' (before a _ one).2 (before a' _ two).2⟩
  · by_cases same : a = prev
    · subst same
      exact Or.inl ((update_self ..).trans (congrArg some (adj.unique chain.nodup near)))
    · rw [show (q.link prev node).next a = q.next a from update_of_ne same _ _]
      refine (chain.linked a b near).imp_right fun ⟨free, a', there⟩ => ⟨free, a', (others a' fun own => ?_).trans there⟩
      rw [own, here] at there
      exact same (Prod.ext_iff.mp (Option.some.inj there)).1.symm
  · exact (update_of_ne (adj.ne_last chain.nodup chain.tail).symm _ _).trans chain.last
  · obtain ⟨other, there⟩ := before a _ there
    obtain ⟨near, free⟩ := chain.pend a x y there
    refine ⟨near, (update_of_ne (fun same => other ?_) _ _).trans free⟩
    exact chain.only a agent x y node there (same ▸ here)

/-- The link that the consumer has to store. -/
def PopPc.owes : PopPc ν → Option (Option ν × Option ν)
  | .link prev => some (prev, none)
  | _ => none

/-- What the consumer knows at each point of `mpsc_pop`. -/
def PopPc.Knows (q : Queue ν) (order : List (Option ν)) : PopPc ν → Prop
  | .start => True
  | .empty => q.head = none
  | .skipped | .last | .link _ | .again => q.head ≠ none
  | .clear => q.head ≠ none ∧ none ∉ order
  | .push => q.head ≠ none ∧ none ∉ order ∧ q.next none = none

def content (order : List (Option ν)) : List ν := order.filterMap id

theorem Chain.advances (busy : q.head ≠ none) (next : q.next q.head = some node)
    {q' : Queue ν} {n : Option ν} (moved : q.advance node = (q', .done n)) :
    ∃ m order', n = some m ∧ content order = m :: content order' ∧ Chain q' order' pending := by
  obtain ⟨rest, rfl, chain'⟩ := chain.advance next
  obtain ⟨m, head⟩ := Option.ne_none_iff_exists'.mp busy
  cases moved
  exact ⟨m, node :: rest, head, by rw [head]; rfl, chain'⟩

end

theorem content_append (order order' : List (Option ν)) : content (order ++ order') = content order ++ content order' :=
  filterMap_append

section Pop

variable [DecidableEq ν] {q' : Queue ν} {pc pc' : PopPc ν}

theorem Chain.pop_done {n : Option ν} (chain : Chain q order pending) (knows : pc.Knows q order)
    (step : q.pop pc = (q', .done n)) :
    pc.owes = none ∧ (n = none ∧ q' = q ∧ order = [none] ∨
      ∃ m order', n = some m ∧ content order = m :: content order' ∧ Chain q' order' pending) := by
  cases pc with
  | start =>
    refine ⟨rfl, Or.inr ?_⟩
    simp only [Queue.pop] at step
    split at step
    · cases step
    · rename_i next
      split at step
      · cases step
      · exact chain.advances ‹_› next step
  | empty =>
    refine ⟨rfl, Or.inl ?_⟩
    simp only [Queue.pop] at step
    split at step
    · cases step
    · rename_i same
      cases step
      have single := chain.single (not_not.mp same)
      have head : q.head = none := knows
      exact ⟨rfl, rfl, by rw [single, head]⟩
  | skipped | again =>
    refine ⟨rfl, Or.inr ?_⟩
    simp only [Queue.pop] at step
    split at step
    · cases step
    · rename_i next
      exact chain.advances knows next step
  | last | clear | push | link => cases step

theorem Chain.pop_goto [DecidableEq α] (chain : Chain q order pending) (knows : pc.Knows q order)
    (owes : pending agent = pc.owes) (step : q.pop pc = (q', .goto pc')) :
    ∃ order', content order' = content order ∧ pc'.Knows q' order' ∧
      Chain q' order' (update pending agent pc'.owes) := by
  have same : pc'.owes = none → pc.owes = none → update pending agent pc'.owes = pending := fun here before => by
    rw [here, ← before, ← owes, Function.update_eq_self]
  cases pc with
  | start =>
    simp only [Queue.pop] at step
    split at step
    · rename_i next
      cases step
      by_cases head : q.head = none
      · simp only [head, if_true] at same ⊢
        exact ⟨order, rfl, head, (same rfl rfl).symm ▸ chain⟩
      · simp only [head, if_false] at same ⊢
        exact ⟨order, rfl, head, (same rfl rfl).symm ▸ chain⟩
    · rename_i next
      split at step
      · rename_i head
        cases step
        obtain ⟨rest, rfl, moved⟩ := chain.advance next
        refine ⟨_, by rw [head]; rfl, fun none_ => ?_, (same rfl rfl).symm ▸ moved⟩
        have same : q.head = _ := head.trans none_.symm
        exact (nodup_cons.mp chain.nodup).1 (same ▸ mem_cons_self)
      · cases step
  | empty | again =>
    simp only [Queue.pop] at step
    split at step
    · cases step
      exact ⟨order, rfl, trivial, (same rfl rfl).symm ▸ chain⟩
    · cases step
  | skipped =>
    simp only [Queue.pop] at step
    split at step
    · cases step
      exact ⟨order, rfl, knows, (same rfl rfl).symm ▸ chain⟩
    · cases step
  | last =>
    simp only [Queue.pop] at step
    cases step
    by_cases tail : q.head = q.tail
    · simp only [tail, ne_eq, not_true_eq_false, if_false] at same ⊢
      refine ⟨order, rfl, ⟨knows, fun here => ?_⟩, (same rfl rfl).symm ▸ chain⟩
      rw [chain.single tail] at here
      exact knows (mem_singleton.mp here).symm
    · simp only [ne_eq, tail, not_false_eq_true, if_true] at same ⊢
      exact ⟨order, rfl, trivial, (same rfl rfl).symm ▸ chain⟩
  | clear =>
    cases step
    have cleared : (q.clear none).next none = none := by simp [Queue.clear]
    exact ⟨order, rfl, ⟨knows.1, knows.2, cleared⟩, (same rfl rfl).symm ▸ chain.clear knows.2⟩
  | push =>
    cases step
    refine ⟨order ++ [none], by rw [content_append]; exact append_nil _, knows.1, ?_⟩
    have now : update pending agent (some (q.tail, none)) agent = some (q.tail, none) := update_self ..
    exact chain.exchange knows.2.1 knows.2.2 owes now fun a other => update_of_ne other _ _
  | link prev =>
    cases step
    exact ⟨order, rfl, knows, chain.link owes (update_self ..) fun a other => update_of_ne other _ _⟩

variable {m : ν}

theorem Chain.pop_next {step' : PopStep ν} (chain : Chain q order pending)
    (owes : pending agent = pc.owes) (step : q.pop pc = (q', step')) (away : some m ∉ order) :
    q'.next (some m) = q.next (some m) := by
  cases pc with
  | clear =>
    cases step
    simp [Queue.clear]
  | link prev =>
    cases step
    refine update_of_ne (fun same => away ?_) _ _
    exact same ▸ (chain.pend agent prev none owes).1.mem.1
  | start =>
    simp only [Queue.pop] at step
    split at step
    · cases step; rfl
    · split at step <;> cases step <;> rfl
  | skipped | again =>
    simp only [Queue.pop] at step
    split at step <;> cases step <;> rfl
  | empty | last | push => cases step; rfl

theorem PopPc.Knows.clear (knows : pc.Knows q order) : pc.Knows (q.clear (some m)) order := by
  cases pc with
  | push => exact ⟨knows.1, knows.2.1, by simpa [Queue.clear] using knows.2.2⟩
  | _ => exact knows

omit [DecidableEq ν] in
theorem PopPc.Knows.exchange (knows : pc.Knows q order) : pc.Knows (q.exchange (some m)) (order ++ [some m]) := by
  cases pc with
  | clear => exact ⟨knows.1, by simpa using knows.2⟩
  | push => exact ⟨knows.1, by simpa using knows.2.1, knows.2.2⟩
  | _ => exact knows

theorem PopPc.Knows.link {prev : Option ν} (knows : pc.Knows q order)
    (chain : Chain q order pending) (here : pending agent = some (prev, node)) : pc.Knows (q.link prev node) order := by
  cases pc with
  | push =>
    refine ⟨knows.1, knows.2.1, (update_of_ne (fun same => ?_) _ _).trans knows.2.2⟩
    exact knows.2.1 (same ▸ (chain.pend agent prev node here).1.mem.1)
  | _ => exact knows

end Pop

end Chain

end Xylem.Container.Mpsc
