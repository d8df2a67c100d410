import Xylem.Lib.Flag
import Xylem.Lib.Tally
import Xylem.Sync.ChannelMove

namespace Xylem.Sync.Channel

open Container List Function State

variable {ι : Type*}

/-- What a party is doing with the queue of a channel. -/
inductive Role (ι : Type*)
  | away
  /-- A sender that is counted and has not pushed yet. -/
  | clear
  | push
  | link (prev : Option (Msg ι))
  | pop (at_ : Mpsc.PopPc (Msg ι))
  | took (m : Msg ι)
  /-- The receiver outside of `_channel_try_take`, with the payload it will return. -/
  | recv (payload : Option (Msg ι))

def Role.ofPop : Mpsc.PopPc (Msg ι) → Role ι
  | .start => .recv none
  | at_ => .pop at_

def Pc.role : Pc ι → Role ι
  | .out | .send | .sendCount | .sendTransition | .sendWake _ | .close | .closeWake _ | .aborted => .away
  | .sendClear => .clear
  | .sendPush => .push
  | .sendLink prev => .link prev
  | .pop at_ => .ofPop at_
  | .took m => .took m
  | .stop payload | .ret payload => .recv payload
  | _ => .recv none

/-- The part of a channel that carries its messages. -/
structure Line (ι : Type*) where
  queue : Mpsc.Queue (Msg ι)
  receiving : Bool
  count : Nat
  role : ι → Role ι
  sends : ι → Nat
  sent : List (Msg ι)
  received : List (Msg ι)

def State.line (σ : State ι) : Line ι where
  queue := σ.queue
  receiving := σ.receiving
  count := σ.count
  role i := (σ.pc i).role
  sends := σ.sends
  sent := σ.sent
  received := σ.received

section Step

variable {kind : ι → Kind} {σ σ' : State ι} {tokens tokens' : Tokens ι} {agent : ι ⊕ Record ι} {p : Pc ι}
  {r : Record ι} {p' : Pc ι} {call : Call}

theorem State.Goes.role {k : Kind} (goes : σ.Goes k r p p') :
    p'.role = p.role ∨ p.role = .recv none ∧ p' = .aborted := by
  cases goes with
  | busy => exact .inr ⟨rfl, rfl⟩
  | _ => exact .inl rfl

theorem Pc.Swaps.role {w w' : Word ι} (swaps : Pc.Swaps r p w w' p') : p'.role = p.role := by
  cases swaps <;> rfl

theorem Misses.role (misses : Misses call p) : p.role = .recv none := by cases misses <;> rfl

theorem Ends.role {payload : Option (Msg ι)} (ends : Ends call payload p) :
    p.role = .recv payload := by cases ends <;> rfl

variable [DecidableEq ι] (L : Line ι)

/-- What a step of the channel does to its messages. -/
inductive Line.Step : Line ι → Prop
  | count {i} : L.role i = .away → Step { L with count := L.count + 1, role := Function.update L.role i .clear }
  | clear {i} : L.role i = .clear →
      Step { L with queue := L.queue.clear (some (i, L.sends i + 1)), role := Function.update L.role i .push }
  | push {i} : L.role i = .push → Step { L with
        queue := L.queue.exchange (some (i, L.sends i + 1))
        role := Function.update L.role i (.link L.queue.tail)
        sends := Function.update L.sends i (L.sends i + 1)
        sent := L.sent ++ [(i, L.sends i + 1)] }
  | link {i prev} : L.role i = .link prev →
      Step { L with queue := L.queue.link prev (some (i, L.sends i)), role := Function.update L.role i .away }
  | pop {i at_ queue next} : L.role i = .ofPop at_ → L.queue.pop at_ = (queue, .goto next) →
      Step { L with queue := queue, role := Function.update L.role i (.ofPop next) }
  | popped {i at_ queue m} : L.role i = .ofPop at_ → L.queue.pop at_ = (queue, .done (some m)) →
      Step { L with queue := queue, role := Function.update L.role i (.took m) }
  | missed {i at_ queue} : L.role i = .ofPop at_ → L.queue.pop at_ = (queue, .done none) →
      Step { L with queue := queue, role := Function.update L.role i (.recv none) }
  | took {i m} : L.role i = .took m →
      Step { L with count := L.count - 1, role := Function.update L.role i (.recv (some m)) }
  | begin {i} : L.role i = .away → L.receiving = false →
      Step { L with receiving := true, role := Function.update L.role i (.recv none) }
  | ret {i payload} : L.role i = .recv payload → Step { L with
        receiving := false
        role := Function.update L.role i .away
        received := L.received ++ payload.toList }
  | abort {i} : L.role i = .recv none → Step { L with role := Function.update L.role i .away }

theorem State.line_update (σ : State ι) (i : ι) (p : Pc ι) :
    (σ.goto i p).line = { σ.line with role := update σ.line.role i p.role } :=
  congrArg (fun role => { σ.line with role := role })
    (funext fun j => apply_update (fun _ => Pc.role) σ.pc i p j)

theorem State.line_goto {i : ι} (same : p.role = (σ.pc i).role) : (σ.goto i p).line = σ.line := by
  rw [line_update, same]
  exact congrArg (fun role => { σ.line with role := role }) (update_eq_self i _)

theorem Move.line (move : Move kind σ tokens agent σ' tokens') : σ'.line = σ.line ∨ σ.line.Step σ'.line := by
  have role : ∀ {i p}, σ.pc i = p → σ.line.role i = p.role := fun at_ => congrArg Pc.role at_
  cases move with
  | send at_ | sendOpen at_ | sendClosed at_ | close at_ | shutTwice at_ =>
    exact .inl (line_goto (by rw [at_]; rfl))
  | transition at_ | take at_ | shut at_ | shutTake at_ =>
    exact .inl (line_goto (by rw [show σ.pc _ = _ from at_]; rfl))
  | goes step =>
    rcases step.role with same | ⟨recv, rfl⟩
    · exact .inl (line_goto same)
    · rw [line_update]
      exact .inr (.abort recv)
  | swaps step => exact .inl (line_goto step.role)
  | await at_ | wakeThrd at_ => exact .inl (line_goto (by rcases at_ with at_ | at_ <;> rw [at_] <;> rfl))
  | stop at_ =>
    refine .inl ((line_goto ?_).trans ?_)
    · unfold State.timerStop
      split <;> rw [show σ.pc _ = _ from at_] <;> rfl
    · unfold State.timerStop
      split <;> rfl
  | wakeCoro at_ other parked =>
    refine .inl ((line_goto ?_).trans (line_goto ?_))
    · simp only [State.goto, update_of_ne other, parked]
      rfl
    · rcases at_ with at_ | at_ <;> rw [at_] <;> rfl
  | fire | timerTransition | timerTake | timerThrd => exact .inl rfl
  | timerCoro _ parked =>
    exact .inl (line_goto (by rw [show σ.pc _ = _ from parked]; rfl))
  | count at_ =>
    rw [line_update]
    exact .inr (.count (role at_))
  | clear at_ =>
    rw [line_update]
    exact .inr (.clear (role at_))
  | push at_ =>
    rw [line_update]
    exact .inr (.push (role at_))
  | link at_ =>
    rw [line_update]
    exact .inr (.link (role at_))
  | recv at_ free =>
    rw [channelRecv, line_update]
    exact .inr (.begin (role at_) free)
  | pop at_ step =>
    rw [line_update]
    exact .inr (.pop (role at_) step)
  | popped at_ step =>
    rw [line_update]
    exact .inr (.popped (role at_) step)
  | missed at_ step misses =>
    rw [line_update, misses.role]
    exact .inr (.missed (role at_) step)
  | took at_ ends =>
    rw [line_update, ends.role]
    exact .inr (.took (role at_))
  | ret at_ =>
    rw [line_update]
    exact .inr (.ret (role at_))

end Step

/-- The link a party has to store; `m` is its last message. -/
def Role.owes (m : Msg ι) : Role ι → Option (Option (Msg ι) × Option (Msg ι))
  | .link prev => some (prev, some m)
  | .pop at_ => at_.owes
  | _ => none

/-- What a party knows about the queue; `m` is its next message. -/
def Role.Knows (queue : Mpsc.Queue (Msg ι)) (order : List (Option (Msg ι))) (m : Msg ι) : Role ι → Prop
  | .push => queue.next (some m) = none
  | .pop at_ => at_.Knows queue order
  | _ => True

/-- The message a receiver has popped and not returned. -/
def Role.holds : Role ι → Option (Msg ι)
  | .took m => some m
  | .recv payload => payload
  | _ => none

def Role.receiving : Role ι → Bool
  | .pop _ | .took _ | .recv _ => true
  | _ => false

/-- The parties whose message is counted but not in the queue. -/
def Role.counted : Role ι → Bool
  | .clear | .push | .took _ => true
  | _ => false

variable (at_ : Mpsc.PopPc (Msg ι))

@[simp] theorem ofPop_owes (m : Msg ι) : (Role.ofPop at_).owes m = at_.owes := by
  cases at_ <;> rfl

@[simp] theorem ofPop_knows (queue : Mpsc.Queue (Msg ι)) (order : List (Option (Msg ι))) (at_ : Mpsc.PopPc (Msg ι))
    (m : Msg ι) : (Role.ofPop at_).Knows queue order m ↔ at_.Knows queue order := by
  cases at_ <;> rfl

@[simp] theorem ofPop_receiving : (Role.ofPop at_).receiving = true := by cases at_ <;> rfl

@[simp] theorem ofPop_holds : (Role.ofPop at_).holds = none := by cases at_ <;> rfl

@[simp] theorem ofPop_counted : (Role.ofPop at_).counted = false := by cases at_ <;> rfl

/-- There is one receiver at a time, and it holds the messages that are neither in the queue nor returned. -/
structure Held (receiving : Bool) (role : ι → Role ι) (taken : List (Msg ι)) : Prop where
  alone : Lib.Flag receiving fun i => (role i).receiving = true
  holds : ∀ i, (role i).receiving = true → taken = (role i).holds.toList
  idle : (∀ i, (role i).receiving = false) → taken = []

section Held

variable [DecidableEq ι] {receiving : Bool} {role : ι → Role ι} {taken : List (Msg ι)} {i : ι} {r : Role ι}

section

variable (held : Held receiving role taken)
include held

theorem Held.goto (same : r.receiving = (role i).receiving)
    (payload : r.holds = (role i).holds) : Held receiving (update role i r) taken where
  alone := held.alone.goto same
  holds j here := by
    by_cases own : j = i
    · subst own
      rw [update_self] at here ⊢
      rw [payload]
      exact held.holds j (same ▸ here)
    · rw [update_of_ne own] at here ⊢
      exact held.holds j here
  idle nobody := held.idle fun j => by
    by_cases own : j = i
    · subst own
      simpa [same] using nobody j
    · simpa [own] using nobody j

theorem Held.replace (here : (role i).receiving = true) (stays : r.receiving = true) :
    taken = (role i).holds.toList ∧ Held receiving (update role i r) r.holds.toList := by
  refine ⟨held.holds i here, held.alone.goto (stays.trans here.symm), fun j there => ?_, fun nobody => ?_⟩
  · by_cases own : j = i
    · rw [own, update_self]
    · rw [update_of_ne own] at there
      exact absurd (held.alone.unique j i there here) own
  · have := nobody i
    simp [stays] at this

theorem Held.enter (free : receiving = false) (nothing : r.holds = none) : Held true (update role i r) taken := by
  have empty : taken = [] := held.idle fun j => Bool.eq_false_iff.mpr (held.alone.empty free j)
  refine ⟨held.alone.goto_enter free, fun j here => ?_, fun _ => empty⟩
  by_cases own : j = i
  · rw [own, update_self, nothing, empty]
    rfl
  · rw [update_of_ne own] at here
    exact absurd here (held.alone.empty free j)

end

theorem Held.leave (receiving' : Bool) (held : Held receiving role taken) (here : (role i).receiving = true)
    (out : r.receiving = false) :
    taken = (role i).holds.toList ∧ Held receiving' (update role i r) [] := by
  refine ⟨held.holds i here, held.alone.goto_leave here out, fun j there => ?_, fun _ => rfl⟩
  by_cases own : j = i
  · simp [own, out] at there
  · rw [update_of_ne own] at there
    exact absurd (held.alone.unique j i there here) own

end Held

/-- The messages in the order of their pushes: those returned, the one a receiver holds, and those in the queue. -/
structure Line.Inv [DecidableEq ι] (L : Line ι) (order : List (Option (Msg ι))) (taken : List (Msg ι)) : Prop where
  chain : Mpsc.Chain L.queue order fun i => (L.role i).owes (i, L.sends i)
  knows : ∀ i, (L.role i).Knows L.queue order (i, L.sends i + 1)
  sent : L.sent = L.received ++ taken ++ Mpsc.content order
  nodup : L.sent.Nodup
  own : ∀ i, (L.sent.filter (·.1 = i)).map (·.2) = List.range' 1 (L.sends i)
  held : Held L.receiving L.role taken
  counts : ∃ n, Lib.Tally (fun i => (L.role i).counted = true) n ∧ L.count = n + (Mpsc.content order).length

section Inv

variable [DecidableEq ι] {L L' : Line ι} {order : List (Option (Msg ι))} {taken : List (Msg ι)} {i : ι} {r : Role ι}

theorem Line.Inv.fresh (inv : L.Inv order taken) (i : ι) : (i, L.sends i + 1) ∉ L.sent := by
  intro here
  have mem : L.sends i + 1 ∈ (L.sent.filter (·.1 = i)).map (·.2) :=
    mem_map.mpr ⟨_, mem_filter.mpr ⟨here, by simp⟩, rfl⟩
  rw [inv.own i, mem_range'_1] at mem
  omega

theorem Line.Inv.not_queued (inv : L.Inv order taken) (i : ι) : some (i, L.sends i + 1) ∉ order := fun here =>
  inv.fresh i (by simp [inv.sent, Mpsc.content, here])

variable {role : ι → Role ι} {queue : Mpsc.Queue (Msg ι)} {n : Nat}
  {sends : ι → Nat}

theorem chain_goto (chain : Mpsc.Chain queue order fun j => (role j).owes (j, sends j))
    (same : r.owes (i, sends i) = (role i).owes (i, sends i)) :
    Mpsc.Chain queue order fun j => (update role i r j).owes (j, sends j) :=
  chain.congr fun j => by
    by_cases own : j = i
    · rw [own, update_self, same]
    · rw [update_of_ne own]

theorem knows_goto {sends' : ι → Nat} {queue' : Mpsc.Queue (Msg ι)}
    {order' : List (Option (Msg ι))} (knows : ∀ j, (role j).Knows queue order (j, sends j + 1))
    (now : r.Knows queue' order' (i, sends' i + 1))
    (others : ∀ j, j ≠ i → (role j).Knows queue order (j, sends j + 1) → (role j).Knows queue' order' (j, sends' j + 1)) :
    ∀ j, (update role i r j).Knows queue' order' (j, sends' j + 1) := by
  intro j
  by_cases own : j = i
  · rw [own, update_self]
    exact now
  · rw [update_of_ne own]
    exact others j own (knows j)

section

variable (tally : Lib.Tally (fun j => (role j).counted = true) n)
include tally

theorem counted_goto (same : r.counted = (role i).counted) :
    Lib.Tally (fun j => (update role i r j).counted = true) n :=
  tally.congr fun j => by
    by_cases own : j = i
    · rw [own, update_self, same]
    · rw [update_of_ne own]

theorem counted_leave (here : (role i).counted = true) (out : r.counted = false) :
    Lib.Tally (fun j => (update role i r j).counted = true) (n - 1) ∧ 0 < n :=
  tally.leave here fun j => by
    by_cases own : j = i
    · simp [own, out]
    · simp [own]

theorem counted_enter (out : (role i).counted = false) (here : r.counted = true) :
    Lib.Tally (fun j => (update role i r j).counted = true) (n + 1) :=
  tally.enter (a := i) (by simp [out]) fun j => by
    by_cases own : j = i
    · simp [own, here]
    · simp [own]

end

section

variable (inv : L.Inv order taken)
include inv

theorem Line.Inv.push (at_ : L.role i = .push) : Line.Inv { L with
      queue := L.queue.exchange (some (i, L.sends i + 1))
      role := update L.role i (.link L.queue.tail)
      sends := update L.sends i (L.sends i + 1)
      sent := L.sent ++ [(i, L.sends i + 1)] } (order ++ [some (i, L.sends i + 1)]) taken where
  chain := by
    have cleared : L.queue.next (some (i, L.sends i + 1)) = none := by
      have here := inv.knows i
      rwa [at_] at here
    refine inv.chain.exchange (inv.not_queued i) cleared (?_ : (L.role i).owes _ = none) ?_ fun j other => ?_
    · rw [at_]; rfl
    · simp [Role.owes]
    · simp [other]
  knows := knows_goto inv.knows trivial fun j other known => by
    show (L.role j).Knows _ _ (j, update L.sends i (L.sends i + 1) j + 1)
    rw [update_of_ne other]
    cases role : L.role j with
    | push => rw [role] at known; exact known
    | pop at_ => rw [role] at known; exact known.exchange
    | _ => trivial
  sent := by
    rw [inv.sent, Mpsc.content_append]
    simp [Mpsc.content]
  nodup := nodup_append.mpr ⟨inv.nodup, nodup_singleton _, fun m here m' there same =>
    inv.fresh i (mem_singleton.mp there ▸ same ▸ here)⟩
  own j := by
    rw [filter_append, map_append, inv.own]
    by_cases own : j = i
    · subst own
      simp [List.range'_1_concat, Nat.add_comm 1]
    · simp [own, Ne.symm own]
  held := inv.held.goto (by rw [at_]; rfl) (by rw [at_]; rfl)
  counts := by
    obtain ⟨n, tally, count⟩ := inv.counts
    obtain ⟨tally', pos⟩ := counted_leave (r := .link L.queue.tail) tally (by rw [at_]; rfl) rfl
    refine ⟨n - 1, tally', ?_⟩
    rw [show L.count = _ from count, Mpsc.content_append]
    simp [Mpsc.content]
    omega

theorem Line.Inv.link {prev : Option (Msg ι)} (at_ : L.role i = .link prev) :
    Line.Inv { L with queue := L.queue.link prev (some (i, L.sends i)), role := update L.role i .away }
      order taken := by
  have owes : (L.role i).owes (i, L.sends i) = some (prev, some (i, L.sends i)) := by rw [at_]; rfl
  exact {
    inv with
    chain := inv.chain.link owes (by simp [Role.owes]) fun j other => by simp [other]
    knows := knows_goto inv.knows trivial fun j other known => by
      cases role : L.role j with
      | push =>
        rw [role] at known
        -- the link is stored in a node of the queue, and the next message of another sender is none
        refine (update_of_ne (fun same => inv.not_queued j ?_) _ _).trans known
        exact same ▸ (inv.chain.pend i _ _ owes).1.mem.1
      | pop at_ =>
        rw [role] at known
        exact known.link inv.chain owes
      | _ => trivial
    held := inv.held.goto (by rw [at_]; rfl) (by rw [at_]; rfl)
    counts := by
      obtain ⟨n, tally, count⟩ := inv.counts
      exact ⟨n, counted_goto tally (by rw [at_]; rfl), count⟩ }

theorem Line.Inv.clear (at_ : L.role i = .clear) :
    Line.Inv { L with queue := L.queue.clear (some (i, L.sends i + 1)), role := update L.role i .push }
      order taken :=
  { inv with
    chain := (chain_goto inv.chain (by rw [at_]; rfl)).clear (inv.not_queued i)
    knows := knows_goto inv.knows (by simp [Role.Knows, Mpsc.Queue.clear]) fun j other known => by
      cases role : L.role j with
      | push =>
        rw [role] at known
        exact (update_of_ne (by simp [other]) _ _).trans known
      | pop at_ =>
        rw [role] at known
        exact known.clear
      | _ => trivial
    held := inv.held.goto (by rw [at_]; rfl) (by rw [at_]; rfl)
    counts := by
      obtain ⟨n, tally, count⟩ := inv.counts
      exact ⟨n, counted_goto tally (by rw [at_]; rfl), count⟩ }

theorem Line.Inv.knows_pop {at_ : Mpsc.PopPc (Msg ι)} {step : Mpsc.PopStep (Msg ι)} {order' : List (Option (Msg ι))} (here : L.role i = .ofPop at_) (popped : L.queue.pop at_ = (queue, step))
    (now : r.Knows queue order' (i, L.sends i + 1)) :
    ∀ j, (update L.role i r j).Knows queue order' (j, L.sends j + 1) :=
  knows_goto inv.knows now fun j other known => by
    cases role : L.role j with
    | push =>
      rw [role] at known
      have owes : (L.role i).owes (i, L.sends i) = at_.owes := by rw [here, ofPop_owes]
      exact (inv.chain.pop_next owes popped (inv.not_queued j)).trans known
    | pop at_ => exact absurd (inv.held.alone.unique j i (by rw [role]; rfl) (by simp [here])) other
    | _ => trivial

end

theorem Line.Step.inv (step : L.Step L') (inv : L.Inv order taken) : ∃ order' taken', L'.Inv order' taken' := by
  cases step with
  | @count i at_ =>
    refine ⟨order, taken, { inv with
      chain := chain_goto inv.chain (by rw [at_]; rfl)
      knows := knows_goto inv.knows trivial fun _ _ => id
      held := inv.held.goto (by rw [at_]; rfl) (by rw [at_]; rfl)
      counts := ?_ }⟩
    obtain ⟨n, tally, count⟩ := inv.counts
    exact ⟨n + 1, counted_enter tally (by rw [at_]; rfl) rfl, by show L.count + 1 = _; omega⟩
  | clear at_ => exact ⟨order, taken, inv.clear at_⟩
  | push at_ => exact ⟨_, taken, inv.push at_⟩
  | link at_ => exact ⟨order, taken, inv.link at_⟩
  | @pop i at_ queue next here popped =>
    have owes : (L.role i).owes (i, L.sends i) = at_.owes := by rw [here, ofPop_owes]
    obtain ⟨order', same, knows, chain⟩ := inv.chain.pop_goto ((ofPop_knows ..).mp (here ▸ inv.knows i)) owes popped
    refine ⟨order', taken, { inv with
      chain := chain.congr fun j => ?_
      knows := inv.knows_pop here popped ((ofPop_knows ..).mpr knows)
      sent := same ▸ inv.sent
      held := inv.held.goto (by simp [here]) (by simp [here])
      counts := ?_ }⟩
    · by_cases own : j = i
      · simp [own]
      · simp [own]
    · obtain ⟨n, tally, count⟩ := inv.counts
      exact ⟨n, counted_goto tally (by simp [here]), same ▸ count⟩
  | @popped i at_ queue m here popped =>
    obtain ⟨owes, ⟨none_, -⟩ | ⟨m', order', same, content, chain⟩⟩ :=
      inv.chain.pop_done ((ofPop_knows ..).mp (here ▸ inv.knows i)) popped
    · cases none_
    cases same
    obtain ⟨empty, held⟩ := inv.held.replace (r := .took m) (i := i) (by simp [here]) rfl
    have nothing : taken = [] := by simpa [here] using empty
    refine ⟨order', [m], { inv with
      chain := chain_goto chain (by rw [here, ofPop_owes, owes]; rfl)
      knows := inv.knows_pop here popped trivial
      sent := ?_
      held := held
      counts := ?_ }⟩
    · rw [show L.sent = _ from inv.sent, content, nothing]
      simp
    · obtain ⟨n, tally, count⟩ := inv.counts
      refine ⟨n + 1, counted_enter tally (by simp [here]) rfl, ?_⟩
      rw [show L.count = _ from count, content, length_cons]
      omega
  | @missed i at_ queue here popped =>
    obtain ⟨owes, ⟨-, rfl, -⟩ | ⟨m', order', same, -⟩⟩ :=
      inv.chain.pop_done ((ofPop_knows ..).mp (here ▸ inv.knows i)) popped
    · refine ⟨order, taken, { inv with
        chain := chain_goto inv.chain (by rw [here, ofPop_owes, owes]; rfl)
        knows := inv.knows_pop here popped trivial
        held := inv.held.goto (by rw [here, ofPop_receiving]; rfl) (by rw [here, ofPop_holds]; rfl)
        counts := ?_ }⟩
      obtain ⟨n, tally, count⟩ := inv.counts
      exact ⟨n, counted_goto tally (by rw [here, ofPop_counted]; rfl), count⟩
    · cases same
  | @took i m at_ =>
    refine ⟨order, taken, { inv with
      chain := chain_goto inv.chain (by rw [at_]; rfl)
      knows := knows_goto inv.knows trivial fun _ _ => id
      held := inv.held.goto (by rw [at_]; rfl) (by rw [at_]; rfl)
      counts := ?_ }⟩
    obtain ⟨n, tally, count⟩ := inv.counts
    obtain ⟨tally', pos⟩ := counted_leave (r := .recv (some m)) tally (by rw [at_]; rfl) rfl
    exact ⟨n - 1, tally', by show L.count - 1 = _; omega⟩
  | @begin i at_ free =>
    refine ⟨order, taken, { inv with
      chain := chain_goto inv.chain (by rw [at_]; rfl)
      knows := knows_goto inv.knows trivial fun _ _ => id
      held := inv.held.enter free rfl
      counts := ?_ }⟩
    obtain ⟨n, tally, count⟩ := inv.counts
    exact ⟨n, counted_goto tally (by rw [at_]; rfl), count⟩
  | ret at_ | abort at_ =>
    obtain ⟨same, held⟩ := inv.held.leave _ (r := .away) (by rw [at_]; rfl) rfl
    refine ⟨order, [], { inv with
      chain := chain_goto inv.chain (by rw [at_]; rfl)
      knows := knows_goto inv.knows trivial fun _ _ => id
      sent := ?_
      held := held
      counts := ?_ }⟩
    · rw [show L.sent = _ from inv.sent, same, at_]
      simp [Role.holds]
    · obtain ⟨n, tally, count⟩ := inv.counts
      exact ⟨n, counted_goto tally (by rw [at_]; rfl), count⟩

end Inv

end Xylem.Sync.Channel
