import Xylem.Mux.FlowControl

namespace Xylem.Mux

open WritePc List Bool UInt32 Event FrameWrite Slot

/-- Bytes of a frame that the writer has decided on and not yet sent. -/
def WritePc.planned : WritePc → Nat
  | .frame _ fw => if fw.pc.sent then 0 else fw.frame.data.length
  | _ => 0

/-- Bytes of the frame whose header the writer is about to hand to the transport. -/
def WritePc.sending : WritePc → Nat
  | .frame _ fw => if fw.pc = .hdr then fw.frame.data.length else 0
  | _ => 0

/-- An accepted stream starts with its own window and gets the opener's on top of it with the SYN. Its writer stays
within what the peer advertised when no frame it sends eats into that second window. -/
def Slot.WithinGrant (slot : Slot) : Prop :=
  slot.op = .accepted → slot.wr.sending ≤ (slot.s.sendWindow - UInt32.ofNat (grantOf slot.rx)).toNat

instance (slot : Slot) : Decidable slot.WithinGrant := inferInstanceAs (Decidable (_ → _))

def SpendsGranted : Guard
  | ends, ρ, .runWrite r _ => ((ends ρ).slots r).WithinGrant
  | _, _, _ => True

instance (ends : Role → Session) (ρ : Role) (act : Act) : Decidable (SpendsGranted ends ρ act) := by
  induction act using Act.casesOn <;> unfold SpendsGranted <;> infer_instance

variable (window : UInt32) (slot : Slot)

/-- What a stream has spent, and what it has announced, without 32-bit wrap-around. -/
structure Slot.Budget : Prop where
  spent : (dataOf (eventsOf slot.tx)).length + (if slot.op = .accepted then 0 else slot.wr.planned) ≤
    window.toNat + creditOf slot.rx
  announced : creditOf (eventsOf slot.tx) + slot.rd.owed.toNat ≤ slot.delivered.length

structure Slot.Bounds : Prop where
  returned : creditOf slot.rx ≤ (dataOf (eventsOf slot.tx)).length
  outstanding : (dataOf slot.rx).length ≤ window.toNat + creditOf (eventsOf slot.tx)
  ungranted : slot.op ≠ .accepted → grantOf slot.rx = 0

theorem toNat_of_balance {x : UInt32} {d n : Nat} (balance : x + UInt32.ofNat d = UInt32.ofNat n) (le : d ≤ n)
    (small : n - d < 2 ^ 32) : x.toNat = n - d := by
  have split : UInt32.ofNat n = UInt32.ofNat (n - d) + UInt32.ofNat d := by
    rw [← ofNat_add, Nat.sub_add_cancel le]
  rw [split] at balance
  rw [add_right_cancel balance]
  exact toNat_ofNat_of_lt' small

theorem FrameWrite.sends_at_hdr {fw fw' : FrameWrite} {free ok : Bool} {eff : Effect}
    (moved : fw.step free ok = some (fw', eff)) (some : eff.frames ≠ []) : fw.pc = .hdr := by
  unfold step at moved
  split at moved <;> first
    | assumption
    | (split at moved <;> cases moved <;> exact absurd rfl some)
    | (cases moved; exact absurd rfl some)
    | cases moved

section Slots

variable {window : UInt32} {free ok : Bool} {slot slot' : Slot} {eff : Effect}

/-- The send window, less what the SYN granted, is what the peer's receive window has room for. -/
theorem Slot.Budget.room (budget : slot.Budget window) (led : slot.Ledger window) (bounds : slot.Bounds window)
    (settled : slot.wr.pending = 0) : (slot.s.sendWindow - UInt32.ofNat (grantOf slot.rx)).toNat =
      window.toNat + creditOf slot.rx - (dataOf (eventsOf slot.tx)).length := by
  have send := led.send
  have spent := budget.spent
  have returned := bounds.returned
  have bound := window.toNat_lt
  rw [settled] at send
  refine toNat_of_balance ?_ (by omega) (by omega)
  rw [ofNat_add, UInt32.ofNat_toNat]
  have zero : UInt32.ofNat 0 = 0 := rfl
  grind only

theorem Slot.Budget.sendPlain (budget : slot.Budget window) {frame : Frame} {event : Event}
    (events : frame.events = [event]) (plain : event.payload = [] ∧ event.increment = 0) :
    Slot.Budget window { slot with tx := slot.tx ++ [frame] } where
  spent := by simpa [events, plain.1] using budget.spent
  announced := by simpa [events, plain.2] using budget.announced

theorem OpenMove.budget (budget : slot.Budget window) (sound : slot.Sound window)
    (move : OpenMove free ok slot slot' eff) : slot'.Budget window := by
  have spent := budget.spent
  cases move with
  | @frame fw fw' eff at_ step =>
    have history := sound.shape.history
    rw [at_] at history
    obtain ⟨_, _, ⟨none, _⟩ | ⟨one, _, _⟩⟩ := step_sends step
    · simp only [none, append_nil]
      exact { budget with spent := by simpa [at_] using spent }
    · cases history with
      | opening syn _ _ =>
        rw [one, syn]
        exact { budget.sendPlain (events_syn slot.s.id window) ⟨rfl, rfl⟩ with
          spent := by simpa [at_, payload] using spent }
  | @unlock fw sent at_ pc => cases sent <;> exact { budget with spent := by simpa [at_] using spent }
  | abandon at_ => exact { budget with spent := by simpa [at_, unref] using spent }

theorem ReadMove.budget (budget : slot.Budget window) (sound : slot.Sound window) (bounds : slot.Bounds window)
    (move : ReadMove window free ok slot slot' eff) : slot'.Budget window := by
  have announced := budget.announced
  cases move with
  | @take len bytes rest at_ split gap =>
    refine { budget with announced := ?_ }
    simp only [at_, ReadPc.owed, UInt32.toNat_zero, length_append] at announced ⊢
    omega
  | @announce len bytes rest delta at_ split booked =>
    refine { budget with announced := ?_ }
    have recv := sound.ledger.recv
    have input := congrArg List.length sound.ledger.input
    have outstanding := bounds.outstanding
    have bound := window.toNat_lt
    rw [split] at input
    simp only [at_, ReadPc.owed, UInt32.toNat_zero, length_append] at announced recv input
    have counts : UInt32.ofNat (dataOf slot.rx).length =
        UInt32.ofNat (slot.delivered.length + bytes.length) + UInt32.ofNat rest.length := by
      rw [← ofNat_add, ← input]
      congr 1
      omega
    have exact_ : delta.toNat = slot.delivered.length + bytes.length - creditOf (eventsOf slot.tx) := by
      refine toNat_of_balance ?_ (by omega) (by omega)
      rw [booked, Stream.unannounced]
      grind only
    simp only [ReadPc.owed, FramePc.sent, windowUpdateHdr, false_eq_true, if_false, length_append, exact_]
    omega
  | @frame n fw fw' eff at_ step =>
    obtain ⟨delta, update⟩ := sound.shape.rdFrame n fw at_
    obtain ⟨same, _, ⟨none, sent⟩ | ⟨one, before, after⟩⟩ := step_sends step
    · simp only [none, append_nil]
      exact { budget with announced := by simpa only [at_, ReadPc.owed, sent, same] using announced }
    · have booked : fw.frame.hdr.length = delta := by rw [update]; rfl
      simp only [at_, ReadPc.owed, before, booked, false_eq_true, if_false] at announced
      exact {
        spent := by simpa [one, update, payload] using budget.spent
        announced := by simpa [one, update, increment, ReadPc.owed, after] using announced }
  | @unlock n fw sent at_ pc =>
    exact { budget with announced := by simpa [at_, ReadPc.owed, pc, FramePc.sent] using announced }
  | empty at_ | finish at_ | wait at_ | park at_ | retry at_ | ret at_ =>
    exact { budget with announced := by simpa only [at_, ReadPc.owed, unref] using announced }

theorem WriteMove.budget (budget : slot.Budget window) (sound : slot.Sound window) (bounds : slot.Bounds window)
    (granted : slot.WithinGrant) (move : WriteMove free ok slot slot' eff) : slot'.Budget window := by
  have spent := budget.spent
  cases move with
  | @chunk rest n at_ live credit size =>
    have room := budget.room sound.ledger bounds (by rw [at_]; rfl)
    have spec := muxWriteChunk_spec credit (length_pos_iff.mpr (sound.shape.wrLoop rest (Or.inl at_)))
    rw [← size] at spec
    refine { budget with spent := ?_ }
    simp only [at_, planned, FramePc.sent, false_eq_true, if_false, length_take] at spent ⊢
    split
    · rename_i op; simpa [op] using spent
    · rename_i opener
      rw [bounds.ungranted opener] at room
      have whole : slot.s.sendWindow - UInt32.ofNat 0 = slot.s.sendWindow := by simp
      rw [whole] at room
      omega
  | @frame rest fw fw' eff at_ step =>
    obtain ⟨_, chunk, positive, fits, _, frame⟩ := sound.shape.wrFrame rest fw at_
    obtain ⟨same, _, ⟨none, sent⟩ | ⟨one, before, after⟩⟩ := step_sends step
    · simp only [none, append_nil]
      exact { budget with spent := by simpa only [at_, planned, sent, same] using spent }
    · have pc := sends_at_hdr step (by simp [one])
      have length : (rest.take chunk).length = chunk := by simp [fits]
      have events := events_data slot.s.id (UInt32.ofNat chunk)
        (ne_nil_of_length_pos (l := rest.take chunk) (by omega))
      rw [← frame] at events
      have data : fw.frame.data.length = chunk := by rw [frame, length]
      refine { spent := ?_, announced := by simpa [one, events, increment] using budget.announced }
      simp only [one, eventsOf_append, eventsOf_cons, eventsOf_nil, events, append_nil, dataOf_append,
        dataOf_singleton, payload, length_append, length, planned, after, if_true]
      simp only [at_, planned, before, data, false_eq_true, if_false] at spent
      by_cases op : slot.op = .accepted
      · have room := budget.room sound.ledger bounds (by rw [at_, WritePc.pending, before]; rfl)
        have fits := granted op
        simp only [at_, WritePc.sending, pc, if_true] at fits
        simp only [op, if_true] at spent ⊢
        omega
      · simp only [op, if_false] at spent ⊢
        omega
  | @unlock rest fw sent at_ pc =>
    simp only [at_, planned, pc, FramePc.sent, if_true] at spent
    cases sent <;> exact { budget with spent := by simpa [planned] using spent }
  | @deduct rest n at_ =>
    simp only [at_, planned] at spent
    have idle : (writeNext (rest.drop n)).planned = 0 := by unfold writeNext; split <;> rfl
    exact { budget with spent := by simpa [idle] using spent }
  | refuse at_ | full at_ | retry at_ | park at_ | ret at_ =>
    simp only [at_, planned] at spent
    exact { budget with spent := spent }

theorem CloseMove.budget (budget : slot.Budget window) (sound : slot.Sound window)
    (move : CloseMove free ok slot slot' eff) : slot'.Budget window := by
  cases move with
  | @frame fw fw' eff at_ step =>
    obtain ⟨_, _, ⟨none, _⟩ | ⟨one, _, _⟩⟩ := step_sends step
    · simp only [none, append_nil]
      exact { budget with }
    · rw [one, (sound.shape.clFrame fw at_).1]
      exact { budget.sendPlain (events_fin slot.s.id) ⟨rfl, rfl⟩ with }
  | wakeRecv at_ parked =>
    exact { budget with announced := by simpa only [parked, ReadPc.owed] using budget.announced }
  | wakeSend at_ parked =>
    exact { budget with spent := by simpa only [parked, planned] using budget.spent }
  | state | lock | skip | unlock | ret => exact { budget with }

theorem Slot.Budget.heard (budget : slot.Budget window) (s : Stream) (event : Event) :
    Slot.Budget window { slot with s := s, rx := slot.rx ++ [event] } :=
  { budget with spent := budget.spent.trans (Nat.add_le_add_left (by simp) _) }

end Slots

theorem SlotStep.budget {cfg : Config} {σ : Session} {act : Act} {r : Nat} {slot' : Slot}
    (budget : (σ.slots r).Budget cfg.window)
    (known : σ.slots r = Slot.unborn ∨ (σ.slots r).Sound cfg.window ∧ (σ.slots r).Bounds cfg.window)
    (live : act ≠ .destroyFree) (granted : ∀ ok, act = .runWrite r ok → (σ.slots r).WithinGrant)
    (step : SlotStep cfg σ act r slot') : slot'.Budget cfg.window := by
  have spent := budget.spent
  have announced := budget.announced
  cases step with
  | same => exact budget
  | opening _ move | close _ move =>
    rcases known with unborn | ⟨sound, _⟩
    · cases move <;> simp_all [Slot.unborn, Slot.fresh]
    · exact move.budget budget sound
  | read _ move =>
    rcases known with unborn | ⟨sound, bounds⟩
    · cases move <;> simp_all [Slot.unborn, Slot.fresh]
    · exact move.budget budget sound bounds
  | write at_ move =>
    rcases known with unborn | ⟨sound, bounds⟩
    · cases move <;> simp_all [Slot.unborn, Slot.fresh]
    · exact move.budget budget sound bounds (granted _ at_)
  | readStart _ started =>
    obtain ⟨allowed, rfl⟩ := readStart_some started
    simp only [allowed.2.1, ReadPc.owed] at announced
    exact { budget with announced := announced }
  | writeStart _ started =>
    obtain ⟨allowed, rfl⟩ := writeStart_some started
    simp only [allowed.2.1, planned] at spent
    exact { budget with spent := spent }
  | closeStart _ started =>
    obtain ⟨_, ⟨_, rfl⟩ | ⟨_, rfl⟩⟩ := closeStart_some started <;> exact { budget with }
  | publish _ at_ => exact { budget with spent := by simpa [at_, ref] using spent }
  | refuse _ at_ => exact { budget with spent := by simpa [at_, ref, unref] using spent }
  | hand => exact { budget with }
  | push | update | fin | reset => exact budget.heard _ _
  | wakeRecv woken =>
    obtain ⟨len, parked, rfl⟩ := readyRecv_some woken
    simp only [parked, ReadPc.owed] at announced
    exact { budget with announced := announced }
  | wakeSend woken =>
    obtain ⟨rest, parked, rfl⟩ := readySend_some woken
    simp only [parked, planned] at spent
    exact { budget with spent := spent }
  | free _ at_ => exact absurd at_ live

section Pairs

variable {lossless : Prop} {window : UInt32} {x x' : FramePair} {ρ : Role} {r : Nat}

/-- Both ends have the same window, and every stream keeps its budget. -/
def FramePair.Budgets (window : UInt32) (x : FramePair) : Prop := ∀ ρ r, ((x.ends ρ).slots r).Budget window

theorem FramePair.Inv.received_sublist {windows : Role → UInt32} (inv : x.Inv lossless windows)
    (inside : r < (x.ends ρ).nslots) : ((x.ends ρ).slots r).rx.Sublist
      (eventsOf (forStream ((x.ends ρ).slots r).s.id (x.flows ρ.other).sent)) := by
  obtain ⟨sub, _⟩ := (inv ρ).received r inside
  rw [Flow.sent, forStream_append, eventsOf_append]
  exact ((sublist_append_left _ _).trans sub).trans (sublist_append_left _ _)

/-- The budget of the peer bounds a stream: neither side can have received more than the other has sent. -/
theorem FramePair.Inv.bounds (inv : x.Inv lossless fun _ => window) (budgets : x.Budgets window)
    (inside : r < (x.ends ρ).nslots) : ((x.ends ρ).slots r).Bounds window := by
  have heard := inv.received_sublist inside
  by_cases peer : ∃ r' < (x.ends ρ.other).nslots, ((x.ends ρ.other).slots r').s.id = ((x.ends ρ).slots r).s.id
  · obtain ⟨r', inside', same⟩ := peer
    have heard' := inv.received_sublist inside'
    rw [Role.other_other, same, (inv ρ).sentBy r inside] at heard'
    rw [← same, (inv ρ.other).sentBy r' inside'] at heard
    have budget := budgets ρ.other r'
    have input := congrArg List.length ((inv ρ.other).sound r' inside').ledger.input
    rw [length_append] at input
    have spent := budget.spent
    have announced := budget.announced
    have credit := creditOf_le heard
    have credit' := creditOf_le heard'
    have data := dataOf_length_le heard
    have data' := dataOf_length_le heard'
    refine ⟨by omega, by omega, fun opener => ?_⟩
    have accepted := inv.accepted_of_opener inside inside' same opener
    have grant := grantOf_le heard
    rw [((inv ρ.other).sound r' inside').shape.history.acceptor_grant accepted] at grant
    omega
  · push Not at peer
    have none : forStream ((x.ends ρ).slots r).s.id (x.flows ρ.other).sent = [] := by
      simp only [forStream, filter_eq_nil_iff, beq_iff_eq]
      intro frame member same
      obtain ⟨r', inside', owner⟩ := (inv ρ.other).sentOwner frame member
      exact peer r' inside' (owner.trans same)
    rw [none] at heard
    have empty := eq_nil_of_sublist_nil heard
    refine ⟨by simp [empty], by simp [empty], fun _ => by simp [empty]⟩

theorem Session.step_budget {cfg : Config} {σ σ' : Session} {act : Act} {eff : Effect} {sent got : List Frame}
    {cur : List UInt8} (inv : EndInv lossless cfg σ sent got cur)
    (budgets : ∀ r, (σ.slots r).Budget cfg.window) (bounds : ∀ r < σ.nslots, (σ.slots r).Bounds cfg.window)
    (granted : ∀ r ok, act = .runWrite r ok → (σ.slots r).WithinGrant)
    (moved : σ.step cfg act = some (σ', eff)) (r : Nat) : (σ'.slots r).Budget cfg.window := by
  rcases (Session.step_move moved).2.slot r with step | ⟨_, _, ⟨_, new⟩ | ⟨h, _, _, new⟩⟩
  · refine step.budget (budgets r) ?_ (inv.not_free moved) (granted r)
    by_cases inside : r < σ.nslots
    · exact Or.inr ⟨inv.sound r inside, bounds r inside⟩
    · exact Or.inl (inv.inert r (by omega))
  · rw [new]
    exact ⟨by simp [Slot.opened, Slot.fresh, planned], by simp [Slot.opened, Slot.fresh, ReadPc.owed]⟩
  · rw [new]
    exact ⟨by simp [accepted, Slot.fresh], by simp [accepted, Slot.fresh, ReadPc.owed]⟩

theorem FramePair.Budgets.step (budgets : x.Budgets window) (inv : x.Inv lossless fun _ => window)
    {act : FrameAct} (granted : x.Obeys SpendsGranted act) (moved : x.step (fun _ => window) act = some x') :
    x'.Budgets window := by
  have bounds : ∀ ρ, ∀ r < (x.ends ρ).nslots, ((x.ends ρ).slots r).Bounds window :=
    fun ρ r inside => inv.bounds budgets inside
  cases act with
  | header ρ =>
    simp only [FramePair.step] at moved
    split at moved
    · cases moved
    split at moved
    swap
    · cases moved
    obtain ⟨⟨σ', eff⟩, stepped, same⟩ := Option.map_eq_some_iff.mp moved
    cases same
    intro τ r
    rcases ρ.eq_or_other τ with rfl | rfl
    · simpa using Session.step_budget (inv τ) (budgets τ) (bounds τ) (by simp) stepped r
    · simpa using budgets ρ.other r
  | run ρ act | body ρ n =>
    simp only [FramePair.step] at moved
    split at moved
    swap
    · cases moved
    obtain ⟨⟨σ', eff⟩, stepped, same⟩ := Option.map_eq_some_iff.mp moved
    cases same
    intro τ r
    rcases ρ.eq_or_other τ with rfl | rfl
    · simpa using Session.step_budget (inv τ) (budgets τ) (bounds τ)
        (by first | simp; done | rintro r ok rfl; exact granted) stepped r
    · simpa using budgets ρ.other r

theorem Slot.Bounds.recv {slot : Slot} (bounds : slot.Bounds window) (budget : slot.Budget window)
    (led : slot.Ledger window) :
    slot.s.recvBuf.length ≤ window.toNat ∧ slot.s.recvWindow.toNat ≤ window.toNat := by
  have input := congrArg List.length led.input
  rw [length_append] at input
  have outstanding := bounds.outstanding
  have announced := budget.announced
  have fits := window.toNat_lt
  have balance : slot.s.recvWindow + UInt32.ofNat (dataOf slot.rx).length =
      UInt32.ofNat (window.toNat + creditOf (eventsOf slot.tx) + slot.rd.owed.toNat) := by
    rw [led.recv, ofNat_add, ofNat_add, UInt32.ofNat_toNat, UInt32.ofNat_toNat]
  rw [toNat_of_balance balance (by omega) (by omega)]
  omega

end Pairs

/-- With one window at both ends, as long as no writer of an accepted stream spends the window that the SYN added to
the one it was created with, no stream ever buffers or advertises more than the window. -/
theorem receive_buffer_within_window {window : UInt32} {p : Pair}
    (reach : Pair.Reachable (fun _ => window) (fun ends ρ act => KeepsIds ends ρ act ∧ SpendsGranted ends ρ act) p)
    (open_ : p.Open) (ρ : Role) (r : Nat) (inside : r < (p.ends ρ).nslots) :
    ((p.ends ρ).slots r).s.recvBuf.length ≤ window.toNat ∧ ((p.ends ρ).slots r).s.recvWindow.toNat ≤ window.toNat := by
  obtain ⟨x, inv, sim, run⟩ := Pair.frames False (fun _ _ _ both => ⟨both.1, False.elim⟩) reach open_
  have budgets : x.Budgets window := by
    refine Lib.Reach.invariant (fun _ _ =>
      ⟨by simp [FramePair.create, Session.create, unborn, Slot.fresh, planned],
        by simp [FramePair.create, Session.create, unborn, Slot.fresh, ReadPc.owed]⟩) (fun x act x' reached budgets obeys moved => ?_) run
    have before : x.Inv False fun _ => window :=
      FramePair.inv_reach (fun _ _ _ all => ⟨all.1, all.2.1, False.elim⟩) reached
    refine budgets.step before ?_ moved
    cases act with
    | run ρ act => exact obeys.2.2
    | header | body => trivial
  rw [sim.ends] at *
  exact (inv.bounds budgets inside).recv (budgets ρ r) ((inv ρ).sound r inside).ledger

/-- A window of one byte that the server's writer keeps to. -/
theorem receive_buffer_within_window_one_byte : ∃ p : Pair,
    Pair.Reachable (fun _ => 1) (fun ends ρ act => KeepsIds ends ρ act ∧ SpendsGranted ends ρ act) p ∧
    ((p.ends .client).slots 0).s.recvBuf = [7] ∧ ((p.ends .client).slots 0).s.recvBuf.length ≤ (1 : UInt32).toNat := by
  obtain ⟨p, reach, open_, inside, buffered⟩ : ∃ p : Pair,
      Pair.Reachable (fun _ => 1) (fun ends ρ act => KeepsIds ends ρ act ∧ SpendsGranted ends ρ act) p ∧ p.Open ∧
      0 < (p.ends .client).nslots ∧ ((p.ends .client).slots 0).s.recvBuf = [7] :=
    Lib.exists_reach (opens .client 0 ++ takesSyn .server ++ accepts .server ++
      .run .server (.writeStart 0 [7]) :: writesChunk .server 0 ++ takesData .client 1) (by decide +kernel)
  exact ⟨p, reach, buffered, (receive_buffer_within_window reach open_ .client 0 inside).1⟩

/-- The accepted stream may send its own window and the opener's: with windows of one byte, the opener buffers two. -/
theorem accepted_stream_overruns_window : ∃ p : Pair, Pair.Reachable (fun _ => 1) KeepsStreams p ∧ p.Open ∧
    ((p.ends .client).slots 0).op = .published ∧ ((p.ends .client).slots 0).s.recvBuf.length = 2 ∧
    ((p.ends .client).slots 0).s.recvWindow.toNat = 2 ^ 32 - 1 :=
  Lib.exists_reach (opens .client 0 ++ takesSyn .server ++ accepts .server ++
    .run .server (.writeStart 0 [7, 8]) :: writesChunk .server 0 ++ takesData .client 2) (by decide +kernel)

section Books

open Role Pair

variable {windows : Role → UInt32} {p : Pair}

/-- With nothing in flight, a writer's credit and what its peer has not read or not announced add up to the credit that
the stream began with. -/
theorem credit_conserved (reach : Pair.Reachable windows KeepsStreams p) (open_ : p.Open) (quiet : p.Quiet) (ρ : Role)
    (r r' : Nat) (inside : r < (p.ends ρ).nslots) (inside' : r' < (p.ends ρ.other).nslots) :
    let own := (p.ends ρ).slots r
    let peer := (p.ends ρ.other).slots r'
    peer.s.id = own.s.id → own.wr.pending = 0 → peer.s.unannounced (windows ρ.other) +
      UInt32.ofNat peer.s.recvBuf.length + own.s.sendWindow = initialCredit windows ρ own.op := by
  obtain ⟨x, inv, sim, _⟩ := frames True (fun _ _ _ both => ⟨both.1, fun _ => both.2⟩) reach open_
  rw [sim.ends] at *
  exact inv.conservation sim quiet inside inside'

theorem credit_conserved_fresh : ∃ p : Pair, Pair.Reachable (fun _ => 4) KeepsStreams p ∧
    ((p.ends .server).slots 0).s.unannounced 4 + UInt32.ofNat ((p.ends .server).slots 0).s.recvBuf.length +
      ((p.ends .client).slots 0).s.sendWindow = 4 := by
  obtain ⟨p, reach, open_, drained, idle, inside, inside', same, settled, op⟩ : ∃ p : Pair,
      Pair.Reachable (fun _ => 4) KeepsStreams p ∧ p.Open ∧ p.Drained ∧
      (∀ ρ, (p.ends ρ).shut.call = none ∧ ∀ r < (p.ends ρ).nslots, ∀ t, ((p.ends ρ).slots r).call t = none) ∧
      0 < (p.ends .client).nslots ∧ 0 < (p.ends .server).nslots ∧
      ((p.ends .server).slots 0).s.id = ((p.ends .client).slots 0).s.id ∧ ((p.ends .client).slots 0).wr.pending = 0 ∧
      ((p.ends .client).slots 0).op = .published :=
    Lib.exists_reach (opens .client 0 ++ takesSyn .server ++ .run .client (.writeStart 0 [7]) ::
      (Act.runWrite 0 true).times 9 .client ++ takesData .server 1) (by decide +kernel)
  have quiet := quiet_of_idle (reach.mono fun p act obeys => by cases act <;> [exact obeys.1; trivial; trivial])
    open_ drained idle
  have books := credit_conserved reach open_ quiet .client 0 0 inside inside' same settled
  rw [op] at books
  exact ⟨p, reach, books⟩

section

variable (reach : Pair.Reachable windows KeepsIds p) (open_ : p.Open) (ρ : Role)
include reach open_

/-- Ids are not shared, their parity says who opened the stream, whoever accepted one has a peer that opened it, and the
table and the accept queue hold what they should. -/
theorem stream_tables_sound : let σ : Session := p.ends ρ
    (∀ r < σ.nslots, ∀ r' < σ.nslots, (σ.slots r).s.id = (σ.slots r').s.id → r = r') ∧
    (∀ r < σ.nslots, ((σ.slots r).op = .accepted ↔ ¬ρ.Owns (σ.slots r).s.id) ∧ ((σ.slots r).op = .accepted →
      ∃ r' < (p.ends ρ.other).nslots, ((p.ends ρ.other).slots r').op ≠ .accepted ∧
        ((p.ends ρ.other).slots r').s.id = (σ.slots r).s.id)) ∧
    (∀ r, r ∈ σ.streams ↔ r < σ.nslots ∧ ((σ.slots r).op = .accepted ∨ (σ.slots r).op = .published)) ∧
    ∀ r ∈ σ.queue, r < σ.nslots ∧ (σ.slots r).op = .accepted := by
  obtain ⟨x, inv, sim, _⟩ := frames False (fun _ _ _ ids => ⟨ids, False.elim⟩) reach open_
  rw [sim.ends]
  have here := inv ρ
  refine ⟨here.unique, fun r inside => ⟨⟨fun accepted => (here.accepted r inside accepted).1, fun foreign => ?_⟩,
    fun accepted => inv.opener inside accepted⟩, here.table, fun r queued => here.queued r (.inl queued)⟩
  by_contra opened
  obtain ⟨k, _, id⟩ := here.opened r inside opened
  exact foreign (id ▸ ρ.owns_allocated k)

/-- Over any chunking of the transport and any interleaving of the callers, the ends behave as ends that exchange whole
frames in order. -/
theorem pair_refines_frames : ∃ x, Lib.Reach (FramePair.step windows) (FramePair.Obeys KeepsIds)
    (FramePair.create windows) x ∧ Refines p x := by
  obtain ⟨x, _, sim, run⟩ := frames False (fun _ _ _ ids => ⟨ids, False.elim⟩) reach open_
  exact ⟨x, run.mono fun _ act obeys => by cases act <;> [exact obeys.2; trivial; trivial], sim⟩

/-- However the writers of an end interleave, one at a time is past `write_mu`, and what is in transit and what that one
still owes spells whole frames of streams of the end whenever the reader is between frames. -/
theorem frames_stay_whole : Exclusive (p.ends ρ).writeMu (p.ends ρ).writing ∧
    ((p.ends ρ.other).loop = .hdr → ∃ frames : List Frame,
      (p.links ρ).rbuf ++ (p.links ρ).wire ++ (p.ends ρ).owed = frames.flatMap Frame.bytes ∧
      ∀ frame ∈ frames, ∃ r < (p.ends ρ).nslots, ((p.ends ρ).slots r).s.id = frame.hdr.streamId) := by
  obtain ⟨x, inv, sim, _⟩ := frames False (fun _ _ _ ids => ⟨ids, False.elim⟩) reach open_
  refine ⟨sim.exclusive ρ, fun between => ⟨(x.flows ρ).queue, ?_, fun frame member => ?_⟩⟩
  · have there := (inv ρ.other).loop
    rw [← sim.ends, between, Role.other_other] at there
    rw [sim.bytes ρ, there.hdr_cur, nil_append]
  · rw [sim.ends]
    exact (inv ρ).sentOwner frame (mem_append_right _ member)

end

theorem data_in_transit : ∃ p : Pair, Pair.Reachable (fun _ => 4) KeepsIds p ∧ p.Open ∧ (p.links .client).wire ≠ [] ∧
    (p.ends .server).loop = .hdr ∧ 0 < (p.ends .server).nslots ∧ ((p.ends .server).slots 0).op = .accepted :=
  Lib.exists_reach (opens .client 0 ++ takesSyn .server ++ .run .server (.runLoop .go) ::
    .run .client (.writeStart 0 [7]) :: (Act.runWrite 0 true).times 9 .client) (by decide +kernel)

theorem stream_tables_sound_accepted : ∃ p : Pair, Pair.Reachable (fun _ => 4) KeepsIds p ∧
    ((p.ends .server).slots 0).op = .accepted ∧ ¬Role.server.Owns ((p.ends .server).slots 0).s.id := by
  obtain ⟨p, reach, open_, _, _, inside, accepted⟩ := data_in_transit
  exact ⟨p, reach, accepted, ((stream_tables_sound reach open_ .server).2.1 0 inside).1.mp accepted⟩

theorem pair_refines_frames_data : ∃ (p : Pair) (x : FramePair), Pair.Reachable (fun _ => 4) KeepsIds p ∧
    (p.links .client).wire ≠ [] ∧ Refines p x := by
  obtain ⟨p, reach, open_, sent, _⟩ := data_in_transit
  obtain ⟨x, _, sim⟩ := pair_refines_frames reach open_
  exact ⟨p, x, reach, sent, sim⟩

theorem frames_stay_whole_data : ∃ (p : Pair) (frames : List Frame), Pair.Reachable (fun _ => 4) KeepsIds p ∧
    (p.links .client).wire ≠ [] ∧
    (p.links .client).rbuf ++ (p.links .client).wire ++ (p.ends .client).owed = frames.flatMap Frame.bytes := by
  obtain ⟨p, reach, open_, sent, between, _⟩ := data_in_transit
  obtain ⟨frames, whole, _⟩ := (frames_stay_whole reach open_ .client).2 between
  exact ⟨p, frames, reach, sent, whole⟩

end Books

end Xylem.Mux
