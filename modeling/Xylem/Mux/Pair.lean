import Xylem.Lib.Run
import Xylem.Mux.WriteLock

namespace Xylem.Mux

def Role.other : Role → Role
  | .client => .server
  | .server => .client

variable (ρ : Role)

@[simp] theorem Role.other_other : ρ.other.other = ρ := by cases ρ <;> rfl

@[simp] theorem Role.other_ne : ρ.other ≠ ρ := by cases ρ <;> nofun

@[simp] theorem Role.ne_other : ρ ≠ ρ.other := by cases ρ <;> nofun

instance {P : Role → Prop} [DecidablePred P] : Decidable (∀ ρ, P ρ) :=
  decidable_of_iff (P .client ∧ P .server) ⟨fun both ρ => by cases ρ <;> [exact both.1; exact both.2], fun all => ⟨all _, all _⟩⟩

theorem Role.eq_or_other (ρ τ : Role) : τ = ρ ∨ τ = ρ.other := by cases ρ <;> cases τ <;> simp [Role.other]

/-- One direction of an in-order reliable transport that accepts any number of bytes: what has been written and not
yet read, and what an unfinished `_mux_read_full` of the receiver has read. -/
structure Link where
  wire : List UInt8
  rbuf : List UInt8

/-- Two sessions over one transport; `links ρ` carries what end `ρ` writes. -/
structure Pair where
  ends : Role → Session
  links : Role → Link

inductive PairAct
  | run (ρ : Role) (act : Act)
  | rx (ρ : Role) (n : Nat)
  | complete (ρ : Role)

def Pair.create (windows : Role → UInt32) : Pair where
  ends := fun ρ => Session.create ⟨ρ, windows ρ⟩
  links := fun _ => ⟨[], []⟩

/-- Steps that neither read from the transport nor see it fail. -/
def Act.inner : Act → Bool
  | .runLoop (.bytes _) => false
  | act => act.reliable

/-- A step of one end; one `read_fn` call of its reader loop that returns `n` bytes, any number of those available;
or the end of the `_mux_read_full` those calls belong to. -/
def Pair.step (windows : Role → UInt32) (p : Pair) : PairAct → Option Pair
  | .run ρ act =>
    if act.inner then
      ((p.ends ρ).step ⟨ρ, windows ρ⟩ act).map fun (σ, eff) =>
        { ends := Function.update p.ends ρ σ
          links := Function.update p.links ρ { p.links ρ with wire := (p.links ρ).wire ++ eff.bytes } }
    else none
  | .rx ρ n =>
    let link := p.links ρ.other
    (loopWant (p.ends ρ).loop).bind fun want =>
      if 0 < n ∧ n ≤ link.wire.length ∧ link.rbuf.length + n ≤ want then
        some { p with
          links := Function.update p.links ρ.other ⟨link.wire.drop n, link.rbuf ++ link.wire.take n⟩ }
      else none
  | .complete ρ =>
    let link := p.links ρ.other
    ((p.ends ρ).step ⟨ρ, windows ρ⟩ (.runLoop (.bytes link.rbuf))).map fun (σ, _) =>
      { ends := Function.update p.ends ρ σ
        links := Function.update p.links ρ.other ⟨link.wire, []⟩ }

def Pair.Open (p : Pair) : Prop := ∀ ρ, (p.ends ρ).closed = false

instance (p : Pair) : Decidable p.Open := inferInstanceAs (Decidable (∀ _, _))

/-- A condition on the steps of the two ends, in the state they are taken in. -/
abbrev Guard := (Role → Session) → Role → Act → Prop

/-- The steps of a run that obeys a guard; the transport is free to chunk its reads in any way. -/
def Pair.Obeys (guard : Guard) (p : Pair) : PairAct → Prop
  | .run ρ act => guard p.ends ρ act
  | _ => True

/-- The states that two fresh sessions reach in runs that obey a guard. -/
abbrev Pair.Reachable (windows : Role → UInt32) (guard : Guard) : Pair → Prop :=
  Lib.Reach (Pair.step windows) (Pair.Obeys guard) (Pair.create windows)

/-- No end takes more ids than there are: `next_stream_id` has not wrapped. -/
def KeepsIds : Guard := fun ends ρ act => act = .openStart → (ends ρ).opened < 2 ^ 31

instance (ends : Role → Session) (ρ : Role) (act : Act) : Decidable (KeepsIds ends ρ act) :=
  inferInstanceAs (Decidable (_ → _))

instance (guard : Guard) [∀ ends ρ act, Decidable (guard ends ρ act)] (p : Pair) (act : PairAct) :
    Decidable (p.Obeys guard act) :=
  match act with
  | .run ρ act => inferInstanceAs (Decidable (guard p.ends ρ act))
  | .rx _ _ | .complete _ => isTrue trivial

/-- Schedules of whole calls over a transport that works. -/
def Act.times (n : Nat) (ρ : Role) (act : Act) : List PairAct := List.replicate n (.run ρ act)

/-- `xylem_mux_open_stream` from its SYN to its return. -/
def opens (r : Nat) : List PairAct :=
  PairAct.run ρ .openStart :: (Act.runOpen r true).times 4 ρ ++ [PairAct.run ρ (.openPublish r)]

/-- The reader loop takes a header off the wire. -/
def takesHeader : List PairAct := [.run ρ (.runLoop .go), .rx ρ muxFrameHdrSize, .complete ρ]

/-- The reader loop handles the SYN of a stream it does not know, and the window that comes with it. -/
def takesSyn : List PairAct := takesHeader ρ ++ (Act.runLoop .go).times 6 ρ

/-- The reader loop handles a DATA frame with a payload of `n` bytes. -/
def takesData (n : Nat) : List PairAct :=
  takesHeader ρ ++ [PairAct.run ρ (.runLoop .go), .rx ρ n, .complete ρ, .run ρ (.runLoop .go)]

/-- `xylem_mux_accept_stream` with a stream in the accept channel. -/
def accepts : List PairAct := .run ρ .acceptStart :: Act.runAccept.times 2 ρ

/-- One round of the loop of `xylem_mux_write`. -/
def writesChunk (r : Nat) : List PairAct := (Act.runWrite r true).times 8 ρ

end Xylem.Mux
