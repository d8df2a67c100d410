import Xylem.Tls.Effect

namespace Xylem.Tls

open Lib

variable {A : Type} (k : Nat) (op : DtlsOp)

def DtlsOp.uses : Bool := op.session == some k && op != .free k

/-- The operation ends the use of a reference on the session. -/
def DtlsOp.keeps : Bool := op == .unref k || op == .dropTable k || op == .returns k

/-- The operation reads or writes the transport, other than through a session. -/
def DtlsOp.usesTransport : DtlsOp → Bool
  | .receive | .stopAccepting _ | .sweep | .awaitToken | .takePending | .unrefTransport | .returnsListener => true
  | _ => false

def DtlsOp.keepsTransport : Bool := op == .unrefTransport || op == .returnsListener

/-- A coroutine gives up a reference after it has used what the reference is for. -/
structure Orderly (program : List DtlsOp) : Prop where
  session : ∀ k, Backed (DtlsOp.uses k) (DtlsOp.keeps k) program
  transport : Backed DtlsOp.usesTransport DtlsOp.keepsTransport program

variable {s t : DtlsTransport A} {op : DtlsOp} {more rest : List DtlsOp}

theorem orderly_discards (pending : List Nat) : Orderly (pending.flatMap fun k => [.shutdown k, .dropTable k]) := by
  induction pending with
  | nil => exact ⟨fun _ => trivial, trivial⟩
  | cons k rest ih =>
    rw [List.flatMap_cons]
    refine ⟨fun j => (ih.session j).append (.inl ?_), ih.transport.append (.inl ?_)⟩
    · simp [Backed, DtlsOp.uses, DtlsOp.keeps, DtlsOp.session]
    · simp [Backed, DtlsOp.usesTransport]

section

variable (orderly : Orderly (op :: rest))
include orderly

theorem Orderly.replace (alone : Orderly more) : Orderly (more ++ rest) :=
  ⟨fun k => (orderly.session k).refill (.inl (alone.session k)), orderly.transport.refill (.inl alone.transport)⟩

theorem Orderly.same {k : Nat} (mine : op.session = some k)
    (uses : op ≠ .free k) (goes : op.keeps k = false) (left_ : ∀ o ∈ more, o.session = some k ∨ o.session = none)
    (transport : ∀ o ∈ more, o.usesTransport = false) : Orderly (more ++ rest) := by
  refine ⟨fun j => (orderly.session j).refill ?_, orderly.transport.refill (.inl ?_)⟩
  · by_cases here : j = k
    · subst here
      exact .inr ⟨by simp [DtlsOp.uses, mine, uses], goes⟩
    · refine .inl ?_
      clear orderly goes transport
      induction more with
      | nil => trivial
      | cons first others ih =>
        refine ⟨fun need => ?_, ih fun o later => left_ o (.tail _ later)⟩
        have about_ : first.session = some j := by simp_all [DtlsOp.uses]
        rcases left_ first (.head _) with same | none_
        · exact absurd (Option.some.inj (about_.symm.trans same)) here
        · exact nomatch about_.symm.trans none_
  · clear orderly goes left_
    induction more with
    | nil => trivial
    | cons first others ih =>
      refine ⟨fun need => ?_, ih fun o later => transport o (.tail _ later)⟩
      exact nomatch (transport first (.head _)).symm.trans need

theorem Orderly.under (uses : op.usesTransport = true)
    (goes : op.keepsTransport = false) (alone : ∀ k, Backed (DtlsOp.uses k) (DtlsOp.keeps k) more) :
    Orderly (more ++ rest) :=
  ⟨fun k => (orderly.session k).refill (.inl (alone k)), orderly.transport.refill (.inr ⟨uses, goes⟩)⟩

theorem Orderly.idle (still : s.Idle op more) : Orderly (more ++ rest) := by
  cases still with
  | ended | swept | refused | missed | finished | changed | again | returned | returnedListener =>
    exact ⟨fun k => (orderly.session k).2, orderly.transport.2⟩
  | received => exact orderly
  | read => exact orderly
  | stopped dispatcher =>
    exact orderly.under rfl rfl fun k => by cases dispatcher <;> simp [Backed, DtlsOp.uses, DtlsOp.session]
  | failed k | gone k => exact orderly.same rfl nofun rfl (by simp [DtlsOp.session]) (by simp [DtlsOp.usesTransport])

theorem Orderly.effect (effect : s.Effect op t more) : Orderly (more ++ rest) := by
  cases effect with
  | idle conn still => exact orderly.idle still
  | publish => exact orderly
  | unpublish | sweep | token =>
    exact orderly.under rfl rfl fun k => by simp [Backed, DtlsOp.uses, DtlsOp.keeps, DtlsOp.session]
  | stop dispatcher accepting =>
    refine orderly.under rfl rfl fun k => ?_
    have sweeps : Backed (DtlsOp.uses k) (DtlsOp.keeps k) (if dispatcher then [.sweep] else []) := by
      cases dispatcher <;> simp [Backed, DtlsOp.uses, DtlsOp.session]
    exact sweeps.append (.inl ((orderly_discards s.pending).session k))
  | take | closeInbox | freeTransport => exact ⟨fun k => (orderly.session k).2, orderly.transport.2⟩
  | shut k | unlink k =>
    exact orderly.same rfl nofun rfl (by simp [DtlsOp.session]) (by simp [DtlsOp.usesTransport])
  | unref k | dropTable k =>
    refine orderly.replace ?_
    split
    · refine ⟨fun j => ⟨fun uses => ?_, trivial⟩, nofun, trivial⟩
      simp [DtlsOp.uses, DtlsOp.session] at uses
    · exact ⟨fun _ => trivial, trivial⟩
  | free k => exact orderly.replace ⟨fun _ => ⟨nofun, trivial⟩, fun _ => .inl rfl, trivial⟩
  | unrefTransport =>
    refine orderly.replace ?_
    split
    · exact ⟨fun _ => ⟨nofun, trivial⟩, nofun, trivial⟩
    · exact ⟨fun _ => trivial, trivial⟩

end

theorem Orderly.call {program : List DtlsOp} (call : s.Call t program) : Orderly program := by
  cases call <;> refine ⟨fun k => ?_, ?_⟩ <;>
    simp [Backed, DtlsOp.uses, DtlsOp.keeps, DtlsOp.session, DtlsOp.usesTransport, DtlsOp.keepsTransport]

end Xylem.Tls
