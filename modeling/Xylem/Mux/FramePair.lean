import Xylem.Mux.EndStep
import Xylem.Mux.Pair

namespace Xylem.Mux

open List Option

/-- One direction of the transport seen as frames: those whose header the receiver has `taken`, the part of the last
one's payload that it has not read, and those still on their way. -/
structure Flow where
  taken : List Frame
  cur : List UInt8
  queue : List Frame

def Flow.sent (flow : Flow) : List Frame := flow.taken ++ flow.queue

/-- Two sessions that exchange whole frames in order. -/
structure FramePair where
  ends : Role → Session
  flows : Role → Flow

inductive FrameAct
  | run (ρ : Role) (act : Act)
  | header (ρ : Role)
  | body (ρ : Role) (n : Nat)

def FramePair.create (windows : Role → UInt32) : FramePair where
  ends := fun ρ => Session.create ⟨ρ, windows ρ⟩
  flows := fun _ => ⟨[], [], []⟩

def FramePair.step (windows : Role → UInt32) (x : FramePair) : FrameAct → Option FramePair
  | .run ρ act =>
    if act.inner then
      ((x.ends ρ).step ⟨ρ, windows ρ⟩ act).map fun (σ, eff) =>
        { ends := Function.update x.ends ρ σ
          flows := Function.update x.flows ρ { x.flows ρ with queue := (x.flows ρ).queue ++ eff.frames } }
    else none
  | .header ρ =>
    match (x.flows ρ.other).queue with
    | [] => none
    | frame :: queue =>
      if (x.ends ρ).loop = .hdr then
        ((x.ends ρ).step ⟨ρ, windows ρ⟩ (.runLoop (.bytes (muxFrameEncode frame.hdr)))).map fun (σ, _) =>
          { ends := Function.update x.ends ρ σ
            flows := Function.update x.flows ρ.other
              ⟨(x.flows ρ.other).taken ++ [frame], frame.data, queue⟩ }
      else none
  | .body ρ n =>
    if (x.ends ρ).loop ≠ .hdr then
      ((x.ends ρ).step ⟨ρ, windows ρ⟩ (.runLoop (.bytes ((x.flows ρ.other).cur.take n)))).map fun (σ, _) =>
        { ends := Function.update x.ends ρ σ
          flows := Function.update x.flows ρ.other
            { x.flows ρ.other with cur := (x.flows ρ.other).cur.drop n } }
    else none

/-- Every lookup of the reader loop for an id of its own end comes after that stream was published. -/
def FindsPublished : Guard := fun ends ρ act => act = .runLoop .go → (ends ρ).LooksUpPublished

instance (ends : Role → Session) (ρ : Role) (act : Act) : Decidable (FindsPublished ends ρ act) :=
  inferInstanceAs (Decidable (_ → _))

/-- The steps of a run in which ids stay unique and no frame comes in before its stream is published. -/
abbrev KeepsStreams : Guard := fun ends ρ act => KeepsIds ends ρ act ∧ FindsPublished ends ρ act

variable (lossless : Prop)

/-- The steps of a run in which both sessions stay open and no stream id is used twice. In a `lossless` run the
reader loops also look up published streams only. -/
def Admits : Guard := fun ends ρ act =>
  act.Stays ∧ KeepsIds ends ρ act ∧ (lossless → FindsPublished ends ρ act)

def FramePair.Obeys (guard : Guard) (x : FramePair) : FrameAct → Prop
  | .run ρ act => guard x.ends ρ act
  | _ => True

/-- Each end against what it has sent and what it has taken off the wire. -/
def FramePair.Inv (windows : Role → UInt32) (x : FramePair) : Prop :=
  ∀ ρ, EndInv lossless ⟨ρ, windows ρ⟩ (x.ends ρ) (x.flows ρ).sent (x.flows ρ.other).taken (x.flows ρ.other).cur

theorem Role.not_owns_other {ρ : Role} {id : UInt32} (owns : ρ.other.Owns id) : ¬ ρ.Owns id := by
  unfold Role.Owns at *
  cases ρ <;> simp [Role.firstId, Role.other] at * <;> omega

theorem History.opener {id window : UInt32} {op : OpenPc} {tx : List Frame} (history : History id window op tx)
    (opener : op ≠ .accepted) :
    tx = [] ∨ ∃ rest, tx = ⟨synHdr id window, []⟩ :: rest ∧ ∀ frame ∈ rest, Sends id frame := by
  cases history with
  | accepted => exact absurd rfl opener
  | opening _ _ only =>
    rw [only]
    split
    · exact Or.inr ⟨[], rfl, nofun⟩
    · exact Or.inl rfl
  | sent => exact Or.inr ⟨[], rfl, nofun⟩
  | published kinds => exact Or.inr ⟨_, rfl, kinds⟩

section Steps

variable {lossless : Prop} {windows : Role → UInt32} {x x' : FramePair} {ρ : Role} {frame : Frame} {cfg : Config}

theorem FramePair.Inv.next (inv : x.Inv lossless windows) {queue : List Frame}
    (at_ : (x.ends ρ).loop = .hdr) (head : (x.flows ρ.other).queue = frame :: queue) :
    NextFrame ⟨ρ, windows ρ⟩ (x.ends ρ) (x.flows ρ.other).taken frame := by
  have here := inv ρ
  have peer := inv ρ.other
  rw [Role.other_other] at peer
  have inSent : frame ∈ (x.flows ρ.other).sent := by simp [Flow.sent, head]
  obtain ⟨r, inside, owner⟩ := peer.sentOwner frame inSent
  have tx := peer.sentBy r inside
  have member : frame ∈ ((x.ends ρ.other).slots r).tx := tx ▸ mem_forStream.mpr ⟨inSent, owner.symm⟩
  have history := (peer.sound r inside).shape.history
  by_cases op : ((x.ends ρ.other).slots r).op = .accepted
  · have kind := (history.kind member).resolve_left fun syn => syn.2 op
    obtain ⟨_, heard⟩ := peer.accepted r inside op
    obtain ⟨first, taken⟩ := exists_mem_of_ne_nil _ heard
    obtain ⟨taken, same⟩ := mem_forStream.mp taken
    obtain ⟨r', inside', owner'⟩ := here.sentOwner first (mem_append_left _ taken)
    exact .other inside' (by rw [owner', same]; exact kind)
  · obtain ⟨k, _, own⟩ := peer.opened r inside op
    have owned : ρ.other.Owns ((x.ends ρ.other).slots r).s.id := own ▸ Role.owns_allocated ρ.other k
    have split : forStream ((x.ends ρ.other).slots r).s.id (x.flows ρ.other).taken ++
        frame :: forStream ((x.ends ρ.other).slots r).s.id queue = ((x.ends ρ.other).slots r).tx := by
      rw [← tx, Flow.sent, head, forStream_append, append_cons, ← append_cons]
      congr 1
      simp [forStream, owner]
    rcases history.opener op with none | ⟨rest, all, kinds⟩
    · rw [none] at member; cases member
    · rw [all] at split
      cases first : forStream ((x.ends ρ.other).slots r).s.id (x.flows ρ.other).taken with
      | nil =>
        rw [first] at split
        rw [(List.cons.inj split).1]
        exact .syn (Role.not_owns_other owned) first
      | cons syn later =>
        rw [first] at split
        have kind := kinds frame (by rw [← (List.cons.inj split).2]; simp)
        have exists_ : ∃ r' < (x.ends ρ).nslots, ((x.ends ρ).slots r').s.id = ((x.ends ρ.other).slots r).s.id := by
          by_contra absent
          push Not at absent
          rcases here.unknown _ absent with none | ⟨w, here⟩
          · simp [first] at none
          · rw [at_] at here; cases here
        obtain ⟨r', inside', same⟩ := exists_
        exact .other inside' (by rw [same]; exact kind)

theorem NextFrame.version {σ : Session} {got : List Frame}
    (next : NextFrame cfg σ got frame) : frame.hdr.version = muxProtoVersion := by
  cases next with
  | syn => rfl
  | other _ kind => cases kind <;> rfl

theorem Session.step_bytes {σ σ' : Session} {eff : Effect} {bytes : List UInt8}
    (moved : σ.step cfg (.runLoop (.bytes bytes)) = some (σ', eff)) : σ.loopBytes bytes = some σ' ∧ eff = .none := by
  unfold Session.step at moved
  split at moved
  · cases moved
  · obtain ⟨_, took, same⟩ := map_eq_some_iff.mp moved
    cases same
    exact ⟨took, rfl⟩

theorem FramePair.Inv.step (inv : x.Inv lossless windows) {act : FrameAct} (admits : x.Obeys (Admits lossless) act)
    (moved : x.step windows act = some x') : x'.Inv lossless windows := by
  cases act with
  | run ρ act =>
    obtain ⟨stays, room, lookup⟩ := admits
    simp only [FramePair.step] at moved
    split at moved
    swap
    · cases moved
    rename_i inner
    obtain ⟨⟨σ', eff⟩, stepped, same⟩ := map_eq_some_iff.mp moved
    cases same
    have dry : ∀ bytes, act ≠ .runLoop (.bytes bytes) := by rintro bytes rfl; cases inner
    have reliable : act.reliable = true := by
      unfold Act.inner at inner
      split at inner
      · cases inner
      · exact inner
    intro τ
    rcases ρ.eq_or_other τ with rfl | rfl
    · have next := (inv τ).step stepped reliable stays room lookup dry
      simpa [Flow.sent, append_assoc] using next
    · simpa using inv ρ.other
  | header ρ =>
    simp only [FramePair.step] at moved
    split at moved
    · cases moved
    rename_i frame queue head
    split at moved <;> rename_i at_
    swap
    · cases moved
    obtain ⟨⟨σ', eff⟩, stepped, same⟩ := map_eq_some_iff.mp moved
    cases same
    have next := inv.next at_ head
    obtain ⟨took, _⟩ := Session.step_bytes stepped
    simp only [Session.loopBytes, at_, loopWant, muxFrameDecode_encode, next.version, ne_eq, not_true_eq_false,
      if_false] at took
    split at took <;> cases took
    intro τ
    rcases ρ.eq_or_other τ with rfl | rfl
    · simpa [Flow.sent] using (inv τ).header at_ next
    · simpa [Flow.sent, head] using inv ρ.other
  | body ρ n =>
    simp only [FramePair.step] at moved
    split at moved <;> rename_i notHdr
    swap
    · cases moved
    obtain ⟨⟨σ', eff⟩, stepped, same⟩ := map_eq_some_iff.mp moved
    cases same
    obtain ⟨took, _⟩ := Session.step_bytes stepped
    intro τ
    rcases ρ.eq_or_other τ with rfl | rfl
    · simpa [Flow.sent] using (inv τ).body notHdr (take_append_drop n _).symm took
    · simpa [Flow.sent] using inv ρ.other

/-- In every run the two ends agree on every stream up to what is on its way. -/
theorem FramePair.inv_reach {guard : Guard} (strict : ∀ ends ρ act, guard ends ρ act → Admits lossless ends ρ act)
    (reach : Lib.Reach (FramePair.step windows) (FramePair.Obeys guard) (FramePair.create windows) x) :
    x.Inv lossless windows := by
  refine Lib.Reach.invariant (fun ρ => EndInv.create lossless ⟨ρ, windows ρ⟩) (fun x act _ _ inv obeys moved => ?_) reach
  refine inv.step ?_ moved
  cases act with
  | run ρ act => exact strict _ _ _ obeys
  | header | body => trivial

end Steps

end Xylem.Mux
