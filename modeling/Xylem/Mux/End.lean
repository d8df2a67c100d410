import Xylem.Mux.Session
import Xylem.Mux.Sound

namespace Xylem.Mux

open Session List
open Function (update update_of_ne)

def forStream (id : UInt32) (frames : List Frame) : List Frame := frames.filter fun f => f.hdr.streamId == id

@[simp] theorem forStream_nil (id : UInt32) : forStream id [] = [] := rfl

@[simp] theorem forStream_append (id : UInt32) (xs ys : List Frame) :
    forStream id (xs ++ ys) = forStream id xs ++ forStream id ys := by
  simp [forStream]

theorem forStream_self {id : UInt32} {frame : Frame} (same : frame.hdr.streamId = id) :
    forStream id [frame] = [frame] := by
  simp [forStream, same]

theorem forStream_other {id : UInt32} {frame : Frame} (other : frame.hdr.streamId ≠ id) :
    forStream id [frame] = [] := by
  simp [forStream, other]

theorem mem_forStream {id : UInt32} {frames : List Frame} {frame : Frame} :
    frame ∈ forStream id frames ↔ frame ∈ frames ∧ frame.hdr.streamId = id := by
  simp [forStream]

/-- Stream ids keep the parity of the end that allocated them. -/
def Role.Owns (role : Role) (id : UInt32) : Prop := id.toNat % 2 = role.firstId.toNat % 2

theorem Role.owns_allocated (role : Role) (k : Nat) : role.Owns (role.firstId + 2 * UInt32.ofNat k) := by
  unfold Role.Owns
  cases role <;> simp [Role.firstId]

/-- The events of the frame the reader loop has in hand that are still to be applied to stream `id`;
`cur` is the part of its payload that has not been read. -/
def LoopPc.pending (cur : List UInt8) (id : UInt32) : LoopPc → List Event
  | .dataFind h | .payload h _ => if h.streamId = id then Frame.events ⟨h, cur⟩ else []
  | .push h _ bytes => if h.streamId = id then Frame.events ⟨h, bytes⟩ else []
  | .wakePush h _ | .fin h _ => if h.streamId = id then h.endEvents else []
  | .syn h | .chanCheck h _ | .chanPush h _ | .chanTake h _ | .chanWake h _ | .wuFind h | .wuApply h _ =>
    if h.streamId = id then [h.creditEvent] else []
  | _ => []

/-- The stream a `_mux_accept_syn` call is passing to the accept channel. -/
def LoopPc.accepting : LoopPc → Option Nat
  | .chanCheck _ r | .chanPush _ r | .chanTake _ r | .chanWake _ r => some r
  | _ => none

variable (known : UInt32 → Nat → Prop)

/-- Where the reader loop can stand when its peer runs this code, with the part of the
payload in hand that it has not read. `known id r` says that `r` is in the table under `id`. -/
inductive LoopOk : LoopPc → List UInt8 → Prop
  | top : LoopOk .top []
  | hdr : LoopOk .hdr []
  | findData {id bytes} : bytes ≠ [] → bytes.length ≤ muxMaxFramePayload →
      LoopOk (.dataFind (dataHdr id (UInt32.ofNat bytes.length))) bytes
  | findFin {id} : LoopOk (.dataFind (finHdr id)) []
  | payload {id bytes r} : bytes ≠ [] → bytes.length ≤ muxMaxFramePayload → known id r →
      LoopOk (.payload (dataHdr id (UInt32.ofNat bytes.length)) r) bytes
  | push {id n bytes r} : bytes ≠ [] → known id r → LoopOk (.push (dataHdr id n) r bytes) []
  | wakePush {id n r} : known id r → LoopOk (.wakePush (dataHdr id n) r) []
  | fin {id r} : known id r → LoopOk (.fin (finHdr id) r) []
  | wakeFin {id r} : known id r → LoopOk (.wakeFin (finHdr id) r) []
  | discard {h bytes} : bytes ≠ [] → LoopOk (.discard h bytes.length) bytes
  | syn {id w} : LoopOk (.syn (synHdr id w)) []
  | chanCheck {id w r} : known id r → LoopOk (.chanCheck (synHdr id w) r) []
  | chanPush {id w r} : known id r → LoopOk (.chanPush (synHdr id w) r) []
  | chanTake {id w r} : known id r → LoopOk (.chanTake (synHdr id w) r) []
  | chanWake {id w r} : known id r → LoopOk (.chanWake (synHdr id w) r) []
  | findUpdate {id w} : LoopOk (.wuFind (windowUpdateHdr id w)) []
  | findSyn {id w r} : known id r → LoopOk (.wuFind (synHdr id w)) []
  | update {id w r} : known id r → LoopOk (.wuApply (windowUpdateHdr id w) r) []
  | grant {id w r} : known id r → LoopOk (.wuApply (synHdr id w) r) []
  | wakeUpdate {id r} : known id r → LoopOk (.wakeWu r) []

theorem LoopOk.mono {known known' : UInt32 → Nat → Prop} (more : ∀ id r, known id r → known' id r)
    {pc : LoopPc} {cur : List UInt8} (ok : LoopOk known pc cur) : LoopOk known' pc cur := by
  cases ok <;> constructor <;> first | assumption | exact more _ _ (by assumption)

/-- `r` is in the table of streams, and its id is `id`. -/
def Session.Knows (σ : Session) (id : UInt32) (r : Nat) : Prop := r ∈ σ.streams ∧ (σ.slots r).s.id = id

/-- What a stream has received so far and what is in hand for it, against everything taken off the wire for it:
the whole of it on an accepted stream, and also on an opened one in `lossless` runs. -/
def Received (lossless : Prop) (slot : Slot) (hand all : List Event) : Prop :=
  (slot.rx ++ hand).Sublist all ∧ (slot.op = .accepted ∨ lossless → slot.rx ++ hand = all)

/-- One end of a pair: its table of streams, and each stream's histories against the frames it has `sent` and
those its reader loop has `got`. -/
structure EndInv (lossless : Prop) (cfg : Config) (σ : Session) (sent got : List Frame) (cur : List UInt8) : Prop where
  alive : σ.closed = false ∧ σ.shut = .idle
  nextId : σ.nextStreamId = cfg.role.firstId + 2 * UInt32.ofNat σ.opened
  inert : ∀ r, σ.nslots ≤ r → σ.slots r = Slot.unborn
  sound : ∀ r < σ.nslots, (σ.slots r).Sound cfg.window
  opened : ∀ r < σ.nslots, (σ.slots r).op ≠ .accepted →
    ∃ k < σ.opened, (σ.slots r).s.id = cfg.role.firstId + 2 * UInt32.ofNat k
  accepted : ∀ r < σ.nslots, (σ.slots r).op = .accepted →
    ¬ cfg.role.Owns (σ.slots r).s.id ∧ forStream (σ.slots r).s.id got ≠ []
  unique : ∀ r < σ.nslots, ∀ r' < σ.nslots, (σ.slots r).s.id = (σ.slots r').s.id → r = r'
  table : ∀ r, r ∈ σ.streams ↔ r < σ.nslots ∧ ((σ.slots r).op = .accepted ∨ (σ.slots r).op = .published)
  queued : ∀ r, r ∈ σ.queue ∨ σ.accept = .got r ∨ σ.loop.accepting = some r → r < σ.nslots ∧ (σ.slots r).op = .accepted
  sentBy : ∀ r < σ.nslots, forStream (σ.slots r).s.id sent = (σ.slots r).tx
  sentOwner : ∀ frame ∈ sent, ∃ r < σ.nslots, (σ.slots r).s.id = frame.hdr.streamId
  loop : LoopOk σ.Knows σ.loop cur
  syn : ∀ id w, σ.loop = .syn (synHdr id w) →
    ¬ cfg.role.Owns id ∧ (∀ r < σ.nslots, (σ.slots r).s.id ≠ id) ∧ forStream id got = [⟨synHdr id w, []⟩]
  received : ∀ r < σ.nslots, Received lossless (σ.slots r) (σ.loop.pending cur (σ.slots r).s.id)
    (eventsOf (forStream (σ.slots r).s.id got))
  unknown : ∀ id, (∀ r < σ.nslots, (σ.slots r).s.id ≠ id) → forStream id got = [] ∨ ∃ w, σ.loop = .syn (synHdr id w)
  inHand : ∀ id, forStream id got = [] → σ.loop.pending cur id = []

theorem EndInv.create (lossless : Prop) (cfg : Config) : EndInv lossless cfg (Session.create cfg) [] [] [] where
  alive := ⟨rfl, rfl⟩
  nextId := by simp [Session.create]
  inert := fun _ _ => rfl
  sound := nofun
  opened := nofun
  accepted := nofun
  unique := nofun
  table := by simp [Session.create]
  queued := by simp [Session.create, LoopPc.accepting]
  sentBy := nofun
  sentOwner := nofun
  loop := .top
  syn := nofun
  received := nofun
  unknown := fun _ _ => Or.inl rfl
  inHand := fun _ _ => rfl

section Steps

variable {lossless : Prop} {cfg : Config} {σ : Session} {sent got : List Frame} {cur : List UInt8}

theorem EndInv.find_some (inv : EndInv lossless cfg σ sent got cur) {id : UInt32} {r : Nat} (known : σ.Knows id r) :
    σ.muxFindStream id = some r := by
  have found : (σ.muxFindStream id).isSome := by
    simp only [muxFindStream, List.find?_isSome, beq_iff_eq]
    exact ⟨r, known⟩
  obtain ⟨other, at_⟩ := Option.isSome_iff_exists.mp found
  have same : (σ.slots other).s.id = id := by simpa using List.find?_some at_
  have inside := (inv.table other).mp (List.mem_of_find?_eq_some at_)
  have insideR := (inv.table r).mp known.1
  rw [at_, inv.unique other inside.1 r insideR.1 (same.trans known.2.symm)]

theorem Session.knows_of_find {id : UInt32} {r : Nat} (found : σ.muxFindStream id = some r) : σ.Knows id r :=
  ⟨List.mem_of_find?_eq_some found, by simpa using List.find?_some found⟩

section

variable (inv : EndInv lossless cfg σ sent got cur)
include inv

/-- One stream moves, and with it perhaps the reader loop. The obligation `here` is about the stream that moves;
every other stream must find the frame in hand unchanged. -/
theorem EndInv.moveSlot {r : Nat} {slot' : Slot} (frames : List Frame)
    {pc : LoopPc} {rest : List UInt8} (inside : r < σ.nslots) (sound : slot'.Sound cfg.window)
    (key : SameKey (σ.slots r) slot') (tx : slot'.tx = (σ.slots r).tx ++ frames) (loop : LoopOk σ.Knows pc rest)
    (syn : ∀ id w, pc = .syn (synHdr id w) ↔ σ.loop = .syn (synHdr id w))
    (accepting : ∀ r', pc.accepting = some r' → σ.loop.accepting = some r')
    (others : ∀ id ≠ (σ.slots r).s.id, pc.pending rest id = σ.loop.pending cur id)
    (here : Received lossless slot' (pc.pending rest (σ.slots r).s.id) (eventsOf (forStream (σ.slots r).s.id got))) :
    EndInv lossless cfg { σ.setSlot r slot' with loop := pc } (sent ++ frames) got rest := by
  have same : ∀ r', SameKey (σ.slots r') ((σ.setSlot r slot').slots r') := by
    intro r'
    by_cases at_ : r' = r
    · subst at_; simpa [setSlot] using key
    · constructor <;> simp [setSlot, at_]
  have ids := fun r' => (same r').id
  have accepted := fun r' => (same r').accepted
  have published := fun r' => (same r').published
  have owner : ∀ frame ∈ frames, frame.hdr.streamId = (σ.slots r).s.id := by
    intro frame member
    rcases sound.shape.history.kind (tx ▸ mem_append_right _ member) with ⟨rfl, _⟩ | kind
    · exact key.id
    · exact kind.streamId.trans key.id
  refine {
    alive := inv.alive
    nextId := inv.nextId
    inert := fun r' beyond => ?_
    sound := fun r' inside' => ?_
    opened := fun r' inside' => by rw [ne_eq, accepted, ids]; exact inv.opened r' inside'
    accepted := fun r' inside' => by rw [accepted, ids]; exact inv.accepted r' inside'
    unique := fun a insideA b insideB => by rw [ids, ids]; exact inv.unique a insideA b insideB
    table := fun r' => by rw [accepted, published]; exact inv.table r'
    queued := fun r' => by
      rw [accepted]
      exact fun member => inv.queued r' (member.imp id (Or.imp id (accepting r')))
    sentBy := fun r' inside' => ?_
    sentOwner := fun frame member => ?_
    loop := loop.mono fun id r' known => ⟨known.1, (ids r').trans known.2⟩
    syn := fun id w at_ => ?_
    received := fun r' inside' => ?_
    inHand := fun id empty => ?_
    unknown := fun id absent =>
      (inv.unknown id fun r' inside' => by rw [← ids r']; exact absent r' inside').imp_right fun ⟨w, at_⟩ =>
        ⟨w, (syn id w).mpr at_⟩ }
  · have beyond : σ.nslots ≤ r' := beyond
    have away : r' ≠ r := by omega
    simpa [setSlot, away] using inv.inert r' beyond
  · by_cases at_ : r' = r
    · subst at_; simpa [setSlot] using sound
    · simpa [setSlot, at_] using inv.sound r' inside'
  · rw [ids, forStream_append, inv.sentBy r' inside']
    by_cases at_ : r' = r
    · subst at_
      have all : forStream (σ.slots r').s.id frames = frames := by
        simpa [forStream, filter_eq_self] using owner
      simp [setSlot, all, tx]
    · have none : forStream (σ.slots r').s.id frames = [] := by
        simp only [forStream, filter_eq_nil_iff, beq_iff_eq]
        intro frame member streamId
        exact at_ (inv.unique r' inside' r inside ((owner frame member).symm.trans streamId).symm)
      simp [setSlot, at_, none]
  · rcases mem_append.mp member with old | new
    · obtain ⟨r', inside', at_⟩ := inv.sentOwner frame old
      exact ⟨r', inside', (ids r').trans at_⟩
    · exact ⟨r, inside, (ids r).trans (owner frame new).symm⟩
  · obtain ⟨peer, absent, taken⟩ := inv.syn id w ((syn id w).mp at_)
    exact ⟨peer, fun r' inside' => by rw [ids]; exact absent r' inside', taken⟩
  · rw [ids]
    by_cases at_ : r' = r
    · subst at_; simpa [setSlot] using here
    · have away : (σ.slots r').s.id ≠ (σ.slots r).s.id := fun same => at_ (inv.unique r' inside' r inside same)
      simpa [setSlot, at_, others _ away] using inv.received r' inside'
  · by_cases at_ : id = (σ.slots r).s.id
    · rw [at_] at empty ⊢
      rw [empty] at here
      exact (append_eq_nil_iff.mp (eq_nil_of_sublist_nil here.1)).2
    · exact (others id at_).trans (inv.inHand id empty)

theorem EndInv.ownMove (free : Bool) {r : Nat} {slot' : Slot} {eff : Effect}
    (inside : r < σ.nslots) (move : OwnMove cfg.window free true (σ.slots r) slot' eff) :
    EndInv lossless cfg (σ.setSlot r slot') (sent ++ eff.frames) got cur := by
  refine inv.moveSlot eff.frames inside (OwnMove.sound (inv.sound r inside) move) move.key move.histories.2 inv.loop (fun _ _ => Iff.rfl)
    (fun _ => id) (fun _ _ => rfl) ?_
  simpa [Received, move.histories.1, move.key.accepted] using inv.received r inside

theorem EndInv.setLoop {pc : LoopPc} {rest : List UInt8}
    (loop : LoopOk σ.Knows pc rest) (syn : ∀ id w, pc = .syn (synHdr id w) ↔ σ.loop = .syn (synHdr id w))
    (accepting : ∀ r, pc.accepting = some r → σ.loop.accepting = some r)
    (less : ∀ id, σ.loop.pending cur id = [] → pc.pending rest id = [])
    (received : ∀ r < σ.nslots, Received lossless (σ.slots r) (pc.pending rest (σ.slots r).s.id)
      (eventsOf (forStream (σ.slots r).s.id got))) :
    EndInv lossless cfg { σ with loop := pc } sent got rest :=
  { inv with
    queued := fun r member => inv.queued r (member.imp id (Or.imp id (accepting r)))
    loop := loop
    syn := fun id w at_ => inv.syn id w ((syn id w).mp at_)
    received := received
    unknown := fun id absent => (inv.unknown id absent).imp_right fun ⟨w, at_⟩ => ⟨w, (syn id w).mpr at_⟩
    inHand := fun id empty => less id (inv.inHand id empty) }

theorem EndInv.addSlot (slot : Slot) (streams : List Nat) (opened : Nat)
    (next : UInt32) (pc : LoopPc) (fresh : ∀ r < σ.nslots, (σ.slots r).s.id ≠ slot.s.id)
    (sound : slot.Sound cfg.window) (silent : slot.tx = []) (more : σ.opened ≤ opened)
    (nextId : next = cfg.role.firstId + 2 * UInt32.ofNat opened)
    (own : slot.op ≠ .accepted → ∃ k < opened, slot.s.id = cfg.role.firstId + 2 * UInt32.ofNat k)
    (peer : slot.op = .accepted → ¬ cfg.role.Owns slot.s.id ∧ forStream slot.s.id got ≠ [])
    (table : ∀ r, r ∈ streams ↔ r ∈ σ.streams ∨ r = σ.nslots ∧ (slot.op = .accepted ∨ slot.op = .published))
    (accepting : ∀ r, pc.accepting = some r → σ.loop.accepting = some r ∨ r = σ.nslots ∧ slot.op = .accepted)
    (loop : LoopOk { σ with
      slots := update σ.slots σ.nslots slot, nslots := σ.nslots + 1, streams := streams }.Knows pc cur)
    (syn : ∀ id w, pc = .syn (synHdr id w) → σ.loop = .syn (synHdr id w) ∧ id ≠ slot.s.id)
    (hand : ∀ id, pc.pending cur id = σ.loop.pending cur id)
    (here : Received lossless slot (pc.pending cur slot.s.id) (eventsOf (forStream slot.s.id got)))
    (unknown : ∀ id w, σ.loop = .syn (synHdr id w) → pc = .syn (synHdr id w) ∨ id = slot.s.id) :
    EndInv lossless cfg { σ with
      slots := update σ.slots σ.nslots slot, nslots := σ.nslots + 1, streams := streams
      opened := opened, nextStreamId := next, loop := pc } sent got cur := by
  have old : ∀ r < σ.nslots, update σ.slots σ.nslots slot r = σ.slots r := fun r inside =>
    update_of_ne (by omega) _ _
  have new : update σ.slots σ.nslots slot σ.nslots = slot := Function.update_self ..
  have split : ∀ r < σ.nslots + 1, r < σ.nslots ∨ r = σ.nslots := fun r inside => by omega
  refine {
    alive := inv.alive
    nextId := nextId
    inert := fun r beyond => ?_
    sound := fun r inside => ?_
    opened := fun r inside => ?_
    accepted := fun r inside => ?_
    unique := fun a insideA b insideB same => ?_
    table := fun r => ?_
    queued := fun r member => ?_
    sentBy := fun r inside => ?_
    sentOwner := fun frame member => ?_
    loop := loop
    syn := fun id w at_ => ?_
    received := fun r inside => ?_
    unknown := fun id absent => ?_
    inHand := fun id empty => (hand id).trans (inv.inHand id empty) } <;> dsimp only at *
  · rw [update_of_ne (by omega)]
    exact inv.inert r (by omega)
  · rcases split r inside with inside | rfl
    · rw [old r inside]; exact inv.sound r inside
    · rw [new]; exact sound
  · rcases split r inside with inside | rfl
    · rw [old r inside]
      intro opener
      obtain ⟨k, bound, at_⟩ := inv.opened r inside opener
      exact ⟨k, by omega, at_⟩
    · rw [new]; exact own
  · rcases split r inside with inside | rfl
    · rw [old r inside]; exact inv.accepted r inside
    · rw [new]; exact peer
  · rcases split a insideA with insideA | rfl <;> rcases split b insideB with insideB | rfl
    · rw [old a insideA, old b insideB] at same; exact inv.unique a insideA b insideB same
    · rw [old a insideA, new] at same; exact absurd same (fresh a insideA)
    · rw [old b insideB, new] at same; exact absurd same.symm (fresh b insideB)
    · rfl
  · rw [table, inv.table]
    by_cases at_ : r = σ.nslots
    · subst at_; rw [new]; simp
    · rw [update_of_ne at_]
      simp only [at_, false_and, or_false, and_congr_left_iff]
      omega
  · rcases member with queued | got | at_
    · have old' := inv.queued r (Or.inl queued)
      rw [old r old'.1]; exact ⟨by omega, old'.2⟩
    · have old' := inv.queued r (Or.inr (Or.inl got))
      rw [old r old'.1]; exact ⟨by omega, old'.2⟩
    · rcases accepting r at_ with at_ | ⟨rfl, op⟩
      · have old' := inv.queued r (Or.inr (Or.inr at_))
        rw [old r old'.1]; exact ⟨by omega, old'.2⟩
      · rw [new]; exact ⟨by omega, op⟩
  · rcases split r inside with inside | rfl
    · rw [old r inside]; exact inv.sentBy r inside
    · rw [new, silent]
      simp only [forStream, filter_eq_nil_iff, beq_iff_eq]
      intro frame member same
      obtain ⟨r, inside, at_⟩ := inv.sentOwner frame member
      exact fresh r inside (at_.trans same)
  · obtain ⟨r, inside, at_⟩ := inv.sentOwner frame member
    exact ⟨r, by omega, by rw [old r inside]; exact at_⟩
  · obtain ⟨before, other⟩ := syn id w at_
    obtain ⟨peer, absent, taken⟩ := inv.syn id w before
    refine ⟨peer, fun r inside => ?_, taken⟩
    rcases split r inside with inside | rfl
    · rw [old r inside]; exact absent r inside
    · rw [new]; exact other.symm
  · rcases split r inside with inside | rfl
    · rw [old r inside, hand]; exact inv.received r inside
    · rw [new]; exact here
  · have absent' : ∀ r < σ.nslots, (σ.slots r).s.id ≠ id := fun r inside => by
      rw [← old r inside]; exact absent r (by omega)
    refine (inv.unknown id absent').imp_right fun ⟨w, at_⟩ => ?_
    rcases unknown id w at_ with same | same
    · exact ⟨w, same⟩
    · exact absurd same.symm (by simpa [new] using absent σ.nslots (by omega))

end

end Steps

end Xylem.Mux
