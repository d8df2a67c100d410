import Xylem.Mux.FramePair

namespace Xylem.Mux

open List Option

/-- The payload that an end has announced in a header and not yet handed to the transport. -/
def Session.owed (σ : Session) : List UInt8 := owedBytes σ.writeMu σ.writing

/-- The bytes of each direction spell the frames of that direction, from the first byte the reader loop
has not consumed. -/
structure Refines (p : Pair) (x : FramePair) : Prop where
  ends : p.ends = x.ends
  exclusive : ∀ ρ, Exclusive (p.ends ρ).writeMu (p.ends ρ).writing
  bytes : ∀ ρ, (p.links ρ).rbuf ++ (p.links ρ).wire ++ (p.ends ρ).owed =
    (x.flows ρ).cur ++ (x.flows ρ).queue.flatMap Frame.bytes

theorem EndInv.regular {lossless : Prop} {cfg : Config} {σ : Session} {sent got : List Frame} {cur : List UInt8}
    (inv : EndInv lossless cfg σ sent got cur) : σ.Regular where
  unborn := inv.inert
  unshut := fun _ => inv.alive.2
  unclosed := fun r open_ => by
    by_cases inside : r < σ.nslots
    · by_contra busy
      have closed := (inv.sound r inside).life.closer busy
      rw [open_] at closed
      cases closed
    · rw [inv.inert r (by omega)]; rfl

section Steps

variable {lossless : Prop} {windows : Role → UInt32} {p p' : Pair} {x : FramePair}

theorem Refines.create (windows : Role → UInt32) : Refines (Pair.create windows) (FramePair.create windows) where
  ends := rfl
  exclusive := by
    intro ρ X
    constructor
    · rintro ⟨fw, at_, _⟩
      cases X with
      | task t r => cases t <;> cases at_
      | loop | shut => cases at_
    · nofun
  bytes := fun _ => rfl

variable {cfg : Config} {σ σ' : Session} {got sent : List Frame} {cur : List UInt8} {act : Act}
  {eff : Effect} {ρ : Role}

theorem EndInv.not_free (inv : EndInv lossless cfg σ sent got cur) (moved : σ.step cfg act = some (σ', eff)) :
    act ≠ .destroyFree := by
  rintro rfl
  unfold Session.step at moved
  split at moved
  · cases moved
  · simp [inv.alive.2] at moved

/-- What a step of an open end writes is what it owed and the frames it sends. -/
theorem EndInv.step_owed (inv : EndInv lossless cfg σ sent got cur) (exclusive : Exclusive σ.writeMu σ.writing)
    (reliable : act.reliable = true) (moved : σ.step cfg act = some (σ', eff)) :
    Exclusive σ'.writeMu σ'.writing ∧ eff.bytes ++ σ'.owed = σ.owed ++ eff.frames.flatMap Frame.bytes := by
  obtain ⟨X, ok, good, move, holder⟩ := Session.step_writing inv.regular (inv.not_free moved) moved
  cases good reliable
  unfold Session.owed
  rw [holder]
  exact ⟨move.exclusive exclusive, move.owed exclusive⟩

theorem Refines.run (sim : Refines p x) (inv : x.Inv lossless windows) (moved : p.step windows (.run ρ act) = some p') :
    ∃ y, x.step windows (.run ρ act) = some y ∧ Refines p' y := by
  simp only [Pair.step] at moved
  split at moved <;> rename_i inner
  swap
  · cases moved
  obtain ⟨⟨σ', eff⟩, stepped, same⟩ := map_eq_some_iff.mp moved
  cases same
  have reliable : act.reliable = true := by
    unfold Act.inner at inner
    split at inner
    · cases inner
    · exact inner
  have stepped' := stepped
  rw [sim.ends] at stepped'
  refine ⟨_, by simp only [FramePair.step, inner, if_true, stepped', map_some]; rfl, ?_⟩
  obtain ⟨exclusive, owed⟩ := (inv ρ).step_owed (sim.ends ▸ sim.exclusive ρ) reliable stepped'
  refine ⟨by rw [sim.ends], fun τ => ?_, fun τ => ?_⟩
  · rcases ρ.eq_or_other τ with rfl | rfl
    · simpa using exclusive
    · simpa using sim.exclusive ρ.other
  · rcases ρ.eq_or_other τ with rfl | rfl
    · have before := sim.bytes τ
      rw [← sim.ends] at owed
      calc _ = (p.links τ).rbuf ++ (p.links τ).wire ++ (eff.bytes ++ σ'.owed) := by simp
        _ = _ := by rw [owed, ← append_assoc, before]; simp
    · simpa using sim.bytes ρ.other

theorem Refines.complete (sim : Refines p x) (inv : x.Inv lossless windows)
    (moved : p.step windows (.complete ρ) = some p') :
    ∃ act y, (∀ τ a, act ≠ .run τ a) ∧ x.step windows act = some y ∧ Refines p' y := by
  simp only [Pair.step] at moved
  obtain ⟨⟨σ', eff⟩, stepped, same⟩ := map_eq_some_iff.mp moved
  cases same
  have here := inv ρ
  have bytes := sim.bytes ρ.other
  obtain ⟨took, rfl⟩ := Session.step_bytes stepped
  have stepped' := stepped
  rw [sim.ends] at stepped' took
  obtain ⟨exclusive, owed⟩ := here.step_owed (sim.ends ▸ sim.exclusive ρ) rfl stepped'
  simp only [Effect.bytes, Effect.frames, flatMap_nil, nil_append, append_nil] at owed
  have want : loopWant (x.ends ρ).loop = some (p.links ρ.other).rbuf.length := by
    unfold Session.loopBytes at took
    split at took
    · assumption
    · cases took
  -- both new states differ from the old ones in end `ρ` and in the direction towards it
  have close : ∀ flow : Flow, (p.links ρ.other).wire ++ (p.ends ρ.other).owed = flow.cur ++ flow.queue.flatMap Frame.bytes →
      Refines ⟨Function.update p.ends ρ σ', Function.update p.links ρ.other ⟨(p.links ρ.other).wire, []⟩⟩
        ⟨Function.update x.ends ρ σ', Function.update x.flows ρ.other flow⟩ := by
    intro flow spells
    refine ⟨by rw [sim.ends], fun τ => ?_, fun τ => ?_⟩
    · rcases ρ.eq_or_other τ with rfl | rfl
      · simpa using exclusive
      · simpa using sim.exclusive ρ.other
    · rcases ρ.eq_or_other τ with rfl | rfl
      · simpa [owed, ← sim.ends] using sim.bytes τ
      · simpa using spells
  by_cases at_ : (x.ends ρ).loop = .hdr
  · have cur : (x.flows ρ.other).cur = [] := LoopOk.hdr_cur (at_ ▸ here.loop)
    rw [at_] at want
    have length : (p.links ρ.other).rbuf.length = muxFrameHdrSize := (Option.some.inj want).symm
    rw [cur, nil_append] at bytes
    cases queue : (x.flows ρ.other).queue with
    | nil =>
      rw [queue] at bytes
      simp only [flatMap_nil, append_eq_nil_iff] at bytes
      rw [bytes.1.1] at length
      cases length
    | cons frame rest =>
      rw [queue, flatMap_cons, Frame.bytes, append_assoc, append_assoc] at bytes
      obtain ⟨header, body⟩ := append_inj bytes (by rw [length, muxFrameEncode_length])
      rw [header] at stepped'
      refine ⟨.header ρ, _, by simp, ?_, close ⟨(x.flows ρ.other).taken ++ [frame], frame.data, rest⟩ body⟩
      simp only [FramePair.step, queue, at_, if_true, stepped', map_some]
  · have fits := here.loop.want_le at_ want
    rw [append_assoc] at bytes
    have front : (p.links ρ.other).rbuf = (x.flows ρ.other).cur.take (p.links ρ.other).rbuf.length := by
      have taken := congrArg (List.take (p.links ρ.other).rbuf.length) bytes
      rwa [take_left, take_append_of_le_length fits] at taken
    have rest : (p.links ρ.other).wire ++ (p.ends ρ.other).owed =
        (x.flows ρ.other).cur.drop (p.links ρ.other).rbuf.length ++ (x.flows ρ.other).queue.flatMap Frame.bytes := by
      have dropped := congrArg (List.drop (p.links ρ.other).rbuf.length) bytes
      rwa [drop_left, drop_append_of_le_length fits] at dropped
    rw [front] at stepped'
    refine ⟨.body ρ (p.links ρ.other).rbuf.length, _, by simp, ?_,
      close { x.flows ρ.other with cur := (x.flows ρ.other).cur.drop (p.links ρ.other).rbuf.length } rest⟩
    simp only [FramePair.step, ne_eq, at_, not_false_eq_true, if_true, stepped', map_some]

/-- Over any chunking of the transport, the pair behaves as one that exchanges whole frames in order. -/
theorem Pair.refines {guard : Guard} (strict : ∀ ends ρ act, guard ends ρ act → Admits lossless ends ρ act)
    (reach : Lib.Reach (Pair.step windows) (Pair.Obeys guard) (Pair.create windows) p) :
    ∃ x, Lib.Reach (FramePair.step windows) (FramePair.Obeys guard) (FramePair.create windows) x ∧ Refines p x := by
  refine Lib.Reach.simulate (Refines.create windows) (fun p act p' x _ reachX sim obeys moved => ?_) reach
  have inv := FramePair.inv_reach strict reachX
  cases act with
  | run ρ act =>
    obtain ⟨y, moved, sim'⟩ := sim.run inv moved
    exact Or.inr ⟨_, y, by rw [FramePair.Obeys, ← sim.ends]; exact obeys, moved, sim'⟩
  | rx ρ n =>
    simp only [Pair.step] at moved
    obtain ⟨want, _, moved⟩ := bind_eq_some_iff.mp moved
    split at moved <;> cases moved
    refine Or.inl ⟨sim.ends, sim.exclusive, fun τ => ?_⟩
    rcases ρ.eq_or_other τ with rfl | rfl
    · simpa using sim.bytes τ
    · simpa using sim.bytes ρ.other
  | complete ρ =>
    obtain ⟨act, y, passive, moved, sim'⟩ := sim.complete inv moved
    refine Or.inr ⟨act, y, ?_, moved, sim'⟩
    cases act with
    | run τ a => exact absurd rfl (passive τ a)
    | header | body => trivial

end Steps

end Xylem.Mux
