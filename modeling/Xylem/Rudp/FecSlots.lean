import Xylem.Rudp.Fec

namespace Xylem.Rudp

open Lib Finset
open Function (update_of_ne update_self)

section Slots

variable (codec : Erasure UInt8) (groups : Fin rudpFecMaxGroups → FecGroup)

/-- What the group slots of a decoder satisfy whatever packets it is fed: two slots in use are
never for one group, an unused slot is cleared, the count is the number of stored shards and
stays below the data shards, since a group that gets there is cleared. -/
structure FecSlots : Prop where
  distinct : ∀ s t, 0 < (groups s).count → 0 < (groups t).count → (groups s).groupId = (groups t).groupId → s = t
  cleared : ∀ s, (groups s).count = 0 → groups s = { FecGroup.zero with groupId := (groups s).groupId }
  inside : ∀ s i, (groups s).present i = true → i < codec.total
  counted : ∀ s, (groups s).count = ((Finset.range codec.total).filter fun i => (groups s).present i).card
  short : ∀ s, (groups s).count < codec.dataShards

/-- The shards that the decoder holds of a group. -/
def fecHeld (id : UInt32) : Finset Nat :=
  (Finset.range codec.total).filter fun i =>
    ∃ s, 0 < (groups s).count ∧ (groups s).groupId = id ∧ (groups s).present i = true

end Slots

variable {codec : Erasure UInt8} {groups : Fin rudpFecMaxGroups → FecGroup} {id : UInt32}
  {i : Nat} {s : Fin rudpFecMaxGroups}

theorem mem_fecHeld : i ∈ fecHeld codec groups id ↔
    i < codec.total ∧ ∃ s, 0 < (groups s).count ∧ (groups s).groupId = id ∧ (groups s).present i = true := by
  simp [fecHeld]

theorem fecHeld_absent (absent : ∀ s, 0 < (groups s).count → (groups s).groupId ≠ id) :
    fecHeld codec groups id = ∅ := by
  apply eq_empty_of_forall_notMem
  intro i member
  obtain ⟨_, s, live, same, _⟩ := mem_fecHeld.mp member
  exact absent s live same

section

variable (slots : FecSlots codec groups)
include slots

theorem FecSlots.mem_held (live : 0 < (groups s).count) :
    i ∈ fecHeld codec groups (groups s).groupId ↔ (groups s).present i = true := by
  rw [mem_fecHeld]
  constructor
  · rintro ⟨_, t, other, same, present⟩
    rw [slots.distinct s t live other same.symm]
    exact present
  · intro present
    exact ⟨slots.inside s i present, s, live, rfl, present⟩

theorem FecSlots.card_held
    (live : 0 < (groups s).count) : (fecHeld codec groups (groups s).groupId).card = (groups s).count := by
  rw [slots.counted s]
  congr 1
  ext i
  rw [slots.mem_held live, mem_filter, mem_range]
  exact ⟨fun present => ⟨slots.inside s i present, present⟩, And.right⟩

/-- The slot that a shard of group `id` goes to, and the record it finds there: the group's own
if a slot has it, else a cleared one in an unused slot or in place of the oldest group. -/
structure FecFound (codec : Erasure UInt8) (groups : Fin rudpFecMaxGroups → FecGroup) (id : UInt32)
    (gi : Fin rudpFecMaxGroups) (base : FecGroup) : Prop where
  found : fecDecFindGroup groups id = (gi, Function.update groups gi base)
  groupId : base.groupId = id
  present : ∀ i, base.present i = true ↔ i ∈ fecHeld codec groups id
  count : base.count = (fecHeld codec groups id).card
  slot : 0 < (groups gi).count ∧ (groups gi).groupId = id ∧ base = groups gi ∨
    (∀ s, 0 < (groups s).count → (groups s).groupId ≠ id) ∧ base = { FecGroup.zero with groupId := id } ∧
      ((groups gi).count = 0 ∨ (∀ s, 0 < (groups s).count) ∧ gi = fecOldest groups)

theorem FecSlots.find (id : UInt32) : ∃ gi base, FecFound codec groups id gi base := by
  have fresh : (∀ s, 0 < (groups s).count → (groups s).groupId ≠ id) → fecHeld codec groups id = ∅ := fecHeld_absent
  cases own : (List.finRange rudpFecMaxGroups).find?
      fun i => 0 < (groups i).count ∧ (groups i).groupId = id with
  | some gi =>
    have chosen := List.find?_some own
    simp only [decide_eq_true_eq] at chosen
    obtain ⟨live, same⟩ := chosen
    refine ⟨gi, groups gi, ?_, same, ?_, ?_, Or.inl ⟨live, same, rfl⟩⟩
    · simp only [fecDecFindGroup, own, Function.update_eq_self]
    · intro i
      rw [← same]
      exact (slots.mem_held live).symm
    · rw [← same]
      exact (slots.card_held live).symm
  | none =>
    have absent : ∀ s, 0 < (groups s).count → (groups s).groupId ≠ id := by
      intro s live same
      have none := List.find?_eq_none.mp own s (List.mem_finRange s)
      simp [live, same] at none
    cases unused : (List.finRange rudpFecMaxGroups).find? fun i => (groups i).count = 0 with
    | some gi =>
      have chosen := List.find?_some unused
      simp only [decide_eq_true_eq] at chosen
      have clear : { groups gi with groupId := id } = { FecGroup.zero with groupId := id } := by
        rw [slots.cleared gi chosen]
      refine ⟨gi, { FecGroup.zero with groupId := id }, ?_, rfl, ?_, ?_, Or.inr ⟨absent, rfl, Or.inl chosen⟩⟩
      · simp only [fecDecFindGroup, own, unused, clear]
      · simp [fresh absent, FecGroup.zero]
      · simp [fresh absent, FecGroup.zero]
    | none =>
      have full : ∀ s, 0 < (groups s).count := by
        intro s
        have none := List.find?_eq_none.mp unused s (List.mem_finRange s)
        simp only [decide_eq_true_eq] at none
        exact Nat.pos_of_ne_zero none
      refine ⟨fecOldest groups, { FecGroup.zero with groupId := id }, ?_, rfl, ?_, ?_,
        Or.inr ⟨absent, rfl, Or.inr ⟨full, rfl⟩⟩⟩
      · simp only [fecDecFindGroup, own, unused]
      · simp [fresh absent, FecGroup.zero]
      · simp [fresh absent, FecGroup.zero]

end

/-- A group gives up its slot to a shard of group `id`: every slot is in use and it is the oldest. -/
def fecEvicted (groups : Fin rudpFecMaxGroups → FecGroup) (id other : UInt32) : Prop :=
  (∀ s, 0 < (groups s).count ∧ (groups s).groupId ≠ id) ∧ other = (groups (fecOldest groups)).groupId

namespace FecFound

variable {gi : Fin rudpFecMaxGroups} {base grp : FecGroup} (found : FecFound codec groups id gi base)
include found

section

variable (slots : FecSlots codec groups)
include slots

/-- The other slots never hold the group of the shard. -/
theorem others (other : s ≠ gi) (live : 0 < (groups s).count) : (groups s).groupId ≠ id := by
  intro same
  rcases found.slot with ⟨own, is, _⟩ | ⟨absent, _⟩
  · exact other (slots.distinct s gi live own (same.trans is.symm))
  · exact absent s live same

theorem held_own (sameId : grp.groupId = id) (live : 0 < grp.count)
    (inside : ∀ i, grp.present i = true → i < codec.total) :
    i ∈ fecHeld codec (Function.update groups gi grp) id ↔ grp.present i = true := by
  rw [mem_fecHeld]
  constructor
  · rintro ⟨_, s, used, same, present⟩
    by_cases here : s = gi
    · rw [here, update_self] at present
      exact present
    · rw [update_of_ne here] at used same
      exact absurd same (found.others slots here used)
  · intro present
    exact ⟨inside i present, gi, by simp [live, sameId, present]⟩

theorem held_cleared (gone : grp.count = 0) : fecHeld codec (Function.update groups gi grp) id = ∅ := by
  apply fecHeld_absent
  intro s used
  by_cases here : s = gi
  · rw [here, update_self, gone] at used
    exact absurd used (Nat.lt_irrefl 0)
  · rw [update_of_ne here] at used ⊢
    exact found.others slots here used

theorem held_other (own : grp.count = 0 ∨ grp.groupId = id) {other : UInt32} (differs : other ≠ id) :
    fecHeld codec (Function.update groups gi grp) other = fecHeld codec groups other ∨
      fecHeld codec (Function.update groups gi grp) other = ∅ ∧ fecEvicted groups id other := by
  have elsewhere : ∀ s, 0 < (Function.update groups gi grp s).count →
      (Function.update groups gi grp s).groupId = other → s ≠ gi := by
    rintro s used same rfl
    rw [update_self] at used same
    rcases own with gone | is
    · omega
    · exact differs (same.symm.trans is)
  by_cases victim : 0 < (groups gi).count ∧ (groups gi).groupId = other
  · right
    constructor
    · apply fecHeld_absent
      intro s used same
      have moved := elsewhere s used same
      rw [update_of_ne moved] at used same
      exact moved (slots.distinct s gi used victim.1 (same.trans victim.2.symm))
    · rcases found.slot with ⟨_, is, _⟩ | ⟨absent, _, unused | ⟨full, oldest⟩⟩
      · exact absurd (victim.2.symm.trans is) differs
      · omega
      · exact ⟨fun s => ⟨full s, absent s (full s)⟩, by rw [← oldest]; exact victim.2.symm⟩
  · left
    ext i
    simp only [mem_fecHeld]
    constructor
    · rintro ⟨inside, s, used, same, present⟩
      have moved := elsewhere s used same
      rw [update_of_ne moved] at used same present
      exact ⟨inside, s, used, same, present⟩
    · rintro ⟨inside, s, used, same, present⟩
      have moved : s ≠ gi := by
        rintro rfl
        exact victim ⟨used, same⟩
      refine ⟨inside, s, ?_⟩
      rw [update_of_ne moved]
      exact ⟨used, same, present⟩

end

end FecFound

theorem fecHeld_discard (newest : UInt32) : fecHeld codec (fecDecDiscardOld (some newest) groups) id =
      if (rudpFecMaxGroups : Int) < fecDiff newest id then ∅ else fecHeld codec groups id := by
  split
  · rename_i old
    apply fecHeld_absent
    intro s used same
    simp only [fecDecDiscardOld] at used same
    split at used
    · omega
    · split at used
      · exact absurd used (Nat.lt_irrefl 0)
      · rename_i live recent
        rw [if_neg live, if_neg recent] at same
        exact recent (same ▸ old)
  · rename_i recent
    ext i
    simp only [mem_fecHeld, fecDecDiscardOld]
    constructor
    · rintro ⟨inside, s, used, same, present⟩
      split at used
      · omega
      · split at used
        · exact absurd used (Nat.lt_irrefl 0)
        · rename_i live young
          rw [if_neg live, if_neg young] at same present
          exact ⟨inside, s, used, same, present⟩
    · rintro ⟨inside, s, used, same, present⟩
      refine ⟨inside, s, ?_⟩
      rw [if_neg (by omega), if_neg (by rw [same]; exact recent)]
      exact ⟨used, same, present⟩

theorem FecSlots.zero (pos : 0 < codec.dataShards) : FecSlots codec fun _ => FecGroup.zero where
  distinct s t live := absurd live (Nat.lt_irrefl 0)
  cleared s _ := rfl
  inside s i present := nomatch present
  counted s := by simp [FecGroup.zero]
  short s := pos

theorem FecSlots.update (slots : FecSlots codec groups) {gi : Fin rudpFecMaxGroups} {base grp : FecGroup}
    (found : FecFound codec groups id gi base) (own : grp.count = 0 ∨ grp.groupId = id)
    (cleared : grp.count = 0 → grp = { FecGroup.zero with groupId := grp.groupId })
    (inside : ∀ i, grp.present i = true → i < codec.total)
    (counted : grp.count = ((Finset.range codec.total).filter fun i => grp.present i).card)
    (short : grp.count < codec.dataShards) : FecSlots codec (Function.update groups gi grp) := by
  have each : ∀ (P : FecGroup → Prop), P grp → (∀ s, P (groups s)) → ∀ s, P (Function.update groups gi grp s) := by
    intro P here there s
    by_cases same : s = gi
    · rw [same, update_self]
      exact here
    · rw [update_of_ne same]
      exact there s
  refine ⟨?_, ?_, ?_, ?_, ?_⟩
  · intro s t usedS usedT same
    by_cases hereS : s = gi <;> by_cases hereT : t = gi
    · rw [hereS, hereT]
    · rw [hereS, update_self] at usedS same
      rw [update_of_ne hereT] at usedT same
      have is := own.resolve_left (by omega)
      exact absurd (same.symm.trans is) (found.others slots hereT usedT)
    · rw [hereT, update_self] at usedT same
      rw [update_of_ne hereS] at usedS same
      have is := own.resolve_left (by omega)
      exact absurd (same.trans is) (found.others slots hereS usedS)
    · rw [update_of_ne hereS] at usedS same
      rw [update_of_ne hereT] at usedT same
      exact slots.distinct s t usedS usedT same
  · exact each (fun g => g.count = 0 → g = { FecGroup.zero with groupId := g.groupId }) cleared slots.cleared
  · exact each (fun g => ∀ i, g.present i = true → i < codec.total) inside slots.inside
  · exact each (fun g => g.count = ((Finset.range codec.total).filter fun i => g.present i).card) counted slots.counted
  · exact each (fun g => g.count < codec.dataShards) short slots.short

theorem FecSlots.discard (slots : FecSlots codec groups) (newest : UInt32) :
    FecSlots codec (fecDecDiscardOld (some newest) groups) := by
  have pos : 0 < codec.dataShards := Nat.lt_of_le_of_lt (Nat.zero_le _) (slots.short 0)
  have zero : FecSlots codec fun _ => FecGroup.zero := FecSlots.zero pos
  have outcome : ∀ s, fecDecDiscardOld (some newest) groups s = groups s ∨
      fecDecDiscardOld (some newest) groups s = FecGroup.zero := by
    intro s
    simp only [fecDecDiscardOld]
    split
    · exact Or.inl rfl
    · split
      · exact Or.inr rfl
      · exact Or.inl rfl
  refine ⟨?_, ?_, ?_, ?_, ?_⟩
  · intro s t usedS usedT same
    rcases outcome s with keptS | goneS
    · rcases outcome t with keptT | goneT
      · rw [keptS] at usedS same
        rw [keptT] at usedT same
        exact slots.distinct s t usedS usedT same
      · rw [goneT] at usedT
        exact absurd usedT (Nat.lt_irrefl 0)
    · rw [goneS] at usedS
      exact absurd usedS (Nat.lt_irrefl 0)
  · intro s
    rcases outcome s with kept | gone
    · rw [kept]; exact slots.cleared s
    · rw [gone]; exact zero.cleared s
  · intro s
    rcases outcome s with kept | gone
    · rw [kept]; exact slots.inside s
    · rw [gone]; exact zero.inside s
  · intro s
    rcases outcome s with kept | gone
    · rw [kept]; exact slots.counted s
    · rw [gone]; exact zero.counted s
  · intro s
    rcases outcome s with kept | gone
    · rw [kept]; exact slots.short s
    · rw [gone]; exact zero.short s

end Xylem.Rudp
