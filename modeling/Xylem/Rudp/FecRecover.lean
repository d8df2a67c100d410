import Xylem.Rudp.FecFeed

namespace Xylem.Rudp

open Lib Nat UInt32
open List (mem_append mem_append_left mem_singleton nil_append)
open Finset (card_le_card card_pos mem_filter mem_insert mem_range)

theorem fecDiff_small {a b : Nat} (smallA : a < 2 ^ 31) (smallB : b < 2 ^ 31) :
    fecDiff (UInt32.ofNat a) (UInt32.ofNat b) = (a : Int) - b := by
  unfold fecDiff
  rw [BitVec.toInt_eq_toNat_cond]
  simp only [toNat_toBitVec, UInt32.toNat_sub, toNat_ofNat']
  split <;> omega

theorem ofNat_small_inj {a b : Nat} (smallA : a < 2 ^ 31) (smallB : b < 2 ^ 31)
    (same : UInt32.ofNat a = UInt32.ofNat b) : a = b := by
  have value := congrArg UInt32.toNat same
  simp only [toNat_ofNat'] at value
  omega

theorem fecWrap_div_lt {total : Nat} (two : 2 ≤ total) {k : Nat} (below : k < fecWrap total) : k / total < 2 ^ 31 := by
  have quotient : k / total < 0xFFFFFFFF / total := Nat.div_lt_of_lt_mul (by rw [Nat.mul_comm]; exact below)
  have half : 0xFFFFFFFF / total ≤ 0xFFFFFFFF / 2 := div_le_div_left two (by omega)
  omega

theorem fecOldest_le {groups : Fin rudpFecMaxGroups → FecGroup} {number : Fin rudpFecMaxGroups → Nat}
    (is : ∀ s, (groups s).groupId = UInt32.ofNat (number s)) (small : ∀ s, number s < 2 ^ 31) (s : Fin rudpFecMaxGroups) :
    number (fecOldest groups) ≤ number s := by
  have diff : ∀ s t, fecDiff (groups s).groupId (groups t).groupId < 0 ↔ number s < number t := by
    intro s t
    rw [is s, is t, fecDiff_small (small s) (small t)]
    omega
  have picked : fecOldest groups =
      if number 2 < number (if number 1 < number 0 then 1 else 0) then 2 else if number 1 < number 0 then 1 else 0 := by
    simp only [fecOldest, diff]
    rfl
  rw [picked]
  have three : ∀ s : Fin rudpFecMaxGroups, s = 0 ∨ s = 1 ∨ s = 2 := by decide
  rcases three s with rfl | rfl | rfl <;> split_ifs <;> omega

variable {codec : Erasure UInt8} {pay : List (List UInt8)} {mtu : Nat} (total g : Nat) (past : List Nat)

/-- The shards of group `g` among those that arrived. -/
def fecArrived : Finset Nat :=
  (Finset.range total).filter fun i => g * total + i ∈ past

/-- A shard of a group three or more ahead has arrived. -/
def fecPassed : Prop := ∃ k ∈ past, g + 3 ≤ k / total

/-- Every payload of group `g` is among the outputs, as it was or padded. -/
def fecDone (codec : Erasure UInt8) (pay : List (List UInt8)) (g : Nat) (outs : List (List UInt8)) : Prop :=
  ∀ i < codec.dataShards, fecPayload codec pay g i ∈ outs ∨ padTo (fecLen codec pay g) (fecPayload codec pay g i) ∈ outs

/-- A decoder that has been fed the shards `past`, none of them after the wrap. -/
structure FecFed (codec : Erasure UInt8) (pay : List (List UInt8)) (mtu : Nat) (past : List Nat)
    (outs : List (List UInt8)) (dec : RudpFecDec) : Prop where
  good : dec.Good codec mtu
  early : ∀ k ∈ past, k < fecWrap codec.total
  newest : past = [] ∧ dec.newestGroup = none ∨
    ∃ k ∈ past, dec.newestGroup = some (UInt32.ofNat (k / codec.total)) ∧ ∀ j ∈ past, j / codec.total ≤ k / codec.total
  genuine : ∀ g, g < 2 ^ 31 → dec.Genuine codec pay (UInt32.ofNat g) g
  origin : ∀ id, ∀ i ∈ fecHeld codec dec.groups id,
    ∃ k ∈ past, UInt32.ofNat (k / codec.total) = id ∧ k % codec.total = i
  tracked : ∀ g, g < 2 ^ 31 → fecDone codec pay g outs ∨ (fecArrived codec.total g past).card < codec.dataShards ∧
    (fecPassed codec.total g past ∨ fecHeld codec dec.groups (UInt32.ofNat g) = fecArrived codec.total g past)
  direct : ∀ k ∈ past, k % codec.total < codec.dataShards →
    fecPayload codec pay (k / codec.total) (k % codec.total) ∈ outs
  sound : ∀ bytes ∈ outs, (∃ k ∈ past, k % codec.total < codec.dataShards ∧
      bytes = fecPayload codec pay (k / codec.total) (k % codec.total)) ∨
    ∃ g j, codec.dataShards ≤ (fecArrived codec.total g past).card ∧ j < codec.dataShards ∧
      bytes = padTo (fecLen codec pay g) (fecPayload codec pay g j)

variable {g k total : Nat} {outs : List (List UInt8)} {dec : RudpFecDec}

theorem fecArrived_own (pos : 0 < total) (past : List Nat) :
    fecArrived total (k / total) (past ++ [k]) = insert (k % total) (fecArrived total (k / total) past) := by
  have whole := div_add_mod' k total
  have inside := mod_lt k pos
  ext i
  simp only [fecArrived, mem_filter, mem_range, mem_append, mem_singleton, mem_insert]
  constructor
  · rintro ⟨below, member | same⟩
    · exact .inr ⟨below, member⟩
    · exact .inl (by omega)
  · rintro (rfl | ⟨below, member⟩)
    · exact ⟨inside, .inr whole⟩
    · exact ⟨below, .inl member⟩

theorem fecArrived_other (past : List Nat) (differs : g ≠ k / total) :
    fecArrived total g (past ++ [k]) = fecArrived total g past := by
  ext i
  simp only [fecArrived, mem_filter, mem_range, mem_append, mem_singleton]
  refine and_congr_right fun below => or_iff_left ?_
  intro same
  apply differs
  rw [← same, (fecPlace g below).1]

theorem fecArrived_mono (past later : List Nat) : fecArrived total g past ⊆ fecArrived total g (past ++ later) := by
  intro i member
  obtain ⟨below, arrived⟩ := mem_filter.mp member
  exact mem_filter.mpr ⟨below, mem_append_left _ arrived⟩

theorem fecPassed.append {past : List Nat} (passed : fecPassed total g past) (later : List Nat) :
    fecPassed total g (past ++ later) := by
  obtain ⟨k, member, ahead⟩ := passed
  exact ⟨k, mem_append_left _ member, ahead⟩

theorem fecDone.append (done : fecDone codec pay g outs) (later : List (List UInt8)) :
    fecDone codec pay g (outs ++ later) := by
  intro i data
  rcases done i data with exact_ | padded
  · exact .inl (mem_append_left _ exact_)
  · exact .inr (mem_append_left _ padded)

section Step

variable {past : List Nat} {outs out : List (List UInt8)} {dec next : RudpFecDec} {k : Nat}

/-- A group of which the decoder holds what it has seen is complete with the next shard, or has too few and holds that
shard too, unless its number is old. -/
theorem FecTakes.tracked {g i : Nat} {id : UInt32} {seen : Finset Nat} (takes : FecTakes codec pay g i id dec next out)
    (held : fecHeld codec dec.groups id = seen) (few : seen.card < codec.dataShards)
    (direct : ∀ j ∈ seen, j < codec.dataShards → fecPayload codec pay g j ∈ outs) :
    fecDone codec pay g (outs ++ out) ∨ (insert i seen).card < codec.dataShards ∧
      (fecHeld codec next.groups id = insert i seen ∨ 3 < fecDiff (fecNewest dec.newestGroup id) id) := by
  subst held
  rcases takes.held with ⟨member, kept⟩ | ⟨fresh, ⟨full, recovered⟩ | ⟨short, kept⟩⟩
  · rw [Finset.insert_eq_of_mem member]
    exact .inr ⟨few, .inl kept⟩
  · left
    intro j data
    by_cases here : j = i
    · rw [here] at data ⊢
      exact .inl (List.mem_append_right _ (takes.direct data))
    · by_cases before : j ∈ fecHeld codec dec.groups id
      · exact .inl (mem_append_left _ (direct j before data))
      · exact .inr (List.mem_append_right _ (recovered j data here before))
  · rw [Finset.card_insert_of_notMem fresh]
    exact .inr ⟨short, kept⟩

section

variable (fed : FecFed codec pay mtu past outs dec)
include fed

theorem FecFed.slot_origin {s : Fin rudpFecMaxGroups} (live : 0 < (dec.groups s).count) :
    ∃ j ∈ past, UInt32.ofNat (j / codec.total) = (dec.groups s).groupId := by
  have card := fed.good.slots.card_held live
  have nonempty : 0 < (fecHeld codec dec.groups (dec.groups s).groupId).card := by omega
  obtain ⟨i, member⟩ := card_pos.mp nonempty
  obtain ⟨j, arrived, same, _⟩ := fed.origin _ i member
  exact ⟨j, arrived, same⟩

theorem FecFed.evicted_passed (two : 2 ≤ codec.total)
    (order : ∀ j ∈ past, j / codec.total < k / codec.total + 3) (small : g < 2 ^ 31)
    (evicted : fecEvicted dec.groups (UInt32.ofNat (k / codec.total)) (UInt32.ofNat g)) :
    fecPassed codec.total g (past ++ [k]) := by
  obtain ⟨full, oldest⟩ := evicted
  choose source arrived number using fun s => fed.slot_origin (full s).1
  have bounds : ∀ s, source s / codec.total < 2 ^ 31 := fun s => fecWrap_div_lt two (fed.early _ (arrived s))
  have lowest := fecOldest_le (fun s => (number s).symm) bounds
  have gIs : g = source (fecOldest dec.groups) / codec.total := by
    rw [← number] at oldest
    exact ofNat_small_inj small (bounds _) oldest
  have apart : ∀ s, source s / codec.total ≠ k / codec.total := by
    intro s same
    exact (full s).2 (by rw [← number s, same])
  have distinct : ∀ s t, s ≠ t → source s / codec.total ≠ source t / codec.total := by
    intro s t differ same
    exact differ (fed.good.slots.distinct s t (full s).1 (full t).1 (by rw [← number s, ← number t, same]))
  have near : ∀ s, source s / codec.total < k / codec.total + 3 := fun s => order _ (arrived s)
  by_contra ahead
  have none : ∀ s, source s / codec.total < g + 3 := by
    intro s
    by_contra far
    exact ahead ⟨source s, mem_append_left _ (arrived s), Nat.le_of_not_lt far⟩
  have ownNear : k / codec.total < g + 3 := by
    by_contra far
    exact ahead ⟨k, by simp, Nat.le_of_not_lt far⟩
  -- four different numbers between `g` and `g + 2`
  have d01 := distinct 0 1 (by decide)
  have d02 := distinct 0 2 (by decide)
  have d12 := distinct 1 2 (by decide)
  have low0 := lowest 0
  have low1 := lowest 1
  have low2 := lowest 2
  rw [← gIs] at low0 low1 low2
  have a0 := apart 0
  have a1 := apart 1
  have a2 := apart 2
  have n0 := none 0
  have n1 := none 1
  have n2 := none 2
  have m0 := near 0
  have m1 := near 1
  have m2 := near 2
  omega

theorem FecFed.newest_step (two : 2 ≤ codec.total) (early : k < fecWrap codec.total) :
    ∃ top ∈ past ++ [k], fecNewest dec.newestGroup (UInt32.ofNat (k / codec.total)) =
        UInt32.ofNat (top / codec.total) ∧ ∀ j ∈ past ++ [k], j / codec.total ≤ top / codec.total := by
  rcases fed.newest with ⟨empty, none⟩ | ⟨top, member, is, highest⟩
  · refine ⟨k, by simp, by rw [none]; rfl, ?_⟩
    intro j at_
    rw [empty, nil_append, mem_singleton] at at_
    rw [at_]
  · have diff := fecDiff_small (fecWrap_div_lt two early) (fecWrap_div_lt two (fed.early top member))
    rw [is]
    simp only [fecNewest, diff]
    split
    · rename_i newer
      refine ⟨k, by simp, rfl, ?_⟩
      intro j at_
      rcases mem_append.mp at_ with old | here
      · have below := highest j old
        omega
      · rw [mem_singleton.mp here]
    · rename_i older
      refine ⟨top, mem_append_left _ member, rfl, ?_⟩
      intro j at_
      rcases mem_append.mp at_ with old | here
      · exact highest j old
      · rw [mem_singleton.mp here]
        omega

theorem FecFed.step (load : FecLoad codec pay mtu)
    (early : k < fecWrap codec.total) (order : ∀ j ∈ past, j / codec.total < k / codec.total + 3)
    (takes : FecTakes codec pay (k / codec.total) (k % codec.total) (UInt32.ofNat (k / codec.total)) dec next out)
    (good : next.Good codec mtu) :
    FecFed codec pay mtu (past ++ [k]) (outs ++ out) next := by
  have two : 2 ≤ codec.total := Nat.add_le_add load.accepts.1 load.accepts.2.1
  have own := fecWrap_div_lt two early
  have pos := load.totalPos
  have earlyAll : ∀ j ∈ past ++ [k], j < fecWrap codec.total := by
    intro j member
    rcases mem_append.mp member with old | here
    · exact fed.early j old
    · rw [mem_singleton.mp here]
      exact early
  obtain ⟨top, topIn, topIs, highest⟩ := fed.newest_step two early
  have newest : next.newestGroup = some (UInt32.ofNat (top / codec.total)) := by rw [takes.newest, topIs]
  have discarded : ∀ g, g < 2 ^ 31 →
      3 < fecDiff (fecNewest dec.newestGroup (UInt32.ofNat (k / codec.total))) (UInt32.ofNat g) →
      fecPassed codec.total g (past ++ [k]) := by
    intro g small old
    rw [topIs, fecDiff_small (fecWrap_div_lt two (earlyAll top topIn)) small] at old
    exact ⟨top, topIn, by omega⟩
  have originOwn : ∀ i ∈ insert (k % codec.total) (fecHeld codec dec.groups (UInt32.ofNat (k / codec.total))),
      ∃ j ∈ past ++ [k], UInt32.ofNat (j / codec.total) = UInt32.ofNat (k / codec.total) ∧ j % codec.total = i := by
    intro i member
    rcases mem_insert.mp member with rfl | held
    · exact ⟨k, by simp, rfl, rfl⟩
    · obtain ⟨j, arrived, same, place⟩ := fed.origin _ i held
      exact ⟨j, mem_append_left _ arrived, same, place⟩
  have heldArrived : insert (k % codec.total) (fecHeld codec dec.groups (UInt32.ofNat (k / codec.total))) ⊆
      fecArrived codec.total (k / codec.total) (past ++ [k]) := by
    intro i member
    obtain ⟨j, arrived, same, place⟩ := originOwn i member
    have group := ofNat_small_inj (fecWrap_div_lt two (earlyAll j arrived)) own same
    have whole := div_add_mod' j codec.total
    rw [group, place] at whole
    refine mem_filter.mpr ⟨mem_range.mpr (place ▸ mod_lt j pos), ?_⟩
    rw [whole]
    exact arrived
  refine ⟨good, earlyAll, .inr ⟨top, topIn, newest, highest⟩, ?_, ?_, ?_, ?_, ?_⟩
  · intro g small
    by_cases same : g = k / codec.total
    · rw [same]
      exact takes.genuine
    · exact takes.keeps _ (fun is => same (ofNat_small_inj small own is)) g (fed.genuine g small)
  · intro id i member
    by_cases same : id = UInt32.ofNat (k / codec.total)
    · subst same
      exact originOwn i (takes.subset member)
    · rcases takes.others id same with kept | ⟨gone, _⟩
      · rw [kept] at member
        obtain ⟨j, arrived, is, place⟩ := fed.origin id i member
        exact ⟨j, mem_append_left _ arrived, is, place⟩
      · rw [gone] at member
        cases member
  · intro g small
    rcases fed.tracked g small with done | ⟨few, state⟩
    · exact .inl (done.append _)
    by_cases same : g = k / codec.total
    · subst same
      have held : fecHeld codec dec.groups (UInt32.ofNat (k / codec.total)) =
          fecArrived codec.total (k / codec.total) past := by
        rcases state with ⟨j, arrived, ahead⟩ | tracked
        · have near := order j arrived
          omega
        · exact tracked
      rw [fecArrived_own pos]
      refine (takes.tracked held few fun i before data => ?_).imp_right (And.imp_right fun kept => ?_)
      · have inside : i < codec.total := Nat.lt_of_lt_of_le data (Nat.le_add_right _ _)
        have whole := fed.direct _ (mem_filter.mp before).2
        rw [(fecPlace _ inside).1, (fecPlace _ inside).2] at whole
        exact whole data
      · exact kept.symm.imp_left (discarded _ own)
    · rw [fecArrived_other past same]
      refine .inr ⟨few, ?_⟩
      rcases state with passed | tracked
      · exact .inl (passed.append _)
      · rcases takes.others (UInt32.ofNat g) (fun is => same (ofNat_small_inj small own is)) with
          kept | ⟨_, evicted | old⟩
        · exact .inr (kept.trans tracked)
        · exact .inl (fed.evicted_passed two order small evicted)
        · exact .inl (discarded g small old)
  · intro j member data
    rcases mem_append.mp member with old | here
    · exact mem_append_left _ (fed.direct j old data)
    · rw [mem_singleton.mp here] at data ⊢
      exact List.mem_append_right _ (takes.direct data)
  · intro bytes member
    rcases mem_append.mp member with old | new
    · rcases fed.sound bytes old with ⟨j, arrived, data, is⟩ | ⟨g, j, enough, data, is⟩
      · exact .inl ⟨j, mem_append_left _ arrived, data, is⟩
      · exact .inr ⟨g, j, le_trans enough (card_le_card (fecArrived_mono past [k])), data, is⟩
    · rcases takes.sound bytes new with ⟨data, is⟩ | ⟨enough, j, data, is⟩
      · exact .inl ⟨k, by simp, data, is⟩
      · exact .inr ⟨_, j, le_trans enough (card_le_card heldArrived), data, is⟩

end

end Step

theorem FecFed.run (load : FecLoad codec pay mtu) {past later : List Nat} (fed : FecFed codec pay mtu past outs dec)
    (early : ∀ k ∈ later, k < fecWrap codec.total)
    (order : (past ++ later).Pairwise fun first second => first / codec.total < second / codec.total + 3) :
    FecFed codec pay mtu (past ++ later) (outs ++ (rudpFecDecRun dec (later.map (fecShard codec pay))).2)
      (rudpFecDecRun dec (later.map (fecShard codec pay))).1 := by
  induction later generalizing past outs dec with
  | nil => simpa [rudpFecDecRun] using fed
  | cons k rest ih =>
    have earlyK : k < fecWrap codec.total := early k List.mem_cons_self
    have id : fecGroupId codec.total k = UInt32.ofNat (k / codec.total) := by
      rw [fecGroupId, mod_eq_of_lt earlyK]
    have two : 2 ≤ codec.total := Nat.add_le_add load.accepts.1 load.accepts.2.1
    have near : ∀ j ∈ past, j / codec.total < k / codec.total + 3 :=
      fun j member => (List.pairwise_append.mp order).2.2 j member k List.mem_cons_self
    have takes := fecDecStore_takes load fed.good (fed.genuine _ (fecWrap_div_lt two earlyK))
      (mod_lt k load.totalPos)
    have good := fecDecStore_good fed.good (mod_lt k load.totalPos)
    have stepped := ih (fed.step load earlyK near takes (good _ _ _ _)) (fun j member => early j (List.mem_cons_of_mem _ member))
      (by rw [List.append_assoc]; exact order)
    simp only [List.append_assoc, List.singleton_append] at stepped
    simp only [List.map_cons, rudpFecDecRun, rudpFecDecFeed_shard load fed.good.codecIs fed.good.mtuIs, id]
    exact stepped

theorem FecFed.start (load : FecLoad codec pay mtu) (created : rudpFecDecCreate codec mtu = some dec) :
    FecFed codec pay mtu [] [] dec := by
  obtain ⟨good, newest, unused⟩ := rudpFecDecCreate_good created
  have none : ∀ id, fecHeld codec dec.groups id = ∅ := by
    intro id
    apply fecHeld_absent
    intro s live
    rw [unused s] at live
    exact absurd live (Nat.lt_irrefl 0)
  have arrived : ∀ g, fecArrived codec.total g [] = ∅ := by
    intro g
    simp [fecArrived]
  refine ⟨good, nofun, .inl ⟨rfl, newest⟩, ?_, ?_, ?_, nofun, nofun⟩
  · intro g _ s live
    rw [unused s] at live
    exact absurd live (Nat.lt_irrefl 0)
  · intro id i member
    rw [none] at member
    cases member
  · intro g _
    rw [none, arrived]
    exact .inr ⟨load.dataPos, .inr rfl⟩

theorem fecArrived_whole {delivery : List Nat} {n g : Nat} (sent : ∀ k ∈ delivery, k < fecSent codec n)
    (pos : 0 < codec.dataShards) (enough : codec.dataShards ≤ (fecArrived codec.total g delivery).card) {i : Nat}
    (data : i < codec.dataShards) : g * codec.dataShards + i < n := by
  have split := div_add_mod' n codec.dataShards
  have below := mod_lt n pos
  have before : g < n / codec.dataShards := by
    by_contra behind
    have covered : fecArrived codec.total g delivery ⊆ Finset.range (n % codec.dataShards) := by
      intro j member
      have placed := sent _ (mem_filter.mp member).2
      have ahead := Nat.mul_le_mul_right codec.total (Nat.le_of_not_lt behind)
      simp only [fecSent] at placed
      exact mem_range.mpr (by omega)
    have card := card_le_card covered
    rw [Finset.card_range] at card
    omega
  have room : (g + 1) * codec.dataShards ≤ n / codec.dataShards * codec.dataShards := Nat.mul_le_mul_right _ before
  rw [succ_mul] at room
  omega

theorem fecPayload_sent {k n : Nat} (sent : k < fecSent codec n)
    (data : k % codec.total < codec.dataShards) : k / codec.total * codec.dataShards + k % codec.total < n := by
  have dataPos : 0 < codec.dataShards := Nat.lt_of_le_of_lt (Nat.zero_le _) data
  have split := div_add_mod' n codec.dataShards
  have below := mod_lt n dataPos
  have whole := div_add_mod' k codec.total
  have fewer : codec.dataShards ≤ codec.total := Nat.le_add_right _ _
  unfold fecSent at sent
  rcases Nat.lt_trichotomy (k / codec.total) (n / codec.dataShards) with before | same | after
  · have room : (k / codec.total + 1) * codec.dataShards ≤ n / codec.dataShards * codec.dataShards :=
      Nat.mul_le_mul_right _ before
    rw [succ_mul] at room
    omega
  · rw [same] at whole ⊢
    omega
  · have room : (n / codec.dataShards + 1) * codec.total ≤ k / codec.total * codec.total :=
      Nat.mul_le_mul_right _ after
    rw [succ_mul] at room
    omega

/-- Whatever shards are lost, duplicated or reordered, as long as a group's shards come before those of the
groups three and more ahead: a group with `dataShards` different shards delivered has all its payloads
among the outputs, and only payloads are output. Position `k` of what the encoder sent is a shard of
group `k / total`. -/
theorem fec_recovers_losses (correct : codec.Correct) (room : rudpFecHeaderSize < mtu)
    (limit : mtu ≤ rudpFecHeaderSize + 0xFFFF) (fits : ∀ src ∈ pay, rudpFecHeaderSize + src.length ≤ mtu)
    (early : fecSent codec pay.length ≤ fecWrap codec.total) {enc : RudpFecEnc} {dec : RudpFecDec}
    (encCreated : rudpFecEncCreate codec mtu = some enc) (decCreated : rudpFecDecCreate codec mtu = some dec) :
    ∃ last sent, rudpFecEncRun enc pay = .ok (last, sent) ∧ ∀ delivery : List Nat, (∀ k ∈ delivery, k < sent.length) →
        delivery.Pairwise (fun first later => first / codec.total < later / codec.total + 3) →
        ∀ outs, outs = (rudpFecDecRun dec (delivery.map fun k => sent.getD k [])).2 →
          (∀ g, codec.dataShards ≤ (fecArrived codec.total g delivery).card → ∀ i < codec.dataShards,
            ∃ inside : g * codec.dataShards + i < pay.length,
              (g * codec.total + i ∈ delivery → pay[g * codec.dataShards + i] ∈ outs) ∧
              (pay[g * codec.dataShards + i] ∈ outs ∨
                padTo (fecLen codec pay g) pay[g * codec.dataShards + i] ∈ outs)) ∧
          (∀ bytes ∈ outs, ∃ n, ∃ inside : n < pay.length, bytes = pay[n] ∨
            bytes = padTo (fecLen codec pay (n / codec.dataShards)) pay[n]) := by
  have accepts : fecAccepts codec mtu := by
    unfold rudpFecEncCreate at encCreated
    split at encCreated
    · assumption
    · cases encCreated
  have load : FecLoad codec pay mtu := ⟨correct, accepts, room, fits, fun src member => by
    have bound := fits src member
    omega⟩
  have pos := load.totalPos
  obtain ⟨last, ran⟩ := rudpFecEncRun_sends load encCreated
  refine ⟨last, _, ran, ?_⟩
  intro delivery positions order outs outsIs
  rw [List.length_map, List.length_range] at positions
  have before : ∀ k ∈ delivery, k < fecWrap codec.total := fun k member =>
    Nat.lt_of_lt_of_le (positions k member) early
  have fed := (FecFed.start load decCreated).run load before order
  rw [nil_append, nil_append, ← map_fecShard positions, ← outsIs] at fed
  have payload : ∀ g i, ∀ inside : g * codec.dataShards + i < pay.length,
      fecPayload codec pay g i = pay[g * codec.dataShards + i] := fun g i inside =>
    List.getD_eq_getElem _ _ inside
  constructor
  · intro g enough i data
    have inside := fecArrived_whole positions load.dataPos enough data
    have two : 2 ≤ codec.total := Nat.add_le_add load.accepts.1 load.accepts.2.1
    have small : g < 2 ^ 31 := by
      obtain ⟨j, member⟩ := card_pos.mp (Nat.lt_of_lt_of_le load.dataPos enough)
      obtain ⟨place, arrived⟩ := mem_filter.mp member
      have bound := fecWrap_div_lt two (before _ arrived)
      rw [(fecPlace g (mem_range.mp place)).1] at bound
      exact bound
    refine ⟨inside, ?_, ?_⟩
    · intro arrived
      have total : i < codec.total := Nat.lt_of_lt_of_le data (Nat.le_add_right _ _)
      have direct := fed.direct _ arrived
      rw [(fecPlace g total).1, (fecPlace g total).2, payload g i inside] at direct
      exact direct data
    · rcases fed.tracked g small with done | ⟨few, _⟩
      · rw [← payload g i inside]
        exact done i data
      · omega
  · intro bytes member
    rcases fed.sound bytes member with ⟨k, arrived, data, is⟩ | ⟨g, j, enough, data, is⟩
    · have inside := fecPayload_sent (positions k arrived) data
      exact ⟨_, inside, .inl (is.trans (payload _ _ inside))⟩
    · have inside := fecArrived_whole positions load.dataPos enough data
      refine ⟨_, inside, .inr ?_⟩
      rw [is, payload g j inside, (fecPlace g data).1]

theorem fec_recovers_losses_first :
    ∃ enc dec last sent, rudpFecEncCreate Erasure.xor 16 = some enc ∧ rudpFecDecCreate Erasure.xor 16 = some dec ∧
      rudpFecEncRun enc [[1], [2, 3]] = .ok (last, sent) ∧
      ∃ outs, outs = (rudpFecDecRun dec ([2, 1].map fun k => sent.getD k [])).2 ∧
        ([1] ∈ outs ∨ [1, 0] ∈ outs) ∧ [2, 3] ∈ outs := by
  have fits : ∀ src ∈ ([[1], [2, 3]] : List (List UInt8)), rudpFecHeaderSize + src.length ≤ 16 := by decide
  obtain ⟨last, sent, ran, recovers⟩ :=
    fec_recovers_losses Erasure.xor_correct (by decide) (by decide) fits (by decide) rfl rfl
  have length : some 3 = some sent.length := congrArg (fun run => run.toOption.map fun result => result.2.length) ran
  have count : sent.length = 3 := (Option.some.inj length).symm
  obtain ⟨complete, _⟩ := recovers [2, 1] (by rw [count]; decide) (by decide) _ rfl
  obtain ⟨_, _, first⟩ := complete 0 (by decide) 0 (by decide)
  obtain ⟨_, second, _⟩ := complete 0 (by decide) 1 (by decide)
  exact ⟨_, _, last, sent, rfl, rfl, ran, _, rfl, first, second (by decide)⟩

/-- Without the lower bound on the `mtu` and the padding of empty payloads the guarantee fails, and it fails
when only the group exactly three ahead is asked to wait: a group all of whose payloads are empty is
recovered as a zero byte, a group whose fourth successor arrives is discarded although nothing of its
third successor did, and an `mtu` that leaves room for empty payloads only is overrun. -/
theorem fec_recovers_padded_or_not :
    ∃ enc dec tight, rudpFecEncCreate Erasure.xor 9 = some enc ∧ rudpFecDecCreate Erasure.xor 9 = some dec ∧
      rudpFecEncCreate Erasure.xor 8 = some tight ∧
      (∃ last sent, rudpFecEncRun enc [[], []] = .ok (last, sent) ∧
        (rudpFecDecRun dec ([1, 2].map fun k => sent.getD k [])).2 = [[], [0]]) ∧
      (∃ last sent, rudpFecEncRun enc ((List.range 10).map fun n => [UInt8.ofNat n]) = .ok (last, sent) ∧
        (rudpFecDecRun dec ([0, 12, 2].map fun k => sent.getD k [])).2 = [[0], [8]]) ∧
      (∃ fault, rudpFecEncRun tight [[], []] = .error fault ∧ fault = .overrun) := by
  refine ⟨_, _, _, rfl, rfl, rfl, ⟨_, _, rfl, ?_⟩, ⟨_, _, rfl, ?_⟩, ⟨_, rfl, rfl⟩⟩
  · decide +kernel
  · decide +kernel

end Xylem.Rudp
