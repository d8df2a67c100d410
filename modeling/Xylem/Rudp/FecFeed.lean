import Xylem.Rudp.FecSend
import Xylem.Rudp.FecSlots

namespace Xylem.Rudp

open Lib Nat Finset UInt16
open Function (update update_idem update_of_ne update_self)

variable {codec : Erasure UInt8} {pay : List (List UInt8)} {mtu : Nat}

/-- The stored shards of a slot are those that were sent for group `g`. -/
structure FecGroup.Genuine (codec : Erasure UInt8) (pay : List (List UInt8)) (g : Nat) (grp : FecGroup)
    (bufs : Nat → List UInt8) : Prop where
  sizes : ∀ i, grp.present i = true → grp.payloadSizes i = UInt16.ofNat (fecBody codec pay g i).length
  bytes : ∀ i, grp.present i = true → ∃ rest, bufs i = fecBody codec pay g i ++ rest
  longest : ∀ i, grp.present i = true → (fecBody codec pay g i).length ≤ grp.maxPayload
  bound : grp.maxPayload ≤ fecLen codec pay g

theorem FecGroup.Genuine.zero (g : Nat) (id : UInt32) (bufs : Nat → List UInt8) :
    FecGroup.Genuine codec pay g { FecGroup.zero with groupId := id } bufs :=
  ⟨nofun, nofun, nofun, Nat.zero_le _⟩

variable {grp : FecGroup} {bufs : Nat → List UInt8} {dec : RudpFecDec}

theorem exists_parity_of_missing {present : Nat → Bool} {j : Nat}
    (enough : codec.dataShards ≤ ((Finset.range codec.total).filter fun i => present i).card)
    (data : j < codec.dataShards) (missing : present j = false) :
    ∃ i, codec.dataShards ≤ i ∧ i < codec.total ∧ present i = true := by
  by_contra none
  have covered : (Finset.range codec.total).filter (fun i => present i) ⊆ (Finset.range codec.dataShards).erase j := by
    intro i member
    obtain ⟨inside, here⟩ := mem_filter.mp member
    have below : i < codec.dataShards := by
      by_contra beyond
      exact none ⟨i, Nat.le_of_not_lt beyond, mem_range.mp inside, here⟩
    refine mem_erase.mpr ⟨?_, mem_range.mpr below⟩
    rintro rfl
    rw [missing] at here
    cases here
  have card := card_le_card covered
  rw [card_erase_of_mem (mem_range.mpr data), card_range] at card
  omega

section

variable (load : FecLoad codec pay mtu) {g i : Nat}
include load

theorem FecGroup.Genuine.add (genuine : grp.Genuine codec pay g bufs) (inside : i < codec.total) :
    (grp.add i (UInt16.ofNat (fecBody codec pay g i).length) (fecBody codec pay g i)).Genuine codec pay g
      (update bufs i (fecCopy (fecBody codec pay g i) (bufs i))) := by
  refine ⟨?_, ?_, ?_, max_le (load.body_le_len inside) genuine.bound⟩
  · intro j present
    by_cases same : j = i
    · rw [same]
      exact update_self ..
    · simp only [FecGroup.add, update_of_ne same] at present ⊢
      exact genuine.sizes j present
  · intro j present
    by_cases same : j = i
    · rw [same, update_self]
      exact ⟨_, rfl⟩
    · simp only [FecGroup.add, update_of_ne same] at present ⊢
      exact genuine.bytes j present
  · intro j present
    by_cases same : j = i
    · rw [same]
      exact le_max_left _ _
    · simp only [FecGroup.add, update_of_ne same] at present ⊢
      exact le_trans (genuine.longest j present) (le_max_right _ _)

theorem FecLoad.word_getD (g : Nat) (inside : i < codec.total) :
    (fecData codec pay g ++ fecParity codec pay g).getD i [] = padTo (fecLen codec pay g) (fecBody codec pay g i) := by
  have count : (fecData codec pay g).length = codec.dataShards := (load.word g).dataCount
  by_cases data : i < codec.dataShards
  · rw [List.getD_append _ _ _ _ (by omega), fecBody, if_pos data, List.getD_eq_getElem _ _ (by omega)]
    simp [fecData]
  · have parity : i - codec.dataShards < codec.parityShards := by
      have total : codec.total = codec.dataShards + codec.parityShards := rfl
      omega
    rw [List.getD_append_right _ _ _ _ (by omega), fecBody, if_neg data, count, padTo, load.parity_length parity]
    simp

/-- Recovery gives the missing payloads, padded to the length the group was encoded with. -/
theorem fecDecRecover_eq (genuine : grp.Genuine codec pay g bufs)
    (enough : codec.dataShards ≤ ((Finset.range codec.total).filter fun i => grp.present i).card) :
    (fecDecRecover codec grp bufs).2 = ((List.range codec.dataShards).filter fun i => !grp.present i).map fun i =>
      padTo (fecLen codec pay g) (fecPayload codec pay g i) := by
  unfold fecDecRecover
  by_cases none : ((List.range codec.dataShards).filter fun i => !grp.present i) = []
  · simp [none]
  obtain ⟨j, member⟩ := List.exists_mem_of_ne_nil _ none
  obtain ⟨data, missing⟩ := List.mem_filter.mp member
  obtain ⟨i, beyond, inside, here⟩ :=
    exists_parity_of_missing enough (List.mem_range.mp data) (by simpa using missing)
  have total : codec.total = codec.dataShards + codec.parityShards := rfl
  -- a parity shard is as long as the code word, so the decoder pads to the encoder's length
  have longest : grp.maxPayload = fecLen codec pay g := by
    have reached := genuine.longest i here
    rw [fecBody, if_neg (Nat.not_lt.mpr beyond), load.parity_length (by omega)] at reached
    exact le_antisymm genuine.bound reached
  have pos : 0 < fecLen codec pay g := FecLoad.len_pos g
  have rsLen : (if grp.maxPayload = 0 then 1 else grp.maxPayload) = fecLen codec pay g := by
    rw [longest, if_neg (by omega)]
  simp only [if_neg none, rsLen]
  have restored : ∀ i < codec.total, grp.present i = true → fecPadded (fecLen codec pay g)
        (if i < codec.dataShards then grp.payloadSizes i else ofNat (fecLen codec pay g)) (bufs i) =
      padTo (fecLen codec pay g) (fecBody codec pay g i) := by
    intro i inside here
    obtain ⟨rest, bytes⟩ := genuine.bytes i here
    have size : (if i < codec.dataShards then grp.payloadSizes i else ofNat (fecLen codec pay g)) =
        ofNat (fecBody codec pay g i).length := by
      split
      · exact genuine.sizes i here
      · rename_i beyond
        rw [fecBody, if_neg beyond, load.parity_length (by omega)]
    rw [size, bytes, fecPadded_eq rest (load.body_le_len inside) (load.len_small g)]
  generalize shards : (fun i => if grp.present i = true then fecPadded (fecLen codec pay g)
    (if i < codec.dataShards then grp.payloadSizes i else ofNat (fecLen codec pay g)) (bufs i)
    else List.replicate (fecLen codec pay g) 0) = shard
  have shardIs : ∀ i, shard i = if grp.present i = true then fecPadded (fecLen codec pay g)
      (if i < codec.dataShards then grp.payloadSizes i else ofNat (fecLen codec pay g)) (bufs i)
      else List.replicate (fecLen codec pay g) 0 := fun i => (congrFun shards i).symm
  have suffices_ : codec.Suffices (fecLen codec pay g) (fecData codec pay g ++ fecParity codec pay g)
      ((List.range codec.total).map shard) ((List.range codec.total).map fun i => !grp.present i) := by
    have mark : ∀ i < codec.total, ((List.range codec.total).map fun i => !grp.present i).getD i true = !grp.present i := by
      intro i inside
      rw [List.getD_eq_getElem _ _ (by simpa using inside)]
      simp
    refine ⟨by simp, by simp, ?_, ?_, ?_⟩
    · intro bytes member
      obtain ⟨i, position, rfl⟩ := List.mem_map.mp member
      have inside := List.mem_range.mp position
      rw [shardIs]
      split
      · rename_i here
        rw [restored i inside here, padTo_length (load.body_le_len inside)]
      · exact List.length_replicate
    · intro i inside unmarked
      rw [mark i inside, Bool.not_eq_false'] at unmarked
      rw [List.getD_eq_getElem _ _ (by simpa using inside), load.word_getD g inside]
      simp only [List.getElem_map, List.getElem_range, shardIs, unmarked, if_true]
      exact restored i inside unmarked
    · refine le_trans enough (card_le_card fun i member => ?_)
      obtain ⟨inside, here⟩ := mem_filter.mp member
      refine mem_filter.mpr ⟨inside, ?_⟩
      rw [mark i (mem_range.mp inside), here]
      rfl
  obtain ⟨out, reconstructed, same⟩ := load.correct.restores _ _ _ _ _ pos (load.word g) suffices_
  rw [reconstructed]
  refine List.map_congr_left fun i member => ?_
  have data := List.mem_range.mp (List.mem_filter.mp member).1
  rw [same i data, List.getD_eq_getElem _ _ (by rw [(load.word g).dataCount]; exact data)]
  simp [fecData]

/-- The group number on the `k`-th shard. -/
def fecGroupId (total k : Nat) : UInt32 := UInt32.ofNat (k % fecWrap total / total)

theorem rudpFecDecFeed_shard (codecIs : dec.codec = codec) (mtuIs : dec.mtu = mtu) (k : Nat) :
    rudpFecDecFeed dec (fecShard codec pay k) (rudpFecDecFeedSize dec) =
      some (fecDecStore dec (fecGroupId codec.total k) (k % codec.total) (fecType codec (k % codec.total))
        (UInt16.ofNat (fecBody codec pay (k / codec.total) (k % codec.total)).length)
        (fecBody codec pay (k / codec.total) (k % codec.total))) := by
  have inside := mod_lt k load.totalPos
  generalize bodyIs : fecBody codec pay (k / codec.total) (k % codec.total) = body
  have fits : rudpFecHeaderSize + body.length ≤ mtu := by
    have below := load.body_le_len (g := k / codec.total) inside
    have room := load.len_fits (k / codec.total)
    rw [bodyIs] at below
    omega
  have small : body.length ≤ 0xFFFF := by
    have below := load.body_le_len (g := k / codec.total) inside
    have bound := load.len_small (k / codec.total)
    rw [bodyIs] at below
    omega
  have known : ¬ (fecType codec (k % codec.total) ≠ rudpFecTypeData ∧
      fecType codec (k % codec.total) ≠ rudpFecTypeParity) := by
    unfold fecType
    split <;> simp
  have total : (UInt32.ofNat codec.total).toNat = codec.total := by
    have bound : codec.total ≤ 255 := load.total_le
    simp only [UInt32.toNat_ofNat']
    omega
  have seqid := fecSeqid_toNat load.total_le load.totalPos k
  have limit := fecWrap_lt codec.total
  have below := mod_lt k (fecWrap_pos load.total_le load.totalPos)
  have group : fecSeqid codec.total k / UInt32.ofNat codec.total = fecGroupId codec.total k := by
    apply UInt32.toNat_inj.mp
    have quotient := Nat.div_le_self (k % fecWrap codec.total) codec.total
    rw [UInt32.toNat_div, seqid, total, fecGroupId, UInt32.toNat_ofNat']
    exact (mod_eq_of_lt (by omega)).symm
  have place : (fecSeqid codec.total k % UInt32.ofNat codec.total).toNat = k % codec.total := by
    rw [UInt32.toNat_mod, seqid, total]
    exact mod_mod_of_dvd k (Nat.dvd_mul_left _ _)
  have size : (ofNat body.length).toNat = body.length := by
    simp only [toNat_ofNat']
    omega
  unfold rudpFecDecFeed rudpFecDecFeedSize
  have readSeqid : fecReadU32Le (fecShard codec pay k) = fecSeqid codec.total k := by
    unfold fecShard fecHeader
    simp only [List.append_assoc]
    exact fecReadU32Le_write _ _
  have readType : fecReadU16Le ((fecShard codec pay k).drop 4) = fecType codec (k % codec.total) := by
    unfold fecShard fecHeader
    simp only [List.append_assoc]
    exact fecReadU16Le_write _ _
  have readSize : fecReadU16Le ((fecShard codec pay k).drop 6) = ofNat body.length := by
    unfold fecShard fecHeader
    simp only [List.append_assoc, bodyIs]
    exact fecReadU16Le_write _ _
  have payload : (fecShard codec pay k).drop rudpFecHeaderSize = body := by
    unfold fecShard
    rw [bodyIs]
    exact List.drop_left' rfl
  have length : (fecShard codec pay k).length = rudpFecHeaderSize + body.length := by
    unfold fecShard
    rw [bodyIs, List.length_append, fecHeader_length]
  simp only [readSeqid, readType, readSize, payload, length, codecIs, mtuIs, group, place, size, Nat.lt_irrefl,
    if_false, if_neg known, if_neg (Nat.not_lt.mpr fits), if_neg (Nat.not_lt.mpr (Nat.le_add_right _ _))]

end

/-- A decoder in order, made for this code and this `mtu`. -/
structure RudpFecDec.Good (codec : Erasure UInt8) (mtu : Nat) (dec : RudpFecDec) : Prop where
  codecIs : dec.codec = codec
  mtuIs : dec.mtu = mtu
  slots : FecSlots codec dec.groups

theorem rudpFecDecCreate_good (created : rudpFecDecCreate codec mtu = some dec) :
    dec.Good codec mtu ∧ dec.newestGroup = none ∧ ∀ s, (dec.groups s).count = 0 := by
  unfold rudpFecDecCreate at created
  split at created
  · rename_i accepts
    cases created
    exact ⟨⟨rfl, rfl, FecSlots.zero accepts.1⟩, rfl, fun _ => rfl⟩
  · cases created

/-- Whatever slot has this group number, its shards are those of group `g`. -/
def RudpFecDec.Genuine (codec : Erasure UInt8) (pay : List (List UInt8)) (dec : RudpFecDec) (id : UInt32) (g : Nat) : Prop :=
  ∀ s, 0 < (dec.groups s).count → (dec.groups s).groupId = id → (dec.groups s).Genuine codec pay g (dec.buf s)

/-- What taking shard `i` of group `g` does to a decoder. -/
structure FecTakes (codec : Erasure UInt8) (pay : List (List UInt8)) (g i : Nat) (id : UInt32) (dec next : RudpFecDec)
    (out : List (List UInt8)) : Prop where
  newest : next.newestGroup = some (fecNewest dec.newestGroup id)
  genuine : next.Genuine codec pay id g
  held : i ∈ fecHeld codec dec.groups id ∧ fecHeld codec next.groups id = fecHeld codec dec.groups id ∨
    i ∉ fecHeld codec dec.groups id ∧ (codec.dataShards ≤ (fecHeld codec dec.groups id).card + 1 ∧
        (∀ j < codec.dataShards, j ≠ i → j ∉ fecHeld codec dec.groups id →
          padTo (fecLen codec pay g) (fecPayload codec pay g j) ∈ out) ∨
      (fecHeld codec dec.groups id).card + 1 < codec.dataShards ∧
        (fecHeld codec next.groups id = insert i (fecHeld codec dec.groups id) ∨
          3 < fecDiff (fecNewest dec.newestGroup id) id))
  subset : fecHeld codec next.groups id ⊆ insert i (fecHeld codec dec.groups id)
  others : ∀ other ≠ id, fecHeld codec next.groups other = fecHeld codec dec.groups other ∨
    fecHeld codec next.groups other = ∅ ∧
      (fecEvicted dec.groups id other ∨ 3 < fecDiff (fecNewest dec.newestGroup id) other)
  keeps : ∀ other ≠ id, ∀ h, dec.Genuine codec pay other h → next.Genuine codec pay other h
  direct : i < codec.dataShards → fecPayload codec pay g i ∈ out
  sound : ∀ bytes ∈ out, i < codec.dataShards ∧ bytes = fecPayload codec pay g i ∨
    codec.dataShards ≤ (insert i (fecHeld codec dec.groups id)).card ∧
      ∃ j < codec.dataShards, bytes = padTo (fecLen codec pay g) (fecPayload codec pay g j)

theorem fecDecDiscardOld_live {newest : UInt32} {groups : Fin rudpFecMaxGroups → FecGroup} {s : Fin rudpFecMaxGroups}
    (live : 0 < (fecDecDiscardOld (some newest) groups s).count) :
    fecDecDiscardOld (some newest) groups s = groups s := by
  simp only [fecDecDiscardOld] at live ⊢
  split at live
  · rename_i unused
    rw [if_pos unused]
  · split at live
    · exact absurd live (Nat.lt_irrefl 0)
    · rename_i used recent
      rw [if_neg used, if_neg recent]

section Store

variable {g i : Nat} {id : UInt32} {dec : RudpFecDec} {gi : Fin rudpFecMaxGroups} {base grp : FecGroup}
  {bufs : Nat → List UInt8} {newest : UInt32}

theorem FecFound.genuine_own (found : FecFound codec dec.groups id gi base) (slots : FecSlots codec dec.groups)
    (own : 0 < grp.count → grp.Genuine codec pay g bufs) :
    RudpFecDec.Genuine codec pay { dec with
      newestGroup := some newest
      groups := fecDecDiscardOld (some newest) (update dec.groups gi grp)
      buf := update dec.buf gi bufs } id g := by
  intro s live same
  have kept := fecDecDiscardOld_live live
  simp only [kept] at live same ⊢
  by_cases here : s = gi
  · subst here
    simp only [update_self] at live ⊢
    exact own live
  · rw [update_of_ne here] at live same
    exact absurd same (found.others slots here live)

variable {other : UInt32}

theorem FecFound.genuine_other {h : Nat} (sameId : 0 < grp.count → grp.groupId = id) (differs : other ≠ id)
    (genuine : dec.Genuine codec pay other h) :
    RudpFecDec.Genuine codec pay { dec with
      newestGroup := some newest
      groups := fecDecDiscardOld (some newest) (update dec.groups gi grp)
      buf := update dec.buf gi bufs } other h := by
  intro s live same
  have kept := fecDecDiscardOld_live live
  simp only [kept] at live same ⊢
  by_cases here : s = gi
  · subst here
    rw [update_self] at live same
    exact absurd (same.symm.trans (sameId live)) differs
  · simp only [update_of_ne here] at live same ⊢
    exact genuine s live same

theorem FecFound.others_next (found : FecFound codec dec.groups id gi base) (slots : FecSlots codec dec.groups)
    (own : grp.count = 0 ∨ grp.groupId = id) (differs : other ≠ id) :
    fecHeld codec (fecDecDiscardOld (some newest) (update dec.groups gi grp)) other = fecHeld codec dec.groups other ∨
      fecHeld codec (fecDecDiscardOld (some newest) (update dec.groups gi grp)) other = ∅ ∧
        (fecEvicted dec.groups id other ∨ 3 < fecDiff newest other) := by
  rw [fecHeld_discard]
  split
  · rename_i old
    exact .inr ⟨rfl, .inr old⟩
  · rcases found.held_other slots own differs with same | ⟨gone, evicted⟩
    · exact .inl same
    · exact .inr ⟨gone, .inl evicted⟩

theorem fecDirect_eq (load : FecLoad codec pay mtu) (inside : i < codec.total) :
    (if fecType codec i = rudpFecTypeData then
      [(fecBody codec pay g i).take (UInt16.ofNat (fecBody codec pay g i).length).toNat] else []) =
      if i < codec.dataShards then [fecPayload codec pay g i] else [] := by
  have small : (fecBody codec pay g i).length ≤ 0xFFFF := le_trans (load.body_le_len inside) (load.len_small g)
  have size : (ofNat (fecBody codec pay g i).length).toNat = (fecBody codec pay g i).length := by
    simp only [toNat_ofNat']
    omega
  rw [size, List.take_length]
  unfold fecType fecBody
  by_cases data : i < codec.dataShards
  · simp [data]
  · simp [data, rudpFecTypeParity, rudpFecTypeData]

section

variable (found : FecFound codec dec.groups id gi base)
include found

theorem FecFound.update_held (member : i ∈ fecHeld codec dec.groups id) : update dec.groups gi base = dec.groups := by
  rcases found.slot with ⟨_, _, is⟩ | ⟨absent, _⟩
  · rw [is, Function.update_eq_self]
  · rw [fecHeld_absent absent] at member
    cases member

theorem FecFound.add_present (size : UInt16) (payload : List UInt8)
    (j : Nat) : (base.add i size payload).present j = true ↔ j ∈ insert i (fecHeld codec dec.groups id) := by
  rw [mem_insert, ← found.present j]
  by_cases same : j = i
  · simp [FecGroup.add, same]
  · simp [FecGroup.add, same]

theorem FecFound.add_inside (inside : i < codec.total) (size : UInt16)
    (payload : List UInt8) (j : Nat) (here : (base.add i size payload).present j = true) : j < codec.total := by
  rcases mem_insert.mp ((found.add_present size payload j).mp here) with rfl | held
  · exact inside
  · exact (mem_fecHeld.mp held).1

theorem FecFound.add_filter (inside : i < codec.total) (size : UInt16)
    (payload : List UInt8) : ((Finset.range codec.total).filter fun j => (base.add i size payload).present j) =
      insert i (fecHeld codec dec.groups id) := by
  ext j
  rw [mem_filter, ← found.add_present size payload, mem_range]
  exact ⟨And.right, fun here => ⟨found.add_inside inside size payload j here, here⟩⟩

end

theorem fecDecStore_good (good : dec.Good codec mtu) (inside : i < codec.total) (id : UInt32) (type size : UInt16)
    (payload : List UInt8) : (fecDecStore dec id i type size payload).1.Good codec mtu := by
  obtain ⟨gi, base, found⟩ := good.slots.find id
  unfold fecDecStore
  rw [found.found]
  simp only [update_self, update_idem]
  by_cases member : i ∈ fecHeld codec dec.groups id
  · rw [if_pos ((found.present i).mpr member)]
    have same : update dec.groups gi base = dec.groups := found.update_held member
    rw [same]
    exact ⟨good.codecIs, good.mtuIs, good.slots⟩
  · rw [if_neg fun present => member ((found.present i).mp present), good.codecIs]
    have filter := found.add_filter inside size payload
    have card := card_insert_of_notMem member
    have count : (base.add i size payload).count = (fecHeld codec dec.groups id).card + 1 :=
      congrArg (· + 1) found.count
    have within := found.add_inside inside size payload
    have own : (base.add i size payload).groupId = id := found.groupId
    generalize base.add i size payload = grp at filter count within own
    split
    · have pos : 0 < codec.dataShards := Nat.lt_of_le_of_lt (Nat.zero_le _) (good.slots.short 0)
      exact ⟨rfl, good.mtuIs, (good.slots.update found (.inl rfl) (fun _ => rfl)
        (fun _ here => absurd here Bool.false_ne_true) (by simp [FecGroup.zero]) pos).discard _⟩
    · rename_i short
      exact ⟨rfl, good.mtuIs, (good.slots.update found (.inr own) (fun none => by omega) within
        (by rw [filter, card, count]) (Nat.lt_of_not_le short)).discard _⟩

theorem fecDecStore_takes (load : FecLoad codec pay mtu) (good : dec.Good codec mtu)
    (genuine : dec.Genuine codec pay id g) (inside : i < codec.total) :
    FecTakes codec pay g i id dec
      (fecDecStore dec id i (fecType codec i) (UInt16.ofNat (fecBody codec pay g i).length) (fecBody codec pay g i)).1
      (fecDecStore dec id i (fecType codec i) (UInt16.ofNat (fecBody codec pay g i).length) (fecBody codec pay g i)).2 := by
  obtain ⟨gi, base, found⟩ := good.slots.find id
  have direct : ∀ bytes, bytes ∈ (if i < codec.dataShards then [fecPayload codec pay g i] else []) ↔
      i < codec.dataShards ∧ bytes = fecPayload codec pay g i := by
    intro bytes
    split
    · rename_i data
      simp [data]
    · rename_i beyond
      simp [beyond]
  unfold fecDecStore
  rw [found.found, fecDirect_eq load inside]
  simp only [update_self, update_idem]
  by_cases member : i ∈ fecHeld codec dec.groups id
  · -- a duplicate: only the newest group may change
    rw [if_pos ((found.present i).mpr member)]
    have same : update dec.groups gi base = dec.groups := found.update_held member
    rw [same]
    exact {
      newest := rfl
      genuine := genuine
      held := .inl ⟨member, rfl⟩
      subset := subset_insert _ _
      others := fun other _ => .inl rfl
      keeps := fun other _ h kept => kept
      direct := fun data => (direct _).mpr ⟨data, rfl⟩
      sound := fun bytes mem => .inl ((direct bytes).mp mem) }
  · have absent : ¬ base.present i = true := fun present => member ((found.present i).mp present)
    rw [if_neg absent, good.codecIs]
    have held : base.Genuine codec pay g (dec.buf gi) := by
      rcases found.slot with ⟨live, same, rfl⟩ | ⟨_, rfl, _⟩
      · exact genuine gi live same
      · exact .zero g id _
    have stored := held.add load inside
    have present := found.add_present (i := i) (ofNat (fecBody codec pay g i).length) (fecBody codec pay g i)
    have filter := found.add_filter inside (ofNat (fecBody codec pay g i).length) (fecBody codec pay g i)
    have within := found.add_inside inside (ofNat (fecBody codec pay g i).length) (fecBody codec pay g i)
    have own : (base.add i (ofNat (fecBody codec pay g i).length) (fecBody codec pay g i)).groupId = id :=
      found.groupId
    have count : (base.add i (ofNat (fecBody codec pay g i).length) (fecBody codec pay g i)).count =
        (fecHeld codec dec.groups id).card + 1 := congrArg (· + 1) found.count
    have card := card_insert_of_notMem member
    generalize base.add i (ofNat (fecBody codec pay g i).length) (fecBody codec pay g i) = grp
      at stored present filter within own count
    generalize update (dec.buf gi) i (fecCopy (fecBody codec pay g i) (dec.buf gi i)) = bufs at stored
    by_cases full : codec.dataShards ≤ (fecHeld codec dec.groups id).card + 1
    · rw [if_pos (by rw [count]; exact full)]
      have enough : codec.dataShards ≤ ((Finset.range codec.total).filter fun j => grp.present j).card := by
        rw [filter, card]
        exact full
      have recovered := fecDecRecover_eq load stored enough
      have among : ∀ bytes, bytes ∈ (fecDecRecover codec grp bufs).2 ↔
          ∃ j < codec.dataShards, j ∉ insert i (fecHeld codec dec.groups id) ∧
            padTo (fecLen codec pay g) (fecPayload codec pay g j) = bytes := by
        intro bytes
        rw [recovered, List.mem_map]
        refine exists_congr fun j => ?_
        rw [List.mem_filter, List.mem_range, Bool.not_eq_true', ← Bool.not_eq_true, present j, and_assoc]
      exact {
        newest := rfl
        genuine := found.genuine_own good.slots fun live => absurd live (Nat.lt_irrefl 0)
        held := .inr ⟨member, .inl ⟨full, fun j data differs missing =>
          List.mem_append_right _ ((among _).mpr ⟨j, data, by simp [differs, missing], rfl⟩)⟩⟩
        subset := by
          rw [fecHeld_discard, found.held_cleared good.slots rfl, ite_self]
          exact empty_subset _
        others := fun other differs => found.others_next good.slots (.inl rfl) differs
        keeps := fun other differs h kept =>
          FecFound.genuine_other (fun live => absurd live (Nat.lt_irrefl 0)) differs kept
        direct := fun data => List.mem_append_left _ ((direct _).mpr ⟨data, rfl⟩)
        sound := fun bytes mem => by
          rcases List.mem_append.mp mem with first | second
          · exact .inl ((direct bytes).mp first)
          · obtain ⟨j, data, _, is⟩ := (among bytes).mp second
            exact .inr ⟨card ▸ full, j, data, is.symm⟩ }
    · rw [if_neg (by rw [count]; exact full)]
      have live : 0 < grp.count := by omega
      have heldOwn : fecHeld codec (update dec.groups gi grp) id = insert i (fecHeld codec dec.groups id) := by
        ext j
        rw [found.held_own good.slots own live within, present j]
      exact {
        newest := rfl
        genuine := found.genuine_own good.slots fun _ => stored
        held := .inr ⟨member, .inr ⟨by omega, by
          rw [fecHeld_discard, heldOwn]
          split
          · rename_i old
            exact .inr old
          · exact .inl rfl⟩⟩
        subset := by
          rw [fecHeld_discard, heldOwn]
          split
          · exact empty_subset _
          · exact Finset.Subset.refl _
        others := fun other differs => found.others_next good.slots (.inr own) differs
        keeps := fun other differs h kept => FecFound.genuine_other (fun _ => own) differs kept
        direct := fun data => List.mem_append_left _ ((direct _).mpr ⟨data, rfl⟩)
        sound := fun bytes mem => by
          rw [List.append_nil] at mem
          exact .inl ((direct bytes).mp mem) }

end Store

end Xylem.Rudp
