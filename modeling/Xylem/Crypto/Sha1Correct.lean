import Mathlib.Algebra.Group.Nat.Defs
import Xylem.Crypto.Sha1

namespace Xylem.Crypto

open Lib List Nat UInt8 Sha1

theorem sha1_ch (x y z : UInt32) : x &&& y ||| ~~~x &&& z = ch x y z := by
  rw [ch, ← UInt32.toBitVec_inj]
  refine BitVec.eq_of_getLsbD_eq fun i _ => ?_
  simp only [UInt32.toBitVec_or, UInt32.toBitVec_and, UInt32.toBitVec_not, UInt32.toBitVec_xor, BitVec.getLsbD_or,
    BitVec.getLsbD_and, BitVec.getLsbD_xor, BitVec.getLsbD_not]
  cases x.toBitVec.getLsbD i <;> simp

theorem sha1_maj (x y z : UInt32) : x &&& y ||| x &&& z ||| y &&& z = maj x y z := by
  rw [maj, ← UInt32.toBitVec_inj]
  refine BitVec.eq_of_getLsbD_eq fun i _ => ?_
  simp only [UInt32.toBitVec_or, UInt32.toBitVec_and, UInt32.toBitVec_xor, BitVec.getLsbD_or, BitVec.getLsbD_and,
    BitVec.getLsbD_xor]
  cases x.toBitVec.getLsbD i <;> cases y.toBitVec.getLsbD i <;> cases z.toBitVec.getLsbD i <;> rfl

theorem sha1_word (x y z w : UInt8) : x.toUInt32 <<< 24 ||| y.toUInt32 <<< 16 ||| z.toUInt32 <<< 8 ||| w.toUInt32 =
      UInt32.ofNat (((x.toNat * 256 + y.toNat) * 256 + z.toNat) * 256 + w.toNat) := by
  have first := x.toNat_lt
  have second := y.toNat_lt
  have third := z.toNat_lt
  have fourth := w.toNat_lt
  -- the four bytes have no bit in common, so that the words add up
  have high : x.toNat <<< 24 ||| y.toNat <<< 16 = (x.toNat * 256 + y.toNat) <<< 16 := by
    rw [← shiftLeft_add_eq_or_of_lt (by rw [shiftLeft_eq]; omega)]
    simp only [shiftLeft_eq]
    omega
  have middle : (x.toNat * 256 + y.toNat) <<< 16 ||| z.toNat <<< 8 = ((x.toNat * 256 + y.toNat) * 256 + z.toNat) <<< 8 := by
    rw [← shiftLeft_add_eq_or_of_lt (by rw [shiftLeft_eq]; omega)]
    simp only [shiftLeft_eq]
    omega
  have low : ((x.toNat * 256 + y.toNat) * 256 + z.toNat) <<< 8 ||| w.toNat =
      ((x.toNat * 256 + y.toNat) * 256 + z.toNat) * 256 + w.toNat := by
    rw [← shiftLeft_add_eq_or_of_lt (by omega), shiftLeft_eq]
  have shifts : ∀ (byte : UInt8) (n : UInt32), n.toNat ≤ 24 → (byte.toUInt32 <<< n).toNat = byte.toNat <<< n.toNat := by
    intro byte n small
    have bound := byte.toNat_lt
    have power : 2 ^ n.toNat ≤ 2 ^ 24 := Nat.pow_le_pow_right (by decide) small
    rw [UInt32.toNat_shiftLeft, toNat_toUInt32, mod_eq_of_lt (by omega : n.toNat < 32), mod_eq_of_lt]
    rw [shiftLeft_eq]
    calc byte.toNat * 2 ^ n.toNat ≤ 255 * 2 ^ 24 := Nat.mul_le_mul (by omega) power
      _ < 2 ^ 32 := by decide
  rw [← UInt32.toNat_inj, UInt32.toNat_or, UInt32.toNat_or, UInt32.toNat_or, shifts x 24 (by decide),
    shifts y 16 (by decide), shifts z 8 (by decide), toNat_toUInt32, UInt32.toNat_ofNat_of_lt' (show _ < 2 ^ 32 by omega)]
  exact (congrArg (· ||| w.toNat) ((congrArg (· ||| z.toNat <<< 8) high).trans middle)).trans low

variable {block buffer bytes message : List UInt8} (state : Sha1State) {pos : Nat} {ctx : Sha1Ctx} (bits : Nat)

theorem sha1Extend_getD (n : Nat) {w : List UInt32} (long : 16 ≤ w.length)
    (is : ∀ t, t < w.length → w.getD t 0 = schedule block t) : (sha1Extend n w).length = w.length + n ∧
    ∀ t, t < w.length + n → (sha1Extend n w).getD t 0 = schedule block t := by
  induction n generalizing w with
  | zero => exact ⟨rfl, is⟩
  | succ n ih =>
    have next : sha1Rol32 (w.getD (w.length - 3) 0 ^^^ w.getD (w.length - 8) 0 ^^^ w.getD (w.length - 14) 0 ^^^
        w.getD (w.length - 16) 0) 1 = schedule block w.length := by
      rw [schedule, if_neg (by omega), is _ (by omega), is _ (by omega), is _ (by omega), is _ (by omega)]
      rfl
    have length : (w ++ [schedule block w.length]).length = w.length + 1 := length_append
    rw [sha1Extend, next]
    obtain ⟨grown, later⟩ := ih (w := w ++ [schedule block w.length]) (by omega) fun t below => by
      by_cases old : t < w.length
      · rw [getD_append _ _ _ _ old, is t old]
      · have new : t = w.length := by omega
        rw [new, getD_append_right _ _ _ _ (Nat.le_refl _), Nat.sub_self]
        rfl
    rw [length] at grown later
    exact ⟨by omega, fun t below => later t (by omega)⟩

theorem sha1Load_getD (buffer : List UInt8) {t : Nat} (below : t < 16) :
    (sha1Load buffer).getD t 0 = schedule buffer t := by
  have is : (sha1Load buffer).getD t 0 = word buffer t := by
    rw [sha1Load, getD_eq_getElem?_getD, List.getElem?_map, List.getElem?_range below, Option.map_some,
      Option.getD_some, sha1_word, Nat.mul_comm t 4]
    rfl
  rw [is, schedule, if_pos below]

theorem sha1Extend_load (buffer : List UInt8) :
    sha1Extend 64 (sha1Load buffer) = (List.range 80).map (schedule buffer) := by
  have length : (sha1Load buffer).length = 16 := by rw [sha1Load, length_map, length_range]
  obtain ⟨whole, is⟩ := sha1Extend_getD 64 (by omega) fun t (below : t < (sha1Load buffer).length) =>
    sha1Load_getD buffer (by omega)
  rw [length] at whole is
  refine ext_getElem (by rw [whole, length_map, length_range]) fun t below _ => ?_
  rw [getElem_map, getElem_range, ← is t (by omega), getD_eq_getElem _ _ below]

theorem sha1Rounds_eq {f : UInt32 → UInt32 → UInt32 → UInt32} {k : UInt32} {start count : Nat}
    (same : ∀ t, start ≤ t → t < start + count → Sha1.f t = f ∧ Sha1.k t = k) (v : Sha1State) :
    sha1Rounds f k v ((List.range' start count).map (schedule block)) =
      (List.range' start count).foldl (Sha1.round (schedule block)) v := by
  induction count generalizing start v with
  | zero => rfl
  | succ count ih =>
    obtain ⟨isF, isK⟩ := same start (Nat.le_refl _) (by omega)
    rw [List.range'_succ, map_cons, foldl_cons, ← ih (fun t low high => same t (by omega) (by omega))]
    rw [sha1Rounds, foldl_cons, Sha1.round, isF, isK, UInt32.add_assoc _ k, UInt32.add_comm k, ← UInt32.add_assoc]
    rfl

theorem sha1Transform_eq (buffer : List UInt8) : sha1Transform state buffer = compress state buffer := by
  have ch : (fun b c d : UInt32 => b &&& c ||| ~~~b &&& d) = Sha1.ch := by
    funext b c d
    exact sha1_ch b c d
  have maj : (fun b c d : UInt32 => b &&& c ||| b &&& d ||| c &&& d) = Sha1.maj := by
    funext b c d
    exact sha1_maj b c d
  have first : ∀ v, sha1Rounds Sha1.ch 0x5A827999 v ((List.range' 0 20).map (schedule buffer)) = _ :=
    sha1Rounds_eq fun t _ high => ⟨if_pos high, if_pos high⟩
  have second : ∀ v, sha1Rounds parity 0x6ED9EBA1 v ((List.range' 20 20).map (schedule buffer)) = _ :=
    sha1Rounds_eq fun t low high => by
      rw [f, k, if_neg (by omega), if_pos high, if_neg (by omega), if_pos high]
      exact ⟨rfl, rfl⟩
  have third : ∀ v, sha1Rounds Sha1.maj 0x8F1BBCDC v ((List.range' 40 20).map (schedule buffer)) = _ :=
    sha1Rounds_eq fun t low high => by
      rw [f, k, if_neg (by omega), if_neg (by omega), if_pos high, if_neg (by omega), if_neg (by omega), if_pos high]
      exact ⟨rfl, rfl⟩
  have fourth : ∀ v, sha1Rounds parity 0xCA62C1D6 v ((List.range' 60 20).map (schedule buffer)) = _ :=
    sha1Rounds_eq fun t low high => by
      rw [f, k, if_neg (by omega), if_neg (by omega), if_neg (by omega), if_neg (by omega), if_neg (by omega),
        if_neg (by omega)]
      exact ⟨rfl, rfl⟩
  have rounds : List.range 80 = List.range' 0 20 ++ (List.range' 20 20 ++ (List.range' 40 20 ++ List.range' 60 20)) := by
    decide +kernel
  have length : ∀ lo, (List.map (schedule buffer) (List.range' lo 20)).length = 20 := fun lo => by
    rw [length_map, length_range']
  rw [sha1Transform, sha1Extend_load, ch, maj, compress, rounds, map_append, map_append, map_append,
    foldl_append, foldl_append, foldl_append, ← first, ← second, ← third, ← fourth]
  have front : ∀ (lo : Nat) (rest : List UInt32),
      ((List.range' lo 20).map (schedule buffer) ++ rest).take 20 = (List.range' lo 20).map (schedule buffer) :=
    fun lo rest => take_left' (length lo)
  have back : ∀ (lo n : Nat) (rest : List UInt32),
      ((List.range' lo 20).map (schedule buffer) ++ rest).drop (n + 20) = rest.drop n := fun lo n rest => by
    rw [Nat.add_comm, ← drop_drop, drop_left' (length lo)]
  rw [front, back 0 0, drop_zero, front, back 0 20, back 20 0, drop_zero, front, back 0 40, back 20 20,
    back 40 0, drop_zero, Sha1.Words.add]
  simp only [UInt32.add_comm]
  rfl

theorem writeAt_length (fits : pos + bytes.length ≤ buffer.length) :
    (writeAt buffer pos bytes).length = buffer.length := by
  rw [writeAt, length_append, length_append, length_take, length_drop]
  omega

theorem writeAt_take (buffer bytes : List UInt8) (pos : Nat) (fits : pos + bytes.length ≤ buffer.length) :
    (writeAt buffer pos bytes).take (pos + bytes.length) = buffer.take pos ++ bytes := by
  rw [writeAt]
  refine take_left' ?_
  rw [length_append, length_take]
  omega

/-- The context has taken in the message: its whole blocks are hashed, and the rest lies in the buffer. -/
structure Sha1Ctx.Absorbed (ctx : Sha1Ctx) (message : List UInt8) : Prop where
  length : ctx.buffer.length = 64
  datalen : ctx.datalen = message.length % 64
  rest : ctx.buffer.take ctx.datalen = message.drop (64 * (message.length / 64))
  bitlen : ctx.bitlen = UInt64.ofNat (512 * (message.length / 64))
  state : ctx.state = Sha1.hashBlocks (message.length / 64) Sha1.initial message

theorem Sha1Ctx.Absorbed.append (absorbed : ctx.Absorbed message) (bytes : List UInt8)
    (fits : bytes.length ≤ 64 - ctx.datalen) : (if ctx.datalen + bytes.length = 64 then
      { buffer := writeAt ctx.buffer ctx.datalen bytes, datalen := 0, bitlen := ctx.bitlen + 512,
        state := sha1Transform ctx.state (writeAt ctx.buffer ctx.datalen bytes) }
    else { ctx with buffer := writeAt ctx.buffer ctx.datalen bytes, datalen := ctx.datalen + bytes.length } :
      Sha1Ctx).Absorbed (message ++ bytes) := by
  obtain ⟨length, datalen, rest, bitlen, state⟩ := absorbed
  have inside : ctx.datalen + bytes.length ≤ ctx.buffer.length := by omega
  have longer : (message ++ bytes).length = message.length + bytes.length := length_append
  have filled : (writeAt ctx.buffer ctx.datalen bytes).take (ctx.datalen + bytes.length) =
      (message ++ bytes).drop (64 * (message.length / 64)) := by
    rw [writeAt_take _ _ _ inside, rest, drop_append_of_le_length (by omega)]
  split
  · rename_i full
    have blocks : (message ++ bytes).length / 64 = message.length / 64 + 1 := by omega
    refine ⟨(writeAt_length inside).trans length, by dsimp only; omega, ?_, ?_, ?_⟩
    · rw [blocks, drop_eq_nil_of_le (by omega)]
      rfl
    · rw [blocks, bitlen, Nat.mul_add, UInt64.ofNat_add]
      rfl
    · have block : ((message ++ bytes).drop (64 * (message.length / 64))).take 64 =
          writeAt ctx.buffer ctx.datalen bytes := by
        rw [← filled, full, take_take, Nat.min_self, take_of_length_le]
        rw [writeAt_length inside]
        omega
      rw [blocks, hashBlocks_succ, hashBlocks_append bytes (by omega), block, ← state]
      exact sha1Transform_eq _ _
  · rename_i notFull
    have blocks : (message ++ bytes).length / 64 = message.length / 64 := by omega
    refine ⟨(writeAt_length inside).trans length, by dsimp only; omega, ?_, ?_, ?_⟩
    · rw [blocks]
      exact filled
    · rw [blocks]
      exact bitlen
    · rw [blocks, hashBlocks_append bytes (by omega)]
      exact state

theorem sha1UpdateLoop_absorbed {rounds : Nat} {message data : List UInt8} (absorbed : ctx.Absorbed message)
    (enough : data.length ≤ rounds) : (sha1UpdateLoop rounds ctx data).Absorbed (message ++ data) := by
  induction rounds generalizing ctx message data with
  | zero =>
    rw [length_eq_zero_iff.mp (le_zero.mp enough), append_nil]
    exact absorbed
  | succ rounds ih =>
    unfold sha1UpdateLoop
    split
    · rename_i empty
      rw [empty, append_nil]
      exact absorbed
    · rename_i some_
      have datalen := absorbed.datalen
      have positive := length_pos_iff.mpr some_
      have taken : (data.take (min data.length (64 - ctx.datalen))).length = min data.length (64 - ctx.datalen) := by
        rw [length_take, Nat.min_eq_left (Nat.min_le_left _ _)]
      have next := absorbed.append (data.take (min data.length (64 - ctx.datalen))) (by omega)
      have whole := @ih _ _ (data.drop (min data.length (64 - ctx.datalen))) next (by rw [length_drop]; omega)
      rw [append_assoc, take_append_drop, taken] at whole
      exact whole

theorem sha1Update_absorbed (absorbed : ctx.Absorbed message) (data : List UInt8) :
    (sha1Update ctx data).Absorbed (message ++ data) :=
  sha1UpdateLoop_absorbed absorbed (Nat.le_refl _)

theorem ofNat_mod_div {value high low : Nat} (below : low + 8 ≤ high) :
    UInt8.ofNat (value % 2 ^ high / 2 ^ low) = UInt8.ofNat (value / 2 ^ low) := by
  obtain ⟨more, rfl⟩ := Nat.exists_eq_add_of_le below
  rw [← UInt8.toNat_inj, toNat_ofNat', toNat_ofNat', Nat.add_assoc, Nat.pow_add,
    mod_mul_right_div_self, Nat.pow_add, mod_mul_right_mod]

theorem sha1_byte (word n : UInt32) (k : Nat) (is : 2 ^ n.toNat = 256 ^ k) (below : n.toNat ≤ 24) :
    ((word >>> n) &&& 0xFF).toUInt8 = UInt8.ofNat (word.toNat / 256 ^ k) := by
  have mask : (0xFF : UInt32).toNat = 2 ^ 8 - 1 := rfl
  rw [← UInt8.toNat_inj, UInt32.toNat_toUInt8, UInt32.toNat_and, UInt32.toNat_shiftRight,
    mod_eq_of_lt (by omega : n.toNat < 32), shiftRight_eq_div_pow, toNat_ofNat', is, mask,
    and_two_pow_sub_one_eq_mod, mod_mod]

theorem sha1_word_bytes (word : UInt32) :
    [((word >>> 24) &&& 0xFF).toUInt8, ((word >>> 16) &&& 0xFF).toUInt8, ((word >>> 8) &&& 0xFF).toUInt8,
      (word &&& 0xFF).toUInt8] = bigEndian 4 word.toNat := by
  have last := sha1_byte word 0 0 (by decide) (by decide)
  rw [UInt32.shiftRight_zero, Nat.pow_zero, Nat.div_one] at last
  rw [sha1_byte word 24 3 (by decide) (by decide), sha1_byte word 16 2 (by decide) (by decide),
    sha1_byte word 8 1 (by decide) (by decide), last]
  simp only [bigEndian, Nat.div_div_eq_div_mul, Nat.pow_succ, Nat.pow_zero, Nat.one_mul, nil_append, cons_append]

theorem sha1Digest_eq : sha1Digest state = state.digest := by
  simp only [sha1Digest, sha1_word_bytes, flatMap_cons, flatMap_nil, append_nil, Sha1.Words.digest,
    append_assoc]

theorem sha1_length_byte (n : UInt64) (k : Nat) (is : 2 ^ n.toNat = 256 ^ k) (below : n.toNat ≤ 56) :
    (UInt64.ofNat bits >>> n).toUInt8 = UInt8.ofNat (bits / 256 ^ k) := by
  rw [← is, ← ofNat_mod_div (show n.toNat + 8 ≤ 64 by omega), ← UInt8.toNat_inj, UInt64.toNat_toUInt8,
    UInt64.toNat_shiftRight, UInt64.toNat_ofNat', mod_eq_of_lt (by omega : n.toNat < 64),
    shiftRight_eq_div_pow, toNat_ofNat']

theorem sha1Length_eq : sha1Length (UInt64.ofNat bits) = bigEndian 8 bits := by
  have byte := sha1_length_byte bits
  have last := byte 0 0 (by decide) (by decide)
  rw [UInt64.shiftRight_zero, Nat.pow_zero, Nat.div_one] at last
  rw [sha1Length, byte 56 7 (by decide) (by decide), byte 48 6 (by decide) (by decide), byte 40 5 (by decide) (by decide),
    byte 32 4 (by decide) (by decide), byte 24 3 (by decide) (by decide), byte 16 2 (by decide) (by decide),
    byte 8 1 (by decide) (by decide), last]
  simp only [bigEndian, Nat.div_div_eq_div_mul, Nat.pow_succ, Nat.pow_zero, Nat.one_mul, nil_append, cons_append]

theorem writeAt_zeros {buffer front : List UInt8} {pos count : Nat} (is : buffer.take pos = front)
    (fits : pos + count ≤ buffer.length) :
    (writeAt buffer pos (replicate count 0)).take (pos + count) = front ++ replicate count 0 := by
  have taken := writeAt_take buffer (replicate count 0) pos (by rw [length_replicate]; exact fits)
  rw [length_replicate, is] at taken
  exact taken

theorem writeAt_end (fits : pos + bytes.length = buffer.length) :
    writeAt buffer pos bytes = buffer.take pos ++ bytes := by
  rw [writeAt, fits, drop_length, append_nil]

theorem sha1Final_eq (absorbed : ctx.Absorbed message) : sha1Final ctx = sha1 message := by
  obtain ⟨length, datalen, rest, bitlen, state⟩ := absorbed
  have total : ctx.bitlen + UInt64.ofNat ctx.datalen * 8 = UInt64.ofNat (8 * message.length) := by
    have eight : (8 : UInt64) = UInt64.ofNat 8 := rfl
    rw [bitlen, eight, ← UInt64.ofNat_mul, ← UInt64.ofNat_add]
    congr 1
    omega
  have before : hashBlocks (message.length / 64) initial (pad message) = ctx.state := by
    rw [pad, append_assoc]
    exact (hashBlocks_append _ (by omega)).trans state.symm
  have tail : (pad message).drop (64 * (message.length / 64)) =
      ctx.buffer.take ctx.datalen ++ [0x80] ++ replicate ((119 - ctx.datalen) % 64) 0 ++
        bigEndian 8 (8 * message.length) := by
    rw [pad, append_assoc, drop_append_of_le_length (by omega), ← rest, ← datalen]
    simp only [append_assoc, cons_append, nil_append]
  have marked := writeAt_take ctx.buffer [0x80] ctx.datalen (by rw [length_singleton]; omega)
  have markedLength : (writeAt ctx.buffer ctx.datalen [0x80]).length = 64 := by
    rw [writeAt_length (by rw [length_singleton]; omega), length]
  have front : (ctx.buffer.take ctx.datalen ++ [0x80]).length = ctx.datalen + 1 := by
    rw [length_append, length_take, length_singleton]
    omega
  have size : (bigEndian 8 (8 * message.length)).length = 8 := bigEndian_length ..
  rw [sha1Final, total, sha1Length_eq, sha1, pad_length, Nat.mul_div_cancel_left _ (by decide), ← datalen]
  rw [length_singleton] at marked
  generalize ctx.buffer.take ctx.datalen ++ [0x80] = begun at marked tail front
  by_cases short : ctx.datalen < 56
  · -- the marker, the zeros and the length fit into the block that was begun
    obtain ⟨count, is⟩ : ∃ count, ctx.datalen + 1 + count = 56 := ⟨55 - ctx.datalen, by omega⟩
    have filled : (writeAt _ (ctx.datalen + 1) (replicate count 0)).take (ctx.datalen + 1 + count) = _ :=
      writeAt_zeros marked (by omega)
    have whole : (writeAt (writeAt ctx.buffer ctx.datalen [0x80]) (ctx.datalen + 1) (replicate count 0)).length =
        64 := (writeAt_length (by rw [length_replicate]; omega)).trans markedLength
    rw [is] at filled
    rw [if_pos short, if_pos short, hashBlocks_succ, before, tail, show 56 - (ctx.datalen + 1) = count by omega,
      show (119 - ctx.datalen) % 64 = count by omega]
    dsimp only
    rw [writeAt_end (by omega), filled, sha1Transform_eq, sha1Digest_eq, take_of_length_le]
    rw [length_append, length_append, front, size, length_replicate]
    omega
  · -- the marker and zeros fill the block, and another holds zeros and the length
    obtain ⟨count, is⟩ : ∃ count, ctx.datalen + 1 + count = 64 := ⟨63 - ctx.datalen, by omega⟩
    have filled : (writeAt _ (ctx.datalen + 1) (replicate count 0)).take (ctx.datalen + 1 + count) = _ :=
      writeAt_zeros marked (by omega)
    have whole : (writeAt (writeAt ctx.buffer ctx.datalen [0x80]) (ctx.datalen + 1) (replicate count 0)).length =
        64 := (writeAt_length (by rw [length_replicate]; omega)).trans markedLength
    rw [is, take_of_length_le (by omega)] at filled
    have firstLength : (begun ++ replicate count (0 : UInt8)).length = 64 := by
      rw [length_append, front, length_replicate, is]
    have blocks : (pad message).drop (64 * (message.length / 64)) =
        (begun ++ replicate count 0) ++ (replicate 56 0 ++ bigEndian 8 (8 * message.length)) := by
      rw [tail, show (119 - ctx.datalen) % 64 = count + 56 by omega, ← replicate_append_replicate]
      simp only [append_assoc]
    have second : (pad message).drop (64 * (message.length / 64 + 1)) =
        replicate 56 0 ++ bigEndian 8 (8 * message.length) := by
      rw [Nat.mul_add, ← drop_drop, blocks, drop_left' firstLength]
    have cleared : (writeAt (begun ++ replicate count 0) 0 (replicate 56 0)).take (0 + 56) = _ :=
      writeAt_zeros rfl (by omega)
    have clearedLength : (writeAt (begun ++ replicate count (0 : UInt8)) 0 (replicate 56 0)).length = 64 :=
      (writeAt_length (by rw [length_replicate]; omega)).trans firstLength
    rw [if_neg short, if_neg short, hashBlocks_succ, hashBlocks_succ, before, second, blocks,
      take_left' firstLength, show 64 - (ctx.datalen + 1) = count by omega]
    dsimp only
    rw [filled, writeAt_end (by omega), cleared, sha1Transform_eq, sha1Transform_eq, sha1Digest_eq, take_zero,
      nil_append, take_of_length_le]
    exact Nat.le_of_eq (by rw [length_append, length_replicate, size])

theorem sha1_two_updates (first second : List UInt8) :
    sha1Final (sha1Update (sha1Update sha1Create first) second) = sha1 (first ++ second) :=
  sha1Final_eq (sha1Update_absorbed (sha1Update_absorbed
    (show sha1Create.Absorbed [] from ⟨rfl, rfl, rfl, rfl, rfl⟩) first) second)

/-- However a message is cut into updates, the digest is the one of the standard. -/
theorem sha1_stream (pieces : List (List UInt8)) : sha1Final (pieces.foldl sha1Update sha1Create) = sha1 pieces.flatten := by
  suffices fed : ∀ {ctx message}, ctx.Absorbed message →
      (pieces.foldl sha1Update ctx).Absorbed (message ++ pieces.flatten) from
    sha1Final_eq (fed (show sha1Create.Absorbed [] from ⟨rfl, rfl, rfl, rfl, rfl⟩))
  induction pieces with
  | nil => exact fun absorbed => by simpa using absorbed
  | cons piece rest ih =>
    intro ctx message absorbed
    rw [foldl_cons, flatten_cons, ← append_assoc]
    exact ih (sha1Update_absorbed absorbed piece)

end Xylem.Crypto
