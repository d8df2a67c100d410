import Xylem.Lib.Uri

namespace Xylem.Encoding

open Lib List Nat Option

def urlHex : List UInt8 := ascii "0123456789ABCDEF"

variable (c : UInt8)

/-- `_hex_table`: the value of a digit and one, or zero. -/
def urlHexTable : UInt8 :=
  if 0x30 ≤ c ∧ c ≤ 0x39 then c - 0x30 + 1
  else if 0x41 ≤ c ∧ c ≤ 0x46 then c - 0x41 + 11
  else if 0x61 ≤ c ∧ c ≤ 0x66 then c - 0x61 + 11
  else 0

/-- The characters that `_unreserved` lists. -/
def urlUnreserved : List UInt8 :=
  ascii "ABCDEFGHIJKLMNOPQRSTUVWXYZabcdefghijklmnopqrstuvwxyz0123456789-._~"

def intMax : Nat := 0x7FFFFFFF

/-- What `xylem_url_encode` writes for a byte. -/
def urlEncodeByte : List UInt8 :=
  if c ∈ urlUnreserved then [c] else [0x25, urlHex.getD (c >>> 4).toNat 0, urlHex.getD (c &&& 0x0F).toNat 0]

variable (src : List UInt8) (dlen : Nat)

def xylemUrlEncode : Option (List UInt8) :=
  if src.length > intMax / 3 ∨ dlen < src.length * 3 then none else some (src.flatMap urlEncodeByte)

/-- `i + 2 < slen`, where `rest` follows the index `i`. -/
abbrev urlLooks (slen : Nat) (rest : List UInt8) : Prop :=
  (((slen - (rest.length + 1) : Nat) : Int) + 2).bmod (2 ^ 32) < slen

/-- The loop of `xylem_url_decode` over what is left of the source; `none` is a read outside it. -/
def urlDecodeLoop (slen : Nat) : List UInt8 → Option (List UInt8)
  | [] => some []
  | c :: rest =>
    if c = 0x25 ∧ urlLooks slen rest then
      match rest with
      | high :: low :: more =>
        let hi := urlHexTable high
        let lo := urlHexTable low
        if hi ≠ 0 ∧ lo ≠ 0 then (urlDecodeLoop slen more).map (((hi - 1) <<< 4 ||| (lo - 1)) :: ·)
        else (urlDecodeLoop slen (high :: low :: more)).map (c :: ·)
      | _ => none
    else (urlDecodeLoop slen rest).map (c :: ·)

/-- `xylem_url_decode`: `none` if it reads outside the source, `some none` if it fails. -/
def xylemUrlDecode : Option (Option (List UInt8)) :=
  if dlen < src.length then some none else (urlDecodeLoop src.length src).map some

/-- What is written for a byte is itself or its escape, and the escape is read back. -/
theorem urlEncodeByte_cases : (Uri.unreserved c = true ∧ c ≠ 0x25 ∧ urlEncodeByte c = [c]) ∨
    ∃ high low, high ∈ urlHex ∧ low ∈ urlHex ∧ urlEncodeByte c = [0x25, high, low] ∧ urlHexTable high ≠ 0 ∧
      urlHexTable low ≠ 0 ∧ (urlHexTable high - 1) <<< 4 ||| (urlHexTable low - 1) = c := by
  have same : UInt8.ofNat c.toNat = c := UInt8.ofNat_toNat
  have plain : ∀ c ∈ urlUnreserved, Uri.unreserved c = true ∧ c ≠ 0x25 := by decide +kernel
  have digit : ∀ n < 256, urlHex.getD n 0 ∈ urlHex ∧ urlHexTable (urlHex.getD n 0) ≠ 0 ∨ 16 ≤ n := by decide +kernel
  have value : ∀ n < 256, ((urlHexTable (urlHex.getD (UInt8.ofNat n >>> 4).toNat 0) - 1) <<< 4 |||
      (urlHexTable (urlHex.getD (UInt8.ofNat n &&& 0x0F).toNat 0) - 1)) = UInt8.ofNat n := by decide +kernel
  have bound := c.toNat_lt
  unfold urlEncodeByte
  split
  · rename_i isIn
    obtain ⟨unreserved, other⟩ := plain c isIn
    exact .inl ⟨unreserved, other, rfl⟩
  · have high : (c >>> 4).toNat < 16 := by
      rw [UInt8.toNat_shiftRight]
      show c.toNat >>> 4 < 16
      rw [shiftRight_eq_div_pow]
      omega
    have low : (c &&& 0x0F).toNat < 16 := lt_succ_of_le (by rw [UInt8.toNat_and]; exact and_le_right)
    obtain ⟨first, some_⟩ := (digit _ (by omega)).resolve_right (Nat.not_le.mpr high)
    obtain ⟨second, some'⟩ := (digit _ (by omega)).resolve_right (Nat.not_le.mpr low)
    have read := value _ bound
    rw [same] at read
    exact .inr ⟨_, _, first, second, rfl, some_, some', read⟩

variable {slen : Nat}

/-- The index and two overflow at the end of `INT_MAX` bytes. -/
theorem urlLooks_iff {rest : List UInt8} (inside : rest.length < slen) (int : slen ≤ intMax) :
    urlLooks slen rest ↔ 2 ≤ rest.length ∨ slen = intMax ∧ rest = [] := by
  have max : intMax = 2 ^ 31 - 1 := rfl
  rw [urlLooks, Int.bmod_def, ← length_eq_zero_iff]
  split <;> omega

/-- The loop reads outside a source exactly if it has `INT_MAX` bytes and ends in a percent sign. -/
theorem urlDecodeLoop_eq_none {text : List UInt8} (inside : text.length ≤ slen) (int : slen ≤ intMax) :
    urlDecodeLoop slen text = none ↔ slen = intMax ∧ text.getLast? = some 0x25 := by
  fun_induction urlDecodeLoop slen text with
  | case1 => simp
  | case2 c high low more hi lo digits escape ih =>
    simp only [length_cons] at inside
    rw [map_eq_none_iff, ih (by omega)]
    cases more with
    | nil =>
      have other : low ≠ 0x25 := by
        rintro rfl
        exact digits.2 rfl
      simp [other]
    | cons next more => simp
  | case3 c high low more hi lo digits escape ih =>
    simp only [length_cons] at inside ih
    rw [map_eq_none_iff, ih (by omega), List.getLast?_cons_cons (a := c)]
  | case4 c rest escape short =>
    have looks := (urlLooks_iff inside int).mp escape.2
    rcases looks with long | ⟨top, rfl⟩
    · rcases rest with _ | ⟨high, _ | ⟨low, more⟩⟩
      · cases long
      · exact absurd long (not_succ_le_self 1)
      · exact absurd rfl (short high low more)
    · exact ⟨fun _ => ⟨top, by rw [escape.1]; rfl⟩, fun _ => rfl⟩
  | case5 c rest plain ih =>
    have looks := urlLooks_iff inside int
    rw [map_eq_none_iff, ih (le_of_succ_le inside)]
    cases rest with
    | nil =>
      have other : slen = intMax → c ≠ 0x25 := fun top same => plain ⟨same, looks.mpr (.inr ⟨top, rfl⟩)⟩
      simpa using other
    | cons next rest => simp

theorem urlDecodeLoop_length (text : List UInt8) :
    ∀ out, urlDecodeLoop slen text = some out → out.length ≤ text.length := by
  fun_induction urlDecodeLoop slen text with
  | case1 => simp
  | case2 c high low more hi lo digits escape ih =>
    intro out decoded
    obtain ⟨rest, is, rfl⟩ := map_eq_some_iff.mp decoded
    have short := ih rest is
    simp only [length_cons]
    omega
  | case4 => simp
  | case3 c high low more hi lo digits escape ih | case5 c rest plain ih =>
    intro out decoded
    obtain ⟨rest, is, rfl⟩ := map_eq_some_iff.mp decoded
    exact succ_le_succ (ih rest is)

theorem urlDecodeLoop_encode {src : List UInt8} (inside : (src.flatMap urlEncodeByte).length ≤ slen) (int : slen < intMax) :
    urlDecodeLoop slen (src.flatMap urlEncodeByte) = some src := by
  induction src with
  | nil => rfl
  | cons c rest ih =>
    rw [flatMap_cons, length_append] at inside
    have next := ih (by omega)
    rw [flatMap_cons]
    rcases urlEncodeByte_cases c with ⟨-, other, is⟩ | ⟨high, low, -, -, is, first, second, value⟩
    · rw [is, singleton_append]
      unfold urlDecodeLoop
      rw [if_neg fun escape => other escape.1, next]
      rfl
    · rw [is] at inside ⊢
      simp only [cons_append, nil_append, length_cons, length_nil] at inside ⊢
      have looks := (@urlLooks_iff slen (high :: low :: rest.flatMap urlEncodeByte) (by simp only [length_cons]; omega)
        (Nat.le_of_lt int)).mpr (.inl (by simp only [length_cons]; omega))
      rw [urlDecodeLoop, if_pos ⟨rfl, looks⟩]
      dsimp only
      rw [if_pos ⟨first, second⟩, value, next]
      rfl

theorem urlEncode_length (src : List UInt8) : (src.flatMap urlEncodeByte).length ≤ src.length * 3 := by
  induction src with
  | nil => exact Nat.le_refl 0
  | cons c rest ih =>
    have each : (urlEncodeByte c).length ≤ 3 := by
      unfold urlEncodeByte
      split <;> simp
    simp only [flatMap_cons, length_append, length_cons]
    omega

/-- Decoding undoes encoding, which writes unreserved characters and escapes. Decoding does not outgrow its source, and it
stays inside it exactly if it is not `INT_MAX` bytes long with a percent sign at its end. -/
theorem url_codec_iff (src : List UInt8) :
    (src.length ≤ intMax / 3 → ∀ dlen ≥ src.length * 3, ∃ parts : List (List UInt8),
      xylemUrlEncode src dlen = some parts.flatten ∧
      (∀ room ≥ parts.flatten.length, xylemUrlDecode parts.flatten room = some (some src)) ∧
      ∀ part ∈ parts, (∃ c, Uri.unreserved c = true ∧ part = [c]) ∨
        ∃ high low, high ∈ urlHex ∧ low ∈ urlHex ∧ part = [0x25, high, low]) ∧
    (src.length ≤ intMax → ∀ dlen ≥ src.length,
      ((∃ out, xylemUrlDecode src dlen = some (some out) ∧ out.length ≤ src.length) ↔
        ¬(src.length = intMax ∧ src.getLast? = some 0x25))) := by
  refine ⟨fun small dlen room => ⟨src.map urlEncodeByte, ?_, fun room' fits => ?_, fun part member => ?_⟩,
    fun int dlen room => ?_⟩
  · rw [xylemUrlEncode, if_neg (by omega), List.flatMap_def]
  · have max : intMax = 2 ^ 31 - 1 := rfl
    have bound := urlEncode_length src
    rw [xylemUrlDecode, if_neg (by omega), ← List.flatMap_def, urlDecodeLoop_encode (Nat.le_refl _) (by omega)]
    rfl
  · obtain ⟨c, -, rfl⟩ := List.mem_map.mp member
    rcases urlEncodeByte_cases c with ⟨unreserved, -, is⟩ | ⟨high, low, upper, upper', is, -⟩
    · exact .inl ⟨c, unreserved, is⟩
    · exact .inr ⟨high, low, upper, upper', is⟩
  · rw [xylemUrlDecode, if_neg (by omega), ← urlDecodeLoop_eq_none (Nat.le_refl _) int]
    constructor
    · rintro ⟨out, decoded, -⟩ none_
      rw [none_] at decoded
      cases decoded
    · intro some_
      obtain ⟨out, decoded⟩ := Option.ne_none_iff_exists'.mp some_
      exact ⟨out, by rw [decoded]; rfl, urlDecodeLoop_length src out decoded⟩

theorem url_decode_reads_outside : xylemUrlDecode (List.replicate (intMax - 1) 0x41 ++ [0x25]) intMax = none := by
  have top : (List.replicate (intMax - 1) (0x41 : UInt8) ++ [0x25]).length = intMax := by
    rw [List.length_append, List.length_replicate]
    rfl
  have outside := (urlDecodeLoop_eq_none (Nat.le_of_eq top) (Nat.le_refl _)).mpr ⟨rfl, by simp⟩
  rw [xylemUrlDecode, top, if_neg (Nat.lt_irrefl _), outside]
  rfl

end Xylem.Encoding
