import Xylem.Http.Redirect

namespace Xylem.Http

open Lib

/-- `xylem_gzip_decompress` into a buffer of `cap` bytes: what the body contains, if it is valid and that fits. -/
def gzipDecompress (content : List UInt8 → Option (List UInt8)) (body : List UInt8) (cap : Nat) : Option (List UInt8) :=
  (content body).filter fun data => data.length ≤ cap

/-- The growth loop of `_http_cli_decompress`, of at most `rounds` rounds: what it makes of the body, if it succeeds, and
the sizes that it allocates. -/
def httpCliDecompressLoop (gzip : List UInt8 → Nat → Option (List UInt8)) (body : List UInt8) (limit : Nat) :
    (rounds cap : Nat) → Option (Option (List UInt8) × List Nat)
  | 0, _ => none
  | rounds + 1, cap =>
    let size := if cap = 0 then 1 else cap
    match gzip body cap with
    | some data => some (some data, [size])
    | none =>
      if cap = limit then some (none, [size])
      else
        (httpCliDecompressLoop gzip body limit rounds (if limit / 2 < cap then limit else cap * 2)).map
          fun (result, sizes) => (result, size :: sizes)

def httpCliDecompress (gzip : List UInt8 → Nat → Option (List UInt8)) (headers : List HttpHdr) (body : List UInt8)
    (limit rounds : Nat) : Option (Option (List UInt8) × List Nat) :=
  match httpHeaderFind headers (ascii "Content-Encoding") with
  | none => some (some body, [])
  | some encoding =>
    if !httpHeaderEq encoding (ascii "gzip") ∨ body = [] then some (some body, [])
    else
      let cap := if body.length < 4096 then 4096 else body.length
      httpCliDecompressLoop gzip body limit rounds (if limit < cap then limit else cap)

variable {content : List UInt8 → Option (List UInt8)} {body data : List UInt8} {limit cap rounds : Nat}

theorem gzipDecompress_eq_some : gzipDecompress content body cap = some data ↔
    content body = some data ∧ data.length ≤ cap := by
  rw [gzipDecompress, Option.filter_eq_some_iff, decide_eq_true_eq]

/-- From a size that is not 0 the loop comes to its limit, each size at least one more than the one before. -/
theorem httpCliDecompressLoop_ends (positive : 0 < cap) (most : cap ≤ limit) (enough : limit - cap < rounds) :
    ∃ result sizes, httpCliDecompressLoop (gzipDecompress content) body limit rounds cap = some (result, sizes) ∧
      (∀ size ∈ sizes, size ≤ limit) ∧
      ∀ data, result = some data ↔ content body = some data ∧ data.length ≤ limit := by
  induction rounds generalizing cap with
  | zero => omega
  | succ rounds ih =>
    have size : (if cap = 0 then 1 else cap) ≤ limit := by rw [if_neg (by omega)]; exact most
    rw [httpCliDecompressLoop]
    dsimp only
    cases tries : gzipDecompress content body cap with
    | some found =>
      obtain ⟨valid, fits⟩ := gzipDecompress_eq_some.mp tries
      refine ⟨some found, _, rfl, by simpa using size, fun data => ?_⟩
      rw [valid]
      constructor
      · intro same
        rw [← Option.some.inj same]
        exact ⟨rfl, by omega⟩
      · exact fun same => same.1
    | none =>
      dsimp only
      by_cases last : cap = limit
      · rw [if_pos last]
        refine ⟨none, _, rfl, by simpa using size, fun data => ⟨nofun, fun fits => ?_⟩⟩
        rw [← last] at fits
        rw [gzipDecompress_eq_some.mpr fits] at tries
        cases tries
      · rw [if_neg last]
        obtain ⟨result, sizes, runs, small, exact_⟩ :=
          @ih (if limit / 2 < cap then limit else cap * 2) (by split <;> omega) (by split <;> omega)
            (by split <;> omega)
        refine ⟨result, _ :: sizes, by rw [runs]; rfl, fun other isIn => ?_, exact_⟩
        rcases List.mem_cons.mp isIn with rfl | isIn
        · exact size
        · exact small other isIn

/-- The loop ends, allocates no more than the limit at once, and gives what the body contains exactly if that is within
the limit. -/
theorem http_decompress_within_limit {headers : List HttpHdr} {encoding : List UInt8} (body : List UInt8)
    (found : httpHeaderFind headers (ascii "Content-Encoding") = some encoding)
    (isGzip : httpHeaderEq encoding (ascii "gzip") = true) (some_ : body ≠ [])
    (positive : 1 ≤ limit) (_small : limit ≤ 2 ^ 31 - 1) :
    ∃ enough, ∀ rounds, enough ≤ rounds → ∃ result sizes,
      httpCliDecompress (gzipDecompress content) headers body limit rounds = some (result, sizes) ∧
      (∀ size ∈ sizes, size ≤ max limit 1) ∧
      ∀ data, result = some data ↔ content body = some data ∧ data.length ≤ limit := by
  generalize first : (if body.length < 4096 then 4096 else body.length) = start
  have large : 1 ≤ start := by
    rw [← first]
    split <;> omega
  generalize begins : (if limit < start then limit else start) = cap
  have bounds : 0 < cap ∧ cap ≤ limit := by
    rw [← begins]
    split <;> omega
  refine ⟨limit + 1, fun rounds enough => ?_⟩
  obtain ⟨result, sizes, runs, small, exact_⟩ :=
    @httpCliDecompressLoop_ends content body limit cap rounds bounds.1 bounds.2 (by omega)
  refine ⟨result, sizes, ?_, fun size isIn => Nat.le_trans (small size isIn) (Nat.le_max_left ..), exact_⟩
  rw [httpCliDecompress, found]
  dsimp only
  rw [if_neg (by simp [isGzip, some_]), first, begins, runs]

/-- A body of one byte that stands for five thousand, with a limit of five thousand. -/
theorem http_decompress_within_limit_grows : ∃ rounds sizes,
    httpCliDecompress (gzipDecompress fun _ => some (List.replicate 5000 0)) [⟨ascii "content-encoding", ascii "GZIP"⟩]
      [1] 5000 rounds = some (some (List.replicate 5000 0), sizes) ∧ ∀ size ∈ sizes, size ≤ 5000 := by
  obtain ⟨enough, ends⟩ := @http_decompress_within_limit (fun _ => some (List.replicate 5000 0)) 5000
    [⟨ascii "content-encoding", ascii "GZIP"⟩] (ascii "GZIP") [1] (by decide) (by decide) (by decide) (by decide)
    (by decide)
  obtain ⟨result, sizes, runs, small, exact_⟩ := ends enough (Nat.le_refl _)
  rw [(exact_ _).mpr ⟨rfl, by rw [List.length_replicate]⟩] at runs
  exact ⟨enough, sizes, runs, fun size isIn => small size isIn⟩

end Xylem.Http
