namespace Xylem.Lib

open List

def crlf : List UInt8 := [0x0d, 0x0a]

/-- The lines up to the first empty one, each without its `CRLF`, and what follows; `line` is the part of a line that
was read already. -/
def readHead (line : List UInt8) : List UInt8 → Option (List (List UInt8) × List UInt8)
  | 0x0d :: 0x0a :: rest =>
    if line = [] then some ([], rest) else (readHead [] rest).map fun (lines, body) => (line :: lines, body)
  | c :: rest => readHead (line ++ [c]) rest
  | [] => none

theorem readHead_line {text : List UInt8} (one : 0x0d ∉ text) (line rest : List UInt8) :
    readHead line (text ++ (crlf ++ rest)) =
      if line ++ text = [] then some ([], rest)
      else (readHead [] rest).map fun (lines, body) => ((line ++ text) :: lines, body) := by
  induction text generalizing line with
  | nil => rw [append_nil, nil_append, crlf, cons_append, cons_append, nil_append, readHead]
  | cons c text ih =>
    have not : c ≠ 0x0d := fun is => one (is ▸ mem_cons_self ..)
    rw [cons_append, readHead, ih (fun isIn => one (mem_cons_of_mem _ isIn)), append_assoc]
    · rfl
    · intro _ is _
      exact not is

variable {lines : List (List UInt8)}

theorem readHead_append {line text : List UInt8} {body : List UInt8}
    (reads : readHead line text = some (lines, body)) (more : List UInt8) :
    readHead line (text ++ more) = some (lines, body ++ more) := by
  fun_induction readHead line text generalizing lines with
  | case1 rest =>
    cases reads
    rw [cons_append, cons_append, readHead, if_pos rfl]
  | case2 line rest some_ ih =>
    obtain ⟨⟨others, after⟩, reads, is⟩ := Option.map_eq_some_iff.mp reads
    cases is
    rw [cons_append, cons_append, readHead, if_neg some_, ih reads]
    rfl
  | case3 line c rest other ih =>
    rw [cons_append, readHead, ih reads]
    intro after is starts
    cases rest with
    | nil => cases reads
    | cons first others =>
      rw [cons_append, List.cons.injEq] at starts
      exact other others is (by rw [starts.1])
  | case4 => cases reads

theorem readHead_lines (well : ∀ line ∈ lines, line ≠ [] ∧ 0x0d ∉ line)
    (body : List UInt8) : readHead [] (lines.flatMap (· ++ crlf) ++ (crlf ++ body)) = some (lines, body) := by
  induction lines with
  | nil => exact readHead_line not_mem_nil [] body
  | cons line rest ih =>
    obtain ⟨some_, one⟩ := well line (mem_cons_self ..)
    rw [flatMap_cons, append_assoc, append_assoc, readHead_line one, nil_append, if_neg some_,
      ih fun other isIn => well other (mem_cons_of_mem _ isIn)]
    rfl

end Xylem.Lib
