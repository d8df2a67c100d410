import Mathlib.Algebra.Order.Ring.Int

namespace Xylem.Net

open List

/-- `xylem_writer_s` without its transport, with the first `w` bytes of `buf`. -/
structure Writer where
  buflen : Int
  buf : List UInt8 := []

/-- What a transport returns for a write after the ones that it was given. -/
abbrev WriterFn := List (List UInt8) → List UInt8 → Int

/-- The writer and the writes that its transport was given. -/
abbrev WriterState := Writer × List (List UInt8)

def defaultBufSize : Int := 4096

def xylemWriterCreate (size : Int) : Writer := { buflen := if size ≤ 0 then defaultBufSize else size }

variable (fn : WriterFn) (s : WriterState)

def xylemWriterFlush : WriterState × Int :=
  if s.1.buf = [] then (s, 0) else (({ s.1 with buf := [] }, s.2 ++ [s.1.buf]), fn s.2 s.1.buf)

/-- `xylem_writer_write`; `data` is the bytes at the pointer, or `none` for `NULL`. -/
def xylemWriterWrite (data : Option (List UInt8)) (len : Int) : WriterState × Int :=
  if len < 0 then (s, -1)
  else if len = 0 then (s, 0)
  else
    match data with
    | none => (s, -1)
    | some data =>
      let data := data.take len.toNat
      if s.1.buflen ≤ len then
        let (s, rc) := xylemWriterFlush fn s
        if rc ≠ 0 then (s, -1) else ((s.1, s.2 ++ [data]), fn s.2 data)
      else
        let (s, rc) :=
          if s.1.buflen < (s.1.buf.length + len).bmod (2 ^ 32) then xylemWriterFlush fn s else (s, 0)
        if rc ≠ 0 then (s, -1) else (({ s.1 with buf := s.1.buf ++ data }, s.2), 0)

inductive WriterCall where
  | write (data : Option (List UInt8)) (len : Int)
  | flush

/-- The bytes of a call. -/
def WriterCall.bytes : WriterCall → List UInt8
  | .write data len => (data.getD []).take len.toNat
  | .flush => []

/-- The length is an `int` and does not reach past the data. -/
def WriterCall.Fits : WriterCall → Prop
  | .write data len => len < 2 ^ 31 ∧ ∀ bytes, data = some bytes → len ≤ bytes.length
  | .flush => True

def WriterCall.run : WriterCall → WriterState
  | .write data len => (xylemWriterWrite fn s data len).1
  | .flush => (xylemWriterFlush fn s).1

variable {fn : WriterFn} {s : WriterState} {size : Int}

/-- The bytes handed over and those that wait. -/
def WriterState.text (s : WriterState) : List UInt8 := s.2.flatten ++ s.1.buf

structure WriterState.Ok (size : Int) (s : WriterState) : Prop where
  buflen : s.1.buflen = size
  fits : s.1.buf.length ≤ size

section

variable (ok : WriterState.Ok size s) (works : ∀ sent data, fn sent data = 0)
include ok works

theorem xylemWriterFlush_spec :
    ∃ sent, xylemWriterFlush fn s = (({ buflen := size }, sent), 0) ∧ sent.flatten = WriterState.text s := by
  unfold xylemWriterFlush WriterState.text
  split
  · rename_i empty
    refine ⟨s.2, ?_, by rw [empty, append_nil]⟩
    obtain ⟨⟨buflen, buf⟩, sent⟩ := s
    cases empty
    rw [← ok.buflen]
  · refine ⟨s.2 ++ [s.1.buf], by rw [works, ← ok.buflen], ?_⟩
    rw [flatten_append, flatten_singleton]

variable (large : size ≤ 2 ^ 30)
include large

theorem xylemWriterWrite_spec {data : Option (List UInt8)} {len : Int} (fits : WriterCall.Fits (.write data len)) :
    WriterState.Ok size (xylemWriterWrite fn s data len).1 ∧
      WriterState.text (xylemWriterWrite fn s data len).1 = WriterState.text s ++ WriterCall.bytes (.write data len) := by
  obtain ⟨sent, flushed, text⟩ := xylemWriterFlush_spec ok works
  have filled := ok.fits
  have nonneg : 0 ≤ size := by omega
  unfold xylemWriterWrite
  split
  · rename_i negative
    exact ⟨ok, by simp [WriterCall.bytes, Int.toNat_of_nonpos (Int.le_of_lt negative)]⟩
  split
  · rename_i zero
    exact ⟨ok, by simp [WriterCall.bytes, zero]⟩
  cases data with
  | none => exact ⟨ok, by simp [WriterCall.bytes]⟩
  | some bytes =>
    have length : ((bytes.take len.toNat).length : Int) = len := by
      have long := fits.2 bytes rfl
      rw [length_take]
      omega
    dsimp only
    rw [flushed, ok.buflen]
    split
    · -- a large write goes around the buffer
      refine ⟨⟨rfl, nonneg⟩, ?_⟩
      simp [WriterState.text, WriterCall.bytes, text]
    · have sum : ((s.1.buf.length : Int) + len).bmod (2 ^ 32) = s.1.buf.length + len :=
        Int.bmod_eq_of_le (by omega) (by omega)
      rw [sum]
      split
      · refine ⟨⟨rfl, ?_⟩, ?_⟩
        · simp only [ne_eq, not_true, if_false, nil_append, length]
          omega
        · simp [WriterState.text, WriterCall.bytes, text]
      · refine ⟨⟨ok.buflen, ?_⟩, ?_⟩
        · simp only [ne_eq, not_true, if_false, length_append, Int.natCast_add, length]
          omega
        · simp [WriterState.text, WriterCall.bytes]

theorem WriterCall.run_spec {call : WriterCall} (fits : call.Fits) :
    WriterState.Ok size (call.run fn s) ∧ WriterState.text (call.run fn s) = WriterState.text s ++ call.bytes := by
  cases call with
  | write data len => exact xylemWriterWrite_spec ok works large fits
  | flush =>
    have filled := ok.fits
    obtain ⟨sent, flushed, handed⟩ := xylemWriterFlush_spec ok works
    simp only [run, flushed]
    exact ⟨⟨rfl, by show (0 : Int) ≤ size; omega⟩, by simp [WriterState.text, handed, bytes]⟩

theorem WriterCall.runs_spec {calls : List WriterCall} (fits : ∀ call ∈ calls, call.Fits) :
    WriterState.Ok size (calls.foldl (run fn) s) ∧
      WriterState.text (calls.foldl (run fn) s) = WriterState.text s ++ calls.flatMap bytes := by
  induction calls generalizing s with
  | nil => exact ⟨ok, by simp⟩
  | cons call rest ih =>
    obtain ⟨still, text⟩ := run_spec ok works large (fits call mem_cons_self)
    rw [foldl_cons, flatMap_cons, ← append_assoc, ← text]
    exact ih still fun call member => fits call (mem_cons_of_mem _ member)

end

/-- After any calls, what was handed over and what is in the buffer is what was written, in order; the buffer is not
overrun, and a flush, which is also what destroys the writer, hands everything over. -/
theorem writer_preserves_order (works : ∀ sent data, fn sent data = 0) (pos : 1 ≤ size) (large : size ≤ 2 ^ 30)
    {calls : List WriterCall} (fits : ∀ call ∈ calls, call.Fits) :
    let s := calls.foldl (WriterCall.run fn) (xylemWriterCreate size, [])
    s.2.flatten ++ s.1.buf = calls.flatMap WriterCall.bytes ∧ s.1.buf.length ≤ size ∧
      (xylemWriterFlush fn s).1.2.flatten = calls.flatMap WriterCall.bytes ∧ (xylemWriterFlush fn s).1.1.buf = [] := by
  have ok : WriterState.Ok size (xylemWriterCreate size, []) := ⟨if_neg (by omega), by show (0 : Int) ≤ size; omega⟩
  obtain ⟨still, text⟩ := WriterCall.runs_spec ok works large fits
  obtain ⟨sent, flushed, handed⟩ := xylemWriterFlush_spec still works
  dsimp only
  rw [flushed]
  exact ⟨text, still.fits, handed.trans text, rfl⟩

theorem writer_preserves_order_mixed :
    let s := [WriterCall.write (some [1, 2]) 2, .flush, .write (some [3, 4, 5, 6]) 4].foldl (WriterCall.run fun _ _ => 0)
      (xylemWriterCreate 3, [])
    s.2.flatten ++ s.1.buf = [1, 2, 3, 4, 5, 6] :=
  (@writer_preserves_order (fun _ _ => 0) 3 (fun _ _ => rfl) (by decide) (by decide)
    [.write (some [1, 2]) 2, .flush, .write (some [3, 4, 5, 6]) 4] (by simp [WriterCall.Fits])).1

end Xylem.Net
