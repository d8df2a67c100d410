import Xylem.Http.Exchange

namespace Xylem.Http

open Lib List

/-- A header line, read into its name and value. -/
def headerOf (line : List UInt8) : HttpHdr :=
  ⟨line.takeWhile (· ≠ 0x3a), ((line.dropWhile (· ≠ 0x3a)).drop 1).dropWhile (· = 0x20)⟩

/-- The length of the body that the header lines announce. -/
def announcedLength (lines : List (List UInt8)) : Nat :=
  match (lines.map headerOf).find? fun header => httpHeaderEq header.name (ascii "Content-Length") with
  | some header => decimal header.value
  | none => 0

/-- Bytes that are a row of complete requests, with their methods. -/
inductive Requests : List (List UInt8) → List UInt8 → Prop
  | nil : Requests [] []
  | cons {line body rest bytes : List UInt8} {lines methods : List (List UInt8)} :
    readHead [] bytes = some (line :: lines, body ++ rest) → body.length = announcedLength lines →
      Requests methods rest → Requests (line.takeWhile (· ≠ 0x20) :: methods) bytes

variable {back front : List UInt8}

theorem Requests.append {methods others : List (List UInt8)} (first : Requests methods front)
    (second : Requests others back) : Requests (methods ++ others) (front ++ back) := by
  induction first with
  | nil => exact second
  | cons reads length _ ih =>
    have longer := readHead_append reads back
    rw [append_assoc] at longer
    exact .cons longer length ih

theorem Requests.cancel {methods all : List (List UInt8)} (first : Requests methods front)
    (both : Requests all (front ++ back)) : ∃ others, all = methods ++ others ∧ Requests others back := by
  induction first generalizing all with
  | nil => exact ⟨all, rfl, both⟩
  | @cons line body rest bytes lines methods reads length _ ih =>
    have longer := readHead_append reads back
    generalize bytes ++ back = whole at both longer
    cases both with
    | nil => cases longer
    | cons otherReads otherLength later =>
      obtain ⟨⟨rfl, rfl⟩, same⟩ : (_ = _ ∧ _ = _) ∧ _ = _ := by simpa using longer.symm.trans otherReads
      obtain ⟨rfl, rfl⟩ := append_inj same (length.trans otherLength.symm)
      obtain ⟨others, rfl, after⟩ := ih later
      exact ⟨others, rfl, after⟩

section Responses

variable {σ : Type} (parser : ResponseParser σ) (head : Bool)

/-- Bytes that the parser takes in without coming to an end. -/
def ResponseParser.Feeds : σ → List UInt8 → σ → Prop
  | state, [], last => state = last
  | state, c :: rest, last => ∃ next, parser.feed state c = .more next ∧ ResponseParser.Feeds next rest last

variable (bytes : List UInt8) (state : σ)

namespace ResponseParser

/-- The bytes of one response message. -/
def Message : Prop :=
  ∃ front last before, bytes = front ++ [last] ∧ parser.Feeds (parser.start head) front before ∧
    parser.feed before last = .done state

/-- A final response, after any informational ones. -/
inductive Responds : List UInt8 → σ → Prop
  | final {message : List UInt8} {state : σ} : parser.Message head message state → 200 ≤ parser.status state →
    Responds message state
  | interim {message rest : List UInt8} {state last : σ} : parser.Message head message state →
    parser.status state < 200 → parser.status state ≠ 101 → Responds rest last → Responds (message ++ rest) last

/-- Informational responses only. -/
inductive Interims : List UInt8 → Prop
  | none : Interims []
  | more {before message : List UInt8} {state : σ} : Interims before → parser.Message head message state →
    parser.status state < 200 → parser.status state ≠ 101 → Interims (before ++ message)

/-- Informational responses and the beginning of another response. -/
def Partway : Prop :=
  ∃ before part, bytes = before ++ part ∧ parser.Interims head before ∧ parser.Feeds (parser.start head) part state

end ResponseParser

variable {parser head} {back front : List UInt8}

namespace ResponseParser

theorem Feeds.append {state middle last : σ} (first : parser.Feeds state front middle)
    (second : parser.Feeds middle back last) :
    parser.Feeds state (front ++ back) last := by
  induction front generalizing state with
  | nil =>
    cases first
    exact second
  | cons c rest ih =>
    obtain ⟨next, feeds, first⟩ := first
    exact ⟨next, feeds, ih first⟩

theorem Interims.responds {before bytes : List UInt8} {state : σ}
    (interims : parser.Interims head before) (responds : parser.Responds head bytes state) :
    parser.Responds head (before ++ bytes) state := by
  induction interims generalizing bytes with
  | none => exact responds
  | more _ message low other ih =>
    rw [append_assoc]
    exact ih (.interim message low other responds)

/-- Where a message ends is decided by its own bytes. -/
theorem Message.unique {message other rest others : List UInt8} {state last : σ}
    (first : parser.Message head message state) (second : parser.Message head other last)
    (same : message ++ rest = other ++ others) : message = other ∧ state = last := by
  obtain ⟨front, byte, before, rfl, feeds, done⟩ := first
  obtain ⟨front', byte', before', rfl, feeds', done'⟩ := second
  generalize parser.start head = start at feeds feeds'
  induction front generalizing front' start with
  | nil =>
    cases feeds
    cases front' with
    | nil =>
      cases feeds'
      obtain ⟨rfl, -⟩ := List.cons.inj same
      rw [done] at done'
      cases done'
      exact ⟨rfl, rfl⟩
    | cons c more =>
      obtain ⟨next, feeds', -⟩ := feeds'
      obtain ⟨rfl, -⟩ := List.cons.inj same
      rw [done] at feeds'
      cases feeds'
  | cons c more ih =>
    obtain ⟨next, step, feeds⟩ := feeds
    cases front' with
    | nil =>
      cases feeds'
      obtain ⟨rfl, -⟩ := List.cons.inj same
      rw [step] at done'
      cases done'
    | cons c' more' =>
      obtain ⟨next', step', feeds'⟩ := feeds'
      obtain ⟨rfl, tails⟩ := List.cons.inj same
      rw [step] at step'
      cases step'
      obtain ⟨bytes, states⟩ := ih more' tails next feeds feeds'
      exact ⟨congrArg (c :: ·) bytes, states⟩

theorem Responds.unique {bytes others rest tail : List UInt8} {state last : σ}
    (first : parser.Responds head bytes state) (second : parser.Responds head others last)
    (same : bytes ++ rest = others ++ tail) : bytes = others ∧ state = last := by
  induction first generalizing others with
  | final message high =>
    cases second with
    | final other _ => exact message.unique other same
    | interim other low =>
      rw [append_assoc] at same
      obtain ⟨-, rfl⟩ := message.unique other same
      omega
  | interim message low _ _ ih =>
    rw [append_assoc] at same
    cases second with
    | final other high =>
      obtain ⟨-, rfl⟩ := message.unique other same
      omega
    | interim other _ _ later =>
      rw [append_assoc] at same
      obtain ⟨rfl, -⟩ := message.unique other same
      obtain ⟨rfl, rfl⟩ := ih later (append_cancel_left same)
      exact ⟨rfl, rfl⟩

/-- The answer to a request with the method: to `HEAD` it has no body, and to `CONNECT` it must not open a tunnel. -/
def Answer (parser : ResponseParser σ) (method bytes : List UInt8) : Prop :=
  ∃ state, parser.Responds (decide (method = ascii "HEAD")) bytes state ∧
    ¬(method = ascii "CONNECT" ∧ parser.status state / 100 = 2)

/-- Bytes that are the answers to requests with the methods, in their order. -/
inductive Answers (parser : ResponseParser σ) : List (List UInt8) → List UInt8 → Prop
  | nil : Answers parser [] []
  | cons {method answer rest : List UInt8} {methods : List (List UInt8)} : parser.Answer method answer →
    Answers parser methods rest → Answers parser (method :: methods) (answer ++ rest)

end ResponseParser

section

variable {methods others : List (List UInt8)} (first : parser.Answers methods front)
include first

theorem ResponseParser.Answers.append (second : parser.Answers others back) :
    parser.Answers (methods ++ others) (front ++ back) := by
  induction first with
  | nil => exact second
  | cons answer _ ih =>
    rw [append_assoc]
    exact .cons answer ih

theorem ResponseParser.Answers.cancel (both : parser.Answers (methods ++ others) (front ++ back)) :
    parser.Answers others back := by
  induction first with
  | nil => exact both
  | @cons method answer rest methods responds _ ih =>
    generalize is : answer ++ rest ++ back = whole at both
    cases both with
    | cons other later =>
      obtain ⟨state, responds, -⟩ := responds
      obtain ⟨last, other, -⟩ := other
      rw [append_assoc] at is
      obtain ⟨rfl, -⟩ := responds.unique other is
      rw [← append_cancel_left is] at later
      exact ih later

end

end Responses

end Xylem.Http
