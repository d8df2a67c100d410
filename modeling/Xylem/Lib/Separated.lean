import Mathlib.Data.List.Basic
import Mathlib.Data.List.TakeWhile

namespace Xylem.Lib

open List

variable {α : Type} [DecidableEq α]

variable (sep : α) (blank : α → Bool) (text : List α)

/-- A text without the blanks around it. -/
def trim : List α := ((text.dropWhile blank).reverse.dropWhile blank).reverse

/-- The elements of a separated list that are not empty, without the blanks around them. -/
def elements : List (List α) :=
  ((text.splitOn sep).map (trim blank)).filter (· ≠ [])

variable {sep c : α} {blank : α → Bool} {text : List α}

theorem elements_sep : elements sep blank (sep :: text) = elements sep blank text := by
  have split_ := splitOn_append_cons_self_of_not_mem (not_mem_nil (a := sep)) text
  rw [nil_append] at split_
  rw [elements, split_, map_cons, filter_cons_of_neg (by simp [trim]), elements]

theorem elements_blank (is : blank c = true) (other : c ≠ sep) :
    elements sep blank (c :: text) = elements sep blank text := by
  have same : ∀ part, trim blank (c :: part) = trim blank part := fun part => by
    rw [trim, dropWhile_cons_of_pos is, trim]
  rw [elements, splitOn_cons_eq_if_modifyHead, if_neg (by simpa using other), elements]
  cases text.splitOn sep with
  | nil => rfl
  | cons part parts => rw [modifyHead_cons, map_cons, map_cons, same]

/-- Blanks and separators in front make no elements. -/
theorem elements_skip {skip : α → Bool} (only : ∀ c, skip c = true → blank c = true ∨ c = sep) :
    elements sep blank (text.dropWhile skip) = elements sep blank text := by
  induction text with
  | nil => rfl
  | cons c rest ih =>
    by_cases skipped : skip c = true
    · rw [dropWhile_cons_of_pos skipped, ih]
      by_cases here : c = sep
      · rw [here, elements_sep]
      · rw [elements_blank ((only c skipped).resolve_right here) here]
    · rw [dropWhile_cons_of_neg skipped]

theorem elements_cons (text_ : blank c = false) (other : c ≠ sep) :
    elements sep blank (c :: text) = (((c :: text).takeWhile (· ≠ sep)).reverse.dropWhile blank).reverse ::
      elements sep blank ((c :: text).dropWhile (· ≠ sep)) := by
  generalize raw_ : (c :: text).takeWhile (· ≠ sep) = raw
  have absent : sep ∉ raw := by
    rw [← raw_]
    exact fun isIn => by simpa using mem_takeWhile_imp isIn
  obtain ⟨others, is⟩ : ∃ others, raw = c :: others := by
    rw [← raw_, takeWhile_cons_of_pos (by simpa using other)]
    exact ⟨_, rfl⟩
  have trimmed : trim blank raw = (raw.reverse.dropWhile blank).reverse := by
    rw [trim, is, dropWhile_cons_of_neg (by simp [text_])]
  have some_ : (raw.reverse.dropWhile blank).reverse ≠ [] := by
    rw [is, reverse_cons, ne_eq, reverse_eq_nil_iff, dropWhile_eq_nil_iff]
    intro all
    simpa [text_] using all c (by simp)
  have whole : c :: text = raw ++ (c :: text).dropWhile (· ≠ sep) := by rw [← raw_, takeWhile_append_dropWhile]
  have add : ∀ parts, ((raw :: parts).map (trim blank)).filter (· ≠ []) =
      (raw.reverse.dropWhile blank).reverse :: (parts.map (trim blank)).filter (· ≠ []) := by
    intro parts
    rw [map_cons, trimmed, filter_cons_of_pos (by simpa using some_)]
  cases after : (c :: text).dropWhile (· ≠ sep) with
  | nil =>
    rw [after, append_nil] at whole
    rw [whole, elements, splitOn_eq_singleton absent, add]
    simp [elements, trim]
  | cons d rest =>
    have comma : d = sep := by
      have head := List.head?_dropWhile_not (fun x : α => decide (x ≠ sep)) (c :: text)
      rw [after] at head
      simpa using head
    rw [after, comma] at whole
    rw [whole, elements, splitOn_append_cons_self_of_not_mem absent, add, comma, elements_sep]
    rfl

end Xylem.Lib
