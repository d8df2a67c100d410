import Mathlib.Data.List.Basic
import Xylem.Http.Url

namespace Xylem.Http

open Lib List
open Option (bind_eq_some_iff ite_none_left_eq_some)

def Visible (text : List UInt8) : Prop := ∀ c ∈ text, 32 < c ∧ c ≠ 127

theorem Visible.subset {text part : List UInt8} (visible : Visible text) (le : part ⊆ text) : Visible part :=
  fun c isIn => visible c (le isIn)

theorem Visible.not_mem {text : List UInt8} (visible : Visible text) {c : UInt8} (small : c ≤ 32) : c ∉ text := by
  intro isIn
  exact UInt8.not_lt.mpr small (visible c isIn).1

theorem Visible.lower {text : List UInt8} (visible : Visible text) : Visible (text.map httpLower) := by
  intro c isIn
  obtain ⟨b, among, rfl⟩ := mem_map.mp isIn
  have := visible b among
  unfold httpLower
  grind

variable {p rest name path : List UInt8} {scheme : HttpScheme} {location : List UInt8} {base next : HttpUrl}

theorem httpUrlScheme_subset {url : List UInt8} (is : httpUrlScheme url = some (scheme, rest)) : rest ⊆ url := by
  obtain ⟨sep, found, is⟩ := bind_eq_some_iff.mp is
  have later : sep.drop 3 ⊆ url := fun c isIn => (strstr_suffix found).subset (mem_of_mem_drop isIn)
  dsimp only at is
  split at is
  · cases is
  split at is
  · cases is
    exact later
  split at is
  · cases is
    exact later
  · cases is

theorem httpUrlAuthority_subset (is : httpUrlAuthority p = some (name, rest)) : name ⊆ p ∧ rest ⊆ p := by
  unfold httpUrlAuthority at is
  split at is
  · split at is
    · cases is
      refine ⟨fun c isIn => ?_, fun c isIn => ?_⟩
      · exact mem_cons_of_mem _ ((takeWhile_sublist _).subset isIn)
      · exact mem_cons_of_mem _ ((dropWhile_suffix _).subset (mem_of_mem_drop isIn))
    · cases is
  · cases is
    exact ⟨(takeWhile_sublist _).subset, (dropWhile_suffix _).subset⟩

theorem httpUrlDigits_subset {port value : Nat} (is : httpUrlDigits port p = some (value, rest)) : rest ⊆ p := by
  induction p generalizing port with
  | nil =>
    cases is
    exact List.Subset.refl _
  | cons c others ih =>
    rw [httpUrlDigits] at is
    split at is
    · dsimp only at is
      split at is
      · cases is
      · exact List.Subset.trans (ih is) (subset_cons_self ..)
    · cases is
      exact List.Subset.refl _

theorem httpUrlPort_subset {port : UInt16} (is : httpUrlPort scheme p = some (port, rest)) : rest ⊆ p := by
  unfold httpUrlPort at is
  split at is
  · split at is
    · obtain ⟨⟨value, after⟩, digits, is⟩ := bind_eq_some_iff.mp is
      dsimp only at is
      split at is
      · cases is
      · cases is
        exact List.Subset.trans (httpUrlDigits_subset digits) (subset_cons_self ..)
    · cases is
  · cases is
    exact List.Subset.refl _

theorem httpUrlPath_spec (is : httpUrlPath p = some path) : path.head? = some 0x2f ∧ ∀ c ∈ path, c = 0x2f ∨ c ∈ p := by
  unfold httpUrlPath at is
  split at is
  · cases is
  rename_i starts
  dsimp only at is
  have within : ∀ c ∈ p.takeWhile (· ≠ 0x23), c ∈ p := fun c isIn => (takeWhile_sublist _).subset isIn
  split at is
  · cases is
    exact ⟨rfl, fun c isIn => .inl (mem_singleton.mp isIn)⟩
  rename_i some_
  split at is
  · cases is
    refine ⟨rfl, fun c isIn => ?_⟩
    rcases mem_cons.mp isIn with slash | isIn
    · exact .inl slash
    · exact .inr (within c isIn)
  · rename_i query
    cases is
    refine ⟨?_, fun c isIn => .inr (within c isIn)⟩
    cases p with
    | nil => exact absurd rfl some_
    | cons first others =>
      -- What may begin a path is a slash, a query or a fragment, and the last leaves it empty.
      have one : first ∈ ascii "/?#" := by simpa using starts
      have notFragment : first ≠ 0x23 := by
        rintro rfl
        exact some_ (by simp)
      have notQuery : first ≠ 0x3f := by simpa using query
      have slash : first = 0x2f := by
        simp [ascii] at one
        tauto
      rw [takeWhile_cons_of_pos (by simpa using notFragment), List.head?_cons, slash]

variable {text q r : List UInt8} {parsed : HttpUrl}

/-- The stages of `http_url_parse`, and what each of them makes of what the one before has left. -/
structure HttpUrlParts (text p name q r : List UInt8) (parsed : HttpUrl) : Prop where
  visible : Visible text
  scheme : httpUrlScheme text = some (parsed.scheme, p)
  authority : httpUrlAuthority p = some (name, q)
  some_ : name ≠ []
  fits : name.length < 256
  allowed : ∀ c ∈ name, c ∉ ascii "@\\[]"
  host : parsed.host = name.map httpLower
  port : httpUrlPort parsed.scheme q = some (parsed.port, r)
  path : httpUrlPath r = some parsed.path

theorem httpUrlParse_parts (is : httpUrlParse text = some parsed) :
    ∃ p name q r, HttpUrlParts text p name q r parsed := by
  unfold httpUrlParse at is
  split at is
  · cases is
  rename_i none
  have visible : Visible text := by
    intro c isIn
    have not := fun bad => none (any_eq_true.mpr ⟨c, isIn, bad⟩)
    simpa using not
  obtain ⟨⟨scheme, p⟩, first, is⟩ := bind_eq_some_iff.mp is
  obtain ⟨⟨name, q⟩, second, is⟩ := bind_eq_some_iff.mp is
  dsimp only at is
  split at is
  · cases is
  rename_i size
  split at is
  · cases is
  rename_i allowed
  obtain ⟨⟨port, r⟩, third, is⟩ := bind_eq_some_iff.mp is
  obtain ⟨path, fourth, is⟩ := bind_eq_some_iff.mp is
  split at is
  · cases is
  cases is
  obtain ⟨some_, fits⟩ := not_or.mp size
  refine ⟨p, name, q, r, visible, first, second, some_, by omega, fun c isIn among => ?_, rfl, third, fourth⟩
  exact allowed (any_eq_true.mpr ⟨c, isIn, decide_eq_true among⟩)

/-- What `http_url_parse` accepts has no blanks or control characters, and a path that starts with a slash. -/
theorem httpUrlParse_visible (is : httpUrlParse text = some parsed) :
    Visible parsed.host ∧ Visible parsed.path ∧ parsed.path.head? = some 0x2f := by
  obtain ⟨p, name, q, r, parts⟩ := httpUrlParse_parts is
  have inP := parts.visible.subset (httpUrlScheme_subset parts.scheme)
  obtain ⟨nameIn, qIn⟩ := httpUrlAuthority_subset parts.authority
  have inR := (inP.subset qIn).subset (httpUrlPort_subset parts.port)
  obtain ⟨slash, within⟩ := httpUrlPath_spec parts.path
  refine ⟨parts.host ▸ (inP.subset nameIn).lower, fun c isIn => ?_, slash⟩
  rcases within c isIn with rfl | isIn
  · decide
  · exact inR c isIn

/-- A redirect to a path: the segments that are left of the reference, and its query. -/
structure HttpRelative (location combined built : List UInt8) (base next : HttpUrl) : Prop where
  joins : httpUrlCombine location base.path = some combined
  folds : (((combined.takeWhile (· ≠ 0x23)).takeWhile (· ≠ 0x3f)).splitOn 0x2f).foldlM httpUrlSegment [] = some built
  host : next.host = base.host
  path : next.path = (if built = [] ∨ ((combined.takeWhile (· ≠ 0x23)).takeWhile (· ≠ 0x3f)).getLast? = some 0x2f
    then built ++ [0x2f] else built) ++ (combined.takeWhile (· ≠ 0x23)).dropWhile (· ≠ 0x3f)

/-- A redirect leads to a URL of its own, back to where it comes from, or to a path of the same host. -/
theorem httpUrlResolveRedirect_cases (resolves : httpUrlResolveRedirect location base = some next) :
    ((strstr (ascii "://") location).isSome = true ∨ (ascii "//").isPrefixOf location = true) ∧
      (∃ text, httpUrlParse text = some next) ∨
    location.head? = some 0x23 ∧ next = base ∨
    ((strstr (ascii "://") location).isSome ≠ true ∧ (ascii "//").isPrefixOf location ≠ true ∧
      location.head? ≠ some 0x23) ∧ ∃ combined built, HttpRelative location combined built base next := by
  unfold httpUrlResolveRedirect at resolves
  obtain ⟨-, resolves⟩ := ite_none_left_eq_some.mp resolves
  split at resolves
  · exact .inl ⟨.inl ‹_›, _, resolves⟩
  split at resolves
  · obtain ⟨-, is⟩ := ite_none_left_eq_some.mp resolves
    exact .inl ⟨.inr ‹_›, _, is⟩
  split at resolves
  · cases resolves
    exact .inr (.inl ⟨‹_›, rfl⟩)
  obtain ⟨combined, joins, resolves⟩ := bind_eq_some_iff.mp resolves
  obtain ⟨-, resolves⟩ := ite_none_left_eq_some.mp resolves
  obtain ⟨built, folds, resolves⟩ := bind_eq_some_iff.mp resolves
  obtain ⟨fits, is⟩ := Option.dite_none_right_eq_some.mp resolves
  cases is
  exact .inr (.inr ⟨⟨‹_›, ‹_›, ‹_›⟩, combined, built, joins, folds, rfl, rfl⟩)

theorem mem_splitOn {a : UInt8} {text part : List UInt8} (isIn : part ∈ text.splitOn a) : part ⊆ text ∧ a ∉ part := by
  induction text generalizing part with
  | nil =>
    rw [splitOn_nil, mem_singleton] at isIn
    rw [isIn]
    exact ⟨List.Subset.refl _, not_mem_nil⟩
  | cons x rest ih =>
    rw [splitOn_cons_eq_if_modifyHead] at isIn
    have deeper : part ∈ rest.splitOn a → part ⊆ x :: rest ∧ a ∉ part := fun later =>
      ⟨List.Subset.trans (ih later).1 (subset_cons_self ..), (ih later).2⟩
    split at isIn
    · rcases mem_cons.mp isIn with rfl | later
      · exact ⟨nil_subset _, not_mem_nil⟩
      · exact deeper later
    · rename_i other
      cases parts : rest.splitOn a with
      | nil => exact absurd parts (splitOn_ne_nil a rest)
      | cons first others =>
        rw [parts] at isIn ih deeper
        rcases mem_cons.mp isIn with rfl | later
        · obtain ⟨inside, absent⟩ := ih (mem_cons_self ..)
          rw [mem_cons, not_or]
          exact ⟨cons_subset_cons x inside, fun is => other (by simp [is]), absent⟩
        · exact deeper (mem_cons_of_mem _ later)

section Path

variable {c : UInt8} {location : List UInt8} {base next : HttpUrl}

theorem httpUrlCombine_mem {combined : List UInt8} (is : httpUrlCombine location path = some combined)
    (isIn : c ∈ combined) : c ∈ location ∨ c ∈ path := by
  unfold httpUrlCombine at is
  split at is
  · cases is
    exact .inl (mem_of_mem_take isIn)
  split at is
  · cases is
    rcases mem_append.mp (mem_of_mem_take isIn) with front | back
    · exact .inr ((takeWhile_sublist _).subset front)
    · exact .inl back
  dsimp only at is
  have directory : ∀ text : List UInt8, c ∈ (if 0x2f ∈ text then (text.reverse.dropWhile (· ≠ 0x2f)).reverse
      else text.take 1) → c ∈ text := by
    intro text isIn
    split at isIn
    · exact mem_reverse.mp ((dropWhile_suffix _).subset (mem_reverse.mp isIn))
    · exact mem_of_mem_take isIn
  obtain ⟨-, is⟩ := ite_none_left_eq_some.mp is
  cases is
  rcases mem_append.mp isIn with front | back
  · exact .inr ((takeWhile_sublist _).subset (directory _ front))
  · exact .inl back

theorem httpUrlSegments_mem {segments : List (List UInt8)} {built result : List UInt8} (slash : c ≠ 0x2f)
    (parts : ∀ part ∈ segments, c ∉ part) (before : c ∉ built)
    (folds : segments.foldlM httpUrlSegment built = some result) : c ∉ result := by
  induction segments generalizing built with
  | nil =>
    cases folds
    exact before
  | cons part rest ih =>
    rw [foldlM_cons] at folds
    obtain ⟨middle, one, folds⟩ := bind_eq_some_iff.mp folds
    refine ih (fun other isIn => parts other (mem_cons_of_mem _ isIn)) ?_ folds
    have here := parts part (mem_cons_self ..)
    unfold httpUrlSegment at one
    split at one
    · cases one
      intro isIn
      have inside := mem_of_mem_drop (mem_reverse.mp isIn)
      exact before (mem_reverse.mp ((dropWhile_suffix _).subset inside))
    split at one
    · cases one
      exact before
    split at one
    · cases one
    · cases one
      rw [mem_append, mem_cons]
      tauto

theorem httpUrlResolveRedirect_path (small : c ≤ 32) (inLocation : c ∉ location) (inBase : c ∉ base.path)
    (resolves : httpUrlResolveRedirect location base = some next) : c ∉ next.path := by
  have slash : c ≠ 0x2f := by
    rintro rfl
    exact absurd small (by decide)
  rcases httpUrlResolveRedirect_cases resolves with ⟨-, _, is⟩ | ⟨-, rfl⟩ | ⟨-, combined, built, relative⟩
  · exact (httpUrlParse_visible is).2.1.not_mem small
  · exact inBase
  have absent : c ∉ combined := by
    intro isIn
    rcases httpUrlCombine_mem relative.joins isIn with bad | bad
    · exact inLocation bad
    · exact inBase bad
  have cut : c ∉ combined.takeWhile (· ≠ 0x23) := fun isIn => absent ((takeWhile_sublist _).subset isIn)
  have front : c ∉ built := by
    refine httpUrlSegments_mem slash (fun part isIn among => cut ?_) not_mem_nil relative.folds
    exact (takeWhile_sublist _).subset ((mem_splitOn isIn).1 among)
  have back : c ∉ (combined.takeWhile (· ≠ 0x23)).dropWhile (· ≠ 0x3f) :=
    fun isIn => cut ((dropWhile_suffix _).subset isIn)
  rw [relative.path, mem_append, not_or]
  refine ⟨?_, back⟩
  split
  · rw [mem_append, mem_singleton]
    tauto
  · exact front

end Path

end Xylem.Http
