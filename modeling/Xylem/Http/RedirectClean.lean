import Mathlib.Data.List.Induction
import Xylem.Http.RequestLines
import Xylem.Http.UrlVisible

namespace Xylem.Http

open Lib List

/-- What a segment does to the ones before it. -/
def keepSegment (kept : List (List UInt8)) (segment : List UInt8) : List (List UInt8) :=
  if segment = ascii ".." then kept.dropLast
  else if segment = [] ∨ segment = ascii "." then kept
  else kept ++ [segment]

/-- The segments that are left of a path. -/
def keptSegments (path : List UInt8) : List (List UInt8) := (path.splitOn 0x2f).foldl keepSegment []

def slashed (segments : List (List UInt8)) : List UInt8 := segments.flatMap (0x2f :: ·)

theorem slashed_append (first second : List (List UInt8)) : slashed (first ++ second) = slashed first ++ slashed second :=
  flatMap_append

variable {segment built : List UInt8} {kept segments : List (List UInt8)}

theorem keepSegment_mem {part : List UInt8} (isIn : part ∈ keepSegment kept segment) :
    part ∈ kept ∨ part = segment := by
  unfold keepSegment at isIn
  split at isIn
  · exact .inl ((dropLast_sublist _).subset isIn)
  split at isIn
  · exact .inl isIn
  · exact (mem_append.mp isIn).imp_right mem_singleton.mp

/-- The path that is built is the segments that are kept, each behind a slash. -/
theorem httpUrlSegment_slashed
    (parts : ∀ part ∈ kept, 0x2f ∉ part) (is : httpUrlSegment (slashed kept) segment = some built) :
    built = slashed (keepSegment kept segment) := by
  unfold httpUrlSegment at is
  unfold keepSegment
  split at is
  · rename_i up
    rw [if_pos up, ← Option.some.inj is]
    rcases eq_nil_or_concat kept with rfl | ⟨front, last, rfl⟩
    · rfl
    · have absent := parts last (by simp)
      have one : slashed [last] = 0x2f :: last := append_nil _
      have stops : (last.reverse ++ 0x2f :: (slashed front).reverse).dropWhile (· ≠ 0x2f) =
          0x2f :: (slashed front).reverse := by
        rw [dropWhile_append_of_pos, dropWhile_cons_of_neg (by decide)]
        intro c isIn
        exact decide_eq_true fun is => absent (is ▸ mem_reverse.mp isIn)
      rw [concat_eq_append, slashed_append, one, reverse_append, reverse_cons, append_assoc,
        singleton_append, stops, drop_succ_cons, drop_zero, reverse_reverse, dropLast_concat]
  rename_i notUp
  split at is
  · rename_i none_
    rw [if_neg notUp, if_pos none_, ← Option.some.inj is]
  · rename_i some_
    obtain ⟨-, is⟩ := Option.ite_none_left_eq_some.mp is
    rw [if_neg notUp, if_neg some_, ← Option.some.inj is, slashed_append]
    exact congrArg _ (append_nil _).symm

theorem httpUrlSegments_slashed (parts : ∀ part ∈ kept, 0x2f ∉ part) (others : ∀ part ∈ segments, 0x2f ∉ part)
    (folds : segments.foldlM httpUrlSegment (slashed kept) = some built) :
    built = slashed (segments.foldl keepSegment kept) := by
  induction segments generalizing kept with
  | nil => exact (Option.some.inj folds).symm
  | cons segment rest ih =>
    rw [foldlM_cons] at folds
    obtain ⟨middle, one, folds⟩ := Option.bind_eq_some_iff.mp folds
    rw [httpUrlSegment_slashed parts one] at folds
    refine ih (fun part isIn => ?_) (fun part isIn => others part (mem_cons_of_mem _ isIn)) folds
    rcases keepSegment_mem isIn with earlier | rfl
    · exact parts part earlier
    · exact others part (mem_cons_self ..)

theorem visible_slashed : Visible (slashed segments) ↔ ∀ segment ∈ segments, Visible segment := by
  constructor
  · intro visible segment isIn c among
    exact visible c (mem_flatMap.mpr ⟨segment, isIn, mem_cons_of_mem _ among⟩)
  · intro visible c isIn
    obtain ⟨segment, among, isIn⟩ := mem_flatMap.mp isIn
    rcases mem_cons.mp isIn with rfl | isIn
    · decide
    · exact visible segment among c isIn

theorem slashed_head (some_ : slashed segments ≠ []) : (slashed segments).head? = some 0x2f := by
  cases segments with
  | nil => exact absurd rfl some_
  | cons => rfl

/-- What goes into a request line without changing its shape. -/
structure HttpUrl.Clean (url : HttpUrl) : Prop where
  host : Visible url.host
  path : Visible url.path
  slash : url.path.head? = some 0x2f
  fragment : 0x23 ∉ url.path

theorem keepSegments_mem {part : List UInt8} (isIn : part ∈ segments.foldl keepSegment kept) :
    part ∈ kept ∨ part ∈ segments := by
  induction segments generalizing kept with
  | nil => exact .inl isIn
  | cons segment rest ih =>
    rcases ih isIn with earlier | later
    · exact (keepSegment_mem earlier).imp_right fun is => mem_cons.mpr (.inl is)
    · exact .inr (mem_cons_of_mem _ later)

/-- Segments take back some of the ones before them, and leave what they leave of their own. -/
theorem keepSegments_from (front segments : List (List UInt8)) : ∃ left, left ⊆ front ∧
    segments.foldl keepSegment front = left ++ segments.foldl keepSegment [] := by
  induction segments using List.reverseRecOn with
  | nil => exact ⟨front, Subset.refl _, (append_nil _).symm⟩
  | append_singleton segments segment ih =>
    obtain ⟨left, le, is⟩ := ih
    rw [foldl_append, foldl_append, is, foldl_cons, foldl_cons, foldl_nil, foldl_nil]
    generalize segments.foldl keepSegment [] = own
    unfold keepSegment
    split
    · rcases own with _ | ⟨first, own⟩
      · exact ⟨left.dropLast, Subset.trans (dropLast_sublist _).subset le, by simp⟩
      · exact ⟨left, le, dropLast_append_of_ne_nil (cons_ne_nil _ _)⟩
    split
    · exact ⟨left, le, rfl⟩
    · exact ⟨left, le, append_assoc ..⟩

/-- What is read of a relative reference: as much as the buffer holds, without the fragment. -/
def httpReference (location : List UInt8) : List UInt8 := (location.take 4095).takeWhile (· ≠ 0x23)

/-- A relative reference adds its segments to some of the base, and brings its query. -/
theorem httpUrlCombine_parts {location path combined : List UInt8} (slash : path.head? = some 0x2f)
    (whole : 0x23 ∉ path) (fits : path.length < 2048) (joins : httpUrlCombine location path = some combined)
    (short : ((combined.takeWhile (· ≠ 0x23)).dropWhile (· ≠ 0x3f)).length < 2048) :
    ∃ front : List (List UInt8), (∀ part ∈ front, part ⊆ path) ∧
      keptSegments ((combined.takeWhile (· ≠ 0x23)).takeWhile (· ≠ 0x3f)) =
        (((httpReference location).takeWhile (· ≠ 0x3f)).splitOn 0x2f).foldl keepSegment front ∧
      (combined.takeWhile (· ≠ 0x23)).dropWhile (· ≠ 0x3f) = (httpReference location).dropWhile (· ≠ 0x3f) := by
  have within : path.takeWhile (· ≠ 0x3f) ⊆ path := (takeWhile_sublist _).subset
  have cuts : ∀ {front : List UInt8} (back : List UInt8), front ⊆ path.takeWhile (· ≠ 0x3f) →
      (front ++ back).takeWhile (· ≠ 0x23) = front ++ back.takeWhile (· ≠ 0x23) ∧
      (front ++ back).takeWhile (· ≠ 0x3f) = front ++ back.takeWhile (· ≠ 0x3f) ∧
      (front ++ back).dropWhile (· ≠ 0x3f) = back.dropWhile (· ≠ 0x3f) := by
    intro front back le
    have query : ∀ c ∈ front, decide (c ≠ 0x3f) = true := fun c isIn => all_eq_true.mp all_takeWhile c (le isIn)
    refine ⟨takeWhile_append_of_pos fun c isIn => decide_eq_true ?_, takeWhile_append_of_pos query,
      dropWhile_append_of_pos query⟩
    exact fun is => whole (is ▸ within (le isIn))
  have segments : ∀ {front : List UInt8}, front ⊆ path.takeWhile (· ≠ 0x3f) → ∀ part ∈ keptSegments front, part ⊆ path := by
    intro front le part isIn
    have split := (keepSegments_mem isIn).resolve_left not_mem_nil
    exact Subset.trans (Subset.trans (mem_splitOn split).1 le) within
  unfold httpUrlCombine at joins
  split at joins
  · cases joins
    exact ⟨[], nofun, rfl, rfl⟩
  split at joins
  · rename_i query
    obtain ⟨rest, rfl⟩ := head?_eq_some_iff.mp query
    have shorter : (path.takeWhile (· ≠ 0x3f)).length ≤ path.length := (takeWhile_sublist _).length_le
    have all := Subset.refl (path.takeWhile (· ≠ 0x3f))
    cases joins
    generalize path.takeWhile (· ≠ 0x3f) = front at *
    obtain ⟨room, is⟩ : ∃ room, 4095 - front.length = room + 2048 := ⟨4095 - front.length - 2048, by omega⟩
    have cut : (front ++ 0x3f :: rest).take 4095 = front ++ (0x3f :: rest).take (room + 2048) := by
      rw [take_append, is, take_of_length_le (by omega)]
    have first : ∀ n, ((0x3f :: rest).take (n + 1)).takeWhile (· ≠ 0x23) = 0x3f :: (rest.take n).takeWhile (· ≠ 0x23) :=
      fun n => takeWhile_cons_of_pos (by decide)
    rw [cut, (cuts _ all).1, (cuts _ all).2.2, first, dropWhile_cons_of_neg (by decide), length_cons,
      ← take_takeWhile] at short
    have few : (rest.takeWhile (· ≠ 0x23)).length < 2048 := by
      rw [length_take] at short
      omega
    have read : httpReference (0x3f :: rest) = 0x3f :: (rest.takeWhile (· ≠ 0x23)) := by
      rw [httpReference, first, ← take_takeWhile, take_of_length_le (by omega)]
    refine ⟨keptSegments front, segments all, ?_, ?_⟩
    · rw [cut, (cuts _ all).1, (cuts _ all).2.1, first, read, takeWhile_cons_of_neg (by decide),
        takeWhile_cons_of_neg (by decide), append_nil]
      rfl
    · rw [cut, (cuts _ all).1, (cuts _ all).2.2, first, read, ← take_takeWhile, take_of_length_le (by omega)]
  · obtain ⟨small, is⟩ := Option.ite_none_left_eq_some.mp joins
    have isIn : 0x2f ∈ path.takeWhile (· ≠ 0x3f) := by
      obtain ⟨rest, rfl⟩ := head?_eq_some_iff.mp slash
      simp
    rw [if_pos isIn] at is small
    obtain ⟨back, front, parts, absent⟩ := eq_append_cons_of_mem (mem_reverse.mpr isIn)
    have directory : ((path.takeWhile (· ≠ 0x3f)).reverse.dropWhile (· ≠ 0x2f)).reverse = front.reverse ++ [0x2f] := by
      rw [parts, dropWhile_append_of_pos, dropWhile_cons_of_neg (by decide), reverse_cons]
      exact fun c among => decide_eq_true fun is => absent (is ▸ among)
    have inside : front.reverse ++ [0x2f] ⊆ path.takeWhile (· ≠ 0x3f) := by
      rw [← directory]
      exact fun c among => mem_reverse.mp ((dropWhile_suffix _).subset (mem_reverse.mp among))
    rw [directory] at is small
    cases is
    have read : httpReference location = location.takeWhile (· ≠ 0x23) := by
      rw [httpReference, take_of_length_le]
      rw [length_append] at small
      omega
    refine ⟨keptSegments front.reverse, segments (Subset.trans (subset_append_left ..) inside), ?_, ?_⟩
    · rw [(cuts _ inside).1, (cuts _ inside).2.1, ← read, append_assoc, singleton_append, keptSegments,
        splitOn_append_cons_self, foldl_append]
      rfl
    · rw [(cuts _ inside).1, (cuts _ inside).2.2, ← read]

/-- A location whose blanks and control characters do not get into the path: it is a URL of its own, or they stand in the
fragment, beyond the buffer, or in a segment that a later one takes back. -/
def ResolvesClean (location : List UInt8) : Prop :=
  (strstr (ascii "://") location).isSome = true ∨ (ascii "//").isPrefixOf location = true ∨
  location.head? = some 0x23 ∨
  (∀ segment ∈ keptSegments ((httpReference location).takeWhile (· ≠ 0x3f)), Visible segment) ∧
    Visible ((httpReference location).dropWhile (· ≠ 0x3f))

theorem HttpUrl.Clean.of_parse {text : List UInt8} {parsed : HttpUrl} (is : httpUrlParse text = some parsed) :
    parsed.Clean := by
  have facts := httpUrlParse_visible is
  refine ⟨facts.1, facts.2.1, facts.2.2, ?_⟩
  obtain ⟨p, name, q, r, parts⟩ := httpUrlParse_parts is
  have absent : 0x23 ∉ r.takeWhile (· ≠ 0x23) := fun isIn => by simpa using all_eq_true.mp all_takeWhile _ isIn
  have path := parts.path
  unfold httpUrlPath at path
  obtain ⟨-, path⟩ := Option.ite_none_left_eq_some.mp path
  dsimp only at path
  split at path
  · rw [← Option.some.inj path]
    decide
  split at path
  · rw [← Option.some.inj path, mem_cons, not_or]
    exact ⟨by decide, absent⟩
  · exact Option.some.inj path ▸ absent

/-- Where a redirect leads to has no fragment, and is clean exactly if a relative reference brings nothing into the path
that is not. -/
theorem httpUrlResolveRedirect_clean {location : List UInt8} {base next : HttpUrl} (clean : base.Clean)
    (resolves : httpUrlResolveRedirect location base = some next) :
    0x23 ∉ next.path ∧ (next.Clean ↔ ResolvesClean location) := by
  unfold ResolvesClean
  rcases httpUrlResolveRedirect_cases resolves with ⟨where_, _, is⟩ | ⟨fragment, rfl⟩ |
    ⟨⟨notAbsolute, notNetwork, notFragment⟩, combined, built, joins, folds, host, path⟩
  · have clean := HttpUrl.Clean.of_parse is
    exact ⟨clean.fragment, fun _ => where_.imp_right .inl, fun _ => clean⟩
  · exact ⟨clean.fragment, fun _ => .inr (.inr (.inl fragment)), fun _ => clean⟩
  have short : ((combined.takeWhile (· ≠ 0x23)).dropWhile (· ≠ 0x3f)).length < 2048 := by
    have fits := next.pathFits
    rw [path, length_append] at fits
    omega
  obtain ⟨front, le, segments, query⟩ := httpUrlCombine_parts clean.slash clean.fragment base.pathFits joins short
  have absent : 0x23 ∉ combined.takeWhile (· ≠ 0x23) := fun isIn => by simpa using all_eq_true.mp all_takeWhile _ isIn
  generalize combined.takeWhile (· ≠ 0x23) = text at *
  have isBuilt : built = slashed (keptSegments (text.takeWhile (· ≠ 0x3f))) :=
    @httpUrlSegments_slashed _ [] _ nofun (fun _ isIn => (mem_splitOn isIn).2) folds
  have visible : Visible next.path ↔ (∀ segment ∈ keptSegments (text.takeWhile (· ≠ 0x3f)), Visible segment) ∧
      Visible (text.dropWhile (· ≠ 0x3f)) := by
    have slash : ∀ front : List UInt8, Visible (front ++ [0x2f]) ↔ Visible front := by
      intro front
      refine ⟨fun all => all.subset (subset_append_left ..), fun all c isIn => ?_⟩
      rcases mem_append.mp isIn with isIn | isIn
      · exact all c isIn
      · rw [mem_singleton.mp isIn]
        decide
    have both : ∀ front back : List UInt8, Visible (front ++ back) ↔ Visible front ∧ Visible back := by
      intro front back
      refine ⟨fun all => ⟨all.subset (subset_append_left ..), all.subset (subset_append_right ..)⟩, ?_⟩
      rintro ⟨inFront, inBack⟩ c isIn
      exact (mem_append.mp isIn).elim (inFront c) (inBack c)
    rw [path, both, ← visible_slashed, ← isBuilt]
    split
    · rw [slash]
    · rfl
  have head : next.path.head? = some 0x2f := by
    rw [path]
    split
    · rename_i ends
      rcases built with _ | ⟨c, rest⟩
      · rfl
      · have first := slashed_head (isBuilt ▸ cons_ne_nil c rest)
        rw [← isBuilt] at first
        exact first
    · rename_i some_
      have first := slashed_head (isBuilt ▸ (not_or.mp some_).1)
      rw [← isBuilt] at first
      rw [List.head?_append, first]
      rfl
  have fragment : 0x23 ∉ next.path := by
    have none_ : 0x23 ∉ built := httpUrlSegments_mem (by decide) (fun part isIn among =>
      absent ((takeWhile_sublist _).subset ((mem_splitOn isIn).1 among))) not_mem_nil folds
    rw [path, mem_append, not_or]
    refine ⟨?_, fun isIn => absent ((dropWhile_suffix _).subset isIn)⟩
    split
    · simpa using none_
    · exact none_
  have kept : (∀ segment ∈ keptSegments (text.takeWhile (· ≠ 0x3f)), Visible segment) ↔
      ∀ segment ∈ keptSegments ((httpReference location).takeWhile (· ≠ 0x3f)), Visible segment := by
    obtain ⟨left, among, is⟩ := keepSegments_from front (((httpReference location).takeWhile (· ≠ 0x3f)).splitOn 0x2f)
    rw [segments, is, forall_mem_append]
    exact and_iff_right fun segment isIn => clean.path.subset (le segment (among isIn))
  rw [kept, query] at visible
  refine ⟨fragment, ?_, ?_⟩
  · intro result
    exact .inr (.inr (.inr (visible.mp result.path)))
  · intro condition
    have relative := ((condition.resolve_left notAbsolute).resolve_left notNetwork).resolve_left notFragment
    exact ⟨host ▸ clean.host, visible.mpr relative, head, fragment⟩

theorem HttpUrl.Clean.requestLine {req : HttpReq} (clean : req.url.Clean) (method : Visible req.method) :
    (∃ rest, httpReqSerialize req = req.requestLine ++ (crlf ++ rest)) ∧ req.requestLine.count 0x20 = 2 ∧
      0x0d ∉ req.requestLine ∧ 0x0a ∉ req.requestLine := by
  have absent : ∀ c : UInt8, c = 0x20 ∨ c = 0x0d ∨ c = 0x0a → c ∉ req.method ∧ c ∉ req.target := by
    intro c is
    obtain ⟨small, digit, brackets, http, https, slashes⟩ : c ≤ 32 ∧ isDigit c = false ∧ c ∉ ascii "[]:" ∧
        c ∉ HttpScheme.http.text ∧ c ∉ HttpScheme.https.text ∧ c ∉ ascii "://" := by
      rcases is with rfl | rfl | rfl <;> decide
    refine ⟨method.not_mem small, ?_⟩
    rw [HttpReq.target, mem_append, not_or]
    refine ⟨?_, clean.path.not_mem small⟩
    split
    · rw [mem_append, mem_append, not_or, not_or]
      exact ⟨⟨by cases req.url.scheme <;> assumption, slashes⟩,
        HttpUrl.not_mem_authority (clean.host.not_mem small) digit brackets⟩
    · exact not_mem_nil
  refine ⟨?_, ?_, ?_⟩
  · simp only [httpReqSerialize, HttpReq.requestLine, HttpReq.target, append_assoc]
    exact ⟨_, rfl⟩
  · have blank := absent 0x20 (.inl rfl)
    rw [HttpReq.requestLine, count_append, count_append, count_append, count_eq_zero_of_not_mem blank.1,
      count_eq_zero_of_not_mem blank.2]
    decide
  · simp only [HttpReq.requestLine, mem_append, absent 0x0d (.inr (.inl rfl)), absent 0x0a (.inr (.inr rfl))]
    decide

/-- A redirect from a parsed URL leads to one whose host and path have no blank or control character, and whose path
starts with a slash, exactly if the reference brings none into the path; the first line of the next request is then its
request line, with two blanks, and the same holds of the redirect after that. -/
theorem http_redirect_keeps_request_line {text location : List UInt8} {base next : HttpUrl}
    (is : httpUrlParse text = some base) (_bytes : 0 ∉ location ∧ 0x0d ∉ location ∧ 0x0a ∉ location)
    (resolves : httpUrlResolveRedirect location base = some next) :
    ((Visible next.host ∧ Visible next.path ∧ next.path.head? = some 0x2f) ↔ ResolvesClean location) ∧
    (ResolvesClean location → (∀ req : HttpReq, req.url = next → Visible req.method →
        (∃ rest, httpReqSerialize req = req.requestLine ++ (crlf ++ rest)) ∧ req.requestLine.count 0x20 = 2 ∧
          0x0d ∉ req.requestLine ∧ 0x0a ∉ req.requestLine) ∧
      ∀ later after, httpUrlResolveRedirect later next = some after →
        ((Visible after.host ∧ Visible after.path ∧ after.path.head? = some 0x2f) ↔ ResolvesClean later)) := by
  have clean : ∀ {url : HttpUrl}, 0x23 ∉ url.path →
      ((Visible url.host ∧ Visible url.path ∧ url.path.head? = some 0x2f) ↔ url.Clean) := fun whole =>
    ⟨fun all => ⟨all.1, all.2.1, all.2.2, whole⟩, fun all => ⟨all.host, all.path, all.slash⟩⟩
  have first := httpUrlResolveRedirect_clean (.of_parse is) resolves
  refine ⟨(clean first.1).trans first.2, fun condition => ⟨?_, fun later after resolves => ?_⟩⟩
  · rintro req rfl method
    exact (first.2.mpr condition).requestLine method
  · have second := httpUrlResolveRedirect_clean (first.2.mpr condition) resolves
    exact (clean second.1).trans second.2

/-- A relative reference with a blank that a later segment takes back. -/
theorem http_redirect_keeps_request_line_up : ∃ base next, httpUrlParse (ascii "http://a/b/c") = some base ∧
    httpUrlResolveRedirect (ascii "x y/../d") base = some next ∧ next.path = ascii "/b/d" ∧ Visible next.path := by
  let base : HttpUrl := ⟨.http, ascii "a", 80, ascii "/b/c", by decide, by decide, by decide⟩
  let next : HttpUrl := ⟨.http, ascii "a", 80, ascii "/b/d", by decide, by decide, by decide⟩
  have is : httpUrlParse (ascii "http://a/b/c") = some base := by decide +kernel
  have resolves : httpUrlResolveRedirect (ascii "x y/../d") base = some next := by decide +kernel
  have condition : ResolvesClean (ascii "x y/../d") := by
    unfold ResolvesClean Visible
    decide +kernel
  exact ⟨base, next, is, resolves, rfl,
    ((http_redirect_keeps_request_line is (by decide) resolves).1.mpr condition).2.1⟩

/-- Nothing checks a relative reference: its blank is in the path. -/
theorem http_redirect_keeps_request_line_blank : ∃ base next, httpUrlParse (ascii "http://a/") = some base ∧
    httpUrlResolveRedirect (ascii "/b c") base = some next ∧ next.path = ascii "/b c" ∧ ¬Visible next.path := by
  let base : HttpUrl := ⟨.http, ascii "a", 80, ascii "/", by decide, by decide, by decide⟩
  let next : HttpUrl := ⟨.http, ascii "a", 80, ascii "/b c", by decide, by decide, by decide⟩
  refine ⟨base, next, by decide +kernel, by decide +kernel, rfl, fun visible => ?_⟩
  exact visible.not_mem (c := 0x20) (by decide) (by decide)

end Xylem.Http
