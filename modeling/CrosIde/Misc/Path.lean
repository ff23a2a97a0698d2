import Mathlib.Data.List.Infix
import Mathlib.Data.List.Basic

/-!
# `path.posix`

The functions of Node's `path` module (`lib/path.js`, not in the sources) that `findChroot`,
`findGitDir` and `Packages.fromFilepath` call, on POSIX: `isAbsolute`, `dirname`, `normalize`,
`join`, `resolve` and `relative`.

`dirname` follows the loop of `lib/path.js` over the characters: from the last to the second,
it skips the trailing slashes and then the last segment, and keeps what stands before the slash
it stops at; `/` or `.` when there is none, and `//` when that slash is the second character
of a path that starts with `/`. `normalizeString`, on which the others rest, is rendered at the
level of segments: empty and `.` segments are dropped, and a `..` cancels the segment before it
or, with none, is kept only in a relative path; the character loop of `lib/path.js` computes the
same. A path is a string; a normalized one is `absPath` of its segments.

`dirname` moves up: its only fixed points are `.` and `/` (`dirname_ne_self`), and every other
step brings the `height` of the path down (`height_dirname_lt`), so a walk up the `dirname`
chain ends within `length + 1` steps. On a normalized path `dirname` drops the last segment
(`dirname_absPath_concat`, `dirname_joinSegments_concat`), and `join` appends segments
(`join_absPath`).
-/

namespace CrosIde.Path

/-- `path.isAbsolute(path)`. -/
def isAbsolute (path : String) : Bool := path.toList.head? = some '/'

/-- `path.dirname(path)`: `r` is what is left of the characters after the first, reversed, once
    the trailing slashes and the last segment are skipped; it starts with the slash at `end`, so
    `end` is its length. -/
def dirname (path : String) : String :=
  match path.toList with
  | [] => "."
  | c :: cs =>
    let r := (cs.reverse.dropWhile (· = '/')).dropWhile (· ≠ '/')
    if r = [] then (if c = '/' then "/" else ".")
    else if c = '/' ∧ r.length = 1 then "//"
    else ⟨c :: cs.take (r.length - 1)⟩

example : dirname "/foo/bar/baz/asdf/quux" = "/foo/bar/baz/asdf" ∧ dirname "a//b" = "a/" ∧
    dirname "//a" = "//" ∧ dirname "/a/b/" = "/a" ∧ dirname "a" = "." ∧ dirname "" = "." := by
  decide

/-- The segments of `path` between its slashes, empty ones included. -/
def segments (path : String) : List String := (path.toList.splitOn '/').map String.mk

/-- One segment of `normalizeString`, on the segments kept so far, the last first. -/
def normalizeStep (allowAboveRoot : Bool) (acc : List String) (s : String) : List String :=
  if s = "" ∨ s = "." then acc
  else if s = ".." then
    match acc with
    | t :: rest => if t = ".." then (if allowAboveRoot then ".." :: acc else acc) else rest
    | [] => if allowAboveRoot then [".."] else []
  else s :: acc

/-- `normalizeString(path, allowAboveRoot)`, on the segments of `path`. -/
def normalizeSegments (allowAboveRoot : Bool) (segs : List String) : List String :=
  (segs.foldl (normalizeStep allowAboveRoot) []).reverse

/-- The characters of the segments `segs` joined with `/`. -/
def joinChars : List String → List Char
  | [] => []
  | s :: rest => s.toList ++ rest.flatMap ('/' :: ·.toList)

/-- The segments `segs` joined with `/`: a relative path, `""` for none. -/
def joinSegments (segs : List String) : String := ⟨joinChars segs⟩

/-- The absolute path of the segments `segs`: `/` for none. -/
def absPath (segs : List String) : String := ⟨'/' :: joinChars segs⟩

/-- `path.normalize(path)`. -/
def normalize (path : String) : String :=
  if path = "" then "." else
  let res := joinSegments (normalizeSegments (!isAbsolute path) (segments path))
  let trailing := path.toList.getLast? = some '/'
  if res = "" then (if isAbsolute path then "/" else if trailing then "./" else ".")
  else (if isAbsolute path then "/" else "") ++ res ++ (if trailing then "/" else "")

/-- `path.join(a, b)`: those of `a` and `b` that are not empty, joined with `/` and
    normalized. -/
def join (a b : String) : String :=
  if a = "" then (if b = "" then "." else normalize b)
  else if b = "" then normalize a else normalize (a ++ "/" ++ b)

/-- `path.resolve(path)` from the working directory whose segments are `cwd`: the segments of the
    absolute normalized path. -/
def resolve (cwd : List String) (path : String) : List String :=
  normalizeSegments false (if isAbsolute path then segments path else cwd ++ segments path)

/-- The number of segments `f` and `t` share from the root. -/
def commonLength : List String → List String → Nat
  | a :: f, b :: t => if a = b then commonLength f t + 1 else 0
  | _, _ => 0

/-- `path.relative(from, to)`: a `..` for each segment of `from` past those it shares with `to`,
    then the segments of `to` past them. -/
def relative (cwd : List String) (fromPath toPath : String) : String :=
  let f := resolve cwd fromPath
  let t := resolve cwd toPath
  joinSegments (List.replicate (f.length - commonLength f t) ".." ++ t.drop (commonLength f t))

/-- A segment of a normalized path: not empty, not `.` or `..`, and without `/`. -/
def Segment (s : String) : Prop := s ≠ "" ∧ s ≠ "." ∧ s ≠ ".." ∧ '/' ∉ s.toList

instance : DecidablePred Segment := fun _ => inferInstanceAs (Decidable (_ ∧ _ ∧ _ ∧ _))

/-- The segments of a normalized path with no `.` or `..`, as `fs.realpath` returns it. -/
structure Segments where
  segs : List String
  segment : ∀ s ∈ segs, Segment s

/-! ## `dirname` moves up -/

/-- How far `path` is from a fixed point of `dirname`. -/
def height (path : String) : Nat := if path = "." ∨ path = "/" then 0 else path.length + 1

theorem height_le (path : String) : height path ≤ path.length + 1 := by
  unfold height; split <;> omega

/-- Skipping trailing slashes and then a segment leaves fewer characters, if any. -/
theorem length_dropWhile_segment_lt {l : List Char}
    (h : (l.dropWhile (· = '/')).dropWhile (· ≠ '/') ≠ []) :
    ((l.dropWhile (· = '/')).dropWhile (· ≠ '/')).length < l.length := by
  obtain ⟨x, m, hm⟩ : ∃ x m, l.dropWhile (· = '/') = x :: m := by
    cases hm : l.dropWhile (· = '/') with
    | nil => rw [hm] at h; exact absurd rfl h
    | cons x m => exact ⟨x, m, rfl⟩
  have hx : x ≠ '/' := by
    have := List.head_dropWhile_not (· = '/') l (by rw [hm]; exact List.cons_ne_nil x m)
    simp only [hm, List.head_cons, decide_eq_false_iff_not] at this
    exact this
  have hle := (List.dropWhile_sublist (p := fun c => decide (c = '/')) (l := l)).length_le
  rw [hm, List.dropWhile_cons_of_pos (by simpa using hx)] at *
  have := (List.dropWhile_sublist (p := fun c => decide (c ≠ '/')) (l := m)).length_le
  simp only [List.length_cons] at hle
  omega

/-- `dirname` returns a fixed point or a shorter path. -/
theorem dirname_cases (path : String) :
    dirname path = "." ∨ dirname path = "/" ∨ (dirname path).length < path.length := by
  rcases path with ⟨_ | ⟨c, cs⟩⟩
  · exact .inl rfl
  · simp only [dirname, String.toList]
    split
    · split
      · exact .inr (.inl rfl)
      · exact .inl rfl
    · next hr =>
      have := length_dropWhile_segment_lt hr
      simp only [List.length_reverse] at this
      split
      · next h => right; right; show 2 < cs.length + 1; have := h.2; omega
      · right; right; simp only [String.length, List.length_cons, List.length_take]; omega

/-- The fixed points of `dirname` are `.` and `/`. -/
theorem dirname_ne_self {path : String} (h₁ : path ≠ ".") (h₂ : path ≠ "/") :
    dirname path ≠ path := by
  rcases dirname_cases path with h | h | h
  · rw [h]; exact Ne.symm h₁
  · rw [h]; exact Ne.symm h₂
  · exact fun e => by rw [e] at h; exact lt_irrefl _ h

theorem height_dirname_lt {path : String} (h : dirname path ≠ path) :
    height (dirname path) < height path := by
  have hp : ¬(path = "." ∨ path = "/") := by rintro (rfl | rfl) <;> exact h rfl
  have := height_le (dirname path)
  rw [show height path = path.length + 1 from if_neg hp]
  rcases dirname_cases path with e | e | e
  · rw [e]; simp [height]
  · rw [e]; simp [height]
  · omega

/-- `dirname` keeps a path relative or absolute. -/
theorem isAbsolute_dirname (path : String) : isAbsolute (dirname path) = isAbsolute path := by
  rcases path with ⟨_ | ⟨c, cs⟩⟩
  · rfl
  · simp only [dirname, String.toList]
    split
    · split <;> simp_all [isAbsolute, String.toList]
    · split
      · next h => simp [isAbsolute, String.toList, h.1]
      · simp [isAbsolute, String.toList]

/-! ## `dirname` on normalized paths -/

/-- The `dirname` of a single segment after its first character. -/
theorem dirname_cons_of_slash_free (c : Char) {s : List Char} (hs : '/' ∉ s) :
    dirname ⟨c :: s⟩ = if c = '/' then "/" else "." := by
  have hr : (s.reverse.dropWhile (· = '/')).dropWhile (· ≠ '/') = [] :=
    List.dropWhile_eq_nil_iff.2 fun x hx => by
      have := List.mem_reverse.1 ((List.dropWhile_sublist _).subset hx)
      simpa using fun e : x = '/' => hs (e ▸ this)
  simp only [dirname, String.toList, hr, if_true]

/-- The `dirname` of a path whose last segment `s` follows the slash after `c :: u`. -/
theorem dirname_cons_append (c : Char) (u : List Char) {s : List Char} (hs : s ≠ [])
    (hs' : '/' ∉ s) :
    dirname ⟨c :: (u ++ '/' :: s)⟩ = if c = '/' ∧ u = [] then "//" else ⟨c :: u⟩ := by
  obtain ⟨x, t, hxt⟩ : ∃ x t, s.reverse = x :: t :=
    List.exists_cons_of_ne_nil (List.reverse_ne_nil_iff.2 hs)
  have hmem : ∀ a ∈ x :: t, a ≠ '/' := fun a ha e => hs' (List.mem_reverse.1 (hxt ▸ e ▸ ha))
  have hrev : (u ++ '/' :: s).reverse = x :: (t ++ '/' :: u.reverse) := by
    rw [List.reverse_append, List.reverse_cons, hxt]; simp
  have hr : ((u ++ '/' :: s).reverse.dropWhile (· = '/')).dropWhile (· ≠ '/') =
      '/' :: u.reverse := by
    rw [hrev, List.dropWhile_cons_of_neg (by simpa using hmem x (List.mem_cons_self _ _)),
      List.dropWhile_cons_of_pos (by simpa using hmem x (List.mem_cons_self _ _)),
      List.dropWhile_append_of_pos fun a ha => by simpa using hmem a (List.mem_cons_of_mem _ ha),
      List.dropWhile_cons_of_neg (by simp)]
  simp only [dirname, String.toList, hr, List.length_cons, List.length_reverse,
    Nat.add_sub_cancel, List.take_left, reduceCtorEq, if_false]
  simp

theorem joinChars_cons {t : List String} (ht : t ≠ []) (s : String) :
    joinChars (s :: t) = s.toList ++ '/' :: joinChars t := by
  obtain ⟨t₀, t', rfl⟩ := List.exists_cons_of_ne_nil ht
  simp [joinChars]

theorem joinChars_concat {d : List String} (hd : d ≠ []) (s : String) :
    joinChars (d ++ [s]) = joinChars d ++ '/' :: s.toList := by
  obtain ⟨d₀, d', rfl⟩ := List.exists_cons_of_ne_nil hd
  simp [joinChars]

theorem toList_ne_nil {s : String} (h : Segment s) : s.toList ≠ [] :=
  fun e => h.1 (String.ext e)

/-- The characters of segments start with those of the first. -/
theorem joinChars_eq_cons {d : List String} (hd : d ≠ []) (h : ∀ s ∈ d, Segment s) :
    ∃ c u, joinChars d = c :: u ∧ c ≠ '/' := by
  obtain ⟨d₀, d', rfl⟩ := List.exists_cons_of_ne_nil hd
  have h₀ := h d₀ (List.mem_cons_self _ _)
  obtain ⟨c, u, hcu⟩ := List.exists_cons_of_ne_nil (toList_ne_nil h₀)
  refine ⟨c, u ++ d'.flatMap ('/' :: ·.toList), by rw [joinChars, hcu]; rfl, fun e => ?_⟩
  exact h₀.2.2.2 (by rw [hcu, e]; exact List.mem_cons_self _ _)

theorem absPath_ne_empty (d : List String) : absPath d ≠ "" :=
  fun e => List.cons_ne_nil _ _ (congrArg String.data e)

/-- On a normalized absolute path, `dirname` drops the last segment. -/
theorem dirname_absPath_concat {d : List String} {s : String} (hd : ∀ x ∈ d, Segment x)
    (hs : Segment s) : dirname (absPath (d ++ [s])) = absPath d := by
  by_cases hd₀ : d = []
  · subst hd₀
    simpa [absPath, joinChars] using dirname_cons_of_slash_free '/' hs.2.2.2
  · obtain ⟨c, u, hcu, -⟩ := joinChars_eq_cons hd₀ hd
    rw [absPath, joinChars_concat hd₀, hcu,
      dirname_cons_append '/' (c :: u) (toList_ne_nil hs) hs.2.2.2]
    simp [absPath, hcu]

/-- On a normalized relative path, `dirname` drops the last segment, `.` when it is the only
    one. -/
theorem dirname_joinSegments_concat {d : List String} {s : String} (hd : ∀ x ∈ d, Segment x)
    (hs : Segment s) :
    dirname (joinSegments (d ++ [s])) = if d = [] then "." else joinSegments d := by
  by_cases hd₀ : d = []
  · subst hd₀
    obtain ⟨c, u, hcu⟩ := List.exists_cons_of_ne_nil (toList_ne_nil hs)
    have hc : c ≠ '/' := fun e => hs.2.2.2 (by rw [hcu, e]; exact List.mem_cons_self _ _)
    have hu : '/' ∉ u := fun e => hs.2.2.2 (by rw [hcu]; exact List.mem_cons_of_mem _ e)
    have e : joinSegments ([] ++ [s]) = ⟨c :: u⟩ := by simp [joinSegments, joinChars, ← hcu]
    rw [e, dirname_cons_of_slash_free c hu]
    simp [hc]
  · obtain ⟨c, u, hcu, hc⟩ := joinChars_eq_cons hd₀ hd
    rw [joinSegments, joinChars_concat hd₀, hcu, List.cons_append,
      dirname_cons_append c u (toList_ne_nil hs) hs.2.2.2]
    simp [hc, hd₀, joinSegments, hcu]

/-! ## `normalize` and `join` on normalized paths -/

theorem splitOnP_go_append_cons (p : Char → Bool) (sep : Char) (hsep : p sep) (b : List Char) :
    ∀ (a acc : List Char),
      List.splitOnP.go p (a ++ sep :: b) acc = List.splitOnP.go p a acc ++ b.splitOnP p
  | [], acc => by simp [List.splitOnP.go, hsep, List.splitOnP]
  | x :: a, acc => by
    by_cases hx : p x
    · simp [List.splitOnP.go, hx, splitOnP_go_append_cons p sep hsep b a, List.splitOnP]
    · simp [List.splitOnP.go, hx, splitOnP_go_append_cons p sep hsep b a]

theorem segments_append (a b : String) : segments (a ++ "/" ++ b) = segments a ++ segments b := by
  have e : (a ++ "/" ++ b).toList = a.toList ++ '/' :: b.toList := by simp [String.toList]
  simp only [segments, e, List.splitOn, List.splitOnP,
    splitOnP_go_append_cons (· == '/') '/' rfl b.toList, List.map_append]

theorem segments_of_slash_free {s : String} (h : '/' ∉ s.toList) : segments s = [s] := by
  simp only [segments, List.splitOn]
  rw [List.splitOnP_eq_single _ _ fun x hx => by simpa using fun e : x = '/' => h (e ▸ hx)]
  rfl

theorem segments_joinSegments :
    ∀ {d : List String}, d ≠ [] → (∀ s ∈ d, '/' ∉ s.toList) → segments (joinSegments d) = d
  | [s], _, h => by
    simpa [joinSegments, joinChars] using segments_of_slash_free (h s (List.mem_singleton_self s))
  | s :: t₀ :: t, _, h => by
    have e : joinSegments (s :: t₀ :: t) = s ++ "/" ++ joinSegments (t₀ :: t) :=
      String.ext (by simp [joinSegments, joinChars_cons (List.cons_ne_nil t₀ t), String.toList])
    rw [e, segments_append, segments_of_slash_free (h s (List.mem_cons_self _ _)),
      segments_joinSegments (List.cons_ne_nil t₀ t) fun x hx => h x (List.mem_cons_of_mem _ hx)]
    rfl

theorem segments_absPath {d : List String} (hd : ∀ s ∈ d, Segment s) :
    segments (absPath d) = "" :: (if d = [] then [""] else d) := by
  have e : absPath d = "" ++ "/" ++ joinSegments d := String.ext (by simp [absPath, joinSegments])
  rw [e, segments_append]
  split
  · next h => subst h; rfl
  · next h => rw [segments_joinSegments h fun s hs => (hd s hs).2.2.2]; rfl

/-- The segments of a normalized absolute path between its slashes are empty or normal. -/
theorem plain_segments_absPath {d : List String} (hd : ∀ s ∈ d, Segment s) :
    ∀ s ∈ segments (absPath d), s = "" ∨ Segment s := by
  rw [segments_absPath hd]
  intro s hs
  rcases List.mem_cons.1 hs with rfl | hs
  · exact .inl rfl
  · split at hs
    · exact .inl (List.mem_singleton.1 hs)
    · exact .inr (hd s hs)

theorem filter_segments_absPath {d : List String} (hd : ∀ s ∈ d, Segment s) :
    (segments (absPath d)).filter (· ≠ "") = d := by
  rw [segments_absPath hd, List.filter_cons_of_neg (by simp)]
  split
  · next h => subst h; rfl
  · exact List.filter_eq_self.2 fun s hs => by simpa using (hd s hs).1

theorem foldl_normalizeStep (b : Bool) :
    ∀ (segs acc : List String), (∀ s ∈ segs, s = "" ∨ Segment s) →
      segs.foldl (normalizeStep b) acc = (segs.filter (· ≠ "")).reverse ++ acc
  | [], _, _ => rfl
  | s :: segs, acc, h => by
    rw [List.foldl_cons, foldl_normalizeStep b segs _ fun x hx => h x (List.mem_cons_of_mem _ hx)]
    rcases h s (List.mem_cons_self _ _) with rfl | hs
    · simp [normalizeStep]
    · simp [normalizeStep, hs.1, hs.2.1, hs.2.2.1]

theorem normalizeSegments_plain (b : Bool) {segs : List String}
    (h : ∀ s ∈ segs, s = "" ∨ Segment s) : normalizeSegments b segs = segs.filter (· ≠ "") := by
  simp [normalizeSegments, foldl_normalizeStep b segs [] h]

theorem joinSegments_eq_empty {d : List String} (hd : ∀ s ∈ d, Segment s) :
    joinSegments d = "" ↔ d = [] := by
  refine ⟨fun e => ?_, fun e => e ▸ rfl⟩
  by_contra hne
  obtain ⟨c, u, hcu, -⟩ := joinChars_eq_cons hne hd
  exact List.cons_ne_nil c u (hcu ▸ congrArg String.data e)

/-- `normalize` of an absolute path with no `.` or `..` segment and no trailing slash. -/
theorem normalize_of_plain {path : String} (habs : isAbsolute path)
    (hseg : ∀ s ∈ segments path, s = "" ∨ Segment s) (hlast : path.toList.getLast? ≠ some '/') :
    normalize path = absPath ((segments path).filter (· ≠ "")) := by
  have hne : path ≠ "" := by rintro rfl; simp [isAbsolute] at habs
  have hF : ∀ s ∈ (segments path).filter (· ≠ ""), Segment s := fun s hs => by
    obtain ⟨hs, hne⟩ := List.mem_filter.1 hs
    exact (hseg s hs).resolve_left (by simpa using hne)
  simp only [normalize, hne, if_false, habs, Bool.not_true, normalizeSegments_plain false hseg,
    hlast, if_true, decide_False]
  split
  · next h => rw [(joinSegments_eq_empty hF).1 h]; rfl
  · simp only [String.append_empty]; rfl

/-- The last character of normalized segments is not a slash. -/
theorem getLast_joinChars_ne_slash {t : List String} (ht : t ≠ []) (h : ∀ s ∈ t, Segment s) :
    (joinChars t).getLast? ≠ some '/' := by
  obtain ⟨t', s, rfl⟩ := (List.eq_nil_or_concat t).resolve_left ht
  have hs := h s (by simp)
  obtain ⟨pre, hpre⟩ : ∃ pre, joinChars (t' ++ [s]) = pre ++ s.toList := by
    by_cases ht' : t' = []
    · exact ⟨[], by simp [ht', joinChars]⟩
    · exact ⟨joinChars t' ++ ['/'], by simp [joinChars_concat ht']⟩
  rw [List.concat_eq_append, hpre, List.getLast?_append_of_ne_nil _ (toList_ne_nil hs)]
  exact fun e => hs.2.2.2 (List.mem_of_getLast?_eq_some e)

/-- `join` of a normalized absolute path and a path whose segments are empty or normal, with
    no trailing slash: the normal segments appended. -/
theorem join_absPath_of_segments {d t : List String} {x : String} (hd : ∀ s ∈ d, Segment s)
    (hx : x ≠ "") (hplain : ∀ s ∈ segments x, s = "" ∨ Segment s)
    (hseg : (segments x).filter (· ≠ "") = t) (hlast : x.toList.getLast? ≠ some '/') :
    join (absPath d) x = absPath (d ++ t) := by
  rw [join, if_neg (absPath_ne_empty d), if_neg hx, normalize_of_plain (by simp [isAbsolute, absPath])
    ?_ ?_, segments_append, List.filter_append, filter_segments_absPath hd, hseg]
  · rw [segments_append]
    exact fun s hs => (List.mem_append.1 hs).elim (plain_segments_absPath hd s) (hplain s)
  · have e : (absPath d ++ "/" ++ x).toList = ('/' :: joinChars d ++ ['/']) ++ x.toList := by
      simp [String.toList, absPath]
    rw [e, List.getLast?_append_of_ne_nil _ (show x.toList ≠ [] from fun h => hx (String.ext h))]
    exact hlast

/-- `join` of a normalized absolute path and normalized segments: the segments appended. -/
theorem join_absPath {d t : List String} (hd : ∀ s ∈ d, Segment s) (ht : ∀ s ∈ t, Segment s)
    (htne : t ≠ []) : join (absPath d) (joinSegments t) = absPath (d ++ t) := by
  have hsegs := segments_joinSegments htne fun s hs => (ht s hs).2.2.2
  refine join_absPath_of_segments hd (fun e => htne ((joinSegments_eq_empty ht).1 e))
    (fun s hs => .inr (ht s (hsegs ▸ hs))) ?_ (getLast_joinChars_ne_slash htne ht)
  rw [hsegs]
  exact List.filter_eq_self.2 fun s hs => by simpa using (ht s hs).1

/-- `join` of a normalized absolute path and a segment: the segment appended. -/
theorem join_absPath_segment {d : List String} {s : String} (hd : ∀ x ∈ d, Segment x)
    (hs : Segment s) : join (absPath d) s = absPath (d ++ [s]) := by
  have e : joinSegments [s] = s := String.ext (by simp [joinSegments, joinChars])
  rw [← join_absPath hd (by simpa using hs) (List.cons_ne_nil s []), e]

/-- `join` of two normalized absolute paths: the segments appended. -/
theorem join_absPath_absPath {d t : List String} (hd : ∀ s ∈ d, Segment s)
    (ht : ∀ s ∈ t, Segment s) (htne : t ≠ []) : join (absPath d) (absPath t) = absPath (d ++ t) := by
  refine join_absPath_of_segments hd (absPath_ne_empty t) (plain_segments_absPath ht)
    (filter_segments_absPath ht) ?_
  have := getLast_joinChars_ne_slash htne ht
  obtain ⟨c, u, hcu, -⟩ := joinChars_eq_cons htne ht
  simpa [absPath, hcu, List.getLast?_cons] using this

/-! ## `resolve` and `relative` on normalized paths -/

theorem resolve_absPath (cwd : List String) {d : List String} (hd : ∀ s ∈ d, Segment s) :
    resolve cwd (absPath d) = d := by
  rw [resolve, if_pos (by simp [isAbsolute, absPath]),
    normalizeSegments_plain false (plain_segments_absPath hd), filter_segments_absPath hd]

theorem commonLength_append : ∀ (d rel : List String), commonLength d (d ++ rel) = d.length
  | [], rel => by cases rel <;> rfl
  | a :: d, rel => by simp [commonLength, commonLength_append d rel]

/-- `path.relative` from a normalized absolute path to one below it: the segments below. -/
theorem relative_absPath_append (cwd : List String) {d rel : List String}
    (hd : ∀ s ∈ d, Segment s) (hrel : ∀ s ∈ rel, Segment s) :
    relative cwd (absPath d) (absPath (d ++ rel)) = joinSegments rel := by
  have hdr : ∀ s ∈ d ++ rel, Segment s := fun s hs =>
    (List.mem_append.1 hs).elim (hd s) (hrel s)
  simp [relative, resolve_absPath cwd hd, resolve_absPath cwd hdr, commonLength_append]

/-- A normalized absolute path is neither `/` with segments nor `.`. -/
theorem absPath_ne_fixed {d : List String} (hd : ∀ s ∈ d, Segment s) (hne : d ≠ []) :
    absPath d ≠ "." ∧ absPath d ≠ "/" := by
  obtain ⟨c, u, hcu, -⟩ := joinChars_eq_cons hne hd
  constructor
  · intro e; have := congrArg String.data e; simp [absPath] at this
  · intro e; have := congrArg String.data e; simp [absPath, hcu] at this

theorem dirname_absPath {d : List String} (hd : ∀ s ∈ d, Segment s) :
    dirname (absPath d) = absPath d.dropLast := by
  rcases List.eq_nil_or_concat d with rfl | ⟨d', s, rfl⟩
  · rfl
  · simp only [List.concat_eq_append, List.dropLast_concat] at hd ⊢
    exact dirname_absPath_concat (fun x hx => hd x (by simp [hx])) (hd s (by simp))

theorem isAbsolute_joinSegments {d : List String} (hd : ∀ s ∈ d, Segment s) (hne : d ≠ []) :
    isAbsolute (joinSegments d) = false := by
  obtain ⟨c, u, hcu, hc⟩ := joinChars_eq_cons hne hd
  simp [isAbsolute, joinSegments, String.toList, hcu, hc]

theorem joinSegments_ne_dot {d : List String} (hd : ∀ s ∈ d, Segment s) (hne : d ≠ []) :
    joinSegments d ≠ "." := by
  intro e
  have h := segments_joinSegments hne fun s hs => (hd s hs).2.2.2
  rw [e, show segments "." = ["."] from rfl] at h
  exact (hd "." (by rw [← h]; exact List.mem_singleton_self _)).2.1 rfl

/-- Segments have at most one more than their characters. -/
theorem length_le_joinChars (d : List String) : d.length ≤ (joinChars d).length + 1 := by
  have : ∀ rest : List String, rest.length ≤ (rest.flatMap ('/' :: ·.toList)).length := by
    intro rest
    induction rest with
    | nil => rfl
    | cons x rest ih => simp only [List.flatMap_cons, List.length_append, List.length_cons]; omega
  cases d with
  | nil => simp [joinChars]
  | cons s rest => simp only [joinChars, List.length_append, List.length_cons]; have := this rest; omega

end CrosIde.Path
