import CrosIde.RegExp.Matcher

/-!
# OWNERS links

Rendering of `OwnersLinkProvider.provideDocumentLinks`
(`src/ide_tooling/cros-ide/src/features/owners_links.ts:78-127`): the links of an OWNERS
file are the matches of `PATTERN`, a global multiline pattern, each with the range of the
keyword and the path, and the path with its leading slashes collapsed to one. The pattern and
the slash pattern are written in the fragment of `CrosIde.RegExp`, so that the links are what
ECMAScript's backtracking makes of the two literals.

The link's `documentUri` is the same for every link and is left out, and the range is given as
offsets into the text: `document.positionAt`, which turns them into lines and columns, is
VS Code's. `OwnersLink.resolve`, which joins the path to a directory, is not modelled.
-/

namespace CrosIde.OwnersLinks

open RegExp

/-- `[^\S\r\n]`: white space other than `\r` and `\n`. -/
def blank (c : Char) : Bool := isSpace c && c != '\r' && c != '\n'

/-- `[^\r\n#]`. -/
def notNewlineOrHash (c : Char) : Bool := c != '\r' && c != '\n' && c != '#'

/-- `[^\s:]`. -/
def pathChar (c : Char) : Bool := !isSpace c && c != ':'

/-- `.`: anything but a line terminator. -/
def notLineTerminator (c : Char) : Bool := !isLineTerminator c

/-- The named groups of `PATTERN`, numbered in the order of their opening parentheses. -/
def prefix1Group : Nat := 1
/-- The group `prefix2`. -/
def prefix2Group : Nat := 2
/-- The group `path`. -/
def pathGroup : Nat := 3
/-- The group `suffix`. -/
def suffixGroup : Nat := 4

/-- The keyword of a link:
    `(?:(?<prefix1>[^\S\r\n]*)include[^\S\r\n]+|(?<prefix2>[^\r\n#]*)file:)`. -/
def keyword : Regex :=
  .alt (.seq (.group prefix1Group (.star blank)) (.seq (.word "include".toList) (.plus blank)))
    (.seq (.group prefix2Group (.star notNewlineOrHash)) (.word "file:".toList))

/-- What ends a line after the path, the body of the group `suffix`: `[^\S\r\n]*(?:#.*|)`. -/
def trailer : Regex :=
  .seq (.star blank) (.alt (.seq (.char (· == '#')) (.star notLineTerminator)) .empty)

/-- `OwnersLinkProvider.PATTERN` (`owners_links.ts:91-92`), with the flags `gm`:
    `^(?:(?<prefix1>[^\S\r\n]*)include[^\S\r\n]+|(?<prefix2>[^\r\n#]*)file:)`
    `(?<path>[^\s:]+)(?<suffix>[^\S\r\n]*(?:#.*|))$`. -/
def pattern : Regex :=
  .seq (.lineStart true)
    (.seq keyword
      (.seq (.group pathGroup (.plus pathChar))
        (.seq (.group suffixGroup trailer) (.lineEnd true))))

/-- `/^\/+(?=\/)/` (`owners_links.ts:112-115`): the leading slashes but the last. -/
def leadingSlashes : Regex :=
  .seq (.lineStart false) (.seq (.plus (· == '/')) (.ahead (· == '/')))

/-- `OwnersLink` (`owners_links.ts:19-26`): the path as written in the file, and the range of
    the link as offsets into the text. -/
structure OwnersLink where
  relativeOrAbsolutePath : List Char
  linkStart : Nat
  linkEnd : Nat
deriving DecidableEq, Repr

/-- The text a group has captured. -/
def groupText (text : List Char) (g : Nat × Nat) : List Char := (text.drop g.1).take (g.2 - g.1)

/-- The body of the loop of `provideDocumentLinks` (`owners_links.ts:102-123`) for the match
    at `index` ending in `t`. The guard `match.index !== undefined && match.groups` always
    holds for a match of a pattern with named groups. `none` where JavaScript would throw: when
    neither `prefix1` nor `prefix2`, or not `suffix` or `path`, has captured. -/
def toLink (text : List Char) (index : Nat) (t : MatchState) : Option OwnersLink := do
  let pre ← (t.captures prefix1Group).or (t.captures prefix2Group)
  let suffix ← t.captures suffixGroup
  let path ← t.captures pathGroup
  pure ⟨leadingSlashes.replaceEmpty (groupText text path), index + (pre.2 - pre.1),
    t.endIndex - (suffix.2 - suffix.1)⟩

/-- `OwnersLinkProvider.provideDocumentLinks` (`owners_links.ts:94-127`) on the document's
    text; `none` if it throws. -/
def provideDocumentLinks (text : List Char) : Option (List OwnersLink) :=
  (pattern.matchAll text).mapM fun m => toLink text m.1 m.2

/-! ## How `PATTERN` reads a line -/

/-- What `keyword` accepts: the text `pre` before a link and its keyword `kw`, either blanks and
    `include` and blanks, or anything but a line break or `#` and `file:`. -/
def Keyword (pre kw : List Char) : Prop :=
  ((∀ c ∈ pre, blank c) ∧ ∃ b, b ≠ [] ∧ (∀ c ∈ b, blank c) ∧ kw = "include".toList ++ b) ∨
    ((∀ c ∈ pre, notNewlineOrHash c) ∧ kw = "file:".toList)

/-- What `trailer` accepts: blanks, then a comment or nothing. -/
def Trailer (suffix : List Char) : Prop :=
  ∃ b cm, suffix = b ++ cm ∧ (∀ c ∈ b, blank c) ∧
    (cm = [] ∨ ∃ cs, cm = '#' :: cs ∧ ∀ c ∈ cs, notLineTerminator c)

/-- A reading of a line: the text before the link, the keyword, the path, and what ends the
    line. -/
structure LineParse where
  pre : List Char
  kw : List Char
  path : List Char
  suffix : List Char

/-- The text a reading covers. -/
def LineParse.text (P : LineParse) : List Char := P.pre ++ P.kw ++ P.path ++ P.suffix

/-- A reading each part of which `PATTERN` accepts. -/
structure LineParse.Valid (P : LineParse) : Prop where
  keyword : Keyword P.pre P.kw
  path_ne_nil : P.path ≠ []
  pathChars : ∀ c ∈ P.path, pathChar c
  trailer : Trailer P.suffix

theorem matches_keyword {s t : MatchState} (hs : s.captures prefix1Group = none)
    (h : keyword.Matches s t) :
    ∃ pre kw, Keyword pre kw ∧ s.rest = pre ++ kw ++ t.rest ∧
      t.endIndex = s.endIndex + pre.length + kw.length ∧
      (t.captures prefix1Group).or (t.captures prefix2Group) =
        some (s.endIndex, s.endIndex + pre.length) ∧
      t.captures pathGroup = s.captures pathGroup ∧
      t.captures suffixGroup = s.captures suffixGroup := by
  simp only [keyword, Regex.matches_alt, Regex.matches_seq, Regex.matches_group,
    Regex.matches_star, starMatches_iff, Regex.matches_word, Regex.matches_plus] at h
  rcases h with ⟨_, ⟨_, ⟨pre, hpre, hr₁, rfl⟩, rfl⟩, _, ⟨hr₂, rfl⟩, b, hb, hbc, hr₃, rfl⟩ |
    ⟨_, ⟨_, ⟨pre, hpre, hr₁, rfl⟩, rfl⟩, hr₂, rfl⟩
  · rw [MatchState.capture_rest] at hr₂
    refine ⟨pre, "include".toList ++ b, .inl ⟨hpre, b, hb, hbc, rfl⟩,
      by rw [hr₁, hr₂, hr₃]; simp, by simp; omega, ?_, ?_, ?_⟩ <;>
    simp [prefix1Group, prefix2Group, pathGroup, suffixGroup]
  · rw [MatchState.capture_rest] at hr₂
    rw [prefix1Group] at hs
    refine ⟨pre, "file:".toList, .inr ⟨hpre, rfl⟩, by rw [hr₁, hr₂]; simp, by simp, ?_, ?_, ?_⟩ <;>
    simp [hs, prefix1Group, prefix2Group, pathGroup, suffixGroup]

theorem keyword_matches {s : MatchState} {pre kw r : List Char} (hk : Keyword pre kw)
    (hr : s.rest = pre ++ kw ++ r) : ∃ t, keyword.Matches s t ∧ t.rest = r := by
  rcases hk with ⟨hpre, b, hb, hbc, rfl⟩ | ⟨hpre, rfl⟩
  · have h₁ : (s.advance pre).rest = "include".toList ++ b ++ r :=
      MatchState.advance_rest (by rw [hr]; simp)
    have h₂ : (((s.advance pre).capture prefix1Group s.endIndex).advance "include".toList).rest =
        b ++ r :=
      MatchState.advance_rest (by rw [MatchState.capture_rest, h₁, List.append_assoc])
    have h₃ := MatchState.advance_rest h₂
    have m₁ : (Regex.group prefix1Group (.star blank)).Matches s
        ((s.advance pre).capture prefix1Group s.endIndex) :=
      ⟨_, starMatches_iff.2 ⟨pre, hpre, by rw [h₁, hr]; simp, rfl⟩, rfl⟩
    have m₂ := (Regex.matches_word "include".toList).2
      ⟨by rw [MatchState.capture_rest, h₁, h₂, List.append_assoc], rfl⟩
    exact ⟨_, .inl ⟨_, m₁, _, m₂, Regex.matches_plus.2 ⟨b, hb, hbc, by rw [h₂, h₃], rfl⟩⟩, h₃⟩
  · have h₁ : (s.advance pre).rest = "file:".toList ++ r :=
      MatchState.advance_rest (by rw [hr, List.append_assoc])
    have h₂ := MatchState.advance_rest (show
      ((s.advance pre).capture prefix2Group s.endIndex).rest = "file:".toList ++ r from h₁)
    have m₁ : (Regex.group prefix2Group (.star notNewlineOrHash)).Matches s
        ((s.advance pre).capture prefix2Group s.endIndex) :=
      ⟨_, starMatches_iff.2 ⟨pre, hpre, by rw [h₁, hr, List.append_assoc], rfl⟩, rfl⟩
    exact ⟨_, .inr ⟨_, m₁, (Regex.matches_word _).2 ⟨by rw [h₂]; exact h₁, rfl⟩⟩, h₂⟩

theorem matches_trailer {s t : MatchState} (h : trailer.Matches s t) :
    ∃ suffix, Trailer suffix ∧ s.rest = suffix ++ t.rest ∧
      t.endIndex = s.endIndex + suffix.length ∧ t.captures = s.captures := by
  simp only [trailer, Regex.matches_seq, Regex.matches_alt, Regex.matches_star, starMatches_iff,
    Regex.matches_char, Regex.matches_empty] at h
  rcases h with ⟨_, ⟨b, hb, hr₁, rfl⟩, ⟨_, ⟨c, hc, hr₂, rfl⟩, cs, hcs, hr₃, rfl⟩ | rfl⟩
  · obtain rfl : c = '#' := by simpa using hc
    exact ⟨b ++ '#' :: cs, ⟨b, _, rfl, hb, .inr ⟨cs, rfl, hcs⟩⟩, by rw [hr₁, hr₂, hr₃]; simp,
      by simp; omega, by simp⟩
  · exact ⟨b, ⟨b, [], by simp, hb, .inl rfl⟩, hr₁, by simp, by simp⟩

theorem trailer_matches {s : MatchState} {suffix r : List Char} (ht : Trailer suffix)
    (hr : s.rest = suffix ++ r) : ∃ t, trailer.Matches s t ∧ t.rest = r := by
  obtain ⟨b, cm, rfl, hb, rfl | ⟨cs, rfl, hcs⟩⟩ := ht
  · have h₁ : (s.advance b).rest = r := MatchState.advance_rest (by simpa using hr)
    exact ⟨s.advance b, ⟨_, starMatches_iff.2 ⟨b, hb, by rw [h₁, hr, List.append_nil], rfl⟩,
      .inr rfl⟩, h₁⟩
  · have h₁ : (s.advance b).rest = '#' :: cs ++ r :=
      MatchState.advance_rest (by rw [hr, List.append_assoc])
    have h₂ : ((s.advance b).advance ['#']).rest = cs ++ r :=
      MatchState.advance_rest (show _ = ['#'] ++ (cs ++ r) from h₁)
    have h₃ := MatchState.advance_rest h₂
    exact ⟨_, ⟨_, starMatches_iff.2 ⟨b, hb, by rw [h₁, hr, List.append_assoc], rfl⟩,
      .inl ⟨_, Regex.matches_char.2 ⟨'#', by simp, by rw [h₂]; exact h₁, rfl⟩,
        starMatches_iff.2 ⟨cs, hcs, by rw [h₂, h₃], rfl⟩⟩⟩, h₃⟩

/-- A match of `PATTERN` starts a line and ends one, reads the line as a valid `LineParse`,
    and its groups capture the parts of the reading. -/
theorem matches_pattern {s t : MatchState} (hs : s.captures prefix1Group = none)
    (h : pattern.Matches s t) :
    atLineStart true s ∧ endsLine true t.rest ∧ ∃ P : LineParse, P.Valid ∧
      s.rest = P.text ++ t.rest ∧ t.endIndex = s.endIndex + P.text.length ∧
      (t.captures prefix1Group).or (t.captures prefix2Group) =
        some (s.endIndex, s.endIndex + P.pre.length) ∧
      t.captures pathGroup = some (s.endIndex + P.pre.length + P.kw.length,
        s.endIndex + P.pre.length + P.kw.length + P.path.length) ∧
      t.captures suffixGroup =
        some (s.endIndex + P.pre.length + P.kw.length + P.path.length, t.endIndex) := by
  simp only [pattern, Regex.matches_seq, Regex.matches_lineStart, Regex.matches_group,
    Regex.matches_lineEnd, Regex.matches_plus] at h
  obtain ⟨_, ⟨hstart, rfl⟩, t₁, hkw, _, ⟨_, ⟨path, hpne, hpc, hr₂, rfl⟩, rfl⟩, _,
    ⟨t₃, hsuf, rfl⟩, hend, rfl⟩ := h
  obtain ⟨pre, kw, hk, hr₁, he₁, hc₁, hp₁, hs₁⟩ := matches_keyword hs hkw
  obtain ⟨suffix, htr, hr₃, he₃, hc₃⟩ := matches_trailer hsuf
  rw [MatchState.capture_rest] at hr₃
  refine ⟨hstart, hend, ⟨pre, kw, path, suffix⟩, ⟨hk, hpne, hpc, htr⟩,
    by rw [hr₁, hr₂, hr₃]; simp [LineParse.text], by simp [he₁, he₃, LineParse.text]; omega,
    ?_, ?_, ?_⟩ <;>
  simp [hc₃, ← hc₁, he₁, he₃, prefix1Group, prefix2Group, pathGroup, suffixGroup]

theorem pattern_matches {s : MatchState} {P : LineParse} {r : List Char} (hP : P.Valid)
    (hs : atLineStart true s) (hr : s.rest = P.text ++ r) (he : endsLine true r) :
    ∃ t, pattern.Matches s t := by
  obtain ⟨t₁, m₁, h₁⟩ := keyword_matches hP.keyword
    (show s.rest = P.pre ++ P.kw ++ (P.path ++ P.suffix ++ r) by simp [hr, LineParse.text])
  have h₂ : (t₁.advance P.path).rest = P.suffix ++ r :=
    MatchState.advance_rest (by rw [h₁, List.append_assoc])
  obtain ⟨t₃, m₃, h₃⟩ := trailer_matches hP.trailer
    (show ((t₁.advance P.path).capture pathGroup t₁.endIndex).rest = _ from h₂)
  exact ⟨_, s, ⟨hs, rfl⟩, t₁, m₁, _, ⟨_, Regex.matches_plus.2 ⟨P.path, hP.path_ne_nil,
    hP.pathChars, by rw [h₁, h₂, List.append_assoc], rfl⟩, rfl⟩, _, ⟨t₃, m₃, rfl⟩,
    by simpa [h₃] using he, rfl⟩

/-! ## The links of a text -/

/-- Whether `^`, in multiline mode, matches at index `i` of `text`. -/
def startsLine (text : List Char) (i : Nat) : Bool :=
  i == 0 || (text.take i).getLast?.any isLineTerminator

/-- The link the provider makes of the line at `i`, if `PATTERN` matches there. -/
def linkAt (text : List Char) (i : Nat) : Option OwnersLink :=
  (pattern.matchAt text i).bind (toLink text i)

/-- An attempt of `PATTERN` at `i` succeeds only where a line starts, on a valid reading of the
    line, and the loop body then makes the link of the keyword and the path, with the path's
    leading slashes collapsed. -/
theorem matchAt_pattern {text : List Char} {i : Nat} {t : MatchState}
    (h : pattern.matchAt text i = some t) :
    startsLine text i ∧ ∃ P : LineParse, P.Valid ∧ text.drop i = P.text ++ t.rest ∧
      endsLine true t.rest ∧ t.endIndex = i + P.text.length ∧
      toLink text i t = some ⟨leadingSlashes.replaceEmpty P.path, i + P.pre.length,
        i + P.pre.length + P.kw.length + P.path.length⟩ := by
  obtain ⟨t', hm, hk⟩ := Regex.m_sound pattern h
  cases hk
  obtain ⟨hs, he, P, hP, hr, hend, hpre, hpath, hsuf⟩ := matches_pattern rfl hm
  simp only [MatchState.init] at hr hend hpre hpath hsuf
  refine ⟨hs, P, hP, hr, he, hend, ?_⟩
  have hd : text.drop (i + P.pre.length + P.kw.length) = P.path ++ (P.suffix ++ t.rest) := by
    rw [Nat.add_assoc, ← List.drop_drop, hr, LineParse.text, List.append_assoc,
      List.append_assoc, List.append_assoc, ← List.append_assoc P.pre]
    exact List.drop_left' (List.length_append _ _)
  simp only [toLink, hpre, hpath, hsuf, groupText, hd, hend, Option.pure_def, Option.bind_eq_bind,
    Option.some_bind, Nat.add_sub_cancel_left, List.take_left' rfl, LineParse.text,
    List.length_append]
  congr 2
  omega

/-- The link of a line is the link of a valid reading of it. -/
theorem linkAt_spec {text : List Char} {i : Nat} {ℓ : OwnersLink} (h : linkAt text i = some ℓ) :
    startsLine text i ∧ ∃ (P : LineParse) (r : List Char), P.Valid ∧ text.drop i = P.text ++ r ∧
      endsLine true r ∧ ℓ = ⟨leadingSlashes.replaceEmpty P.path, i + P.pre.length,
        i + P.pre.length + P.kw.length + P.path.length⟩ := by
  obtain ⟨t, ht, hl⟩ := Option.bind_eq_some.1 h
  obtain ⟨hs, P, hP, hr, he, -, hk⟩ := matchAt_pattern ht
  exact ⟨hs, P, t.rest, hP, hr, he, Option.some.inj (hl.symm.trans hk)⟩

/-- A line has a link exactly when it starts a line and has a valid reading up to the end of
    the line. -/
theorem linkAt_isSome_iff {text : List Char} {i : Nat} :
    (linkAt text i).isSome ↔ startsLine text i ∧ ∃ (P : LineParse) (r : List Char), P.Valid ∧
      text.drop i = P.text ++ r ∧ endsLine true r := by
  constructor
  · intro h
    obtain ⟨ℓ, hℓ⟩ := Option.isSome_iff_exists.1 h
    obtain ⟨hs, P, r, hP, hr, he, -⟩ := linkAt_spec hℓ
    exact ⟨hs, P, r, hP, hr, he⟩
  · rintro ⟨hs, P, r, hP, hr, he⟩
    obtain ⟨t, ht⟩ := pattern_matches hP (s := .init text i) hs hr he
    obtain ⟨t', ht'⟩ := Option.isSome_iff_exists.1 (Regex.m_complete pattern ht rfl)
    obtain ⟨-, _, -, -, -, -, hk⟩ := matchAt_pattern ht'
    simp [linkAt, Regex.matchAt, ht', hk]

private theorem mapM_of_forall {α β : Type} {f : α → Option β} {Q : β → Prop} :
    ∀ {l : List α}, (∀ a ∈ l, ∃ b, f a = some b ∧ Q b) → ∃ bs, l.mapM f = some bs ∧ ∀ b ∈ bs, Q b
  | [], _ => ⟨[], rfl, by simp⟩
  | a :: l, h => by
    obtain ⟨b, hb, hq⟩ := h a (.head _)
    obtain ⟨bs, hbs, hqs⟩ := mapM_of_forall fun a ha => h a (.tail _ ha)
    exact ⟨b :: bs, by rw [List.mapM_cons, hb, hbs]; rfl, List.forall_mem_cons.2 ⟨hq, hqs⟩⟩

/-- `provideDocumentLinks` never throws, and each link it returns is the link of a line. -/
theorem provideDocumentLinks_sound (text : List Char) :
    ∃ links, provideDocumentLinks text = some links ∧ ∀ ℓ ∈ links, ∃ i, linkAt text i = some ℓ :=
  mapM_of_forall fun m hm => by
    have ht := Regex.mem_matchAll hm
    obtain ⟨-, _, -, -, -, -, hk⟩ := matchAt_pattern ht
    exact ⟨_, hk, m.1, by simp [linkAt, ht, hk]⟩

/-- Text whose line terminators are all `\n` or `\r`: no U+2028 or U+2029, which `^`, `$` and
    `.` take for line breaks but `[^\S\r\n]` and `[^\r\n#]` do not exclude. -/
def Plain (text : List Char) : Prop := ∀ c ∈ text, isLineTerminator c → c = '\n' ∨ c = '\r'

instance (text : List Char) : Decidable (Plain text) :=
  inferInstanceAs (Decidable (∀ c ∈ text, isLineTerminator c → c = '\n' ∨ c = '\r'))

theorem ne_newline_of_blank {c : Char} (h : blank c) : c ≠ '\n' ∧ c ≠ '\r' := by
  simp only [blank, Bool.and_eq_true, bne_iff_ne] at h; exact ⟨h.2, h.1.2⟩

theorem ne_newline_of_notNewlineOrHash {c : Char} (h : notNewlineOrHash c) :
    c ≠ '\n' ∧ c ≠ '\r' := by
  simp only [notNewlineOrHash, Bool.and_eq_true, bne_iff_ne] at h; exact ⟨h.1.2, h.1.1⟩

theorem ne_newline_of_pathChar {c : Char} (h : pathChar c) : c ≠ '\n' ∧ c ≠ '\r' := by
  constructor <;> rintro rfl <;> revert h <;> decide

theorem ne_newline_of_notLineTerminator {c : Char} (h : notLineTerminator c) :
    c ≠ '\n' ∧ c ≠ '\r' := by
  constructor <;> rintro rfl <;> revert h <;> decide

theorem Keyword.newline_free {pre kw : List Char} (hk : Keyword pre kw) :
    ∀ c ∈ pre ++ kw, c ≠ '\n' ∧ c ≠ '\r' := by
  have hinclude : ∀ c ∈ "include".toList, c ≠ '\n' ∧ c ≠ '\r' := by decide
  have hfile : ∀ c ∈ "file:".toList, c ≠ '\n' ∧ c ≠ '\r' := by decide
  rcases hk with ⟨hpre, b, -, hb, rfl⟩ | ⟨hpre, rfl⟩ <;> intro c hc <;>
    simp only [List.mem_append] at hc
  · rcases hc with hc | hc | hc
    · exact ne_newline_of_blank (hpre c hc)
    · exact hinclude c hc
    · exact ne_newline_of_blank (hb c hc)
  · rcases hc with hc | hc
    · exact ne_newline_of_notNewlineOrHash (hpre c hc)
    · exact hfile c hc

theorem Trailer.newline_free {suffix : List Char} (ht : Trailer suffix) :
    ∀ c ∈ suffix, c ≠ '\n' ∧ c ≠ '\r' := by
  obtain ⟨b, cm, rfl, hb, rfl | ⟨cs, rfl, hcs⟩⟩ := ht <;> intro c hc <;>
    simp only [List.mem_append, List.mem_cons, List.not_mem_nil, or_false] at hc
  · exact ne_newline_of_blank (hb c hc)
  · rcases hc with hc | rfl | hc
    · exact ne_newline_of_blank (hb c hc)
    · decide
    · exact ne_newline_of_notLineTerminator (hcs c hc)

theorem LineParse.Valid.newline_free {P : LineParse} (hP : P.Valid) :
    ∀ c ∈ P.text, c ≠ '\n' ∧ c ≠ '\r' := by
  intro c hc
  simp only [LineParse.text, List.mem_append] at hc
  rcases hc with ((hc | hc) | hc) | hc
  · exact hP.keyword.newline_free c (List.mem_append_left _ hc)
  · exact hP.keyword.newline_free c (List.mem_append_right _ hc)
  · exact ne_newline_of_pathChar (hP.pathChars c hc)
  · exact hP.trailer.newline_free c hc

/-- In plain text no line starts strictly inside the text of a valid reading. -/
theorem startsLine_inside {text : List Char} (h : Plain text) {j j' : Nat} {P : LineParse}
    {r : List Char} (hP : P.Valid) (hr : text.drop j = P.text ++ r) (h₁ : j < j')
    (h₂ : j' < j + P.text.length) : startsLine text j' = false := by
  have hlt : j' - 1 - j < P.text.length := by omega
  have hc : text[j + (j' - 1 - j)]? = some P.text[j' - 1 - j] := by
    rw [← List.getElem?_drop, hr, List.getElem?_append_left hlt, List.getElem?_eq_getElem hlt]
  rw [show j + (j' - 1 - j) = j' - 1 by omega] at hc
  have hnl := hP.newline_free _ (List.getElem_mem hlt)
  have hnot : isLineTerminator P.text[j' - 1 - j] = false := by
    cases hl : isLineTerminator P.text[j' - 1 - j]
    · rfl
    · rcases h _ (List.getElem?_mem hc) hl with hn | hn
      · exact absurd hn hnl.1
      · exact absurd hn hnl.2
  simp [startsLine, List.getLast?_take, show j' ≠ 0 by omega, hc, hnot]

/-- In plain text no line start lies inside a match of `PATTERN`, so `matchAll` yields the match
    of every line that has one. -/
theorem matchAll_pattern {text : List Char} (h : Plain text) :
    pattern.matchAll text = pattern.attempts text 0 := by
  refine Regex.matchAll_eq_attempts fun j t _ ht => ?_
  obtain ⟨-, P, hP, hr, -, hend, -⟩ := matchAt_pattern ht
  have hlen : 0 < P.text.length := by
    have := List.length_pos.2 hP.path_ne_nil
    simp only [LineParse.text, List.length_append]; omega
  refine ⟨by omega, fun j' h₁ h₂ => ?_⟩
  cases hm : pattern.matchAt text j' with
  | none => rfl
  | some t' =>
    have := (matchAt_pattern hm).1
    rw [startsLine_inside h hP hr h₁ (by omega)] at this
    cases this

/-- On plain text, the links are the links of the lines that have one, in the order of the
    lines. -/
theorem provideDocumentLinks_lines {text : List Char} (h : Plain text) :
    provideDocumentLinks text = some ((List.range (text.length + 1)).filterMap (linkAt text)) := by
  rw [provideDocumentLinks, matchAll_pattern h, Regex.attempts, Nat.sub_zero,
    ← List.range_eq_range']
  induction List.range (text.length + 1) with
  | nil => rfl
  | cons j l ih =>
    cases hm : pattern.matchAt text j with
    | none => simpa [hm, linkAt] using ih
    | some t =>
      obtain ⟨-, _, -, -, -, -, hk⟩ := matchAt_pattern hm
      simp only [List.filterMap_cons, hm, Option.map_some', List.mapM_cons, ih, linkAt,
        Option.some_bind, hk]
      rfl

example : provideDocumentLinks "include //tools/translation/TRANSLATION_OWNERS".toList =
    some [⟨"/tools/translation/TRANSLATION_OWNERS".toList, 0, 46⟩] := by
  decide

example : provideDocumentLinks
    "  file:/path1\nper-file foo.txt =   file:/path2\n  include   /path3  # test".toList =
    some [⟨"/path1".toList, 2, 13⟩, ⟨"/path2".toList, 35, 46⟩, ⟨"/path3".toList, 49, 65⟩] := by
  decide

example : provideDocumentLinks
    "file:project:/path\nfile:project:branch:/path\ninclude project:/path\n".toList =
    some [] := by
  decide

/-- Without `Plain`: `^` matches after U+2028, but the greedy `prefix2` runs over it to the last
    `file:`, so the first line loses its link. -/
example : provideDocumentLinks "file:a\u2028file:b".toList = some [⟨"b".toList, 7, 13⟩] := by
  decide

/-! ## Collapsing the leading slashes -/

/-- The greedy `\/*` of the slash pattern, followed by `(?=\/)`, on a run of `n` slashes: the
    longest attempt that leaves a slash ahead ends one slash before the run does. -/
theorem starM_slashes {k : MatchState → Option MatchState}
    (hk : ∀ t : MatchState, k t = if t.rest.head?.any (· == '/') then some t else none)
    (caps : Nat → Option (Nat × Nat)) {r : List Char} (hr : r.head? ≠ some '/') :
    ∀ (n e : Nat) (prev : Option Char),
      (starM (· == '/') k e prev caps (List.replicate n '/' ++ r)).map MatchState.endIndex =
        if n = 0 then none else some (e + n - 1)
  | 0, e, prev => by
    cases r with
    | nil => simp [starM, hk]
    | cons c cs =>
      have hc : (c == '/') = false := by simpa using hr
      simp [starM, hk, hc]
  | n + 1, e, prev => by
    have ih := starM_slashes hk caps hr n (e + 1) (some '/')
    have hk' := hk ⟨e, prev, '/' :: (List.replicate n '/' ++ r), caps⟩
    simp only [List.replicate_succ, List.cons_append, starM, beq_self_eq_true, if_true,
      List.append_eq]
    cases n with
    | zero =>
      have hnone : starM (· == '/') k (e + 1) (some '/') caps r = none := by simpa using ih
      simp only [List.replicate_zero, List.nil_append] at hk' ⊢
      rw [hnone, hk']
      simp
    | succ n =>
      obtain ⟨x, hx, hxe⟩ := Option.map_eq_some'.1 ih
      rw [hx]
      simp only [Option.or_some, Option.map_some', hxe]
      simp; omega

theorem matchAt_leadingSlashes_pos {input : List Char} {j : Nat} (hj : j ≠ 0) :
    leadingSlashes.matchAt input j = none := by
  simp [Regex.matchAt, leadingSlashes, Regex.m, atLineStart, MatchState.init, hj]

/-- At the start of `path`, the slash pattern matches when `path` starts with two slashes or
    more, and ends one slash before the run does. -/
theorem matchAt_leadingSlashes_zero (n : Nat) {r : List Char} (hr : r.head? ≠ some '/') :
    (leadingSlashes.matchAt (List.replicate n '/' ++ r) 0).map MatchState.endIndex =
      if n < 2 then none else some (n - 1) := by
  cases n with
  | zero =>
    cases r with
    | nil => rfl
    | cons c cs =>
      have hc : (c == '/') = false := by simpa using hr
      simp [Regex.matchAt, leadingSlashes, Regex.m, Regex.plus, atLineStart, MatchState.init, hc]
  | succ n =>
    have hk : ∀ t : MatchState, (Regex.ahead (· == '/')).m t some =
        if t.rest.head?.any (· == '/') then some t else none := fun _ => rfl
    have := starM_slashes hk (fun _ => none) hr n 1 (some '/')
    simp only [Regex.matchAt, leadingSlashes, Regex.m, Regex.plus, atLineStart, MatchState.init,
      List.replicate_succ, List.cons_append, List.drop_zero, beq_self_eq_true, Bool.true_or,
      if_true, MatchState.consume, List.tail_cons] at this ⊢
    rw [this]
    split <;> split <;> first | rfl | omega | (congr 1; omega)

/-- `path.replace(/^\/+(?=\/)/, '')` collapses the run of slashes that starts `path` to one
    slash. -/
theorem replaceEmpty_leadingSlashes (n : Nat) {r : List Char} (hr : r.head? ≠ some '/') :
    leadingSlashes.replaceEmpty (List.replicate n '/' ++ r) =
      List.replicate (min n 1) '/' ++ r := by
  have h0 := matchAt_leadingSlashes_zero n hr
  rw [Regex.replaceEmpty, Regex.exec_of_le (Nat.zero_le _),
    Regex.exec_eq_none fun j hj _ => matchAt_leadingSlashes_pos (by omega), Option.or_none]
  by_cases hn : n < 2
  · rw [show leadingSlashes.matchAt (List.replicate n '/' ++ r) 0 = none by simpa [hn] using h0]
    rcases n with _ | _ | n <;> first | rfl | omega
  · obtain ⟨t, ht, hte⟩ := Option.map_eq_some'.1 (show _ = some (n - 1) by simpa [hn] using h0)
    rw [ht]
    simp only [Option.map_some', List.take_zero, List.nil_append, hte, show min n 1 = 1 by omega]
    obtain ⟨m, rfl⟩ : ∃ m, n = m + 1 := ⟨n - 1, by omega⟩
    rw [Nat.add_sub_cancel, List.replicate_succ', List.append_assoc,
      List.drop_left' (List.length_replicate _ _)]
    rfl

/-- Every path is a run of slashes and a rest that does not start with one. -/
theorem exists_slashes : ∀ l : List Char, ∃ n r, l = List.replicate n '/' ++ r ∧ r.head? ≠ some '/'
  | [] => ⟨0, [], rfl, by simp⟩
  | c :: l => by
    by_cases hc : c = '/'
    · obtain ⟨n, r, rfl, hr⟩ := exists_slashes l
      exact ⟨n + 1, r, by simp [hc, List.replicate_succ], hr⟩
    · exact ⟨0, c :: l, rfl, by simpa using hc⟩

/-- The path of every link is not empty, has no white space and no colon, and does not start
    with two slashes. -/
theorem linkAt_path {text : List Char} {i : Nat} {ℓ : OwnersLink} (h : linkAt text i = some ℓ) :
    ℓ.relativeOrAbsolutePath ≠ [] ∧ (∀ c ∈ ℓ.relativeOrAbsolutePath, pathChar c) ∧
      ℓ.relativeOrAbsolutePath.take 2 ≠ ['/', '/'] := by
  obtain ⟨-, P, -, hP, -, -, rfl⟩ := linkAt_spec h
  obtain ⟨n, r, hpath, hr⟩ := exists_slashes P.path
  have hchars := hP.pathChars
  have hne := hP.path_ne_nil
  rw [hpath] at hchars hne ⊢
  rw [replaceEmpty_leadingSlashes n hr]
  rcases Nat.eq_zero_or_pos n with rfl | hn
  · refine ⟨by simpa using hne, by simpa using hchars, fun h2 => hr ?_⟩
    cases r with
    | nil => cases h2
    | cons c r => simp at h2 ⊢; exact h2.1
  · rw [show min n 1 = 1 by omega]
    refine ⟨by simp, fun c hc => hchars c ?_, fun h2 => hr ?_⟩
    · rcases List.mem_append.1 hc with hc | hc
      · exact List.mem_append_left _ (List.mem_replicate.2 ⟨by omega, (List.mem_replicate.1 hc).2⟩)
      · exact List.mem_append_right _ hc
    · cases r with
      | nil => cases h2
      | cons c r => cases h2; rfl

/-- The links of an OWNERS file. The loop of `provideDocumentLinks` never throws, and `matchAll`
    needs no more than `text.length + 1` matches. A line has a link exactly when it starts a
    line and reads, to the end of the line, as blanks, `include` and blanks, or as text with no
    `#` and `file:`, then the path, then blanks and an optional comment; the link spans the
    keyword and the path, and its path, with its leading slashes collapsed, is not empty, has no
    white space and no colon, and does not start with two slashes. Every link returned is the
    link of a line, and on text with no U+2028 or U+2029 the links are those of all the lines
    that have one, in order. -/
theorem provideDocumentLinks_spec (text : List Char) :
    (∀ fuel, text.length + 1 ≤ fuel → pattern.matchAllFrom text fuel 0 = pattern.matchAll text) ∧
    (∃ links, provideDocumentLinks text = some links ∧ ∀ ℓ ∈ links, ∃ i, linkAt text i = some ℓ) ∧
    (∀ i, (linkAt text i).isSome ↔ startsLine text i ∧ ∃ (P : LineParse) (r : List Char),
      P.Valid ∧ text.drop i = P.text ++ r ∧ endsLine true r) ∧
    (∀ i ℓ, linkAt text i = some ℓ →
      (∃ (P : LineParse) (r : List Char), P.Valid ∧ text.drop i = P.text ++ r ∧
        ℓ = ⟨leadingSlashes.replaceEmpty P.path, i + P.pre.length,
          i + P.pre.length + P.kw.length + P.path.length⟩) ∧
      ℓ.relativeOrAbsolutePath ≠ [] ∧ (∀ c ∈ ℓ.relativeOrAbsolutePath, pathChar c) ∧
      ℓ.relativeOrAbsolutePath.take 2 ≠ ['/', '/']) ∧
    (Plain text →
      provideDocumentLinks text = some ((List.range (text.length + 1)).filterMap (linkAt text))) :=
  ⟨fun _ h => Regex.matchAllFrom_fuel _ _ _ (by omega) le_rfl, provideDocumentLinks_sound text,
    fun _ => linkAt_isSome_iff,
    fun _ _ h => ⟨let ⟨_, P, r, hP, hr, _, hℓ⟩ := linkAt_spec h; ⟨P, r, hP, hr, hℓ⟩, linkAt_path h⟩,
    provideDocumentLinks_lines⟩

/-- The test `provides links for include`. -/
theorem provideDocumentLinks_spec_include :
    let text := "include //tools/translation/TRANSLATION_OWNERS".toList
    Plain text ∧
      provideDocumentLinks text = some ((List.range (text.length + 1)).filterMap (linkAt text)) :=
  have hp : Plain "include //tools/translation/TRANSLATION_OWNERS".toList := by decide
  ⟨hp, (provideDocumentLinks_spec _).2.2.2.2 hp⟩

end CrosIde.OwnersLinks
