import CrosIde.Misc.JsMap
import CrosIde.RegExp.Matcher

/-!
# The gtest parser

Rendering of `parse` (`gtest parser`, `src/unnamed/part_003:27-74`), which finds the gtest test
cases of a C++ file: each match of a global multiline pattern is a `TEST(suite, name)`, and
`parse` maps each suite to the range of its first test case and each test case of a suite to
the range of its last definition. The ranges are computed incrementally: `proceed` moves a
cursor `(index, row, col)` from the end of one match to the start and then to the end of the
next.

The loop is `parseMatches` over the matches, given as what the loop body reads of them
(`GtestMatch`). Over any sequence of matches each of which starts at or after the end of the one
before, the cursor is at `pos content k` whenever `index` is `k` (`proceed_cursorAt`), so the
ranges are `pos` of the offsets of the match, and the map holds the first match of each suite
and the last of each test case (`parseMatches_lookup`). The matches of `parse` are those of
`re` in `CrosIde.RegExp`, which form such a sequence (`gtestMatches_ordered`), so the same holds
of `parse` on every content, where the loop ends before its fuel runs out (`parse_lookup`).

`vscode.Position` and `vscode.Range` are pairs. The content is a list of characters; JavaScript
indexes UTF-16 code units, and the two agree on text without characters beyond the Basic
Multilingual Plane.
-/

namespace CrosIde.Gtest

open RegExp

/-- `vscode.Position`: a line and a character, both from 0. -/
structure Position where
  line : Nat
  character : Nat
deriving DecidableEq, Repr

/-- `vscode.Range`. -/
structure Range where
  start : Position
  «end» : Position
deriving DecidableEq, Repr

/-- `TestCaseInstance` (`part_003:7-11`). -/
structure TestCaseInstance where
  range : Range
  isParameterized : Bool
deriving DecidableEq, Repr

/-- `TestCaseMap` (`part_003:19`). -/
abbrev TestCaseMap := List (String × TestCaseInstance)

/-- `TestSuiteInstance` (`part_003:13-17`). -/
structure TestSuiteInstance where
  range : Range
  cases : TestCaseMap
  isTyped : Bool
deriving DecidableEq, Repr

/-- `TestSuiteMap` (`part_003:20`). -/
abbrev TestSuiteMap := List (String × TestSuiteInstance)

/-! ## The pattern -/

/-- `[^\S\n]`: white space other than `\n`. -/
def blankNotNewline (c : Char) : Bool := isSpace c && c != '\n'

/-- `\w`. -/
def wordChar (c : Char) : Bool := c.isAlphanum || c == '_'

/-- The named groups of `re`, numbered in the order of their opening parentheses. -/
def typedGroup : Nat := 1
/-- The group `parameterized`. -/
def parameterizedGroup : Nat := 2
/-- The group `suite`. -/
def suiteGroup : Nat := 3
/-- The group `name`. -/
def nameGroup : Nat := 4

/-- `(X)?` for an `X` that consumes a character or more and whose groups have not captured
    before: the greedy repetition tries `X` and otherwise matches nothing. -/
def opt (r : Regex) : Regex := .alt r .empty

/-- `re` (`part_003:32-33`), with the flags `gm`:
    `^[^\S\n]*(?<typed>TYPED_)?(?:IN_PROC_BROWSER_)?TEST(?<parameterized>_F|_P)?`
    `\s*\(\s*(?<suite>\w+)\s*,\s*(?<name>\w+)\s*\)`. -/
def re : Regex :=
  .seq (.lineStart true) <| .seq (.star blankNotNewline) <|
  .seq (opt (.group typedGroup (.word "TYPED_".toList))) <|
  .seq (opt (.word "IN_PROC_BROWSER_".toList)) <| .seq (.word "TEST".toList) <|
  .seq (opt (.group parameterizedGroup (.alt (.word "_F".toList) (.word "_P".toList)))) <|
  .seq (.star isSpace) <| .seq (.char (· == '(')) <| .seq (.star isSpace) <|
  .seq (.group suiteGroup (.plus wordChar)) <| .seq (.star isSpace) <|
  .seq (.char (· == ',')) <| .seq (.star isSpace) <|
  .seq (.group nameGroup (.plus wordChar)) <| .seq (.star isSpace) (.char (· == ')'))

/-- What the loop body reads of a match `m`: `m.index`, `m[0].length` and the groups
    `suite`, `name`, `parameterized` and `typed`, the last two `undefined` when they have not
    captured. -/
structure GtestMatch where
  index : Nat
  length : Nat
  suite : String
  name : String
  parameterized : Option String
  typed : Option String
deriving DecidableEq, Repr

/-- The text a group has captured, if it has. -/
def groupString (content : List Char) (g : Option (Nat × Nat)) : Option String :=
  g.map fun g => String.mk ((content.drop g.1).take (g.2 - g.1))

/-- The match of `re` at `index` ending in `t`. `suite` and `name` capture in every match
    (`captures_suite`, `captures_name`), so their texts are never `undefined`. -/
def GtestMatch.ofMatch (content : List Char) (index : Nat) (t : MatchState) : GtestMatch :=
  ⟨index, t.endIndex - index, (groupString content (t.captures suiteGroup)).getD "",
    (groupString content (t.captures nameGroup)).getD "",
    groupString content (t.captures parameterizedGroup),
    groupString content (t.captures typedGroup)⟩

/-- The matches of `while ((m = re.exec(content)) !== null)` (`part_003:51`). -/
def gtestMatches (content : List Char) : List GtestMatch :=
  (re.execAll content (content.length + 1) 0).map fun m => GtestMatch.ofMatch content m.1 m.2

/-! ## The loop -/

/-- The variables `index`, `row` and `col` of `parse` (`part_003:36-38`). -/
structure Cursor where
  index : Nat
  row : Nat
  col : Nat
deriving DecidableEq, Repr

/-- One iteration of the loop of `proceed` (`part_003:41-47`); `content[index]` is `undefined`
    past the end. -/
def Cursor.next (content : List Char) (c : Cursor) : Cursor :=
  if content[c.index]? = some '\n' then ⟨c.index + 1, c.row + 1, 0⟩
  else ⟨c.index + 1, c.row, c.col + 1⟩

/-- `proceed(endIndex)` (`part_003:40-49`): `endIndex - index` iterations. -/
def proceed (content : List Char) (c : Cursor) (endIndex : Nat) : Cursor :=
  (Cursor.next content)^[endIndex - c.index] c

/-- `new vscode.Position(row, col)`. -/
def Cursor.position (c : Cursor) : Position := ⟨c.row, c.col⟩

/-- The map after the match `m` of range `range` (`part_003:64-70`). `res.get(suite)!` is the
    suite's instance, or the one `res.set` has just added; `suiteInstance.cases.set` changes
    that instance in place, so the map sets the suite once, to the instance with its new case. -/
def addMatch (res : TestSuiteMap) (m : GtestMatch) (range : Range) : TestSuiteMap :=
  let suiteInstance := (res.lookup m.suite).getD ⟨range, [], m.typed == some "TYPED_"⟩
  mapSet res m.suite { suiteInstance with
    cases := mapSet suiteInstance.cases m.name ⟨range, m.parameterized == some "_P"⟩ }

/-- The body of the loop of `parse` (`part_003:52-70`) for the match `m`, from the map and the
    cursor before it. -/
def parseStep (content : List Char) (st : TestSuiteMap × Cursor) (m : GtestMatch) :
    TestSuiteMap × Cursor :=
  let c₁ := proceed content st.2 m.index
  let c₂ := proceed content c₁ (m.index + m.length)
  (addMatch st.1 m ⟨c₁.position, c₂.position⟩, c₂)

/-- The loop of `parse` over the matches `ms`. -/
def parseMatches (content : List Char) (ms : List GtestMatch) : TestSuiteMap :=
  (ms.foldl (parseStep content) ([], ⟨0, 0, 0⟩)).1

/-- `parse(content)` (`part_003:27-74`). -/
def parse (content : List Char) : TestSuiteMap := parseMatches content (gtestMatches content)

/-! ## Where the cursor is -/

/-- The line and the character of offset `k`: the `'\n'` among the first `k` characters, and
    the characters from the last of them, or from the start, up to `k`. -/
def pos (content : List Char) (k : Nat) : Position :=
  ⟨(content.take k).count '\n', k - ((content.take k).reverse.dropWhile (· != '\n')).length⟩

/-- The cursor with `index` at `k`, and `row` and `col` at its position. -/
def cursorAt (content : List Char) (k : Nat) : Cursor :=
  ⟨k, (pos content k).line, (pos content k).character⟩

@[simp] theorem cursorAt_position (content : List Char) (k : Nat) :
    (cursorAt content k).position = pos content k := rfl

theorem length_dropWhile_le (content : List Char) (k : Nat) :
    ((content.take k).reverse.dropWhile (· != '\n')).length ≤ k :=
  calc _ ≤ (content.take k).reverse.length := (List.dropWhile_suffix _).length_le
    _ ≤ k := by simp

/-- One iteration of `proceed` moves the cursor to the next offset. -/
theorem next_cursorAt (content : List Char) (k : Nat) :
    (cursorAt content k).next content = cursorAt content (k + 1) := by
  have hle := length_dropWhile_le content k
  simp only [Cursor.next, cursorAt, pos]
  cases hk : content[k]? with
  | none =>
    have hl : content.length ≤ k := List.getElem?_eq_none_iff.1 hk
    rw [List.take_of_length_le hl] at hle
    simp [List.take_of_length_le hl, List.take_of_length_le (Nat.le_succ_of_le hl)]; omega
  | some c =>
    rw [List.take_succ, hk]
    by_cases hc : c = '\n'
    · subst hc
      have hl : (content.take k).length = k :=
        List.length_take_of_le (List.getElem?_eq_some_iff.1 hk).1.le
      simp [hl]
    · simp [hc, List.count_singleton]; omega

theorem iterate_next_cursorAt (content : List Char) (k : Nat) :
    ∀ n, (Cursor.next content)^[n] (cursorAt content k) = cursorAt content (k + n)
  | 0 => rfl
  | n + 1 => by
    rw [Function.iterate_succ_apply, next_cursorAt, iterate_next_cursorAt content (k + 1) n,
      Nat.add_right_comm, Nat.add_assoc]

/-- From the cursor at `k`, `proceed(e)` with `k ≤ e` leaves the cursor at `e`. -/
theorem proceed_cursorAt (content : List Char) {k e : Nat} (h : k ≤ e) :
    proceed content (cursorAt content k) e = cursorAt content e := by
  show (Cursor.next content)^[e - k] (cursorAt content k) = _
  rw [iterate_next_cursorAt, Nat.add_sub_cancel' h]

/-! ## What the map holds -/

/-- The range of a match: from the position of its start to that of its end. -/
def rangeOf (content : List Char) (m : GtestMatch) : Range :=
  ⟨pos content m.index, pos content (m.index + m.length)⟩

/-- The matches start each at or after the end of the one before. -/
def Ordered (ms : List GtestMatch) : Prop :=
  ms.Chain' fun m m' => m.index + m.length ≤ m'.index

/-- Where the loop leaves the cursor after the matches `ms`: at the end of the last one. -/
def endOf (ms : List GtestMatch) : Nat :=
  (ms.getLast?.map fun m => m.index + m.length).getD 0

/-- The map after the matches `ms`: each suite with the range and `isTyped` of its first match,
    each test case with the range and `isParameterized` of its last. -/
structure Describes (content : List Char) (ms : List GtestMatch) (res : TestSuiteMap) :
    Prop where
  suite : ∀ s, (res.lookup s).map (fun i => (i.range, i.isTyped)) =
    (ms.find? (·.suite == s)).map fun m => (rangeOf content m, m.typed == some "TYPED_")
  case : ∀ s n, (res.lookup s).bind (·.cases.lookup n) =
    ((ms.filter fun m => m.suite == s && m.name == n).getLast?).map
      fun m => ⟨rangeOf content m, m.parameterized == some "_P"⟩

/-- A match that starts at or after the cursor moves it to the end of the match, and is
    added with its range. -/
theorem parseStep_cursorAt (content : List Char) (res : TestSuiteMap) {k : Nat} {m : GtestMatch}
    (hk : k ≤ m.index) :
    parseStep content (res, cursorAt content k) m =
      (addMatch res m (rangeOf content m), cursorAt content (m.index + m.length)) := by
  simp only [parseStep, proceed_cursorAt content hk,
    proceed_cursorAt content (Nat.le_add_right m.index m.length), cursorAt_position]
  rfl

section Describes

variable {content : List Char} {ms : List GtestMatch} {res : TestSuiteMap}

theorem Describes.addMatch (hd : Describes content ms res) (m : GtestMatch) :
    Describes content (ms ++ [m]) (addMatch res m (rangeOf content m)) where
  suite s := by
    have h := hd.suite s
    simp only [CrosIde.Gtest.addMatch, lookup_mapSet, List.find?_append]
    by_cases hs : s = m.suite
    · subst hs
      cases hr : res.lookup m.suite with
      | none =>
        rw [hr, Option.map_none', eq_comm, Option.map_eq_none'] at h
        simp [h]
      | some i =>
        rw [hr, Option.map_some', eq_comm, Option.map_eq_some'] at h
        obtain ⟨m₀, hm₀, he⟩ := h
        simp [hm₀, he]
    · simpa [hs, Ne.symm hs] using h
  case s n := by
    have h := hd.case s n
    simp only [CrosIde.Gtest.addMatch, lookup_mapSet, List.filter_append]
    by_cases hs : s = m.suite
    · subst hs
      by_cases hn : n = m.name
      · subst hn; simp [lookup_mapSet]
      · cases hr : res.lookup m.suite with
        | none => rw [hr] at h; simpa [lookup_mapSet, hn, Ne.symm hn] using h
        | some i => rw [hr] at h; simpa [lookup_mapSet, hn, Ne.symm hn] using h
    · simpa [hs, Ne.symm hs] using h

end Describes

/-- After the matches `ms`, each at or after the end of the one before, the loop holds the map
    they describe and the cursor is at the end of the last. -/
theorem foldl_parseStep (content : List Char) (ms : List GtestMatch) (hms : Ordered ms) :
    ∃ res, ms.foldl (parseStep content) ([], ⟨0, 0, 0⟩) = (res, cursorAt content (endOf ms)) ∧
      Describes content ms res := by
  induction ms using List.reverseRecOn with
  | nil => exact ⟨[], rfl, ⟨fun _ => rfl, fun _ _ => rfl⟩⟩
  | append_singleton ms m ih =>
    rw [Ordered, List.chain'_append] at hms
    obtain ⟨res, hf, hd⟩ := ih hms.1
    have hk : endOf ms ≤ m.index := by
      cases hl : ms.getLast? with
      | none => simp [endOf, hl]
      | some m' => simpa [endOf, hl] using hms.2.2 m' hl m rfl
    refine ⟨_, ?_, hd.addMatch m⟩
    rw [List.foldl_append, hf, List.foldl_cons, List.foldl_nil, parseStep_cursorAt content res hk]
    simp [endOf]

theorem parseMatches_describes (content : List Char) {ms : List GtestMatch} (hms : Ordered ms) :
    Describes content ms (parseMatches content ms) := by
  obtain ⟨res, hf, hd⟩ := foldl_parseStep content ms hms
  rwa [parseMatches, hf]

/-- Over matches each at or after the end of the one before, `parse` maps each suite to the
    range and `isTyped` of its first match, and each of its test cases to the range and
    `isParameterized` of its last; a range runs from the position of the match's start to that
    of its end. -/
theorem parseMatches_lookup (content : List Char) (ms : List GtestMatch) (hms : Ordered ms)
    (s : String) :
    ((parseMatches content ms).lookup s).map (fun i => (i.range, i.isTyped)) =
        (ms.find? (·.suite == s)).map (fun m => (rangeOf content m, m.typed == some "TYPED_")) ∧
      ∀ n, ((parseMatches content ms).lookup s).bind (·.cases.lookup n) =
        ((ms.filter fun m => m.suite == s && m.name == n).getLast?).map
          fun m => ⟨rangeOf content m, m.parameterized == some "_P"⟩ :=
  ⟨(parseMatches_describes content hms).suite s, (parseMatches_describes content hms).case s⟩

/-- The matches of the test `parses gtest cases with mixed parameterization`: `foo.baz` is the
    `TEST_P` of the second line. -/
theorem parseMatches_lookup_mixed :
    Ordered [⟨0, 16, "foo", "bar", some "_F", none⟩, ⟨20, 16, "foo", "baz", some "_P", none⟩] ∧
      ((parseMatches "TEST_F(foo, bar) {}\nTEST_P(foo, baz) {}".toList
        [⟨0, 16, "foo", "bar", some "_F", none⟩, ⟨20, 16, "foo", "baz", some "_P", none⟩]).lookup
          "foo").bind (·.cases.lookup "baz") = some ⟨⟨⟨1, 0⟩, ⟨1, 16⟩⟩, true⟩ :=
  have h : Ordered [⟨0, 16, "foo", "bar", some "_F", none⟩,
      ⟨20, 16, "foo", "baz", some "_P", none⟩] := by simp [Ordered]
  ⟨h, ((parseMatches_lookup _ _ h "foo").2 "baz").trans (by decide)⟩

/-! ## The matches of `re` -/

/-- A match of `re` ends where the matcher accepted an end of the pattern from its start. -/
theorem matches_of_mem {content : List Char} {fuel i j : Nat} {t : MatchState}
    (h : (j, t) ∈ re.execAll content fuel i) : re.Matches (.init content j) t := by
  obtain ⟨t', ht', hk⟩ := Regex.m_sound re (Regex.mem_execAll h).2.2.2
  cases hk
  exact ht'

/-- The group `suite` has captured in every match of `re`. -/
theorem captures_suite {content : List Char} {fuel i j : Nat} {t : MatchState}
    (h : (j, t) ∈ re.execAll content fuel i) : (t.captures suiteGroup).isSome :=
  (matches_of_mem h).captures_of_alwaysCaptures rfl

/-- The group `name` has captured in every match of `re`. -/
theorem captures_name {content : List Char} {fuel i j : Nat} {t : MatchState}
    (h : (j, t) ∈ re.execAll content fuel i) : (t.captures nameGroup).isSome :=
  (matches_of_mem h).captures_of_alwaysCaptures rfl

/-- The `while` loop ends before its fuel runs out: `re` consumes a character or more. -/
theorem execAll_re_fuel (content : List Char) {fuel : Nat} (h : content.length + 1 ≤ fuel) :
    re.execAll content fuel 0 = re.execAll content (content.length + 1) 0 :=
  Regex.execAll_fuel (by decide) _ _ _ h le_rfl

/-- The matches of `parse` each start at or after the end of the one before. -/
theorem gtestMatches_ordered (content : List Char) : Ordered (gtestMatches content) := by
  have h := Regex.execAll_chain re content (content.length + 1) 0
  rw [List.Chain'.iff_mem] at h
  refine (List.chain'_map _).2 (h.imp fun a b hab => ?_)
  have := (Regex.mem_execAll hab.1).2.1
  simp only [GtestMatch.ofMatch]
  omega

/-- On every content the `while` loop ends before its fuel runs out, the groups `suite` and
    `name` have captured in every match, and `parse` maps each suite to the range and `isTyped`
    of its first match, and each of its test cases to the range and `isParameterized` of its
    last; a range runs from the position of the match's start to that of its end. -/
theorem parse_lookup (content : List Char) (s : String) :
    (∀ fuel, content.length + 1 ≤ fuel →
      re.execAll content fuel 0 = re.execAll content (content.length + 1) 0) ∧
    (∀ j t, (j, t) ∈ re.execAll content (content.length + 1) 0 →
      (t.captures suiteGroup).isSome ∧ (t.captures nameGroup).isSome) ∧
    ((parse content).lookup s).map (fun i => (i.range, i.isTyped)) =
        ((gtestMatches content).find? (·.suite == s)).map
          (fun m => (rangeOf content m, m.typed == some "TYPED_")) ∧
      ∀ n, ((parse content).lookup s).bind (·.cases.lookup n) =
        (((gtestMatches content).filter fun m => m.suite == s && m.name == n).getLast?).map
          fun m => ⟨rangeOf content m, m.parameterized == some "_P"⟩ :=
  have hd := parseMatches_describes content (gtestMatches_ordered content)
  ⟨fun _ => execAll_re_fuel content, fun _ _ h => ⟨captures_suite h, captures_name h⟩,
    hd.suite s, hd.case s⟩

set_option maxRecDepth 2000 in
/-- The test `parses complex gtest cases`: blanks before `TEST_F` and around its arguments, and
    a `TEST_P` over two lines. -/
example : parse "   TEST_F  (   foo  ,   bar   ) \x7b\n\x7d\n\nTEST_P(multiple,\n  lines) {}".toList =
    [("foo", ⟨⟨⟨0, 0⟩, ⟨0, 31⟩⟩, [("bar", ⟨⟨⟨0, 0⟩, ⟨0, 31⟩⟩, false⟩)], false⟩),
      ("multiple", ⟨⟨⟨3, 0⟩, ⟨4, 8⟩⟩, [("lines", ⟨⟨⟨3, 0⟩, ⟨4, 8⟩⟩, true⟩)], false⟩)] := by
  decide

end CrosIde.Gtest
