import CrosIde.Gtest.Googletest

/-!
# The filters of the gtest test items

`GtestCase.getGtestFilter` (`gtest_case.ts:40-52`) and `GtestSuite.getGtestFilter`
(`gtest_suite.ts:55-82`), the `--gtest_filter` values with which the test explorer runs one case
or one suite of those `parse` found, read by googletest as `CrosIde.Gtest.Googletest` renders
it.
-/

namespace CrosIde.Gtest

/-- `GtestCase` (`gtest_case.ts:12-28`): what `getGtestFilter` reads of a case, its suite apart. -/
structure GtestCase where
  caseName : String
  isParameterized : Bool
  deriving DecidableEq

/-- `GtestSuite` (`gtest_suite.ts:13-49`): what `getGtestFilter` reads of a suite. -/
structure GtestSuite where
  suiteName : String
  isTyped : Bool
  testCases : List GtestCase

/-- `new GtestSuite(controller, testFileItem, uri, range, suiteName, isTyped, cases)`
    (`gtest_suite.ts:21-49`): one `GtestCase` for each entry of `cases`, in its order. -/
def GtestSuite.ofInstance (suiteName : String) (suiteInstance : TestSuiteInstance) : GtestSuite :=
  ⟨suiteName, suiteInstance.isTyped,
    suiteInstance.cases.map fun e => ⟨e.1, e.2.isParameterized⟩⟩

/-- `GtestCase.getGtestFilter()` (`gtest_case.ts:40-52`). -/
def GtestCase.getGtestFilter (testSuite : GtestSuite) (c : GtestCase) : String :=
  let suiteName := testSuite.suiteName
  if c.isParameterized then
    if testSuite.isTyped then
      "*/" ++ suiteName ++ "/*." ++ c.caseName ++ ":" ++ suiteName ++ "/*." ++ c.caseName
    else "*/" ++ suiteName ++ "." ++ c.caseName ++ "/*:" ++ suiteName ++ "." ++ c.caseName ++ "/*"
  else if testSuite.isTyped then suiteName ++ "/*." ++ c.caseName
  else suiteName ++ "." ++ c.caseName

/-- `filters.add(filter)` on a `Set`, in the insertion order `Array.from` keeps. -/
def setAdd (filters : List String) (filter : String) : List String :=
  if filter ∈ filters then filters else filters ++ [filter]

/-- One turn of the loop over `this.testCases` of `getGtestFilter` (`gtest_suite.ts:60-66`) on
    `(hasParameterizedCase, hasNonParameterizedCase)`. -/
def caseKindsStep (kinds : Bool × Bool) (testCase : GtestCase) : Bool × Bool :=
  if testCase.isParameterized then (true, kinds.2) else (kinds.1, true)

/-- The loop over `this.testCases` (`gtest_suite.ts:58-66`). -/
def caseKinds (testCases : List GtestCase) : Bool × Bool :=
  testCases.foldl caseKindsStep (false, false)

/-- The filters added for a parameterized case (`gtest_suite.ts:69-74`): with an
    instantiation's name before the suite's, and without. -/
def GtestSuite.parameterizedFilters (s : GtestSuite) : List String :=
  if s.isTyped then ["*/" ++ s.suiteName ++ "/*.*", s.suiteName ++ "/*.*"]
  else ["*/" ++ s.suiteName ++ ".*/*", s.suiteName ++ ".*/*"]

/-- The filter added for a non-parameterized case (`gtest_suite.ts:76-80`). -/
def GtestSuite.nonParameterizedFilter (s : GtestSuite) : String :=
  if s.isTyped then s.suiteName ++ "/*.*" else s.suiteName ++ ".*"

/-- The set `filters` of `getGtestFilter` (`gtest_suite.ts:56-80`). -/
def GtestSuite.filters (s : GtestSuite) : List String :=
  let filters := if (caseKinds s.testCases).1 then s.parameterizedFilters.foldl setAdd [] else []
  if (caseKinds s.testCases).2 then setAdd filters s.nonParameterizedFilter else filters

/-- `GtestSuite.getGtestFilter()` (`gtest_suite.ts:55-82`). -/
def GtestSuite.getGtestFilter (s : GtestSuite) : String := ":".intercalate s.filters

theorem caseKinds_eq (testCases : List GtestCase) :
    caseKinds testCases =
      (testCases.any (·.isParameterized), testCases.any (!·.isParameterized)) := by
  suffices ∀ kinds, testCases.foldl caseKindsStep kinds =
      (kinds.1 || testCases.any (·.isParameterized),
        kinds.2 || testCases.any (!·.isParameterized)) from this _
  induction testCases with
  | nil => simp
  | cons c cs ih => intro kinds; cases h : c.isParameterized <;> simp [caseKindsStep, ih, h]

@[simp] theorem mem_setAdd {filters : List String} {f g : String} :
    f ∈ setAdd filters g ↔ f ∈ filters ∨ f = g := by
  unfold setAdd
  split <;> simp_all [or_iff_left_of_imp]

@[simp] theorem mem_foldl_setAdd {f : String} (gs filters : List String) :
    f ∈ gs.foldl setAdd filters ↔ f ∈ filters ∨ f ∈ gs := by
  induction gs generalizing filters <;> simp [*, or_assoc]

theorem GtestSuite.mem_filters {s : GtestSuite} {f : String} :
    f ∈ s.filters ↔ (s.testCases.any (·.isParameterized) ∧ f ∈ s.parameterizedFilters) ∨
      (s.testCases.any (!·.isParameterized) ∧ f = s.nonParameterizedFilter) := by
  simp only [GtestSuite.filters, caseKinds_eq]
  split <;> split <;> simp_all

/-- What the filter of a suite whose name is an identifier selects: by the filters its cases'
    kinds add. -/
theorem GtestSuite.filterMatches_getGtestFilter (S : Identifier) (isTyped : Bool)
    (testCases : List GtestCase) (name : List Char) :
    filterMatches (GtestSuite.getGtestFilter ⟨S.val, isTyped, testCases⟩) name = true ↔
      (GtestSuite.filters ⟨S.val, isTyped, testCases⟩ = [] ∧ name = []) ∨
      (testCases.any (·.isParameterized) ∧ ∃ f ∈ GtestSuite.parameterizedFilters
          ⟨S.val, isTyped, testCases⟩, patternMatches f.toList name = true) ∨
      (testCases.any (!·.isParameterized) ∧ patternMatches
          (GtestSuite.nonParameterizedFilter ⟨S.val, isTyped, testCases⟩).toList name = true) := by
  have hf : ∀ f ∈ GtestSuite.filters ⟨S.val, isTyped, testCases⟩,
      ':' ∉ f.toList ∧ '-' ∉ f.toList := by
    suffices ∀ f ∈ GtestSuite.nonParameterizedFilter ⟨S.val, isTyped, testCases⟩ ::
        GtestSuite.parameterizedFilters ⟨S.val, isTyped, testCases⟩,
        ':' ∉ f.toList ∧ '-' ∉ f.toList from fun f h => this f <| by
      rcases GtestSuite.mem_filters.1 h with ⟨-, h⟩ | ⟨-, rfl⟩ <;> simp [h]
    cases isTyped <;> simp [GtestSuite.parameterizedFilters, GtestSuite.nonParameterizedFilter]
  rw [GtestSuite.getGtestFilter, filterMatches_of_dash_free, matchesFilter_join fun f h => (hf f h).1]
  · simp only [GtestSuite.mem_filters, or_and_right, exists_or, and_assoc, exists_and_left,
      exists_eq_left]
  · rw [mem_join (by decide)]
    exact fun ⟨f, h, hd⟩ => (hf f h).2 hd

/-! ## The tests of a case -/

/-- `t` is a test googletest runs for the case `caseName` of the suite `suiteName`: the macro
    of `t` is the one `parse` records by `isTyped` and `isParameterized`. -/
def Test.OfCase (suiteName : Identifier) (isTyped : Bool) (caseName : Identifier)
    (isParameterized : Bool) : Test → Prop
  | .plain s c => isTyped = false ∧ isParameterized = false ∧ s = suiteName ∧ c = caseName
  | .valueParameterized _ s c _ =>
    isTyped = false ∧ isParameterized = true ∧ s = suiteName ∧ c = caseName
  | .typed s c _ => isTyped = true ∧ isParameterized = false ∧ s = suiteName ∧ c = caseName
  | .typeParameterized _ s c _ =>
    isTyped = true ∧ isParameterized = true ∧ s = suiteName ∧ c = caseName

theorem Test.exists_iff {P : Test → Prop} :
    (∃ t, P t) ↔ (∃ s c, P (.plain s c)) ∨ (∃ i s c p, P (.valueParameterized i s c p)) ∨
      (∃ s c p, P (.typed s c p)) ∨ ∃ i s c p, P (.typeParameterized i s c p) := by
  constructor
  · rintro ⟨⟨s, c⟩ | ⟨i, s, c, p⟩ | ⟨s, c, p⟩ | ⟨i, s, c, p⟩, h⟩
    exacts [.inl ⟨s, c, h⟩, .inr (.inl ⟨i, s, c, p, h⟩), .inr (.inr (.inl ⟨s, c, p, h⟩)),
      .inr (.inr (.inr ⟨i, s, c, p, h⟩))]
  · rintro (⟨s, c, h⟩ | ⟨i, s, c, p, h⟩ | ⟨s, c, p, h⟩ | ⟨i, s, c, p, h⟩) <;> exact ⟨_, h⟩

/-- The filter of a case selects the tests googletest gives the names of the tests of that case;
    and, in a typed suite `S`, the type-parameterized tests of another suite that are
    instantiated under the name `S`, with the case's name. -/
theorem GtestCase.getGtestFilter_selects (S C : Identifier) (isTyped isParameterized : Bool)
    (cases : List GtestCase) (t : Test) :
    filterMatches (GtestCase.getGtestFilter ⟨S.val, isTyped, cases⟩ ⟨C.val, isParameterized⟩)
        t.fullName = true ↔
      (∃ t' : Test, t'.OfCase S isTyped C isParameterized ∧ t'.fullName = t.fullName) ∨
        (isTyped = true ∧ ∃ s p, t = .typeParameterized (some S) s C p) := by
  rw [filterMatches_of_dash_free (by
    cases isTyped <;> cases isParameterized <;> simp [GtestCase.getGtestFilter])]
  rw [Test.exists_iff]
  cases isTyped <;> cases isParameterized <;>
    simp [GtestCase.getGtestFilter, matchesFilter, Test.OfCase, Option.exists, and_assoc] <;>
    rcases t with ⟨s, c⟩ | ⟨_ | i, s, c, p⟩ | ⟨s, c, p⟩ | ⟨_ | i, s, c, p⟩ <;>
    simp [Test.fullName]
  all_goals simp only [@eq_comm Identifier, iff_self, implies_true]

/-! ## The filter of a suite -/

/-- The filter of a suite selects every name that the filter of one of its cases selects, the
    names of no test included. -/
theorem GtestSuite.getGtestFilter_selects_case (S C : Identifier) (isTyped isParameterized : Bool)
    (testCases : List GtestCase) (hc : ⟨C.val, isParameterized⟩ ∈ testCases) (name : List Char) :
    filterMatches (GtestCase.getGtestFilter ⟨S.val, isTyped, testCases⟩ ⟨C.val, isParameterized⟩)
        name = true →
      filterMatches (GtestSuite.getGtestFilter ⟨S.val, isTyped, testCases⟩) name = true := by
  have hkind : testCases.any (·.isParameterized == isParameterized) :=
    List.any_eq_true.2 ⟨_, hc, by simp⟩
  -- the case's name in each pattern of its filter is a `*` in the suite's
  have gen (p r : List Char) (h : patternMatches (p ++ C.chars ++ r) name = true) :
      patternMatches (p ++ '*' :: r) name = true :=
    patternMatches_generalize (fun c h => ⟨(C.not_special h).1, (C.not_special h).2.1⟩) p name h
  rw [filterMatches_of_dash_free (by
    cases isTyped <;> cases isParameterized <;> simp [GtestCase.getGtestFilter]),
    GtestSuite.filterMatches_getGtestFilter]
  cases isTyped <;> cases isParameterized <;>
    simp only [GtestCase.getGtestFilter, GtestSuite.parameterizedFilters,
      GtestSuite.nonParameterizedFilter, Bool.false_eq_true, if_false, if_true] at hkind ⊢ <;>
    simp [matchesFilter] at hkind ⊢
  case false.false =>
    exact fun h => .inr (.inr ⟨hkind, by simpa using gen (S.chars ++ ['.']) [] (by simpa using h)⟩)
  case false.true =>
    exact fun h => .inr (.inl ⟨hkind, h.imp
      (fun h => by simpa using gen ('*' :: '/' :: S.chars ++ ['.']) ['/', '*'] (by simpa using h))
      (fun h => by simpa using gen (S.chars ++ ['.']) ['/', '*'] (by simpa using h))⟩)
  case true.false =>
    exact fun h => .inr (.inr ⟨hkind,
      by simpa using gen (S.chars ++ ['/', '*', '.']) [] (by simpa using h)⟩)
  case true.true =>
    exact fun h => .inr (.inl ⟨hkind, h.imp
      (fun h => by simpa using gen ('*' :: '/' :: S.chars ++ ['/', '*', '.']) [] (by simpa using h))
      (fun h => by simpa using gen (S.chars ++ ['/', '*', '.']) [] (by simpa using h))⟩)

/-- The instantiation `My` of the typed suite `Foo`, run with the case `Bar`. -/
theorem getGtestFilter_selects_case_instantiated :
    filterMatches (GtestSuite.getGtestFilter ⟨"Foo", true, [⟨"Bar", true⟩]⟩)
      "My/Foo/0.Bar".toList = true :=
  GtestSuite.getGtestFilter_selects_case ⟨"Foo", by decide, by decide⟩
    ⟨"Bar", by decide, by decide⟩ true true _ (by decide) _ (by decide)

/-- The filter of a suite runs every test of the suite whose kind one of its cases has. -/
theorem GtestSuite.getGtestFilter_complete (S : Identifier) (isTyped : Bool)
    (testCases : List GtestCase) (t : Test) (hsuite : t.suite = S) (htyped : t.isTyped = isTyped)
    (hkind : testCases.any (·.isParameterized == t.isParameterized)) :
    filterMatches (GtestSuite.getGtestFilter ⟨S.val, isTyped, testCases⟩) t.fullName = true := by
  rw [GtestSuite.filterMatches_getGtestFilter]
  subst hsuite htyped
  rcases t with ⟨s, c⟩ | ⟨_ | i, s, c, p⟩ | ⟨s, c, p⟩ | ⟨_ | i, s, c, p⟩ <;>
    simp_all [Test.suite, Test.isTyped, Test.isParameterized, Test.fullName,
      GtestSuite.parameterizedFilters, GtestSuite.nonParameterizedFilter]

theorem getGtestFilter_complete_instantiated :
    filterMatches (GtestSuite.getGtestFilter ⟨"Foo", true, [⟨"Bar", true⟩]⟩)
      (Test.typeParameterized (some ⟨"My", by decide, by decide⟩) ⟨"Foo", by decide, by decide⟩
        ⟨"Bar", by decide, by decide⟩ ⟨"0", by decide, by decide⟩).fullName = true :=
  GtestSuite.getGtestFilter_complete ⟨"Foo", by decide, by decide⟩ true _ _ rfl rfl (by decide)

/-- The filter of a suite runs no test of another suite or of the other typedness; but in a
    typed suite `S` it also runs the parameterized tests instantiated under the name `S`. -/
theorem GtestSuite.getGtestFilter_sound (S : Identifier) (isTyped : Bool)
    (testCases : List GtestCase) (t : Test) :
    filterMatches (GtestSuite.getGtestFilter ⟨S.val, isTyped, testCases⟩) t.fullName = true →
      (t.suite = S ∧ t.isTyped = isTyped) ∨
        (isTyped = true ∧ t.isParameterized = true ∧ t.instantiation = some S) := by
  rw [GtestSuite.filterMatches_getGtestFilter]
  cases isTyped <;>
    simp [GtestSuite.parameterizedFilters, GtestSuite.nonParameterizedFilter] <;>
    rcases t with ⟨s, c⟩ | ⟨_ | i, s, c, p⟩ | ⟨s, c, p⟩ | ⟨_ | i, s, c, p⟩ <;>
    simp [Test.suite, Test.isTyped, Test.isParameterized, Test.instantiation, Test.fullName,
      @eq_comm _ S, or_imp]
  case true.typeParameterized.some => exact fun _ _ _ h => .inr h

/-- The value-parameterized test `Foo/Bar.Baz/0`, of the suite `Bar` instantiated as `Foo`, is
    run with the typed suite `Foo`. -/
theorem getGtestFilter_sound_instantiated :
    let t := Test.valueParameterized (some ⟨"Foo", by decide, by decide⟩)
      ⟨"Bar", by decide, by decide⟩ ⟨"Baz", by decide, by decide⟩ ⟨"0", by decide, by decide⟩
    (t.suite = ⟨"Foo", by decide, by decide⟩ ∧ t.isTyped = true) ∨
      (true = true ∧ t.isParameterized = true ∧ t.instantiation = some ⟨"Foo", by decide, by decide⟩) :=
  GtestSuite.getGtestFilter_sound ⟨"Foo", by decide, by decide⟩ true [⟨"Baz", false⟩] _ (by decide)

end CrosIde.Gtest
