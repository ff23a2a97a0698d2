import CrosIde.Gtest.Parser
import Mathlib.Data.List.Infix

/-!
# googletest's test names and `--gtest_filter`

What the filters that the extension passes to a gtest binary mean: googletest's `gtest.cc`, not
in the sources. `--gtest_filter` is a list of patterns separated by `:`, those after the first
`-` deselecting, and a test runs when its full name matches a pattern
(`UnitTestOptions::FilterMatchesTest`, `filterMatches`); a pattern is a glob in which `?`
matches one character and `*` any string (`PatternMatchesString`, `patternMatches`).

The full name of a test (`Test.fullName`) is made of C++ identifiers (`Identifier`) and the
separators `/` and `.`, by the macro that defines it: `Suite.Case` for `TEST` and `TEST_F`,
`Instantiation/Suite.Case/Param` for `TEST_P`, `Suite/Type.Case` for `TYPED_TEST` and
`Instantiation/Suite/Type.Case` for `TYPED_TEST_P`, without `Instantiation/` when the
instantiation is given an empty name.

On such names a pattern made of identifiers, separators and `*` is matched one token at a time:
an identifier and a separator of the pattern match an identifier and a separator of the name
whole (`Identifier.patternMatches_append_cons_append_cons`), and a `*` before a separator stops
at an occurrence of it (`Identifier.patternMatches_star_cons_append_cons`). These rules are
tagged `@[simp]`, and with them `simp` decides which names a filter of the extension selects.
-/

namespace CrosIde.Gtest

/-! ## Patterns and filters -/

/-- `PatternMatchesString(name, pattern)`: `?` matches any one character, `*` any string, and
    every other character itself. The restarts of googletest's loop over `*` are the suffixes of
    the name at which the rest of the pattern is tried. -/
def patternMatches : List Char → List Char → Bool
  | [], name => name.isEmpty
  | '?' :: p, name => match name with
    | [] => false
    | _ :: name => patternMatches p name
  | '*' :: p, name => name.tails.any (patternMatches p)
  | c :: p, name => match name with
    | [] => false
    | d :: name => c == d && patternMatches p name

/-- `MatchesFilter(name, filter)`: the patterns of `filter` are separated by `:`, and one of
    them matches. -/
def matchesFilter (filter name : List Char) : Bool :=
  (filter.splitOn ':').any (patternMatches · name)

/-- `UnitTestOptions::FilterMatchesTest` for the value of `--gtest_filter`: before the first
    `-` the patterns that select, `*` when there are none, and after it those that deselect. -/
def filterMatches (filter : String) (name : List Char) : Bool :=
  let positive := filter.toList.takeWhile (· != '-')
  let dash := filter.toList.dropWhile (· != '-')
  if dash.isEmpty then matchesFilter positive name
  else matchesFilter (if positive.isEmpty then ['*'] else positive) name &&
    !matchesFilter dash.tail name

@[simp] theorem patternMatches_nil (name : List Char) :
    patternMatches [] name = true ↔ name = [] := by
  simp [patternMatches]

theorem patternMatches_star (p name : List Char) :
    patternMatches ('*' :: p) name = true ↔ ∃ u v, name = u ++ v ∧ patternMatches p v = true := by
  simp only [patternMatches, List.any_eq_true, List.mem_tails, List.IsSuffix]
  constructor
  · rintro ⟨v, ⟨u, rfl⟩, h⟩; exact ⟨u, v, rfl, h⟩
  · rintro ⟨u, v, rfl, h⟩; exact ⟨v, ⟨u, rfl⟩, h⟩

theorem patternMatches_any (p name : List Char) :
    patternMatches ('?' :: p) name = true ↔ ∃ c v, name = c :: v ∧ patternMatches p v = true := by
  cases name <;> simp [patternMatches, and_assoc]

theorem patternMatches_literal {c : Char} (h₁ : c ≠ '?') (h₂ : c ≠ '*') (p name : List Char) :
    patternMatches (c :: p) name = true ↔ ∃ v, name = c :: v ∧ patternMatches p v = true := by
  cases name with
  | nil => simp [patternMatches.eq_5 c p h₁ h₂]
  | cons d name =>
    simp only [patternMatches.eq_6 c p d name h₁ h₂, Bool.and_eq_true, beq_iff_eq,
      List.cons.injEq]
    constructor
    · rintro ⟨rfl, h⟩; exact ⟨name, ⟨rfl, rfl⟩, h⟩
    · rintro ⟨v, ⟨rfl, rfl⟩, h⟩; exact ⟨rfl, h⟩

theorem patternMatches_append_literal {w : List Char} (hw : ∀ c ∈ w, c ≠ '?' ∧ c ≠ '*')
    (p name : List Char) :
    patternMatches (w ++ p) name = true ↔ ∃ v, name = w ++ v ∧ patternMatches p v = true := by
  induction w generalizing name with
  | nil => simp
  | cons c w ih =>
    have hc := hw c (List.mem_cons_self _ _)
    rw [List.cons_append, patternMatches_literal hc.1 hc.2]
    simp only [ih fun x hx => hw x (List.mem_cons_of_mem _ hx)]
    constructor
    · rintro ⟨v, rfl, v', rfl, h⟩; exact ⟨v', rfl, h⟩
    · rintro ⟨v, rfl, h⟩; exact ⟨w ++ v, rfl, v, rfl, h⟩

@[simp] theorem patternMatches_star_nil (name : List Char) : patternMatches ['*'] name = true :=
  (patternMatches_star [] name).2 ⟨name, [], by simp, rfl⟩

/-- A literal part of a pattern can be replaced by `*`: what the pattern matches, the more
    general one matches too. -/
theorem patternMatches_generalize {w r : List Char} (hw : ∀ c ∈ w, c ≠ '?' ∧ c ≠ '*') :
    ∀ (p name : List Char), patternMatches (p ++ w ++ r) name = true →
      patternMatches (p ++ '*' :: r) name = true := by
  intro p
  induction p with
  | nil =>
    intro name h
    obtain ⟨v, rfl, h'⟩ := (patternMatches_append_literal hw r name).1 (by simpa using h)
    exact (patternMatches_star r _).2 ⟨w, v, rfl, h'⟩
  | cons c p ih =>
    intro name h
    by_cases h₁ : c = '?'
    · subst h₁
      obtain ⟨c, v, rfl, h'⟩ := (patternMatches_any _ _).1 h
      exact (patternMatches_any _ _).2 ⟨c, v, rfl, ih v h'⟩
    by_cases h₂ : c = '*'
    · subst h₂
      obtain ⟨u, v, rfl, h'⟩ := (patternMatches_star _ _).1 h
      exact (patternMatches_star _ _).2 ⟨u, v, rfl, ih v h'⟩
    obtain ⟨v, rfl, h'⟩ := (patternMatches_literal h₁ h₂ _ _).1 h
    exact (patternMatches_literal h₁ h₂ _ _).2 ⟨v, rfl, ih v h'⟩

/-- A filter with no `-` selects by its patterns alone. -/
theorem filterMatches_of_dash_free {filter : String} (h : '-' ∉ filter.toList)
    (name : List Char) : filterMatches filter name = matchesFilter filter.toList name := by
  have hp : ∀ c ∈ filter.toList, (c != '-') = true := fun c hc => by
    simpa using fun e : c = '-' => h (e ▸ hc)
  simp only [filterMatches, List.takeWhile_eq_self_iff.2 hp, List.dropWhile_eq_nil_iff.2 hp,
    List.isEmpty_nil, if_true]

/-- Patterns without `:`, joined with `:`, select by one of them. -/
theorem matchesFilter_intercalate {ps : List (List Char)} (hps : ∀ p ∈ ps, ':' ∉ p)
    (hne : ps ≠ []) (name : List Char) :
    matchesFilter ([':'].intercalate ps) name = true ↔ ∃ p ∈ ps, patternMatches p name = true := by
  simp [matchesFilter, List.splitOn_intercalate ps ':' hps hne]

theorem intercalate_cons_eq {α : Type} (s a : List α) (l : List (List α)) :
    s.intercalate (a :: l) = a ++ l.flatMap (s ++ ·) := by
  induction l generalizing a with
  | nil => simp [List.intercalate]
  | cons b l ih => simp_all [List.intercalate, List.intersperse_cons_cons]

theorem toList_intercalate_go (s : String) (acc : String) (l : List String) :
    (String.intercalate.go acc s l).toList =
      acc.toList ++ l.flatMap fun a => s.toList ++ a.toList := by
  induction l generalizing acc with
  | nil => simp [String.intercalate.go]
  | cons a l ih => rw [String.intercalate.go, ih]; simp

theorem toList_intercalate (s : String) (l : List String) :
    (s.intercalate l).toList = s.toList.intercalate (l.map String.toList) := by
  cases l with
  | nil => rfl
  | cons a l =>
    rw [String.intercalate, toList_intercalate_go]
    simp [intercalate_cons_eq, List.flatMap_map]

/-- `Array.from(filters).join(':')`, for filters without `:`, selects by one of them; the
    empty join is the filter `""`, which selects the empty name only. -/
theorem matchesFilter_join {filters : List String} (h : ∀ f ∈ filters, ':' ∉ f.toList)
    (name : List Char) :
    matchesFilter (":".intercalate filters).toList name = true ↔
      (filters = [] ∧ name = []) ∨ ∃ f ∈ filters, patternMatches f.toList name = true := by
  cases filters with
  | nil => simp [matchesFilter, String.intercalate]
  | cons f fs =>
    rw [toList_intercalate, show ":".toList = [':'] from rfl,
      matchesFilter_intercalate (by simpa using h) (by simp)]
    simp

theorem mem_join {filters : List String} {c : Char} (hc : c ≠ ':') :
    c ∈ (":".intercalate filters).toList ↔ ∃ f ∈ filters, c ∈ f.toList := by
  cases filters with
  | nil => simp [String.intercalate]
  | cons f fs =>
    rw [toList_intercalate, List.map_cons, intercalate_cons_eq]
    simp [show ":".toList = [':'] from rfl, hc]

@[simp] theorem splitOn_cons_colon (l : List Char) : (':' :: l).splitOn ':' = [] :: l.splitOn ':' := by
  simp [List.splitOn, List.splitOnP_cons]

@[simp] theorem splitOn_cons_of_ne {c : Char} (hc : c ≠ ':') (l : List Char) :
    (c :: l).splitOn ':' = (l.splitOn ':').modifyHead (c :: ·) := by
  simp [List.splitOn, List.splitOnP_cons, hc]

theorem splitOn_append_of_not_mem {w : List Char} (hw : ':' ∉ w) (l : List Char) :
    (w ++ l).splitOn ':' = (l.splitOn ':').modifyHead (w ++ ·) := by
  induction w with
  | nil => simp only [List.nil_append]; cases l.splitOn ':' <;> rfl
  | cons c w ih =>
    have hc : c ≠ ':' := fun e => hw (e ▸ List.mem_cons_self _ _)
    rw [List.cons_append, splitOn_cons_of_ne hc, ih fun e => hw (List.mem_cons_of_mem _ e)]
    cases l.splitOn ':' <;> simp

/-! ## Identifiers -/

/-- A C++ identifier as `TEST` and the other macros take it, or the name googletest gives a
    parameter or a type: word characters, one or more. -/
structure Identifier where
  val : String
  ne_empty : val.toList ≠ []
  word : ∀ c ∈ val.toList, wordChar c = true

/-- The characters of an identifier. -/
def Identifier.chars (i : Identifier) : List Char := i.val.toList

@[simp] theorem wordChar_slash : wordChar '/' = false := by decide
@[simp] theorem wordChar_dot : wordChar '.' = false := by decide

/-- Word characters and then a separator are split at the separator: two such lists are equal
    only when their words and separators are. -/
theorem word_append_cons_inj {c d : Char} (hc : wordChar c = false) (hd : wordChar d = false)
    {r r' : List Char} :
    ∀ {a b : List Char}, (∀ x ∈ a, wordChar x = true) → (∀ x ∈ b, wordChar x = true) →
      (a ++ c :: r = b ++ d :: r' ↔ a = b ∧ c = d ∧ r = r')
  | [], [], _, _ => by simp
  | [], x :: b, _, hb => by
    have := hb x (List.mem_cons_self _ _)
    simp only [List.nil_append, List.cons_append, List.cons.injEq]
    constructor
    · rintro ⟨rfl, -⟩; simp [hc] at this
    · rintro ⟨h, -⟩; cases h
  | x :: a, [], ha, _ => by
    have := ha x (List.mem_cons_self _ _)
    simp only [List.nil_append, List.cons_append, List.cons.injEq]
    constructor
    · rintro ⟨rfl, -⟩; simp [hd] at this
    · rintro ⟨h, -⟩; cases h
  | x :: a, y :: b, ha, hb => by
    simp only [List.cons_append, List.cons.injEq,
      word_append_cons_inj hc hd (fun z hz => ha z (List.mem_cons_of_mem _ hz))
        (fun z hz => hb z (List.mem_cons_of_mem _ hz))]
    tauto

/-- A separator in a list after word characters `b` and a separator is the one right after `b`
    or a later one. -/
theorem word_append_cons_eq {c d : Char} (hc : wordChar c = false) {r u w : List Char} :
    ∀ {b : List Char}, (∀ x ∈ b, wordChar x = true) →
      (b ++ d :: r = u ++ c :: w ↔
        (u = b ∧ c = d ∧ w = r) ∨ ∃ u', u = b ++ d :: u' ∧ r = u' ++ c :: w)
  | [], _ => by
    cases u with
    | nil => simp [eq_comm]
    | cons x u => simp [eq_comm, and_assoc]
  | y :: b, hb => by
    have hy := hb y (List.mem_cons_self _ _)
    cases u with
    | nil =>
      simp only [List.cons_append, List.nil_append, List.cons.injEq]
      constructor
      · rintro ⟨rfl, -⟩; simp [hc] at hy
      · rintro (⟨h, -⟩ | ⟨u', h, -⟩) <;> cases h
    | cons x u =>
      simp only [List.cons_append, List.cons.injEq,
        word_append_cons_eq hc (fun z hz => hb z (List.mem_cons_of_mem _ hz))]
      constructor
      · rintro ⟨rfl, (⟨rfl, h⟩ | ⟨u', rfl, h⟩)⟩
        · exact .inl ⟨⟨rfl, rfl⟩, h⟩
        · exact .inr ⟨u', ⟨rfl, rfl⟩, h⟩
      · rintro (⟨⟨rfl, rfl⟩, h⟩ | ⟨u', ⟨rfl, rfl⟩, h⟩)
        · exact ⟨rfl, .inl ⟨rfl, h⟩⟩
        · exact ⟨rfl, .inr ⟨u', rfl, h⟩⟩

theorem word_ne_append_cons {c : Char} (hc : wordChar c = false) {b u w : List Char}
    (hb : ∀ x ∈ b, wordChar x = true) : b ≠ u ++ c :: w := by
  rintro rfl
  simp [hb c (by simp)] at hc

namespace Identifier

@[simp] theorem val_toList (i : Identifier) : i.val.toList = i.chars := rfl
@[simp] theorem val_data (i : Identifier) : i.val.data = i.chars := rfl

@[simp] theorem chars_inj {a b : Identifier} : a.chars = b.chars ↔ a = b := by
  constructor
  · intro h
    obtain ⟨a, _, _⟩ := a; obtain ⟨b, _, _⟩ := b
    obtain rfl : a = b := String.ext h
    rfl
  · rintro rfl; rfl

theorem not_special {i : Identifier} {c : Char} (hc : c ∈ i.chars) :
    c ≠ '?' ∧ c ≠ '*' ∧ c ≠ ':' ∧ c ≠ '-' := by
  have := i.word c hc
  refine ⟨?_, ?_, ?_, ?_⟩ <;> rintro rfl <;> simp [wordChar] at this

@[simp] theorem append_cons_inj (a b : Identifier) {c d : Char} (hc : wordChar c = false)
    (hd : wordChar d = false) {r r' : List Char} :
    a.chars ++ c :: r = b.chars ++ d :: r' ↔ a = b ∧ c = d ∧ r = r' := by
  rw [show a.chars ++ c :: r = b.chars ++ d :: r' ↔ a.chars = b.chars ∧ c = d ∧ r = r' from
    word_append_cons_inj hc hd a.word b.word, chars_inj]

@[simp] theorem append_cons_eq (b : Identifier) {c d : Char} (hc : wordChar c = false)
    {r u w : List Char} :
    b.chars ++ d :: r = u ++ c :: w ↔
      (u = b.chars ∧ c = d ∧ w = r) ∨ ∃ u', u = b.chars ++ d :: u' ∧ r = u' ++ c :: w :=
  word_append_cons_eq hc b.word

@[simp] theorem chars_ne_append_cons (b : Identifier) {c : Char} (hc : wordChar c = false)
    {u w : List Char} : b.chars = u ++ c :: w ↔ False :=
  iff_false_intro (word_ne_append_cons hc b.word)

@[simp] theorem append_cons_ne_chars (a b : Identifier) {c : Char} (hc : wordChar c = false)
    {r : List Char} : a.chars ++ c :: r = b.chars ↔ False :=
  iff_false_intro fun h => word_ne_append_cons hc b.word h.symm

@[simp] theorem colon_not_mem (i : Identifier) : ':' ∈ i.chars ↔ False :=
  iff_false_intro fun h => (not_special h).2.2.1 rfl

@[simp] theorem dash_not_mem (i : Identifier) : '-' ∈ i.chars ↔ False :=
  iff_false_intro fun h => (not_special h).2.2.2 rfl

@[simp] theorem splitOn_append (i : Identifier) (l : List Char) :
    (i.chars ++ l).splitOn ':' = (l.splitOn ':').modifyHead (i.chars ++ ·) :=
  splitOn_append_of_not_mem (by simp) l

@[simp] theorem splitOn_chars (i : Identifier) : i.chars.splitOn ':' = [i.chars] :=
  List.splitOnP_eq_single _ _ fun c hc => by simpa using fun e : c = ':' => (not_special hc).2.2.1 e

theorem patternMatches_append (i : Identifier) (p name : List Char) :
    patternMatches (i.chars ++ p) name = true ↔
      ∃ v, name = i.chars ++ v ∧ patternMatches p v = true :=
  patternMatches_append_literal (fun _ hc => ⟨(not_special hc).1, (not_special hc).2.1⟩) p name

theorem patternMatches_append_cons (S : Identifier) {c : Char} (hc : c ≠ '?' ∧ c ≠ '*')
    (p name : List Char) :
    patternMatches (S.chars ++ c :: p) name = true ↔
      ∃ v, name = S.chars ++ c :: v ∧ patternMatches p v = true := by
  rw [patternMatches_append]
  constructor
  · rintro ⟨v, rfl, h⟩
    obtain ⟨v', rfl, h'⟩ := (patternMatches_literal hc.1 hc.2 p v).1 h
    exact ⟨v', rfl, h'⟩
  · rintro ⟨v, rfl, h⟩
    exact ⟨c :: v, rfl, (patternMatches_literal hc.1 hc.2 p _).2 ⟨v, rfl, h⟩⟩

/-- An identifier and a separator at the head of a pattern match those at the head of a name,
    whole. -/
@[simp] theorem patternMatches_append_cons_append_cons (S T : Identifier) {c d : Char}
    (hc : wordChar c = false) (hd : wordChar d = false) (hc' : c ≠ '?' ∧ c ≠ '*')
    (p n : List Char) :
    patternMatches (S.chars ++ c :: p) (T.chars ++ d :: n) = true ↔
      S = T ∧ c = d ∧ patternMatches p n = true := by
  rw [patternMatches_append_cons S hc']
  constructor
  · rintro ⟨v, hv, h⟩
    obtain ⟨rfl, rfl, rfl⟩ := (append_cons_inj T S hd hc).1 hv
    exact ⟨rfl, rfl, h⟩
  · rintro ⟨rfl, rfl, h⟩
    exact ⟨n, rfl, h⟩

@[simp] theorem patternMatches_append_cons_chars (S T : Identifier) {c : Char}
    (hc : wordChar c = false) (hc' : c ≠ '?' ∧ c ≠ '*') (p : List Char) :
    patternMatches (S.chars ++ c :: p) T.chars = true ↔ False := by
  rw [patternMatches_append_cons S hc']
  simp only [iff_false, not_exists, not_and]
  exact fun _ hv => absurd hv (word_ne_append_cons hc T.word)

@[simp] theorem patternMatches_chars_append_cons (S T : Identifier) {d : Char}
    (hd : wordChar d = false) (n : List Char) :
    patternMatches S.chars (T.chars ++ d :: n) = true ↔ False := by
  have := patternMatches_append S [] (T.chars ++ d :: n)
  simp only [List.append_nil, patternMatches_nil, exists_eq_right] at this
  rw [this]
  exact iff_false_intro fun h => word_ne_append_cons hd S.word h.symm

@[simp] theorem patternMatches_chars_chars (S T : Identifier) :
    patternMatches S.chars T.chars = true ↔ S = T := by
  have := patternMatches_append S [] T.chars
  simp only [List.append_nil, patternMatches_nil, exists_eq_right] at this
  rw [this, chars_inj, eq_comm]

/-- A `*` before a separator stops at an occurrence of that separator: the one after the
    identifier at the head of the name, or a later one. -/
@[simp] theorem patternMatches_star_cons_append_cons (T : Identifier) {c d : Char}
    (hc : wordChar c = false) (hc' : c ≠ '?' ∧ c ≠ '*') (p n : List Char) :
    patternMatches ('*' :: c :: p) (T.chars ++ d :: n) = true ↔
      (c = d ∧ patternMatches p n = true) ∨ patternMatches ('*' :: c :: p) n = true := by
  have key : ∀ m, patternMatches ('*' :: c :: p) m = true ↔
      ∃ u v, m = u ++ c :: v ∧ patternMatches p v = true := fun m => by
    rw [patternMatches_star]
    constructor
    · rintro ⟨u, v, rfl, h⟩
      obtain ⟨v', rfl, h'⟩ := (patternMatches_literal hc'.1 hc'.2 p v).1 h
      exact ⟨u, v', rfl, h'⟩
    · rintro ⟨u, v, rfl, h⟩
      exact ⟨u, c :: v, rfl, (patternMatches_literal hc'.1 hc'.2 p _).2 ⟨v, rfl, h⟩⟩
  rw [key, key]
  constructor
  · rintro ⟨u, v, hu, h⟩
    rcases (append_cons_eq T hc).1 hu with ⟨rfl, rfl, rfl⟩ | ⟨u', rfl, rfl⟩
    · exact .inl ⟨rfl, h⟩
    · exact .inr ⟨u', v, rfl, h⟩
  · rintro (⟨rfl, h⟩ | ⟨u, v, rfl, h⟩)
    · exact ⟨T.chars, n, rfl, h⟩
    · exact ⟨T.chars ++ d :: u, v, by simp, h⟩

@[simp] theorem patternMatches_star_cons_chars (T : Identifier) {c : Char}
    (hc : wordChar c = false) (hc' : c ≠ '?' ∧ c ≠ '*') (p : List Char) :
    patternMatches ('*' :: c :: p) T.chars = true ↔ False := by
  simp only [patternMatches_star, iff_false, not_exists, not_and]
  intro u v hu h
  obtain ⟨v', rfl, -⟩ := (patternMatches_literal hc'.1 hc'.2 p v).1 h
  exact word_ne_append_cons hc T.word hu

end Identifier

/-! ## Test names -/

/-- A test googletest runs, by the macro that defines it. -/
inductive Test where
  /-- `TEST(Suite, Case)` or `TEST_F(Suite, Case)`. -/
  | plain (suite case : Identifier)
  /-- `TEST_P(Suite, Case)`, instantiated by `INSTANTIATE_TEST_SUITE_P(Instantiation, Suite, ...)`
      with the parameter named `param`; `none` for an instantiation named `""`. -/
  | valueParameterized (instantiation : Option Identifier) (suite case param : Identifier)
  /-- `TYPED_TEST(Suite, Case)` for the type named `param`. -/
  | typed (suite case param : Identifier)
  /-- `TYPED_TEST_P(Suite, Case)`, instantiated by
      `INSTANTIATE_TYPED_TEST_SUITE_P(Instantiation, Suite, ...)` for the type named `param`. -/
  | typeParameterized (instantiation : Option Identifier) (suite case param : Identifier)

/-- `Instantiation/`, or nothing for an instantiation named `""`. -/
def instantiationPrefix : Option Identifier → List Char
  | none => []
  | some i => i.chars ++ ['/']

/-- The full name `--gtest_filter` matches: the test suite's name, `.` and the test's name. -/
def Test.fullName : Test → List Char
  | .plain s c => s.chars ++ '.' :: c.chars
  | .valueParameterized i s c p =>
    instantiationPrefix i ++ s.chars ++ '.' :: c.chars ++ '/' :: p.chars
  | .typed s c p => s.chars ++ '/' :: p.chars ++ '.' :: c.chars
  | .typeParameterized i s c p =>
    instantiationPrefix i ++ s.chars ++ '/' :: p.chars ++ '.' :: c.chars

/-- The suite a test belongs to. -/
def Test.suite : Test → Identifier
  | .plain s _ | .valueParameterized _ s _ _ | .typed s _ _ | .typeParameterized _ s _ _ => s

/-- `TYPED_TEST` and `TYPED_TEST_P`. -/
def Test.isTyped : Test → Bool
  | .typed .. | .typeParameterized .. => true
  | .plain .. | .valueParameterized .. => false

/-- `TEST_P` and `TYPED_TEST_P`, the tests an instantiation names. -/
def Test.isParameterized : Test → Bool
  | .valueParameterized .. | .typeParameterized .. => true
  | .plain .. | .typed .. => false

/-- The name of the instantiation of a parameterized test. -/
def Test.instantiation : Test → Option Identifier
  | .valueParameterized i .. | .typeParameterized i .. => i
  | .plain .. | .typed .. => none

@[simp] theorem instantiationPrefix_none : instantiationPrefix none = [] := rfl
@[simp] theorem instantiationPrefix_some (i : Identifier) :
    instantiationPrefix (some i) = i.chars ++ ['/'] := rfl

end CrosIde.Gtest
