import Mathlib.Data.List.Chain

/-!
# The ECMAScript pattern semantics, for the patterns the extension writes

The OWNERS link provider (`owners_links.ts:91-115`) computes its links with two regular
expression literals, and what it computes is what ECMAScript's backtracking semantics of
patterns makes of them. This module renders that semantics for the fragment the two literals
use: character classes, greedy `*` and `+` over a class, sequence, alternation, capturing
groups, `^` and `$` with and without the multiline flag, and a lookahead of one character.

`Regex.m` is ECMAScript's Matcher in continuation-passing style: a pattern is run on a
`MatchState` with a continuation, an alternative is tried only when the one before it has
failed with every continuation, and a greedy repetition first tries one more character.
`Regex.exec` is `RegExpBuiltinExec` (try each index from `lastIndex` on), `Regex.matchAll` is
the iterator `String.prototype.matchAll` returns for a global pattern, and
`Regex.replaceEmpty` is `String.prototype.replace` with a non-global pattern and the
replacement `''`.

Over it, `Regex.Matches` says which end states a pattern can reach from a state, with no
order among them. `m_sound` and `m_complete` connect the two: the matcher returns only ends
the relation allows, and it fails only when there is none. The input is a list of Unicode
characters; JavaScript indexes UTF-16 code units, and the two agree on text without
characters beyond the Basic Multilingual Plane.
-/

namespace CrosIde.RegExp

/-- `\s`: the WhiteSpace and LineTerminator code points. -/
def isSpace (c : Char) : Bool :=
  [0x09, 0x0a, 0x0b, 0x0c, 0x0d, 0x20, 0xa0, 0x1680, 0x2028, 0x2029, 0x202f, 0x205f, 0x3000,
    0xfeff].contains c.toNat || (0x2000 ≤ c.toNat && c.toNat ≤ 0x200a)

/-- LineTerminator: where `^` and `$` see a line break in multiline mode, and what `.` does
    not match. -/
def isLineTerminator (c : Char) : Bool := [0x0a, 0x0d, 0x2028, 0x2029].contains c.toNat

/-- ECMAScript's MatchState: the end index of the text matched so far, the character before it,
    the input from there on, and what each group has captured. -/
structure MatchState where
  endIndex : Nat
  prev : Option Char
  rest : List Char
  captures : Nat → Option (Nat × Nat)

namespace MatchState

/-- The state where an attempt at index `i` of `input` starts: no group has captured. -/
def init (input : List Char) (i : Nat) : MatchState :=
  ⟨i, (input.take i).getLast?, input.drop i, fun _ => none⟩

/-- The state once `c`, the next character, is consumed. -/
def consume (s : MatchState) (c : Char) : MatchState :=
  ⟨s.endIndex + 1, some c, s.rest.tail, s.captures⟩

/-- The state once group `n`, opened at `start`, closes here. -/
def capture (s : MatchState) (n start : Nat) : MatchState :=
  { s with captures := fun j => if j = n then some (start, s.endIndex) else s.captures j }

@[simp] theorem consume_endIndex (s : MatchState) (c : Char) :
    (s.consume c).endIndex = s.endIndex + 1 := rfl
@[simp] theorem consume_prev (s : MatchState) (c : Char) : (s.consume c).prev = some c := rfl
@[simp] theorem consume_rest (s : MatchState) (c : Char) : (s.consume c).rest = s.rest.tail :=
  rfl
@[simp] theorem consume_captures (s : MatchState) (c : Char) :
    (s.consume c).captures = s.captures := rfl
@[simp] theorem capture_endIndex (s : MatchState) (n start : Nat) :
    (s.capture n start).endIndex = s.endIndex := rfl
@[simp] theorem capture_prev (s : MatchState) (n start : Nat) :
    (s.capture n start).prev = s.prev := rfl
@[simp] theorem capture_rest (s : MatchState) (n start : Nat) :
    (s.capture n start).rest = s.rest := rfl
@[simp] theorem capture_captures (s : MatchState) (n start j : Nat) :
    (s.capture n start).captures j = if j = n then some (start, s.endIndex) else s.captures j :=
  rfl

/-- The state once the characters `w`, the next ones, are consumed. -/
def advance (s : MatchState) (w : List Char) : MatchState := w.foldl consume s

@[simp] theorem advance_nil (s : MatchState) : s.advance [] = s := rfl
theorem advance_cons (s : MatchState) (c : Char) (w : List Char) :
    s.advance (c :: w) = (s.consume c).advance w := rfl

@[simp] theorem advance_endIndex (s : MatchState) (w : List Char) :
    (s.advance w).endIndex = s.endIndex + w.length := by
  induction w generalizing s with
  | nil => rfl
  | cons c w ih => rw [advance_cons, ih]; simp; omega

@[simp] theorem advance_captures (s : MatchState) (w : List Char) :
    (s.advance w).captures = s.captures := by
  induction w generalizing s with
  | nil => rfl
  | cons c w ih => rw [advance_cons, ih]; rfl

theorem advance_rest {s : MatchState} {w r : List Char} (h : s.rest = w ++ r) :
    (s.advance w).rest = r := by
  induction w generalizing s with
  | nil => simpa using h
  | cons c w ih => exact ih (by simp [h])

theorem advance_append (s : MatchState) (w₁ w₂ : List Char) :
    s.advance (w₁ ++ w₂) = (s.advance w₁).advance w₂ := List.foldl_append _ _ _ _

end MatchState

/-- A pattern of the fragment. -/
inductive Regex where
  /-- One character of a class: a literal character, `[...]`, `.` or `\s`. -/
  | char (p : Char → Bool)
  /-- `[...]*`: greedy repetition of a class. -/
  | star (p : Char → Bool)
  /-- One pattern after the other. -/
  | seq (r₁ r₂ : Regex)
  /-- `r₁|r₂`. -/
  | alt (r₁ r₂ : Regex)
  /-- `(...)` or `(?<name>...)`, group `n` in the order of the opening parentheses. -/
  | group (n : Nat) (r : Regex)
  /-- `^`; in multiline mode it also matches after a line terminator. -/
  | lineStart (multiline : Bool)
  /-- `$`; in multiline mode it also matches before a line terminator. -/
  | lineEnd (multiline : Bool)
  /-- `(?=[...])`: the next character is of the class, and nothing is consumed. -/
  | ahead (p : Char → Bool)
  /-- The empty alternative. -/
  | empty

namespace Regex

/-- `[...]+`: RepeatMatcher with minimum 1, one character of the class and then a greedy
    `[...]*`. -/
def plus (p : Char → Bool) : Regex := .seq (.char p) (.star p)

/-- A literal word, one character after the other. -/
def word : List Char → Regex
  | [] => .empty
  | c :: w => .seq (.char (· == c)) (word w)

end Regex

/-- Where `^` matches: at index 0, and in multiline mode after a line terminator. -/
def atLineStart (multiline : Bool) (s : MatchState) : Bool :=
  s.endIndex == 0 || multiline && s.prev.any isLineTerminator

/-- Where `$` matches, before `rest`: at the end of the input, and in multiline mode before a
    line terminator. -/
def endsLine (multiline : Bool) : List Char → Bool
  | [] => true
  | c :: _ => multiline && isLineTerminator c

/-- RepeatMatcher for a greedy `*` over a class, at the state `⟨e, prev, rest, caps⟩`: it
    consumes one more character of the class if the rest of the match then succeeds, and
    otherwise continues where it stands. -/
def starM (p : Char → Bool) (k : MatchState → Option MatchState) (e : Nat) (prev : Option Char)
    (caps : Nat → Option (Nat × Nat)) : List Char → Option MatchState
  | [] => k ⟨e, prev, [], caps⟩
  | c :: cs =>
    (if p c then starM p k (e + 1) (some c) caps cs else none).or (k ⟨e, prev, c :: cs, caps⟩)

namespace Regex

/-- The matcher of a pattern: run it from `s`, passing each end it reaches, in the order of
    ECMAScript's backtracking, to the continuation `k` until `k` succeeds. -/
def m : Regex → MatchState → (MatchState → Option MatchState) → Option MatchState
  | .char p, s, k =>
    match s.rest with
    | c :: _ => if p c then k (s.consume c) else none
    | [] => none
  | .star p, s, k => starM p k s.endIndex s.prev s.captures s.rest
  | .seq r₁ r₂, s, k => r₁.m s fun t => r₂.m t k
  | .alt r₁ r₂, s, k => (r₁.m s k).or (r₂.m s k)
  | .group n r, s, k => r.m s fun t => k (t.capture n s.endIndex)
  | .lineStart ml, s, k => if atLineStart ml s then k s else none
  | .lineEnd ml, s, k => if endsLine ml s.rest then k s else none
  | .ahead p, s, k => if s.rest.head?.any p then k s else none
  | .empty, s, k => k s

/-- The matcher run at index `i` with the continuation that accepts, as `RegExpBuiltinExec`
    calls `matcher(input, lastIndex)`. -/
def matchAt (r : Regex) (input : List Char) (i : Nat) : Option MatchState :=
  r.m (.init input i) some

/-- `RegExpBuiltinExec`: try `lastIndex`, `lastIndex + 1`, … up to the length of the input;
    the first index where the matcher succeeds gives the match, with its end state. -/
def exec (r : Regex) (input : List Char) (lastIndex : Nat) : Option (Nat × MatchState) :=
  (List.range' lastIndex (input.length + 1 - lastIndex)).findSome? fun i =>
    (r.matchAt input i).map (i, ·)

/-- The index from which a global pattern searches again after a match: its end, or one
    further when the match is empty. -/
def nextIndex (i : Nat) (t : MatchState) : Nat :=
  if t.endIndex = i then t.endIndex + 1 else t.endIndex

/-- The matches the iterator of `String.prototype.matchAll` yields for a global pattern, from
    `lastIndex` on, for at most `fuel` matches. -/
def matchAllFrom (r : Regex) (input : List Char) : Nat → Nat → List (Nat × MatchState)
  | 0, _ => []
  | fuel + 1, lastIndex =>
    match r.exec input lastIndex with
    | none => []
    | some (i, t) => (i, t) :: r.matchAllFrom input fuel (nextIndex i t)

/-- `input.matchAll(r)` for a global pattern whose `lastIndex` is 0. Each match starts later
    than the one before, so `input.length + 1` matches are as many as there can be
    (`matchAllFrom_fuel`). -/
def matchAll (r : Regex) (input : List Char) : List (Nat × MatchState) :=
  r.matchAllFrom input (input.length + 1) 0

/-- `input.replace(r, '')` for a non-global pattern: the first match is cut out. -/
def replaceEmpty (r : Regex) (input : List Char) : List Char :=
  match r.exec input 0 with
  | none => input
  | some (i, t) => input.take i ++ input.drop t.endIndex

end Regex

/-! ## What a pattern can match -/

/-- The ends a greedy `*` over a class can reach: any number of characters of the class. -/
inductive StarMatches (p : Char → Bool) : MatchState → MatchState → Prop
  | done (s : MatchState) : StarMatches p s s
  | more {s t : MatchState} {c : Char} :
    s.rest.head? = some c → p c → StarMatches p (s.consume c) t → StarMatches p s t

namespace Regex

/-- The end states a pattern can reach from `s`, whichever the matcher tries first. -/
def Matches : Regex → MatchState → MatchState → Prop
  | .char p, s, t => ∃ c, s.rest.head? = some c ∧ p c ∧ t = s.consume c
  | .star p, s, t => StarMatches p s t
  | .seq r₁ r₂, s, u => ∃ t, r₁.Matches s t ∧ r₂.Matches t u
  | .alt r₁ r₂, s, t => r₁.Matches s t ∨ r₂.Matches s t
  | .group n r, s, t => ∃ t', r.Matches s t' ∧ t = t'.capture n s.endIndex
  | .lineStart ml, s, t => atLineStart ml s ∧ t = s
  | .lineEnd ml, s, t => endsLine ml s.rest ∧ t = s
  | .ahead p, s, t => s.rest.head?.any p ∧ t = s
  | .empty, s, t => t = s

@[simp] theorem matches_star {p : Char → Bool} {s t : MatchState} :
    (star p).Matches s t ↔ StarMatches p s t := Iff.rfl
@[simp] theorem matches_seq {r₁ r₂ : Regex} {s u : MatchState} :
    (seq r₁ r₂).Matches s u ↔ ∃ t, r₁.Matches s t ∧ r₂.Matches t u := Iff.rfl
@[simp] theorem matches_alt {r₁ r₂ : Regex} {s t : MatchState} :
    (alt r₁ r₂).Matches s t ↔ r₁.Matches s t ∨ r₂.Matches s t := Iff.rfl
@[simp] theorem matches_group {n : Nat} {r : Regex} {s t : MatchState} :
    (group n r).Matches s t ↔ ∃ t', r.Matches s t' ∧ t = t'.capture n s.endIndex := Iff.rfl
@[simp] theorem matches_lineStart {ml : Bool} {s t : MatchState} :
    (lineStart ml).Matches s t ↔ atLineStart ml s ∧ t = s := Iff.rfl
@[simp] theorem matches_lineEnd {ml : Bool} {s t : MatchState} :
    (lineEnd ml).Matches s t ↔ endsLine ml s.rest ∧ t = s := Iff.rfl
@[simp] theorem matches_empty {s t : MatchState} : empty.Matches s t ↔ t = s := Iff.rfl

end Regex

theorem starM_sound {p : Char → Bool} {k : MatchState → Option MatchState} {x : MatchState} :
    ∀ {rest : List Char} {e : Nat} {prev : Option Char} {caps : Nat → Option (Nat × Nat)},
      starM p k e prev caps rest = some x →
        ∃ t, StarMatches p ⟨e, prev, rest, caps⟩ t ∧ k t = some x
  | [], _, _, _, h => ⟨_, .done _, h⟩
  | c :: cs, e, prev, caps, h => by
    rcases Option.or_eq_some.1 h with h | ⟨-, h⟩
    · by_cases hc : p c
      · rw [if_pos hc] at h
        obtain ⟨t, ht, hk⟩ := starM_sound h
        exact ⟨t, .more rfl hc ht, hk⟩
      · rw [if_neg hc] at h; cases h
    · exact ⟨_, .done _, h⟩

theorem starM_complete {p : Char → Bool} {k : MatchState → Option MatchState} {s t : MatchState}
    (h : StarMatches p s t) {x : MatchState} (hk : k t = some x) :
    (starM p k s.endIndex s.prev s.captures s.rest).isSome := by
  induction h with
  | done s =>
    obtain ⟨e, prev, rest, caps⟩ := s
    cases rest <;> simp [starM, hk]
  | @more s t c hr hc _ ih =>
    obtain ⟨e, prev, rest, caps⟩ := s
    cases rest with
    | nil => cases hr
    | cons c' cs =>
      obtain rfl : c' = c := by simpa using hr
      obtain ⟨y, hy⟩ := Option.isSome_iff_exists.1 (ih hk)
      simp only [starM, if_pos hc]
      exact Option.isSome_iff_exists.2 ⟨y, Option.or_eq_some.2 (.inl hy)⟩

namespace Regex

/-- The matcher only returns what its continuation returns at an end the pattern can reach. -/
theorem m_sound : ∀ (r : Regex) {s : MatchState} {k : MatchState → Option MatchState}
    {x : MatchState}, r.m s k = some x → ∃ t, r.Matches s t ∧ k t = some x
  | .char p, s, k, x, h => by
    simp only [m] at h
    split at h
    · rename_i c _ hr
      by_cases hc : p c
      · rw [if_pos hc] at h; exact ⟨_, ⟨c, by simp [hr], hc, rfl⟩, h⟩
      · rw [if_neg hc] at h; cases h
    · cases h
  | .star p, s, k, x, h => starM_sound h
  | .seq r₁ r₂, s, k, x, h => by
    obtain ⟨t, h₁, h⟩ := m_sound r₁ h
    obtain ⟨u, h₂, h⟩ := m_sound r₂ h
    exact ⟨u, ⟨t, h₁, h₂⟩, h⟩
  | .alt r₁ r₂, s, k, x, h => by
    rcases Option.or_eq_some.1 h with h | ⟨-, h⟩
    · obtain ⟨t, ht, h⟩ := m_sound r₁ h; exact ⟨t, .inl ht, h⟩
    · obtain ⟨t, ht, h⟩ := m_sound r₂ h; exact ⟨t, .inr ht, h⟩
  | .group n r, s, k, x, h => by
    obtain ⟨t, ht, h⟩ := m_sound r h
    exact ⟨_, ⟨t, ht, rfl⟩, h⟩
  | .lineStart ml, s, k, x, h | .lineEnd ml, s, k, x, h | .ahead _, s, k, x, h => by
    simp only [m] at h
    split at h
    · exact ⟨s, ⟨‹_›, rfl⟩, h⟩
    · cases h
  | .empty, s, k, x, h => ⟨s, rfl, h⟩

/-- The matcher fails only when no end the pattern can reach satisfies the continuation. -/
theorem m_complete : ∀ (r : Regex) {s t : MatchState} {k : MatchState → Option MatchState}
    {x : MatchState}, r.Matches s t → k t = some x → (r.m s k).isSome
  | .char p, s, t, k, x, ⟨c, hr, hc, ht⟩, hk => by
    subst ht
    obtain ⟨e, prev, rest, caps⟩ := s
    cases rest with
    | nil => cases hr
    | cons c' cs => cases hr; simp [m, hc, hk]
  | .star p, s, t, k, x, h, hk => starM_complete h hk
  | .seq r₁ r₂, s, u, k, x, ⟨t, h₁, h₂⟩, hk => by
    obtain ⟨y, hy⟩ := Option.isSome_iff_exists.1 (m_complete r₂ h₂ hk)
    exact m_complete r₁ h₁ hy
  | .alt r₁ r₂, s, t, k, x, h, hk => by
    rcases h with h | h
    · obtain ⟨y, hy⟩ := Option.isSome_iff_exists.1 (m_complete r₁ h hk)
      simp [m, hy]
    · obtain ⟨y, hy⟩ := Option.isSome_iff_exists.1 (m_complete r₂ h hk)
      cases h₁ : r₁.m s k <;> simp [m, h₁, hy]
  | .group n r, s, t, k, x, ⟨t', h, ht⟩, hk => m_complete r h (ht ▸ hk)
  | .lineStart ml, s, t, k, x, ⟨ha, ht⟩, hk | .lineEnd ml, s, t, k, x, ⟨ha, ht⟩, hk
  | .ahead _, s, t, k, x, ⟨ha, ht⟩, hk => by
    subst ht; simp [m, ha, hk]
  | .empty, s, t, k, x, ht, hk => by subst ht; simp [m, hk]

end Regex

/-! ## What a match consumes -/

theorem MatchState.rest_eq_cons {s : MatchState} {c : Char} (h : s.rest.head? = some c) :
    s.rest = [c] ++ (s.consume c).rest := by
  obtain ⟨cs, hcs⟩ := List.head?_eq_some_iff.1 h
  simp [hcs]

theorem starMatches_iff {p : Char → Bool} {s t : MatchState} :
    StarMatches p s t ↔ ∃ w, (∀ c ∈ w, p c) ∧ s.rest = w ++ t.rest ∧ t = s.advance w := by
  constructor
  · intro h
    induction h with
    | done s => exact ⟨[], by simp, rfl, rfl⟩
    | @more s t c hr hc _ ih =>
      obtain ⟨w, hw, hr', rfl⟩ := ih
      exact ⟨c :: w, List.forall_mem_cons.2 ⟨hc, hw⟩, by rw [MatchState.rest_eq_cons hr, hr']; rfl,
        rfl⟩
  · rintro ⟨w, hw, hr, rfl⟩
    induction w generalizing s with
    | nil => exact .done s
    | cons c w ih =>
      obtain ⟨hc, hw⟩ := List.forall_mem_cons.1 hw
      exact .more (by simp [hr]) hc (ih hw (by simp [hr, MatchState.advance_cons]))

namespace Regex

theorem matches_char {p : Char → Bool} {s t : MatchState} :
    (char p).Matches s t ↔ ∃ c, p c ∧ s.rest = [c] ++ t.rest ∧ t = s.advance [c] := by
  simp only [Matches, List.head?_eq_some_iff, MatchState.advance_cons, MatchState.advance_nil,
    List.singleton_append]
  constructor
  · rintro ⟨c, ⟨r, hr⟩, hc, rfl⟩; exact ⟨c, hc, by simp [hr], rfl⟩
  · rintro ⟨c, hc, hr, rfl⟩; exact ⟨c, ⟨_, hr⟩, hc, rfl⟩

theorem matches_plus {p : Char → Bool} {s t : MatchState} :
    (plus p).Matches s t ↔ ∃ w, w ≠ [] ∧ (∀ c ∈ w, p c) ∧ s.rest = w ++ t.rest ∧
      t = s.advance w := by
  show (∃ u, (char p).Matches s u ∧ StarMatches p u t) ↔ _
  simp only [matches_char, starMatches_iff]
  constructor
  · rintro ⟨u, ⟨c, hc, hr, rfl⟩, w, hw, hr', rfl⟩
    exact ⟨c :: w, List.cons_ne_nil _ _, List.forall_mem_cons.2 ⟨hc, hw⟩,
      by rw [hr, hr']; rfl, (MatchState.advance_append _ _ _).symm⟩
  · rintro ⟨_ | ⟨c, w⟩, hne, hw, hr, rfl⟩
    · exact absurd rfl hne
    · obtain ⟨hc, hw⟩ := List.forall_mem_cons.1 hw
      have h₁ : (s.advance [c]).rest = w ++ (s.advance (c :: w)).rest :=
        MatchState.advance_rest (show s.rest = [c] ++ (w ++ _) from hr)
      exact ⟨s.advance [c], ⟨c, hc, by rw [h₁]; exact hr, rfl⟩, w, hw, h₁,
        MatchState.advance_append s [c] w⟩

theorem matches_word {s t : MatchState} :
    ∀ w : List Char, (word w).Matches s t ↔ s.rest = w ++ t.rest ∧ t = s.advance w
  | [] => by
    simp only [word, Matches, List.nil_append, MatchState.advance_nil]
    exact ⟨fun h => ⟨h ▸ rfl, h⟩, fun h => h.2⟩
  | c :: w => by
    show (∃ u, (char (· == c)).Matches s u ∧ (word w).Matches u t) ↔ _
    simp only [matches_char, matches_word w]
    constructor
    · rintro ⟨u, ⟨c', hc, hr, rfl⟩, hr', rfl⟩
      obtain rfl : c' = c := by simpa using hc
      exact ⟨by rw [hr, hr']; rfl, (MatchState.advance_append _ _ _).symm⟩
    · rintro ⟨hr, rfl⟩
      have h₁ : (s.advance [c]).rest = w ++ (s.advance (c :: w)).rest :=
        MatchState.advance_rest (show s.rest = [c] ++ (w ++ _) from hr)
      exact ⟨s.advance [c], ⟨c, by simp, by rw [h₁]; exact hr, rfl⟩, h₁,
        MatchState.advance_append s [c] w⟩

/-- A match consumes the characters between its two states, and moves `endIndex` over them. -/
theorem Matches.consumes : ∀ {r : Regex} {s t : MatchState}, r.Matches s t →
    ∃ w, s.rest = w ++ t.rest ∧ t.endIndex = s.endIndex + w.length
  | .char _, s, _, h => by
    obtain ⟨c, -, hr, rfl⟩ := matches_char.1 h
    exact ⟨[c], hr, rfl⟩
  | .star _, s, _, h => by
    obtain ⟨w, -, hr, rfl⟩ := starMatches_iff.1 h
    exact ⟨w, hr, MatchState.advance_endIndex _ _⟩
  | .seq _ _, _, _, ⟨_, h₁, h₂⟩ => by
    obtain ⟨w₁, h₁, e₁⟩ := h₁.consumes
    obtain ⟨w₂, h₂, e₂⟩ := h₂.consumes
    exact ⟨w₁ ++ w₂, by rw [h₁, h₂, List.append_assoc], by simp [e₁, e₂]; omega⟩
  | .alt _ _, _, _, .inl h | .alt _ _, _, _, .inr h => h.consumes
  | .group _ _, _, _, ⟨_, h, rfl⟩ => h.consumes
  | .lineStart _, _, _, ⟨_, rfl⟩ | .lineEnd _, _, _, ⟨_, rfl⟩ | .ahead _, _, _, ⟨_, rfl⟩
  | .empty, _, _, rfl => ⟨[], rfl, rfl⟩

/-- A successful attempt at `i` ends at or after `i`, and within the input when `i` is. -/
theorem matchAt_endIndex {r : Regex} {input : List Char} {i : Nat} {t : MatchState}
    (h : r.matchAt input i = some t) (hi : i ≤ input.length) :
    i ≤ t.endIndex ∧ t.endIndex ≤ input.length := by
  obtain ⟨t', ht', hk⟩ := m_sound r h
  cases hk
  obtain ⟨w, hw, he⟩ := ht'.consumes
  have hlen := congrArg List.length hw
  simp only [MatchState.init, List.length_drop, List.length_append] at hlen he
  omega

/-! ## Scanning -/

theorem exec_of_le {r : Regex} {input : List Char} {i : Nat} (h : i ≤ input.length) :
    r.exec input i = ((r.matchAt input i).map (i, ·)).or (r.exec input (i + 1)) := by
  rw [exec, show input.length + 1 - i = input.length - i + 1 by omega, List.range'_succ,
    List.findSome?_cons, exec, show input.length + 1 - (i + 1) = input.length - i by omega]
  cases r.matchAt input i <;> rfl

theorem exec_of_lt {r : Regex} {input : List Char} {i : Nat} (h : input.length < i) :
    r.exec input i = none := by
  simp [exec, show input.length + 1 - i = 0 by omega]

/-- The match `exec` finds from `lastIndex` is the first index from there where an attempt
    succeeds. -/
theorem exec_eq_some {r : Regex} {input : List Char} {i j : Nat} {t : MatchState}
    (h : r.exec input i = some (j, t)) :
    i ≤ j ∧ j ≤ input.length ∧ r.matchAt input j = some t ∧
      ∀ j', i ≤ j' → j' < j → r.matchAt input j' = none := by
  by_cases hi : i ≤ input.length
  · rw [exec_of_le hi] at h
    cases hm : r.matchAt input i with
    | some t' =>
      obtain ⟨rfl, rfl⟩ : i = j ∧ t' = t := by simpa [hm] using h
      exact ⟨le_rfl, hi, hm, fun _ _ _ => by omega⟩
    | none =>
      obtain ⟨h₁, h₂, h₃, h₄⟩ := exec_eq_some (by simpa [hm] using h)
      refine ⟨by omega, h₂, h₃, fun j' hj hj' => ?_⟩
      rcases Nat.eq_or_lt_of_le hj with rfl | hj
      · exact hm
      · exact h₄ j' hj hj'
  · rw [exec_of_lt (by omega)] at h; cases h
termination_by input.length + 1 - i

theorem exec_eq_none {r : Regex} {input : List Char} {i : Nat}
    (h : ∀ j, i ≤ j → j ≤ input.length → r.matchAt input j = none) : r.exec input i = none := by
  cases he : r.exec input i with
  | none => rfl
  | some m =>
    obtain ⟨hij, hj, hm, -⟩ := exec_eq_some he
    rw [h _ hij hj] at hm; cases hm

/-- Every match `matchAll` yields is a successful attempt. -/
theorem mem_matchAll {r : Regex} {input : List Char} {j : Nat} {t : MatchState}
    (h : (j, t) ∈ r.matchAll input) : r.matchAt input j = some t := by
  suffices ∀ fuel i, (j, t) ∈ r.matchAllFrom input fuel i → r.matchAt input j = some t from
    this _ _ h
  intro fuel
  induction fuel with
  | zero => intro i h; cases h
  | succ fuel ih =>
    intro i h
    simp only [matchAllFrom] at h
    split at h
    · cases h
    · rename_i j' t' he
      rcases List.mem_cons.1 h with h | h
      · obtain ⟨rfl, rfl⟩ := Prod.mk.inj h
        exact (exec_eq_some he).2.2.1
      · exact ih _ h

/-- The successful attempts from `i` on, in order. -/
def attempts (r : Regex) (input : List Char) (i : Nat) : List (Nat × MatchState) :=
  (List.range' i (input.length + 1 - i)).filterMap fun j => (r.matchAt input j).map (j, ·)

theorem attempts_of_le {r : Regex} {input : List Char} {i : Nat} (h : i ≤ input.length) :
    r.attempts input i = ((r.matchAt input i).map (i, ·)).toList ++ r.attempts input (i + 1) := by
  rw [attempts, show input.length + 1 - i = input.length - i + 1 by omega, List.range'_succ,
    List.filterMap_cons, attempts, show input.length + 1 - (i + 1) = input.length - i by omega]
  cases r.matchAt input i <;> rfl

theorem attempts_of_lt {r : Regex} {input : List Char} {i : Nat} (h : input.length < i) :
    r.attempts input i = [] := by
  simp [attempts, show input.length + 1 - i = 0 by omega]

theorem attempts_of_exec_none {r : Regex} {input : List Char} {i : Nat}
    (h : r.exec input i = none) : r.attempts input i = [] := by
  by_cases hi : i ≤ input.length
  · rw [exec_of_le hi, Option.or_eq_none] at h
    rw [attempts_of_le hi, Option.map_eq_none'.1 h.1, attempts_of_exec_none h.2]; rfl
  · exact attempts_of_lt (by omega)
termination_by input.length + 1 - i

theorem attempts_of_exec_some {r : Regex} {input : List Char} {i j : Nat} {t : MatchState}
    (h : r.exec input i = some (j, t)) :
    r.attempts input i = (j, t) :: r.attempts input (j + 1) := by
  by_cases hi : i ≤ input.length
  · rw [exec_of_le hi] at h
    rw [attempts_of_le hi]
    cases hm : r.matchAt input i with
    | some t' =>
      obtain ⟨rfl, rfl⟩ : i = j ∧ t' = t := by simpa [hm] using h
      rfl
    | none => simpa using attempts_of_exec_some (by simpa [hm] using h)
  · rw [exec_of_lt (by omega)] at h; cases h
termination_by input.length + 1 - i

theorem attempts_skip {r : Regex} {input : List Char} {i e : Nat} (hie : i ≤ e)
    (h : ∀ j, i ≤ j → j < e → r.matchAt input j = none) :
    r.attempts input i = r.attempts input e := by
  by_cases hi : i < e
  · by_cases hl : i ≤ input.length
    · rw [attempts_of_le hl, h i le_rfl hi, attempts_skip hi fun j hj hj' => h j (by omega) hj']
      rfl
    · rw [attempts_of_lt (by omega), attempts_of_lt (by omega)]
  · rw [show i = e by omega]
termination_by e - i

/-- When no attempt succeeds at an index strictly inside a match, `matchAll` yields the
    successful attempt at every index. -/
theorem matchAll_eq_attempts {r : Regex} {input : List Char}
    (hr : ∀ j t, j ≤ input.length → r.matchAt input j = some t →
      j < t.endIndex ∧ ∀ j', j < j' → j' < t.endIndex → r.matchAt input j' = none) :
    r.matchAll input = r.attempts input 0 := by
  suffices ∀ fuel i, input.length + 1 - i ≤ fuel → r.matchAllFrom input fuel i = r.attempts input i
    from this _ _ (by omega)
  intro fuel
  induction fuel with
  | zero => intro i hi; rw [attempts_of_lt (by omega)]; rfl
  | succ fuel ih =>
    intro i hi
    simp only [matchAllFrom]
    split
    · rename_i h; exact (attempts_of_exec_none h).symm
    · rename_i j t h
      obtain ⟨hij, hj, hm, -⟩ := exec_eq_some h
      obtain ⟨hlt, hskip⟩ := hr j t hj hm
      have hend := (matchAt_endIndex hm hj).2
      rw [attempts_of_exec_some h, nextIndex, if_neg (by omega), ih _ (by omega),
        attempts_skip hlt hskip]

/-- A match moves `lastIndex` forward: the next search starts after the match's start. -/
theorem lt_nextIndex {i : Nat} {t : MatchState} (h : i ≤ t.endIndex) : i < nextIndex i t := by
  unfold nextIndex; split <;> omega

/-- The iterator yields at most `input.length + 1 - lastIndex` matches: more fuel changes
    nothing. -/
theorem matchAllFrom_fuel {r : Regex} {input : List Char} :
    ∀ fuel fuel' i : Nat, input.length + 1 - i ≤ fuel → input.length + 1 - i ≤ fuel' →
      r.matchAllFrom input fuel i = r.matchAllFrom input fuel' i
  | 0, fuel', i, h, _ | fuel', 0, i, _, h => by
    cases fuel' <;> simp [matchAllFrom, exec_of_lt (show input.length < i by omega)]
  | fuel + 1, fuel' + 1, i, h, h' => by
    simp only [matchAllFrom]
    split
    · rfl
    · rename_i j t he
      obtain ⟨hij, hj, hm, -⟩ := exec_eq_some he
      have := lt_nextIndex (matchAt_endIndex hm hj).1
      rw [matchAllFrom_fuel fuel fuel' _ (by omega) (by omega)]

/-! ## The `exec` loop -/

/-- The fewest characters a match of the pattern consumes. -/
def minLen : Regex → Nat
  | .char _ => 1
  | .seq r₁ r₂ => r₁.minLen + r₂.minLen
  | .alt r₁ r₂ => min r₁.minLen r₂.minLen
  | .group _ r => r.minLen
  | .star _ | .lineStart _ | .lineEnd _ | .ahead _ | .empty => 0

theorem Matches.minLen_le : ∀ {r : Regex} {s t : MatchState}, r.Matches s t →
    s.endIndex + r.minLen ≤ t.endIndex
  | .char _, _, _, ⟨_, _, _, rfl⟩ => le_rfl
  | .star _, _, _, h => by
    obtain ⟨w, -, -, rfl⟩ := starMatches_iff.1 h
    simp [minLen]
  | .seq _ _, _, _, ⟨_, h₁, h₂⟩ => by
    have := h₁.minLen_le; have := h₂.minLen_le; simp only [minLen]; omega
  | .alt _ _, _, _, .inl h => (Nat.add_le_add_left (min_le_left _ _) _).trans h.minLen_le
  | .alt _ _, _, _, .inr h => (Nat.add_le_add_left (min_le_right _ _) _).trans h.minLen_le
  | .group _ _, _, _, ⟨_, h, rfl⟩ => h.minLen_le
  | .lineStart _, _, _, ⟨_, rfl⟩ | .lineEnd _, _, _, ⟨_, rfl⟩ | .ahead _, _, _, ⟨_, rfl⟩
  | .empty, _, _, rfl => le_rfl

/-- Group `n` has captured after every match of the pattern. -/
def alwaysCaptures (n : Nat) : Regex → Bool
  | .seq r₁ r₂ => r₁.alwaysCaptures n || r₂.alwaysCaptures n
  | .alt r₁ r₂ => r₁.alwaysCaptures n && r₂.alwaysCaptures n
  | .group n' r => n' == n || r.alwaysCaptures n
  | _ => false

/-- No pattern of the fragment undoes a capture. -/
theorem Matches.captures_isSome : ∀ {r : Regex} {s t : MatchState} {n : Nat}, r.Matches s t →
    (s.captures n).isSome → (t.captures n).isSome
  | .char _, _, _, _, ⟨_, _, _, rfl⟩, h => h
  | .star _, _, _, _, h, hs => by
    obtain ⟨w, -, -, rfl⟩ := starMatches_iff.1 h
    simpa using hs
  | .seq _ _, _, _, _, ⟨_, h₁, h₂⟩, hs => h₂.captures_isSome (h₁.captures_isSome hs)
  | .alt _ _, _, _, _, .inl h, hs | .alt _ _, _, _, _, .inr h, hs => h.captures_isSome hs
  | .group _ _, _, _, _, ⟨_, h, rfl⟩, hs => by
    rw [MatchState.capture_captures]; split
    · rfl
    · exact h.captures_isSome hs
  | .lineStart _, _, _, _, ⟨_, rfl⟩, hs | .lineEnd _, _, _, _, ⟨_, rfl⟩, hs
  | .ahead _, _, _, _, ⟨_, rfl⟩, hs | .empty, _, _, _, rfl, hs => hs

theorem Matches.captures_of_alwaysCaptures {r : Regex} {s t : MatchState} {n : Nat}
    (h : r.Matches s t) (ha : r.alwaysCaptures n) : (t.captures n).isSome := by
  induction r generalizing s t with
  | seq r₁ r₂ ih₁ ih₂ =>
    obtain ⟨_, h₁, h₂⟩ := h
    cases h₂a : r₂.alwaysCaptures n
    · simp only [alwaysCaptures, h₂a, Bool.or_false] at ha
      exact h₂.captures_isSome (ih₁ h₁ ha)
    · exact ih₂ h₂ h₂a
  | alt r₁ r₂ ih₁ ih₂ =>
    simp only [alwaysCaptures, Bool.and_eq_true] at ha
    rcases h with h | h
    exacts [ih₁ h ha.1, ih₂ h ha.2]
  | group n' r ih =>
    obtain ⟨_, h, rfl⟩ := h
    rw [MatchState.capture_captures]; split
    · rfl
    · next hn => exact ih h (by simpa [alwaysCaptures, Ne.symm hn] using ha)
  | _ => simp [alwaysCaptures] at ha

/-- The matches `while ((m = r.exec(input)) !== null)` visits for a global pattern, from
    `lastIndex` on, for at most `fuel` of them: `exec` leaves `lastIndex` at the end of each
    match. -/
def execAll (r : Regex) (input : List Char) : Nat → Nat → List (Nat × MatchState)
  | 0, _ => []
  | fuel + 1, lastIndex =>
    match r.exec input lastIndex with
    | none => []
    | some (i, t) => (i, t) :: r.execAll input fuel t.endIndex

/-- Every match of the loop is a successful attempt from `lastIndex` on, within the input. -/
theorem mem_execAll {r : Regex} {input : List Char} :
    ∀ {fuel i j : Nat} {t : MatchState}, (j, t) ∈ r.execAll input fuel i →
      i ≤ j ∧ j ≤ t.endIndex ∧ t.endIndex ≤ input.length ∧ r.matchAt input j = some t
  | 0, _, _, _, h => by cases h
  | fuel + 1, i, j, t, h => by
    simp only [execAll] at h
    split at h
    · cases h
    · rename_i j' t' he
      obtain ⟨hij, hj, hm, -⟩ := exec_eq_some he
      have ht := matchAt_endIndex hm hj
      rcases List.mem_cons.1 h with h | h
      · obtain ⟨rfl, rfl⟩ := Prod.mk.inj h
        exact ⟨hij, ht.1, ht.2, hm⟩
      · have := mem_execAll h
        exact ⟨by omega, this.2⟩

/-- Each match of the loop starts where the one before it ended, or later. -/
theorem execAll_chain (r : Regex) (input : List Char) :
    ∀ fuel i, (r.execAll input fuel i).Chain' fun a b => a.2.endIndex ≤ b.1
  | 0, _ => List.chain'_nil
  | fuel + 1, i => by
    simp only [execAll]
    split
    · exact List.chain'_nil
    · exact (execAll_chain r input fuel _).cons' fun b hb =>
        (mem_execAll (List.mem_of_mem_head? hb)).1

/-- For a pattern that consumes a character or more, the loop ends within
    `input.length + 1 - lastIndex` matches: more fuel changes nothing. -/
theorem execAll_fuel {r : Regex} {input : List Char} (hr : 0 < r.minLen) :
    ∀ fuel fuel' i : Nat, input.length + 1 - i ≤ fuel → input.length + 1 - i ≤ fuel' →
      r.execAll input fuel i = r.execAll input fuel' i
  | 0, fuel', i, h, _ | fuel', 0, i, _, h => by
    cases fuel' <;> simp [execAll, exec_of_lt (show input.length < i by omega)]
  | fuel + 1, fuel' + 1, i, h, h' => by
    simp only [execAll]
    split
    · rfl
    · rename_i j t he
      obtain ⟨hij, hj, hm, -⟩ := exec_eq_some he
      obtain ⟨t', ht', hk⟩ := m_sound r hm
      cases hk
      have := ht'.minLen_le
      simp only [MatchState.init] at this
      rw [execAll_fuel hr fuel fuel' _ (by omega) (by omega)]

end Regex

end CrosIde.RegExp
