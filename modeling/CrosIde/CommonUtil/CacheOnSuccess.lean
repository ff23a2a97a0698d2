import Mathlib.Data.List.Range
import Mathlib.Data.List.Perm.Basic
import Mathlib.Data.List.Nodup

/-!
# `CacheOnSuccess`

`CacheOnSuccess` of `common_util.ts:496-523` as a state machine over the event loop. A run
is a trace of calls of `getOrThrow`, settlings of the promises returned by invocations of
the job, and resumptions of the calls that invoked the job and await its promise. The job
itself does not call `getOrThrow` on the same cell.

`if (this.value)` tests the JavaScript truthiness of the stored value, a parameter
`truthy` here. The call that invokes the job registers its `await` on the job's promise first;
a call that returns `this.promise` adopts it, and so settles after that call has resumed, with
the same outcome, in the order the calls were made. A call that finds the promise settled and
no call awaiting it any more settles at once.
-/

namespace CrosIde.CommonUtil

/-- A `CacheOnSuccess<T>` cell (`common_util.ts:500-523`), the promises of the job's
    invocations, and the `getOrThrow` calls suspended on them. -/
structure CacheOnSuccess (α ε : Type) where
  /-- `value`; `none` is `undefined`. -/
  value : Option α
  /-- `promise`, as the number of the invocation that returned it. -/
  promise : Option Nat
  /-- The promise of each invocation of `job` so far: pending, or settled with its outcome. -/
  invocations : List (Option (Except ε α))
  /-- Calls suspended at `await this.promise`, with the invocation they made. -/
  starters : List (Nat × Nat)
  /-- Calls that returned `this.promise` while a call awaited it, with its invocation. -/
  adopters : List (Nat × Nat)
  /-- The settlements of the calls' promises, in order. -/
  settled : List (Nat × Except ε α)
  /-- The number of calls so far. -/
  calls : Nat
  deriving Repr

namespace CacheOnSuccess

variable {α ε : Type}

/-- An event of a run. -/
inductive Event (α ε : Type) where
  /-- A call of `getOrThrow()`. -/
  | getOrThrow
  /-- The promise returned by invocation `k` of the job settles with `r`. -/
  | settle (k : Nat) (r : Except ε α)
  /-- Call `c`, which invoked the job, resumes after `await this.promise`. -/
  | resume (c : Nat)
  deriving Repr

/-- Whether an event is a call. -/
def Event.isGetOrThrow : Event α ε → Bool
  | .getOrThrow => true
  | _ => false

/-- The call answers at once with `r`. -/
def answer (m : CacheOnSuccess α ε) (r : Except ε α) : CacheOnSuccess α ε :=
  { m with calls := m.calls + 1, settled := m.settled ++ [(m.calls, r)] }

/-- `return this.promise` (`common_util.ts:510-512`) while a call awaits invocation `k`: the
    call settles once that call has resumed. -/
def adopt (m : CacheOnSuccess α ε) (k : Nat) : CacheOnSuccess α ε :=
  { m with calls := m.calls + 1, adopters := m.adopters ++ [(m.calls, k)] }

/-- `this.promise = this.job(); this.value = await this.promise` (`common_util.ts:514-515`)
    up to the `await`. -/
def invoke (m : CacheOnSuccess α ε) : CacheOnSuccess α ε :=
  { m with calls := m.calls + 1, invocations := m.invocations ++ [none],
           promise := some m.invocations.length,
           starters := m.starters ++ [(m.calls, m.invocations.length)] }

/-- `getOrThrow()` past `if (this.value)` (`common_util.ts:510-516`): return `this.promise`
    if set, else invoke the job, store its promise and await it. A returned promise that has
    settled, with no call awaiting it any more, settles the call at once. -/
def fromPromise (m : CacheOnSuccess α ε) : CacheOnSuccess α ε :=
  match m.promise with
  | some k =>
    match m.invocations[k]? with
    | some (some r) => if m.starters = [] then m.answer r else m.adopt k
    | _ => m.adopt k
  | none => m.invoke

/-- `getOrThrow()` (`common_util.ts:506-522`) up to its `await`. -/
def getOrThrow (truthy : α → Bool) (m : CacheOnSuccess α ε) : CacheOnSuccess α ε :=
  match m.value with
  | some v => if truthy v then m.answer (.ok v) else m.fromPromise
  | none => m.fromPromise

/-- Invocation `k`'s promise settles with `r`. -/
def settle (m : CacheOnSuccess α ε) (k : Nat) (r : Except ε α) : CacheOnSuccess α ε :=
  match m.invocations[k]? with
  | some none => { m with invocations := m.invocations.set k (some r) }
  | _ => m

/-- The calls that returned the promise of invocation `k` settle with its outcome `r`, in the
    order they were made. -/
def release (m : CacheOnSuccess α ε) (k : Nat) (r : Except ε α) : CacheOnSuccess α ε :=
  { m with adopters := m.adopters.filter (·.2 != k),
           settled := m.settled ++ (m.adopters.filter (·.2 == k)).map fun p => (p.1, r) }

/-- Call `c` resumes after `await this.promise` (`common_util.ts:515-521`): on success it
    stores and returns the value; on failure it clears `value` and `promise` and throws. The
    calls that returned the promise settle after it. -/
def resume (m : CacheOnSuccess α ε) (c : Nat) : CacheOnSuccess α ε :=
  match m.starters.find? (·.1 == c) with
  | some (_, k) =>
    match m.invocations[k]? with
    | some (some (.ok v)) =>
      release { m with
        value := some v, starters := m.starters.filter (·.1 != c),
        settled := m.settled ++ [(c, .ok v)] } k (.ok v)
    | some (some (.error e)) =>
      release { m with
        value := none, promise := none, starters := m.starters.filter (·.1 != c),
        settled := m.settled ++ [(c, .error e)] } k (.error e)
    | _ => m
  | none => m

/-- One event of a run. -/
def step (truthy : α → Bool) (m : CacheOnSuccess α ε) : Event α ε → CacheOnSuccess α ε
  | .getOrThrow => m.getOrThrow truthy
  | .settle k r => m.settle k r
  | .resume c => m.resume c

/-- A fresh `new CacheOnSuccess(job)`. -/
def init : CacheOnSuccess α ε := ⟨none, none, [], [], [], [], 0⟩

/-- The state after a trace of events. -/
def run (truthy : α → Bool) (tr : List (Event α ε)) : CacheOnSuccess α ε :=
  tr.foldl (step truthy) init

/-- The rest of the current attempt, if any (no source counterpart): its invocation settles
    with `r` unless it has already, and the call awaiting it resumes. -/
def drain (m : CacheOnSuccess α ε) (r : Except ε α) : List (Event α ε) :=
  match m.starters with
  | (c, k) :: _ => [.settle k r, .resume c]
  | [] => []

/-! ## What one event does -/

variable {m : CacheOnSuccess α ε} {truthy : α → Bool} {c k : Nat} {r : Except ε α}

theorem getOrThrow_of_truthy {v : α} (hv : m.value = some v) (ht : truthy v = true) :
    m.getOrThrow truthy = m.answer (.ok v) := by
  simp [getOrThrow, hv, ht]

theorem getOrThrow_of_not_truthy (hv : ∀ v, m.value = some v → truthy v = false) :
    m.getOrThrow truthy = m.fromPromise := by
  unfold getOrThrow; split
  · next v hv' => simp [hv v hv']
  · rfl

theorem fromPromise_of_settled (hp : m.promise = some k) (hk : m.invocations[k]? = some (some r))
    (hs : m.starters = []) : m.fromPromise = m.answer r := by
  simp [fromPromise, hp, hk, hs]

theorem fromPromise_of_awaited (hp : m.promise = some k) (hs : m.starters ≠ []) :
    m.fromPromise = m.adopt k := by
  simp only [fromPromise, hp]
  split <;> simp [hs]

theorem fromPromise_of_none (hp : m.promise = none) : m.fromPromise = m.invoke := by
  simp [fromPromise, hp]

@[simp] theorem getOrThrow_calls : (m.getOrThrow truthy).calls = m.calls + 1 := by
  unfold getOrThrow fromPromise
  repeat' split
  all_goals rfl

theorem settle_of_pending (hk : m.invocations[k]? = some none) :
    m.settle k r = { m with invocations := m.invocations.set k (some r) } := by
  simp [settle, hk]

theorem settle_of_not_pending (hk : m.invocations[k]? ≠ some none) : m.settle k r = m := by
  unfold settle; split <;> simp_all

@[simp] theorem settle_starters (m : CacheOnSuccess α ε) (k : Nat) (r : Except ε α) :
    (m.settle k r).starters = m.starters := by
  unfold settle; split <;> rfl

@[simp] theorem settle_calls (m : CacheOnSuccess α ε) (k : Nat) (r : Except ε α) :
    (m.settle k r).calls = m.calls := by
  unfold settle; split <;> rfl

theorem resume_of_ok {v : α} (hs : m.starters = [(c, k)])
    (hk : m.invocations[k]? = some (some (.ok v))) :
    m.resume c = release { m with
      value := some v, starters := [], settled := m.settled ++ [(c, .ok v)] } k (.ok v) := by
  simp [resume, hs, hk]

theorem resume_of_error {e : ε} (hs : m.starters = [(c, k)])
    (hk : m.invocations[k]? = some (some (.error e))) :
    m.resume c = release { m with
      value := none, promise := none, starters := [],
      settled := m.settled ++ [(c, .error e)] } k (.error e) := by
  simp [resume, hs, hk]

theorem resume_of_pending (hs : m.starters = [(c, k)]) (hk : m.invocations[k]? = some none) :
    m.resume c = m := by
  simp [resume, hs, hk]

theorem resume_of_not_starter (hs : ∀ k, (c, k) ∉ m.starters) : m.resume c = m := by
  unfold resume; split
  · next c' k' h =>
    have hc : c' = c := by simpa using List.find?_some h
    exact absurd (List.mem_of_find?_eq_some h) (hc ▸ hs k')
  · rfl

@[simp] theorem resume_calls (m : CacheOnSuccess α ε) (c : Nat) : (m.resume c).calls = m.calls := by
  unfold resume
  repeat' split
  all_goals rfl

theorem resume_invocations (m : CacheOnSuccess α ε) (c : Nat) :
    (m.resume c).invocations = m.invocations := by
  unfold resume
  repeat' split
  all_goals rfl

theorem step_calls (m : CacheOnSuccess α ε) (e : Event α ε) :
    (m.step truthy e).calls = m.calls + if e.isGetOrThrow then 1 else 0 := by
  cases e with
  | getOrThrow => simp [step, Event.isGetOrThrow]
  | settle k r => simp [step, Event.isGetOrThrow]
  | resume c => simp [step, Event.isGetOrThrow]

/-! ## The invariant -/

/-- The promise of an invocation has rejected. -/
def Failed (x : Option (Except ε α)) : Prop := ∃ e, x = some (.error e)

theorem not_failed_none : ¬ Failed (none : Option (Except ε α)) := fun ⟨_, h⟩ => by cases h

/-- What holds of every reachable state: every invocation but the last failed; `promise`
    is that of the last invocation, and when cleared every attempt failed and nothing is
    stored or awaited; at most one call awaits the job, the stored promise's; with no call
    awaiting it, a stored promise succeeded with the stored value; a pending invocation is
    awaited by the call that made it; calls returning `this.promise` wait on an invocation
    a call awaits; each call is suspended or settled, once. -/
structure Inv (m : CacheOnSuccess α ε) : Prop where
  failed_prefix : ∀ (k : Nat) (x : Option (Except ε α)), k + 1 < m.invocations.length →
    m.invocations[k]? = some x → Failed x
  promise_last : ∀ k, m.promise = some k → k + 1 = m.invocations.length
  promise_none : m.promise = none →
    m.value = none ∧ m.starters = [] ∧
      ∀ (k : Nat) (x : Option (Except ε α)), m.invocations[k]? = some x → Failed x
  starters_le : m.starters.length ≤ 1
  starter_promise : ∀ c k, (c, k) ∈ m.starters → m.promise = some k
  starter_value : m.starters ≠ [] → m.value = none
  resumed : m.starters = [] → ∀ k : Nat, m.promise = some k →
    ∃ v, m.invocations[k]? = some (some (.ok v)) ∧ m.value = some v
  pending_starter : ∀ k : Nat, m.invocations[k]? = some none → ∃ c, (c, k) ∈ m.starters
  adopters_awaited : ∀ c k : Nat, (c, k) ∈ m.adopters → ∃ c', (c', k) ∈ m.starters
  partition : (m.starters.map Prod.fst ++ m.adopters.map Prod.fst ++ m.settled.map Prod.fst).Perm
    (List.range m.calls)

theorem inv_init : (init : CacheOnSuccess α ε).Inv := by
  constructor <;> simp [init]

namespace Inv

/-- The starter, if any, is the only one. -/
theorem starters_eq (hi : m.Inv) (hs : (c, k) ∈ m.starters) : m.starters = [(c, k)] := by
  have h := hi.starters_le
  match hq : m.starters, h with
  | [p], _ => simp_all
  | [], _ => simp_all
  | _ :: _ :: _, h => simp at h

/-- A call awaiting the job awaits the stored promise's invocation. -/
theorem starters_of_ne_nil (hi : m.Inv) (hp : m.promise = some k) (hs : m.starters ≠ []) :
    ∃ c, m.starters = [(c, k)] := by
  obtain ⟨⟨c, k'⟩, hc⟩ := List.exists_mem_of_ne_nil _ hs
  obtain rfl : k' = k := Option.some.inj ((hi.starter_promise c k' hc).symm.trans hp)
  exact ⟨c, hi.starters_eq hc⟩

/-- The stored promise's invocation exists. -/
theorem promise_lookup (hi : m.Inv) (hp : m.promise = some k) :
    ∃ x, m.invocations[k]? = some x :=
  ⟨_, List.getElem?_eq_getElem (by have := hi.promise_last k hp; omega)⟩

/-- A call finds the value stored and truthy, or the promise of a succeeded invocation with
    no call awaiting it, and answers at once with its value; or it returns the promise a call
    awaits; or it invokes the job. -/
theorem getOrThrow_eq (hi : m.Inv) (truthy : α → Bool) :
    (∃ k v, m.promise = some k ∧ m.starters = [] ∧ m.invocations[k]? = some (some (.ok v)) ∧
        m.getOrThrow truthy = m.answer (.ok v)) ∨
      (∃ k, m.promise = some k ∧ m.starters ≠ [] ∧ m.getOrThrow truthy = m.adopt k) ∨
      (m.promise = none ∧ m.getOrThrow truthy = m.invoke) := by
  cases hp : m.promise with
  | none =>
    refine .inr (.inr ⟨rfl, ?_⟩)
    rw [getOrThrow_of_not_truthy (by simp [(hi.promise_none hp).1]), fromPromise_of_none hp]
  | some k =>
    by_cases hs : m.starters = []
    · obtain ⟨v, hk, hv⟩ := hi.resumed hs k hp
      refine .inl ⟨k, v, rfl, hs, hk, ?_⟩
      cases ht : truthy v
      · rw [getOrThrow_of_not_truthy (by simp [hv, ht]), fromPromise_of_settled hp hk hs]
      · exact getOrThrow_of_truthy hv ht
    · refine .inr (.inl ⟨k, rfl, hs, ?_⟩)
      rw [getOrThrow_of_not_truthy (by simp [hi.starter_value hs]), fromPromise_of_awaited hp hs]

theorem answer (hi : m.Inv) (r : Except ε α) : (m.answer r).Inv := by
  refine { hi with partition := ?_ }
  rw [List.perm_iff_count]; intro a
  have := List.perm_iff_count.1 hi.partition a
  simp [CacheOnSuccess.answer, List.count_append, List.count_cons, List.range_succ] at *
  omega

theorem adopt (hi : m.Inv) (hs : m.starters = [(c, k)]) : (m.adopt k).Inv := by
  refine { hi with adopters_awaited := ?_, partition := ?_ }
  · intro c' k' h
    rcases List.mem_append.1 h with h | h
    · exact hi.adopters_awaited c' k' h
    · obtain ⟨-, rfl⟩ := Prod.mk.inj (List.mem_singleton.1 h); exact ⟨c, by simp [adopt, hs]⟩
  · rw [List.perm_iff_count]; intro a
    have := List.perm_iff_count.1 hi.partition a
    simp [CacheOnSuccess.adopt, List.count_append, List.count_cons, List.range_succ] at *
    omega

theorem invoke (hi : m.Inv) (hp : m.promise = none) : m.invoke.Inv := by
  obtain ⟨hv, hs, hf⟩ := hi.promise_none hp
  have hlook : ∀ j x, (m.invocations ++ [none])[j]? = some x →
      (j < m.invocations.length ∧ m.invocations[j]? = some x) ∨
        (j = m.invocations.length ∧ x = none) := by
    intro j x h
    rcases Nat.lt_or_ge j m.invocations.length with hj | hj
    · rw [List.getElem?_append_left hj] at h; exact .inl ⟨hj, h⟩
    · rw [List.getElem?_append_right hj] at h
      match hd : j - m.invocations.length, h with
      | 0, h => simp at h; exact .inr ⟨by omega, h.symm⟩
      | _ + 1, h => simp at h
  refine ⟨fun j x hj h => ?_, by simp [CacheOnSuccess.invoke], by simp [CacheOnSuccess.invoke],
    by simp [CacheOnSuccess.invoke, hs], by simp [CacheOnSuccess.invoke, hs], fun _ => hv,
    by simp [CacheOnSuccess.invoke], fun j h => ?_, fun c' j h => ?_, ?_⟩
  · rcases hlook j x h with ⟨-, h⟩ | ⟨rfl, -⟩
    · exact hf j x h
    · simp [CacheOnSuccess.invoke] at hj
  · rcases hlook j none h with ⟨-, h⟩ | ⟨rfl, -⟩
    · exact absurd (hf j none h) not_failed_none
    · exact ⟨m.calls, by simp [CacheOnSuccess.invoke, hs]⟩
  · obtain ⟨_, h'⟩ := hi.adopters_awaited c' j h
    simp [hs] at h'
  · rw [List.perm_iff_count]; intro a
    have := List.perm_iff_count.1 hi.partition a
    simp [CacheOnSuccess.invoke, List.count_append, List.count_cons, List.range_succ, hs] at *
    omega

theorem getOrThrow (hi : m.Inv) (truthy : α → Bool) : (m.getOrThrow truthy).Inv := by
  rcases hi.getOrThrow_eq truthy with ⟨k, v, -, -, -, he⟩ | ⟨k, hp, hs, he⟩ | ⟨hp, he⟩ <;>
    rw [he]
  · exact hi.answer _
  · obtain ⟨c, hc⟩ := hi.starters_of_ne_nil hp hs
    exact hi.adopt hc
  · exact hi.invoke hp

/-- A pending invocation is the last one. -/
theorem pending_last (hi : m.Inv) (hk : m.invocations[k]? = some none) :
    k + 1 = m.invocations.length := by
  have hlt : k < m.invocations.length := (List.getElem?_eq_some_iff.1 hk).1
  by_contra h
  exact not_failed_none (hi.failed_prefix k none (by omega) hk)

theorem settle (hi : m.Inv) (k : Nat) (r : Except ε α) : (m.settle k r).Inv := by
  by_cases hk : m.invocations[k]? = some none
  · have hlast := hi.pending_last hk
    have hset : ∀ j, j ≠ k → (m.invocations.set k (some r))[j]? = m.invocations[j]? := fun j hj =>
      by rw [List.getElem?_set_ne (Ne.symm hj)]
    have hsetk : (m.invocations.set k (some r))[k]? = some (some r) := by
      rw [List.getElem?_set_self (by omega)]
    rw [settle_of_pending hk]
    obtain ⟨c0, hc0⟩ := hi.pending_starter k hk
    refine { hi with
      failed_prefix := fun j x hj h => ?_, promise_last := by simpa using hi.promise_last,
      promise_none := fun hp => ?_, resumed := fun hs => absurd hs (List.ne_nil_of_mem hc0),
      pending_starter := fun j h => ?_ }
    · have hjk : j ≠ k := by simp at hj; omega
      rw [hset j hjk] at h
      exact hi.failed_prefix j x (by simpa using hj) h
    · exact absurd ((hi.promise_none hp).2.2 k none hk) not_failed_none
    · have hjk : j ≠ k := fun e => by rw [e, hsetk] at h; simp at h
      rw [hset j hjk] at h
      exact hi.pending_starter j h
  · rw [settle_of_not_pending hk]; exact hi

/-- The calls that returned the promise wait on the invocation of the call awaiting it. -/
theorem adopters_of_starter (hi : m.Inv) (hs : m.starters = [(c, k)]) :
    ∀ p ∈ m.adopters, p.2 = k := by
  rintro ⟨c', k'⟩ h
  obtain ⟨_, h'⟩ := hi.adopters_awaited c' k' h
  simp only [hs, List.mem_singleton, Prod.mk.injEq] at h'
  exact h'.2

/-- When the awaiting call resumes on its settled invocation, it settles, and then every call
    that returned the promise does, with the same outcome. -/
theorem resume_settles {res : Except ε α} (hi : m.Inv) (hs : m.starters = [(c, k)])
    (hk : m.invocations[k]? = some (some res)) :
    (m.resume c).starters = [] ∧ (m.resume c).adopters = [] ∧
      (m.resume c).settled = m.settled ++ (c, res) :: m.adopters.map (fun p => (p.1, res)) ∧
      (m.resume c).invocations = m.invocations := by
  have ha := hi.adopters_of_starter hs
  have h₁ : m.adopters.filter (·.2 != k) = [] := List.filter_eq_nil_iff.2 (by simpa using ha)
  have h₂ : m.adopters.filter (·.2 == k) = m.adopters := List.filter_eq_self.2 (by simpa using ha)
  rcases res with e | v
  · simp [resume_of_error hs hk, release, h₁, h₂]
  · simp [resume_of_ok hs hk, release, h₁, h₂]

theorem resume (hi : m.Inv) (c : Nat) : (m.resume c).Inv := by
  by_cases hs : ∃ k, (c, k) ∈ m.starters
  · obtain ⟨k, hs⟩ := hs
    have hs1 := hi.starters_eq hs
    have hp := hi.starter_promise c k hs
    have hlast := hi.promise_last k hp
    obtain ⟨x, hx⟩ := hi.promise_lookup hp
    have nopending : ∀ j, m.invocations[j]? = some none → j = k := fun j hj => by
      obtain ⟨c', hc'⟩ := hi.pending_starter j hj
      rw [hs1] at hc'; simp at hc'; exact hc'.2
    match x, hx with
    | none, hx => rw [resume_of_pending hs1 hx]; exact hi
    | some res, hx =>
      obtain ⟨hs', ha', hset, hinv⟩ := hi.resume_settles hs1 hx
      have hpart : ((m.resume c).starters.map Prod.fst ++ (m.resume c).adopters.map Prod.fst ++
          (m.resume c).settled.map Prod.fst).Perm (List.range (m.resume c).calls) := by
        have hfst : (m.adopters.map fun p => (p.1, res)).map Prod.fst =
            m.adopters.map Prod.fst := by
          rw [List.map_map]; rfl
        have hp0 := hi.partition
        rw [hs1] at hp0
        rw [hs', ha', hset, resume_calls, List.map_append, List.map_cons, hfst]
        rw [List.perm_iff_count] at hp0 ⊢; intro a
        have := hp0 a
        simp only [List.map_nil, List.map_cons, List.nil_append, List.count_append,
          List.count_cons, List.count_nil] at *
        omega
      have hpend : ∀ j, (m.resume c).invocations[j]? = some none →
          ∃ c', (c', j) ∈ (m.resume c).starters :=
        fun j hj => absurd hj (by rw [hinv] at hj ⊢; rw [nopending j hj, hx]; simp)
      rcases res with e | v
      · have he := resume_of_error hs1 hx
        refine ⟨hinv ▸ hi.failed_prefix, by simp [he, release],
          fun _ => ⟨by simp [he, release], hs', fun j y hj => ?_⟩, by simp [hs'], by simp [hs'],
          by simp [hs'], by simp [he, release], hpend, by simp [ha'], hpart⟩
        rw [hinv] at hj
        by_cases hjk : j = k
        · subst hjk; rw [hx] at hj; exact ⟨e, (Option.some.inj hj).symm⟩
        · exact hi.failed_prefix j y (by have := (List.getElem?_eq_some_iff.1 hj).1; omega) hj
      · have he := resume_of_ok hs1 hx
        refine ⟨hinv ▸ hi.failed_prefix, by simpa [he, release] using hi.promise_last,
          fun h => by simp [he, release, hp] at h, by simp [hs'], by simp [hs'], by simp [hs'],
          fun _ j hj => ⟨v, ?_, by simp [he, release]⟩, hpend, by simp [ha'], hpart⟩
        simp only [he, release, hp, Option.some.injEq] at hj
        rw [hinv, ← hj, hx]
  · rw [resume_of_not_starter (fun k h => hs ⟨k, h⟩)]; exact hi

theorem step (hi : m.Inv) (truthy : α → Bool) : ∀ e : Event α ε, (m.step truthy e).Inv
  | .getOrThrow => hi.getOrThrow truthy
  | .settle k r => hi.settle k r
  | .resume c => hi.resume c

theorem foldl (truthy : α → Bool) : ∀ {m : CacheOnSuccess α ε}, m.Inv → ∀ tr : List (Event α ε),
    (tr.foldl (CacheOnSuccess.step truthy) m).Inv
  | _, hi, [] => hi
  | _, hi, e :: tr => foldl truthy (hi.step truthy e) tr

/-- Every invocation but the last failed. -/
theorem failed_of_ne_last (hi : m.Inv) {j : Nat} {x : Option (Except ε α)}
    (hj : m.invocations[j]? = some x) (hk : m.promise = some k) (hjk : j ≠ k) : Failed x := by
  have hlast := hi.promise_last k hk
  have := (List.getElem?_eq_some_iff.1 hj).1
  exact hi.failed_prefix j x (by omega) hj

end Inv

/-- Every reachable state satisfies the invariant. -/
theorem inv_run (truthy : α → Bool) (tr : List (Event α ε)) : (run truthy tr).Inv :=
  inv_init.foldl truthy tr

theorem run_append (truthy : α → Bool) (tr tr' : List (Event α ε)) :
    run truthy (tr ++ tr') = tr'.foldl (step truthy) (run truthy tr) :=
  List.foldl_append _ _ _ _

/-! ## The attempt a call receives -/

/-- An invocation's promise has fulfilled. -/
def succeeded : Option (Except ε α) → Bool
  | some (.ok _) => true
  | _ => false

theorem succeeded_of_failed {x : Option (Except ε α)} (h : Failed x) : succeeded x = false := by
  obtain ⟨e, rfl⟩ := h; rfl

/-- The invocation whose outcome a call made in state `m` is to receive, in the contract's
    terms: the current attempt (from the job's invocation until the call that made it
    resumes) if there is one; else the first invocation that succeeded; else a new one. -/
def expectedAttempt (m : CacheOnSuccess α ε) : Nat :=
  match m.starters with
  | (_, k) :: _ => k
  | [] => m.invocations.findIdx succeeded

/-- The contract's attempt is the one the code's `promise` designates, or a new one. -/
theorem Inv.expectedAttempt_eq (hi : m.Inv) :
    m.expectedAttempt = m.promise.getD m.invocations.length := by
  unfold expectedAttempt
  split
  · next c0 k rest hs => simp [hi.starter_promise c0 k (by simp [hs])]
  · next hs =>
    cases hp : m.promise with
    | none =>
      refine List.findIdx_eq_length_of_false fun x hx => succeeded_of_failed ?_
      obtain ⟨j, hj⟩ := List.mem_iff_getElem?.1 hx
      exact (hi.promise_none hp).2.2 j x hj
    | some k =>
      obtain ⟨v, hk, -⟩ := hi.resumed hs k hp
      have hlen : k < m.invocations.length := by have := hi.promise_last k hp; omega
      refine (List.findIdx_eq hlen).2 ⟨?_, fun j hj => succeeded_of_failed ?_⟩
      · rw [List.getElem?_eq_getElem hlen] at hk; simp [Option.some.inj hk, succeeded]
      · exact hi.failed_of_ne_last (List.getElem?_eq_getElem _) hp (by omega)

/-- A succeeded invocation is the stored promise's. -/
theorem Inv.promise_of_success (hi : m.Inv) {v : α}
    (hk : m.invocations[k]? = some (some (.ok v))) : m.promise = some k := by
  cases hp : m.promise with
  | none => obtain ⟨e, he⟩ := (hi.promise_none hp).2.2 k _ hk; cases he
  | some k' =>
    by_contra hne
    obtain ⟨e, he⟩ := hi.failed_of_ne_last hk hp (fun h => hne (congrArg some h.symm)); cases he

/-- Call `c` receives the outcome of invocation `k`: it awaits it, or settled with it. -/
def Follows (m : CacheOnSuccess α ε) (c k : Nat) : Prop :=
  (c, k) ∈ m.starters ∨ (c, k) ∈ m.adopters ∨
    ∃ r, (c, r) ∈ m.settled ∧ m.invocations[k]? = some (some r)

/-- A call made now receives the outcome of the contract's attempt. -/
theorem follows_getOrThrow (hi : m.Inv) (truthy : α → Bool) :
    Follows (m.getOrThrow truthy) m.calls m.expectedAttempt := by
  rw [hi.expectedAttempt_eq]
  rcases hi.getOrThrow_eq truthy with ⟨k, v, hp, -, hk, he⟩ | ⟨k, hp, -, he⟩ | ⟨hp, he⟩ <;>
    rw [he, hp]
  · exact .inr (.inr ⟨.ok v, by simp [answer], hk⟩)
  · exact .inr (.inl (by simp [adopt]))
  · exact .inl (by simp [invoke])

/-- `Follows` survives any change that only adds suspended or settled calls and invocations. -/
theorem Follows.mono {m' : CacheOnSuccess α ε} (hf : Follows m c k)
    (hs : m.starters ⊆ m'.starters) (ha : m.adopters ⊆ m'.adopters)
    (hset : m.settled ⊆ m'.settled) (hinv : ∃ l, m'.invocations = m.invocations ++ l) :
    Follows m' c k := by
  obtain ⟨l, hl⟩ := hinv
  rcases hf with h | h | ⟨r, h, hk⟩
  · exact .inl (hs h)
  · exact .inr (.inl (ha h))
  · refine .inr (.inr ⟨r, hset h, ?_⟩)
    rw [hl, List.getElem?_append_left (List.getElem?_eq_some_iff.1 hk).1, hk]

theorem Follows.getOrThrow (hi : m.Inv) (hf : Follows m c k) (truthy : α → Bool) :
    Follows (m.getOrThrow truthy) c k := by
  rcases hi.getOrThrow_eq truthy with ⟨_, _, -, -, -, he⟩ | ⟨_, -, -, he⟩ | ⟨-, he⟩ <;> rw [he]
  · exact hf.mono (fun _ h => h) (fun _ h => h) (fun _ h => List.mem_append_left _ h)
      ⟨[], by simp; rfl⟩
  · exact hf.mono (fun _ h => h) (fun _ h => List.mem_append_left _ h) (fun _ h => h)
      ⟨[], by simp; rfl⟩
  · exact hf.mono (fun _ h => List.mem_append_left _ h) (fun _ h => h) (fun _ h => h) ⟨_, rfl⟩

theorem Follows.settle (hf : Follows m c k) (k' : Nat) (r : Except ε α) :
    Follows (m.settle k' r) c k := by
  by_cases hk' : m.invocations[k']? = some none
  · rw [settle_of_pending hk']
    rcases hf with h | h | ⟨r', h, hk⟩
    · exact .inl h
    · exact .inr (.inl h)
    · have hkk : k ≠ k' := fun e => by rw [e, hk'] at hk; simp at hk
      exact .inr (.inr ⟨r', h, by rw [List.getElem?_set_ne (Ne.symm hkk)]; exact hk⟩)
  · rw [settle_of_not_pending hk']; exact hf

theorem Follows.resume (hi : m.Inv) (hf : Follows m c k) (c' : Nat) :
    Follows (m.resume c') c k := by
  by_cases hs : ∃ k', (c', k') ∈ m.starters
  · obtain ⟨k', hs⟩ := hs
    have hs1 := hi.starters_eq hs
    obtain ⟨x, hx⟩ := hi.promise_lookup (hi.starter_promise c' k' hs)
    match x, hx with
    | none, hx => rw [resume_of_pending hs1 hx]; exact hf
    | some res, hx =>
      obtain ⟨-, -, hset, hinv⟩ := hi.resume_settles hs1 hx
      refine .inr (.inr ?_)
      rw [hset, hinv]
      rcases hf with h | h | ⟨r', h, hk⟩
      · rw [hs1, List.mem_singleton, Prod.mk.injEq] at h
        obtain ⟨rfl, rfl⟩ := h
        exact ⟨res, by simp, hx⟩
      · obtain rfl := hi.adopters_of_starter hs1 _ h
        exact ⟨res, List.mem_append_right _ (List.mem_cons_of_mem _ (List.mem_map_of_mem _ h)), hx⟩
      · exact ⟨r', List.mem_append_left _ h, hk⟩
  · rw [resume_of_not_starter (fun k h => hs ⟨k, h⟩)]; exact hf

theorem Follows.step (hi : m.Inv) (hf : Follows m c k) (truthy : α → Bool) :
    ∀ e : Event α ε, Follows (m.step truthy e) c k
  | .getOrThrow => hf.getOrThrow hi truthy
  | .settle k' r => hf.settle k' r
  | .resume c' => hf.resume hi c'

theorem Follows.foldl (truthy : α → Bool) : ∀ {m : CacheOnSuccess α ε}, m.Inv → Follows m c k →
    ∀ tr : List (Event α ε), Follows (tr.foldl (CacheOnSuccess.step truthy) m) c k
  | _, _, hf, [] => hf
  | _, hi, hf, e :: tr => Follows.foldl truthy (hi.step truthy e) (hf.step hi truthy e) tr

/-- Every call of a run receives the outcome of the contract's attempt when it was made. -/
theorem follows_run (truthy : α → Bool) (pre post : List (Event α ε)) :
    Follows (run truthy (pre ++ .getOrThrow :: post)) (run truthy pre).calls
      (run truthy pre).expectedAttempt := by
  have hi := inv_run truthy pre
  rw [run_append, List.foldl_cons]
  exact Follows.foldl truthy (hi.getOrThrow truthy) (follows_getOrThrow hi truthy) post

/-! ## The contract of `getOrThrow` -/

theorem Inv.nodup (hi : m.Inv) :
    (m.starters.map Prod.fst ++ m.adopters.map Prod.fst ++ m.settled.map Prod.fst).Nodup :=
  hi.partition.nodup_iff.2 (List.nodup_range _)

/-- A settled call settled once, and is no longer suspended. -/
theorem Inv.settled_unique (hi : m.Inv) {r r' : Except ε α} (h : (c, r) ∈ m.settled)
    (h' : (c, r') ∈ m.settled) : r = r' :=
  (Prod.mk.inj (List.inj_on_of_nodup_map (List.nodup_append.1 hi.nodup).2.1 h h' rfl)).2

theorem Inv.settled_not_suspended (hi : m.Inv) {r : Except ε α} (h : (c, r) ∈ m.settled) :
    (c, k) ∉ m.starters ∧ (c, k) ∉ m.adopters := by
  have hd := List.disjoint_of_nodup_append hi.nodup
  have hc : c ∈ m.settled.map Prod.fst := List.mem_map_of_mem Prod.fst h
  exact ⟨fun hs => hd (List.mem_append_left _ (List.mem_map_of_mem Prod.fst hs)) hc,
    fun ha => hd (List.mem_append_right _ (List.mem_map_of_mem Prod.fst ha)) hc⟩

/-- A call that has settled did so with the outcome of the invocation it follows. -/
theorem Follows.settled (hi : m.Inv) (hf : Follows m c k) {r : Except ε α}
    (h : (c, r) ∈ m.settled) : m.invocations[k]? = some (some r) := by
  rcases hf with hs | ha | ⟨r', h', hk⟩
  · exact absurd hs (hi.settled_not_suspended h).1
  · exact absurd ha (hi.settled_not_suspended h).2
  · rw [hi.settled_unique h h']; exact hk

/-- With no call awaiting the job, no call returned its promise, no invocation is pending, and
    every call has settled, once. -/
theorem Inv.settled_of_idle (hi : m.Inv) (hs : m.starters = []) :
    m.adopters = [] ∧ (∀ k : Nat, m.invocations[k]? ≠ some none) ∧
      (m.settled.map Prod.fst).Perm (List.range m.calls) := by
  have ha : m.adopters = [] := List.eq_nil_iff_forall_not_mem.2 fun ⟨c, k⟩ h => by
    obtain ⟨_, h'⟩ := hi.adopters_awaited c k h; simp [hs] at h'
  refine ⟨ha, fun k hk => ?_, by simpa [hs, ha] using hi.partition⟩
  obtain ⟨_, h'⟩ := hi.pending_starter k hk; simp [hs] at h'

/-- Once the current attempt's invocation settles and the call awaiting it resumes, no call
    awaits the job; the calls made are the same. -/
theorem Inv.drain_idle (hi : m.Inv) (truthy : α → Bool) (r : Except ε α) :
    ((m.drain r).foldl (CacheOnSuccess.step truthy) m).starters = [] ∧
      ((m.drain r).foldl (CacheOnSuccess.step truthy) m).calls = m.calls := by
  unfold drain
  split
  · next c k rest hs =>
    have hs1 := hi.starters_eq (show (c, k) ∈ m.starters by simp [hs])
    have hi' := hi.settle k r
    obtain ⟨x, hx⟩ := hi'.promise_lookup (hi'.starter_promise c k (by simp [hs]))
    have hs' : (m.settle k r).starters = [(c, k)] := by simpa using hs1
    match x, hx with
    | none, hx =>
      refine absurd hx fun hx => ?_
      by_cases hk : m.invocations[k]? = some none
      · rw [settle_of_pending hk,
          List.getElem?_set_self (by have := hi.pending_last hk; omega)] at hx
        cases hx
      · rw [settle_of_not_pending hk] at hx; exact hk hx
    | some res, hx =>
      exact ⟨(hi'.resume_settles hs' hx).1, by simp [CacheOnSuccess.step]⟩
  · exact ⟨‹_›, rfl⟩

/-- With no call awaiting the job, a call invokes it exactly when no invocation has succeeded. -/
theorem Inv.getOrThrow_invokes_iff (hi : m.Inv) (truthy : α → Bool) (hs : m.starters = []) :
    (m.getOrThrow truthy).invocations = m.invocations ++ [none] ↔
      ∀ x ∈ m.invocations, succeeded x = false := by
  refine ⟨fun h x hx => ?_, fun hn => ?_⟩
  · match x, hx with
    | some (.ok v), hx =>
      obtain ⟨k, hk⟩ := List.mem_iff_getElem?.1 hx
      rcases hi.getOrThrow_eq truthy with ⟨_, _, -, -, -, he⟩ | ⟨_, -, hs', -⟩ | ⟨hp, -⟩
      · rw [he] at h; simp [CacheOnSuccess.answer] at h
      · exact absurd hs hs'
      · exact absurd (hi.promise_of_success hk) (by simp [hp])
    | some (.error _), _ => rfl
    | none, _ => rfl
  · have hp : m.promise = none := by
      cases hp : m.promise with
      | none => rfl
      | some k =>
        obtain ⟨v, hk, -⟩ := hi.resumed hs k hp
        simpa [succeeded] using hn _ (List.getElem?_mem hk)
    rw [getOrThrow_of_not_truthy (by simp [(hi.promise_none hp).1]), fromPromise_of_none hp]
    rfl

/-- Once an invocation has succeeded, no event invokes the job again. -/
theorem Inv.step_of_success (hi : m.Inv) {v : α} (hk : m.invocations[k]? = some (some (.ok v)))
    (truthy : α → Bool) (e : Event α ε) : (m.step truthy e).invocations = m.invocations := by
  have hp := hi.promise_of_success hk
  cases e with
  | getOrThrow =>
    rcases hi.getOrThrow_eq truthy with ⟨_, _, -, -, -, he⟩ | ⟨_, -, -, he⟩ | ⟨hp', -⟩
    · simp only [CacheOnSuccess.step, he]; rfl
    · simp only [CacheOnSuccess.step, he]; rfl
    · simp [hp] at hp'
  | settle k' r =>
    simp only [CacheOnSuccess.step]
    refine congrArg _ (settle_of_not_pending fun hk' => ?_)
    have h1 := hi.pending_last hk'
    have h2 := hi.promise_last k hp
    rw [show k' = k by omega, hk] at hk'; simp at hk'
  | resume c => exact resume_invocations m c

theorem Inv.foldl_of_success (truthy : α → Bool) {v : α} : ∀ {m : CacheOnSuccess α ε}, m.Inv →
    m.invocations[k]? = some (some (.ok v)) → ∀ tr : List (Event α ε),
    (tr.foldl (CacheOnSuccess.step truthy) m).invocations = m.invocations
  | _, _, _, [] => rfl
  | _, hi, hk, e :: tr => by
    have he := hi.step_of_success hk truthy e
    rw [List.foldl_cons, Inv.foldl_of_success truthy (hi.step truthy e) (he ▸ hk) tr, he]

/-- Once an invocation has succeeded, every later call receives its outcome. -/
theorem Inv.expectedAttempt_of_success (hi : m.Inv) {v : α}
    (hk : m.invocations[k]? = some (some (.ok v))) : m.expectedAttempt = k := by
  rw [hi.expectedAttempt_eq, hi.promise_of_success hk]; rfl

/-- A rejected invocation. -/
def failed : Option (Except ε α) → Bool
  | some (.error _) => true
  | _ => false

theorem length_le_countP_failed : ∀ l : List (Option (Except ε α)),
    (∀ (k : Nat) x, k + 1 < l.length → l[k]? = some x → Failed x) →
    l.length ≤ l.countP failed + 1
  | [], _ => by simp
  | [_], _ => by simp
  | x :: y :: rest, h => by
    obtain ⟨e, rfl⟩ := h 0 x (by simp) rfl
    have ih := length_le_countP_failed (y :: rest)
      (fun k z hk hz => h (k + 1) z (by simp at hk ⊢; omega) (by simpa using hz))
    rw [List.countP_cons, List.length_cons]
    simp only [failed, if_true]
    omega

/-- The calls of a run are the calls of its trace. -/
theorem calls_run (truthy : α → Bool) (tr : List (Event α ε)) :
    (run truthy tr).calls = tr.countP Event.isGetOrThrow := by
  induction tr using List.reverseRecOn with
  | nil => rfl
  | append_singleton tr e ih =>
    rw [run_append, List.foldl_cons, List.foldl_nil, step_calls, ih, List.countP_append]
    cases e <;> rfl

/-- Once the cell has drained, every call made before has settled. -/
theorem settled_of_drain (truthy : α → Bool) (tr : List (Event α ε)) (r : Except ε α) {c : Nat}
    (hc : c < (run truthy tr).calls) :
    ∃ r', (c, r') ∈ (run truthy (tr ++ (run truthy tr).drain r)).settled := by
  obtain ⟨hs, hcalls⟩ := (inv_run truthy tr).drain_idle truthy r
  rw [← run_append] at hs hcalls
  obtain ⟨-, -, hperm⟩ := (inv_run truthy _).settled_of_idle hs
  obtain ⟨⟨_, r'⟩, h, rfl⟩ := List.mem_map.1 (hperm.mem_iff.2 (List.mem_range.2 (hcalls ▸ hc)))
  exact ⟨r', h⟩

/-- The contract of `getOrThrow` over every run, the job not calling `getOrThrow` on the same
    cell: the calls are those of the trace; only the last invocation can be pending, so at most
    one is; a call settles with the outcome of the attempt current when it was made, or of the
    one it started, or of the one that succeeded. Once the current attempt's invocation settles
    and the call that made it resumes, no call awaits the job, nothing is pending, every call
    has settled once, and the next call invokes the job exactly when none has succeeded. Once an
    invocation has succeeded with `v`, the job is never invoked again, and every later call
    settles with `v`, truthy or not, once the cell drains. So the invocations are the failed
    attempts and at most one more. -/
theorem getOrThrow_contract (truthy : α → Bool) (tr : List (Event α ε)) :
    (run truthy tr).calls = tr.countP Event.isGetOrThrow ∧
    (∀ k : Nat, (run truthy tr).invocations[k]? = some none →
      k + 1 = (run truthy tr).invocations.length) ∧
    (∀ pre post r, tr = pre ++ .getOrThrow :: post →
      ((run truthy pre).calls, r) ∈ (run truthy tr).settled →
      (run truthy tr).invocations[(run truthy pre).expectedAttempt]? = some (some r)) ∧
    (∀ r, (run truthy (tr ++ (run truthy tr).drain r)).starters = [] ∧
      (∀ k : Nat, (run truthy (tr ++ (run truthy tr).drain r)).invocations[k]? ≠ some none) ∧
      ((run truthy (tr ++ (run truthy tr).drain r)).settled.map Prod.fst).Perm
        (List.range (run truthy tr).calls) ∧
      ((run truthy (tr ++ (run truthy tr).drain r ++ [.getOrThrow])).invocations =
          (run truthy (tr ++ (run truthy tr).drain r)).invocations ++ [none] ↔
        ∀ x ∈ (run truthy (tr ++ (run truthy tr).drain r)).invocations, succeeded x = false)) ∧
    (∀ (k : Nat) v, (run truthy tr).invocations[k]? = some (some (.ok v)) →
      ∀ tr', (run truthy (tr ++ tr')).invocations = (run truthy tr).invocations ∧
        ∀ pre post r, tr' = pre ++ .getOrThrow :: post →
          ((run truthy (tr ++ pre)).calls, .ok v) ∈
            (run truthy (tr ++ tr' ++ (run truthy (tr ++ tr')).drain r)).settled) ∧
    (run truthy tr).invocations.length ≤ (run truthy tr).invocations.countP failed + 1 := by
  have hi := inv_run truthy tr
  refine ⟨calls_run truthy tr, fun k => hi.pending_last, ?_, fun r => ?_,
    fun k v hk tr' => ⟨?_, ?_⟩,
    length_le_countP_failed _ hi.failed_prefix⟩
  · rintro pre post r rfl h
    exact (follows_run truthy pre post).settled (inv_run truthy _) h
  · obtain ⟨hs, hcalls⟩ := hi.drain_idle truthy r
    rw [← run_append] at hs hcalls
    have hi' := inv_run truthy (tr ++ (run truthy tr).drain r)
    obtain ⟨-, hp, hperm⟩ := hi'.settled_of_idle hs
    rw [run_append _ _ [_], List.foldl_cons, List.foldl_nil]
    exact ⟨hs, hp, hcalls ▸ hperm, hi'.getOrThrow_invokes_iff truthy hs⟩
  · rw [run_append]; exact hi.foldl_of_success truthy hk tr'
  · rintro pre post r rfl
    have hk' : (run truthy (tr ++ pre)).invocations[k]? = some (some (.ok v)) := by
      rw [run_append, hi.foldl_of_success truthy hk pre]; exact hk
    have hc : (run truthy (tr ++ pre)).calls <
        (run truthy (tr ++ (pre ++ .getOrThrow :: post))).calls := by
      simp [calls_run, Event.isGetOrThrow]
    obtain ⟨r', hr'⟩ := settled_of_drain truthy _ r hc
    have hf := follows_run truthy (tr ++ pre)
      (post ++ (run truthy (tr ++ (pre ++ .getOrThrow :: post))).drain r)
    rw [(inv_run truthy _).expectedAttempt_of_success hk'] at hf
    simp only [List.append_assoc, List.cons_append] at hf hr' ⊢
    have hinv := hf.settled (inv_run truthy _) hr'
    rw [run_append, hi.foldl_of_success truthy hk, hk] at hinv
    cases hinv
    exact hr'

end CacheOnSuccess

end CrosIde.CommonUtil
