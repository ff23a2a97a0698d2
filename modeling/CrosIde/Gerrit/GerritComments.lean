import Mathlib.Data.List.Basic
import Mathlib.Data.List.Destutter
import CrosIde.CommonUtil.JobManager

/-!
# `GerritComments.fetch` for one Git directory

`requestFetch`, `fetch` and `refresh` of `gerrit_comments.ts:72-122, 220-234`, for one
`gitDir`. Each call of `fetch` gets a fresh `Ticket`: `requestFetch` runs it through the
`JobManager` of the directory, `refresh()` calls it directly. A fetch awaits
`fetchChangesOrThrow` and then, with no further `await`, compares its ticket and changes with
the stored entry, and replaces it or returns.

A run is a run of the directory's `JobManager`, its offers made by `requestFetch`, together
with the calls of `refresh()` and the completions of the fetches they make. A fetch is
represented by what `fetchChangesOrThrow` yields, `none` for `undefined` or a throw (both end
the fetch at once), and fetches are numbered by the creation of their tickets.

The listener of `onDidChangeHead` that calls `requestFetch` (`gerrit_comments.ts:47-61`) keeps
one `gitHead` for all Git directories: over any sequence of head changes, the heads fetched are
the non-empty heads with consecutive repeats removed, whichever directories they come from
(`fetchRequests_destutter`).
-/

namespace CrosIde.Gerrit

open CommonUtil

/-- `Ticket` (`model/ticket.ts`), absent from the sources: a ticket is known here by the order
    in which it was created. -/
structure Ticket where
  id : Nat
  deriving DecidableEq, Repr

/-- `Ticket.newerThan`, absent from the sources, read as the comparison of the order in which
    the two tickets were created. -/
def Ticket.newerThan (a b : Ticket) : Bool := b.id < a.id

variable {χ : Type}

/-- `knownChanges.length === changes.length && knownChanges.every((c, i) =>
    c.equals(changes[i]))` (`gerrit_comments.ts:108-111`), with `Change.equals` as `equals`. -/
def sameChanges (equals : χ → χ → Bool) (knownChanges changes : List χ) : Bool :=
  knownChanges.length == changes.length && (knownChanges.zip changes).all fun p => equals p.1 p.2

/-- The end of `fetch` (`gerrit_comments.ts:104-121`) once `fetchChangesOrThrow` has yielded
    `changes`: the stored entry is kept if its ticket is newer or its changes are the same,
    and replaced by `[ticket, changes]` otherwise. -/
def store (equals : χ → χ → Bool) (cur : Option (Ticket × List χ)) (ticket : Ticket)
    (changes : List χ) : Option (Ticket × List χ) :=
  match cur with
  | some (knownTicket, knownChanges) =>
    if knownTicket.newerThan ticket then cur
    else if sameChanges equals knownChanges changes then cur
    else some (ticket, changes)
  | none => some (ticket, changes)

/-- `GerritComments` (`gerrit_comments.ts:24-26`) for one `gitDir`, with its `fetch` calls. -/
structure GerritComments (χ : Type) where
  /-- `gitDirToJobManager.get(gitDir)`, a fresh `JobManager` until `requestFetch` makes it. -/
  jobManager : JobManager Unit Unit
  /-- What `fetchChangesOrThrow` yields in each `fetch` call, by the creation of its ticket. -/
  fetches : List (Option (List χ))
  /-- The `fetch` call of each task of the `JobManager`, by offer number. -/
  jobFetches : List Nat
  /-- The `fetch` calls of `refresh()` in progress. -/
  direct : List Nat
  /-- The `fetch` calls that have completed, in order. -/
  completed : List Nat
  /-- `gitDirToChanges.get(gitDir)`. -/
  gitDirToChanges : Option (Ticket × List χ)

namespace GerritComments

/-- An event of a run. -/
inductive Event (χ : Type) where
  /-- `requestFetch(gitDir, new Ticket())` (`gerrit_comments.ts:72-80`), from a change of
      `HEAD` or from `requestRefresh()`, for a fetch whose `fetchChangesOrThrow` yields `r`. -/
  | requestFetch (r : Option (List χ))
  /-- `refresh()` (`gerrit_comments.ts:227-231`) reaches `gitDir`:
      `await this.fetch(gitDir, new Ticket())`. -/
  | refresh (r : Option (List χ))
  /-- The fetch of task `i` of the `JobManager` completes, and with it the job. -/
  | settle (i : Nat)
  /-- The `handle()` activation of task `i` resumes. -/
  | resume (i : Nat)
  /-- The `fetch` call `k` of `refresh()` completes. -/
  | complete (k : Nat)

variable (equals : χ → χ → Bool)

/-- The `fetch` call `k` returns from `await this.fetchChangesOrThrow(...)` and runs to its
    end (`gerrit_comments.ts:84-121`). -/
def finish (g : GerritComments χ) (k : Nat) : GerritComments χ :=
  match g.fetches[k]? with
  | some r =>
    { g with
      completed := g.completed ++ [k],
      gitDirToChanges := match r with
        | some changes => store equals g.gitDirToChanges ⟨k⟩ changes
        | none => g.gitDirToChanges }
  | none => g

/-- `requestFetch` (`gerrit_comments.ts:72-80`): `jobManager.offer(() => this.fetch(...))`. -/
def requestFetch (g : GerritComments χ) (r : Option (List χ)) : GerritComments χ :=
  { g with
    jobManager := g.jobManager.offer (.ok ()),
    fetches := g.fetches ++ [r],
    jobFetches := g.jobFetches ++ [g.fetches.length] }

/-- `refresh()` (`gerrit_comments.ts:227-231`) calls `fetch` for `gitDir` up to its `await`. -/
def refresh (g : GerritComments χ) (r : Option (List χ)) : GerritComments χ :=
  { g with fetches := g.fetches ++ [r], direct := g.direct ++ [g.fetches.length] }

/-- The fetch of the pending task `i` completes, and `Task.run` resolves its promise. -/
def settle (g : GerritComments χ) (i : Nat) : GerritComments χ :=
  match g.jobFetches[i]? with
  | some k =>
    if i ∈ g.jobManager.pending then
      { g.finish equals k with jobManager := g.jobManager.settle i }
    else g
  | none => g

/-- A fetch of `refresh()` in progress completes. -/
def complete (g : GerritComments χ) (k : Nat) : GerritComments χ :=
  if k ∈ g.direct then { g.finish equals k with direct := g.direct.erase k } else g

/-- One event of a run. -/
def step (g : GerritComments χ) : Event χ → GerritComments χ
  | .requestFetch r => g.requestFetch r
  | .refresh r => g.refresh r
  | .settle i => g.settle equals i
  | .resume i => { g with jobManager := g.jobManager.resume i }
  | .complete k => g.complete equals k

/-- No fetch made yet. -/
def init : GerritComments χ := ⟨JobManager.init, [], [], [], [], none⟩

/-- The state after a trace of events. -/
def run (tr : List (Event χ)) : GerritComments χ := tr.foldl (step equals) init

/-! ## The stored entry as a fold over the completed fetches -/

/-- The entry that fetches with changes `results` leave stored when they complete in this
    order. -/
def storeAll (results : List (Ticket × List χ)) : Option (Ticket × List χ) :=
  results.foldl (fun cur p => store equals cur p.1 p.2) none

/-- The completed fetches that obtained changes, with their tickets, in the order they
    completed. -/
def results (g : GerritComments χ) : List (Ticket × List χ) :=
  g.completed.filterMap fun k => g.fetches[k]?.join.map fun changes => (⟨k⟩, changes)

theorem storeAll_append (l : List (Ticket × List χ)) (p : Ticket × List χ) :
    storeAll equals (l ++ [p]) = store equals (storeAll equals l) p.1 p.2 := by
  simp [storeAll]

/-- What one run keeps of the fetches: those it completed are fetches made, and the stored
    entry is the fold of `store` over the completed fetches with changes. -/
structure Inv (g : GerritComments χ) : Prop where
  completed_lt : ∀ k ∈ g.completed, k < g.fetches.length
  stored_eq : g.gitDirToChanges = storeAll equals g.results

variable {equals} {g : GerritComments χ}

theorem Inv.finish (hi : g.Inv equals) (k : Nat) : (g.finish equals k).Inv equals := by
  unfold GerritComments.finish
  split
  · next r hr =>
    have hk := (List.getElem?_eq_some_iff.1 hr).1
    refine ⟨fun j hj => ?_, ?_⟩
    · rcases List.mem_append.1 hj with hj | hj
      · exact hi.completed_lt j hj
      · exact (List.mem_singleton.1 hj) ▸ hk
    · cases r <;> simp [results, hr, hi.stored_eq, storeAll_append]
  · exact hi

/-- A new fetch leaves the results of those completed as they are. -/
theorem Inv.push (hi : g.Inv equals) (r : Option (List χ)) (c : GerritComments χ)
    (hf : c.fetches = g.fetches ++ [r]) (hc : c.completed = g.completed)
    (hs : c.gitDirToChanges = g.gitDirToChanges) : c.Inv equals := by
  have hres : c.results = g.results := by
    simp only [results, hf, hc]
    exact List.filterMap_congr fun k hk => by
      rw [List.getElem?_append_left (hi.completed_lt k hk)]
  exact ⟨fun k hk => by rw [hf, hc] at *; simpa using Nat.lt_succ_of_lt (hi.completed_lt k hk),
    by rw [hs, hres, hi.stored_eq]⟩

theorem Inv.step (hi : g.Inv equals) : ∀ e, (g.step equals e).Inv equals
  | .requestFetch r => hi.push r _ rfl rfl rfl
  | .refresh r => hi.push r _ rfl rfl rfl
  | .settle i => by
    show (g.settle equals i).Inv equals
    unfold GerritComments.settle
    split
    · split
      · exact ⟨(hi.finish _).completed_lt, (hi.finish _).stored_eq⟩
      · exact hi
    · exact hi
  | .resume _ => ⟨hi.completed_lt, hi.stored_eq⟩
  | .complete k => by
    show (g.complete equals k).Inv equals
    unfold GerritComments.complete
    split
    · exact ⟨(hi.finish k).completed_lt, (hi.finish k).stored_eq⟩
    · exact hi

theorem inv_run (tr : List (Event χ)) : (run equals tr).Inv equals := by
  induction tr using List.reverseRecOn with
  | nil => exact ⟨by simp [run, init], rfl⟩
  | append_singleton tr e ih => simpa [run] using ih.step e

@[simp] theorem finish_fetches (k : Nat) : (g.finish equals k).fetches = g.fetches := by
  unfold GerritComments.finish; split <;> rfl
@[simp] theorem finish_jobManager (k : Nat) : (g.finish equals k).jobManager = g.jobManager := by
  unfold GerritComments.finish; split <;> rfl
@[simp] theorem finish_jobFetches (k : Nat) : (g.finish equals k).jobFetches = g.jobFetches := by
  unfold GerritComments.finish; split <;> rfl
@[simp] theorem finish_direct (k : Nat) : (g.finish equals k).direct = g.direct := by
  unfold GerritComments.finish; split <;> rfl

theorem finish_completed {k : Nat} (hk : k < g.fetches.length) :
    (g.finish equals k).completed = g.completed ++ [k] := by
  simp [GerritComments.finish, List.getElem?_eq_getElem hk]

variable (equals)

/-- What a run without `refresh()` keeps: the `JobManager` invariant; fetch `i` is task `i`;
    the completed fetches are the started tasks but the pending one, in order. -/
structure SerialInv (g : GerritComments χ) : Prop where
  jobManager_inv : g.jobManager.Inv
  fetches_length : g.fetches.length = g.jobManager.jobs.length
  jobFetches_eq : g.jobFetches = List.range g.jobManager.jobs.length
  completed_started : g.completed ++ g.jobManager.pending = g.jobManager.started
  direct_nil : g.direct = []

/-- An offer or a resumption of `handle()` keeps `completed_started`. -/
theorem SerialInv.completed_step (hi : g.SerialInv) (e : JobManager.Event Unit Unit)
    (he : ∀ i, e ≠ .settle i) :
    g.completed ++ (g.jobManager.step e).pending = (g.jobManager.step e).started := by
  rcases hi.jobManager_inv.starts e he with ⟨hp, hs⟩ | ⟨t, hp0, hp, hs⟩
  · rw [hp, hs, hi.completed_started]
  · rw [hp, hs, ← hi.completed_started, hp0, List.append_nil]

theorem SerialInv.step (hi : g.SerialInv) (e : Event χ) (he : ∀ r, e ≠ .refresh r) :
    (g.step equals e).SerialInv := by
  cases e with
  | requestFetch r =>
    exact ⟨hi.jobManager_inv.step (.offer (.ok ())),
      by simp [GerritComments.step, requestFetch, hi.fetches_length],
      by simp [GerritComments.step, requestFetch, hi.jobFetches_eq, hi.fetches_length,
        List.range_succ],
      hi.completed_step (.offer (.ok ())) (by simp), hi.direct_nil⟩
  | refresh r => exact absurd rfl (he r)
  | settle i =>
    show (g.settle equals i).SerialInv
    unfold GerritComments.settle
    split
    · next k hk =>
      split
      · next hp =>
        have hlen := hi.jobManager_inv.started_lt i (hi.jobManager_inv.pending_started i hp)
        rw [hi.jobFetches_eq, List.getElem?_range hlen] at hk
        cases hk
        have hp1 := (hi.jobManager_inv.pending_eq hp).1
        refine ⟨hi.jobManager_inv.settle i, by simp [hi.fetches_length], by simp [hi.jobFetches_eq],
          ?_, by simp [hi.direct_nil]⟩
        simp [finish_completed (hi.fetches_length ▸ hlen), JobManager.settle_of_pending hp1 hlen,
          ← hi.completed_started, hp1]
      · exact hi
    · exact hi
  | resume i =>
    exact ⟨hi.jobManager_inv.step (.resume i),
      by simp [GerritComments.step, JobManager.step, hi.fetches_length],
      by simp [GerritComments.step, JobManager.step, hi.jobFetches_eq],
      hi.completed_step (.resume i) (by simp),
      hi.direct_nil⟩
  | complete k =>
    show (g.complete equals k).SerialInv
    simpa [GerritComments.complete, hi.direct_nil] using hi

/-- A fetch through the `JobManager` yields `[0]`; meanwhile `refresh()` starts a fetch that
    will yield `[1]`, and a newer `requestFetch` is queued, to yield `[0]` again. The first
    fetch stores `[0]`; the newest finds the same changes and returns, keeping the first
    ticket; the fetch of `refresh()`, older than the newest, then completes and stores `[1]`. -/
theorem older_fetch_replaces_newer :
    let tr : List (Event Nat) := [.requestFetch (some [0]), .refresh (some [1]),
      .requestFetch (some [0]), .settle 0, .resume 0, .settle 1, .resume 1, .complete 1]
    let g := run (· == ·) tr
    g.fetches = [some [0], some [1], some [0]] ∧ g.completed = [0, 2, 1] ∧
      g.jobManager.running = false ∧ g.jobManager.tasks = [] ∧ g.direct = [] ∧
      g.gitDirToChanges = some (⟨1⟩, [1]) := by
  decide

end GerritComments

/-! ## The head-change listener -/

/-- An event of `gitDirsWatcher.onDidChangeHead`: a Git directory and its new `head`, `none` for
    `undefined`. -/
structure HeadEvent where
  gitDir : String
  head : Option String

/-- The listener of `gitDirsWatcher.onDidChangeHead` (`gerrit_comments.ts:52-61`) on the variable
    `gitHead` it closes over, one for all Git directories: the new `gitHead`, and the call
    `requestFetch(event.gitDir, new Ticket())` it makes, with the head that made it. -/
def onDidChangeHead (gitHead : String) (event : HeadEvent) : String × Option (String × String) :=
  match event.head with
  | some head =>
    if head ≠ "" ∧ head ≠ gitHead then (head, some (event.gitDir, head)) else (gitHead, none)
  | none => (gitHead, none)

/-- The `requestFetch` calls of the listener over a sequence of events, from `gitHead`. -/
def fetchRequests (gitHead : String) : List HeadEvent → List (String × String)
  | [] => []
  | event :: events =>
    let (gitHead', request) := onDidChangeHead gitHead event
    request.toList ++ fetchRequests gitHead' events

theorem destutter'_eq_cons_tail {α : Type} {R : α → α → Prop} [DecidableRel R] (a : α)
    (l : List α) : l.destutter' R a = a :: (l.destutter' R a).tail := by
  induction l with
  | nil => rfl
  | cons b l ih =>
    by_cases h : R a b
    · rw [List.destutter'_cons_pos l h]; rfl
    · rw [List.destutter'_cons_neg l h]; exact ih

/-- From `gitHead`, the heads fetched are those that `destutter'` keeps after it. -/
theorem fetchRequests_heads_of (gitHead : String) (events : List HeadEvent) :
    (fetchRequests gitHead events).map Prod.snd =
      (((events.filterMap HeadEvent.head).filter (· ≠ "")).destutter'
        (fun a b : String => a ≠ b) gitHead).tail := by
  induction events generalizing gitHead with
  | nil => rfl
  | cons event events ih =>
    obtain ⟨gitDir, _ | head⟩ := event
    · simpa [fetchRequests, onDidChangeHead] using ih gitHead
    · by_cases he : head = ""
      · simpa [fetchRequests, onDidChangeHead, he] using ih gitHead
      · by_cases hg : head = gitHead
        · subst hg
          simpa [fetchRequests, onDidChangeHead, he, List.destutter'_cons] using ih head
        · simp only [fetchRequests, onDidChangeHead, List.filterMap_cons, List.filter_cons]
          simp [he, hg, List.destutter'_cons, Ne.symm hg, ih]
          exact (destutter'_eq_cons_tail head _).symm

theorem fetchRequests_sublist (gitHead : String) (events : List HeadEvent) :
    List.Sublist (fetchRequests gitHead events)
      (events.filterMap fun e => e.head.map (e.gitDir, ·)) := by
  induction events generalizing gitHead with
  | nil => exact List.Sublist.slnil
  | cons event events ih =>
    obtain ⟨gitDir, _ | head⟩ := event
    · simpa [fetchRequests, onDidChangeHead] using ih gitHead
    · simp only [fetchRequests, onDidChangeHead, List.filterMap_cons, Option.map_some']
      split
      · exact (ih head).cons₂ _
      · exact (ih gitHead).cons _

/-- Over any sequence of head changes, in any Git directories, a fetch is requested for each
    non-empty head that differs from the last non-empty head before it, in whichever
    directory: the heads fetched are the non-empty heads with consecutive repeats removed, and
    each fetch is for the directory of its event, in the order of the events. -/
theorem fetchRequests_destutter (events : List HeadEvent) :
    (fetchRequests "" events).map Prod.snd =
        ((events.filterMap HeadEvent.head).filter (· ≠ "")).destutter
          (fun a b : String => a ≠ b) ∧
      List.Sublist (fetchRequests "" events)
        (events.filterMap fun e => e.head.map (e.gitDir, ·)) := by
  refine ⟨?_, fetchRequests_sublist "" events⟩
  rw [fetchRequests_heads_of]
  generalize hl : (events.filterMap HeadEvent.head).filter (· ≠ "") = l
  cases l with
  | nil => rfl
  | cons head l =>
    have he : head ≠ "" :=
      of_decide_eq_true (List.mem_filter.1 (hl ▸ List.mem_cons_self head l : head ∈ _)).2
    simp [List.destutter'_cons, Ne.symm he, List.destutter_cons']

/- The directory `b` moving to the head `h1` last seen in `a` requests no fetch; `a` moving
   back to `h1` after `h2` does. -/
example : fetchRequests "" [⟨"a", some "h1"⟩, ⟨"a", none⟩, ⟨"a", some "h1"⟩, ⟨"b", some "h1"⟩,
    ⟨"b", some "h2"⟩, ⟨"a", some "h1"⟩] = [("a", "h1"), ("b", "h2"), ("a", "h1")] := by
  decide

end CrosIde.Gerrit
