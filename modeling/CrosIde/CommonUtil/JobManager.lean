import Mathlib.Data.List.Perm.Basic
import Mathlib.Data.List.Nodup

/-!
# `JobManager`

`JobManager` of `common_util.ts:86-128`, with its `Task` (`common_util.ts:68-84`), as a
state machine over the event loop that drives it. A run is a trace of three kinds of
event: a call of `offer`, the settling of the promise of a started job (whereupon
`Task.run` resolves or rejects the caller's promise), and the resumption of the `handle()`
activation that awaited that `Task.run`. Offers may come at any point of the trace, so
offers made by a running job, or by a caller woken by a settled promise before `handle()`
resumes, are runs like any other.

Tasks are named by their offer number. A job is represented by what awaiting it yields,
its return value or its thrown error, and the caller's promise by the calls made to its
`resolve` and `reject`; `resolve(null)` is `.ok none`.
-/

namespace CrosIde.CommonUtil

/-- A `JobManager<T>` (`common_util.ts:91-128`) and the `handle()` activations suspended
    in it. -/
structure JobManager (α ε : Type) where
  /-- `tasks`: the queued tasks. -/
  tasks : List Nat
  /-- `running`. -/
  running : Bool
  /-- The job of each task offered so far. -/
  jobs : List (Except ε α)
  /-- Tasks whose `handle()` activation awaits `task.run()` while the job is pending. -/
  pending : List Nat
  /-- Tasks whose `task.run()` has returned, their `handle()` activation not yet resumed. -/
  finished : List Nat
  /-- The calls of the tasks' `resolve` and `reject`, in order. -/
  settled : List (Nat × Except ε (Option α))
  /-- The tasks whose job has been invoked, in order. -/
  started : List Nat
  deriving Repr

namespace JobManager

variable {α ε : Type}

/-- An event of a run. -/
inductive Event (α ε : Type) where
  /-- `offer(job)` (`common_util.ts:104-109`). -/
  | offer (job : Except ε α)
  /-- The promise of task `i`'s job settles, and `Task.run` passes the outcome on. -/
  | settle (i : Nat)
  /-- The `handle()` activation that started task `i` resumes after `await task.run()`. -/
  | resume (i : Nat)
  deriving Repr

/-- `while (this.tasks.length > 1) this.tasks.shift()!.cancel()` (`common_util.ts:112-114`):
    the tasks kept, and the tasks cancelled oldest first. -/
def shiftOld : List Nat → List Nat × List Nat
  | t :: u :: rest => ((shiftOld (u :: rest)).1, t :: (shiftOld (u :: rest)).2)
  | ts => (ts, [])

/-- `Task.cancel()` (`common_util.ts:74-76`): `resolve(null)`. -/
def cancel (t : Nat) : Nat × Except ε (Option α) := (t, .ok none)

/-- `handle()` (`common_util.ts:111-127`) up to its first `await`: cancel all queued tasks
    but the last; then, unless a task is running, pop the last one and invoke its job. -/
def handle (m : JobManager α ε) : JobManager α ε :=
  let m := { m with tasks := (shiftOld m.tasks).1,
                    settled := m.settled ++ (shiftOld m.tasks).2.map cancel }
  if m.running then m
  else
    match m.tasks.getLast? with
    | none => m
    | some t => { m with tasks := m.tasks.dropLast, running := true,
                         pending := m.pending ++ [t], started := m.started ++ [t] }

/-- `offer(job)` (`common_util.ts:104-109`): push a new task and call `handle()`. -/
def offer (m : JobManager α ε) (job : Except ε α) : JobManager α ε :=
  handle { m with jobs := m.jobs ++ [job], tasks := m.tasks ++ [m.jobs.length] }

/-- The job of task `i` settles: `Task.run` (`common_util.ts:77-83`) resolves the caller's
    promise with the job's value or rejects it with the job's error. -/
def settle (m : JobManager α ε) (i : Nat) : JobManager α ε :=
  match m.jobs[i]? with
  | some job =>
    if i ∈ m.pending then
      { m with pending := m.pending.erase i, finished := m.finished ++ [i],
               settled := m.settled ++ [(i, job.map some)] }
    else m
  | none => m

/-- The rest of `handle()` after `await task.run()` (`common_util.ts:125-126`):
    `this.running = false; await this.handle()`. -/
def resume (m : JobManager α ε) (i : Nat) : JobManager α ε :=
  if i ∈ m.finished then handle { m with finished := m.finished.erase i, running := false }
  else m

/-- One event of a run. -/
def step (m : JobManager α ε) : Event α ε → JobManager α ε
  | .offer job => m.offer job
  | .settle i => m.settle i
  | .resume i => m.resume i

/-- A fresh `new JobManager()`. -/
def init : JobManager α ε := ⟨[], false, [], [], [], [], []⟩

/-- The state after a trace of events. -/
def run (tr : List (Event α ε)) : JobManager α ε := tr.foldl step init

/-- The job an event offers, if it is an offer. -/
def Event.offered : Event α ε → Option (Except ε α)
  | .offer job => some job
  | _ => none

@[simp] theorem shiftOld_nil : shiftOld [] = ([], []) := rfl
@[simp] theorem shiftOld_single (t : Nat) : shiftOld [t] = ([t], []) := rfl
@[simp] theorem shiftOld_pair (t u : Nat) : shiftOld [t, u] = ([u], [t]) := rfl

/-! ## What one event does -/

variable {m : JobManager α ε} {job : Except ε α} {i t : Nat}

/-- An offer to an idle manager starts its job at once. -/
theorem offer_of_idle (ht : m.tasks = []) (hr : m.running = false) :
    m.offer job = { m with
      jobs := m.jobs ++ [job], running := true,
      pending := m.pending ++ [m.jobs.length], started := m.started ++ [m.jobs.length] } := by
  simp [offer, handle, ht, hr]

/-- An offer while a task runs and none is queued is queued. -/
theorem offer_of_busy (ht : m.tasks = []) (hr : m.running = true) :
    m.offer job = { m with jobs := m.jobs ++ [job], tasks := [m.jobs.length] } := by
  simp [offer, handle, ht, hr]

/-- An offer while a task runs and task `t` is queued cancels `t` and takes its place. -/
theorem offer_of_queued (ht : m.tasks = [t]) (hr : m.running = true) :
    m.offer job = { m with
      jobs := m.jobs ++ [job], tasks := [m.jobs.length], settled := m.settled ++ [cancel t] } := by
  simp [offer, handle, ht, hr]

theorem settle_of_pending (hp : m.pending = [i]) (hlen : i < m.jobs.length) :
    m.settle i = { m with
      pending := [], finished := m.finished ++ [i],
      settled := m.settled ++ [(i, m.jobs[i].map some)] } := by
  simp [settle, hp, List.getElem?_eq_getElem hlen]

theorem settle_of_not_pending (hp : i ∉ m.pending) : m.settle i = m := by
  unfold settle; split <;> simp [hp]

/-- `handle()` resumes with nothing queued: the manager becomes idle. -/
theorem resume_of_idle (hf : m.finished = [i]) (ht : m.tasks = []) :
    m.resume i = { m with finished := [], running := false } := by
  simp [resume, handle, hf, ht]

/-- `handle()` resumes with task `t` queued: `t`'s job is invoked. -/
theorem resume_of_queued (hf : m.finished = [i]) (ht : m.tasks = [t]) :
    m.resume i = { m with
      finished := [], tasks := [], running := true,
      pending := m.pending ++ [t], started := m.started ++ [t] } := by
  simp [resume, handle, hf, ht]

theorem resume_of_not_finished (hf : i ∉ m.finished) : m.resume i = m := by
  simp [resume, hf]

@[simp] theorem handle_jobs (m : JobManager α ε) : (handle m).jobs = m.jobs := by
  simp only [handle]; split <;> [rfl; split <;> rfl]

@[simp] theorem offer_jobs : (m.offer job).jobs = m.jobs ++ [job] := by simp [offer]

@[simp] theorem settle_jobs : (m.settle i).jobs = m.jobs := by
  unfold settle; split <;> [split <;> rfl; rfl]

@[simp] theorem resume_jobs : (m.resume i).jobs = m.jobs := by
  unfold resume; split <;> simp

theorem step_jobs (e : Event α ε) : (m.step e).jobs = m.jobs ++ e.offered.toList := by
  cases e <;> simp [step, Event.offered]

/-! ## The invariant -/

/-- What holds of every reachable state: at most one task is queued, it is the newest,
    and it waits only on a running task; at most one started task is not fully handled;
    jobs start in offer order; every offered task is in exactly one of the queue, the
    pending jobs and the settled promises; a settled promise was cancelled before its job
    started, or carries the outcome of its own job. -/
structure Inv (m : JobManager α ε) : Prop where
  tasks_length : m.tasks.length ≤ 1
  tasks_newest : ∀ t ∈ m.tasks, t + 1 = m.jobs.length
  queued_running : m.tasks ≠ [] → m.running = true
  active_length : (m.pending ++ m.finished).length ≤ 1
  running_iff : m.running = true ↔ m.pending ++ m.finished ≠ []
  started_sorted : m.started.Pairwise (· < ·)
  started_lt : ∀ i ∈ m.started, i < m.jobs.length
  tasks_unstarted : ∀ t ∈ m.tasks, t ∉ m.started
  pending_started : ∀ i ∈ m.pending, i ∈ m.started
  partition : (m.tasks ++ m.pending ++ m.settled.map Prod.fst).Perm (List.range m.jobs.length)
  settled_cases : ∀ i r, (i, r) ∈ m.settled →
    (r = .ok none ∧ i ∉ m.started ∧ i + 1 < m.jobs.length) ∨
    (i ∈ m.started ∧ ∃ job, m.jobs[i]? = some job ∧ r = job.map some)

theorem inv_init : (init : JobManager α ε).Inv := by
  constructor <;> simp [init]

namespace Inv

theorem tasks_cases (hi : m.Inv) : m.tasks = [] ∨ ∃ t, m.tasks = [t] := by
  have h := hi.tasks_length
  match ht : m.tasks, h with
  | [], _ => exact .inl rfl
  | [t], _ => exact .inr ⟨t, rfl⟩

theorem idle (hi : m.Inv) (hr : m.running = false) : m.pending = [] ∧ m.finished = [] := by
  simpa [hr] using hi.running_iff

theorem pending_eq (hi : m.Inv) (hp : i ∈ m.pending) : m.pending = [i] ∧ m.finished = [] := by
  have h := hi.active_length
  match hq : m.pending, hf : m.finished, h with
  | [j], [], _ => simp_all
  | [], _, _ => simp_all
  | _ :: _ :: _, _, h => simp at h
  | _ :: _, _ :: _, h => simp at h

theorem finished_eq (hi : m.Inv) (hf : i ∈ m.finished) : m.finished = [i] ∧ m.pending = [] := by
  have h := hi.active_length
  match hq : m.pending, hg : m.finished, h with
  | [], [j], _ => simp_all
  | _, [], _ => simp_all
  | _, _ :: _ :: _, h => simp at h; omega
  | _ :: _, _ :: _, h => simp at h

theorem nodup (hi : m.Inv) : (m.tasks ++ m.pending ++ m.settled.map Prod.fst).Nodup :=
  hi.partition.nodup_iff.2 (List.nodup_range _)

/-- A queued task's promise has not settled. -/
theorem task_unsettled (hi : m.Inv) (ht : t ∈ m.tasks) (r : Except ε (Option α)) :
    (t, r) ∉ m.settled := fun h =>
  List.disjoint_of_nodup_append hi.nodup (List.mem_append_left _ ht)
    (List.mem_map_of_mem Prod.fst h)

/-- A pending job's promise has not settled. -/
theorem pending_unsettled (hi : m.Inv) (hp : i ∈ m.pending) (r : Except ε (Option α)) :
    (i, r) ∉ m.settled := fun h =>
  List.disjoint_of_nodup_append hi.nodup (List.mem_append_right _ hp)
    (List.mem_map_of_mem Prod.fst h)

/-- Appending a job keeps the lookup of every started task. -/
theorem settled_cases_append (hi : m.Inv) (job : Except ε α) {i : Nat}
    {r : Except ε (Option α)} (h : (i, r) ∈ m.settled) :
    (r = .ok none ∧ i ∉ m.started ∧ i + 1 < m.jobs.length + 1) ∨
    (i ∈ m.started ∧ ∃ j, (m.jobs ++ [job])[i]? = some j ∧ r = j.map some) := by
  rcases hi.settled_cases i r h with ⟨hr, hs, hn⟩ | ⟨hs, j, hj, hr⟩
  · exact .inl ⟨hr, hs, by omega⟩
  · exact .inr ⟨hs, j, by rw [List.getElem?_append_left (hi.started_lt i hs)]; exact hj, hr⟩

/-- An offer to an idle manager keeps the invariant. -/
theorem offer_idle (hi : m.Inv) (ht : m.tasks = []) (hr : m.running = false) :
    (m.offer job).Inv := by
  obtain ⟨hp, hf⟩ := hi.idle hr
  have hlt := hi.started_lt
  have hpart := List.perm_iff_count.1 hi.partition
  rw [offer_of_idle ht hr]
  refine ⟨by simp [ht], by simp [ht], by simp, by simp [hp, hf], by simp, ?_, ?_, by simp [ht],
    by simp [hp], ?_, ?_⟩
  · exact List.pairwise_append.2 ⟨hi.started_sorted, by simp,
      fun a ha b hb => (List.mem_singleton.1 hb) ▸ hlt a ha⟩
  · simp only [List.mem_append, List.mem_singleton, List.length_append, List.length_singleton]
    rintro i (h | rfl) <;> [exact Nat.lt_succ_of_lt (hlt i h); omega]
  · rw [List.perm_iff_count]; intro a
    have := hpart a
    simp [List.count_append, List.count_cons, List.range_succ, ht, hp] at *
    omega
  · intro i r h
    rcases hi.settled_cases i r h with ⟨hr, hs, hn⟩ | ⟨hs, j, hj, hr⟩
    · exact .inl ⟨hr, by simp [hs]; omega, by simp; omega⟩
    · exact .inr ⟨by simp [hs], j, by rw [List.getElem?_append_left (hlt i hs)]; exact hj, hr⟩

/-- An offer while a task runs keeps the invariant, whether it cancels a queued task or not. -/
theorem offer_running (hi : m.Inv) (hr : m.running = true) : (m.offer job).Inv := by
  have hlt := hi.started_lt
  have hpart := List.perm_iff_count.1 hi.partition
  have fresh : m.jobs.length ∉ m.started := fun h => by have := hlt _ h; omega
  rcases hi.tasks_cases with ht | ⟨t, ht⟩
  · rw [offer_of_busy ht hr]
    refine ⟨by simp, by simp, fun _ => hr, hi.active_length, hi.running_iff, hi.started_sorted,
      fun i h => by simpa using Nat.lt_succ_of_lt (hlt i h), by simpa using fresh,
      hi.pending_started, ?_,
      fun i r h => by simpa using hi.settled_cases_append job h⟩
    rw [List.perm_iff_count]; intro a
    have := hpart a
    simp [List.count_append, List.count_cons, List.range_succ, ht] at *
    omega
  · have ht' : t + 1 = m.jobs.length := hi.tasks_newest t (by simp [ht])
    have hts : t ∉ m.started := hi.tasks_unstarted t (by simp [ht])
    rw [offer_of_queued ht hr]
    refine ⟨by simp, by simp, fun _ => hr, hi.active_length, hi.running_iff, hi.started_sorted,
      fun i h => by simpa using Nat.lt_succ_of_lt (hlt i h), by simpa using fresh,
      hi.pending_started, ?_, ?_⟩
    · rw [List.perm_iff_count]; intro a
      have := hpart a
      simp [List.count_append, List.count_cons, List.range_succ, ht, cancel] at *
      omega
    · intro i r h
      rcases List.mem_append.1 h with h | h
      · simpa using hi.settled_cases_append job h
      · simp only [cancel, List.mem_singleton, Prod.mk.injEq] at h
        obtain ⟨rfl, rfl⟩ := h
        exact .inl ⟨rfl, hts, by simp; omega⟩

/-- The settling of the pending job keeps the invariant. -/
theorem settle (hi : m.Inv) (i : Nat) : (m.settle i).Inv := by
  by_cases hp : i ∈ m.pending
  · obtain ⟨hp1, hf⟩ := hi.pending_eq hp
    have hs := hi.pending_started i hp
    have hlen := hi.started_lt i hs
    have hr : m.running = true := hi.running_iff.2 (by simp [hp1])
    rw [settle_of_pending hp1 hlen]
    refine ⟨hi.tasks_length, hi.tasks_newest, hi.queued_running, by simp [hf],
      by simp [hr], hi.started_sorted, hi.started_lt, hi.tasks_unstarted, by simp, ?_, ?_⟩
    · rw [List.perm_iff_count]; intro a
      have := List.perm_iff_count.1 hi.partition a
      simp [List.count_append, List.count_cons, hp1] at *
      omega
    · intro k r h
      rcases List.mem_append.1 h with h | h
      · exact hi.settled_cases k r h
      · simp only [List.mem_singleton, Prod.mk.injEq] at h
        obtain ⟨rfl, rfl⟩ := h
        exact .inr ⟨hs, _, List.getElem?_eq_getElem hlen, rfl⟩
  · rw [settle_of_not_pending hp]; exact hi

/-- The resumption of `handle()` keeps the invariant, whether it starts the queued task or
    leaves the manager idle. -/
theorem resume (hi : m.Inv) (i : Nat) : (m.resume i).Inv := by
  by_cases hf : i ∈ m.finished
  · obtain ⟨hf1, hp⟩ := hi.finished_eq hf
    rcases hi.tasks_cases with ht | ⟨t, ht⟩
    · rw [resume_of_idle hf1 ht]
      refine ⟨by simp [ht], by simp [ht], by simp [ht], by simp [hp], by simp [hp],
        hi.started_sorted, hi.started_lt, hi.tasks_unstarted, hi.pending_started, hi.partition,
        hi.settled_cases⟩
    · have ht' : t + 1 = m.jobs.length := hi.tasks_newest t (by simp [ht])
      have hts : t ∉ m.started := hi.tasks_unstarted t (by simp [ht])
      rw [resume_of_queued hf1 ht]
      refine ⟨by simp, by simp, by simp, by simp [hp], by simp, ?_, ?_, by simp, by simp [hp], ?_,
        ?_⟩
      · refine List.pairwise_append.2 ⟨hi.started_sorted, by simp, fun a ha b hb => ?_⟩
        have := hi.started_lt a ha
        rw [List.mem_singleton.1 hb]
        exact lt_of_le_of_ne (by omega) (fun h => hts (h ▸ ha))
      · simp only [List.mem_append, List.mem_singleton]
        rintro k (h | rfl) <;> [exact hi.started_lt k h; omega]
      · simpa [ht, hp] using hi.partition
      · intro k r h
        have hk : k ≠ t := fun e => hi.task_unsettled (by simp [ht]) r (e ▸ h)
        rcases hi.settled_cases k r h with ⟨hr, hs, hn⟩ | ⟨hs, j, hj, hr⟩
        · exact .inl ⟨hr, by simp [hs, hk], hn⟩
        · exact .inr ⟨by simp [hs], j, hj, hr⟩
  · rw [resume_of_not_finished hf]; exact hi

/-- Every event keeps the invariant. -/
theorem step (hi : m.Inv) : ∀ e : Event α ε, (m.step e).Inv
  | .offer _ => by
    cases hr : m.running
    · rcases hi.tasks_cases with ht | ⟨t, ht⟩
      · exact hi.offer_idle ht hr
      · exact absurd (hi.queued_running (by simp [ht])) (by simp [hr])
    · exact hi.offer_running hr
  | .settle i => hi.settle i
  | .resume i => hi.resume i

/-- An offer or a resumption of `handle()` either leaves the started jobs as they are or,
    with no job pending, invokes one. -/
theorem starts (hi : m.Inv) (e : Event α ε) (he : ∀ i, e ≠ .settle i) :
    ((m.step e).pending = m.pending ∧ (m.step e).started = m.started) ∨
      ∃ t, m.pending = [] ∧ (m.step e).pending = [t] ∧ (m.step e).started = m.started ++ [t] := by
  cases e with
  | offer job =>
    cases hr : m.running
    · rcases hi.tasks_cases with ht | ⟨t, ht⟩
      · have hp := (hi.idle hr).1
        exact .inr ⟨m.jobs.length, hp, by simp [JobManager.step, offer_of_idle ht hr, hp]⟩
      · exact absurd (hi.queued_running (by simp [ht])) (by simp [hr])
    · rcases hi.tasks_cases with ht | ⟨t, ht⟩
      · exact .inl (by simp [JobManager.step, offer_of_busy ht hr])
      · exact .inl (by simp [JobManager.step, offer_of_queued ht hr])
  | settle i => exact absurd rfl (he i)
  | resume i =>
    by_cases hf : i ∈ m.finished
    · obtain ⟨hf1, hp⟩ := hi.finished_eq hf
      rcases hi.tasks_cases with ht | ⟨t, ht⟩
      · exact .inl (by simp [JobManager.step, resume_of_idle hf1 ht])
      · exact .inr ⟨t, hp, by simp [JobManager.step, resume_of_queued hf1 ht, hp]⟩
    · exact .inl (by simp [JobManager.step, resume_of_not_finished hf])

theorem foldl : ∀ {m : JobManager α ε}, m.Inv → ∀ tr : List (Event α ε),
    (tr.foldl JobManager.step m).Inv
  | _, hi, [] => hi
  | _, hi, e :: tr => foldl (hi.step e) tr

end Inv

/-- Every reachable state satisfies the invariant. -/
theorem inv_run (tr : List (Event α ε)) : (run tr).Inv := by
  unfold run
  induction tr using List.reverseRecOn with
  | nil => exact inv_init
  | append_singleton tr e ih => simpa using ih.step e

theorem run_append (tr tr' : List (Event α ε)) : run (tr ++ tr') = tr'.foldl step (run tr) :=
  List.foldl_append _ _ _ _

theorem run_snoc (tr : List (Event α ε)) (e : Event α ε) : run (tr ++ [e]) = (run tr).step e := by
  simp [run_append]

/-! ## Exclusion -/

/-- In every run of a `JobManager`, offers made from inside a job included, at most one
    started task is not yet fully handled, at most one task is queued, and a queued task
    waits on a task in progress. -/
theorem run_exclusive (tr : List (Event α ε)) :
    ((run tr).pending ++ (run tr).finished).length ≤ 1 ∧ (run tr).tasks.length ≤ 1 ∧
      ((run tr).tasks ≠ [] →
        (run tr).running = true ∧ (run tr).pending ++ (run tr).finished ≠ []) := by
  have hi := inv_run tr
  refine ⟨hi.active_length, hi.tasks_length, fun ht => ?_⟩
  have hr := hi.queued_running ht
  exact ⟨hr, hi.running_iff.1 hr⟩

/-! ## Settlement of the callers' promises -/

theorem handle_settled {l : List (Nat × Except ε (Option α))} (m : JobManager α ε)
    (h : l <+: m.settled) : l <+: (handle m).settled := by
  refine h.trans ?_
  simp only [handle]
  split
  · exact List.prefix_append _ _
  · split <;> exact List.prefix_append _ _

/-- Promises, once settled, stay settled. -/
theorem settled_prefix_step (m : JobManager α ε) : ∀ e, m.settled <+: (m.step e).settled
  | .offer _ => handle_settled _ (List.prefix_refl _)
  | .settle i => by
    simp only [step, settle]
    split
    · split
      · exact List.prefix_append _ _
      · exact List.prefix_refl _
    · exact List.prefix_refl _
  | .resume i => by
    simp only [step, resume]
    split
    · exact handle_settled _ (List.prefix_refl _)
    · exact List.prefix_refl _

theorem settled_prefix_foldl (tr : List (Event α ε)) (m : JobManager α ε) :
    m.settled <+: (tr.foldl step m).settled := by
  induction tr generalizing m with
  | nil => exact List.prefix_refl _
  | cons e tr ih => exact (settled_prefix_step m e).trans (ih _)

/-- The one way a promise gets cancelled: an offer while its task is queued. -/
theorem cancelled_step (hi : m.Inv) (i : Nat) (e : Event α ε) :
    (i, .ok none) ∈ (m.step e).settled ↔
      (i, .ok none) ∈ m.settled ∨ (∃ job, e = .offer job) ∧ i ∈ m.tasks := by
  cases e with
  | offer job =>
    cases hr : m.running
    · rcases hi.tasks_cases with ht | ⟨t, ht⟩
      · simp [step, offer_of_idle ht hr, ht]
      · exact absurd (hi.queued_running (by simp [ht])) (by simp [hr])
    · rcases hi.tasks_cases with ht | ⟨t, ht⟩
      · simp [step, offer_of_busy ht hr, ht]
      · simp [step, offer_of_queued ht hr, ht, cancel, eq_comm]
  | settle k =>
    by_cases hp : k ∈ m.pending
    · have hlen := hi.started_lt k (hi.pending_started k hp)
      rw [step, settle_of_pending (hi.pending_eq hp).1 hlen]
      cases m.jobs[k] <;> simp [Except.map]
    · simp [step, settle_of_not_pending hp]
  | resume k =>
    by_cases hf : k ∈ m.finished
    · rcases hi.tasks_cases with ht | ⟨t, ht⟩
      · simp [step, resume_of_idle (hi.finished_eq hf).1 ht]
      · simp [step, resume_of_queued (hi.finished_eq hf).1 ht]
    · simp [step, resume_of_not_finished hf]

/-- The events by which the job in progress completes and its `handle()` resumes, then the
    queued task, if any, runs and completes in turn; no offer is made. -/
def drain (m : JobManager α ε) : List (Event α ε) :=
  m.pending.map .settle ++ (m.pending ++ m.finished).map .resume ++
    m.tasks.flatMap fun t => [.settle t, .resume t]

/-- After `handle()` resumes with the queued tasks `ts`, these run to completion. -/
theorem drain_tail (hi : m.Inv) (hf : m.finished = [i]) (hp : m.pending = []) :
    let m' := ((Event.resume i :: m.tasks.flatMap fun t => [.settle t, .resume t]).foldl step m)
    m'.tasks = [] ∧ m'.pending = [] ∧ m'.finished = [] ∧ m'.jobs = m.jobs := by
  rcases hi.tasks_cases with ht | ⟨t, ht⟩
  · simp [ht, hp, step, resume_of_idle hf ht]
  · have hlen : t < m.jobs.length := by have := hi.tasks_newest t (by simp [ht]); omega
    simp only [ht, List.flatMap_cons, List.flatMap_nil, List.append_nil, List.foldl_cons,
      List.foldl_nil, step, resume_of_queued hf ht]
    rw [settle_of_pending (by simp [hp]) (by simpa using hlen),
      resume_of_idle (by simp) (by simp)]
    simp

/-- Once the started jobs complete, with no further offer, the manager is idle. -/
theorem drain_idle (hi : m.Inv) :
    let m' := m.drain.foldl step m
    m'.tasks = [] ∧ m'.pending = [] ∧ m'.finished = [] ∧ m'.jobs = m.jobs := by
  cases hr : m.running
  · obtain ⟨hp, hf⟩ := hi.idle hr
    have ht : m.tasks = [] := by
      by_contra h; exact absurd (hi.queued_running h) (by simp [hr])
    simp [drain, hp, hf, ht]
  · have ha := hi.running_iff.1 hr
    match hp : m.pending, hf : m.finished with
    | [k], [] =>
      have hlen := hi.started_lt k (hi.pending_started k (by simp [hp]))
      have hi' := hi.settle k
      rw [settle_of_pending hp hlen] at hi'
      have h := drain_tail (i := k) hi' (by simp [hf]) rfl
      simpa [drain, hp, hf, step, settle_of_pending hp hlen] using h
    | [], [k] =>
      have h := drain_tail hi hf hp
      simpa [drain, hp, hf] using h
    | [], [] => simp [hp, hf] at ha
    | _ :: _, _ :: _ | _ :: _ :: _, _ | _, _ :: _ :: _ =>
      have := hi.active_length; simp [hp, hf] at this <;> omega

/-- Once the started jobs complete, with no further offer, every offered task has settled. -/
theorem Inv.drain_settled (hi : m.Inv) {i : Nat} (hlt : i < m.jobs.length) :
    i ∈ (m.drain.foldl JobManager.step m).settled.map Prod.fst := by
  obtain ⟨ht, hp, -, hj⟩ := drain_idle hi
  have hperm := (hi.foldl m.drain).partition
  rw [ht, hp, hj, List.nil_append, List.nil_append] at hperm
  exact hperm.mem_iff.2 (List.mem_range.2 hlt)

/-- A task's promise resolves to `null` iff a later offer was made while it was queued. -/
theorem cancelled_iff (tr : List (Event α ε)) (i : Nat) :
    (i, .ok none) ∈ (run tr).settled ↔
      ∃ pre job post, tr = pre ++ .offer job :: post ∧ i ∈ (run pre).tasks := by
  constructor
  · induction tr using List.reverseRecOn with
    | nil => simp [run, init]
    | append_singleton tr e ih =>
      rw [run_snoc, cancelled_step (inv_run tr)]
      rintro (h | ⟨⟨job, rfl⟩, ht⟩)
      · obtain ⟨pre, job, post, rfl, ht⟩ := ih h
        exact ⟨pre, job, post ++ [e], by simp, ht⟩
      · exact ⟨tr, job, [], rfl, ht⟩
  · rintro ⟨pre, job, post, rfl, ht⟩
    have hc : (i, .ok none) ∈ (run (pre ++ [.offer job])).settled := by
      rw [run_snoc, cancelled_step (inv_run pre)]
      exact .inr ⟨⟨job, rfl⟩, ht⟩
    have hp := settled_prefix_foldl post (run (pre ++ [.offer job]))
    rw [← run_append, List.append_assoc, List.singleton_append] at hp
    exact hp.subset hc

/-- A job's outcome never reads as a cancellation. -/
theorem map_some_ne_cancel (job : Except ε α) : job.map some ≠ .ok none := by
  cases job <;> simp [Except.map]

/-- A cancelled task never started, and it is not the newest one. -/
theorem Inv.cancelled (hi : m.Inv) (h : (i, .ok none) ∈ m.settled) :
    i ∉ m.started ∧ i + 1 < m.jobs.length := by
  rcases hi.settled_cases i _ h with ⟨-, hs, hn⟩ | ⟨-, job, -, hr⟩
  · exact ⟨hs, hn⟩
  · exact absurd hr.symm (map_some_ne_cancel job)

/-- Every promise settles at most once; once the started jobs complete, every offered task
    has settled exactly once, cancelled or after its job was invoked. -/
theorem settles_once (tr : List (Event α ε)) :
    ((run tr).settled.map Prod.fst).Nodup ∧
      ∀ i < (run tr).jobs.length,
        ((run (tr ++ (run tr).drain)).settled.map Prod.fst).count i = 1 ∧
        ((i, .ok none) ∈ (run (tr ++ (run tr).drain)).settled ∨
          i ∈ (run (tr ++ (run tr).drain)).started) := by
  have hi := inv_run tr
  refine ⟨hi.nodup.sublist (List.sublist_append_right _ _), fun i hlt => ?_⟩
  have hi' := inv_run (tr ++ (run tr).drain)
  obtain ⟨ht, hp, -, hj⟩ := drain_idle hi
  rw [← run_append] at ht hp hj
  have hperm := hi'.partition
  rw [ht, hp, hj, List.nil_append, List.nil_append] at hperm
  have hmem : i ∈ (run (tr ++ (run tr).drain)).settled.map Prod.fst :=
    hperm.mem_iff.2 (List.mem_range.2 hlt)
  refine ⟨hperm.count_eq i ▸ List.count_eq_one_of_mem (List.nodup_range _) (List.mem_range.2 hlt),
    ?_⟩
  obtain ⟨⟨_, r⟩, hr, rfl⟩ := List.mem_map.1 hmem
  rcases hi'.settled_cases _ r hr with ⟨rfl, -⟩ | ⟨hs, -⟩
  · exact .inl hr
  · exact .inr hs

/-! ## What the jobs yield -/

section MapJobs

variable {α' ε' : Type} (f : Except ε α → Except ε' α')

/-- What `Task.run` passes on, with what the job yields changed by `f`. -/
def mapOutcome : Except ε (Option α) → Except ε' (Option α')
  | .ok none => .ok none
  | .ok (some a) => (f (.ok a)).map some
  | .error e => (f (.error e)).map some

/-- The manager with what each job yields changed by `f` (no source counterpart). -/
def mapJobs (m : JobManager α ε) : JobManager α' ε' :=
  ⟨m.tasks, m.running, m.jobs.map f, m.pending, m.finished,
    m.settled.map fun p => (p.1, mapOutcome f p.2), m.started⟩

/-- An event with the job it offers changed by `f`. -/
def Event.mapJob : Event α ε → Event α' ε'
  | .offer job => .offer (f job)
  | .settle i => .settle i
  | .resume i => .resume i

@[simp] theorem mapJobs_tasks (m : JobManager α ε) : (m.mapJobs f).tasks = m.tasks := rfl
@[simp] theorem mapJobs_started (m : JobManager α ε) : (m.mapJobs f).started = m.started := rfl
@[simp] theorem mapJobs_pending (m : JobManager α ε) : (m.mapJobs f).pending = m.pending := rfl
@[simp] theorem mapJobs_finished (m : JobManager α ε) : (m.mapJobs f).finished = m.finished := rfl

/-- A cancellation stays one, and nothing else becomes one. -/
theorem mapOutcome_eq_cancel (r : Except ε (Option α)) :
    mapOutcome f r = .ok none ↔ r = .ok none := by
  rcases r with e | _ | a <;> simp [mapOutcome, Except.map]
  all_goals split <;> simp

theorem cancel_mem_mapJobs (m : JobManager α ε) (i : Nat) :
    (i, .ok none) ∈ (m.mapJobs f).settled ↔ (i, .ok none) ∈ m.settled := by
  simp only [mapJobs, List.mem_map, Prod.mk.injEq]
  constructor
  · rintro ⟨⟨j, r⟩, h, rfl, hr⟩
    rwa [(mapOutcome_eq_cancel f r).1 hr] at h
  · exact fun h => ⟨_, h, rfl, rfl⟩

theorem mapOutcome_map_some (job : Except ε α) :
    mapOutcome f (job.map some) = (f job).map some := by
  cases job <;> rfl

theorem handle_mapJobs (m : JobManager α ε) : (handle m).mapJobs f = handle (m.mapJobs f) := by
  have hc : (fun p : Nat × Except ε (Option α) => (p.1, mapOutcome f p.2)) ∘ cancel = cancel := rfl
  cases hr : m.running <;> cases ht : (shiftOld m.tasks).1.getLast? <;>
    simp [handle, mapJobs, hr, ht, List.map_map, hc]

/-- The manager moves alike whatever its jobs yield. -/
theorem mapJobs_step (m : JobManager α ε) :
    ∀ e, (m.step e).mapJobs f = (m.mapJobs f).step (e.mapJob f)
  | .offer job => by
    simp only [step, offer, Event.mapJob, handle_mapJobs]
    simp [mapJobs]
  | .settle i => by
    simp only [step, settle, Event.mapJob]
    cases h : m.jobs[i]? with
    | none => simp [mapJobs, h]
    | some job =>
      have h' : (m.jobs.map f)[i]? = some (f job) := by simp [h]
      simp only [mapJobs, h']
      split <;> simp [mapOutcome_map_some]
  | .resume i => by
    by_cases hf : i ∈ m.finished
    · simp only [step, resume, Event.mapJob, mapJobs_finished, hf, if_true]
      exact handle_mapJobs f _
    · simp [step, resume, Event.mapJob, hf]

/-- The invariant holds whatever the jobs yield. -/
theorem Inv.mapJobs {m : JobManager α ε} (hi : m.Inv) : (m.mapJobs f).Inv := by
  refine ⟨hi.tasks_length, by simpa [JobManager.mapJobs] using hi.tasks_newest, hi.queued_running,
    hi.active_length, hi.running_iff, hi.started_sorted,
    by simpa [JobManager.mapJobs] using hi.started_lt, hi.tasks_unstarted, hi.pending_started,
    by simpa [JobManager.mapJobs, List.map_map, Function.comp_def] using hi.partition,
    fun i r h => ?_⟩
  obtain ⟨⟨j, r₀⟩, h₀, he⟩ := List.mem_map.1 h
  obtain ⟨rfl, rfl⟩ := Prod.mk.inj he
  rcases hi.settled_cases j r₀ h₀ with ⟨rfl, hs, hn⟩ | ⟨hs, job, hj, rfl⟩
  · exact .inl ⟨rfl, hs, by simpa [JobManager.mapJobs] using hn⟩
  · exact .inr ⟨hs, f job, by simp [JobManager.mapJobs, hj], mapOutcome_map_some f job⟩

end MapJobs

/-- The invariant does not depend on what a started job yields before it settles. -/
theorem Inv.set_pending (hi : m.Inv) (hp : i ∈ m.pending) (job : Except ε α) :
    ({ m with jobs := m.jobs.set i job } : JobManager α ε).Inv := by
  refine { hi with tasks_newest := by simpa using hi.tasks_newest,
                   started_lt := by simpa using hi.started_lt,
                   partition := by simpa using hi.partition,
                   settled_cases := fun j r h => ?_ }
  rcases hi.settled_cases j r h with h' | ⟨hs, job', hj, hr⟩
  · exact .inl (by simpa using h')
  · have hji : i ≠ j := fun e => hi.pending_unsettled hp r (e ▸ h)
    exact .inr ⟨hs, job', by rw [List.getElem?_set_ne hji]; exact hj, hr⟩

/-- Task `i` is the `i`-th offer of the trace. -/
theorem jobs_run (tr : List (Event α ε)) : (run tr).jobs = tr.filterMap Event.offered := by
  induction tr using List.reverseRecOn with
  | nil => rfl
  | append_singleton tr e ih =>
    rw [run_snoc, step_jobs, ih, List.filterMap_append]
    cases e <;> rfl

end JobManager

end CrosIde.CommonUtil
