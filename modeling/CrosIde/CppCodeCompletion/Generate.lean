import CrosIde.CommonUtil.JobManager
import CrosIde.Ui.BgTaskStatus

/-!
# `CppCodeCompletion.generate` and its `JobManager`

`CppCodeCompletion.generate` of `cpp_code_completion.ts:169-224`, with `showErrorMessage`
(`cpp_code_completion.ts:226-253`), over the one `jobManager` of the instance
(`cpp_code_completion.ts:82`). Every trigger that selects a generator (a save, a change of
active editor, the `forceGenerate` command; `maybeGenerate`, `cpp_code_completion.ts:106-151`)
calls `generate`, which offers a job to that `JobManager`. The job sets the status of the
`C++ xrefs generation` task to `RUNNING` as soon as `handle()` invokes it, awaits
`generator.generate` and `clangd.restart`, and leaves by one of four exits.

A run is a run of the `JobManager` model, each offer made by a `generate` call, together
with the user's answers `Ignore` to the error messages shown.
-/

namespace CrosIde

open CommonUtil
open Ui (TaskStatus)

namespace CppCodeCompletion

/-- What an awaited call of the job throws: an `ErrorDetails` of kind `kind`
    (`compdb_generator`), or a value of another type, an `Error` say, with no `kind` and no
    `buttons`. -/
inductive Thrown where
  | errorDetails (kind : String)
  | other
  deriving DecidableEq, Repr

/-- `${rawError.kind}`: an absent property renders as `undefined`. -/
def Thrown.kind : Thrown → String
  | .errorDetails kind => kind
  | .other => "undefined"

/-- A call `generate(generator, document)`: the document, `generator.name`, and how the
    job's two awaited calls end, `generator.generate(document, canceller.token)` and
    `executeCommand('clangd.restart')`. -/
structure Generation where
  document : Nat
  name : String
  generate : Except Thrown Unit
  restart : Except Thrown Unit

/-- The `try` block (`cpp_code_completion.ts:184-196`): `clangd.restart` is awaited only
    once `generator.generate` has returned. -/
def Generation.outcome (g : Generation) : Except Thrown Unit :=
  g.generate.bind fun _ => g.restart

/-- How the job body ends (`cpp_code_completion.ts:197-223`). -/
inductive Exit where
  /-- `setStatus(STATUS_BAR_TASK_NAME, TaskStatus.OK)`. -/
  | ok
  /-- `showErrorMessage(error)` and `setStatus(STATUS_BAR_TASK_NAME, TaskStatus.ERROR)`, for
      an error of kind `kind`. -/
  | error (kind : String)
  /-- The `return` taken when `ignoredErrors.has(errorKind)`. -/
  | ignored
  /-- `...rawError.buttons` throws a `TypeError`, and the job rejects. -/
  | typeError
  deriving DecidableEq, Repr

/-- The end of the job body from the outcome of its `try` block, with `ignoredErrors` as
    it is when the `catch` block runs (`cpp_code_completion.ts:197-223`). -/
def jobExit (ignoredErrors : List String) (name : String) : Except Thrown Unit → Exit
  | .ok () => .ok
  | .error e =>
    let errorKind := name ++ ": " ++ e.kind
    if errorKind ∈ ignoredErrors then .ignored
    else
      match e with
      | .errorDetails _ => .error errorKind
      | .other => .typeError

/-- The `setStatus` call an exit makes, if any. -/
def Exit.setStatus : Exit → Option TaskStatus
  | .ok => some .ok
  | .error _ => some .error
  | .ignored | .typeError => none

/-- The status a job leaves behind: the `RUNNING` it set when it started, unless its exit
    sets another. -/
def Exit.status (x : Exit) : TaskStatus := x.setStatus.getD .running

/-- What the job's promise settles with: the `TypeError` rejects it, and every other exit
    returns. -/
def Exit.result : Exit → Except Unit Unit
  | .typeError => .error ()
  | _ => .ok ()

end CppCodeCompletion

/-- A `CppCodeCompletion` (`cpp_code_completion.ts:36-99`) as far as `generate` reads and
    writes it. -/
structure CppCodeCompletion where
  /-- `jobManager`. A job enters it as `.ok ()` and takes its outcome, `Exit.result`, when it
      runs to its exit. -/
  jobManager : JobManager Unit Unit
  /-- The `generate` call of each task, by offer number. -/
  generations : List CppCodeCompletion.Generation
  /-- The tasks whose job has ended, with its exit, in order. -/
  exits : List (Nat × CppCodeCompletion.Exit)
  /-- The status of the `STATUS_BAR_TASK_NAME` task; `none` before it is first set. -/
  status : Option TaskStatus
  /-- `ignoredErrors`. -/
  ignoredErrors : List String
  /-- The kinds of the errors passed to `showErrorMessage`, in order. -/
  shown : List String

namespace CppCodeCompletion

/-- An event of a run. -/
inductive Event where
  /-- `generate(generator, document)` offers its job (`cpp_code_completion.ts:172`). -/
  | generate (g : Generation)
  /-- The job of task `i` leaves its `try` block and runs to its exit. -/
  | settle (i : Nat)
  /-- The `handle()` activation that started task `i` resumes. -/
  | resume (i : Nat)
  /-- The user answers `Ignore` to a shown error of kind `kind`
      (`cpp_code_completion.ts:249-251`). -/
  | ignore (kind : String)

/-- The `JobManager` moves to `jm` by one of its events, and the job that event invoked, if
    any, runs up to its first `await`: `setTask(STATUS_BAR_TASK_NAME, {status: RUNNING,
    ...})` (`cpp_code_completion.ts:177-181`). -/
def startJobs (c : CppCodeCompletion) (jm : JobManager Unit Unit) : CppCodeCompletion :=
  { c with
    jobManager := jm,
    status := if c.jobManager.started.length < jm.started.length then some .running
      else c.status }

/-- `generate(generator, document)` (`cpp_code_completion.ts:169-224`) up to its `await`:
    `this.jobManager.offer(...)`. -/
def generate (c : CppCodeCompletion) (g : Generation) : CppCodeCompletion :=
  { c with generations := c.generations ++ [g] }.startJobs (c.jobManager.offer (.ok ()))

/-- The job of task `i` runs from the end of its `try` block to its exit, and `Task.run`
    settles the caller's promise with what the job yields. -/
def settle (c : CppCodeCompletion) (i : Nat) : CppCodeCompletion :=
  match c.generations[i]? with
  | some g =>
    if i ∈ c.jobManager.pending then
      let x := jobExit c.ignoredErrors g.name g.outcome
      { c with
        jobManager := { c.jobManager with jobs := c.jobManager.jobs.set i x.result }.settle i,
        exits := c.exits ++ [(i, x)],
        status := x.setStatus.or c.status,
        shown := match x with
          | .error kind => c.shown ++ [kind]
          | _ => c.shown }
    else c
  | none => c

/-- The `handle()` activation of task `i` resumes, and may invoke the queued job. -/
def resume (c : CppCodeCompletion) (i : Nat) : CppCodeCompletion :=
  c.startJobs (c.jobManager.resume i)

/-- The `then` callback of `showErrorMessage` on `Ignore` (`cpp_code_completion.ts:249-251`):
    `this.ignoredErrors.add(error.kind)`. -/
def ignore (c : CppCodeCompletion) (kind : String) : CppCodeCompletion :=
  if kind ∈ c.shown then
    { c with ignoredErrors :=
        if kind ∈ c.ignoredErrors then c.ignoredErrors else c.ignoredErrors ++ [kind] }
  else c

/-- One event of a run. -/
def step (c : CppCodeCompletion) : Event → CppCodeCompletion
  | .generate g => c.generate g
  | .settle i => c.settle i
  | .resume i => c.resume i
  | .ignore kind => c.ignore kind

/-- A fresh `CppCodeCompletion`. -/
def init : CppCodeCompletion := ⟨JobManager.init, [], [], none, [], []⟩

/-- The state after a trace of events. -/
def run (tr : List Event) : CppCodeCompletion := tr.foldl step init

/-- The `JobManager` event of an event, if it is one. -/
def Event.jobManagerEvent : Event → Option (JobManager.Event Unit Unit)
  | .generate _ => some (.offer (.ok ()))
  | .settle i => some (.settle i)
  | .resume i => some (.resume i)
  | .ignore _ => none

/-- The `JobManager` with every job as it was offered, `.ok ()`, whatever it yields (no source
    counterpart). -/
def asOffered (jm : JobManager Unit Unit) : JobManager Unit Unit := jm.mapJobs fun _ => .ok ()

/-! ## What one event does -/

variable {c : CppCodeCompletion} {jm : JobManager Unit Unit}

@[simp] theorem startJobs_jobManager : (c.startJobs jm).jobManager = jm := rfl
@[simp] theorem startJobs_generations : (c.startJobs jm).generations = c.generations := rfl
@[simp] theorem startJobs_exits : (c.startJobs jm).exits = c.exits := rfl
@[simp] theorem startJobs_status : (c.startJobs jm).status =
    if c.jobManager.started.length < jm.started.length then some .running else c.status := rfl
@[simp] theorem startJobs_ignoredErrors : (c.startJobs jm).ignoredErrors = c.ignoredErrors := rfl

@[simp] theorem settle_generations (i : Nat) : (c.settle i).generations = c.generations := by
  unfold CppCodeCompletion.settle; split <;> (try split) <;> rfl

@[simp] theorem settle_ignoredErrors (i : Nat) : (c.settle i).ignoredErrors = c.ignoredErrors := by
  unfold CppCodeCompletion.settle; split <;> (try split) <;> rfl

@[simp] theorem ignore_generations (kind : String) :
    (c.ignore kind).generations = c.generations := by
  unfold ignore; split <;> rfl

/-- A job that ends after setting `RUNNING` leaves the status its exit names. -/
@[simp] theorem Exit.setStatus_or_running (x : Exit) :
    x.setStatus.or (some .running) = some x.status := by
  cases x <;> rfl

/-- Setting what a job yields leaves the manager as offered. -/
@[simp] theorem asOffered_set (i : Nat) (r : Except Unit Unit) :
    asOffered { jm with jobs := jm.jobs.set i r } = asOffered jm := by
  simp [asOffered, JobManager.mapJobs, List.map_set]

@[simp] theorem asOffered_jobs_length : (asOffered jm).jobs.length = jm.jobs.length := by
  simp [asOffered, JobManager.mapJobs]

@[simp] theorem asOffered_settled_fst :
    (asOffered jm).settled.map Prod.fst = jm.settled.map Prod.fst := by
  simp [asOffered, JobManager.mapJobs, Function.comp_def]

/-- The end of a job moves the `JobManager`, as offered, as `JobManager.settle` does. -/
theorem asOffered_settle (h : c.jobManager.jobs.length = c.generations.length) (i : Nat) :
    asOffered (c.settle i).jobManager = (asOffered c.jobManager).settle i := by
  have hs : ∀ m : JobManager Unit Unit, asOffered (m.settle i) = (asOffered m).settle i :=
    fun m => JobManager.mapJobs_step _ m (.settle i)
  unfold settle
  split
  · split
    · exact (hs _).trans (by rw [asOffered_set])
    · rw [← hs, JobManager.settle_of_not_pending ‹_›]
  · have : c.jobManager.jobs[i]? = none := by
      rw [List.getElem?_eq_none_iff] at *; omega
    rw [← hs]; simp [JobManager.settle, this]

/-- Every event moves the `JobManager`, as offered, by its `JobManager` event, given one
    generation per task. -/
theorem step_jobManager (h : c.jobManager.jobs.length = c.generations.length) (e : Event) :
    asOffered (c.step e).jobManager = match e.jobManagerEvent with
      | some e' => (asOffered c.jobManager).step e'
      | none => asOffered c.jobManager := by
  cases e with
  | generate g => exact JobManager.mapJobs_step _ c.jobManager (.offer (.ok ()))
  | settle i => exact asOffered_settle h i
  | resume i => exact JobManager.mapJobs_step _ c.jobManager (.resume i)
  | ignore kind => simp only [step, ignore]; split <;> rfl

/-! ## The invariant -/

/-- What holds of every reachable state: the `JobManager` invariant; one generation per task;
    the jobs that have ended are those started but the pending one, in order; and the status
    is `RUNNING` while a job is pending, and otherwise the one the last exit left. -/
structure Inv (c : CppCodeCompletion) : Prop where
  jobManager_inv : c.jobManager.Inv
  jobs_length : c.jobManager.jobs.length = c.generations.length
  exits_started : c.exits.map Prod.fst ++ c.jobManager.pending = c.jobManager.started
  status_eq : c.status =
    if c.jobManager.pending = [] then c.exits.getLast?.map fun x => x.2.status
    else some .running

theorem inv_init : init.Inv :=
  ⟨JobManager.inv_init, rfl, rfl, rfl⟩

/-- A `JobManager` event that settles no job keeps the invariant: it invokes a job, which sets
    `RUNNING`, or leaves the started jobs alone. -/
theorem Inv.startJobs (hi : c.Inv) (e : JobManager.Event Unit Unit) (he : ∀ i, e ≠ .settle i)
    (gs : List Generation) (hlen : (c.jobManager.step e).jobs.length = gs.length) :
    ({ c with generations := gs }.startJobs (c.jobManager.step e)).Inv := by
  have hjm := hi.jobManager_inv.step e
  rcases hi.jobManager_inv.starts e he with ⟨hp, hs⟩ | ⟨t, hp0, hp, hs⟩
  · exact ⟨hjm, hlen, by simp [hp, hs, hi.exits_started], by simp [hp, hs, hi.status_eq]⟩
  · exact ⟨hjm, hlen, by simp [hp, hs, ← hi.exits_started, hp0], by simp [hp, hs]⟩

/-- The end of the pending job keeps the invariant: its exit is recorded, and the status is
    the one that exit leaves. -/
theorem Inv.settle (hi : c.Inv) (i : Nat) : (c.settle i).Inv := by
  unfold CppCodeCompletion.settle
  split
  · next g hg =>
    split
    · next hp =>
      have hp1 := (hi.jobManager_inv.pending_eq hp).1
      have hlen : i < c.jobManager.jobs.length := by
        rw [hi.jobs_length]; exact (List.getElem?_eq_some_iff.1 hg).1
      dsimp only
      set m : JobManager Unit Unit := { c.jobManager with
        jobs := c.jobManager.jobs.set i (jobExit c.ignoredErrors g.name g.outcome).result }
      have hs := JobManager.settle_of_pending (m := m) hp1 (by simpa [m] using hlen)
      refine ⟨(hi.jobManager_inv.set_pending hp _).settle i, by simpa using hi.jobs_length, ?_, ?_⟩
      · rw [hs]; simp [m, ← hi.exits_started, hp1]
      · rw [hs]; simp [m, hi.status_eq, hp1]
    · exact hi
  · exact hi

theorem Inv.step (hi : c.Inv) : ∀ e, (c.step e).Inv
  | .generate _ =>
    hi.startJobs (.offer (.ok ())) (by simp) _ (by simp [JobManager.step, hi.jobs_length])
  | .settle i => hi.settle i
  | .resume i => hi.startJobs (.resume i) (by simp) _ (by simp [JobManager.step, hi.jobs_length])
  | .ignore kind => by
    show (c.ignore kind).Inv
    unfold ignore
    split
    · exact ⟨hi.jobManager_inv, hi.jobs_length, hi.exits_started, hi.status_eq⟩
    · exact hi

theorem run_snoc (tr : List Event) (e : Event) : run (tr ++ [e]) = (run tr).step e := by
  simp [run]

/-- Every reachable state satisfies the invariant. -/
theorem inv_run (tr : List Event) : (run tr).Inv := by
  induction tr using List.reverseRecOn with
  | nil => exact inv_init
  | append_singleton tr e ih => rw [run_snoc]; exact ih.step e

/-- The `JobManager` of a run, as offered, is the `JobManager` run of its `JobManager` events. -/
theorem run_jobManager (tr : List Event) :
    asOffered (run tr).jobManager = JobManager.run (tr.filterMap Event.jobManagerEvent) := by
  induction tr using List.reverseRecOn with
  | nil => rfl
  | append_singleton tr e ih =>
    rw [run_snoc, step_jobManager (inv_run tr).jobs_length, List.filterMap_append, ih]
    cases h : e.jobManagerEvent <;> simp [h, JobManager.run_snoc]

theorem tasks_run (tr : List Event) :
    (run tr).jobManager.tasks = (JobManager.run (tr.filterMap Event.jobManagerEvent)).tasks := by
  rw [← run_jobManager]; rfl

/-- A promise resolves to `null` in a run iff it does in the `JobManager` run of its events. -/
theorem cancel_mem_run (tr : List Event) (i : Nat) :
    (i, .ok none) ∈ (run tr).jobManager.settled ↔
      (i, .ok none) ∈ (JobManager.run (tr.filterMap Event.jobManagerEvent)).settled := by
  rw [← run_jobManager, asOffered, JobManager.cancel_mem_mapJobs]

theorem run_append (tr tr' : List Event) : run (tr ++ tr') = tr'.foldl step (run tr) :=
  List.foldl_append _ _ _ _

/-! ## What a step keeps -/

/-- The generations offered are kept. -/
theorem generations_isPrefix (c : CppCodeCompletion) : ∀ e, c.generations <+: (c.step e).generations
  | .generate g => by simp [step, generate]
  | .settle i | .resume i | .ignore i => by simp [step, resume]

/-- The entries of `ignoredErrors` are kept. -/
theorem ignoredErrors_subset (c : CppCodeCompletion) :
    ∀ e, c.ignoredErrors ⊆ (c.step e).ignoredErrors
  | .generate g | .settle i | .resume i => by simp [step, generate, resume]
  | .ignore kind => by
    simp only [step, ignore]
    split
    · split
      · exact List.Subset.refl _
      · exact List.subset_append_left _ _
    · exact List.Subset.refl _

/-- The tasks settled are kept, in order. -/
theorem settled_isPrefix (c : CppCodeCompletion) :
    ∀ e, c.jobManager.settled <+: (c.step e).jobManager.settled
  | .generate _ => JobManager.settled_prefix_step _ (.offer (.ok ()))
  | .settle i => by
    simp only [step, settle]
    split
    · next g _ =>
      split
      · exact JobManager.settled_prefix_step { c.jobManager with
          jobs := c.jobManager.jobs.set i (jobExit c.ignoredErrors g.name g.outcome).result }
          (.settle i)
      · exact List.prefix_refl _
    · exact List.prefix_refl _
  | .resume i => JobManager.settled_prefix_step _ (.resume i)
  | .ignore _ => by simp only [step, ignore]; split <;> exact List.prefix_refl _

theorem settled_isPrefix_foldl (c : CppCodeCompletion) (tr : List Event) :
    c.jobManager.settled <+: (tr.foldl step c).jobManager.settled := by
  induction tr generalizing c with
  | nil => exact List.prefix_refl _
  | cons e tr ih => exact (settled_isPrefix c e).trans (ih _)

/-! ## The status of `C++ xrefs generation` -/

/-- An exit leaves the status at `RUNNING` exactly when it is the `return` for an ignored
    error kind or a `TypeError`. -/
theorem Exit.status_eq_running (x : Exit) :
    x.status = .running ↔ x = .ignored ∨ x = .typeError := by
  cases x <;> simp [Exit.status, Exit.setStatus]

/-- Whenever the `JobManager` has no job running, the status is the one the exit of the last
    job left, and unset if no job has run. -/
theorem Inv.status_of_idle (hi : c.Inv) (hr : c.jobManager.running = false) :
    c.status = c.exits.getLast?.map fun x => x.2.status := by
  rw [hi.status_eq, if_pos (hi.jobManager_inv.idle hr).1]

theorem status_of_idle (tr : List Event) (hr : (run tr).jobManager.running = false) :
    (run tr).status = (run tr).exits.getLast?.map fun x => x.2.status :=
  (inv_run tr).status_of_idle hr

/-- With no job running, the status is left at `RUNNING` exactly when the last job to run
    took the `return` for an ignored error kind or threw a `TypeError`. -/
theorem status_running_iff (tr : List Event) (hr : (run tr).jobManager.running = false) :
    (run tr).status = some .running ↔
      ∃ i x, (run tr).exits.getLast? = some (i, x) ∧ (x = .ignored ∨ x = .typeError) := by
  rw [status_of_idle tr hr]
  cases (run tr).exits.getLast? with
  | none => simp
  | some p =>
    obtain ⟨i, x⟩ := p
    simp only [Option.map_some', Option.some.injEq, Prod.mk.injEq, Exit.status_eq_running]
    exact ⟨fun h => ⟨i, x, ⟨rfl, rfl⟩, h⟩, fun ⟨_, _, ⟨_, hx⟩, h⟩ => hx ▸ h⟩

/-- The saves of the test `shows error unless ignored`: generator `fake` fails with kind
    `foo`, the user answers `Ignore`, and the next save fails alike; and a single save whose
    generator throws a value that is no `ErrorDetails`. Each run ends with no job running and
    the status at `RUNNING`. -/
theorem idle_status_running :
    let g : Generation := ⟨0, "fake", .error (.errorDetails "foo"), .ok ()⟩
    let tr := [.generate g, .settle 0, .resume 0, .ignore "fake: foo", .generate g, .settle 1,
      .resume 1]
    let tr' := [.generate ⟨0, "fake", .error .other, .ok ()⟩, .settle 0, .resume 0]
    ((run tr).jobManager.running = false ∧ (run tr).status = some .running) ∧
      (run tr').jobManager.running = false ∧ (run tr').status = some .running := by
  decide

/-! ## Coalescing of triggers -/

/-- Where the `JobManager` events of a trace split at an offer, the trace splits at a
    `generate` call. -/
theorem filterMap_eq_offer {tr : List Event} {pre post : List (JobManager.Event Unit Unit)}
    {job : Except Unit Unit} (h : tr.filterMap Event.jobManagerEvent = pre ++ .offer job :: post) :
    ∃ tpre g tpost, tr = tpre ++ .generate g :: tpost ∧
      tpre.filterMap Event.jobManagerEvent = pre := by
  obtain ⟨l₁, l₂, rfl, h₁, h₂⟩ := List.filterMap_eq_append_iff.1 h
  obtain ⟨a, e, l₃, rfl, ha, he, -⟩ := List.filterMap_eq_cons_iff.1 h₂
  cases e with
  | generate g =>
    exact ⟨l₁ ++ a, g, l₃, by simp,
      by rw [List.filterMap_append, h₁, List.filterMap_eq_nil_iff.2 ha, List.append_nil]⟩
  | settle _ | resume _ | ignore _ => simp [Event.jobManagerEvent] at he

/-- A job is superseded, its caller's promise resolved to `null`, iff a `generate` call, for
    any document, is made while it is queued. -/
theorem superseded_iff (tr : List Event) (i : Nat) :
    (i, .ok none) ∈ (run tr).jobManager.settled ↔
      ∃ pre g post, tr = pre ++ .generate g :: post ∧ i ∈ (run pre).jobManager.tasks := by
  rw [cancel_mem_run, JobManager.cancelled_iff]
  constructor
  · rintro ⟨pre, job, post, h, ht⟩
    obtain ⟨tpre, g, tpost, rfl, hpre⟩ := filterMap_eq_offer h
    exact ⟨tpre, g, tpost, rfl, by rwa [tasks_run, hpre]⟩
  · rintro ⟨pre, g, post, rfl, ht⟩
    exact ⟨pre.filterMap Event.jobManagerEvent, .ok (), post.filterMap Event.jobManagerEvent,
      by simp [List.filterMap_append, Event.jobManagerEvent], by rwa [← tasks_run]⟩

/-- A superseded job never runs, whatever happens next. -/
theorem superseded_never_runs {tr : List Event} {i : Nat}
    (h : (i, .ok none) ∈ (run tr).jobManager.settled) (tr' : List Event) :
    i ∉ (run (tr ++ tr')).jobManager.started := by
  have hp := settled_isPrefix_foldl (run tr) tr'
  rw [← run_append] at hp
  exact ((inv_run _).jobManager_inv.cancelled (hp.subset h)).1

/-- The events by which the job in progress, and then the queued one, run to completion, with
    no further `generate` call (`JobManager.drain`). -/
def drain (c : CppCodeCompletion) : List Event :=
  c.jobManager.pending.map .settle ++ (c.jobManager.pending ++ c.jobManager.finished).map .resume ++
    c.jobManager.tasks.flatMap fun t => [.settle t, .resume t]

theorem drain_jobManagerEvent (c : CppCodeCompletion) :
    c.drain.filterMap Event.jobManagerEvent = c.jobManager.drain := by
  have hs : Event.jobManagerEvent ∘ Event.settle = some ∘ JobManager.Event.settle := rfl
  have hr : Event.jobManagerEvent ∘ Event.resume = some ∘ JobManager.Event.resume := rfl
  simp [drain, JobManager.drain, List.filterMap_map, List.filterMap_flatMap, hs, hr,
    List.filterMap_eq_map, Event.jobManagerEvent]

/-- The latest `generate` call is never superseded, and its job runs once the job in progress
    ends. -/
theorem newest_runs (tr : List Event) (i : Nat) (hn : i + 1 = (run tr).generations.length) :
    (i, .ok none) ∉ (run (tr ++ (run tr).drain)).jobManager.settled ∧
      i ∈ (run (tr ++ (run tr).drain)).jobManager.started := by
  set p := tr.filterMap Event.jobManagerEvent
  have he : asOffered (run (tr ++ (run tr).drain)).jobManager =
      JobManager.run (p ++ (JobManager.run p).drain) := by
    rw [run_jobManager, List.filterMap_append, drain_jobManagerEvent, ← run_jobManager]; rfl
  have hlen : i + 1 = (JobManager.run p).jobs.length := by
    rw [← run_jobManager, asOffered_jobs_length, (inv_run tr).jobs_length, hn]
  have hjobs : (JobManager.run (p ++ (JobManager.run p).drain)).jobs = (JobManager.run p).jobs := by
    rw [JobManager.run_append]; exact (JobManager.drain_idle (JobManager.inv_run _)).2.2.2
  have hnc : (i, .ok none) ∉ (JobManager.run (p ++ (JobManager.run p).drain)).settled := fun h => by
    have := ((JobManager.inv_run _).cancelled h).2
    rw [hjobs] at this; omega
  rw [← JobManager.cancel_mem_mapJobs (fun _ => .ok ()),
    ← JobManager.mapJobs_started (fun _ => .ok ()), ← asOffered, he]
  exact ⟨hnc, ((JobManager.settles_once _).2 i (by omega)).2.resolve_left hnc⟩

/-- Coalescing is global across documents: a trigger's generation is superseded, resolved to
    `null` and never run, exactly when another trigger, of any document, is made while it waits;
    the latest trigger of all is never superseded, and runs once the generation in progress
    ends. -/
theorem generate_supersedes (tr : List Event) :
    (∀ i, (i, .ok none) ∈ (run tr).jobManager.settled ↔
      ∃ pre g post, tr = pre ++ .generate g :: post ∧ i ∈ (run pre).jobManager.tasks) ∧
    (∀ i, (i, .ok none) ∈ (run tr).jobManager.settled →
      ∀ tr', i ∉ (run (tr ++ tr')).jobManager.started) ∧
    ∀ i, i + 1 = (run tr).generations.length →
      (i, .ok none) ∉ (run (tr ++ (run tr).drain)).jobManager.settled ∧
      i ∈ (run (tr ++ (run tr).drain)).jobManager.started :=
  ⟨superseded_iff tr, fun _ h => superseded_never_runs h, newest_runs tr⟩

end CppCodeCompletion

end CrosIde
