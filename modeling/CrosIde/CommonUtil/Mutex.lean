import Mathlib.Data.List.Range

/-!
# `Mutex`

`Mutex` of `common_util.ts:442-494` as a state machine over the event loop that drives it.
A run is a trace of calls of `runExclusive`, settlings of the promise of the running job
(each followed at once by the `try`/`finally` continuation of `handle()`), and runs of the
`setImmediate` callbacks by which `handle()` passes a job's outcome to its caller.

A job is represented by what awaiting it yields, and the caller's promise by the calls
made to its `resolve` and `reject`.
-/

namespace CrosIde.CommonUtil

/-- A `Mutex<T>` (`common_util.ts:461-494`) and the `handle()` activations suspended in it. -/
structure Mutex (α ε : Type) where
  /-- `queue`: the queued `JobQueueItem`s, by call number. -/
  queue : List Nat
  /-- `running`. -/
  running : Bool
  /-- The job of each call of `runExclusive` so far. -/
  jobs : List (Except ε α)
  /-- Calls whose job a `handle()` activation awaits. -/
  pending : List Nat
  /-- The `setImmediate` callbacks not yet run, oldest first. -/
  immediates : List (Nat × Except ε α)
  /-- The calls of the items' `resolve` and `reject`, in order. -/
  settled : List (Nat × Except ε α)
  /-- The calls whose job has been invoked, in order. -/
  started : List Nat
  deriving Repr

namespace Mutex

variable {α ε : Type}

/-- An event of a run. -/
inductive Event (α ε : Type) where
  /-- `runExclusive(job)` (`common_util.ts:470-475`). -/
  | runExclusive (job : Except ε α)
  /-- The promise of call `i`'s job settles and `handle()` runs on to its `finally`. -/
  | settle (i : Nat)
  /-- The oldest pending `setImmediate` callback runs. -/
  | tick
  deriving Repr

/-- `handle()` (`common_util.ts:477-493`) up to `await task.job()`: unless a job runs or
    the queue is empty, shift the oldest item and invoke its job. -/
def handle (m : Mutex α ε) : Mutex α ε :=
  match m.running, m.queue with
  | false, t :: rest =>
    { m with running := true, queue := rest, pending := m.pending ++ [t],
             started := m.started ++ [t] }
  | _, _ => m

/-- `runExclusive(job)` (`common_util.ts:470-475`): push an item and call `handle()`. -/
def runExclusive (m : Mutex α ε) (job : Except ε α) : Mutex α ε :=
  handle { m with jobs := m.jobs ++ [job], queue := m.queue ++ [m.jobs.length] }

/-- The job of call `i` settles: `handle()` schedules `task.resolve(value)` or
    `task.reject(e)` with `setImmediate`, then `running = false; void this.handle()`
    (`common_util.ts:484-492`). -/
def settle (m : Mutex α ε) (i : Nat) : Mutex α ε :=
  match m.jobs[i]? with
  | some job =>
    if i ∈ m.pending then
      handle { m with pending := m.pending.erase i, running := false,
                      immediates := m.immediates ++ [(i, job)] }
    else m
  | none => m

/-- The oldest `setImmediate` callback settles its caller's promise. -/
def tick (m : Mutex α ε) : Mutex α ε :=
  match m.immediates with
  | p :: rest => { m with immediates := rest, settled := m.settled ++ [p] }
  | [] => m

/-- One event of a run. -/
def step (m : Mutex α ε) : Event α ε → Mutex α ε
  | .runExclusive job => m.runExclusive job
  | .settle i => m.settle i
  | .tick => m.tick

/-- A fresh `new Mutex()`. -/
def init : Mutex α ε := ⟨[], false, [], [], [], [], []⟩

/-- The state after a trace of events. -/
def run (tr : List (Event α ε)) : Mutex α ε := tr.foldl step init

/-- The job an event submits, if it is a call of `runExclusive`. -/
def Event.submitted : Event α ε → Option (Except ε α)
  | .runExclusive job => some job
  | _ => none

/-! ## What one event does -/

variable {m : Mutex α ε} {job : Except ε α} {i t : Nat}

/-- A call on an idle mutex invokes its job at once. -/
theorem runExclusive_of_idle (hq : m.queue = []) (hr : m.running = false) :
    m.runExclusive job = { m with
      jobs := m.jobs ++ [job], running := true,
      pending := m.pending ++ [m.jobs.length], started := m.started ++ [m.jobs.length] } := by
  simp [runExclusive, handle, hq, hr]

/-- A call while a job runs only enqueues. -/
theorem runExclusive_of_running (hr : m.running = true) :
    m.runExclusive job =
      { m with jobs := m.jobs ++ [job], queue := m.queue ++ [m.jobs.length] } := by
  simp [runExclusive, handle, hr]

/-- The running job settles with nothing queued: the mutex becomes idle. -/
theorem settle_of_idle (hp : m.pending = [i]) (hlen : i < m.jobs.length) (hq : m.queue = []) :
    m.settle i = { m with
      pending := [], running := false, immediates := m.immediates ++ [(i, m.jobs[i])] } := by
  simp [settle, handle, hp, hq, List.getElem?_eq_getElem hlen]

/-- The running job settles with `t` the oldest queued: `t`'s job is invoked. -/
theorem settle_of_queued {rest : List Nat} (hp : m.pending = [i]) (hlen : i < m.jobs.length)
    (hq : m.queue = t :: rest) :
    m.settle i = { m with
      pending := [t], queue := rest, running := true, started := m.started ++ [t],
      immediates := m.immediates ++ [(i, m.jobs[i])] } := by
  simp [settle, handle, hp, hq, List.getElem?_eq_getElem hlen]

theorem settle_of_not_pending (hp : i ∉ m.pending) : m.settle i = m := by
  unfold settle; split <;> simp [hp]

theorem tick_of_cons {p : Nat × Except ε α} {rest : List (Nat × Except ε α)}
    (h : m.immediates = p :: rest) :
    m.tick = { m with immediates := rest, settled := m.settled ++ [p] } := by
  simp [tick, h]

theorem tick_of_nil (h : m.immediates = []) : m.tick = m := by
  simp [tick, h]

@[simp] theorem handle_jobs (m : Mutex α ε) : (handle m).jobs = m.jobs := by
  unfold handle; split <;> rfl

@[simp] theorem runExclusive_jobs (m : Mutex α ε) (job : Except ε α) :
    (m.runExclusive job).jobs = m.jobs ++ [job] := by
  simp [runExclusive]

/-- Calls are never forgotten: an event only adds jobs. -/
theorem step_jobs (m : Mutex α ε) : ∀ e : Event α ε, m.jobs <+: (m.step e).jobs
  | .runExclusive job => by simp [step]
  | .settle i => by
    simp only [step, settle]
    split
    · split
      · simp
      · exact List.prefix_refl _
    · exact List.prefix_refl _
  | .tick => by simp only [step, tick]; split <;> exact List.prefix_refl _

theorem step_jobs_eq (m : Mutex α ε) (e : Event α ε) :
    (m.step e).jobs = m.jobs ++ e.submitted.toList := by
  cases e with
  | runExclusive job => simp [step, Event.submitted]
  | settle i =>
    simp only [step, settle, Event.submitted, Option.toList_none, List.append_nil]
    split
    · split <;> simp
    · rfl
  | tick => simp only [step, tick]; split <;> simp [Event.submitted]

/-! ## The invariant -/

/-- What holds of every reachable state: at most one job runs, and a queued item waits
    only on it; the jobs invoked and the items queued are the calls in call order; the
    invoked jobs are those whose outcome has been passed on or scheduled, in order, then
    the running one; each outcome passed on is that of the caller's own job. -/
structure Inv (m : Mutex α ε) : Prop where
  pending_length : m.pending.length ≤ 1
  running_iff : m.running = true ↔ m.pending ≠ []
  queued_running : m.queue ≠ [] → m.running = true
  fifo : m.started ++ m.queue = List.range m.jobs.length
  settled_started : (m.settled ++ m.immediates).map Prod.fst ++ m.pending = m.started
  outcome : ∀ p ∈ m.settled ++ m.immediates, m.jobs[p.1]? = some p.2

theorem inv_init : (init : Mutex α ε).Inv := by
  constructor <;> simp [init]

namespace Inv

theorem started_lt (hi : m.Inv) (h : i ∈ m.started) : i < m.jobs.length := by
  have := hi.fifo ▸ List.mem_append_left m.queue h
  simpa using this

theorem pending_eq (hi : m.Inv) (hp : i ∈ m.pending) : m.pending = [i] := by
  have h := hi.pending_length
  match hq : m.pending, h with
  | [j], _ => simp_all
  | [], _ => simp_all
  | _ :: _ :: _, h => simp at h

theorem pending_lt (hi : m.Inv) (hp : i ∈ m.pending) : i < m.jobs.length :=
  hi.started_lt (hi.settled_started ▸ List.mem_append_right _ hp)

/-- Appending a job keeps the lookup of every outcome passed on. -/
theorem outcome_append (hi : m.Inv) (job : Except ε α) :
    ∀ p ∈ m.settled ++ m.immediates, (m.jobs ++ [job])[p.1]? = some p.2 := by
  intro p hp
  have hs : p.1 ∈ m.started :=
    hi.settled_started ▸ List.mem_append_left _ (List.mem_map_of_mem Prod.fst hp)
  rw [List.getElem?_append_left (hi.started_lt hs)]
  exact hi.outcome p hp

theorem runExclusive (hi : m.Inv) (job : Except ε α) : (m.runExclusive job).Inv := by
  cases hr : m.running
  · have hp : m.pending = [] := by simpa [hr] using hi.running_iff
    have hq : m.queue = [] := by
      by_contra h; exact absurd (hi.queued_running h) (by simp [hr])
    have hf := hi.fifo
    have hs := hi.settled_started
    rw [hq, List.append_nil] at hf
    rw [hp, List.append_nil] at hs
    rw [runExclusive_of_idle hq hr]
    exact ⟨by simp [hp], by simp, by simp [hq], by simp [hf, hq, List.range_succ],
      by simp [hs, hp], hi.outcome_append job⟩
  · rw [runExclusive_of_running hr]
    exact ⟨hi.pending_length, hi.running_iff, fun _ => hr,
      by simp [← List.append_assoc, hi.fifo, List.range_succ], hi.settled_started,
      hi.outcome_append job⟩

theorem settle (hi : m.Inv) (i : Nat) : (m.settle i).Inv := by
  by_cases hp : i ∈ m.pending
  · have hp1 := hi.pending_eq hp
    have hlen := hi.pending_lt hp
    have hs := hi.settled_started
    rw [hp1] at hs
    have ho : ∀ p ∈ m.settled ++ (m.immediates ++ [(i, m.jobs[i])]), m.jobs[p.1]? = some p.2 := by
      intro p h
      rw [← List.append_assoc, List.mem_append, List.mem_singleton] at h
      rcases h with h | rfl
      · exact hi.outcome p h
      · exact List.getElem?_eq_getElem hlen
    cases hq : m.queue with
    | nil =>
      rw [settle_of_idle hp1 hlen hq]
      exact ⟨by simp, by simp, by simp [hq], by simpa [hq] using hi.fifo, by simp [← hs], ho⟩
    | cons t rest =>
      rw [settle_of_queued hp1 hlen hq]
      exact ⟨by simp, by simp, fun _ => rfl, by simpa [hq] using hi.fifo, by simp [← hs], ho⟩
  · rw [settle_of_not_pending hp]; exact hi

theorem tick (hi : m.Inv) : m.tick.Inv := by
  cases h : m.immediates with
  | nil => rw [tick_of_nil h]; exact hi
  | cons p rest =>
    rw [tick_of_cons h]
    have hs := hi.settled_started
    have ho := hi.outcome
    rw [h] at hs ho
    exact ⟨hi.pending_length, hi.running_iff, hi.queued_running, hi.fifo, by simpa using hs,
      by simpa using ho⟩

theorem step (hi : m.Inv) : ∀ e : Event α ε, (m.step e).Inv
  | .runExclusive job => hi.runExclusive job
  | .settle i => hi.settle i
  | .tick => hi.tick

end Inv

theorem Inv.foldl : ∀ {m : Mutex α ε}, m.Inv → ∀ tr : List (Event α ε),
    (tr.foldl Mutex.step m).Inv
  | _, hi, [] => hi
  | _, hi, e :: tr => Inv.foldl (hi.step e) tr

/-- Every reachable state satisfies the invariant. -/
theorem inv_run (tr : List (Event α ε)) : (run tr).Inv := inv_init.foldl tr

theorem run_append (tr tr' : List (Event α ε)) : run (tr ++ tr') = tr'.foldl step (run tr) :=
  List.foldl_append _ _ _ _

/-! ## Draining -/

@[simp] theorem tick_pending (m : Mutex α ε) : m.tick.pending = m.pending := by
  unfold tick; split <;> rfl
@[simp] theorem tick_queue (m : Mutex α ε) : m.tick.queue = m.queue := by
  unfold tick; split <;> rfl
@[simp] theorem tick_jobs (m : Mutex α ε) : m.tick.jobs = m.jobs := by
  unfold tick; split <;> rfl
@[simp] theorem tick_immediates (m : Mutex α ε) : m.tick.immediates = m.immediates.tail := by
  unfold tick; split <;> simp_all

/-- `k` callback runs pass on the `k` oldest scheduled outcomes and change nothing else
    that a job sees. -/
theorem ticks (k : Nat) (m : Mutex α ε) :
    let m' := (List.replicate k .tick).foldl step m
    m'.immediates = m.immediates.drop k ∧ m'.pending = m.pending ∧ m'.queue = m.queue ∧
      m'.jobs = m.jobs := by
  induction k generalizing m with
  | zero => simp
  | succ k ih => simpa [List.replicate_succ, step, List.drop_tail] using ih m.tick

/-- The events by which the running job and then each queued job settle in turn, and every
    scheduled callback runs; no call is made. -/
def drain (m : Mutex α ε) : List (Event α ε) :=
  (m.pending ++ m.queue).map .settle ++
    List.replicate (m.pending.length + m.queue.length + m.immediates.length) .tick

/-- When the running job and then each queued one settle, the queue empties and every
    outcome is scheduled. -/
theorem settle_all (q : List Nat) : ∀ (m : Mutex α ε) (p : Nat), m.Inv → m.pending = [p] →
    m.queue = q →
    let m' := ((p :: q).map .settle).foldl step m
    m'.pending = [] ∧ m'.queue = [] ∧
      m'.immediates.length = m.immediates.length + q.length + 1 ∧ m'.jobs = m.jobs := by
  induction q with
  | nil =>
    intro m p hi hp hq
    have hlen : p < m.jobs.length := hi.pending_lt (by simp [hp])
    simp [step, settle_of_idle hp hlen hq, hq]
  | cons t rest ih =>
    intro m p hi hp hq
    have hlen : p < m.jobs.length := hi.pending_lt (by simp [hp])
    have h' := hi.settle p
    rw [settle_of_queued hp hlen hq] at h'
    have h := ih _ t h' rfl rfl
    simp only [List.map_cons, List.foldl_cons, step] at h ⊢
    rw [settle_of_queued hp hlen hq]
    refine ⟨h.1, h.2.1, ?_, h.2.2.2⟩
    rw [h.2.2.1]; simp; omega

/-- Once the running job and the queued ones settle, with no further call, the mutex is
    idle and every outcome has been passed on. -/
theorem drain_idle (hi : m.Inv) :
    let m' := m.drain.foldl step m
    m'.queue = [] ∧ m'.pending = [] ∧ m'.immediates = [] ∧ m'.jobs = m.jobs := by
  cases hr : m.running
  · have hp : m.pending = [] := by simpa [hr] using hi.running_iff
    have hq : m.queue = [] := by
      by_contra h; exact absurd (hi.queued_running h) (by simp [hr])
    have h := ticks m.immediates.length m
    simp only [drain, hp, hq, List.append_nil, List.map_nil, List.nil_append, List.length_nil,
      Nat.zero_add, List.drop_length] at h ⊢
    exact ⟨h.2.2.1, h.2.1, h.1, h.2.2.2⟩
  · obtain ⟨p, hp⟩ := List.exists_mem_of_ne_nil _ (hi.running_iff.1 hr)
    replace hp := hi.pending_eq hp
    obtain ⟨h1, h2, h3, h4⟩ := settle_all m.queue m p hi hp rfl
    have h := ticks (m.pending.length + m.queue.length + m.immediates.length)
      (((p :: m.queue).map .settle).foldl step m)
    have hd : m.drain = (p :: m.queue).map .settle ++
        List.replicate (m.pending.length + m.queue.length + m.immediates.length) .tick := by
      simp [drain, hp]
    rw [hd, List.foldl_append]
    refine ⟨h.2.2.1.trans h2, h.2.1.trans h1, ?_, h.2.2.2.trans h4⟩
    rw [h.1, List.drop_eq_nil_iff, h3, hp]; simp; omega

/-! ## Exclusion and order -/

/-- Call `i` is the `i`-th call of `runExclusive` in the trace. -/
theorem jobs_run (tr : List (Event α ε)) : (run tr).jobs = tr.filterMap Event.submitted := by
  induction tr using List.reverseRecOn with
  | nil => rfl
  | append_singleton tr e ih =>
    rw [run_append, List.foldl_cons, List.foldl_nil, step_jobs_eq, ih, List.filterMap_append]
    cases e <;> rfl

/-- The contract of `runExclusive` over every run: call `i` is the `i`-th call of the trace;
    at most one job body runs at a time; jobs are invoked in call order, each after every
    earlier job has settled; a queued job waits only on a running one; each caller's promise
    settles at most once, with its own job's value or error, and once the jobs complete every
    caller's promise has settled, in call order. -/
theorem runExclusive_exclusive (tr : List (Event α ε)) :
    (run tr).jobs = tr.filterMap Event.submitted ∧
    (run tr).pending.length ≤ 1 ∧
    (run tr).started ++ (run tr).queue = List.range (run tr).jobs.length ∧
    ((run tr).settled ++ (run tr).immediates).map Prod.fst ++ (run tr).pending =
      (run tr).started ∧
    ((run tr).queue ≠ [] → (run tr).pending ≠ []) ∧
    (∀ i r, (i, r) ∈ (run tr).settled → (run tr).jobs[i]? = some r) ∧
    ((run tr).settled.map Prod.fst).Nodup ∧
    (run (tr ++ (run tr).drain)).settled.map Prod.fst = List.range (run tr).jobs.length := by
  have hi := inv_run tr
  have hnodup : (run tr).started.Nodup :=
    (List.nodup_range _).sublist (hi.fifo ▸ List.sublist_append_left _ _)
  refine ⟨jobs_run tr, hi.pending_length, hi.fifo, hi.settled_started,
    fun h => hi.running_iff.1 (hi.queued_running h),
    fun i r h => hi.outcome (i, r) (List.mem_append_left _ h), ?_, ?_⟩
  · refine hnodup.sublist ?_
    rw [← hi.settled_started, List.map_append, List.append_assoc]
    exact List.sublist_append_left _ _
  · obtain ⟨hq, hp, hm, hj⟩ := drain_idle hi
    rw [← run_append] at hq hp hm hj
    have hi' := inv_run (tr ++ (run tr).drain)
    have hs := hi'.settled_started
    have hf := hi'.fifo
    rw [hp, hm, List.append_nil, List.append_nil] at hs
    rw [hq, List.append_nil, hj] at hf
    rw [hs, hf]

end Mutex

end CrosIde.CommonUtil
