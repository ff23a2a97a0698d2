import CrosIde.CppCodeCompletion.Generate

/-!
# `C++ xrefs generation` in the status bar

The jobs of `generate` report on the task `STATUS_BAR_TASK_NAME` of the one `StatusManager` of
`activate` (`bg_task_status.ts:23-81`), which the other components share for their own tasks.
The extension here is a `CppCodeCompletion` together with the calls made so far on that
manager: the `setTask` of a job as `handle()` invokes it (`cpp_code_completion.ts:177-181`),
the `setStatus` of its exit (`cpp_code_completion.ts:219, 222`), and the calls of the other
components, on other tasks, in any interleaving.

The status of the task in the manager is always the one the `CppCodeCompletion` model records
(`statusOf_extension`). So once no job is running, the status bar keeps the spinner
`Running C++ xrefs generation...` exactly when the last job took the `return` for an ignored
error kind or threw a `TypeError` (`spinner_iff`), whatever the other components do.
-/

namespace CrosIde.CppCodeCompletion

open CommonUtil
open Ui (TaskStatus)

/-- `STATUS_BAR_TASK_NAME` (`cpp_code_completion.ts:31`). -/
def statusBarTaskName : Ui.TaskName := "C++ xrefs generation"

variable {κ χ : Type} (showLogCommand : κ)

/-- `{status: TaskStatus.RUNNING, command: SHOW_LOG_COMMAND, contextValue: 'cppxrefs'}`
    (`cpp_code_completion.ts:177-181`); `SHOW_LOG_COMMAND` (`constants.ts`, absent from the
    sources) is a parameter. -/
def runningTaskData : Ui.TaskData κ χ := ⟨.running, some showLogCommand, none, some "cppxrefs"⟩

/-- The `setTask` of the job that a move of the `JobManager` to `jm` invokes, if any. -/
def startCalls (c : CppCodeCompletion) (jm : JobManager Unit Unit) : List (Ui.Call κ χ) :=
  if c.jobManager.started.length < jm.started.length then
    [.setTask statusBarTaskName (runningTaskData showLogCommand)]
  else []

/-- The calls the jobs make on the `StatusManager` during an event, as `step` runs them. -/
def statusCalls (c : CppCodeCompletion) : Event → List (Ui.Call κ χ)
  | .generate _ => startCalls showLogCommand c (c.jobManager.offer (.ok ()))
  | .settle i =>
    match c.generations[i]? with
    | some g =>
      if i ∈ c.jobManager.pending then
        ((jobExit c.ignoredErrors g.name g.outcome).setStatus.map
          (.setStatus statusBarTaskName)).toList
      else []
    | none => []
  | .resume i => startCalls showLogCommand c (c.jobManager.resume i)
  | .ignore _ => []

/-- The extension as far as the status bar goes: the `CppCodeCompletion`, and the calls made
    so far on the `StatusManager`, whose state is `Ui.run calls`. -/
structure Extension (κ χ : Type) where
  cpp : CppCodeCompletion
  calls : List (Ui.Call κ χ)

/-- An event of the extension: one of the `CppCodeCompletion`, or a call by another component,
    which names a task of its own. -/
inductive ExtensionEvent (κ χ : Type) where
  | cpp (e : Event)
  | other (call : Ui.Call κ χ)

/-- The event of the `CppCodeCompletion`, if it is one. -/
def ExtensionEvent.cppEvent : ExtensionEvent κ χ → Option Event
  | .cpp e => some e
  | .other _ => none

namespace Extension

/-- One event; a call of another component on `STATUS_BAR_TASK_NAME` is not one it makes. -/
def step (x : Extension κ χ) : ExtensionEvent κ χ → Extension κ χ
  | .cpp e => ⟨x.cpp.step e, x.calls ++ statusCalls showLogCommand x.cpp e⟩
  | .other call => if call.taskName = statusBarTaskName then x else ⟨x.cpp, x.calls ++ [call]⟩

/-- The extension after a trace of events. -/
def run (tr : List (ExtensionEvent κ χ)) : Extension κ χ :=
  tr.foldl (step showLogCommand) ⟨init, []⟩

theorem run_snoc (tr : List (ExtensionEvent κ χ)) (e : ExtensionEvent κ χ) :
    run showLogCommand (tr ++ [e]) = (run showLogCommand tr).step showLogCommand e := by
  simp [run]

/-- The `CppCodeCompletion` runs as it does alone. -/
theorem cpp_run (tr : List (ExtensionEvent κ χ)) :
    (run showLogCommand tr).cpp = CppCodeCompletion.run (tr.filterMap ExtensionEvent.cppEvent) := by
  induction tr using List.reverseRecOn with
  | nil => rfl
  | append_singleton tr e ih =>
    rw [run_snoc, List.filterMap_append]
    cases e with
    | cpp e => simp [step, ih, ExtensionEvent.cppEvent, CppCodeCompletion.run_snoc]
    | other call =>
      simp only [step, ExtensionEvent.cppEvent, List.filterMap_cons_none, List.filterMap_nil,
        List.append_nil]
      split <;> exact ih

end Extension

/-! ## The status of the task in the manager -/

/-- The status of a name after a sequence of calls, by the data each call leaves. -/
def statusAfter (calls : List (Ui.Call κ χ)) (n : Ui.TaskName) : Option TaskStatus :=
  ((calls.foldl (fun data c => c.apply data) fun _ => none) n).map Ui.TaskData.status

theorem statusOf_run (calls : List (Ui.Call κ χ)) (n : Ui.TaskName) :
    (Ui.run calls).tasks.statusOf n = statusAfter calls n := by
  rw [Ui.Tasks.statusOf, Ui.getTaskData_run]; rfl

theorem statusAfter_append_setTask (calls : List (Ui.Call κ χ)) (d : Ui.TaskData κ χ) :
    statusAfter (calls ++ [.setTask statusBarTaskName d]) statusBarTaskName = some d.status := by
  simp [statusAfter, Ui.Call.apply]

theorem statusAfter_append_setStatus (calls : List (Ui.Call κ χ)) (s : TaskStatus) :
    statusAfter (calls ++ [.setStatus statusBarTaskName s]) statusBarTaskName = some s := by
  simp [statusAfter, Ui.Call.apply]

theorem statusAfter_append_of_ne (calls : List (Ui.Call κ χ)) {call : Ui.Call κ χ}
    (h : call.taskName ≠ statusBarTaskName) :
    statusAfter (calls ++ [call]) statusBarTaskName = statusAfter calls statusBarTaskName := by
  simp [statusAfter, Ui.Call.apply_of_ne (Ne.symm h)]

@[simp] theorem ignore_status (c : CppCodeCompletion) (kind : String) :
    (c.ignore kind).status = c.status := by
  unfold ignore; split <;> rfl

/-- A job that the `JobManager` invokes sets `RUNNING`. -/
theorem statusAfter_startCalls {c : CppCodeCompletion} {calls : List (Ui.Call κ χ)}
    (h : statusAfter calls statusBarTaskName = c.status) (jm : JobManager Unit Unit) :
    statusAfter (calls ++ startCalls showLogCommand c jm) statusBarTaskName =
      (c.startJobs jm).status := by
  rw [startCalls, startJobs_status]
  split
  · exact statusAfter_append_setTask calls _
  · rw [List.append_nil, h]

/-- The calls of an event leave the status the `CppCodeCompletion` records. -/
theorem statusAfter_statusCalls {c : CppCodeCompletion} {calls : List (Ui.Call κ χ)}
    (h : statusAfter calls statusBarTaskName = c.status) (e : Event) :
    statusAfter (calls ++ statusCalls showLogCommand c e) statusBarTaskName =
      (c.step e).status := by
  cases e with
  | generate g => exact statusAfter_startCalls showLogCommand h _
  | resume i => exact statusAfter_startCalls showLogCommand h _
  | ignore kind => simpa [statusCalls, step] using h
  | settle i =>
    simp only [statusCalls, step, settle]
    cases c.generations[i]? with
    | none => simpa using h
    | some g =>
      by_cases hp : i ∈ c.jobManager.pending
      · simp only [if_pos hp]
        cases (jobExit c.ignoredErrors g.name g.outcome).setStatus with
        | none => simpa using h
        | some s => exact statusAfter_append_setStatus calls s
      · simpa [hp] using h

/-- The manager holds the status of `C++ xrefs generation` that the model records. -/
theorem statusOf_extension (tr : List (ExtensionEvent κ χ)) :
    (Ui.run (Extension.run showLogCommand tr).calls).tasks.statusOf statusBarTaskName =
      (Extension.run showLogCommand tr).cpp.status := by
  rw [statusOf_run]
  induction tr using List.reverseRecOn with
  | nil => rfl
  | append_singleton tr e ih =>
    rw [Extension.run_snoc]
    cases e with
    | cpp e => exact statusAfter_statusCalls showLogCommand ih e
    | other call =>
      simp only [Extension.step]
      split
      · exact ih
      · next hn => exact (statusAfter_append_of_ne _ hn).trans ih

/-- With no job of the `JobManager` running, the status bar shows the spinner with
    `C++ xrefs generation` among the running tasks exactly when the last job to run took the
    `return` for an ignored error kind or threw a `TypeError`: the spinner then stays until the
    next job starts, whatever the other components do. -/
theorem spinner_iff (tr : List (ExtensionEvent κ χ))
    (hr : (Extension.run showLogCommand tr).cpp.jobManager.running = false) :
    (∃ names, statusBarTaskName ∈ names ∧
      Ui.Lists (Ui.run (Extension.run showLogCommand tr).calls).tasks.statusOf .running names ∧
      (Ui.run (Extension.run showLogCommand tr).calls).view.statusBar.progressItem.text =
        "$(sync~spin) Running " ++ ", ".intercalate names ++ "..." ∧
      (Ui.run (Extension.run showLogCommand tr).calls).view.statusBar.progressItem.visible) ↔
      ∃ i x, (Extension.run showLogCommand tr).cpp.exits.getLast? = some (i, x) ∧
        (x = .ignored ∨ x = .typeError) := by
  have hs := (Ui.shows_run (Extension.run showLogCommand tr).calls).1
  rw [Extension.cpp_run] at hr ⊢
  rw [← status_running_iff _ hr, ← Extension.cpp_run, ← statusOf_extension]
  constructor
  · rintro ⟨names, hn, hl, -⟩
    exact (hl.2 _).1 hn
  · intro h
    obtain ⟨names, hl, ht, hv⟩ := hs.running ⟨_, h⟩
    exact ⟨names, (hl.2 _).2 h, hl, ht, hv⟩

/-- The saves of the test `shows error unless ignored`, while `Code Coverage` runs and ends:
    with no job running, the spinner stays on `C++ xrefs generation`. -/
theorem spinner_iff_ignored :
    let g : Generation := ⟨0, "fake", .error (.errorDetails "foo"), .ok ()⟩
    let tr : List (ExtensionEvent Unit Unit) := [.cpp (.generate g), .cpp (.settle 0),
      .cpp (.resume 0), .cpp (.ignore "fake: foo"), .other (.setStatus "Code Coverage" .running),
      .cpp (.generate g), .cpp (.settle 1), .cpp (.resume 1),
      .other (.setStatus "Code Coverage" .ok)]
    (Extension.run () tr).cpp.jobManager.running = false ∧
      ((∃ names, statusBarTaskName ∈ names ∧
        Ui.Lists (Ui.run (Extension.run () tr).calls).tasks.statusOf .running names ∧
        (Ui.run (Extension.run () tr).calls).view.statusBar.progressItem.text =
          "$(sync~spin) Running " ++ ", ".intercalate names ++ "..." ∧
        (Ui.run (Extension.run () tr).calls).view.statusBar.progressItem.visible) ↔
        ∃ i x, (Extension.run () tr).cpp.exits.getLast? = some (i, x) ∧
          (x = .ignored ∨ x = .typeError)) :=
  ⟨by decide, spinner_iff () _ (by decide)⟩

end CrosIde.CppCodeCompletion
