import CrosIde.Ui.BgTaskStatus
import CrosIde.CommonUtil.Exec

/-!
# The `Code Coverage` task

`Coverage` (`bg_task_status.ts:402-590`, the coverage feature) reports on the task
`COVERAGE_TASK_ID` of the one `StatusManager`: `activate` sets it `OK`, and each run of the
command `chromiumide.coverage.generate` sets it `RUNNING` before
`await this.chrootService.exec(...)` and, after, `OK` when `cros_run_unit_tests` exited with
status 0 and `ERROR` otherwise (`generateCoverage`, `bg_task_status.ts:451-475`). Nothing orders
two runs of the command: a second one can start while the first awaits.

The calls of the other components, on their own tasks, leave the status of `Code Coverage`
alone (`statusOf_step_other`), so over every trace the manager holds the status that the last
start or end of a run set (`status_of_last_run`). When the runs never overlap, that is `RUNNING`
exactly while fewer runs have ended than started; when they overlap, the first to end sets `OK`
or `ERROR` while the other still runs.
-/

namespace CrosIde.Ui

open CommonUtil

variable {κ χ : Type}

/-! ## The status of one task in the manager -/

theorem statusOf_run_eq (calls : List (Call κ χ)) (n : TaskName) :
    (run calls).tasks.statusOf n =
      ((calls.foldl (fun data c => c.apply data) fun _ => none) n).map TaskData.status := by
  rw [Tasks.statusOf, getTaskData_run]

@[simp] theorem statusOf_run_append_setStatus (calls : List (Call κ χ)) (n : TaskName)
    (s : TaskStatus) : (run (calls ++ [.setStatus n s])).tasks.statusOf n = some s := by
  simp [statusOf_run_eq, Call.apply]

theorem statusOf_run_append_of_ne (calls : List (Call κ χ)) {call : Call κ χ} {n : TaskName}
    (h : call.taskName ≠ n) :
    (run (calls ++ [call])).tasks.statusOf n = (run calls).tasks.statusOf n := by
  simp [statusOf_run_eq, Call.apply_of_ne (Ne.symm h)]

/-! ## The coverage feature -/

/-- `COVERAGE_TASK_ID` (`bg_task_status.ts:400`). -/
def coverageTaskId : TaskName := "Code Coverage"

/-- `statusOk` (`bg_task_status.ts:467`): what `chrootService.exec` resolved with is not an
    `Error`, and its `exitStatus` is 0. -/
def statusOk {ε : Type} : Except ε ExecResult → Bool
  | .ok res => res.exitStatus == some 0
  | .error _ => false

/-- The status `generateCoverage` sets after its `await` (`bg_task_status.ts:471-474`). -/
def statusAfterExec {ε : Type} (res : Except ε ExecResult) : TaskStatus :=
  if statusOk res then .ok else .error

/-- A `Coverage` and the calls made so far on the `StatusManager`, its own and those of the
    other components, whose state is `Ui.run calls`. -/
structure Coverage (κ χ ε : Type) where
  /-- The number of runs of `generateCoverage` so far. -/
  started : Nat
  /-- The runs suspended at `await this.chrootService.exec(...)`. -/
  awaiting : List Nat
  /-- The runs that went past it, in order, with what `exec` resolved with. -/
  ended : List (Nat × Except ε ExecResult)
  calls : List (Call κ χ)

/-- An event of the extension. -/
inductive Coverage.Event (κ χ ε : Type) where
  /-- `chromiumide.coverage.generate` runs `generateCoverage` up to its `await`. -/
  | generate
  /-- The `exec` of run `i` resolves with `res`. -/
  | execDone (i : Nat) (res : Except ε ExecResult)
  /-- A call of another component, which names a task of its own. -/
  | other (call : Call κ χ)

namespace Coverage

variable {ε : Type} (output : χ)

/-- `Coverage.activate` (`bg_task_status.ts:414-449`) on the manager:
    `setTask(COVERAGE_TASK_ID, {status: OK, outputChannel: this.output})`. -/
def activate : Coverage κ χ ε := ⟨0, [], [], [.setTask coverageTaskId ⟨.ok, none, some output, none⟩]⟩

/-- `generateCoverage` (`bg_task_status.ts:451-465`) up to its `await`. -/
def generateCoverage (c : Coverage κ χ ε) : Coverage κ χ ε :=
  ⟨c.started + 1, c.awaiting ++ [c.started], c.ended, c.calls ++ [.setStatus coverageTaskId .running]⟩

/-- `generateCoverage` after its `await` (`bg_task_status.ts:466-474`). -/
def execDone (c : Coverage κ χ ε) (i : Nat) (res : Except ε ExecResult) : Coverage κ χ ε :=
  if i ∈ c.awaiting then
    ⟨c.started, c.awaiting.erase i, c.ended ++ [(i, res)],
      c.calls ++ [.setStatus coverageTaskId (statusAfterExec res)]⟩
  else c

/-- One event; a call of another component on `COVERAGE_TASK_ID` is not one it makes. -/
def step (c : Coverage κ χ ε) : Event κ χ ε → Coverage κ χ ε
  | .generate => c.generateCoverage
  | .execDone i res => c.execDone i res
  | .other call => if call.taskName = coverageTaskId then c else { c with calls := c.calls ++ [call] }

/-- The extension after a trace of events from `activate`. -/
def run (tr : List (Event κ χ ε)) : Coverage κ χ ε := tr.foldl step (activate output)

/-- The status the last run to move set: `RUNNING` for a start, the status of its `exec` for an
    end, and `OK` before any (no source counterpart). -/
def Recorded (c : Coverage κ χ ε) (status : TaskStatus) : Prop :=
  (Ui.run c.calls).tasks.statusOf coverageTaskId = some status

/-- The runs never overlap: a run starts only when none awaits. -/
def Serial : Coverage κ χ ε → List (Event κ χ ε) → Prop
  | _, [] => True
  | c, e :: tr => (e = .generate → c.awaiting = []) ∧ Serial (c.step e) tr

/-- Without overlap: at most one run awaits, the task is `RUNNING` exactly then, and otherwise
    it has the status of the last run to end, `OK` before any. -/
structure SerialInv (c : Coverage κ χ ε) : Prop where
  length_le : c.awaiting.length ≤ 1
  running : c.awaiting ≠ [] → Recorded c .running
  ended : c.awaiting = [] → Recorded c ((c.ended.getLast?.map (statusAfterExec ·.2)).getD .ok)

theorem statusOf_step_other (c : Coverage κ χ ε) (call : Call κ χ) :
    (Ui.run (c.step (.other call)).calls).tasks.statusOf coverageTaskId =
      (Ui.run c.calls).tasks.statusOf coverageTaskId := by
  simp only [step]
  split
  · rfl
  · exact statusOf_run_append_of_ne _ ‹_›

theorem serialInv_activate : SerialInv (activate output : Coverage κ χ ε) where
  length_le := by simp [activate]
  running h := absurd rfl h
  ended _ := by simp [Recorded, activate, statusOf_run_eq, Call.apply]

theorem serialInv_step {c : Coverage κ χ ε} (hi : SerialInv c) (e : Event κ χ ε)
    (hs : e = .generate → c.awaiting = []) : SerialInv (c.step e) := by
  cases e with
  | generate =>
    have h := hs rfl
    exact ⟨by simp [step, generateCoverage, h], fun _ => by simp [Recorded, step, generateCoverage],
      fun h' => by simp [step, generateCoverage] at h'⟩
  | execDone i res =>
    simp only [step, execDone]
    split
    · next hm =>
      have : c.awaiting = [i] := by
        match h : c.awaiting, hi.length_le with
        | [j], _ => simp_all
        | [], _ => simp_all
      refine ⟨by simp [this], fun h' => by simp [this] at h', fun _ => ?_⟩
      simp [Recorded]
    · exact hi
  | other call =>
    have ha : (c.step (.other call)).awaiting = c.awaiting := by simp only [step]; split <;> rfl
    have he : (c.step (.other call)).ended = c.ended := by simp only [step]; split <;> rfl
    refine ⟨ha ▸ hi.length_le, fun h => ?_, fun h => ?_⟩
    · rw [Recorded, statusOf_step_other]; exact hi.running (ha ▸ h)
    · rw [Recorded, statusOf_step_other, he]; exact hi.ended (ha ▸ h)

theorem serialInv_foldl {c : Coverage κ χ ε} (hi : SerialInv c) {tr : List (Event κ χ ε)}
    (hs : Serial c tr) : SerialInv (tr.foldl step c) := by
  induction tr generalizing c with
  | nil => exact hi
  | cons e tr ih => exact ih (serialInv_step hi e hs.1) hs.2

/-! ## The status over a run -/

/-- What a start or an end of a run sets the task to. -/
def Event.status : Event κ χ ε → Option TaskStatus
  | .generate => some .running
  | .execDone _ res => some (statusAfterExec res)
  | .other _ => none

/-- Whether an event starts a run. -/
def Event.isGenerate : Event κ χ ε → Bool
  | .generate => true
  | _ => false

/-- Whether an event ends a run. -/
def Event.isExecDone : Event κ χ ε → Bool
  | .execDone .. => true
  | _ => false

/-- The status the last start or end of a run in a trace sets, `OK` before any (no source
    counterpart). -/
def lastStatus (tr : List (Event κ χ ε)) : TaskStatus :=
  ((tr.filterMap Event.status).getLast?).getD .ok

/-- The `exec` of a run resolves only while the run awaits it. -/
def Allows (c : Coverage κ χ ε) : Event κ χ ε → Prop
  | .execDone i _ => i ∈ c.awaiting
  | _ => True

/-- A trace in which each `exec` resolves once, for a run that awaits it. -/
def Admissible : Coverage κ χ ε → List (Event κ χ ε) → Prop
  | _, [] => True
  | c, e :: tr => c.Allows e ∧ Admissible (c.step e) tr

theorem admissible_append_singleton (c : Coverage κ χ ε) (tr : List (Event κ χ ε))
    (e : Event κ χ ε) :
    Admissible c (tr ++ [e]) ↔ Admissible c tr ∧ (tr.foldl step c).Allows e := by
  induction tr generalizing c with
  | nil => simp [Admissible]
  | cons e' tr ih => simp [Admissible, ih, and_assoc]

theorem lastStatus_append_singleton (tr : List (Event κ χ ε)) (e : Event κ χ ε) :
    lastStatus (tr ++ [e]) = e.status.getD (lastStatus tr) := by
  cases h : e.status <;> simp [lastStatus, h]

theorem statusAfterExec_ne_running (res : Except ε ExecResult) :
    statusAfterExec res ≠ .running := by
  unfold statusAfterExec; split <;> simp

/-- An event the trace allows sets the status it names, and keeps it otherwise. -/
theorem statusOf_step {c : Coverage κ χ ε} {e : Event κ χ ε} (he : c.Allows e) :
    (Ui.run (c.step e).calls).tasks.statusOf coverageTaskId =
      (e.status.map some).getD ((Ui.run c.calls).tasks.statusOf coverageTaskId) := by
  cases e with
  | generate => simp [step, generateCoverage, Event.status]
  | execDone i res => simp [step, execDone, Event.status, show i ∈ c.awaiting from he]
  | other call => exact statusOf_step_other c call

/-- An event the trace allows counts its start or its end, and each run either awaits or has
    ended. -/
theorem counts_step {c : Coverage κ χ ε} {e : Event κ χ ε} (he : c.Allows e)
    (h : c.awaiting.length + c.ended.length = c.started) :
    (c.step e).started = c.started + (if e.isGenerate then 1 else 0) ∧
      (c.step e).ended.length = c.ended.length + (if e.isExecDone then 1 else 0) ∧
      (c.step e).awaiting.length + (c.step e).ended.length = (c.step e).started := by
  cases e with
  | generate => simp [step, generateCoverage, Event.isGenerate, Event.isExecDone]; omega
  | execDone i res =>
    have hi : i ∈ c.awaiting := he
    have := List.length_pos_of_mem hi
    simp [step, execDone, hi, Event.isGenerate, Event.isExecDone, List.length_erase_of_mem hi]
    omega
  | other call =>
    simp only [step, Event.isGenerate, Event.isExecDone]
    split <;> simpa using h

theorem run_append_singleton (tr : List (Event κ χ ε)) (e : Event κ χ ε) :
    run output (tr ++ [e]) = (run output tr).step e := by
  simp [run]

/-- Along a trace the task has the status its last start or end of a run set. -/
theorem statusOf_run (tr : List (Event κ χ ε)) (ha : Admissible (activate output) tr) :
    (Ui.run (run output tr).calls).tasks.statusOf coverageTaskId = some (lastStatus tr) := by
  induction tr using List.reverseRecOn with
  | nil => simp [run, activate, lastStatus, statusOf_run_eq, Call.apply]
  | append_singleton tr e ih =>
    obtain ⟨ha, he⟩ : Admissible _ tr ∧ (run output tr).Allows e :=
      (admissible_append_singleton _ tr e).1 ha
    rw [run_append_singleton, statusOf_step he, ih ha, lastStatus_append_singleton]
    cases e.status <;> rfl

/-- Along a trace the runs started are the starts of the trace, the runs ended its ends. -/
theorem counts_run (tr : List (Event κ χ ε)) (ha : Admissible (activate output) tr) :
    (run output tr).started = tr.countP Event.isGenerate ∧
      (run output tr).ended.length = tr.countP Event.isExecDone ∧
      (run output tr).awaiting.length + (run output tr).ended.length = (run output tr).started := by
  induction tr using List.reverseRecOn with
  | nil => simp [run, activate]
  | append_singleton tr e ih =>
    obtain ⟨ha, he⟩ : Admissible _ tr ∧ (run output tr).Allows e :=
      (admissible_append_singleton _ tr e).1 ha
    obtain ⟨h₁, h₂, h₃⟩ := ih ha
    obtain ⟨h₁', h₂', h₃'⟩ := counts_step he h₃
    rw [run_append_singleton, List.countP_append, List.countP_append]
    refine ⟨?_, ?_, h₃'⟩
    · rw [h₁', h₁]; cases e <;> rfl
    · rw [h₂', h₂]; cases e <;> rfl

/-- Over every trace of runs of the command, whatever the other components do, the task
    `Code Coverage` has the status that the last start or end of a run set: `RUNNING` for a
    start, `OK` for an `exec` that exited with status 0 and `ERROR` for any other, `OK` before
    any. When the runs never overlap, it is `RUNNING` exactly while a run has started and not
    ended. -/
theorem status_of_last_run (tr : List (Event κ χ ε)) (ha : Admissible (activate output) tr) :
    (Ui.run (run output tr).calls).tasks.statusOf coverageTaskId = some (lastStatus tr) ∧
      (Serial (activate output) tr →
        (lastStatus tr = .running ↔ tr.countP Event.isExecDone < tr.countP Event.isGenerate)) := by
  have hs := statusOf_run output tr ha
  refine ⟨hs, fun hser => ?_⟩
  obtain ⟨h₁, h₂, h₃⟩ := counts_run output tr ha
  have hi := serialInv_foldl (serialInv_activate output) hser
  by_cases hw : (run output tr).awaiting = []
  · have hr : some ((((run output tr).ended.getLast?).map (statusAfterExec ·.2)).getD .ok) =
        some (lastStatus tr) := (hi.ended hw).symm.trans hs
    have hne : lastStatus tr ≠ .running := by
      rw [← Option.some.inj hr]
      cases (run output tr).ended.getLast? <;> simp [statusAfterExec_ne_running]
    simp only [hw, List.length_nil, Nat.zero_add] at h₃
    exact iff_of_false hne (by omega)
  · have hr : some TaskStatus.running = some (lastStatus tr) := (hi.running hw).symm.trans hs
    have := List.length_pos.2 hw
    exact iff_of_true (Option.some.inj hr).symm (by omega)

/-- A run of the command while `Platform EC` runs, whose `cros_run_unit_tests` exits with
    status 1. -/
theorem status_of_last_run_error :
    Admissible (activate "log" : Coverage Unit String Unit)
        [.generate, .other (.setStatus "Platform EC" .running),
          .execDone 0 (.ok ⟨some 1, "", ""⟩)] ∧
      (Ui.run (run "log" [.generate, .other (.setStatus "Platform EC" .running),
        .execDone 0 (.ok ⟨some 1, "", ""⟩)] : Coverage Unit String Unit).calls).tasks.statusOf
          coverageTaskId =
        some (lastStatus [(.generate : Event Unit String Unit),
          .other (.setStatus "Platform EC" .running), .execDone 0 (.ok ⟨some 1, "", ""⟩)]) :=
  have ha : Admissible (activate "log" : Coverage Unit String Unit)
      [.generate, .other (.setStatus "Platform EC" .running),
        .execDone 0 (.ok ⟨some 1, "", ""⟩)] := by
    simp [Admissible, Allows, step, activate, generateCoverage, Call.taskName, coverageTaskId]
  ⟨ha, (status_of_last_run "log" _ ha).1⟩

/- Two runs that overlap: the first to end sets `OK` while the second still awaits, so the
   runs must not overlap for the status to show a run in progress. -/
example : (Ui.run (run "log" [.generate, .generate, .execDone 0 (.ok ⟨some 0, "", ""⟩)] :
      Coverage Unit String Unit).calls).tasks.statusOf coverageTaskId = some .ok ∧
    (run "log" [.generate, .generate, .execDone 0 (.ok ⟨some 0, "", ""⟩)] :
      Coverage Unit String Unit).awaiting = [1] := by
  decide

end Coverage

end CrosIde.Ui
