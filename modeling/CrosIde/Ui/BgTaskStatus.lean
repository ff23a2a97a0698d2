import CrosIde.Misc.JsMap
import Mathlib.Data.List.Sort
import Mathlib.Data.String.Basic

/-!
# The status of background tasks

`StatusManagerImpl` of `ui/bg_task_status.ts` and the two views that `activate` hangs on it:
the status bar items of `StatusBarHandler` and the `chromiumide-status` tree of
`StatusTreeData`. The manager keeps a `Map` from the name of a task to its `TaskData`, and calls
its change handlers after every change.

The tasks are a registry of names in order of creation, each with its data (`getTaskData_run`,
`getTasks_run`). After any sequence of calls the status bar shows the tasks in error and the
tasks running, each list in increasing order of names (`shows_run`), so that what it shows
depends on the statuses alone (`Shows.statusBarItem_eq`); and the tree lists every task, each
with the item of its data (`tree_run`). `statusManager_view` gathers these results.

A change handler takes the manager (`ChangeHandler`, `bg_task_status.ts:141`) and reads it
only through `getErrorTasks`, `getRunningTasks`, `getTasks` and `getTaskData`: here it takes
the tasks. The `vscode.Command` and the `vscode.OutputChannel` of a task are the parameters `κ`
and `χ`: the module only tests them for presence and hands them on. Names are ordered by code
point; `Array.prototype.sort` orders them by UTF-16 code unit, the same order for names in the
Basic Multilingual Plane.
-/

namespace CrosIde.Ui

/-- `TaskStatus` (`bg_task_status.ts:83-87`). -/
inductive TaskStatus where
  | ok
  | error
  | running
  deriving DecidableEq, Repr

/-- `getIcon` (`bg_task_status.ts:89-98`): the id of a codicon. -/
def getIcon : TaskStatus → String
  | .ok => "check"
  | .error => "error"
  | .running => "sync~spin"

/-- `TaskName` (`bg_task_status.ts:100`). -/
abbrev TaskName := String

/-- `TaskData` (`bg_task_status.ts:102-124`). -/
structure TaskData (κ χ : Type) where
  status : TaskStatus
  command : Option κ
  outputChannel : Option χ
  contextValue : Option String
  deriving DecidableEq, Repr

variable {κ χ : Type}

/-- `{...data, status}` (`bg_task_status.ts:159`): spreading `undefined` copies no field. -/
def TaskData.spread : Option (TaskData κ χ) → TaskStatus → TaskData κ χ
  | some data, status => { data with status }
  | none, status => ⟨status, none, none, none⟩

@[simp] theorem TaskData.spread_status (data : Option (TaskData κ χ)) (status : TaskStatus) :
    (TaskData.spread data status).status = status := by
  cases data <;> rfl

/-- The `tasks` of a `StatusManagerImpl` (`bg_task_status.ts:144`), its entries in insertion
    order. -/
abbrev Tasks (κ χ : Type) := List (TaskName × TaskData κ χ)

namespace Tasks

variable (tasks : Tasks κ χ)

/-- `getTasks` (`bg_task_status.ts:162-164`). -/
def getTasks : List TaskName := tasks.map Prod.fst

/-- `getTaskData` (`bg_task_status.ts:166-168`). -/
def getTaskData (taskName : TaskName) : Option (TaskData κ χ) := tasks.lookup taskName

/-- `get(status)` (`bg_task_status.ts:170-178`): the names of the tasks of status `status`, in
    the order of the `Map`. -/
def get (status : TaskStatus) : List TaskName :=
  tasks.filterMap fun entry => if entry.2.status = status then some entry.1 else none

/-- `getErrorTasks` (`bg_task_status.ts:180-182`). -/
def getErrorTasks : List TaskName := tasks.get .error

/-- `getRunningTasks` (`bg_task_status.ts:184-186`). -/
def getRunningTasks : List TaskName := tasks.get .running

/-- The status of each name: what the status bar summarises. -/
def statusOf (taskName : TaskName) : Option TaskStatus :=
  (tasks.getTaskData taskName).map TaskData.status

variable {tasks}

theorem get_sublist (status : TaskStatus) : (tasks.get status).Sublist tasks.getTasks := by
  induction tasks with
  | nil => exact .slnil
  | cons e tasks ih =>
    by_cases h : e.2.status = status
    · simpa [get, getTasks, h] using ih
    · simpa [get, getTasks, h] using ih.cons e.1

theorem mem_get (hn : tasks.getTasks.Nodup) {status : TaskStatus} {taskName : TaskName} :
    taskName ∈ tasks.get status ↔ tasks.statusOf taskName = some status := by
  simp only [get, List.mem_filterMap, Option.ite_none_right_eq_some, Option.some.injEq,
    statusOf, getTaskData, Option.map_eq_some']
  constructor
  · rintro ⟨⟨n, d⟩, hd, hs, rfl⟩
    exact ⟨d, lookup_eq_some_of_mem hn hd, hs⟩
  · rintro ⟨d, hd, hs⟩
    exact ⟨(taskName, d), mem_of_lookup hd, hs, rfl⟩

end Tasks

/-! ## The manager -/

/-- `StatusManagerImpl` (`bg_task_status.ts:143-198`), with `view`, the state its handlers
    render the tasks into. -/
structure StatusManagerImpl (κ χ σ : Type) where
  tasks : Tasks κ χ
  handlers : List (Tasks κ χ → σ → σ)
  view : σ

namespace StatusManagerImpl

variable {σ : Type} (m : StatusManagerImpl κ χ σ)

/-- `handleChange` (`bg_task_status.ts:193-197`): every handler, in order of registration. -/
def handleChange : StatusManagerImpl κ χ σ :=
  { m with view := m.handlers.foldl (fun view handler => handler m.tasks view) m.view }

/-- `onChange(handler)` (`bg_task_status.ts:188-191`): the handler is registered and called. -/
def onChange (handler : Tasks κ χ → σ → σ) : StatusManagerImpl κ χ σ :=
  { m with handlers := m.handlers ++ [handler], view := handler m.tasks m.view }

/-- `setTask` (`bg_task_status.ts:147-150`). -/
def setTask (taskName : TaskName) (taskData : TaskData κ χ) : StatusManagerImpl κ χ σ :=
  { m with tasks := mapSet m.tasks taskName taskData }.handleChange

/-- `deleteTask` (`bg_task_status.ts:152-155`). -/
def deleteTask (taskName : TaskName) : StatusManagerImpl κ χ σ :=
  { m with tasks := mapDelete m.tasks taskName }.handleChange

/-- `setStatus` (`bg_task_status.ts:157-160`). -/
def setStatus (taskName : TaskName) (status : TaskStatus) : StatusManagerImpl κ χ σ :=
  m.setTask taskName (.spread (m.tasks.getTaskData taskName) status)

end StatusManagerImpl

/-- A call of the `StatusManager` interface (`bg_task_status.ts:135-139`). -/
inductive Call (κ χ : Type) where
  | setTask (taskName : TaskName) (taskData : TaskData κ χ)
  | deleteTask (taskName : TaskName)
  | setStatus (taskName : TaskName) (status : TaskStatus)

namespace StatusManagerImpl

variable {σ : Type} (m : StatusManagerImpl κ χ σ)

/-- The manager makes a call. -/
def call : Call κ χ → StatusManagerImpl κ χ σ
  | .setTask taskName taskData => m.setTask taskName taskData
  | .deleteTask taskName => m.deleteTask taskName
  | .setStatus taskName status => m.setStatus taskName status

/-- The `Map.prototype.set` or `delete` a call makes. -/
def callTasks : Call κ χ → Tasks κ χ
  | .setTask taskName taskData => mapSet m.tasks taskName taskData
  | .deleteTask taskName => mapDelete m.tasks taskName
  | .setStatus taskName status =>
    mapSet m.tasks taskName (.spread (m.tasks.getTaskData taskName) status)

/-- Every call changes the `Map` once and then runs `handleChange`. -/
theorem call_eq (c : Call κ χ) : m.call c = { m with tasks := m.callTasks c }.handleChange := by
  cases c <;> rfl

@[simp] theorem call_tasks (c : Call κ χ) : (m.call c).tasks = m.callTasks c := by
  rw [call_eq]; rfl

@[simp] theorem call_handlers (c : Call κ χ) : (m.call c).handlers = m.handlers := by
  rw [call_eq]; rfl

end StatusManagerImpl

/-! ## What the tasks are

The registry the manager keeps, as a function from names to data and the list of names in
order of creation. -/

namespace Call

/-- The name a call is about. -/
def taskName : Call κ χ → TaskName
  | .setTask taskName _ | .deleteTask taskName | .setStatus taskName _ => taskName

/-- What a call does to the data of each name. -/
def apply : Call κ χ → (TaskName → Option (TaskData κ χ)) → TaskName → Option (TaskData κ χ)
  | .setTask taskName taskData, data => Function.update data taskName (some taskData)
  | .deleteTask taskName, data => Function.update data taskName none
  | .setStatus taskName status, data =>
    Function.update data taskName (some (.spread (data taskName) status))

/-- What a call does to the names, in order of creation. -/
def applyNames : Call κ χ → List TaskName → List TaskName
  | .setTask taskName _, names | .setStatus taskName _, names =>
    if taskName ∈ names then names else names ++ [taskName]
  | .deleteTask taskName, names => names.erase taskName

/-- A call leaves the data of the other names alone. -/
theorem apply_of_ne {c : Call κ χ} {n : TaskName} (h : n ≠ c.taskName)
    (data : TaskName → Option (TaskData κ χ)) : c.apply data n = data n := by
  cases c <;> exact Function.update_noteq h _ _

end Call

namespace StatusManagerImpl

variable {σ : Type} {m : StatusManagerImpl κ χ σ}

theorem getTaskData_callTasks (hn : m.tasks.getTasks.Nodup) (c : Call κ χ) :
    (m.callTasks c).getTaskData = c.apply m.tasks.getTaskData := by
  funext r
  cases c <;> simp [callTasks, Call.apply, Function.update_apply, Tasks.getTaskData, lookup_mapSet,
    lookup_mapDelete hn]

theorem getTasks_callTasks (c : Call κ χ) :
    (m.callTasks c).getTasks = c.applyNames m.tasks.getTasks := by
  cases c <;> simp only [callTasks, Call.applyNames, Tasks.getTasks, keys_mapSet, keys_mapDelete]

theorem nodup_callTasks (hn : m.tasks.getTasks.Nodup) (c : Call κ χ) :
    (m.callTasks c).getTasks.Nodup := by
  cases c
  · exact nodup_mapSet hn _ _
  · rw [getTasks_callTasks]; exact hn.erase _
  · exact nodup_mapSet hn _ _

end StatusManagerImpl

/-! ## The views -/

/-- The properties of a `vscode.StatusBarItem` that the module sets, and whether it is shown. -/
@[ext] structure StatusBarItem where
  text : String
  tooltip : Option String
  /-- The id of the `ThemeColor` of `backgroundColor`. -/
  backgroundColor : Option String
  command : Option String
  visible : Bool
  deriving DecidableEq, Repr

/-- `vscode.window.createStatusBarItem(alignment)`: no text, hidden. -/
def createStatusBarItem : StatusBarItem := ⟨"", none, none, none, false⟩

/-- `StatusBarHandler` (`bg_task_status.ts:200-238`). -/
structure StatusBarHandler where
  statusBarItem : StatusBarItem
  progressItem : StatusBarItem
  deriving DecidableEq, Repr

/-- `≤` on names, decided character by character. -/
def decideNameLE : @DecidableRel TaskName (· ≤ ·) :=
  fun _ _ => decidable_of_iff _ String.le_iff_toList_le.symm

/-- `names.sort()`. -/
def sortNames (names : List TaskName) : List TaskName :=
  @List.insertionSort _ (· ≤ ·) decideNameLE names

/-- `names.sort().join(', ')`. -/
def joinSorted (names : List TaskName) : String := ", ".intercalate (sortNames names)

/-- `StatusBarHandler.refresh` (`bg_task_status.ts:214-237`). -/
def StatusBarHandler.refresh (h : StatusBarHandler) (tasks : Tasks κ χ) : StatusBarHandler :=
  let errorTasks := tasks.getErrorTasks
  let runningTasks := tasks.getRunningTasks
  { statusBarItem :=
      if errorTasks.length ≠ 0 then
        { h.statusBarItem with
          text := "$(" ++ getIcon .error ++ ") ChromiumIDE",
          backgroundColor := some "statusBarItem.errorBackground",
          tooltip := some ("Errors: " ++ joinSorted errorTasks) }
      else
        { h.statusBarItem with
          text := "$(" ++ getIcon .ok ++ ") ChromiumIDE",
          backgroundColor := none,
          tooltip := some "No Problems" },
    progressItem :=
      if runningTasks.length ≠ 0 then
        { h.progressItem with
          text := "$(" ++ getIcon .running ++ ") Running " ++ joinSorted runningTasks ++ "...",
          visible := true }
      else { h.progressItem with visible := false } }

/-- `STATUS_TREE_ITEM_CLICKED` (`bg_task_status.ts:15`). -/
def statusTreeItemClicked : String := "chromiumide.status-tree-item-clicked"

/-- The `command` of a `TaskTreeItem`: the task's own, or the one built from its output
    channel. -/
inductive TreeItemCommand (κ χ : Type) where
  | given (command : κ)
  | built (title : String) (command : String) (arguments : TaskName × TaskStatus × χ)
  deriving DecidableEq, Repr

/-- A `TaskTreeItem` (`bg_task_status.ts:270-293`), with the id of its `ThemeIcon`. -/
structure TaskTreeItem (κ χ : Type) where
  label : TaskName
  iconPath : String
  command : Option (TreeItemCommand κ χ)
  contextValue : Option String
  deriving DecidableEq, Repr

/-- `new TaskTreeItem(title, status, command, outputChannel, contextValue)`: a given command
    wins over the output channel. -/
def TaskTreeItem.new (title : TaskName) (status : TaskStatus) (command : Option κ)
    (outputChannel : Option χ) (contextValue : Option String) : TaskTreeItem κ χ :=
  { label := title,
    iconPath := getIcon status,
    command := match command, outputChannel with
      | some command, _ => some (.given command)
      | none, some outputChannel =>
        some (.built "Show Details" statusTreeItemClicked (title, status, outputChannel))
      | none, none => none,
    contextValue }

/-- `StatusTreeData` (`bg_task_status.ts:240-268`): whether `statusManagerImpl` is set, and
    how many times `onDidChangeTreeDataEmitter` has fired. The field holds the one manager of
    `activate`, so that the tree reads its current tasks. -/
structure StatusTreeData where
  attached : Bool
  fired : Nat
  deriving DecidableEq, Repr

namespace StatusTreeData

/-- `new StatusTreeData()`. -/
def init : StatusTreeData := ⟨false, 0⟩

/-- `refresh` (`bg_task_status.ts:264-267`). -/
def refresh (t : StatusTreeData) : StatusTreeData := ⟨true, t.fired + 1⟩

/-- `getChildren` (`bg_task_status.ts:260-262`); `none` for the `TypeError` of reading
    `getTasks` of `undefined`. -/
def getChildren (t : StatusTreeData) (tasks : Tasks κ χ) : Option (List TaskName) :=
  if t.attached then some tasks.getTasks else none

/-- `getTreeItem` (`bg_task_status.ts:248-258`); `none` for a `TypeError`. -/
def getTreeItem (t : StatusTreeData) (tasks : Tasks κ χ) (element : TaskName) :
    Option (TaskTreeItem κ χ) :=
  if t.attached then
    (tasks.getTaskData element).map fun taskData =>
      .new element taskData.status taskData.command taskData.outputChannel taskData.contextValue
  else none

end StatusTreeData

/-- What the handlers of `activate` render the tasks into. -/
structure View where
  statusBar : StatusBarHandler
  tree : StatusTreeData
  deriving DecidableEq, Repr

/-- The status bar handler `activate` registers (`bg_task_status.ts:71-72`). -/
def refreshStatusBar (tasks : Tasks κ χ) (view : View) : View :=
  { view with statusBar := view.statusBar.refresh tasks }

/-- The tree handler `activate` registers (`bg_task_status.ts:74-75`). -/
def refreshTree (_ : Tasks κ χ) (view : View) : View := { view with tree := view.tree.refresh }

/-- `activate` (`bg_task_status.ts:23-81`): the two status bar items, the manager and its two
    handlers. -/
def activate : StatusManagerImpl κ χ View :=
  let statusBarItem :=
    { createStatusBarItem with command := some "chromiumide.showIdeStatus", visible := true }
  let progressItem := { createStatusBarItem with command := some "chromiumide-status.focus" }
  let statusManager : StatusManagerImpl κ χ View :=
    ⟨[], [], ⟨⟨statusBarItem, progressItem⟩, .init⟩⟩
  (statusManager.onChange refreshStatusBar).onChange refreshTree

/-- The manager of `activate` after a sequence of calls. -/
def run (calls : List (Call κ χ)) : StatusManagerImpl κ χ View :=
  calls.foldl StatusManagerImpl.call activate

theorem run_snoc (calls : List (Call κ χ)) (c : Call κ χ) :
    run (calls ++ [c]) = (run calls).call c := by
  simp [run]

/-! ## The registry -/

/-- The handlers are those of `activate`, and the names distinct. -/
structure Inv (m : StatusManagerImpl κ χ View) : Prop where
  handlers : m.handlers = [refreshStatusBar, refreshTree]
  nodup : m.tasks.getTasks.Nodup

theorem inv_activate : Inv (activate : StatusManagerImpl κ χ View) := ⟨rfl, List.nodup_nil⟩

theorem Inv.call {m : StatusManagerImpl κ χ View} (hi : Inv m) (c : Call κ χ) : Inv (m.call c) :=
  ⟨(m.call_handlers c).trans hi.handlers,
    (m.call_tasks c).symm ▸ StatusManagerImpl.nodup_callTasks hi.nodup c⟩

theorem inv_run (calls : List (Call κ χ)) : Inv (run calls) := by
  induction calls using List.reverseRecOn with
  | nil => exact inv_activate
  | append_singleton calls c ih => rw [run_snoc]; exact ih.call c

/-- The manager keeps the data of each name as the registry's calls leave it. -/
theorem getTaskData_run (calls : List (Call κ χ)) :
    (run calls).tasks.getTaskData = calls.foldl (fun data c => c.apply data) fun _ => none := by
  induction calls using List.reverseRecOn with
  | nil => rfl
  | append_singleton calls c ih =>
    rw [run_snoc, List.foldl_append, List.foldl_cons, List.foldl_nil, ← ih,
      StatusManagerImpl.call_eq]
    exact StatusManagerImpl.getTaskData_callTasks (inv_run calls).nodup c

/-- The names are in order of creation. -/
theorem getTasks_run (calls : List (Call κ χ)) :
    (run calls).tasks.getTasks = calls.foldl (fun names c => c.applyNames names) [] := by
  induction calls using List.reverseRecOn with
  | nil => rfl
  | append_singleton calls c ih =>
    rw [run_snoc, List.foldl_append, List.foldl_cons, List.foldl_nil, ← ih,
      StatusManagerImpl.call_eq]
    exact StatusManagerImpl.getTasks_callTasks c

/-- A status set on a task keeps its command, output channel and context value, and one set
    on a missing task makes a task with none. -/
example : (run [.setTask "C++ xrefs generation" ⟨.running, some 0, none, some "cppxrefs"⟩,
    .setStatus "C++ xrefs generation" .error, .setStatus "Code Coverage" .running] :
      StatusManagerImpl Nat Unit View).tasks =
    [("C++ xrefs generation", ⟨.error, some 0, none, some "cppxrefs"⟩),
      ("Code Coverage", ⟨.running, none, none, none⟩)] := by
  decide

/-! ## What the status bar shows -/

/-- `names` lists the names of status `status`, in increasing order. -/
def Lists (statusOf : TaskName → Option TaskStatus) (status : TaskStatus)
    (names : List TaskName) : Prop :=
  names.Sorted (· < ·) ∧ ∀ n, n ∈ names ↔ statusOf n = some status

/-- The list of the names of a status is unique. -/
theorem Lists.unique {statusOf : TaskName → Option TaskStatus} {status : TaskStatus}
    {names names' : List TaskName} (h : Lists statusOf status names)
    (h' : Lists statusOf status names') : names = names' :=
  List.eq_of_perm_of_sorted
    ((List.perm_ext_iff_of_nodup h.1.nodup h'.1.nodup).2 fun n => (h.2 n).trans (h'.2 n).symm)
    h.1 h'.1

/-- The fields of the status bar that `refresh` never writes, as `activate` sets them. -/
structure Frame (h : StatusBarHandler) : Prop where
  command : h.statusBarItem.command = some "chromiumide.showIdeStatus"
  visible : h.statusBarItem.visible = true
  progressCommand : h.progressItem.command = some "chromiumide-status.focus"
  progressTooltip : h.progressItem.tooltip = none
  progressBackground : h.progressItem.backgroundColor = none

theorem Frame.refresh {h : StatusBarHandler} (hf : Frame h) (tasks : Tasks κ χ) :
    Frame (h.refresh tasks) := by
  dsimp only [StatusBarHandler.refresh]
  split_ifs <;> exact ⟨hf.1, hf.2, hf.3, hf.4, hf.5⟩

/-- The status bar shows the statuses `statusOf`: the main item names the tasks in error, if
    any, and the progress item, shown when some task is running, those running. The text of the
    hidden progress item is left as it was. -/
structure Shows (statusOf : TaskName → Option TaskStatus) (h : StatusBarHandler) : Prop where
  frame : Frame h
  error : (∃ n, statusOf n = some .error) → ∃ names, Lists statusOf .error names ∧
    h.statusBarItem.text = "$(error) ChromiumIDE" ∧
    h.statusBarItem.tooltip = some ("Errors: " ++ ", ".intercalate names) ∧
    h.statusBarItem.backgroundColor = some "statusBarItem.errorBackground"
  noError : (∀ n, statusOf n ≠ some .error) →
    h.statusBarItem.text = "$(check) ChromiumIDE" ∧ h.statusBarItem.tooltip = some "No Problems" ∧
    h.statusBarItem.backgroundColor = none
  running : (∃ n, statusOf n = some .running) → ∃ names, Lists statusOf .running names ∧
    h.progressItem.text = "$(sync~spin) Running " ++ ", ".intercalate names ++ "..." ∧
    h.progressItem.visible = true
  idle : (∀ n, statusOf n ≠ some .running) → h.progressItem.visible = false

/-- Two status bars of the same frame have the same main item if its text, tooltip and
    background are the same. -/
theorem Frame.statusBarItem_eq {h h' : StatusBarHandler} (hf : Frame h) (hf' : Frame h')
    {text : String} {tooltip backgroundColor : Option String}
    (e : h.statusBarItem.text = text ∧ h.statusBarItem.tooltip = tooltip ∧
      h.statusBarItem.backgroundColor = backgroundColor)
    (e' : h'.statusBarItem.text = text ∧ h'.statusBarItem.tooltip = tooltip ∧
      h'.statusBarItem.backgroundColor = backgroundColor) :
    h.statusBarItem = h'.statusBarItem :=
  StatusBarItem.ext (e.1.trans e'.1.symm) (e.2.1.trans e'.2.1.symm) (e.2.2.trans e'.2.2.symm)
    (hf.command.trans hf'.command.symm) (hf.visible.trans hf'.visible.symm)

/-- The status bar is a function of the statuses: two status bars that show the same statuses
    have the same main item, and the same progress item while some task is running. -/
theorem Shows.statusBarItem_eq {statusOf : TaskName → Option TaskStatus}
    {h h' : StatusBarHandler} (hs : Shows statusOf h) (hs' : Shows statusOf h') :
    h.statusBarItem = h'.statusBarItem ∧
      ((∃ n, statusOf n = some .running) → h.progressItem = h'.progressItem) := by
  constructor
  · by_cases he : ∃ n, statusOf n = some .error
    · obtain ⟨names, hl, e⟩ := hs.error he
      obtain ⟨names', hl', e'⟩ := hs'.error he
      rw [hl.unique hl'] at e
      exact hs.frame.statusBarItem_eq hs'.frame e e'
    · push_neg at he
      exact hs.frame.statusBarItem_eq hs'.frame (hs.noError he) (hs'.noError he)
  · intro hr
    obtain ⟨names, hl, ht, hv⟩ := hs.running hr
    obtain ⟨names', hl', ht', hv'⟩ := hs'.running hr
    rw [hl.unique hl'] at ht
    have hf := hs.frame
    have hf' := hs'.frame
    exact StatusBarItem.ext (ht.trans ht'.symm) (hf.progressTooltip.trans hf'.progressTooltip.symm)
      (hf.progressBackground.trans hf'.progressBackground.symm)
      (hf.progressCommand.trans hf'.progressCommand.symm) (hv.trans hv'.symm)

section Refresh

variable {tasks : Tasks κ χ}

theorem lists_sortNames (hn : tasks.getTasks.Nodup) (status : TaskStatus) :
    Lists tasks.statusOf status (sortNames (tasks.get status)) := by
  have hp : (sortNames (tasks.get status)).Perm (tasks.get status) :=
    @List.perm_insertionSort _ _ decideNameLE _
  refine ⟨List.Sorted.lt_of_le ?_ (hp.nodup_iff.2 ((Tasks.get_sublist status).nodup hn)),
    fun n => hp.mem_iff.trans (Tasks.mem_get hn)⟩
  exact @List.sorted_insertionSort _ _ decideNameLE _ _ _

theorem length_get_eq_zero (hn : tasks.getTasks.Nodup) (status : TaskStatus) :
    (tasks.get status).length = 0 ↔ ∀ n, tasks.statusOf n ≠ some status := by
  simp only [List.length_eq_zero, List.eq_nil_iff_forall_not_mem, Tasks.mem_get hn]

/-- `refresh` makes the status bar show the statuses of the tasks. -/
theorem refresh_shows {h : StatusBarHandler} (hf : Frame h) (hn : tasks.getTasks.Nodup) :
    Shows tasks.statusOf (h.refresh tasks) where
  frame := hf.refresh tasks
  error he := by
    refine ⟨_, lists_sortNames hn .error, ?_⟩
    simp only [StatusBarHandler.refresh, Tasks.getErrorTasks,
      if_pos ((length_get_eq_zero hn _).not.2 (not_forall_not.2 he))]
    exact ⟨rfl, rfl, trivial⟩
  noError he := by
    simp only [StatusBarHandler.refresh, Tasks.getErrorTasks,
      if_neg (not_not.2 ((length_get_eq_zero hn _).2 he))]
    exact ⟨rfl, trivial, trivial⟩
  running hr := by
    refine ⟨_, lists_sortNames hn .running, ?_⟩
    simp only [StatusBarHandler.refresh, Tasks.getRunningTasks,
      if_pos ((length_get_eq_zero hn _).not.2 (not_forall_not.2 hr))]
    exact ⟨rfl, trivial⟩
  idle hr := by
    simp only [StatusBarHandler.refresh, Tasks.getRunningTasks,
      if_neg (not_not.2 ((length_get_eq_zero hn _).2 hr))]

end Refresh

/-! ## After any calls -/

theorem Inv.view_call {m : StatusManagerImpl κ χ View} (hi : Inv m) (c : Call κ χ) :
    (m.call c).view = ⟨m.view.statusBar.refresh (m.callTasks c), m.view.tree.refresh⟩ := by
  rw [m.call_eq]
  simp only [StatusManagerImpl.handleChange, hi.handlers, List.foldl, refreshStatusBar, refreshTree]

/-- After any calls, the status bar shows the statuses of the tasks, and the tree has been told
    to refresh once at `activate` and once after every call. -/
theorem shows_run (calls : List (Call κ χ)) :
    Shows (run calls).tasks.statusOf (run calls).view.statusBar ∧
      (run calls).view.tree = ⟨true, calls.length + 1⟩ := by
  induction calls using List.reverseRecOn with
  | nil => exact ⟨refresh_shows ⟨rfl, rfl, rfl, rfl, rfl⟩ List.nodup_nil, rfl⟩
  | append_singleton calls c ih =>
    rw [run_snoc, (inv_run calls).view_call, StatusManagerImpl.call_tasks]
    refine ⟨refresh_shows ih.1.frame (StatusManagerImpl.nodup_callTasks (inv_run calls).nodup c),
      ?_⟩
    simp [StatusTreeData.refresh, ih.2]

/-- The names of a tooltip are sorted, whatever the order in which their tasks were created. -/
example : (run [.setTask "UI Actions" ⟨.ok, some 0, none, none⟩,
    .setStatus "Platform EC" .error, .setStatus "Code Coverage" .error,
    .setStatus "C++ xrefs generation" .running] : StatusManagerImpl Nat Unit View).view.statusBar =
    ⟨⟨"$(error) ChromiumIDE", some "Errors: Code Coverage, Platform EC",
        some "statusBarItem.errorBackground", some "chromiumide.showIdeStatus", true⟩,
      ⟨"$(sync~spin) Running C++ xrefs generation...", none, none,
        some "chromiumide-status.focus", true⟩⟩ := by
  decide

/-- The tree lists the names in order of creation, and each with the item of its data: the `!`
    of `getTreeItem` never meets `undefined`. -/
theorem tree_run (calls : List (Call κ χ)) :
    (run calls).view.tree.getChildren (run calls).tasks =
      some (calls.foldl (fun names c => c.applyNames names) []) ∧
    ∀ n ∈ (run calls).tasks.getTasks, ∃ d, (run calls).tasks.getTaskData n = some d ∧
      (run calls).view.tree.getTreeItem (run calls).tasks n =
        some (.new n d.status d.command d.outputChannel d.contextValue) := by
  have ha : (run calls).view.tree.attached = true := by rw [(shows_run calls).2]
  refine ⟨by rw [StatusTreeData.getChildren, if_pos ha, getTasks_run], fun n hn => ?_⟩
  obtain ⟨d, hd⟩ := exists_lookup_of_mem hn
  exact ⟨d, hd, by rw [StatusTreeData.getTreeItem, if_pos ha, Tasks.getTaskData, hd]; rfl⟩

/-- After any calls of `setTask` and `setStatus`: the names are in order of creation; the status
    bar shows the statuses of the tasks and depends on them alone, any status bar that shows
    them having the same main item, and the same progress item while some task is running; and
    the tree lists the names, each with the item of its data. -/
theorem statusManager_view (calls : List (Call κ χ)) :
    (run calls).tasks.getTasks = calls.foldl (fun names c => c.applyNames names) [] ∧
    Shows (run calls).tasks.statusOf (run calls).view.statusBar ∧
    (∀ h, Shows (run calls).tasks.statusOf h →
      h.statusBarItem = (run calls).view.statusBar.statusBarItem ∧
        ((∃ n, (run calls).tasks.statusOf n = some .running) →
          h.progressItem = (run calls).view.statusBar.progressItem)) ∧
    (run calls).view.tree.getChildren (run calls).tasks = some (run calls).tasks.getTasks ∧
    ∀ n ∈ (run calls).tasks.getTasks, ∃ d, (run calls).tasks.getTaskData n = some d ∧
      (run calls).view.tree.getTreeItem (run calls).tasks n =
        some (.new n d.status d.command d.outputChannel d.contextValue) :=
  have hs := (shows_run calls).1
  ⟨getTasks_run calls, hs, fun _ h => h.statusBarItem_eq hs,
    (tree_run calls).1.trans (congrArg some (getTasks_run calls).symm), (tree_run calls).2⟩

end CrosIde.Ui
