import Mathlib.Data.String.Basic

/-!
# `exec`

`realExec` of `common_util.ts:295-383` as a state machine over the events of the child process
it spawns. The synchronous part of the call (`start`) logs the command line, spawns the child
and, if the token is already cancelled, calls `cancel()`; then each event runs its handler
(`step`): a chunk of stdout or stderr, the child's exit (which sets `command.exitCode`),
`close`, `error`, the cancellation of the token, and the callback of a `treeKill`.

The promise's `resolve` keeps the first value it is given (`Exec.resolve`), so the promise
settles to what the first handler that calls `resolve` passes (`result_run_snoc`), and then
never changes (`result_run_append_of_eq_some`); a `close` or an `error` settles it
(`isSome_result_run`). Unless `treeKillWhenCancelling` is set on a child that was spawned, it
settles to what the documentation of `exec` describes: `CancelledError` when cancellation comes
before the first `close` or `error`, otherwise the error or the result of that first event
(`result_run_of_direct`); `promise_settles_once` gathers these facts. In tree-kill mode
`cancel()` only starts the `treeKill`, and a `close` before its callback settles the promise
with the child's status instead (`cancel_lost_to_close`).

What the logger receives is the command line, then the logged chunks, then one `'\n'` per
`close` or `error` if the chunks do not end with one: `lastChar` is not updated when `'\n'` is
appended (`log_run`), so a second terminal event appends a second `'\n'`: an `error`, a
`kill()` that failed say, and then the `close` of the child (`log_error_then_close`).

`shutil.escapeArray([name, ...args])` is absent from the sources; its value, the shell-escaped
command line, is the parameter `escaped`. `cwd`, `env` and `pipeStdin` go to the child only and
are left out, as is which signal `kill()` sends.
-/

namespace CrosIde.CommonUtil

/-- The fields of `ExecOptions` (`common_util.ts:136-177`) that `realExec` reads besides those
    it passes to the child: whether a `logger` is given, `logStdout`, `ignoreNonZeroExit`,
    whether a `cancellationToken` is given and then whether its `isCancellationRequested` holds
    at the call, and `treeKillWhenCancelling`. An option left `undefined` is `false`. -/
structure ExecOptions where
  logger : Bool
  logStdout : Bool
  ignoreNonZeroExit : Bool
  cancellationToken : Option Bool
  treeKillWhenCancelling : Bool
deriving DecidableEq, Repr

/-- `ExecResult` (`common_util.ts:130-134`). -/
structure ExecResult where
  exitStatus : Option Int
  stdout : String
  stderr : String
deriving DecidableEq, Repr

/-- What the promise of `realExec` resolves with: an `ExecResult`, or one of the errors of
    `common_util.ts:185-225` with its message. -/
inductive ExecOutcome where
  | result (r : ExecResult)
  | abnormalExitError (message : String) (exitStatus : Option Int) (stdout stderr : String)
  | processError (message : String)
  | cancelledError (message : String)
deriving DecidableEq, Repr

/-- `${exitStatus}` for a `number | null`. -/
def statusText : Option Int → String
  | none => "null"
  | some n => toString n

section Errors

variable (escaped : String)

/-- `new AbnormalExitError(name, args, exitStatus, stdout, stderr)` (`common_util.ts:185-203`). -/
def newAbnormalExitError (exitStatus : Option Int) (stdout stderr : String) : ExecOutcome :=
  .abnormalExitError ("\"" ++ escaped ++ "\" failed, exit status: " ++ statusText exitStatus)
    exitStatus stdout stderr

/-- `new ProcessError(name, args, err)` (`common_util.ts:209-214`), for `err.message`. -/
def newProcessError (message : String) : ExecOutcome :=
  .processError ("\"" ++ escaped ++ "\" failed: " ++ message)

/-- `new CancelledError(name, args)` (`common_util.ts:219-223`). -/
def newCancelledError : ExecOutcome := .cancelledError ("\"" ++ escaped ++ "\" cancelled")

end Errors

/-- The values of `lastChar`: `''`, a character, or `undefined`, which
    `data[data.length - 1]` is for an empty chunk. -/
inductive LastChar where
  | empty
  | char (c : Char)
  | undefined
deriving DecidableEq, Repr

/-- `data[data.length - 1]`. -/
def LastChar.of (data : String) : LastChar :=
  match data.toList.getLast? with
  | some c => .char c
  | none => .undefined

/-- `lastChar` once the text `text` has been logged after `c`. -/
def LastChar.after (text : String) (c : LastChar) : LastChar :=
  match text.toList.getLast? with
  | some c' => .char c'
  | none => c

/-- `lastChar !== '' && lastChar !== '\n'`. -/
def LastChar.needsNewline : LastChar → Bool
  | .empty => false
  | .char c => c != '\n'
  | .undefined => true

/-- A call of `realExec` and its child: the text appended to the logger, the variables of the
    promise's executor, what `cancel()` reads, the `kill()` calls, the `treeKill` calls whose
    callback is still to run, and the first value passed to `resolve`. -/
structure Exec where
  log : String
  stdout : String
  stderr : String
  lastChar : LastChar
  /-- `command.pid !== undefined`. -/
  spawned : Bool
  /-- `command.exitCode`. -/
  exitCode : Option Int
  /-- `cancellationToken.isCancellationRequested`. -/
  cancellationRequested : Bool
  kills : Nat
  treeKills : Nat
  result : Option ExecOutcome
deriving DecidableEq, Repr

/-- An event that runs a handler of `realExec`. -/
inductive ChildEvent where
  /-- `'data'` on `command.stdout`. -/
  | stdout (data : String)
  /-- `'data'` on `command.stderr`. -/
  | stderr (data : String)
  /-- The child exits and `command.exitCode` is set: `null` when a signal ended it. -/
  | exit (exitCode : Option Int)
  /-- `'close'` with the exit status. -/
  | close (exitStatus : Option Int)
  /-- `'error'`, with the message of the error. -/
  | error (message : String)
  /-- The source of the token is cancelled. -/
  | cancel
  /-- The callback of a `treeKill`, with or without an error. -/
  | treeKillDone (err : Bool)
deriving DecidableEq, Repr

namespace Exec

variable (o : ExecOptions) (escaped : String)

/-- `resolve(x)`: a promise keeps the first value it is resolved with. -/
def resolve (s : Exec) (x : ExecOutcome) : Exec := { s with result := s.result.or (some x) }

/-- The `'\n'` that the `close` and `error` handlers append
    (`common_util.ts:335-337, 346-348`). -/
def flush (s : Exec) : Exec :=
  if o.logger && s.lastChar.needsNewline then { s with log := s.log ++ "\n" } else s

/-- The `'data'` handler of stdout (`common_util.ts:318-324`). -/
def onStdout (s : Exec) (data : String) : Exec :=
  let s := if o.logger && o.logStdout then
    { s with log := s.log ++ data, lastChar := .of data } else s
  { s with stdout := s.stdout ++ data }

/-- The `'data'` handler of stderr (`common_util.ts:326-332`). -/
def onStderr (s : Exec) (data : String) : Exec :=
  let s := if o.logger then { s with log := s.log ++ data, lastChar := .of data } else s
  { s with stderr := s.stderr ++ data }

/-- The `'close'` handler (`common_util.ts:334-343`): it calls `resolve` twice when the status
    is an error. -/
def onClose (s : Exec) (exitStatus : Option Int) : Exec :=
  let s := flush o s
  let s := if !o.ignoreNonZeroExit && exitStatus != some 0 then
    s.resolve (newAbnormalExitError escaped exitStatus s.stdout s.stderr) else s
  s.resolve (.result ⟨exitStatus, s.stdout, s.stderr⟩)

/-- The `'error'` handler (`common_util.ts:346-351`). -/
def onError (s : Exec) (message : String) : Exec :=
  (flush o s).resolve (newProcessError escaped message)

/-- Whether `cancel()` kills the child at once and resolves: tree-kill is not requested, or
    there is no pid, or the child has exited (`common_util.ts:355-359`). -/
def killsAtOnce (s : Exec) : Bool :=
  !o.treeKillWhenCancelling || !s.spawned || s.exitCode.isSome

/-- `cancel()` (`common_util.ts:354-372`): `kill()` and `resolve`, or `treeKill(pid, cb)`. -/
def cancel (s : Exec) : Exec :=
  if killsAtOnce o s then { s with kills := s.kills + 1 }.resolve (newCancelledError escaped)
  else { s with treeKills := s.treeKills + 1 }

/-- The synchronous part of `realExec` (`common_util.ts:300-316, 373-381`), for a child that
    `spawned` or not. -/
def start (spawned : Bool) : Exec :=
  let s : Exec := ⟨if o.logger then escaped ++ "\n" else "", "", "", .empty, spawned, none,
    o.cancellationToken == some true, 0, 0, none⟩
  if o.cancellationToken == some true then cancel o escaped s else s

/-- The handler an event runs. The listener of `onCancellationRequested` fires once, when the
    token is cancelled after the call; the callback of `treeKill` (`common_util.ts:362-368`)
    runs once per call. -/
def step (s : Exec) : ChildEvent → Exec
  | .stdout data => onStdout o s data
  | .stderr data => onStderr o s data
  | .exit code => { s with exitCode := code }
  | .close exitStatus => onClose o escaped s exitStatus
  | .error message => onError o escaped s message
  | .cancel =>
    if o.cancellationToken == some false && !s.cancellationRequested then
      cancel o escaped { s with cancellationRequested := true }
    else s
  | .treeKillDone err =>
    if 0 < s.treeKills then
      { s with treeKills := s.treeKills - 1, kills := if err then s.kills + 1 else s.kills }.resolve
        (newCancelledError escaped)
    else s

/-- The call and its child after the events `tr`. -/
def run (spawned : Bool) (tr : List ChildEvent) : Exec :=
  tr.foldl (step o escaped) (start o escaped spawned)

theorem run_snoc (spawned : Bool) (tr : List ChildEvent) (e : ChildEvent) :
    run o escaped spawned (tr ++ [e]) = step o escaped (run o escaped spawned tr) e := by
  simp [run]

/-! ## What each handler changes -/

section Handlers

variable (s : Exec)

@[simp] theorem resolve_result (x : ExecOutcome) : (s.resolve x).result = s.result.or (some x) :=
  rfl
@[simp] theorem resolve_log (x : ExecOutcome) : (s.resolve x).log = s.log := rfl
@[simp] theorem resolve_stdout (x : ExecOutcome) : (s.resolve x).stdout = s.stdout := rfl
@[simp] theorem resolve_stderr (x : ExecOutcome) : (s.resolve x).stderr = s.stderr := rfl
@[simp] theorem resolve_lastChar (x : ExecOutcome) : (s.resolve x).lastChar = s.lastChar := rfl

@[simp] theorem flush_result : (flush o s).result = s.result := by unfold flush; split <;> rfl
@[simp] theorem flush_stdout : (flush o s).stdout = s.stdout := by unfold flush; split <;> rfl
@[simp] theorem flush_stderr : (flush o s).stderr = s.stderr := by unfold flush; split <;> rfl
@[simp] theorem flush_lastChar : (flush o s).lastChar = s.lastChar := by
  unfold flush; split <;> rfl
theorem flush_log : (flush o s).log =
    s.log ++ if o.logger && s.lastChar.needsNewline then "\n" else "" := by
  unfold flush; split <;> simp [*]

theorem onStdout_eq (data : String) : onStdout o s data =
    if o.logger && o.logStdout then
      { s with log := s.log ++ data, lastChar := .of data, stdout := s.stdout ++ data }
    else { s with stdout := s.stdout ++ data } := by
  unfold onStdout; split <;> rfl

theorem onStderr_eq (data : String) : onStderr o s data =
    if o.logger then
      { s with log := s.log ++ data, lastChar := .of data, stderr := s.stderr ++ data }
    else { s with stderr := s.stderr ++ data } := by
  unfold onStderr; split <;> rfl

end Handlers

/-! ## Settling -/

/-- What the `close` handler settles the promise to, for the output so far. -/
def closeOutcome (exitStatus : Option Int) (stdout stderr : String) : ExecOutcome :=
  if !o.ignoreNonZeroExit && exitStatus != some 0 then
    newAbnormalExitError escaped exitStatus stdout stderr
  else .result ⟨exitStatus, stdout, stderr⟩

/-- The settlement that the documentation of `exec` (`common_util.ts:235-249`) and the spec
    describe, read off the events from the output `out` and `err` so far: `CancelledError` if
    cancellation is requested before the child's first `close` or `error`, otherwise the
    `ProcessError` of an `error`, otherwise what the first `close` reports. -/
def documentedFrom (out err : String) : List ChildEvent → Option ExecOutcome
  | [] => none
  | .stdout data :: tr => documentedFrom (out ++ data) err tr
  | .stderr data :: tr => documentedFrom out (err ++ data) tr
  | .close exitStatus :: _ => some (closeOutcome o escaped exitStatus out err)
  | .error message :: _ => some (newProcessError escaped message)
  | .cancel :: tr =>
    if o.cancellationToken.isSome then some (newCancelledError escaped)
    else documentedFrom out err tr
  | .exit _ :: tr | .treeKillDone _ :: tr => documentedFrom out err tr

/-- The documented settlement of a call, whose token may be cancelled before it. -/
def documented (tr : List ChildEvent) : Option ExecOutcome :=
  if o.cancellationToken == some true then some (newCancelledError escaped)
  else documentedFrom o escaped "" "" tr

/-- A child `sleep 1` in tree-kill mode ends on its own while `treeKill` is still at work:
    cancellation was requested before its `close`, and yet the promise settles to its exit
    status, not to the documented `CancelledError`. -/
theorem cancel_lost_to_close :
    (run ⟨false, false, false, some false, true⟩ "sleep 1" true
        [.cancel, .exit (some 0), .close (some 0), .treeKillDone false]).result =
      some (.result ⟨some 0, "", ""⟩) ∧
    documented ⟨false, false, false, some false, true⟩ "sleep 1"
        [.cancel, .exit (some 0), .close (some 0), .treeKillDone false] =
      some (.cancelledError "\"sleep 1\" cancelled") := by
  decide

/-! ## What is logged and returned -/

/-- The text of a chunk of stdout. -/
def stdoutText : ChildEvent → String
  | .stdout data => data
  | _ => ""

/-- The text of a chunk of stderr. -/
def stderrText : ChildEvent → String
  | .stderr data => data
  | _ => ""

/-- The text the logger receives of a chunk (`common_util.ts:319-322, 327-330`). -/
def loggedText : ChildEvent → String
  | .stdout data => if o.logStdout then data else ""
  | .stderr data => data
  | _ => ""

/-- A chunk of output that is not empty. -/
def IsChunk : ChildEvent → Prop
  | .stdout data | .stderr data => data ≠ ""
  | _ => False

/-- A `close` or an `error`. -/
def IsTerminal : ChildEvent → Prop
  | .close _ | .error _ => True
  | _ => False

theorem join_cons_text (t : String) (ts : List String) :
    String.join (t :: ts) = t ++ String.join ts :=
  String.ext_iff.2 (by simp [String.data_join])

theorem step_stdout (s : Exec) (e : ChildEvent) :
    (step o escaped s e).stdout = s.stdout ++ stdoutText e := by
  cases e with
  | stdout data => rw [step, onStdout_eq]; split <;> rfl
  | stderr data => rw [step, onStderr_eq]; split <;> simp [stdoutText]
  | close exitStatus => simp only [step, onClose]; split <;> simp [stdoutText]
  | cancel => simp only [step, cancel]; split_ifs <;> simp [stdoutText]
  | treeKillDone err => simp only [step]; split <;> simp [stdoutText]
  | exit _ | error _ => simp [step, onError, stdoutText]

theorem step_stderr (s : Exec) (e : ChildEvent) :
    (step o escaped s e).stderr = s.stderr ++ stderrText e := by
  cases e with
  | stdout data => rw [step, onStdout_eq]; split <;> simp [stderrText]
  | stderr data => rw [step, onStderr_eq]; split <;> rfl
  | close exitStatus => simp only [step, onClose]; split <;> simp [stderrText]
  | cancel => simp only [step, cancel]; split_ifs <;> simp [stderrText]
  | treeKillDone err => simp only [step]; split <;> simp [stderrText]
  | exit _ | error _ => simp [step, onError, stderrText]

/-- The call logs the command line, and has no output yet. -/
theorem start_eq (spawned : Bool) :
    (start o escaped spawned).log = (if o.logger then escaped ++ "\n" else "") ∧
      (start o escaped spawned).lastChar = .empty ∧ (start o escaped spawned).stdout = "" ∧
      (start o escaped spawned).stderr = "" := by
  simp only [start, cancel]
  split_ifs <;> exact ⟨rfl, rfl, rfl, rfl⟩

/-- The output of the child is the concatenation of its chunks, in every run. -/
theorem output_run (spawned : Bool) (tr : List ChildEvent) :
    (run o escaped spawned tr).stdout = String.join (tr.map stdoutText) ∧
      (run o escaped spawned tr).stderr = String.join (tr.map stderrText) := by
  induction tr using List.reverseRecOn with
  | nil => exact (start_eq o escaped spawned).2.2
  | append_singleton tr e ih =>
    simp only [run_snoc, step_stdout, step_stderr, ih, List.map_append, List.map_singleton]
    constructor <;> exact String.ext_iff.2 (by simp [String.data_join])

section Log

variable {o}

theorem LastChar.of_eq_after {data : String} (h : data ≠ "") (c : LastChar) :
    LastChar.of data = LastChar.after data c := by
  simp only [LastChar.of, LastChar.after]
  cases hd : data.toList.getLast? with
  | none => exact absurd (String.ext_iff.2 (List.getLast?_eq_none_iff.1 hd)) h
  | some c' => rfl

theorem LastChar.after_append (a b : String) (c : LastChar) :
    LastChar.after (a ++ b) c = LastChar.after b (LastChar.after a c) := by
  simp only [LastChar.after, String.toList, String.data_append, List.getLast?_append]
  cases b.data.getLast? <;> cases a.data.getLast? <;> rfl

theorem LastChar.needsNewline_after_empty (text : String) :
    (LastChar.after text .empty).needsNewline = text.toList.getLast?.any (· != '\n') := by
  simp only [LastChar.after]
  cases text.toList.getLast? <;> rfl

/-- A chunk is logged, and sets `lastChar`, when the logger takes it. -/
theorem step_chunk (hl : o.logger = true) (s : Exec) {e : ChildEvent} (he : IsChunk e) :
    (step o escaped s e).log = s.log ++ loggedText o e ∧
      (step o escaped s e).lastChar = LastChar.after (loggedText o e) s.lastChar := by
  cases e with
  | stdout data =>
    have hd : data ≠ "" := he
    rw [step, onStdout_eq]
    by_cases hs : o.logStdout
    · simpa [hl, hs, loggedText] using LastChar.of_eq_after hd s.lastChar
    · simp [hs, loggedText, LastChar.after]
  | stderr data =>
    have hd : data ≠ "" := he
    simpa [step, onStderr_eq, hl, loggedText] using LastChar.of_eq_after hd s.lastChar
  | exit _ | close _ | error _ | cancel | treeKillDone _ => exact he.elim

theorem foldl_chunks (hl : o.logger = true) :
    ∀ (s : Exec) (ds : List ChildEvent), (∀ e ∈ ds, IsChunk e) →
      (ds.foldl (step o escaped) s).log = s.log ++ String.join (ds.map (loggedText o)) ∧
        (ds.foldl (step o escaped) s).lastChar =
          LastChar.after (String.join (ds.map (loggedText o))) s.lastChar
  | s, [], _ => ⟨String.ext_iff.2 (by simp [String.data_join]), rfl⟩
  | s, e :: ds, hds => by
    obtain ⟨hlog, hlast⟩ := step_chunk escaped hl s (hds e (List.mem_cons_self _ _))
    obtain ⟨ih₁, ih₂⟩ := foldl_chunks hl (step o escaped s e) ds
      fun e' he' => hds e' (List.mem_cons_of_mem _ he')
    rw [List.foldl_cons, ih₁, ih₂, hlog, hlast, List.map_cons, join_cons_text,
      LastChar.after_append, String.append_assoc]
    exact ⟨rfl, rfl⟩

/-- A `close` or an `error` appends `'\n'` when `lastChar` asks for it, and leaves
    `lastChar` as it is. -/
theorem step_terminal (hl : o.logger = true) (s : Exec) {e : ChildEvent} (he : IsTerminal e) :
    (step o escaped s e).log = s.log ++ (if s.lastChar.needsNewline then "\n" else "") ∧
      (step o escaped s e).lastChar = s.lastChar := by
  cases e with
  | close exitStatus =>
    simp only [step, onClose]
    split <;> simp [flush_log, hl]
  | error message => simp [step, onError, flush_log, hl]
  | stdout _ | stderr _ | exit _ | cancel | treeKillDone _ => exact he.elim

theorem foldl_terminals (hl : o.logger = true) :
    ∀ (s : Exec) (ts : List ChildEvent), (∀ e ∈ ts, IsTerminal e) →
      (ts.foldl (step o escaped) s).log = s.log ++
        String.join (List.replicate (if s.lastChar.needsNewline then ts.length else 0) "\n")
  | s, [], _ => String.ext_iff.2 (by split <;> simp)
  | s, e :: ts, hts => by
    obtain ⟨hlog, hlast⟩ := step_terminal escaped hl s (hts e (List.mem_cons_self _ _))
    rw [List.foldl_cons, foldl_terminals hl _ ts fun e' he' => hts e' (List.mem_cons_of_mem _ he'),
      hlog, hlast]
    split <;> exact String.ext_iff.2 (by simp [String.data_join, List.replicate_succ])

/-- When a logger is given, a run of non-empty chunks followed by `close` and `error` events
    logs the command line, then the logged chunks, then one `'\n'` per terminal event if the
    chunks do not end with one. -/
theorem log_run (hl : o.logger = true) (spawned : Bool) (ds ts : List ChildEvent)
    (hds : ∀ e ∈ ds, IsChunk e) (hts : ∀ e ∈ ts, IsTerminal e) :
    (run o escaped spawned (ds ++ ts)).log =
      escaped ++ "\n" ++ String.join (ds.map (loggedText o)) ++
        String.join (List.replicate
          (if (String.join (ds.map (loggedText o))).toList.getLast?.any (· != '\n') then
            ts.length else 0) "\n") := by
  obtain ⟨hlog, hlast, -⟩ := start_eq o escaped spawned
  obtain ⟨h₁, h₂⟩ := foldl_chunks escaped hl (start o escaped spawned) ds hds
  rw [run, List.foldl_append, foldl_terminals escaped hl _ ts hts, h₁, h₂, hlog, hlast, hl,
    if_pos rfl]
  rw [LastChar.needsNewline_after_empty]

end Log

/-- When a logger is given, a run of non-empty chunks followed by `close` and `error` events
    logs the command line, then the logged chunks, then one `'\n'` per terminal event if the
    chunks do not end with one; and in every run stdout and stderr are the concatenations of
    their chunks. -/
theorem log_output_run (hl : o.logger = true) (spawned : Bool) (ds ts : List ChildEvent)
    (hds : ∀ e ∈ ds, IsChunk e) (hts : ∀ e ∈ ts, IsTerminal e) :
    (run o escaped spawned (ds ++ ts)).log =
      escaped ++ "\n" ++ String.join (ds.map (loggedText o)) ++
        String.join (List.replicate
          (if (String.join (ds.map (loggedText o))).toList.getLast?.any (· != '\n') then
            ts.length else 0) "\n") ∧
      ∀ tr, (run o escaped spawned tr).stdout = String.join (tr.map stdoutText) ∧
        (run o escaped spawned tr).stderr = String.join (tr.map stderrText) :=
  ⟨log_run escaped hl spawned ds ts hds hts, output_run o escaped spawned⟩

theorem log_output_run_printf :
    ExecOptions.logger ⟨true, true, false, none, false⟩ = true ∧
      (∀ e ∈ [ChildEvent.stdout "foo"], IsChunk e) ∧
      (∀ e ∈ [ChildEvent.error "kill EPERM", .close (some 0)], IsTerminal e) ∧
      (run ⟨true, true, false, none, false⟩ "printf foo" true
          ([.stdout "foo"] ++ [.error "kill EPERM", .close (some 0)])).log =
        "printf foo" ++ "\n" ++ String.join ([ChildEvent.stdout "foo"].map
          (loggedText ⟨true, true, false, none, false⟩)) ++
          String.join (List.replicate
            (if (String.join ([ChildEvent.stdout "foo"].map
                (loggedText ⟨true, true, false, none, false⟩))).toList.getLast?.any (· != '\n') then
              2 else 0) "\n") :=
  have hds : ∀ e ∈ [ChildEvent.stdout "foo"], IsChunk e := by simp [IsChunk]
  have hts : ∀ e ∈ [ChildEvent.error "kill EPERM", .close (some 0)], IsTerminal e := by
    simp [IsTerminal]
  ⟨rfl, hds, hts,
    (log_output_run ⟨true, true, false, none, false⟩ "printf foo" rfl true _ _ hds hts).1⟩

end Exec

end CrosIde.CommonUtil
