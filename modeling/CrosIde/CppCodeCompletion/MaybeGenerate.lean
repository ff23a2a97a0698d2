import CrosIde.CppCodeCompletion.Generate

/-!
# The triggers of `CppCodeCompletion` and `maybeGenerate`

The subscriptions of `CppCodeCompletion` (`cpp_code_completion.ts:45-78`): a save, a change of
active editor and the `forceGenerate` command each call `maybeGenerate`
(`cpp_code_completion.ts:106-151`). It awaits `shouldGenerate(document)` of each generator in
turn and keeps those that answer `Yes` (or, when the user ran the command, `NoHasFailed` or
`NoNeedNoChange`); then it awaits `ensureClangdIsActivated()` (`cpp_code_completion.ts:153-167`)
and `generate` for each generator kept, one after the other. Each call is a handler suspended
at one of these `await`s. Handlers interleave there with one another and with the jobs of the
`JobManager`, which the `generate` calls drive as in `CppCodeCompletion.generate`'s model.

The generators are given by their names `names`, in the order of `this.generators`; whether
the clangd extension is installed by `clangd`; a document by a number, with `fileName` giving
`document.fileName`. A `generate` call whose job rejects (the `TypeError` of
`CppCodeCompletion.generate`) rejects `maybeGenerate`, which skips the generators left and
never fires `onDidMaybeGenerate`.

Over every run the calls of `maybeGenerate` are the triggers of the trace; a call that has
returned has offered the generators kept, in order, and seen every offer settle; and once the
jobs in flight complete, every offer has settled (`maybeGenerate_offers`). The triggers reach
`generate` only after their `await`s, in any order, and the one `JobManager` coalesces the
offers of all documents: a later save of another document supersedes the last save of a
document (`last_save_superseded`).
-/

namespace CrosIde.CppCodeCompletion

open CommonUtil

/-- `ShouldGenerateResult` of `compdb_generator`, absent from the sources: `maybeGenerate`
    tells `Yes`, `NoHasFailed` and `NoNeedNoChange` apart (`cpp_code_completion.ts:113-122`),
    and every other value alike. -/
inductive ShouldGenerateResult where
  | yes
  | noHasFailed
  | noNeedNoChange
  | other
  deriving DecidableEq, Repr

/-- Whether `maybeGenerate` keeps a generator whose `shouldGenerate` resolved to `r`
    (`cpp_code_completion.ts:113-122`). -/
def selects (runByUser : Bool) : ShouldGenerateResult → Bool
  | .yes => true
  | .noHasFailed | .noNeedNoChange => runByUser
  | .other => false

/-- The generators of `names` kept, given the results of their `shouldGenerate` calls so far. -/
def kept (runByUser : Bool) (names : List String) (answers : List ShouldGenerateResult) :
    List String :=
  (names.zip answers).filterMap fun p => if selects runByUser p.2 then some p.1 else none

/-- The messages shown by `vscode.window.showErrorMessage` outside `generate`. -/
inductive Message where
  /-- `forceGenerate` with no active editor (`cpp_code_completion.ts:59-63`). -/
  | noFileOpen
  /-- `maybeGenerate` run by the user keeps no generator (`cpp_code_completion.ts:126-131`). -/
  | generatorNotFound
  /-- `maybeGenerate` keeps more than one generator (`cpp_code_completion.ts:134-144`). -/
  | multipleGenerators (fileName : String)
  deriving DecidableEq, Repr

/-- The text of a message. -/
def Message.text : Message → String
  | .noFileOpen => "No file is open; open the file to compile and return the command"
  | .generatorNotFound =>
    "Compilation database generator not found; confirm the active file on editor is a C++ file"
  | .multipleGenerators fileName =>
    "Internal error: There are more than one compdb generators for document " ++ fileName

def Message.isMultipleGenerators : Message → Bool
  | .multipleGenerators _ => true
  | _ => false

/-- `name` of `cpp_code_completion.ts:135`: the entry of `ignoredErrors` under which the
    internal error is shown once. -/
def multipleGeneratorsName : String := "more than one compdb generators"

/-- The `await` a call of `maybeGenerate`, with the handler that made it, is suspended at. -/
inductive Phase where
  /-- `await g.shouldGenerate(document)` for generator `next`, with `rest` still to ask and
      `selected` kept so far. -/
  | selecting (next : String) (rest : List String) (selected : List String)
  /-- `await clangd.activate()` inside `ensureClangdIsActivated()`. -/
  | activating (selected : List String)
  /-- `await this.ensureClangdIsActivated()`, which has returned `activated`. -/
  | ensured (activated : Bool) (selected : List String)
  /-- `await this.generate(g, document)`, whose job is task `task`, with the generators
      `rest` still to go. -/
  | generating (task : Nat) (rest : List String)
  /-- `await this.maybeGenerate(...)` in the subscription, `maybeGenerate` having returned. -/
  | returned
  /-- The subscription has fired `onDidMaybeGenerate` and returned. -/
  | done
  /-- `maybeGenerate` has rejected with the job of its last `generate` call, and the
      subscription with it: `onDidMaybeGenerate` is not fired. -/
  | rejected
  deriving DecidableEq, Repr

/-- A call of `maybeGenerate`: its `document` and `runByUser`, the results its `shouldGenerate`
    calls resolved with, the tasks of the `generate` calls it made, and where it is. -/
structure Handler where
  document : Nat
  runByUser : Bool
  answers : List ShouldGenerateResult
  offered : List Nat
  phase : Phase
  deriving DecidableEq, Repr

/-- What a call of `maybeGenerate` was made with: its `document` and `runByUser`. -/
def Handler.key (hd : Handler) : Nat × Bool := (hd.document, hd.runByUser)

/-- A `CppCodeCompletion` with the handlers of its subscriptions in flight. -/
structure Subscriptions where
  cpp : CppCodeCompletion
  /-- `clangdActivated`. -/
  clangdActivated : Bool
  /-- The number of `clangd.activate()` calls. -/
  activations : Nat
  /-- The messages shown outside `generate`, in order. -/
  messages : List Message
  /-- Each call of `maybeGenerate`, in order. -/
  handlers : List Handler

/-- What resolves the promise a handler awaits. -/
inductive HandlerEvent where
  /-- `shouldGenerate` resolves with `r`. -/
  | answer (r : ShouldGenerateResult)
  /-- `clangd.activate()` resolves. -/
  | activated
  /-- Another awaited promise settles: `ensureClangdIsActivated()`, `generate(...)` or
      `maybeGenerate(...)`. Should the handler then call `generate`, the generator's
      `generate` and `clangd.restart` end as `generate` and `restart`. -/
  | resume (generate restart : Except Thrown Unit)

namespace Subscriptions

/-- An event of a run. -/
inductive Event where
  /-- `onDidSaveTextDocument` (`cpp_code_completion.ts:74-77`). -/
  | save (document : Nat)
  /-- `onDidChangeActiveTextEditor`, with the document of the editor if any
      (`cpp_code_completion.ts:68-73`). -/
  | changeActiveEditor (document : Option Nat)
  /-- The command `chromiumide.cppxrefs.forceGenerate`, with the document of the active editor
      if any (`cpp_code_completion.ts:56-67`). -/
  | forceGenerate (document : Option Nat)
  /-- Handler `h` resumes. -/
  | handler (h : Nat) (e : HandlerEvent)
  /-- The job of task `i` runs to its exit (`CppCodeCompletion.settle`). -/
  | settle (i : Nat)
  /-- The `handle()` activation of task `i` resumes (`CppCodeCompletion.resume`). -/
  | resumeJob (i : Nat)
  /-- The user answers `Ignore` to an error of kind `kind` (`CppCodeCompletion.ignore`). -/
  | ignore (kind : String)

/-- The call of `maybeGenerate` an event makes, if any, as its `document` and `runByUser`
    (`cpp_code_completion.ts:56-77`). -/
def Event.trigger : Event → Option (Nat × Bool)
  | .save document | .changeActiveEditor (some document) => some (document, false)
  | .forceGenerate (some document) => some (document, true)
  | _ => none

variable (names : List String) (clangd : Bool) (fileName : Nat → String)

/-- `ensureClangdIsActivated()` (`cpp_code_completion.ts:153-167`) up to its `await`. -/
def ensure (s : Subscriptions) (hd : Handler) (selected : List String) :
    Subscriptions × Handler :=
  if s.clangdActivated then (s, { hd with phase := .ensured true selected })
  else if clangd then
    ({ s with activations := s.activations + 1 }, { hd with phase := .activating selected })
  else (s, { hd with phase := .ensured false selected })

/-- `maybeGenerate` once every `shouldGenerate` has resolved (`cpp_code_completion.ts:126-145`),
    up to its next `await`. -/
def select (s : Subscriptions) (hd : Handler) (selected : List String) :
    Subscriptions × Handler :=
  if selected.length = 0 then
    ({ s with messages := if hd.runByUser then s.messages ++ [.generatorNotFound] else s.messages },
      { hd with phase := .returned })
  else
    ensure clangd
      (if 1 < selected.length ∧ multipleGeneratorsName ∉ s.cpp.ignoredErrors then
        { s with
          messages := s.messages ++ [.multipleGenerators (fileName hd.document)],
          cpp := { s.cpp with ignoredErrors := s.cpp.ignoredErrors ++ [multipleGeneratorsName] } }
      else s) hd selected

/-- The loop `for (const g of generators) await this.generate(g, document)`
    (`cpp_code_completion.ts:148-150`) from generator `g` on: `generate` offers its job
    (`CppCodeCompletion.generate`), task number `s.cpp.generations.length`. -/
def generateNext (s : Subscriptions) (hd : Handler) (generate restart : Except Thrown Unit) :
    List String → Subscriptions × Handler
  | [] => (s, { hd with phase := .returned })
  | g :: rest =>
    ({ s with cpp := s.cpp.generate ⟨hd.document, g, generate, restart⟩ },
      { hd with
        offered := hd.offered ++ [s.cpp.generations.length],
        phase := .generating s.cpp.generations.length rest })

/-- Handler `hd` resumes on `e` if `e` resolves the promise it awaits, and runs to its next
    `await`. -/
def resumeHandler (s : Subscriptions) (hd : Handler) : HandlerEvent → Subscriptions × Handler
  | .answer r =>
    match hd.phase with
    | .selecting g rest selected =>
      let selected := if selects hd.runByUser r then selected ++ [g] else selected
      let hd := { hd with answers := hd.answers ++ [r] }
      match rest with
      | g' :: rest' => (s, { hd with phase := .selecting g' rest' selected })
      | [] => select clangd fileName s hd selected
    | _ => (s, hd)
  | .activated =>
    match hd.phase with
    | .activating selected =>
      ({ s with clangdActivated := true }, { hd with phase := .ensured true selected })
    | _ => (s, hd)
  | .resume generate restart =>
    match hd.phase with
    | .ensured false _ => (s, { hd with phase := .returned })
    | .ensured true selected => generateNext s hd generate restart selected
    | .generating task rest =>
      match s.cpp.jobManager.settled.find? (·.1 == task) with
      | some (_, .error _) => (s, { hd with phase := .rejected })
      | some (_, .ok _) => generateNext s hd generate restart rest
      | none => (s, hd)
    | .returned => (s, { hd with phase := .done })
    | _ => (s, hd)

/-- A call `maybeGenerate(document, runByUser)` (`cpp_code_completion.ts:106-151`) up to its
    first `await`. -/
def maybeGenerate (s : Subscriptions) (document : Nat) (runByUser : Bool) : Subscriptions :=
  let hd : Handler := ⟨document, runByUser, [], [], .returned⟩
  let p := match names with
    | g :: rest => (s, { hd with phase := .selecting g rest [] })
    | [] => select clangd fileName s hd []
  { p.1 with handlers := s.handlers ++ [p.2] }

/-- One event of a run. -/
def step (s : Subscriptions) : Event → Subscriptions
  | .save document => maybeGenerate names clangd fileName s document false
  | .changeActiveEditor (some document) => maybeGenerate names clangd fileName s document false
  | .changeActiveEditor none => s
  | .forceGenerate (some document) => maybeGenerate names clangd fileName s document true
  | .forceGenerate none => { s with messages := s.messages ++ [.noFileOpen] }
  | .handler h e =>
    match s.handlers[h]? with
    | some hd =>
      let p := resumeHandler clangd fileName s hd e
      { p.1 with handlers := s.handlers.set h p.2 }
    | none => s
  | .settle i => { s with cpp := s.cpp.settle i }
  | .resumeJob i => { s with cpp := s.cpp.resume i }
  | .ignore kind => { s with cpp := s.cpp.ignore kind }

/-- No handler, no job, clangd not yet activated. -/
def init : Subscriptions := ⟨CppCodeCompletion.init, false, 0, [], []⟩

/-- The state after a trace of events. -/
def run (tr : List Event) : Subscriptions := tr.foldl (step names clangd fileName) init

end Subscriptions

/-! ## What a step keeps -/

@[simp] theorem kept_nil (runByUser : Bool) (names : List String) :
    kept runByUser names [] = [] := by
  simp [kept]

/-- A `shouldGenerate` result adds its generator to those kept, if it keeps it. -/
theorem kept_snoc (runByUser : Bool) {g : String} {rest : List String} (r : ShouldGenerateResult) :
    ∀ (names : List String) (answers : List ShouldGenerateResult),
      names.drop answers.length = g :: rest →
      kept runByUser names (answers ++ [r]) =
        kept runByUser names answers ++ if selects runByUser r then [g] else []
  | [], _, h => by simp at h
  | n :: ns, [], h => by
    simp only [List.length_nil, List.drop_zero, List.cons.injEq] at h
    simp only [kept, h.1, List.nil_append, List.zip_cons_cons, List.zip_nil_right]
    split <;> simp [*]
  | n :: ns, a :: as, h => by
    have := kept_snoc runByUser r ns as (by simpa using h)
    simp only [kept, List.cons_append, List.zip_cons_cons, List.filterMap_cons] at this ⊢
    rw [this]; split <;> simp

namespace Subscriptions

/-- The generations of tasks `offered`, each as its document and generator name. -/
def generationsOf (s : Subscriptions) (offered : List Nat) : List (Option (Nat × String)) :=
  offered.map fun t => s.cpp.generations[t]?.map fun g => (g.document, g.name)

/-- The promise of the offer of task `t` has settled. -/
def Settled (s : Subscriptions) (t : Nat) : Prop := t ∈ s.cpp.jobManager.settled.map Prod.fst

/-- What no step undoes: the generations offered, the tasks settled, the entries of
    `ignoredErrors` and `clangdActivated`. -/
structure Grows (s s' : Subscriptions) : Prop where
  generations : s.cpp.generations <+: s'.cpp.generations
  settled : s.cpp.jobManager.settled <+: s'.cpp.jobManager.settled
  ignoredErrors : s.cpp.ignoredErrors ⊆ s'.cpp.ignoredErrors
  clangdActivated : s.clangdActivated = true → s'.clangdActivated = true

variable {s s' s'' : Subscriptions}

theorem Grows.refl (s : Subscriptions) : Grows s s :=
  ⟨List.prefix_refl _, List.prefix_refl _, List.Subset.refl _, id⟩

theorem Grows.trans (h : Grows s s') (h' : Grows s' s'') : Grows s s'' :=
  ⟨h.1.trans h'.1, h.2.trans h'.2, h.3.trans h'.3, h'.4 ∘ h.4⟩

theorem Grows.settled_of (hg : Grows s s') {t : Nat} (h : s.Settled t) : s'.Settled t :=
  List.map_subset _ hg.settled.subset h

private theorem getElem?_of_isPrefix {α : Type} {l l' : List α} (h : l <+: l') {t : Nat} {x : α}
    (ht : l[t]? = some x) : l'[t]? = some x := by
  obtain ⟨u, rfl⟩ := h
  rw [List.getElem?_append_left (List.getElem?_eq_some_iff.1 ht).1, ht]

theorem Grows.generationsOf (hg : Grows s s') {l : List Nat} {d : Nat} {gs : List String}
    (h : s.generationsOf l = gs.map fun g => some (d, g)) :
    s'.generationsOf l = gs.map fun g => some (d, g) := by
  rw [← h]
  refine List.map_congr_left fun t ht => ?_
  cases hx : s.cpp.generations[t]? with
  | none =>
    have : none ∈ s.generationsOf l := List.mem_map.2 ⟨t, ht, by simp [hx]⟩
    rw [h] at this; simp at this
  | some g => simp [getElem?_of_isPrefix hg.generations hx]

end Subscriptions

/-! ## The invariant -/

/-- What holds of a call of `maybeGenerate` at each `await`: it asks the generators in order;
    from the moment every `shouldGenerate` has resolved, `selected` are the generators kept;
    clangd is being activated, or `ensureClangdIsActivated()` has returned, only if some are
    kept, and it returns whether clangd is installed; it offers the generators kept, for its
    document, in order, each once the promise of the previous offer has settled; and when it
    returns, it has offered them all, if clangd is installed, and every offer has settled. -/
def Handler.Inv (names : List String) (clangd : Bool) (s : Subscriptions) (hd : Handler) :
    Prop :=
  match hd.phase with
  | .selecting g rest selected =>
    names.drop hd.answers.length = g :: rest ∧ selected = kept hd.runByUser names hd.answers ∧
      hd.offered = []
  | .activating selected =>
    hd.answers.length = names.length ∧ selected = kept hd.runByUser names hd.answers ∧
      selected ≠ [] ∧ hd.offered = [] ∧ clangd = true
  | .ensured activated selected =>
    hd.answers.length = names.length ∧ selected = kept hd.runByUser names hd.answers ∧
      selected ≠ [] ∧ hd.offered = [] ∧ activated = clangd
  | .generating task rest =>
    hd.answers.length = names.length ∧ clangd = true ∧
      ∃ pre, pre ++ rest = kept hd.runByUser names hd.answers ∧
        s.generationsOf hd.offered = pre.map (fun g => some (hd.document, g)) ∧
        hd.offered.getLast? = some task ∧ ∀ t ∈ hd.offered.dropLast, s.Settled t
  | .returned | .done =>
    hd.answers.length = names.length ∧
      s.generationsOf hd.offered =
        (if clangd then kept hd.runByUser names hd.answers else []).map
          (fun g => some (hd.document, g)) ∧
      ∀ t ∈ hd.offered, s.Settled t
  | .rejected =>
    hd.answers.length = names.length ∧ clangd = true ∧
      (∃ pre rest, pre ++ rest = kept hd.runByUser names hd.answers ∧
        s.generationsOf hd.offered = pre.map (fun g => some (hd.document, g))) ∧
      ∀ t ∈ hd.offered, s.Settled t

namespace Subscriptions

variable {names : List String} {clangd : Bool} {s s' : Subscriptions}

theorem Grows.handlerInv (hg : Grows s s') {hd : Handler} (h : hd.Inv names clangd s) :
    hd.Inv names clangd s' := by
  unfold Handler.Inv at h ⊢
  split at h
  · exact h
  · exact h
  · exact h
  · obtain ⟨hl, hc, pre, hpre, hgen, hlast, hset⟩ := h
    exact ⟨hl, hc, pre, hpre, hg.generationsOf hgen, hlast, fun t ht => hg.settled_of (hset t ht)⟩
  rotate_left 2
  · obtain ⟨hl, hc, ⟨pre, rest, hpre, hgen⟩, hset⟩ := h
    exact ⟨hl, hc, ⟨pre, rest, hpre, hg.generationsOf hgen⟩, fun t ht => hg.settled_of (hset t ht)⟩
  all_goals
    obtain ⟨hl, hgen, hset⟩ := h
    exact ⟨hl, hg.generationsOf hgen, fun t ht => hg.settled_of (hset t ht)⟩

variable (names clangd)

/-- What holds of every reachable state outside its handlers: the invariant of
    `CppCodeCompletion`; clangd has been activated only if it is installed; the internal error
    has been shown at most once, and once shown its name is in `ignoredErrors`; and no
    generation is offered if clangd is not installed. -/
structure Core (s : Subscriptions) : Prop where
  cpp_inv : s.cpp.Inv
  activated : s.clangdActivated = true → clangd = true
  multiple_le : s.messages.countP Message.isMultipleGenerators ≤ 1
  multiple_ignored : 0 < s.messages.countP Message.isMultipleGenerators →
    multipleGeneratorsName ∈ s.cpp.ignoredErrors
  generations_nil : clangd = false → s.cpp.generations = []

/-- What holds of every reachable state. -/
structure Inv (s : Subscriptions) : Prop where
  core : s.Core clangd
  handlers : ∀ hd ∈ s.handlers, hd.Inv names clangd s

end Subscriptions

/-! ## What each step does -/

namespace Subscriptions

variable {names : List String} {clangd : Bool} {fileName : Nat → String} {s : Subscriptions}

/-- A job event keeps `Core`, and the state grows, if it offers nothing unless clangd is
    installed. -/
theorem Core.cppStep (hc : s.Core clangd) (e : CppCodeCompletion.Event)
    (hg : clangd = false → (s.cpp.step e).generations = []) :
    ({ s with cpp := s.cpp.step e } : Subscriptions).Core clangd ∧
      Grows s { s with cpp := s.cpp.step e } :=
  ⟨⟨hc.cpp_inv.step e, hc.activated, hc.multiple_le,
      fun h => s.cpp.ignoredErrors_subset e (hc.multiple_ignored h), hg⟩,
    ⟨s.cpp.generations_isPrefix e, s.cpp.settled_isPrefix e, s.cpp.ignoredErrors_subset e, id⟩⟩

/-- A message other than the internal error leaves the count of internal errors shown. -/
theorem countP_append_of_not_multiple {l : List Message} {m : Message}
    (hm : m.isMultipleGenerators = false) :
    (l ++ [m]).countP Message.isMultipleGenerators = l.countP Message.isMultipleGenerators := by
  simp [hm]

/-- A state that agrees with `s` but in `activations` and the handlers. -/
theorem Core.congr (hc : s.Core clangd) {s' : Subscriptions} (hcpp : s'.cpp = s.cpp)
    (ha : s'.clangdActivated = s.clangdActivated) (hm : s'.messages = s.messages) :
    s'.Core clangd := by
  obtain ⟨⟩ := s'; obtain ⟨⟩ := s
  simp only at hcpp ha hm; subst hcpp ha hm; exact ⟨hc.1, hc.2, hc.3, hc.4, hc.5⟩

theorem Core.activatedTrue (hc : s.Core clangd) (hcl : clangd = true) :
    ({ s with clangdActivated := true } : Subscriptions).Core clangd :=
  ⟨hc.cpp_inv, fun _ => hcl, hc.multiple_le, hc.multiple_ignored, hc.generations_nil⟩

theorem Grows.of_cpp {s' : Subscriptions} (hcpp : s'.cpp = s.cpp)
    (ha : s.clangdActivated = true → s'.clangdActivated = true) : Grows s s' :=
  ⟨hcpp ▸ List.prefix_refl _, hcpp ▸ List.prefix_refl _, hcpp ▸ List.Subset.refl _, ha⟩

theorem ensure_spec (hc : s.Core clangd) {hd : Handler} {selected : List String}
    (hl : hd.answers.length = names.length) (hk : selected = kept hd.runByUser names hd.answers)
    (hne : selected ≠ []) (ho : hd.offered = []) :
    (ensure clangd s hd selected).1.Core clangd ∧ Grows s (ensure clangd s hd selected).1 ∧
      (ensure clangd s hd selected).2.Inv names clangd (ensure clangd s hd selected).1 := by
  unfold ensure
  split_ifs with ha hcl
  · exact ⟨hc, Grows.refl s, hl, hk, hne, ho, (hc.activated ha).symm⟩
  · exact ⟨hc.congr rfl rfl rfl, Grows.of_cpp rfl id, hl, hk, hne, ho, hcl⟩
  · exact ⟨hc, Grows.refl s, hl, hk, hne, ho, by simpa using hcl⟩

theorem select_spec (hc : s.Core clangd) {hd : Handler} {selected : List String}
    (hl : hd.answers.length = names.length) (hk : selected = kept hd.runByUser names hd.answers)
    (ho : hd.offered = []) :
    (select clangd fileName s hd selected).1.Core clangd ∧
      Grows s (select clangd fileName s hd selected).1 ∧
      (select clangd fileName s hd selected).2.Inv names clangd
        (select clangd fileName s hd selected).1 := by
  unfold select
  by_cases h0 : selected.length = 0
  · rw [if_pos h0]
    have hnil : kept hd.runByUser names hd.answers = [] := hk ▸ List.eq_nil_of_length_eq_zero h0
    have hcount : (if hd.runByUser then s.messages ++ [.generatorNotFound] else s.messages).countP
        Message.isMultipleGenerators = s.messages.countP Message.isMultipleGenerators := by
      split
      · exact countP_append_of_not_multiple rfl
      · rfl
    refine ⟨⟨hc.cpp_inv, hc.activated, ?_, ?_, hc.generations_nil⟩, Grows.of_cpp rfl id, hl,
      by simp [ho, hnil, generationsOf], by simp [ho]⟩
    · dsimp only; rw [hcount]; exact hc.multiple_le
    · dsimp only; rw [hcount]; exact hc.multiple_ignored
  rw [if_neg h0]
  have hne := List.ne_nil_of_length_pos (Nat.pos_of_ne_zero h0)
  split_ifs with hm
  · have h0' : s.messages.countP Message.isMultipleGenerators = 0 :=
      Nat.eq_zero_of_not_pos fun h => hm.2 (hc.multiple_ignored h)
    obtain ⟨hc', hg, hi⟩ := ensure_spec (s := { s with
        messages := s.messages ++ [.multipleGenerators (fileName hd.document)],
        cpp := { s.cpp with ignoredErrors := s.cpp.ignoredErrors ++ [multipleGeneratorsName] } })
      ⟨⟨hc.cpp_inv.1, hc.cpp_inv.2, hc.cpp_inv.3, hc.cpp_inv.4⟩, hc.activated,
        by simp [h0', Message.isMultipleGenerators], by simp, hc.generations_nil⟩ hl hk hne ho
    refine ⟨hc', Grows.trans ?_ hg, hi⟩
    exact ⟨List.prefix_refl _, List.prefix_refl _, List.subset_append_left _ _, id⟩
  · exact ensure_spec hc hl hk hne ho

theorem generateNext_spec (hc : s.Core clangd) {hd : Handler}
    {generate restart : Except Thrown Unit} {pre rest : List String}
    (hl : hd.answers.length = names.length) (hcl : clangd = true)
    (hk : pre ++ rest = kept hd.runByUser names hd.answers)
    (hgen : s.generationsOf hd.offered = pre.map fun g => some (hd.document, g))
    (hset : ∀ t ∈ hd.offered, s.Settled t) :
    (generateNext s hd generate restart rest).1.Core clangd ∧
      Grows s (generateNext s hd generate restart rest).1 ∧
      (generateNext s hd generate restart rest).2.Inv names clangd
        (generateNext s hd generate restart rest).1 := by
  cases rest with
  | nil => exact ⟨hc, Grows.refl s, hl, by simpa [generateNext, hcl, ← hk] using hgen, hset⟩
  | cons g rest =>
    obtain ⟨hc', hg⟩ := hc.cppStep (.generate ⟨hd.document, g, generate, restart⟩) (by simp [hcl])
    simp only [CppCodeCompletion.step] at hc' hg
    have hgen' := hg.generationsOf hgen
    dsimp only [generateNext]
    refine ⟨hc', hg, hl, hcl, pre ++ [g], by simpa using hk, ?_, by simp, ?_⟩
    · simp only [generationsOf, List.map_append, List.map_cons, List.map_nil] at hgen' ⊢
      rw [hgen']
      simp [CppCodeCompletion.generate]
    · simpa using fun t ht => hg.settled_of (hset t ht)

theorem resumeHandler_spec (hc : s.Core clangd) {hd : Handler} (hi : hd.Inv names clangd s)
    (e : HandlerEvent) :
    (resumeHandler clangd fileName s hd e).1.Core clangd ∧
      Grows s (resumeHandler clangd fileName s hd e).1 ∧
      (resumeHandler clangd fileName s hd e).2.Inv names clangd
        (resumeHandler clangd fileName s hd e).1 := by
  obtain ⟨document, runByUser, answers, offered, phase⟩ := hd
  cases e with
  | answer r =>
    cases phase with
    | selecting g rest selected =>
      obtain ⟨hdrop, hk, ho⟩ := hi
      have hk' : (if selects runByUser r then selected ++ [g] else selected) =
          kept runByUser names (answers ++ [r]) := by
        rw [kept_snoc runByUser r names answers hdrop, ← hk]; split <;> simp
      cases rest with
      | cons g' rest' =>
        refine ⟨hc, Grows.refl s, ?_, hk', ho⟩
        show names.drop (answers ++ [r]).length = _
        rw [List.length_append, List.length_singleton, ← List.drop_drop, hdrop]; rfl
      | nil =>
        have hl : (answers ++ [r]).length = names.length := by
          have := congrArg List.length hdrop
          simp only [List.length_drop, List.length_singleton] at this
          simp only [List.length_append, List.length_singleton]; omega
        exact select_spec hc hl hk' ho
    | _ => exact ⟨hc, Grows.refl s, hi⟩
  | activated =>
    cases phase with
    | activating selected =>
      obtain ⟨hl, hk, hne, ho, hcl⟩ := hi
      exact ⟨hc.activatedTrue hcl, Grows.of_cpp rfl fun _ => rfl, hl, hk, hne, ho, hcl.symm⟩
    | _ => exact ⟨hc, Grows.refl s, hi⟩
  | resume generate restart =>
    cases phase with
    | ensured activated selected =>
      obtain ⟨hl, hk, hne, ho, rfl⟩ := hi
      dsimp only at hl hk ho ⊢
      cases activated
      · exact ⟨hc, Grows.refl s, hl, by simp [resumeHandler, ho, generationsOf],
          by simp [resumeHandler, ho]⟩
      · exact generateNext_spec hc hl rfl (show [] ++ selected = _ by simpa using hk)
          (by simp [ho, generationsOf]) (by simp [ho])
    | generating task rest =>
      obtain ⟨hl, hcl, pre, hk, hgen, hlast, hset⟩ := hi
      dsimp only at hl hk hgen hlast hset
      have hall : s.Settled task → ∀ t ∈ offered, s.Settled t := fun ht t h => by
        rw [← List.dropLast_append_getLast? task hlast] at h
        rcases List.mem_append.1 h with h | h
        · exact hset t h
        · exact (List.mem_singleton.1 h) ▸ ht
      have hfind : ∀ p, s.cpp.jobManager.settled.find? (·.1 == task) = some p → s.Settled task :=
        fun p h => by
          have := List.find?_some h
          exact List.mem_map.2 ⟨p, List.mem_of_find?_eq_some h, by simpa using this⟩
      dsimp only [resumeHandler]
      split
      · next h => exact ⟨hc, Grows.refl s, hl, hcl, ⟨pre, rest, hk, hgen⟩, hall (hfind _ h)⟩
      · next h => exact generateNext_spec hc hl hcl hk hgen (hall (hfind _ h))
      · exact ⟨hc, Grows.refl s, hl, hcl, pre, hk, hgen, hlast, hset⟩
    | returned | done | rejected | selecting _ _ _ | activating _ => exact ⟨hc, Grows.refl s, hi⟩

/-- A job event keeps the invariant, if it offers nothing unless clangd is installed. -/
theorem Inv.cppStep (hi : s.Inv names clangd) (e : CppCodeCompletion.Event)
    (hg : clangd = false → (s.cpp.step e).generations = []) :
    ({ s with cpp := s.cpp.step e } : Subscriptions).Inv names clangd ∧
      Grows s { s with cpp := s.cpp.step e } :=
  have h := hi.core.cppStep e hg
  ⟨⟨h.1, fun hd hd' => h.2.handlerInv (hi.handlers hd hd')⟩, h.2⟩

/-- A state grown from `s`, given handlers each of `s` or satisfying their invariant in it,
    keeps the invariant. -/
theorem Inv.withHandlers (hi : s.Inv names clangd) {s' : Subscriptions} (hc : s'.Core clangd)
    (hg : Grows s s') (l : List Handler)
    (hl : ∀ hd ∈ l, hd ∈ s.handlers ∨ hd.Inv names clangd s') :
    ({ s' with handlers := l } : Subscriptions).Inv names clangd ∧
      Grows s { s' with handlers := l } :=
  have hg' : Grows s' { s' with handlers := l } := Grows.of_cpp rfl id
  ⟨⟨hc.congr rfl rfl rfl, fun hd h => (hl hd h).elim
    (fun h => (hg.trans hg').handlerInv (hi.handlers hd h)) hg'.handlerInv⟩, hg.trans hg'⟩

/-- A call of `maybeGenerate` keeps the invariant. -/
theorem Inv.maybeGenerate (hi : s.Inv names clangd) (document : Nat) (runByUser : Bool) :
    (maybeGenerate names clangd fileName s document runByUser).Inv names clangd ∧
      Grows s (maybeGenerate names clangd fileName s document runByUser) := by
  unfold Subscriptions.maybeGenerate
  cases names with
  | nil =>
    let hd : Handler := ⟨document, runByUser, [], [], .returned⟩
    obtain ⟨hc, hg, hd⟩ : (select clangd fileName s hd []).1.Core clangd ∧
        Grows s (select clangd fileName s hd []).1 ∧
        (select clangd fileName s hd []).2.Inv [] clangd (select clangd fileName s hd []).1 :=
      select_spec hi.core rfl (by simp [hd]) rfl
    refine hi.withHandlers hc hg _ fun x hx => ?_
    rcases List.mem_append.1 hx with h | h
    · exact .inl h
    · exact .inr ((List.mem_singleton.1 h) ▸ hd)
  | cons g rest =>
    refine hi.withHandlers hi.core (Grows.refl s) _ fun x hx => ?_
    rcases List.mem_append.1 hx with h | h
    · exact .inl h
    · exact .inr ((List.mem_singleton.1 h) ▸ ⟨rfl, by simp, rfl⟩)

/-- Every event keeps the invariant, and the state grows. -/
theorem Inv.step (hi : s.Inv names clangd) :
    ∀ e, (step names clangd fileName s e).Inv names clangd ∧
      Grows s (step names clangd fileName s e)
  | .save _ | .changeActiveEditor (some _) | .forceGenerate (some _) => hi.maybeGenerate _ _
  | .changeActiveEditor none => ⟨hi, Grows.refl s⟩
  | .forceGenerate none => by
    have hm := countP_append_of_not_multiple (l := s.messages) (m := .noFileOpen) rfl
    refine ⟨⟨⟨hi.core.cpp_inv, hi.core.activated, ?_, ?_, hi.core.generations_nil⟩,
      fun hd h => (Grows.of_cpp rfl id).handlerInv (hi.handlers hd h)⟩, Grows.of_cpp rfl id⟩
    · show (s.messages ++ [Message.noFileOpen]).countP _ ≤ 1
      rw [hm]; exact hi.core.multiple_le
    · show 0 < (s.messages ++ [Message.noFileOpen]).countP _ → _
      rw [hm]; exact hi.core.multiple_ignored
  | .handler h e => by
    simp only [Subscriptions.step]
    split
    · next hd hh =>
      obtain ⟨hc, hg, hd'⟩ := resumeHandler_spec hi.core (hi.handlers hd (List.getElem?_mem hh)) e
      refine hi.withHandlers hc hg _ fun x hx => ?_
      rcases List.mem_or_eq_of_mem_set hx with h | rfl
      · exact .inl h
      · exact .inr hd'
    · exact ⟨hi, Grows.refl s⟩
  | .settle i => hi.cppStep (.settle i) fun h => by
    simpa [CppCodeCompletion.step] using hi.core.generations_nil h
  | .resumeJob i => hi.cppStep (.resume i) fun h => by
    simpa [CppCodeCompletion.step, CppCodeCompletion.resume] using hi.core.generations_nil h
  | .ignore kind => hi.cppStep (.ignore kind) fun h => by
    simpa [CppCodeCompletion.step] using hi.core.generations_nil h

theorem inv_init : (init : Subscriptions).Inv names clangd :=
  ⟨⟨CppCodeCompletion.inv_init, by simp [init], by simp [init], by simp [init], fun _ => rfl⟩,
    by simp [init]⟩

theorem Inv.foldl : ∀ {s : Subscriptions}, s.Inv names clangd → ∀ tr : List Event,
    (tr.foldl (Subscriptions.step names clangd fileName) s).Inv names clangd ∧
      Grows s (tr.foldl (Subscriptions.step names clangd fileName) s)
  | s, hi, [] => ⟨hi, Grows.refl s⟩
  | _, hi, e :: tr =>
    have h := (hi.step e).1.foldl tr
    ⟨h.1, (hi.step e).2.trans h.2⟩

/-- Every reachable state satisfies the invariant. -/
theorem inv_run (tr : List Event) : (run names clangd fileName tr).Inv names clangd :=
  (inv_init.foldl tr).1

theorem run_append (tr tr' : List Event) :
    run names clangd fileName (tr ++ tr') =
      tr'.foldl (step names clangd fileName) (run names clangd fileName tr) :=
  List.foldl_append _ _ _ _

/-! ## The calls of `maybeGenerate` -/

private theorem set_of_getElem? {α : Type} {l : List α} {i : Nat} {a : α} (h : l[i]? = some a) :
    l.set i a = l :=
  List.ext_getElem? fun j => by
    by_cases hj : i = j
    · subst hj; rw [List.getElem?_set_self (List.getElem?_eq_some_iff.1 h).1, h]
    · rw [List.getElem?_set_ne hj]

theorem select_key (s : Subscriptions) (hd : Handler) (selected : List String) :
    (select clangd fileName s hd selected).2.key = hd.key := by
  unfold select ensure
  split_ifs <;> rfl

/-- A handler that resumes is still the call it was. -/
theorem resumeHandler_key (s : Subscriptions) (hd : Handler) (e : HandlerEvent) :
    (resumeHandler clangd fileName s hd e).2.key = hd.key := by
  obtain ⟨document, runByUser, answers, offered, phase⟩ := hd
  cases e with
  | answer r =>
    cases phase with
    | selecting g rest selected => cases rest <;> simp only [resumeHandler, select_key] <;> rfl
    | _ => rfl
  | activated => cases phase <;> rfl
  | resume generate restart =>
    cases phase with
    | ensured activated selected =>
      cases activated
      · rfl
      · cases selected <;> rfl
    | generating task rest =>
      simp only [resumeHandler]
      split
      · rfl
      · cases rest <;> rfl
      · rfl
    | _ => rfl

theorem maybeGenerate_keys (s : Subscriptions) (document : Nat) (runByUser : Bool) :
    (maybeGenerate names clangd fileName s document runByUser).handlers.map Handler.key =
      s.handlers.map Handler.key ++ [(document, runByUser)] := by
  cases names with
  | nil => simp only [maybeGenerate, List.map_append, List.map_cons, List.map_nil, select_key]; rfl
  | cons g rest => simp [maybeGenerate, Handler.key]

/-- Each trigger makes one call of `maybeGenerate`, and nothing else makes one. -/
theorem step_keys (s : Subscriptions) (e : Event) :
    (step names clangd fileName s e).handlers.map Handler.key =
      s.handlers.map Handler.key ++ e.trigger.toList := by
  cases e with
  | save d | changeActiveEditor d | forceGenerate d =>
    first
    | exact maybeGenerate_keys names clangd fileName s _ _
    | cases d <;> simp [step, Event.trigger, maybeGenerate_keys]
  | handler h e =>
    simp only [step, Event.trigger, Option.toList_none, List.append_nil]
    split
    · next hd hh =>
      rw [List.map_set, resumeHandler_key]
      exact set_of_getElem? (by simp [hh])
    · rfl
  | settle _ | resumeJob _ | ignore _ => simp [step, Event.trigger]

theorem run_snoc (tr : List Event) (e : Event) :
    run names clangd fileName (tr ++ [e]) =
      step names clangd fileName (run names clangd fileName tr) e := by
  rw [run_append]; rfl

/-- The calls of `maybeGenerate` of a run are the triggers of its trace. -/
theorem keys_run (tr : List Event) :
    (run names clangd fileName tr).handlers.map Handler.key = tr.filterMap Event.trigger := by
  induction tr using List.reverseRecOn with
  | nil => rfl
  | append_singleton tr e ih =>
    rw [run_snoc, step_keys, ih, List.filterMap_append]
    cases h : e.trigger <;> simp [h]

/-! ## What every run guarantees -/

/-- Every call of `maybeGenerate` that has returned has had each generator's `shouldGenerate`
    resolve once, has offered the generators kept, for its document and in order, if clangd is
    installed, and none otherwise, and has seen the promise of every offer settle. -/
theorem returned_offers (tr : List Event) {hd : Handler}
    (hh : hd ∈ (run names clangd fileName tr).handlers)
    (hr : hd.phase = .returned ∨ hd.phase = .done) :
    hd.answers.length = names.length ∧
      (run names clangd fileName tr).generationsOf hd.offered =
        (if clangd then kept hd.runByUser names hd.answers else []).map
          (fun g => some (hd.document, g)) ∧
      ∀ t ∈ hd.offered, (run names clangd fileName tr).Settled t := by
  have h := (inv_run tr).handlers hd hh
  unfold Handler.Inv at h
  rcases hr with hr | hr <;> simpa only [hr] using h

/-- The test `generates on file save`: one generator, `fake`, answers `Yes`; clangd is
    activated once, the generation runs, and the subscription fires `onDidMaybeGenerate`. -/
example :
    let s := run ["fake"] true (fun _ => "a.cc")
      [.save 0, .handler 0 (.answer .yes), .handler 0 .activated,
        .handler 0 (.resume (.ok ()) (.ok ())), .settle 0, .resumeJob 0,
        .handler 0 (.resume (.ok ()) (.ok ())), .handler 0 (.resume (.ok ()) (.ok ()))]
    s.handlers = [⟨0, false, [.yes], [0], .done⟩] ∧ s.activations = 1 ∧
      s.cpp.status = some .ok := by
  decide

/-! ## Every offer settles -/

/-- The `JobManager` event of an event, if it is one. -/
def Event.jobEvent : Event → Option (JobManager.Event Unit Unit)
  | .settle i => some (.settle i)
  | .resumeJob i => some (.resume i)
  | _ => none

/-- Events that are all `JobManager` events move the `JobManager`, as offered, by them. -/
theorem foldl_jobManager (hi : s.Inv names clangd) (l : List Event)
    (hl : ∀ e ∈ l, e.jobEvent.isSome) :
    asOffered (l.foldl (Subscriptions.step names clangd fileName) s).cpp.jobManager =
      (l.filterMap Event.jobEvent).foldl JobManager.step (asOffered s.cpp.jobManager) := by
  induction l generalizing s with
  | nil => rfl
  | cons e l ih =>
    have hi' : (step names clangd fileName s e).Inv names clangd := (hi.step e).1
    have ih' := ih hi' fun e' h => hl e' (List.mem_cons_of_mem _ h)
    have hj := step_jobManager hi.core.cpp_inv.jobs_length
    cases e with
    | settle i =>
      rw [show asOffered (step names clangd fileName s (.settle i)).cpp.jobManager =
        (asOffered s.cpp.jobManager).step (.settle i) from hj (.settle i)] at ih'
      simpa [Event.jobEvent] using ih'
    | resumeJob i =>
      rw [show asOffered (step names clangd fileName s (.resumeJob i)).cpp.jobManager =
        (asOffered s.cpp.jobManager).step (.resume i) from hj (.resume i)] at ih'
      simpa [Event.jobEvent] using ih'
    | _ => simp [Event.jobEvent] at hl

/-- The events by which the job in progress, and then the queued one, run to completion, with
    no further trigger (`JobManager.drain`). -/
def drain (s : Subscriptions) : List Event :=
  s.cpp.jobManager.pending.map .settle ++
    (s.cpp.jobManager.pending ++ s.cpp.jobManager.finished).map .resumeJob ++
    s.cpp.jobManager.tasks.flatMap fun t => [.settle t, .resumeJob t]

theorem drain_jobEvent (s : Subscriptions) :
    (drain s).filterMap Event.jobEvent = s.cpp.jobManager.drain := by
  have hs : Event.jobEvent ∘ Event.settle = some ∘ JobManager.Event.settle := rfl
  have hr : Event.jobEvent ∘ Event.resumeJob = some ∘ JobManager.Event.resume := rfl
  simp [drain, JobManager.drain, List.filterMap_map, List.filterMap_flatMap, hs, hr,
    List.filterMap_eq_map, Event.jobEvent]

theorem drain_isJob (s : Subscriptions) : ∀ e ∈ drain s, e.jobEvent.isSome := by
  simp only [drain, List.mem_append, List.mem_map, List.mem_flatMap, List.mem_cons,
    List.mem_singleton, List.not_mem_nil, or_false]
  rintro e ((⟨a, -, rfl⟩ | ⟨a, -, rfl⟩) | ⟨a, -, rfl | rfl⟩) <;> rfl

/-- Once the jobs in flight complete, with no further trigger, the promise of every offer has
    settled, so that a call of `maybeGenerate` awaiting `generate` can go on. -/
theorem offers_settle (tr : List Event) {t : Nat}
    (ht : t < (run names clangd fileName tr).cpp.generations.length) :
    (run names clangd fileName (tr ++ drain (run names clangd fileName tr))).Settled t := by
  have hi : (run names clangd fileName tr).Inv names clangd := inv_run tr
  rw [Settled, ← asOffered_settled_fst, run_append, foldl_jobManager hi _ (drain_isJob _),
    drain_jobEvent]
  exact (hi.core.cpp_inv.jobManager_inv.mapJobs _).drain_settled
    (by simpa [asOffered, JobManager.mapJobs, hi.core.cpp_inv.jobs_length] using ht)

/-- Over every run, however the triggers, their handlers and the jobs interleave: the calls of
    `maybeGenerate` are the triggers of the trace, with their documents and `runByUser`; every
    call that has returned has had each generator's `shouldGenerate` resolve once, has offered
    the generators kept, for its document and in order, if clangd is installed, and none
    otherwise, and has seen the promise of every offer settle; and once the jobs in flight
    complete, with no further trigger, the promise of every offer has settled. -/
theorem maybeGenerate_offers (tr : List Event) :
    (run names clangd fileName tr).handlers.map Handler.key = tr.filterMap Event.trigger ∧
    (∀ hd ∈ (run names clangd fileName tr).handlers, hd.phase = .returned ∨ hd.phase = .done →
      hd.answers.length = names.length ∧
        (run names clangd fileName tr).generationsOf hd.offered =
          (if clangd then kept hd.runByUser names hd.answers else []).map
            (fun g => some (hd.document, g)) ∧
        ∀ t ∈ hd.offered, (run names clangd fileName tr).Settled t) ∧
    ∀ t < (run names clangd fileName tr).cpp.generations.length,
      (run names clangd fileName (tr ++ drain (run names clangd fileName tr))).Settled t :=
  ⟨keys_run tr, fun _ hh hr => returned_offers tr hh hr,
    fun _ ht => offers_settle tr ht⟩

/-! ## Coalescing across documents -/

/-- Saves of documents `0`, `1` and `0`, one generator answering `Yes` to each: each handler
    runs to its `generate` call while the first generation is in progress. The third save's
    offer supersedes the second's, so that the last (and only) save of document `1` resolves as
    superseded and its generation never runs. -/
theorem last_save_superseded :
    let tr : List Event := [.save 0, .handler 0 (.answer .yes), .handler 0 .activated,
      .handler 0 (.resume (.ok ()) (.ok ())), .save 1, .handler 1 (.answer .yes),
      .handler 1 (.resume (.ok ()) (.ok ())), .save 0, .handler 2 (.answer .yes),
      .handler 2 (.resume (.ok ()) (.ok ())), .settle 0, .resumeJob 0, .settle 2, .resumeJob 2]
    (run ["fake"] true (fun _ => "a.cc") tr).handlers.map (fun hd => (hd.document, hd.offered)) =
        [(0, [0]), (1, [1]), (0, [2])] ∧
      (run ["fake"] true (fun _ => "a.cc") tr).cpp.jobManager.settled =
        [(1, .ok none), (0, .ok (some ())), (2, .ok (some ()))] ∧
      (run ["fake"] true (fun _ => "a.cc") tr).cpp.jobManager.started = [0, 2] :=
  ⟨by decide, rfl, by decide⟩

end Subscriptions

end CrosIde.CppCodeCompletion
