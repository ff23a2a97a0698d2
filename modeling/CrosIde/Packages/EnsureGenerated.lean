import CrosIde.Packages.FromFilepath
import CrosIde.Misc.JsMap

/-!
# `Packages.ensureGenerated`

`Packages.ensureGenerated` (`packages/types.ts:56-81`) as a state machine over the event loop.
A run is a trace of calls of `ensureGenerated`, the settling of the promise that
`Mapping.generate` returned, and resumptions of the calls suspended at
`await this.ensureGeneratedWaiter`. `this.chrootService.source` is read by the first call only;
each call carries the value it would read.

The method's docstring promises that the mapping is computed once however the calls
interleave, and that a call that returns finds it populated. Over every trace, `Mapping.generate`
is called at most once (`generations_length_le`); a call that has returned finds the mapping
holding, for each source directory, the last package info the generation listed for it, unless
the source was undefined at the first call (`mapping_of_returned`); and `fromFilepath` then
answers from that list (`fromFilepath_of_returned`). Unlike `CacheOnSuccess`, the waiter is
never cleared: once it settles, every later call returns or throws as it did, and a failed
generation is never retried (`waiter_final`). Resuming the suspended calls then returns every
call made so far exactly once (`returns_once`).

`getOrCreate` (`packages/types.ts:38-54`) keys its instances by the source root of the
`chrootService`, not by the service: two calls return the same instance exactly when their
services have the same root, and it keeps the first of them (`getOrCreate_same_iff`).
-/

namespace CrosIde

open Path CommonUtil

variable {π ε : Type}

/-- `PackageInfo` (`packages/types.ts:12-15`), with the parsed package name as a parameter. -/
structure Packages.PackageInfo (π : Type) where
  sourceDir : String
  pkg : π

/-- The loop `for (const packageInfo of ...) this.mapping.set(packageInfo.sourceDir,
    packageInfo)` (`packages/types.ts:75-77`). -/
def Packages.setAll (mapping : List (String × PackageInfo π)) (infos : List (PackageInfo π)) :
    List (String × PackageInfo π) :=
  infos.foldl (fun mapping info => mapSet mapping info.sourceDir info) mapping

/-- The promise in `ensureGeneratedWaiter`, that of the generating `async` arrow. -/
inductive Packages.Waiter (ε : Type) where
  | pending
  | fulfilled
  | rejected (e : ε)
  deriving DecidableEq, Repr

/-- What a call suspended on the waiter does when it resumes: return, or throw the rejection;
    `none` while the waiter is pending. -/
def Packages.Waiter.outcome : Packages.Waiter ε → Option (Except ε Unit)
  | .pending => none
  | .fulfilled => some (.ok ())
  | .rejected e => some (.error e)

/-- A `Packages` instance (`packages/types.ts:27-81`) and the calls of `ensureGenerated` on it. -/
structure Packages (π ε : Type) where
  /-- `mapping`, as its entries in insertion order. -/
  mapping : List (String × Packages.PackageInfo π)
  /-- `ensureGeneratedWaiter`; `none` is `undefined`. -/
  ensureGeneratedWaiter : Option (Packages.Waiter ε)
  /-- The calls suspended at `await this.ensureGeneratedWaiter`. -/
  waiting : List Nat
  /-- The roots `Mapping.generate` has been called with, in order. -/
  generations : List String
  /-- The calls that returned or threw, in order, with their outcome. -/
  settled : List (Nat × Except ε Unit)
  /-- The number of calls so far. -/
  calls : Nat

namespace Packages

/-- An event of a run. -/
inductive Event (π ε : Type) where
  /-- A call of `ensureGenerated()`, with the root of `this.chrootService.source` at that time;
      `none` when the source is undefined. -/
  | ensureGenerated (source : Option String)
  /-- The promise returned by `Mapping.generate` settles. -/
  | generated (r : Except ε (List (PackageInfo π)))
  /-- Call `c` resumes after `await this.ensureGeneratedWaiter`. -/
  | resume (c : Nat)

/-- `ensureGenerated()` (`packages/types.ts:64-81`) up to its `await`. With no waiter, the
    generating arrow runs up to its own `await`: it returns at once when the source is undefined,
    and calls `Mapping.generate(source.root)` otherwise. The call then awaits the waiter. -/
def ensureGenerated (m : Packages π ε) (source : Option String) : Packages π ε :=
  let m' := { m with calls := m.calls + 1, waiting := m.waiting ++ [m.calls] }
  match m.ensureGeneratedWaiter, source with
  | some _, _ => m'
  | none, none => { m' with ensureGeneratedWaiter := some .fulfilled }
  | none, some root =>
    { m' with ensureGeneratedWaiter := some .pending, generations := m.generations ++ [root] }

/-- The promise of `Mapping.generate` settles (`packages/types.ts:75-78`): on success the loop
    sets each package info in `mapping` and the waiter fulfills; on failure the waiter rejects. -/
def generated (m : Packages π ε) (r : Except ε (List (PackageInfo π))) : Packages π ε :=
  match m.ensureGeneratedWaiter, r with
  | some .pending, .ok infos =>
    { m with mapping := setAll m.mapping infos, ensureGeneratedWaiter := some .fulfilled }
  | some .pending, .error e => { m with ensureGeneratedWaiter := some (.rejected e) }
  | _, _ => m

/-- Call `c` resumes after `await this.ensureGeneratedWaiter` (`packages/types.ts:66-67, 80`)
    once the waiter has settled: it returns, or throws the rejection. -/
def resume (m : Packages π ε) (c : Nat) : Packages π ε :=
  match m.ensureGeneratedWaiter.bind Waiter.outcome with
  | some o =>
    if c ∈ m.waiting then
      { m with waiting := m.waiting.erase c, settled := m.settled ++ [(c, o)] }
    else m
  | none => m

/-- One event of a run. -/
def step (m : Packages π ε) : Event π ε → Packages π ε
  | .ensureGenerated source => m.ensureGenerated source
  | .generated r => m.generated r
  | .resume c => m.resume c

/-- `new Packages(chrootService)`: an empty `mapping` and no waiter. -/
def init : Packages π ε := ⟨[], none, [], [], [], 0⟩

/-- The state after a trace of events. -/
def run (tr : List (Event π ε)) : Packages π ε := tr.foldl step init

theorem run_append (tr tr' : List (Event π ε)) :
    run (tr ++ tr') = tr'.foldl step (run tr) := by
  simp [run, List.foldl_append]

/-- Whether an event is a call of `ensureGenerated()`. -/
def Event.isCall : Event π ε → Bool
  | .ensureGenerated _ => true
  | _ => false

/-! ## The mapping the loop builds -/

/-- A source directory maps to the last package info listed for it, and otherwise keeps its
    entry. -/
theorem lookup_setAll (mapping : List (String × PackageInfo π)) (infos : List (PackageInfo π))
    (d : String) :
    (setAll mapping infos).lookup d =
      ((infos.filter (·.sourceDir == d)).getLast?).or (mapping.lookup d) := by
  induction infos generalizing mapping with
  | nil => rfl
  | cons info infos ih =>
    rw [setAll, List.foldl_cons, ← setAll, ih, lookup_mapSet]
    by_cases h : d = info.sourceDir
    · subst h
      rw [if_pos rfl, List.filter_cons_of_pos (by simp), List.getLast?_cons]
      cases (infos.filter (·.sourceDir == info.sourceDir)).getLast? <;> rfl
    · have h' : (info.sourceDir == d) = false := by simpa using Ne.symm h
      simp [List.filter_cons, h, h']

/-! ## What one event does -/

variable {m : Packages π ε} {w : Waiter ε}

theorem ensureGenerated_of_some (hw : m.ensureGeneratedWaiter = some w) (source : Option String) :
    m.ensureGenerated source =
      { m with calls := m.calls + 1, waiting := m.waiting ++ [m.calls] } := by
  simp [ensureGenerated, hw]

theorem generated_ok_of_pending (hw : m.ensureGeneratedWaiter = some .pending)
    {infos : List (PackageInfo π)} :
    m.generated (.ok infos) =
      { m with mapping := setAll m.mapping infos, ensureGeneratedWaiter := some .fulfilled } := by
  simp [generated, hw]

theorem generated_error_of_pending (hw : m.ensureGeneratedWaiter = some .pending) {e : ε} :
    m.generated (.error e) = { m with ensureGeneratedWaiter := some (.rejected e) } := by
  simp [generated, hw]

theorem generated_of_not_pending (hw : m.ensureGeneratedWaiter ≠ some .pending)
    (r : Except ε (List (PackageInfo π))) : m.generated r = m := by
  unfold generated
  split
  · exact absurd ‹_› hw
  · exact absurd ‹_› hw
  · rfl

/-- With the waiter settled, an event changes neither the waiter, the mapping nor the
    generations, and whatever call it settles returns or throws as the waiter says. -/
theorem step_of_settled (hw : m.ensureGeneratedWaiter = some w) (hs : w ≠ .pending)
    (e : Event π ε) :
    (m.step e).ensureGeneratedWaiter = some w ∧ (m.step e).mapping = m.mapping ∧
      (m.step e).generations = m.generations ∧
      ∃ l, (m.step e).settled = m.settled ++ l ∧ ∀ x ∈ l, some x.2 = w.outcome := by
  cases e with
  | ensureGenerated source =>
    rw [step, ensureGenerated_of_some hw]
    exact ⟨hw, rfl, rfl, [], by simp⟩
  | generated r =>
    rw [step, generated_of_not_pending (by simpa [hw] using hs)]
    exact ⟨hw, rfl, rfl, [], by simp⟩
  | resume c =>
    simp only [step]
    unfold resume
    split
    · next o ho =>
      split
      · exact ⟨hw, rfl, rfl, [(c, o)], rfl, by simpa [hw] using ho.symm⟩
      · exact ⟨hw, rfl, rfl, [], by simp⟩
    · exact ⟨hw, rfl, rfl, [], by simp⟩

theorem step_calls (m : Packages π ε) (e : Event π ε) :
    (m.step e).calls = m.calls + if e.isCall then 1 else 0 := by
  cases e with
  | ensureGenerated source =>
    simp only [step, Packages.ensureGenerated, Event.isCall, if_true]
    split <;> rfl
  | generated r => simp only [step, generated, Event.isCall]; split <;> rfl
  | resume c => simp only [step, resume, Event.isCall]; split <;> [split <;> rfl; rfl]

/-- The calls are those of the trace. -/
theorem calls_run (tr : List (Event π ε)) : (run tr).calls = tr.countP Event.isCall := by
  induction tr using List.reverseRecOn with
  | nil => rfl
  | append_singleton tr e ih =>
    rw [run_append, List.foldl_cons, List.foldl_nil, step_calls, ih, List.countP_append]
    cases h : e.isCall <;> simp [h]

/-- Once a call has been made, the settling of `Mapping.generate`'s promise leaves the waiter
    settled, and the calls as they are. -/
theorem generated_settles (hw : m.ensureGeneratedWaiter ≠ none) (r : Except ε (List (PackageInfo π))) :
    (∃ w, (m.generated r).ensureGeneratedWaiter = some w ∧ w ≠ .pending) ∧
      (m.generated r).calls = m.calls ∧ (m.generated r).waiting = m.waiting ∧
      (m.generated r).settled = m.settled := by
  by_cases hp : m.ensureGeneratedWaiter = some .pending
  · cases r <;> simp [generated, hp]
  · rw [generated_of_not_pending hp]
    obtain ⟨w, hw'⟩ := Option.ne_none_iff_exists'.1 hw
    exact ⟨⟨w, hw', fun h => hp (h ▸ hw')⟩, rfl, rfl, rfl⟩

/-- Resuming the suspended calls, once the waiter has settled, returns each of them. -/
theorem foldl_resume_waiting (hw : m.ensureGeneratedWaiter = some w) {o : Except ε Unit}
    (ho : w.outcome = some o) :
    ∀ (ws : List Nat), m.waiting = ws →
      let m' := (ws.map Event.resume).foldl step m
      m'.waiting = [] ∧ m'.settled = m.settled ++ ws.map (·, o) ∧ m'.calls = m.calls ∧
        m'.ensureGeneratedWaiter = some w := by
  intro ws
  induction ws generalizing m with
  | nil => intro h; simpa using ⟨h, hw⟩
  | cons c cs ih =>
    intro h
    have hstep : m.step (.resume c) =
        { m with waiting := cs, settled := m.settled ++ [(c, o)] } := by
      simp [step, resume, hw, ho, h]
    simp only [List.map_cons, List.foldl_cons, hstep]
    obtain ⟨h₁, h₂, h₃, h₄⟩ := ih (m := { m with waiting := cs, settled := m.settled ++ [(c, o)] })
      hw rfl
    exact ⟨h₁, by simp [h₂], h₃, h₄⟩

/-! ## The invariant -/

/-- What holds after a trace `tr`: each call is suspended or has settled, once; with no waiter
    no call was made; `Mapping.generate` was called at most once, and was when the waiter is
    pending or rejected, with the mapping still empty; a fulfilled waiter comes with an empty
    mapping and no generation, or with the mapping one result of `Mapping.generate` in `tr` sets;
    and each settled call has the outcome the waiter gives. -/
structure Inv (tr : List (Event π ε)) (m : Packages π ε) : Prop where
  calls : (m.waiting ++ m.settled.map Prod.fst).Perm (List.range m.calls)
  unset : m.ensureGeneratedWaiter = none → m.calls = 0 ∧ m.generations = [] ∧ m.mapping = []
  generations : m.generations.length ≤ 1
  pending : m.ensureGeneratedWaiter = some .pending → m.generations ≠ [] ∧ m.mapping = []
  rejected : ∀ e, m.ensureGeneratedWaiter = some (.rejected e) →
    m.generations ≠ [] ∧ m.mapping = []
  fulfilled : m.ensureGeneratedWaiter = some .fulfilled →
    (m.generations = [] ∧ m.mapping = []) ∨
      ∃ infos, .generated (.ok infos) ∈ tr ∧ m.mapping = setAll [] infos
  settled : ∀ x ∈ m.settled, some x.2 = m.ensureGeneratedWaiter.bind Waiter.outcome

theorem inv_init : Inv [] (init : Packages π ε) :=
  ⟨by simp [init], by simp [init], by simp [init], by simp [init], by simp [init],
    by simp [init], by simp [init]⟩

/-- The invariant only grows with the trace. -/
theorem Inv.append {tr : List (Event π ε)} (hi : Inv tr m) (tr' : List (Event π ε)) :
    Inv (tr ++ tr') m :=
  { hi with
    fulfilled := fun h => (hi.fulfilled h).imp id fun ⟨infos, hm, h⟩ => ⟨infos, by simp [hm], h⟩ }

/-- Before the first call nothing has settled. -/
theorem Inv.settled_of_unset {tr : List (Event π ε)} (hi : Inv tr m)
    (hw : m.ensureGeneratedWaiter = none) : m.settled = [] := by
  have h := hi.calls
  rw [(hi.unset hw).1, List.range_zero] at h
  exact (List.append_eq_nil.1 h.eq_nil).2 |> List.map_eq_nil_iff.1

theorem Inv.ensureGenerated {tr : List (Event π ε)} (hi : Inv tr m) (source : Option String) :
    Inv (tr ++ [.ensureGenerated source]) (m.ensureGenerated source) := by
  have hcalls : ((m.waiting ++ [m.calls]) ++ m.settled.map Prod.fst).Perm
      (List.range (m.calls + 1)) := by
    rw [List.range_succ, List.append_assoc]
    exact (List.perm_append_comm.append_left _).trans
      ((List.append_assoc _ _ _).symm ▸ hi.calls.append_right _)
  cases hw : m.ensureGeneratedWaiter with
  | some w =>
    rw [ensureGenerated_of_some hw]
    exact { hi.append _ with calls := hcalls, unset := by simp [hw] }
  | none =>
    obtain ⟨-, hg, hm⟩ := hi.unset hw
    have hs := hi.settled_of_unset hw
    cases source <;> simp only [Packages.ensureGenerated, hw] <;>
      exact ⟨hcalls, by simp, by simp [hg], by simp [hg, hm], by simp, by simp [hg, hm],
        by simp [hs]⟩

theorem Inv.generated {tr : List (Event π ε)} (hi : Inv tr m) (r : Except ε (List (PackageInfo π))) :
    Inv (tr ++ [.generated r]) (m.generated r) := by
  by_cases hw : m.ensureGeneratedWaiter = some .pending
  · obtain ⟨hg, hm⟩ := hi.pending hw
    have hs : m.settled = [] := List.eq_nil_iff_forall_not_mem.2 fun x hx => by
      simpa [hw, Waiter.outcome] using hi.settled x hx
    cases r with
    | ok infos =>
      rw [generated_ok_of_pending hw]
      exact ⟨hi.calls, by simp, hi.generations, by simp, by simp,
        fun _ => .inr ⟨infos, by simp, by simp [hm]⟩, by simp [hs]⟩
    | error e =>
      rw [generated_error_of_pending hw]
      exact ⟨hi.calls, by simp, hi.generations, by simp, by simp [hg, hm], by simp,
        by simp [hs]⟩
  · rw [generated_of_not_pending hw]
    exact hi.append _

theorem Inv.resume {tr : List (Event π ε)} (hi : Inv tr m) (c : Nat) :
    Inv (tr ++ [.resume c]) (m.resume c) := by
  have mono := hi.append [.resume c]
  unfold Packages.resume
  split
  · next o ho =>
    split
    · next hc =>
      refine { mono with calls := ?_, settled := ?_ }
      · simp only [List.map_append, List.map_cons, List.map_nil]
        refine ((List.perm_append_singleton _ _).append_left _).trans ?_
        exact List.perm_middle.trans (((List.perm_cons_erase hc).symm.append_right _).trans hi.calls)
      · intro x hx
        simp only [List.mem_append, List.mem_singleton] at hx
        rcases hx with hx | rfl
        · exact (hi.settled x hx).trans (by simp)
        · exact ho.symm
    · exact mono
  · exact mono

theorem Inv.step {tr : List (Event π ε)} (hi : Inv tr m) (e : Event π ε) :
    Inv (tr ++ [e]) (m.step e) := by
  cases e with
  | ensureGenerated source => exact hi.ensureGenerated source
  | generated r => exact hi.generated r
  | resume c => exact hi.resume c

theorem inv_run (tr : List (Event π ε)) : Inv tr (run tr) := by
  induction tr using List.reverseRecOn with
  | nil => exact inv_init
  | append_singleton tr e ih => simpa [run, List.foldl_append] using ih.step e

/-- A call that has returned normally finds the waiter fulfilled, and so the mapping empty with
    nothing generated, or set from one result of `Mapping.generate`. -/
theorem Inv.mapping_of_ok {tr : List (Event π ε)} (hi : Inv tr m) {c : Nat}
    (hc : (c, .ok ()) ∈ m.settled) :
    (m.generations = [] ∧ m.mapping = []) ∨
      ∃ infos, .generated (.ok infos) ∈ tr ∧ m.mapping = setAll [] infos := by
  refine hi.fulfilled ?_
  have := hi.settled _ hc
  rcases h : m.ensureGeneratedWaiter with _ | _ | _ | e <;> simp_all [Waiter.outcome]

/-! ## Over every run -/

/-- `Mapping.generate` is called at most once, however the calls interleave with it. -/
theorem generations_length_le (tr : List (Event π ε)) : (run tr).generations.length ≤ 1 :=
  (inv_run tr).generations

/-- A call that has returned finds the mapping populated: unless the source was undefined at the
    first call, and nothing was generated, some result of `Mapping.generate` in the run maps
    each source directory to the last package info it lists for it, and nothing else. -/
theorem mapping_of_returned (tr : List (Event π ε)) (c : Nat)
    (hc : (c, .ok ()) ∈ (run tr).settled) :
    ((run tr).generations = [] ∧ (run tr).mapping = []) ∨
      ∃ infos, .generated (.ok infos) ∈ tr ∧
        ∀ d, (run tr).mapping.lookup d = (infos.filter (·.sourceDir == d)).getLast? := by
  refine ((inv_run tr).mapping_of_ok hc).imp id fun ⟨infos, hinfos, hm⟩ =>
    ⟨infos, hinfos, fun d => ?_⟩
  simp [hm, lookup_setAll]

/-- Two calls, the generation of `platform` twice and of `platform/foo`, and the first call
    resumed: `platform` maps to the second info listed for it. -/
theorem mapping_of_returned_platform :
    let tr : List (Event Nat Unit) := [.ensureGenerated (some "/cros"), .ensureGenerated none,
      .generated (.ok [⟨"platform", 2⟩, ⟨"platform/foo", 1⟩, ⟨"platform", 3⟩]), .resume 0]
    ((run tr).generations = [] ∧ (run tr).mapping = []) ∨
      ∃ infos, .generated (.ok infos) ∈ tr ∧
        ∀ d, (run tr).mapping.lookup d = (infos.filter (·.sourceDir == d)).getLast? :=
  mapping_of_returned _ 0 (List.mem_singleton.2 rfl)

/-- `fromFilepath` after its `await this.ensureGenerated()` has returned, on a file under the
    source directory of its nearest chroot: it answers from one result of `Mapping.generate`, the
    last package info listed for the longest ancestor directory of the file that it lists. -/
theorem fromFilepath_of_returned (tr : List (Event π ε)) (c : Nat)
    (hc : (c, .ok ()) ∈ (run tr).settled) (hg : (run tr).generations ≠ [])
    (cwd : List String) (realpath : String → Option String) (existsSync : String → Bool)
    (filepath : String) (source rel : Segments) (hrel : rel.segs ≠ [])
    (hrp : realPathOf realpath filepath = some (absPath (source.segs ++ rel.segs)))
    (hchroot : findChroot existsSync (absPath (source.segs ++ rel.segs)) =
      some (absPath (source.segs ++ ["chroot"])))
    (hdots : ['.', '.'].isPrefixOf (joinSegments rel.segs).toList = false) :
    ∃ infos, .generated (.ok infos) ∈ tr ∧
      fromFilepath cwd realpath existsSync (run tr).mapping filepath =
        rel.segs.inits.reverse.dropLast.findSome? fun a =>
          (infos.filter (·.sourceDir == joinSegments a)).getLast? := by
  obtain ⟨hg', -⟩ | ⟨infos, hinfos, hm⟩ := (inv_run tr).mapping_of_ok hc
  · exact absurd hg' hg
  refine ⟨infos, hinfos, ?_⟩
  rw [fromFilepath_nearest cwd realpath existsSync _ filepath source rel hrel hrp hchroot hdots, hm]
  simp [lookup_setAll]

/-- Two calls, the generation of `platform` and `platform/foo`, and the first call resumed:
    `fromFilepath` of a file of `platform/foo/bar` answers from the generated list. -/
theorem fromFilepath_of_returned_platform :
    let tr : List (Event Nat Unit) := [.ensureGenerated (some "/cros"), .ensureGenerated none,
      .generated (.ok [⟨"platform", 2⟩, ⟨"platform/foo", 1⟩]), .resume 0]
    ∃ infos, Event.generated (.ok infos) ∈ tr ∧
      fromFilepath [] some (fun s => s = "/cros/chroot/etc/cros_chroot_version") (run tr).mapping
          "/cros/platform/foo/bar/x.cc" =
        ["platform", "foo", "bar", "x.cc"].inits.reverse.dropLast.findSome? fun a =>
          (infos.filter (·.sourceDir == joinSegments a)).getLast? :=
  fromFilepath_of_returned _ 0 (List.mem_singleton.2 rfl) (by decide) [] some _ _
    ⟨["cros"], by decide⟩
    ⟨["platform", "foo", "bar", "x.cc"], by decide⟩ (by decide) (by decide) (by decide)
    (by decide)

/-- Once the waiter has settled it is final: every later event keeps the waiter, the mapping
    and the generations, and every call that settles later returns or throws as the first did;
    a failed generation is never retried. -/
theorem waiter_final (tr tr' : List (Event π ε)) (w : Waiter ε)
    (hw : (run tr).ensureGeneratedWaiter = some w) (hs : w ≠ .pending) :
    (run (tr ++ tr')).ensureGeneratedWaiter = some w ∧
      (run (tr ++ tr')).mapping = (run tr).mapping ∧
      (run (tr ++ tr')).generations = (run tr).generations ∧
      ∃ l, (run (tr ++ tr')).settled = (run tr).settled ++ l ∧ ∀ x ∈ l, some x.2 = w.outcome := by
  rw [run_append]
  generalize run tr = m at hw ⊢
  induction tr' generalizing m with
  | nil => exact ⟨hw, rfl, rfl, [], by simp⟩
  | cons e tr' ih =>
    obtain ⟨hw', hm, hg, l, hl, hlo⟩ := step_of_settled hw hs e
    obtain ⟨h₁, h₂, h₃, l', h₄, h₅⟩ := ih (m.step e) hw'
    refine ⟨h₁, h₂.trans hm, h₃.trans hg, l ++ l', by simp [h₄, hl], ?_⟩
    simp only [List.mem_append]
    exact fun x hx => hx.elim (hlo x) (h₅ x)

/-- A generation that failed: a later call, and the resumptions, throw its error and generate
    nothing. -/
theorem waiter_final_rejected :
    let tr : List (Event Nat Unit) := [.ensureGenerated (some "/cros"), .generated (.error ())]
    let tr' : List (Event Nat Unit) := [.ensureGenerated (some "/cros"), .resume 0, .resume 1]
    (run (tr ++ tr')).ensureGeneratedWaiter = some (.rejected ()) ∧
      (run (tr ++ tr')).mapping = (run tr).mapping ∧
      (run (tr ++ tr')).generations = (run tr).generations ∧
      ∃ l, (run (tr ++ tr')).settled = (run tr).settled ++ l ∧
        ∀ x ∈ l, some x.2 = (Waiter.rejected ()).outcome :=
  waiter_final _ _ (.rejected ()) rfl (by decide)

/-- The calls are those of the trace, and once the promise of `Mapping.generate` has settled,
    resuming the suspended calls returns, or throws from, every call made so far exactly once. -/
theorem returns_once (tr : List (Event π ε)) (r : Except ε (List (PackageInfo π))) :
    (run tr).calls = tr.countP Event.isCall ∧
      (run (tr ++ .generated r :: (run (tr ++ [.generated r])).waiting.map Event.resume)).waiting =
        [] ∧
      ((run (tr ++ .generated r ::
          (run (tr ++ [.generated r])).waiting.map Event.resume)).settled.map Prod.fst).Perm
        (List.range (run tr).calls) := by
  refine ⟨calls_run tr, ?_⟩
  have hi := inv_run tr
  rw [← List.singleton_append, ← List.append_assoc]
  simp only [run_append, List.foldl_cons, List.foldl_nil, step]
  cases hw : (run tr).ensureGeneratedWaiter with
  | none =>
    obtain ⟨hc, -, -⟩ := hi.unset hw
    have hg : (run tr).generated r = run tr := generated_of_not_pending (by simp [hw]) r
    have hnil := hi.calls
    rw [hc, List.range_zero, List.perm_nil, List.append_eq_nil] at hnil
    rw [hg, hnil.1, hc]
    simpa [hnil.2] using hnil.1
  | some w =>
    obtain ⟨⟨w', hw', hs⟩, hc, hwait, hset⟩ := generated_settles (by simp [hw]) r (m := run tr)
    obtain ⟨o, ho⟩ : ∃ o, w'.outcome = some o := by cases w' <;> simp_all [Waiter.outcome]
    obtain ⟨h₁, h₂, -, -⟩ := foldl_resume_waiting hw' ho _ rfl
    refine ⟨h₁, ?_⟩
    rw [h₂, List.map_append, List.map_map, hset, hwait]
    simpa [Function.comp_def] using List.perm_append_comm.trans hi.calls

/-! ## `getOrCreate` -/

section GetOrCreate

variable {σ : Type} (sourceRoot : σ → String)

/-- `Packages.instances` (`packages/types.ts:38`) and the number of `new Packages` so far: an
    instance is its number and the `chrootService` it was made with. -/
structure Instances (σ : Type) where
  instances : List (String × (Nat × σ))
  created : Nat

/-- `Packages.getOrCreate(chrootService)` (`packages/types.ts:43-54`), keyed by
    `chrootService.source.root`. -/
def getOrCreate (s : Instances σ) (chrootService : σ) : (Nat × σ) × Instances σ :=
  let key := sourceRoot chrootService
  match s.instances.lookup key with
  | some cached => (cached, s)
  | none =>
    let newInstance := (s.created, chrootService)
    (newInstance, ⟨mapSet s.instances key newInstance, s.created + 1⟩)

/-- `new Map()`: no instance yet. -/
def Instances.empty : Instances σ := ⟨[], 0⟩

/-- The instances after a sequence of calls. -/
def Instances.calls (s : Instances σ) (cs : List σ) : Instances σ :=
  cs.foldl (fun s c => (getOrCreate sourceRoot s c).2) s

theorem getOrCreate_of_lookup {s : Instances σ} {c : σ} {i : Nat × σ}
    (h : s.instances.lookup (sourceRoot c) = some i) : getOrCreate sourceRoot s c = (i, s) := by
  simp [getOrCreate, h]

theorem getOrCreate_of_lookup_none {s : Instances σ} {c : σ}
    (h : s.instances.lookup (sourceRoot c) = none) :
    getOrCreate sourceRoot s c =
      ((s.created, c), ⟨mapSet s.instances (sourceRoot c) (s.created, c), s.created + 1⟩) := by
  simp [getOrCreate, h]

/-- After the calls `cs`: a root maps to the first service of `cs` with that root, and distinct
    roots to distinct instance numbers, each below the number of instances made. -/
structure Instances.Inv (cs : List σ) (s : Instances σ) : Prop where
  service : ∀ k, (s.instances.lookup k).map Prod.snd = cs.find? (sourceRoot · == k)
  lt : ∀ k i, s.instances.lookup k = some i → i.1 < s.created
  inj : ∀ k k' i i', s.instances.lookup k = some i → s.instances.lookup k' = some i' →
    i.1 = i'.1 → k = k'

/-- A call returns the instance its root maps to afterwards. -/
theorem lookup_getOrCreate (s : Instances σ) (c : σ) :
    (getOrCreate sourceRoot s c).2.instances.lookup (sourceRoot c) =
      some (getOrCreate sourceRoot s c).1 := by
  cases h : s.instances.lookup (sourceRoot c) with
  | some i => simp [getOrCreate_of_lookup sourceRoot h, h]
  | none => simp [getOrCreate_of_lookup_none sourceRoot h, lookup_mapSet]

variable {sourceRoot}

/-- A call leaves the instance of every root that has one as it is. -/
theorem lookup_getOrCreate_of_lookup {s : Instances σ} {k : String} {i : Nat × σ}
    (h : s.instances.lookup k = some i) (c : σ) :
    (getOrCreate sourceRoot s c).2.instances.lookup k = some i := by
  cases hc : s.instances.lookup (sourceRoot c) with
  | some j => rw [getOrCreate_of_lookup sourceRoot hc]; exact h
  | none =>
    rw [getOrCreate_of_lookup_none sourceRoot hc, lookup_mapSet, if_neg]
    · exact h
    · rintro rfl; simp [h] at hc

theorem Instances.Inv.getOrCreate {cs : List σ} {s : Instances σ}
    (hi : Instances.Inv sourceRoot cs s) (c : σ) :
    Instances.Inv sourceRoot (cs ++ [c]) (getOrCreate sourceRoot s c).2 := by
  cases h : s.instances.lookup (sourceRoot c) with
  | some i =>
    rw [getOrCreate_of_lookup sourceRoot h]
    refine ⟨fun k => ?_, hi.lt, hi.inj⟩
    rw [hi.service, List.find?_append]
    by_cases hk : sourceRoot c = k
    · subst hk
      simp [← hi.service, h]
    · cases cs.find? (sourceRoot · == k) <;> simp [hk]
  | none =>
    have hnone : cs.find? (sourceRoot · == sourceRoot c) = none := by rw [← hi.service, h]; rfl
    rw [getOrCreate_of_lookup_none sourceRoot h]
    refine ⟨fun k => ?_, fun k i hk => ?_, fun k k' i i' hk hk' he => ?_⟩
    · rw [lookup_mapSet, List.find?_append]
      by_cases hk : k = sourceRoot c
      · subst hk; simp [hnone]
      · rw [if_neg hk, hi.service]
        cases cs.find? (sourceRoot · == k) <;> simp [Ne.symm hk]
    · rw [lookup_mapSet] at hk
      split at hk
      · cases hk; exact Nat.lt_succ_self _
      · exact Nat.lt_succ_of_lt (hi.lt k i hk)
    · rw [lookup_mapSet] at hk hk'
      split at hk <;> split at hk'
      · simp_all
      · cases hk; exact absurd he (Nat.ne_of_gt (hi.lt k' i' hk'))
      · cases hk'; exact absurd he (Nat.ne_of_lt (hi.lt k i hk))
      · exact hi.inj k k' i i' hk hk' he

theorem Instances.inv_empty : Instances.Inv sourceRoot [] (Instances.empty : Instances σ) :=
  ⟨by simp [Instances.empty], by simp [Instances.empty], by simp [Instances.empty]⟩

theorem Instances.Inv.calls {cs : List σ} {s : Instances σ}
    (hi : Instances.Inv sourceRoot cs s) (ds : List σ) :
    Instances.Inv sourceRoot (cs ++ ds) (s.calls sourceRoot ds) := by
  induction ds generalizing cs s with
  | nil => simpa [Instances.calls] using hi
  | cons d ds ih => simpa [Instances.calls] using ih (hi.getOrCreate d)

theorem Instances.lookup_calls {s : Instances σ} {k : String} {i : Nat × σ}
    (h : s.instances.lookup k = some i) (ds : List σ) :
    (s.calls sourceRoot ds).instances.lookup k = some i := by
  induction ds generalizing s with
  | nil => exact h
  | cons d ds ih => exact ih (lookup_getOrCreate_of_lookup h d)

/-- Two calls of `getOrCreate`, with any calls before and between them, return the same instance
    exactly when their services have the same source root, not only for the same service; and
    the instance holds the first service with that root. -/
theorem getOrCreate_same_iff (cs ds : List σ) (c d : σ) :
    ((getOrCreate sourceRoot (Instances.empty.calls sourceRoot cs) c).1 =
        (getOrCreate sourceRoot ((getOrCreate sourceRoot
          (Instances.empty.calls sourceRoot cs) c).2.calls sourceRoot ds) d).1 ↔
      sourceRoot c = sourceRoot d) ∧
    (cs ++ [c]).find? (sourceRoot · == sourceRoot c) =
      some (getOrCreate sourceRoot (Instances.empty.calls sourceRoot cs) c).1.2 := by
  have hi : Instances.Inv sourceRoot ([] ++ cs ++ [c])
      (getOrCreate sourceRoot (Instances.empty.calls sourceRoot cs) c).2 :=
    (Instances.inv_empty.calls cs).getOrCreate c
  have hr := lookup_getOrCreate sourceRoot (Instances.empty.calls sourceRoot cs) c
  generalize getOrCreate sourceRoot (Instances.empty.calls sourceRoot cs) c = r at hi hr ⊢
  rw [List.nil_append] at hi
  have hs : (r.2.calls sourceRoot ds).instances.lookup (sourceRoot c) = some r.1 :=
    Instances.lookup_calls hr ds
  refine ⟨⟨fun he => ?_, fun he => ?_⟩, by rw [← hi.service, hr]; rfl⟩
  · have hi' := (hi.calls ds).getOrCreate d
    exact hi'.inj _ _ _ _ (lookup_getOrCreate_of_lookup hs d) (lookup_getOrCreate sourceRoot _ d)
      (congrArg Prod.fst he)
  · rw [getOrCreate_of_lookup sourceRoot (he ▸ hs)]

/- Two services of the source `/cros` share the instance made with the first. -/
example : (getOrCreate Prod.fst (getOrCreate Prod.fst ⟨[], 0⟩ ("/cros", 1)).2 ("/cros", 2)).1 =
    (0, ("/cros", 1)) := rfl

end GetOrCreate

end Packages

end CrosIde
