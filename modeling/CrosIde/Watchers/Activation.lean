import CrosIde.Watchers.ProductWatcher

/-!
# `ChromiumosActivation` and `ChromiumActivation`

`ChromiumosActivation` and `ChromiumActivation` (`extension.ts:184-259`) listen to the
`onDidChangeRoot` of their `ProductWatcher`: on each value fired they dispose the features they
hold, and build new ones for the root fired, or hold none for `undefined`. The two classes differ
only in the product they watch and in the features they build: here, in the `productRoot` of the
watcher and in the root the features are built for.

Over the values a watcher fires, the features held are those of the last value
(`features_foldl`), and every instance built but the one held has been disposed
(`ofFired_disposes`). When the handlers of the workspace-folder changes never overlap and all have
returned, the features held are those of the watcher's `root` (`features_of_serial`). But `add`
and `remove` take `prevRoot` before their `await`s and fire only when `root` differs from it at
their end: the removal of the last folder under a root, with the addition of another folder
under it started before the removal resumes, leaves `root` set and no features held.
-/

namespace CrosIde.Watchers

/-- The features held by a `ChromiumosActivation` or a `ChromiumActivation`. -/
structure Activation (ρ : Type) where
  /-- `chromiumosFeatures` or `chromiumFeatures`, as the root they were built for; `none` for
      `undefined`. -/
  features : Option ρ
  /-- The roots features were built for, in order. -/
  built : List ρ
  /-- The number of feature instances disposed. -/
  disposed : Nat
  deriving DecidableEq, Repr

namespace Activation

variable {ρ : Type}

/-- No features before the watcher fires. -/
def init : Activation ρ := ⟨none, [], 0⟩

/-- The listener of `watcher.onDidChangeRoot` (`extension.ts:209-221, 247-257`): dispose the
    features held, if any, then build them for `root`, or hold none. -/
def onDidChangeRoot (a : Activation ρ) (root : Option ρ) : Activation ρ :=
  ⟨root, a.built ++ root.toList, a.disposed + a.features.toList.length⟩

/-- The activation after the values a watcher has fired. -/
def ofFired (fired : List (Option ρ)) : Activation ρ := fired.foldl onDidChangeRoot init

theorem features_foldl (a : Activation ρ) (fired : List (Option ρ)) :
    (fired.foldl onDidChangeRoot a).features = fired.getLast?.getD a.features := by
  induction fired generalizing a with
  | nil => rfl
  | cons root fired ih => simp [ih, onDidChangeRoot, List.getLast?_cons]

end Activation

open ProductWatcher Activation

variable {φ ρ : Type} [DecidableEq ρ] {productRoot : φ → Option ρ}

/-- With calls made one at a time, the last value fired is the watcher's `root`. -/
theorem getLast_fired_foldl_call (calls : List (Call φ)) {w : ProductWatcher ρ}
    (h : w.fired.getLast?.getD none = w.root) :
    (calls.foldl (call productRoot) w).fired.getLast?.getD none =
      (calls.foldl (call productRoot) w).root := by
  induction calls generalizing w with
  | nil => exact h
  | cons c calls ih =>
    refine ih ?_
    rw [call_fired]
    split
    · simp
    · next hr => simpa [h] using not_not.1 hr

variable [DecidableEq φ]

/-- When the handlers of the workspace-folder changes never overlap and have all returned, the
    features held are those of the watcher's `root`: there are features exactly when the
    watcher has a root, and they were built for it. -/
theorem features_of_serial (tr : List (Workspace.Event φ))
    (hs : Workspace.Serial productRoot tr)
    (hdone : ∀ p ∈ (Workspace.run productRoot tr).handlers, p = .done) :
    (ofFired (Workspace.run productRoot tr).watcher.fired).features =
      (Workspace.run productRoot tr).watcher.root := by
  obtain ⟨-, hc, -⟩ := Workspace.serial_complete tr hs
  rw [Workspace.inFlight_of_done hdone] at hc
  have hw : (Workspace.run productRoot tr).watcher =
      runCalls productRoot (tr.flatMap Workspace.Event.calls) := hc
  rw [ofFired, features_foldl, hw]
  exact getLast_fired_foldl_call _ rfl

/-- One folder added, its handler run to its end: the features are built for its root. -/
theorem features_of_serial_add :
    let tr : List (Workspace.Event Nat) := [.change [0] [], .resume 0, .resume 0]
    (ofFired (Workspace.run (fun _ => some (0 : Nat)) tr).watcher.fired).features =
      (Workspace.run (fun _ => some (0 : Nat)) tr).watcher.root :=
  features_of_serial _ (fun pre _ _ _ h => by
    rcases pre with _ | ⟨x, _ | ⟨y, _ | ⟨z, pre⟩⟩⟩ <;> simp_all [Workspace.run, Workspace.init])
    (by decide)

/- Folder `0`, under root `0`, is added and its handler returns; its removal and the addition of
   folder `1`, under root `0` too, then start before either resumes, and the removal resumes first.
   All handlers return with folder `1` open and `root` set, but the last value fired is
   `undefined`: the features are disposed and not built again, so the handlers must not overlap. -/
example :
    let s := Workspace.run (fun _ : Nat => some (0 : Nat)) [.change [0] [], .resume 0, .resume 0,
      .change [] [0], .change [1] [], .resume 1, .resume 2, .resume 2]
    (∀ p ∈ s.handlers, p = .done) ∧ s.folders = [1] ∧ s.watcher.root = some 0 ∧
      (ofFired s.watcher.fired).features = none := by
  decide

end CrosIde.Watchers
