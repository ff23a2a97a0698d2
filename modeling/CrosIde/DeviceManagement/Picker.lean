import Mathlib.Data.List.Basic

/-!
# `showInputBoxWithSuggestions`

`showInputBoxWithSuggestions` (`device_add.ts:114-155`), through which `promptNewHostname`
(`device_add.ts:54-65`) asks for the host of a new device: a quick pick whose items are the
suggested hosts, and whose `onDidChangeValue` listener puts the text typed first when it is not
one of them, so that it can be accepted as typed. vscode runs the listener after each edit of the
text, and `onDidAccept` when the user accepts, with `activeItems` among the items it shows.

Over every sequence of edits the items are the suggested hosts, preceded by the last text typed
that is not one of them, if any, and the text just typed is always an item (`items_typed`). So
the promise settles with a suggested host or with the last text typed that is not one
(`resolved_mem`). But the items change only on an edit: with no suggested host, accepting before
typing finds no active item, `choice.label` throws after the picker is disposed, and the promise
never settles.
-/

namespace CrosIde.DeviceManagement

/-- The quick pick of `showInputBoxWithSuggestions`: its `value` and the labels of its `items`. -/
structure QuickPick where
  value : String
  items : List String
  deriving DecidableEq, Repr

section Picker

variable (labels : List String)

/-- The picker as `showInputBoxWithSuggestions(labels)` shows it (`device_add.ts:125-134`): the
    labels as items, and vscode's initial empty `value`. -/
def showInputBoxWithSuggestions : QuickPick := ⟨"", labels⟩

/-- The `onDidChangeValue` listener (`device_add.ts:137-143`), once vscode has set the new
    `value`: the items become `[picker.value, ...labels]` unless `labelSet` has the value. -/
def onDidChangeValue (picker : QuickPick) (value : String) : QuickPick :=
  if value ∈ labels then { picker with value } else ⟨value, value :: labels⟩

/-- The picker after a sequence of edits of its text. -/
def typed (values : List String) : QuickPick :=
  values.foldl (onDidChangeValue labels) (showInputBoxWithSuggestions labels)

/-- The last of `values` that is not a label (no source counterpart). -/
def lastTyped (values : List String) : Option String :=
  (values.filter (· ∉ labels)).getLast?

@[simp] theorem lastTyped_nil : lastTyped labels [] = none := rfl

theorem lastTyped_append_singleton (values : List String) (value : String) :
    lastTyped labels (values ++ [value]) =
      if value ∈ labels then lastTyped labels values else some value := by
  by_cases h : value ∈ labels <;> simp [lastTyped, h]

/-- The edits keep the value last typed, and the items of the last text typed that is not a
    label, over those of the picker they start from. -/
theorem foldl_onDidChangeValue (picker : QuickPick) (values : List String) :
    (values.foldl (onDidChangeValue labels) picker).value = values.getLast?.getD picker.value ∧
      (values.foldl (onDidChangeValue labels) picker).items =
        ((lastTyped labels values).map (· :: labels)).getD picker.items := by
  induction values using List.reverseRecOn with
  | nil => exact ⟨rfl, rfl⟩
  | append_singleton values value ih =>
    rw [List.foldl_append, List.foldl_cons, List.foldl_nil, lastTyped_append_singleton]
    by_cases h : value ∈ labels <;> simp [onDidChangeValue, h, ih.2]

theorem typed_items_eq (values : List String) :
    (typed labels values).items = (lastTyped labels values).toList ++ labels := by
  rw [typed, (foldl_onDidChangeValue labels _ values).2]
  cases lastTyped labels values <;> rfl

/-- Over every sequence of edits, the items are the labels preceded by the last text typed that
    is not a label, if any; and after an edit the text typed is one of the items. -/
theorem items_typed (values : List String) :
    (typed labels values).items = (lastTyped labels values).toList ++ labels ∧
      ∀ value ∈ values.getLast?,
        (typed labels values).value = value ∧ value ∈ (typed labels values).items := by
  refine ⟨typed_items_eq labels values, fun value hl => ⟨?_, ?_⟩⟩
  · simp [typed, (foldl_onDidChangeValue labels _ values).1, Option.mem_def.1 hl]
  · obtain ⟨values, rfl⟩ := List.getLast?_eq_some_iff.1 hl
    rw [typed_items_eq, lastTyped_append_singleton]
    by_cases h : value ∈ labels <;> simp [h]

/-- Text typed and then completed to a suggestion stays the first item. -/
example : typed ["dut1"] ["dut", "dut1"] = ⟨"dut1", ["dut", "dut1"]⟩ := by decide

/-- The picker of a call and the promise it returns. -/
structure InputBox where
  picker : QuickPick
  /-- Whether `onDidAccept` has run: the picker and the listeners are disposed. -/
  disposed : Bool
  /-- What the promise resolved with; `none` while it is pending. -/
  resolved : Option String
  deriving DecidableEq, Repr

/-- What the user does with the picker. -/
inductive InputBox.Event where
  /-- An edit of the text to `value`. -/
  | changeValue (value : String)
  /-- An accept, with `activeItems` the labels of vscode's active items. -/
  | accept (activeItems : List String)
  deriving DecidableEq, Repr

namespace InputBox

/-- `onDidAccept` (`device_add.ts:144-150`): `picker.activeItems[0]`, the disposals, then
    `resolve(choice.label)`, which throws for an undefined `choice`. -/
def onDidAccept (b : InputBox) (activeItems : List String) : InputBox :=
  { b with disposed := true, resolved := activeItems.head? }

/-- One event; the listeners of a disposed picker no longer run. -/
def step (b : InputBox) : Event → InputBox
  | .changeValue value =>
    if b.disposed then b else { b with picker := onDidChangeValue labels b.picker value }
  | .accept activeItems => if b.disposed then b else b.onDidAccept activeItems

/-- The call up to `picker.show()`. -/
def init : InputBox := ⟨showInputBoxWithSuggestions labels, false, none⟩

/-- The call after a trace of events. -/
def run (tr : List Event) : InputBox := tr.foldl (step labels) (init labels)

/-- The texts of the edits before the first accept (no source counterpart). -/
def edits : List Event → List String
  | [] => []
  | .changeValue value :: tr => value :: edits tr
  | .accept _ :: _ => []

/-- The active items of the first accept (no source counterpart). -/
def firstAccept : List Event → Option (List String)
  | [] => none
  | .changeValue _ :: tr => firstAccept tr
  | .accept activeItems :: _ => some activeItems

/-- vscode makes active only items the picker has. -/
def Allows (b : InputBox) : Event → Prop
  | .changeValue _ => True
  | .accept activeItems => ∀ x ∈ activeItems, x ∈ b.picker.items

/-- A trace in which every accept has active items of the picker. -/
def Admissible : InputBox → List Event → Prop
  | _, [] => True
  | b, e :: tr => b.Allows e ∧ Admissible (b.step labels e) tr

theorem foldl_step_of_disposed {b : InputBox} (hd : b.disposed = true) (tr : List Event) :
    tr.foldl (step labels) b = b := by
  induction tr with
  | nil => rfl
  | cons e tr ih => cases e <;> simpa [step, hd] using ih

/-- From an open picker, a trace edits the text until its first accept, which disposes the
    picker and settles the promise by the first active item; the rest changes nothing. -/
theorem foldl_step {b : InputBox} (hd : b.disposed = false) (tr : List Event) :
    tr.foldl (step labels) b =
      ⟨(edits tr).foldl (onDidChangeValue labels) b.picker, (firstAccept tr).isSome,
        ((firstAccept tr).map List.head?).getD b.resolved⟩ := by
  induction tr generalizing b with
  | nil => cases b; cases hd; rfl
  | cons e tr ih =>
    cases e with
    | changeValue value =>
      rw [List.foldl_cons, step, if_neg (by simp [hd])]
      exact ih (b := { b with picker := onDidChangeValue labels b.picker value }) hd
    | accept activeItems =>
      simp [step, hd, onDidAccept, edits, firstAccept, foldl_step_of_disposed]

theorem allows_of_admissible {b : InputBox} (hd : b.disposed = false) {tr : List Event}
    (ha : Admissible labels b tr) {activeItems : List String}
    (hf : firstAccept tr = some activeItems) :
    ∀ x ∈ activeItems, x ∈ ((edits tr).foldl (onDidChangeValue labels) b.picker).items := by
  induction tr generalizing b with
  | nil => cases hf
  | cons e tr ih =>
    cases e with
    | changeValue value =>
      simpa [step, hd, edits] using ih (b := b.step labels (.changeValue value)) (by simp [step, hd]) ha.2 hf
    | accept a => cases hf; exact ha.1

/-- Along every trace in which vscode makes active only items of the picker, the promise settles
    with a suggested host or with the last text typed before the accept that is not one. -/
theorem resolved_mem (tr : List Event) (ha : Admissible labels (init labels) tr) (host : String)
    (hr : (run labels tr).resolved = some host) :
    host ∈ labels ∨ lastTyped labels (edits tr) = some host := by
  rw [run, foldl_step labels rfl] at hr
  obtain ⟨activeItems, hf, hh⟩ : ∃ a, firstAccept tr = some a ∧ a.head? = some host := by
    cases h : firstAccept tr <;> simp_all [init]
  have hm : host ∈ (typed labels (edits tr)).items :=
    allows_of_admissible labels rfl ha hf host (List.mem_of_mem_head? hh)
  rw [typed_items_eq] at hm
  rcases List.mem_append.1 hm with h | h
  · exact .inr (by simpa using h)
  · exact .inl h

theorem resolved_mem_typed :
    Admissible ["dut1"] (init ["dut1"]) [.changeValue "dut", .changeValue "dut2", .accept ["dut2"]] ∧
      (run ["dut1"] [.changeValue "dut", .changeValue "dut2", .accept ["dut2"]]).resolved =
        some "dut2" ∧
      ("dut2" ∈ ["dut1"] ∨
        lastTyped ["dut1"] (edits [.changeValue "dut", .changeValue "dut2", .accept ["dut2"]]) =
          some "dut2") :=
  have ha : Admissible ["dut1"] (init ["dut1"])
      [.changeValue "dut", .changeValue "dut2", .accept ["dut2"]] := by
    simp [Admissible, Allows, step, init, showInputBoxWithSuggestions, onDidChangeValue]
  have hr : (run ["dut1"] [.changeValue "dut", .changeValue "dut2", .accept ["dut2"]]).resolved =
      some "dut2" := by
    simp [run, step, init, onDidAccept]
  ⟨ha, hr, resolved_mem ["dut1"] _ ha "dut2" hr⟩

/- With no suggested host, an accept before any edit finds no active item: the picker is
   disposed, and whatever follows, the promise never settles. -/
example : (run [] [.accept [], .changeValue "dut1", .accept ["dut1"]]) =
    ⟨⟨"", []⟩, true, none⟩ := by
  decide

end InputBox

end Picker

end CrosIde.DeviceManagement
