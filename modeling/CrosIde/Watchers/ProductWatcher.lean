import CrosIde.Misc.JsMap

/-!
# `ProductWatcher`

`ProductWatcher` of `watchers/product/watcher.ts`: the map `rootCount` from a product root to
the number of workspace folders under it, and the selected `root`, kept up to date by `add`
and `remove` as workspace folders come and go. Both await `productRoot` once per folder; the
part of a loop iteration after that `await` is one step, `addFolder` or `removeFolder`.
`productRoot` (`chromiumRoot` and `chromiumosRoot`, absent from the sources) is a parameter,
with `none` for a falsy result.

Calls made one at a time are `add` and `remove`. Handlers of `onDidChangeWorkspaceFolders`
(`watcher.ts:46-53`) that overlap at their `await`s are the event system of the last section.
-/

namespace CrosIde.Watchers

/-- A `ProductWatcher` (`watcher.ts:19-42`): the fields `add` and `remove` read and write, and
    the values fired on `onDidChangeRoot`, in order. -/
structure ProductWatcher (ρ : Type) where
  root : Option ρ
  /-- `rootCount`, its entries in insertion order. -/
  rootCount : List (ρ × Nat)
  shownMultipleRootsError : Bool
  fired : List (Option ρ)
  deriving DecidableEq, Repr

namespace ProductWatcher

variable {ρ : Type}

/-- A fresh `ProductWatcher`. -/
def init : ProductWatcher ρ := ⟨none, [], false, []⟩

/-- What holds in every run, however calls overlap: the keys of `rootCount` are distinct and
    its counts positive; `root` is unset exactly when `rootCount` is empty, and is otherwise
    one of its keys. -/
structure WF (w : ProductWatcher ρ) : Prop where
  nodup : (w.rootCount.map Prod.fst).Nodup
  pos : ∀ p ∈ w.rootCount, 0 < p.2
  root_none : w.root = none ↔ w.rootCount = []
  root_mem : ∀ r, w.root = some r → r ∈ w.rootCount.map Prod.fst

theorem wf_init : (init : ProductWatcher ρ).WF := ⟨by simp [init], by simp [init], by simp [init],
  by simp [init]⟩

variable [DecidableEq ρ]

/-- The loop body of `add` (`watcher.ts:97-133`) after `await this.productRoot(folder.uri)`
    has yielded `root`. -/
def addFolder (w : ProductWatcher ρ) : Option ρ → ProductWatcher ρ
  | none => w
  | some root =>
    let w := { w with
      rootCount := mapSet w.rootCount root ((w.rootCount.lookup root).getD 0 + 1) }
    match w.root with
    | none => { w with root := some root }
    | some r =>
      if r = root then w
      else if w.shownMultipleRootsError then w
      else { w with shownMultipleRootsError := true }

/-- `this.rootCount.delete(root)` and the rest of the loop body of `remove`
    (`watcher.ts:152-161`). -/
def dropRoot (w : ProductWatcher ρ) (root : ρ) : ProductWatcher ρ :=
  if w.root ≠ some root then { w with rootCount := mapDelete w.rootCount root }
  else
    match mapDelete w.rootCount root with
    | [] => { w with rootCount := [], root := none }
    | (k, v) :: rest => { w with rootCount := (k, v) :: rest, root := some k }

/-- The loop body of `remove` (`watcher.ts:143-161`) after `await this.productRoot(folder.uri)`
    has yielded `root`; `count > 1` is false for an absent count. -/
def removeFolder (w : ProductWatcher ρ) : Option ρ → ProductWatcher ρ
  | none => w
  | some root =>
    match w.rootCount.lookup root with
    | some count =>
      if 1 < count then { w with rootCount := mapSet w.rootCount root (count - 1) }
      else w.dropRoot root
    | none => w.dropRoot root

/-- The end of `add` and `remove` (`watcher.ts:135-137, 165-167`): fire `root` if it differs
    from `prevRoot`. -/
def fire (w : ProductWatcher ρ) (prevRoot : Option ρ) : ProductWatcher ρ :=
  if prevRoot ≠ w.root then { w with fired := w.fired ++ [w.root] } else w

@[simp] theorem fire_root (w : ProductWatcher ρ) (p : Option ρ) : (w.fire p).root = w.root := by
  unfold fire; split <;> rfl
@[simp] theorem fire_rootCount (w : ProductWatcher ρ) (p : Option ρ) :
    (w.fire p).rootCount = w.rootCount := by
  unfold fire; split <;> rfl

theorem fire_fired (w : ProductWatcher ρ) (p : Option ρ) :
    (w.fire p).fired = w.fired ++ if p ≠ w.root then [w.root] else [] := by
  unfold fire; split <;> simp_all

theorem fire_self (w : ProductWatcher ρ) : w.fire w.root = w := by simp [fire]

theorem addFolder_rootCount (w : ProductWatcher ρ) (root : ρ) :
    (w.addFolder (some root)).rootCount =
      mapSet w.rootCount root ((w.rootCount.lookup root).getD 0 + 1) := by
  simp only [addFolder]; split <;> [rfl; split <;> [rfl; split <;> rfl]]

@[simp] theorem addFolder_fired (w : ProductWatcher ρ) (x : Option ρ) :
    (w.addFolder x).fired = w.fired := by
  unfold addFolder; split <;> [rfl; (simp only; split <;> [rfl; split <;> [rfl; split <;> rfl]])]

theorem dropRoot_rootCount (w : ProductWatcher ρ) (root : ρ) :
    (w.dropRoot root).rootCount = mapDelete w.rootCount root := by
  unfold dropRoot; split <;> [rfl; split <;> simp_all]

@[simp] theorem removeFolder_fired (w : ProductWatcher ρ) (x : Option ρ) :
    (w.removeFolder x).fired = w.fired := by
  unfold removeFolder dropRoot; repeat (first | rfl | split)

theorem addFolder_root (w : ProductWatcher ρ) (root : ρ) :
    (w.addFolder (some root)).root = some (w.root.getD root) := by
  simp only [addFolder]; split <;> [simp_all; split <;> [simp_all; split <;> simp_all]]

variable {w : ProductWatcher ρ}

theorem WF.addFolder (hw : w.WF) : ∀ x, (w.addFolder x).WF
  | none => hw
  | some root => by
    have hk : ∀ r, r ∈ (w.addFolder (some root)).rootCount.map Prod.fst ↔
        r = root ∨ r ∈ w.rootCount.map Prod.fst := fun r => by
      rw [addFolder_rootCount, mem_keys_mapSet]
    refine ⟨by rw [addFolder_rootCount]; exact nodup_mapSet hw.nodup _ _, fun p hp => ?_, ?_,
      fun r hr => ?_⟩
    · rw [addFolder_rootCount] at hp
      rcases mem_mapSet hp with hp | rfl
      · exact hw.pos p hp
      · exact Nat.succ_pos _
    · refine ⟨by simp [addFolder_root], fun h => ?_⟩
      have := (hk root).2 (.inl rfl)
      rw [h] at this; simp at this
    · rw [addFolder_root, Option.some.injEq] at hr
      subst hr
      cases hwr : w.root with
      | none => exact (hk _).2 (.inl rfl)
      | some r => exact (hk _).2 (.inr (hw.root_mem r hwr))

theorem WF.dropRoot (hw : w.WF) (root : ρ) : (w.dropRoot root).WF := by
  have hnd : ((mapDelete w.rootCount root).map Prod.fst).Nodup := by
    rw [keys_mapDelete]; exact hw.nodup.erase root
  have hpos : ∀ p ∈ mapDelete w.rootCount root, 0 < p.2 := fun p hp =>
    hw.pos p ((mapDelete_sublist _ _).subset hp)
  unfold ProductWatcher.dropRoot
  split
  · next hne =>
    have hmem : ∀ r, w.root = some r → r ∈ (mapDelete w.rootCount root).map Prod.fst :=
      fun r hr => by
        rw [keys_mapDelete, hw.nodup.mem_erase_iff]
        exact ⟨fun e => hne (e ▸ hr), hw.root_mem r hr⟩
    refine ⟨hnd, hpos, ⟨fun h => ?_, fun h => ?_⟩, hmem⟩
    · simp [hw.root_none.1 h, mapDelete]
    · cases hwr : w.root with
      | none => rfl
      | some r => have := hmem r hwr; simp only at h; simp [h] at this
  · split
    · exact ⟨by simp, by simp, by simp, by simp⟩
    · next k v rest h =>
      rw [h] at hnd hpos
      exact ⟨hnd, hpos, by simp, fun r hr => by simp at hr; simp [hr]⟩

theorem WF.removeFolder (hw : w.WF) : ∀ x, (w.removeFolder x).WF
  | none => hw
  | some root => by
    simp only [ProductWatcher.removeFolder]
    split
    · next c hc =>
      split
      · next hlt =>
        have hkeys : (mapSet w.rootCount root (c - 1)).map Prod.fst = w.rootCount.map Prod.fst := by
          rw [keys_mapSet, if_pos (List.mem_map_of_mem Prod.fst (mem_of_lookup hc))]
        refine ⟨by simp only; rw [hkeys]; exact hw.nodup, fun p hp => ?_, ?_, fun r hr => ?_⟩
        · rcases mem_mapSet hp with hp | rfl
          · exact hw.pos p hp
          · simp only; omega
        · simp only
          rw [hw.root_none, ← List.map_eq_nil_iff (f := Prod.fst), ← hkeys, List.map_eq_nil_iff]
        · simp only; rw [hkeys]; exact hw.root_mem r hr
      · exact hw.dropRoot root
    · exact hw.dropRoot root

theorem WF.fire (hw : w.WF) (p : Option ρ) : (w.fire p).WF := by
  unfold ProductWatcher.fire; split
  · exact ⟨hw.nodup, hw.pos, hw.root_none, hw.root_mem⟩
  · exact hw

/-! ## Calls made one at a time -/

variable {φ : Type} (productRoot : φ → Option ρ)

/-- `add(folders)` (`watcher.ts:93-137`) run to its end with no other call in between. -/
def add (w : ProductWatcher ρ) (folders : List φ) : ProductWatcher ρ :=
  (folders.foldl (fun w f => w.addFolder (productRoot f)) w).fire w.root

/-- `remove(folders)` (`watcher.ts:139-169`) run to its end with no other call in between. -/
def remove (w : ProductWatcher ρ) (folders : List φ) : ProductWatcher ρ :=
  (folders.foldl (fun w f => w.removeFolder (productRoot f)) w).fire w.root

/-- `rootCount` holds, for each product root, the number of `folders` under it. -/
def Counts (w : ProductWatcher ρ) (folders : List φ) : Prop :=
  ∀ r, (w.rootCount.lookup r).getD 0 = folders.countP fun f => productRoot f = some r

variable {productRoot}

theorem Counts.addFolder {fs : List φ} (h : w.Counts productRoot fs) (f : φ) :
    (w.addFolder (productRoot f)).Counts productRoot (fs ++ [f]) := fun r => by
  rw [List.countP_append, ← h r]
  cases hf : productRoot f with
  | none => simp [hf, ProductWatcher.addFolder]
  | some root =>
    rw [addFolder_rootCount, lookup_mapSet]
    by_cases hr : r = root
    · subst hr; simp [hf]
    · simp [hr, hf, Ne.symm hr]

/-- What `removeFolder` does to the count of a root it finds. -/
theorem removeFolder_lookup (hw : w.WF) {root : ρ} {c : Nat}
    (hc : w.rootCount.lookup root = some c) (r : ρ) :
    (w.removeFolder (some root)).rootCount.lookup r =
      if r = root then (if 1 < c then some (c - 1) else none) else w.rootCount.lookup r := by
  by_cases h1 : 1 < c <;>
    simp [ProductWatcher.removeFolder, hc, h1, lookup_mapSet, dropRoot_rootCount,
      lookup_mapDelete hw.nodup]

theorem counts_init : (init : ProductWatcher ρ).Counts productRoot ([] : List φ) := fun r => by
  simp [init]

theorem Counts.fire {opened : List φ} (h : w.Counts productRoot opened) (p : Option ρ) :
    (w.fire p).Counts productRoot opened := fun r => by
  rw [fire_rootCount]; exact h r

/-- Counting the open folders under each product root, `root` is the product root of an open
    folder. -/
theorem Counts.exists_of_root {fs : List φ} (hw : w.WF) (h : w.Counts productRoot fs) {r : ρ}
    (hr : w.root = some r) : ∃ f ∈ fs, productRoot f = some r := by
  obtain ⟨p, hp, rfl⟩ := List.mem_map.1 (hw.root_mem r hr)
  cases hl : w.rootCount.lookup p.1 with
  | none => simp only [List.lookup_eq_none_iff] at hl; simpa using hl p hp
  | some c =>
    have hc : 0 < fs.countP fun f => productRoot f = some p.1 := by
      rw [← h p.1, hl]; exact hw.pos _ (mem_of_lookup hl)
    simpa using hc

/-- Counting the open folders under each product root, `root` is unset exactly when no open
    folder has a product root. -/
theorem Counts.root_eq_none {fs : List φ} (hw : w.WF) (h : w.Counts productRoot fs) :
    w.root = none ↔ ∀ f ∈ fs, productRoot f = none := by
  constructor
  · intro hn f hf
    cases hpf : productRoot f with
    | none => rfl
    | some r =>
      have hz := h r
      simp only [hw.root_none.1 hn, List.lookup_nil, Option.getD_none] at hz
      have hne := List.countP_eq_zero.1 hz.symm f hf
      simp [hpf] at hne
  · intro hall
    cases hr : w.root with
    | none => rfl
    | some r =>
      obtain ⟨f, hf, hpf⟩ := h.exists_of_root hw hr
      simp [hall f hf] at hpf

theorem foldl_addFolder : ∀ (fs : List φ) {w : ProductWatcher ρ} {opened : List φ},
    w.WF → w.Counts productRoot opened →
      (fs.foldl (fun w f => w.addFolder (productRoot f)) w).WF ∧
      (fs.foldl (fun w f => w.addFolder (productRoot f)) w).Counts productRoot (opened ++ fs)
  | [], _, _, hw, h => ⟨hw, by simpa using h⟩
  | f :: fs, _, _, hw, h => by
    simpa using foldl_addFolder fs (hw.addFolder (productRoot f)) (h.addFolder f)

theorem foldl_addFolder_fired (w : ProductWatcher ρ) :
    ∀ fs : List φ, (fs.foldl (fun w f => w.addFolder (productRoot f)) w).fired = w.fired
  | [] => rfl
  | f :: fs => by simp [foldl_addFolder_fired _ fs]

theorem foldl_removeFolder_fired (w : ProductWatcher ρ) :
    ∀ fs : List φ, (fs.foldl (fun w f => w.removeFolder (productRoot f)) w).fired = w.fired
  | [] => rfl
  | f :: fs => by simp [foldl_removeFolder_fired _ fs]

variable (productRoot)

/-- A call of `add` or `remove`, made while no other call is in progress. -/
inductive Call (φ : Type) where
  | add (folders : List φ)
  | remove (folders : List φ)
  deriving DecidableEq, Repr

/-- The state after a call. -/
def call (w : ProductWatcher ρ) : Call φ → ProductWatcher ρ
  | .add fs => w.add productRoot fs
  | .remove fs => w.remove productRoot fs

variable {productRoot}

/-- A call fires `onDidChangeRoot` once, with the new root, exactly when it changes `root`. -/
theorem call_fired (w : ProductWatcher ρ) (c : Call φ) :
    (call productRoot w c).fired =
      w.fired ++ if w.root ≠ (call productRoot w c).root then [(call productRoot w c).root]
        else [] := by
  cases c <;> simp [call, add, remove, fire_fired, foldl_addFolder_fired, foldl_removeFolder_fired]

variable [DecidableEq φ]

theorem Counts.removeFolder {fs : List φ} (hw : w.WF) (h : w.Counts productRoot fs) {f : φ}
    (hf : f ∈ fs) : (w.removeFolder (productRoot f)).Counts productRoot (fs.erase f) := fun r => by
  have hc : ∀ r, fs.countP (fun g => productRoot g = some r) =
      (fs.erase f).countP (fun g => productRoot g = some r) +
        if productRoot f = some r then 1 else 0 := fun r => by
    rw [(List.perm_cons_erase hf).countP_eq, List.countP_cons]; simp
  cases hpf : productRoot f with
  | none =>
    rw [show w.removeFolder none = w from rfl, h r, hc r, hpf]; simp
  | some root =>
    have hroot := hc root
    rw [← h root, hpf, if_pos rfl] at hroot
    cases hlk : w.rootCount.lookup root with
    | none => simp [hlk] at hroot
    | some c =>
      rw [hlk, Option.getD_some] at hroot
      rw [removeFolder_lookup hw hlk]
      by_cases hr : r = root
      · subst hr
        rw [if_pos rfl]
        split <;> simp <;> omega
      · rw [if_neg hr, h r, hc r, hpf]; simp [Ne.symm hr]

/-- Every folder removed is open at its turn: it was added before and not yet removed. -/
def Removable : List φ → List φ → Prop
  | _, [] => True
  | opened, f :: fs => f ∈ opened ∧ Removable (opened.erase f) fs

instance decRemovable : ∀ opened fs : List φ, Decidable (Removable opened fs)
  | _, [] => isTrue trivial
  | opened, f :: fs =>
    haveI := decRemovable (opened.erase f) fs
    inferInstanceAs (Decidable (f ∈ opened ∧ Removable (opened.erase f) fs))

theorem foldl_removeFolder : ∀ (fs : List φ) {w : ProductWatcher ρ} {opened : List φ},
    w.WF → w.Counts productRoot opened → Removable opened fs →
      (fs.foldl (fun w f => w.removeFolder (productRoot f)) w).WF ∧
      (fs.foldl (fun w f => w.removeFolder (productRoot f)) w).Counts productRoot
        (fs.foldl List.erase opened)
  | [], _, _, hw, h, _ => ⟨hw, h⟩
  | f :: fs, _, _, hw, h, ⟨hf, hr⟩ =>
    foldl_removeFolder fs (hw.removeFolder (productRoot f)) (h.removeFolder hw hf) hr

variable (productRoot)

/-- The open folders after a call. -/
def Call.next (opened : List φ) : Call φ → List φ
  | .add fs => opened ++ fs
  | .remove fs => fs.foldl List.erase opened

/-- Every folder that a sequence of calls removes was added before and not yet removed. -/
def Valid : List φ → List (Call φ) → Prop
  | _, [] => True
  | opened, .add fs :: cs => Valid (opened ++ fs) cs
  | opened, .remove fs :: cs => Removable opened fs ∧ Valid (fs.foldl List.erase opened) cs

instance decValid : ∀ (opened : List φ) (cs : List (Call φ)), Decidable (Valid opened cs)
  | _, [] => isTrue trivial
  | opened, .add fs :: cs => decValid (opened ++ fs) cs
  | opened, .remove fs :: cs =>
    haveI := decValid (fs.foldl List.erase opened) cs
    inferInstanceAs (Decidable (Removable opened fs ∧ _))

/-- The watcher after a sequence of calls. -/
def runCalls (calls : List (Call φ)) : ProductWatcher ρ := calls.foldl (call productRoot) init

/-- The folders open after a sequence of calls. -/
def opened (calls : List (Call φ)) : List φ := calls.foldl Call.next []

variable {productRoot}

theorem calls_counts : ∀ (calls : List (Call φ)) {w : ProductWatcher ρ} {opened : List φ},
    w.WF → w.Counts productRoot opened → Valid opened calls →
      (calls.foldl (call productRoot) w).WF ∧
      (calls.foldl (call productRoot) w).Counts productRoot (calls.foldl Call.next opened)
  | [], _, _, hw, h, _ => ⟨hw, h⟩
  | .add fs :: cs, _, _, hw, h, hv => by
    obtain ⟨hw', h'⟩ := foldl_addFolder fs hw h
    exact calls_counts cs (hw'.fire _) (h'.fire _) hv
  | .remove fs :: cs, _, _, hw, h, ⟨hr, hv⟩ => by
    obtain ⟨hw', h'⟩ := foldl_removeFolder fs hw h hr
    exact calls_counts cs (hw'.fire _) (h'.fire _) hv

theorem runCalls_counts {calls : List (Call φ)} (hv : Valid [] calls) :
    (runCalls productRoot calls).WF ∧
      (runCalls productRoot calls).Counts productRoot (opened calls) :=
  calls_counts calls wf_init counts_init hv

/-- After each of a sequence of `add` and `remove` calls made one at a time, every removed
    folder added before and not yet removed: `rootCount` maps each product root to the number
    of open folders under it, with no zero entry; `root` is unset exactly when `rootCount` is
    empty, and is otherwise one of its keys; and the next call fires `onDidChangeRoot` once,
    with the new root, exactly when it changes `root`. -/
theorem calls_invariant (calls : List (Call φ)) (hv : Valid [] calls) :
    (∀ r, (runCalls productRoot calls).rootCount.lookup r =
      if (opened calls).countP (fun f => productRoot f = some r) = 0 then none
      else some ((opened calls).countP fun f => productRoot f = some r)) ∧
    (∀ p ∈ (runCalls productRoot calls).rootCount, 0 < p.2) ∧
    ((runCalls productRoot calls).root = none ↔ (runCalls productRoot calls).rootCount = []) ∧
    (∀ r, (runCalls productRoot calls).root = some r →
      r ∈ (runCalls productRoot calls).rootCount.map Prod.fst) ∧
    ∀ c : Call φ, (runCalls productRoot (calls ++ [c])).fired =
      (runCalls productRoot calls).fired ++
        if (runCalls productRoot calls).root ≠ (runCalls productRoot (calls ++ [c])).root
        then [(runCalls productRoot (calls ++ [c])).root] else [] := by
  obtain ⟨hw, h⟩ : (runCalls productRoot calls).WF ∧ _ := runCalls_counts hv
  refine ⟨fun r => ?_, hw.pos, hw.root_none, hw.root_mem, fun c => ?_⟩
  · rw [← h r]
    cases hl : (runCalls productRoot calls).rootCount.lookup r with
    | none => rfl
    | some n => simp [Nat.pos_iff_ne_zero.1 (hw.pos _ (mem_of_lookup hl))]
  · simp only [runCalls, List.foldl_append, List.foldl_cons, List.foldl_nil]
    exact call_fired _ c

/-- Folders `0` and `1` under root `0` and folder `2` under none: add all three, then remove
    `1`. -/
theorem calls_invariant_two_folders :
    Valid [] [Call.add [0, 1, 2], .remove [1]] ∧
      (runCalls (fun f : Nat => if f < 2 then some (0 : Nat) else none)
        [Call.add [0, 1, 2], .remove [1]]).rootCount.lookup 0 = some 1 := by
  exact ⟨by decide, ((calls_invariant _ (by decide)).1 0).trans (by decide)⟩

end ProductWatcher

/-! ## Handlers that overlap -/

/-- Where a handler of `onDidChangeWorkspaceFolders` (`watcher.ts:46-53`) is suspended. -/
inductive Phase (φ ρ : Type) where
  /-- `add` awaits `productRoot` of the first of `folders`; `remove(removed)` is to follow. -/
  | adding (folders : List φ) (prevRoot : Option ρ) (removed : List φ)
  /-- `await this.add(e.added)` is to resume, and then to call `remove(removed)`. -/
  | added (removed : List φ)
  /-- `remove` awaits `productRoot` of the first of `folders`. -/
  | removing (folders : List φ) (prevRoot : Option ρ)
  /-- The handler has returned. -/
  | done
  deriving DecidableEq, Repr

/-- The workspace folders, and a `ProductWatcher` with its handlers in flight. -/
structure Workspace (φ ρ : Type) where
  watcher : ProductWatcher ρ
  /-- `vscode.workspace.workspaceFolders`. -/
  folders : List φ
  /-- The handler started by each change of the workspace folders, in order. -/
  handlers : List (Phase φ ρ)
  deriving DecidableEq, Repr

namespace Workspace

variable {φ ρ : Type} [DecidableEq ρ] (productRoot : φ → Option ρ)

/-- An event of a run. -/
inductive Event (φ : Type) where
  /-- The workspace folders change (`onDidChangeWorkspaceFolders`), or the `setImmediate`
      callback of the constructor adds the first ones (`watcher.ts:72-76`). -/
  | change (added removed : List φ)
  /-- The `await` at which handler `h` is suspended resumes. -/
  | resume (h : Nat)

/-- A handler from its start to its first `await` (`watcher.ts:47-52`): the call of `add` or
    of `remove` takes `prevRoot`. -/
def start (w : ProductWatcher ρ) (added removed : List φ) : Phase φ ρ :=
  if 0 < added.length then .adding added w.root removed
  else if 0 < removed.length then .removing removed w.root
  else .done

/-- A handler resumes and runs to its next `await`, or returns. -/
def resumePhase (w : ProductWatcher ρ) : Phase φ ρ → ProductWatcher ρ × Phase φ ρ
  | .adding (f :: fs) prevRoot removed =>
    match fs with
    | [] => ((w.addFolder (productRoot f)).fire prevRoot, .added removed)
    | _ => (w.addFolder (productRoot f), .adding fs prevRoot removed)
  | .added removed => (w, if 0 < removed.length then .removing removed w.root else .done)
  | .removing (f :: fs) prevRoot =>
    match fs with
    | [] => ((w.removeFolder (productRoot f)).fire prevRoot, .done)
    | _ => (w.removeFolder (productRoot f), .removing fs prevRoot)
  | p => (w, p)

variable {productRoot}

theorem wf_resumePhase {w : ProductWatcher ρ} (hw : w.WF) :
    ∀ p : Phase φ ρ, (resumePhase productRoot w p).1.WF
  | .adding [] _ _ | .removing [] _ | .done => hw
  | .adding [_] _ _ => (hw.addFolder _).fire _
  | .adding (_ :: _ :: _) _ _ => hw.addFolder _
  | .added _ => hw
  | .removing [_] _ => (hw.removeFolder _).fire _
  | .removing (_ :: _ :: _) _ => hw.removeFolder _

variable (productRoot)

/-- The calls an event makes, one after the other (`watcher.ts:47-52`): an empty `add` or
    `remove` changes nothing. -/
def Event.calls : Event φ → List (ProductWatcher.Call φ)
  | .change added removed => [.add added, .remove removed]
  | .resume _ => []

/-- The watcher once a handler suspended at `p` has run to its end, no other handler running
    meanwhile. -/
def complete (w : ProductWatcher ρ) : Phase φ ρ → ProductWatcher ρ
  | .adding fs prevRoot removed =>
    ((fs.foldl (fun w f => w.addFolder (productRoot f)) w).fire prevRoot).remove productRoot
      removed
  | .added removed => w.remove productRoot removed
  | .removing fs prevRoot =>
    (fs.foldl (fun w f => w.removeFolder (productRoot f)) w).fire prevRoot
  | .done => w

/-- The handler still in flight, if any: the last one. -/
def inFlight (s : Workspace φ ρ) : Phase φ ρ := s.handlers.getLast?.getD .done

variable {productRoot}

/-- Resuming a handler does not change where it ends. -/
theorem complete_resumePhase (w : ProductWatcher ρ) : ∀ p : Phase φ ρ,
    complete productRoot (resumePhase productRoot w p).1 (resumePhase productRoot w p).2 =
      complete productRoot w p
  | .adding [] _ _ | .removing [] _ | .done => rfl
  | .adding [_] _ _ | .adding (_ :: _ :: _) _ _ => rfl
  | .removing [_] _ | .removing (_ :: _ :: _) _ => rfl
  | .added [] => (ProductWatcher.fire_self w).symm
  | .added (_ :: _) => by simp [resumePhase, complete, ProductWatcher.remove]

/-- A handler started on `w` ends where `add(added)` and then `remove(removed)` do. -/
theorem complete_start (w : ProductWatcher ρ) (added removed : List φ) :
    complete productRoot w (start w added removed) =
      (w.add productRoot added).remove productRoot removed := by
  cases added with
  | cons f fs => simp [start, complete, ProductWatcher.add]
  | nil =>
    cases removed with
    | nil =>
      simp [start, complete, ProductWatcher.add, ProductWatcher.remove, ProductWatcher.fire_self]
    | cons f fs => simp [start, complete, ProductWatcher.add, ProductWatcher.fire_self]; rfl

omit [DecidableEq ρ] in
theorem inFlight_of_done {s : Workspace φ ρ} (h : ∀ p ∈ s.handlers, p = .done) :
    inFlight s = .done := by
  cases hl : s.handlers.getLast? with
  | none => simp [inFlight, hl]
  | some p => simp [inFlight, hl, h p (List.mem_of_getLast?_eq_some hl)]

variable (productRoot) [DecidableEq φ]

/-- One event of a run. -/
def step (s : Workspace φ ρ) : Event φ → Workspace φ ρ
  | .change added removed =>
    { s with
      folders := removed.foldl List.erase (s.folders ++ added),
      handlers := s.handlers ++ [start s.watcher added removed] }
  | .resume h =>
    match s.handlers[h]? with
    | some p =>
      { s with
        watcher := (resumePhase productRoot s.watcher p).1,
        handlers := s.handlers.set h (resumePhase productRoot s.watcher p).2 }
    | none => s

/-- No folder and no handler yet. -/
def init : Workspace φ ρ := ⟨ProductWatcher.init, [], []⟩

/-- The state after a trace of events. -/
def run (tr : List (Event φ)) : Workspace φ ρ := tr.foldl (step productRoot) init

variable {productRoot}

theorem run_snoc (tr : List (Event φ)) (e : Event φ) :
    run productRoot (tr ++ [e]) = step productRoot (run productRoot tr) e := by
  simp [run]

/-- However the handlers interleave, the keys of `rootCount` are distinct and its counts
    positive, and `root` is unset exactly when `rootCount` is empty and otherwise one of its
    keys. -/
theorem wf_run (tr : List (Event φ)) : (run productRoot tr).watcher.WF := by
  induction tr using List.reverseRecOn with
  | nil => exact ProductWatcher.wf_init
  | append_singleton tr e ih =>
    rw [run_snoc]
    cases e with
    | change added removed => exact ih
    | resume h =>
      simp only [step]
      split
      · exact wf_resumePhase ih _
      · exact ih

/-- Folder `0`, under root `0`, is added and then removed before either handler resumes, and
    the `productRoot` of the removal resolves first. Both handlers complete with no folder
    open, and `root` is still `0`. -/
theorem root_without_open_folder :
    let s : Workspace Nat Nat := run (fun _ => some 0)
      [.change [0] [], .change [] [0], .resume 1, .resume 0, .resume 0]
    s.handlers = [.done, .done] ∧ s.folders = [] ∧ s.watcher.root = some 0 ∧
      s.watcher.rootCount = [(0, 1)] := by
  decide

/-! ## Handlers that do not overlap -/

open ProductWatcher

private theorem set_of_getElem? {α : Type} {l : List α} {i : Nat} {a : α} (h : l[i]? = some a) :
    l.set i a = l :=
  List.ext_getElem? fun j => by
    by_cases hj : i = j
    · subst hj; rw [List.getElem?_set_self (List.getElem?_eq_some_iff.1 h).1, h]
    · rw [List.getElem?_set_ne hj]

/-- Resuming a handler that has returned, or one that was never started, changes nothing. -/
theorem step_resume_done {s : Workspace φ ρ} {h : Nat}
    (hh : s.handlers[h]? = some .done ∨ s.handlers[h]? = none) :
    step productRoot s (.resume h) = s := by
  rcases hh with hh | hh
  · simp only [step, hh, resumePhase, set_of_getElem? hh]
  · simp only [step, hh]

variable (productRoot)

/-- A trace in which the workspace folders change only while no handler is in flight. -/
def Serial (tr : List (Event φ)) : Prop :=
  ∀ pre added removed post, tr = pre ++ .change added removed :: post →
    ∀ p ∈ (run productRoot pre).handlers, p = .done

variable {productRoot}

/-- In a run whose handlers never overlap, the handlers but the last have returned; the last
    ends where the calls of the events, made one at a time, leave the watcher; and the
    workspace folders are those the calls leave open. -/
theorem serial_complete (tr : List (Event φ)) (hs : Serial productRoot tr) :
    (∀ p ∈ (run productRoot tr).handlers.dropLast, p = .done) ∧
    complete productRoot (run productRoot tr).watcher (inFlight (run productRoot tr)) =
      runCalls productRoot (tr.flatMap Event.calls) ∧
    (run productRoot tr).folders = opened (tr.flatMap Event.calls) := by
  induction tr using List.reverseRecOn with
  | nil => exact ⟨by simp [run, init], rfl, rfl⟩
  | append_singleton tr e ih =>
    obtain ⟨hd, hc, hf⟩ := ih fun pre a r post h => hs pre a r (post ++ [e]) (by simp [h])
    have hq : ∀ a r, e = .change a r → ∀ p ∈ (run productRoot tr).handlers, p = .done :=
      fun a r he => hs tr a r [] (by rw [he])
    rw [run_snoc]
    generalize run productRoot tr = s at hd hc hf hq ⊢
    cases e with
    | change added removed =>
      replace hq := hq added removed rfl
      have hw : s.watcher = runCalls productRoot (tr.flatMap Event.calls) := by
        rwa [inFlight_of_done hq] at hc
      refine ⟨by simpa [step] using hq, ?_, by simp [step, hf, opened, Event.calls, Call.next]⟩
      simp [step, inFlight, complete_start, hw, runCalls, Event.calls, call]
    | resume h =>
      simp only [List.flatMap_append, Event.calls, List.flatMap_cons, List.flatMap_nil,
        List.append_nil]
      rcases List.eq_nil_or_concat' s.handlers with he | ⟨hs', p, he⟩
      · rw [step_resume_done (.inr (by simp [he]))]; exact ⟨hd, hc, hf⟩
      have hd' : ∀ q ∈ hs', q = .done := by simpa [he] using hd
      by_cases hh : h = hs'.length
      · subst hh
        have hp : s.handlers[hs'.length]? = some p := by simp [he]
        have hi : inFlight s = p := by simp [inFlight, he]
        simp only [step, hp]
        refine ⟨by simpa [he] using hd', ?_, hf⟩
        rw [← hc, hi, ← complete_resumePhase s.watcher p]
        simp [inFlight, he]
      · rw [step_resume_done ?_]
        · exact ⟨hd, hc, hf⟩
        rcases Nat.lt_or_gt_of_ne hh with hlt | hgt
        · left
          rw [he, List.getElem?_append_left hlt, List.getElem?_eq_getElem hlt,
            hd' _ (List.getElem_mem hlt)]
        · right; exact List.getElem?_eq_none (by simp [he]; omega)

/-- When the handlers never overlap and have all returned, and every folder removed was open,
    `rootCount` counts the open workspace folders under each product root, and `root` is the
    product root of an open folder, unset exactly when no open folder has one. -/
theorem serial_root (tr : List (Event φ)) (hs : Serial productRoot tr)
    (hv : Valid [] (tr.flatMap Event.calls))
    (hdone : ∀ p ∈ (run productRoot tr).handlers, p = .done) :
    (run productRoot tr).watcher.Counts productRoot (run productRoot tr).folders ∧
    ((run productRoot tr).watcher.root = none ↔
      ∀ f ∈ (run productRoot tr).folders, productRoot f = none) ∧
    ∀ r, (run productRoot tr).watcher.root = some r →
      ∃ f ∈ (run productRoot tr).folders, productRoot f = some r := by
  obtain ⟨-, hc, hf⟩ := serial_complete tr hs
  rw [inFlight_of_done hdone] at hc
  have hw : (run productRoot tr).watcher = runCalls productRoot (tr.flatMap Event.calls) := hc
  have h : (run productRoot tr).watcher.Counts productRoot (run productRoot tr).folders := by
    rw [hf, hw]; exact (runCalls_counts hv).2
  exact ⟨h, h.root_eq_none (wf_run tr), fun _ => h.exists_of_root (wf_run tr)⟩

/-! ## Handlers that overlap, each removal after its addition -/

/-- The folders whose `productRoot` has resolved in `add` (`watcher.ts:97`) and not since in
    `remove` (`watcher.ts:143`), once a handler suspended at `p` resumes. -/
def resolvedPhase (l : List φ) : Phase φ ρ → List φ
  | .adding (f :: _) _ _ => l ++ [f]
  | .removing (f :: _) _ => l.erase f
  | _ => l

/-- The removal, if any, that a handler suspended at `p` resolves next is of a folder of
    `l`. -/
def RemovesResolved (l : List φ) : Phase φ ρ → Prop
  | .removing (f :: _) _ => f ∈ l
  | _ => True

instance (l : List φ) : (p : Phase φ ρ) → Decidable (RemovesResolved l p)
  | .removing (f :: _) _ => inferInstanceAs (Decidable (f ∈ l))
  | .removing [] _ | .adding .. | .added _ | .done => isTrue trivial

theorem counts_resumePhase {w : ProductWatcher ρ} {l : List φ} (hw : w.WF)
    (hc : w.Counts productRoot l) :
    ∀ p : Phase φ ρ, RemovesResolved l p →
      (resumePhase productRoot w p).1.Counts productRoot (resolvedPhase l p)
  | .adding [] _ _, _ | .removing [] _, _ | .added _, _ | .done, _ => hc
  | .adding [f] _ _, _ => (hc.addFolder f).fire _
  | .adding (f :: _ :: _) _ _, _ => hc.addFolder f
  | .removing [_] _, hf => (hc.removeFolder hw hf).fire _
  | .removing (_ :: _ :: _) _, hf => hc.removeFolder hw hf

variable (productRoot)

/-- One event, with the folders resolved so far. -/
def stepResolved (p : Workspace φ ρ × List φ) : Event φ → Workspace φ ρ × List φ
  | .change added removed => (step productRoot p.1 (.change added removed), p.2)
  | .resume h =>
    (step productRoot p.1 (.resume h),
      match p.1.handlers[h]? with
      | some q => resolvedPhase p.2 q
      | none => p.2)

/-- The folders whose `productRoot` has resolved in `add` and not since in `remove`, after a
    trace. -/
def resolved (tr : List (Event φ)) : List φ := (tr.foldl (stepResolved productRoot) (init, [])).2

/-- Every removal resolves the `productRoot` of a folder whose addition has resolved, and no
    other removal of it since. -/
def Ordered (tr : List (Event φ)) : Prop :=
  ∀ pre h post, tr = pre ++ .resume h :: post →
    ∀ q, (run productRoot pre).handlers[h]? = some q →
      RemovesResolved (resolved productRoot pre) q

variable {productRoot}

theorem foldl_stepResolved (tr : List (Event φ)) :
    (tr.foldl (stepResolved productRoot) (init, [])).1 = run productRoot tr := by
  induction tr using List.reverseRecOn with
  | nil => rfl
  | append_singleton tr e ih =>
    rw [List.foldl_append, List.foldl_cons, List.foldl_nil, run_snoc, ← ih]
    cases e <;> rfl

theorem resolved_snoc (tr : List (Event φ)) (e : Event φ) :
    resolved productRoot (tr ++ [e]) = match e with
      | .change _ _ => resolved productRoot tr
      | .resume h =>
        match (run productRoot tr).handlers[h]? with
        | some q => resolvedPhase (resolved productRoot tr) q
        | none => resolved productRoot tr := by
  rw [resolved, List.foldl_append, List.foldl_cons, List.foldl_nil, resolved,
    ← foldl_stepResolved tr]
  cases e <;> rfl

/-- However the handlers interleave, if every removal resolves after the addition of its
    folder, `rootCount` counts, for each product root, the folders whose addition has resolved
    and whose removal has not. -/
theorem counts_of_ordered (tr : List (Event φ)) (ho : Ordered productRoot tr) :
    (run productRoot tr).watcher.Counts productRoot (resolved productRoot tr) := by
  induction tr using List.reverseRecOn with
  | nil => exact counts_init
  | append_singleton tr e ih =>
    have ih := ih fun pre h post hp => ho pre h (post ++ [e]) (by simp [hp])
    rw [run_snoc, resolved_snoc]
    cases e with
    | change added removed => exact ih
    | resume h =>
      simp only [step]
      cases hq : (run productRoot tr).handlers[h]? with
      | none => exact ih
      | some q => exact counts_resumePhase (wf_run tr) ih q (ho tr h [] rfl q hq)

/-- However the handlers interleave, if every removal resolves after the addition of its
    folder: `rootCount` counts, for each product root, the folders whose addition has resolved
    and whose removal has not; `root` is unset exactly when none of these folders has a product
    root, and is otherwise the root of one of them. -/
theorem root_of_ordered (tr : List (Event φ)) (ho : Ordered productRoot tr) :
    (run productRoot tr).watcher.Counts productRoot (resolved productRoot tr) ∧
    ((run productRoot tr).watcher.root = none ↔
      ∀ f ∈ resolved productRoot tr, productRoot f = none) ∧
    ∀ r, (run productRoot tr).watcher.root = some r →
      ∃ f ∈ resolved productRoot tr, productRoot f = some r :=
  have h := counts_of_ordered tr ho
  ⟨h, h.root_eq_none (wf_run tr), fun _ => h.exists_of_root (wf_run tr)⟩

/-! ### Once every handler has completed -/

/-- The folders a handler suspended at `p` has still to add. -/
def toAdd : Phase φ ρ → List φ
  | .adding fs _ _ => fs
  | _ => []

/-- The folders a handler suspended at `p` has still to remove. -/
def toRemove : Phase φ ρ → List φ
  | .adding _ _ removed | .added removed => removed
  | .removing fs _ => fs
  | .done => []

omit [DecidableEq ρ] [DecidableEq φ] in
theorem toAdd_start (w : ProductWatcher ρ) (added removed : List φ) :
    toAdd (start w added removed) = added := by
  cases added <;> cases removed <;> simp [start, toAdd]

omit [DecidableEq ρ] [DecidableEq φ] in
theorem toRemove_start (w : ProductWatcher ρ) (added removed : List φ) :
    toRemove (start w added removed) = removed := by
  cases added <;> cases removed <;> simp [start, toRemove]

theorem count_foldl_erase (x : φ) :
    ∀ l rs : List φ, (rs.foldl List.erase l).count x = l.count x - rs.count x
  | l, [] => by simp
  | l, r :: rs => by
    rw [List.foldl_cons, count_foldl_erase x (l.erase r) rs, List.count_erase, List.count_cons]
    omega

variable (productRoot) in
/-- A handler's resumption moves the folder it resolves from those it has still to add into
    the resolved folders, or from those it has still to remove out of them. -/
theorem count_resumePhase (w : ProductWatcher ρ) {l : List φ} (x : φ) :
    ∀ p : Phase φ ρ, RemovesResolved l p →
      (toRemove (resumePhase productRoot w p).2).count x + l.count x + (toAdd p).count x =
        (toRemove p).count x + (resolvedPhase l p).count x +
          (toAdd (resumePhase productRoot w p).2).count x
  | .adding [] _ _, _ | .removing [] _, _ | .done, _ => rfl
  | .adding [_] _ _, _ | .adding (_ :: _ :: _) _ _, _ => by
    simp [resumePhase, toAdd, toRemove, resolvedPhase, List.count_cons]; omega
  | .added removed, _ => by cases removed <;> simp [resumePhase, toAdd, toRemove, resolvedPhase]
  | .removing [f] _, hf | .removing (f :: _ :: _) _, hf => by
    have := List.count_pos_iff.2 hf
    by_cases hfx : f = x
    · subst hfx
      simp [resumePhase, toAdd, toRemove, resolvedPhase, List.count_cons, List.count_erase]; omega
    · simp [resumePhase, toAdd, toRemove, resolvedPhase, List.count_cons, List.count_erase, hfx]

private theorem count_flatMap_set {α : Type} {l : List α} {h : Nat} {a : α} (hl : l[h]? = some a)
    (b : α) (g : α → List φ) (x : φ) :
    ((l.set h b).flatMap g).count x + (g a).count x = (l.flatMap g).count x + (g b).count x := by
  obtain ⟨hlt, rfl⟩ := List.getElem?_eq_some_iff.1 hl
  have e : (l.flatMap g).count x = ((l.take h).flatMap g).count x + (g l[h]).count x +
      ((l.drop (h + 1)).flatMap g).count x := by
    conv_lhs => rw [← List.take_append_drop h l, List.drop_eq_getElem_cons hlt]
    simp only [List.flatMap_append, List.flatMap_cons, List.count_append]; omega
  rw [List.set_eq_take_append_cons_drop, if_pos hlt, e]
  simp [List.count_append]; omega

/-- Each folder is open as many times as it is resolved, counting those the handlers have still
    to add and those they have still to remove. -/
def Balanced (s : Workspace φ ρ) (l : List φ) : Prop :=
  ∀ x, s.folders.count x + (s.handlers.flatMap toRemove).count x =
    l.count x + (s.handlers.flatMap toAdd).count x

variable (productRoot)

/-- Every folder removed from the workspace was open. -/
def ValidChanges (tr : List (Event φ)) : Prop :=
  ∀ pre added removed post, tr = pre ++ .change added removed :: post →
    removed.Subperm ((run productRoot pre).folders ++ added)

variable {productRoot}

theorem balanced_of_ordered (tr : List (Event φ)) (hv : ValidChanges productRoot tr)
    (ho : Ordered productRoot tr) : Balanced (run productRoot tr) (resolved productRoot tr) := by
  induction tr using List.reverseRecOn with
  | nil => intro x; simp [run, init, resolved]
  | append_singleton tr e ih =>
    have ih := ih (fun pre a r post hp => hv pre a r (post ++ [e]) (by simp [hp]))
      fun pre h post hp => ho pre h (post ++ [e]) (by simp [hp])
    rw [run_snoc, resolved_snoc]
    intro x
    cases e with
    | change added removed =>
      have hle := (hv tr added removed [] rfl).count_le x
      have := ih x
      simp only [step, List.flatMap_append, List.flatMap_cons, List.flatMap_nil, List.append_nil,
        toAdd_start, toRemove_start, List.count_append, count_foldl_erase] at hle ⊢
      omega
    | resume h =>
      simp only [step]
      cases hq : (run productRoot tr).handlers[h]? with
      | none => exact ih x
      | some q =>
        have h1 := count_flatMap_set hq (resumePhase productRoot (run productRoot tr).watcher q).2
          toAdd x
        have h2 := count_flatMap_set hq (resumePhase productRoot (run productRoot tr).watcher q).2
          toRemove x
        have h3 := count_resumePhase productRoot (run productRoot tr).watcher x q
          (ho tr h [] rfl q hq)
        have := ih x
        simp only at h1 h2 ⊢
        omega

/-- The doc comment of `rootCount` (`watcher.ts:22-28`) as it holds when handlers overlap:
    if every folder removed was open and each removal resolves after the addition of its
    folder, then, however the handlers interleave, once every handler has completed `root` is
    unset exactly when no open folder has a product root, and is otherwise the root of an open
    folder. -/
theorem root_of_ordered_done (tr : List (Event φ)) (hv : ValidChanges productRoot tr)
    (ho : Ordered productRoot tr) (hd : ∀ p ∈ (run productRoot tr).handlers, p = .done) :
    ((run productRoot tr).watcher.root = none ↔
      ∀ f ∈ (run productRoot tr).folders, productRoot f = none) ∧
    ∀ r, (run productRoot tr).watcher.root = some r →
      ∃ f ∈ (run productRoot tr).folders, productRoot f = some r := by
  have hnil : ∀ g : Phase φ ρ → List φ, g .done = [] →
      (run productRoot tr).handlers.flatMap g = [] := fun g hg =>
    List.flatMap_eq_nil_iff.2 fun p hp => hd p hp ▸ hg
  have hperm : (run productRoot tr).folders.Perm (resolved productRoot tr) :=
    List.perm_iff_count.2 fun x => by
      simpa [hnil toAdd rfl, hnil toRemove rfl] using balanced_of_ordered tr hv ho x
  obtain ⟨-, hn, hs⟩ := root_of_ordered tr ho
  exact ⟨hn.trans (by simp only [hperm.mem_iff]), fun r h => by
    simpa only [hperm.mem_iff] using hs r h⟩

/-- The doc comment of `rootCount` (`watcher.ts:22-28`) once every handler has returned: `root`
    is unset exactly when no open folder has a product root, and is otherwise the root of an
    open folder, both when the handlers never overlapped, every folder removed being open (and
    then `rootCount` counts the open folders under each root), and when they overlapped, every
    folder removed being open and each removal resolving after the addition of its folder. -/
theorem root_when_done (tr : List (Event φ))
    (hd : ∀ p ∈ (run productRoot tr).handlers, p = .done) :
    (Serial productRoot tr → Valid [] (tr.flatMap Event.calls) →
      (run productRoot tr).watcher.Counts productRoot (run productRoot tr).folders ∧
      ((run productRoot tr).watcher.root = none ↔
        ∀ f ∈ (run productRoot tr).folders, productRoot f = none) ∧
      ∀ r, (run productRoot tr).watcher.root = some r →
        ∃ f ∈ (run productRoot tr).folders, productRoot f = some r) ∧
    (ValidChanges productRoot tr → Ordered productRoot tr →
      ((run productRoot tr).watcher.root = none ↔
        ∀ f ∈ (run productRoot tr).folders, productRoot f = none) ∧
      ∀ r, (run productRoot tr).watcher.root = some r →
        ∃ f ∈ (run productRoot tr).folders, productRoot f = some r) :=
  ⟨fun hs hv => serial_root tr hs hv hd, fun hv ho => root_of_ordered_done tr hv ho hd⟩

/-- One folder added and its handler run to its end; and folders `0` and `1`, each its own
    product root, added by two handlers that overlap and resume in the other order. -/
theorem root_when_done_add_overlap :
    (let tr : List (Event Nat) := [.change [0] [], .resume 0, .resume 0]
      let s := run (fun _ => some (0 : Nat)) tr
      (∀ p ∈ s.handlers, p = .done) ∧ Serial (fun _ => some (0 : Nat)) tr ∧
        Valid [] (tr.flatMap Event.calls) ∧ s.watcher.Counts (fun _ => some 0) s.folders ∧
        (s.watcher.root = none ↔ ∀ f ∈ s.folders, (fun _ => some (0 : Nat)) f = none) ∧
        ∀ r, s.watcher.root = some r → ∃ f ∈ s.folders, (fun _ => some (0 : Nat)) f = some r) ∧
    (let tr : List (Event Nat) :=
        [.change [0] [], .change [1] [], .resume 1, .resume 0, .resume 1, .resume 0]
      let s := run some tr
      (∀ p ∈ s.handlers, p = .done) ∧ ValidChanges some tr ∧ Ordered some tr ∧
        (s.watcher.root = none ↔ ∀ f ∈ s.folders, some f = none) ∧
        ∀ r, s.watcher.root = some r → ∃ f ∈ s.folders, some f = some r) :=
  have hd₁ : ∀ p ∈ (run (fun _ => some (0 : Nat))
      ([.change [0] [], .resume 0, .resume 0] : List (Event Nat))).handlers, p = .done := by
    decide
  have hs : Serial (fun _ => some (0 : Nat)) [.change [0] [], .resume 0, .resume 0] :=
    fun pre _ _ _ h => by
      rcases pre with _ | ⟨x, _ | ⟨y, _ | ⟨z, _ | ⟨w, pre⟩⟩⟩⟩ <;>
        simp only [List.nil_append, List.cons_append, List.cons.injEq, Event.change.injEq,
          reduceCtorEq, false_and, and_false, List.nil_eq_append_iff, List.cons_ne_nil] at h
      decide
  have hv₁ : Valid [] (([.change [0] [], .resume 0, .resume 0] : List (Event Nat)).flatMap
      Event.calls) := by decide
  have hd₂ : ∀ p ∈ (run some ([.change [0] [], .change [1] [], .resume 1, .resume 0, .resume 1,
      .resume 0] : List (Event Nat))).handlers, p = .done := by decide
  have hv₂ : ValidChanges some ([.change [0] [], .change [1] [], .resume 1, .resume 0, .resume 1,
      .resume 0] : List (Event Nat)) := fun pre _ _ _ h => by
    rcases pre with _ | ⟨a, _ | ⟨b, _ | ⟨c, _ | ⟨d, _ | ⟨e, _ | ⟨f, _ | ⟨g, pre⟩⟩⟩⟩⟩⟩⟩ <;>
      simp only [List.nil_append, List.cons_append, List.cons.injEq, Event.change.injEq,
        reduceCtorEq, false_and, and_false, List.nil_eq_append_iff, List.cons_ne_nil] at h <;>
      casesm* _ ∧ _ <;> subst_vars <;> decide
  have ho : Ordered some ([.change [0] [], .change [1] [], .resume 1, .resume 0, .resume 1,
      .resume 0] : List (Event Nat)) := fun pre _ _ hp q hq => by
    rcases pre with _ | ⟨a, _ | ⟨b, _ | ⟨c, _ | ⟨d, _ | ⟨e, _ | ⟨f, _ | ⟨g, pre⟩⟩⟩⟩⟩⟩⟩ <;>
      simp only [List.nil_append, List.cons_append, List.cons.injEq, Event.resume.injEq,
        reduceCtorEq, false_and, and_false, List.nil_eq_append_iff, List.cons_ne_nil] at hp <;>
      casesm* _ ∧ _ <;> subst_vars <;> rw [← Option.mem_def] at hq <;> revert q <;> decide
  ⟨⟨hd₁, hs, hv₁, (root_when_done _ hd₁).1 hs hv₁⟩,
    ⟨hd₂, hv₂, ho, (root_when_done _ hd₂).2 hv₂ ho⟩⟩

end Workspace

end CrosIde.Watchers
