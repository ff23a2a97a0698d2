import Mathlib.Data.List.Nodup
import CrosIde.CommonUtil.Mutex

/-!
# The per-package `Mutex` registry of `Ebuild`

`Ebuild.globalMutexMap`, `Ebuild.mutex` and `Ebuild.generate` of
`compdb_service/index.ts:42-79`: every `generate` call looks its key up in a process-wide
map, inserting a fresh `Mutex` when the key is absent, and runs its critical section
(`removeCache`, `runCompgen`, `artifactPath`) through that `Mutex`. The lookup and the
insertion happen with no `await` between them, so a call is one atomic event; the critical
section is a job of the `Mutex` model, and its completion an event of that `Mutex`.
-/

namespace CrosIde.CppCodeCompletion

open CrosIde.CommonUtil

/-- The key of `Ebuild.mutex()` (`compdb_service/index.ts:46-48`):
    `${board.toString()}:${qualifiedPackageName}:${crosFs.source.root}`. -/
def mutexKey (board qualifiedPackageName root : String) : String :=
  board ++ ":" ++ qualifiedPackageName ++ ":" ++ root

/-- `Ebuild.globalMutexMap` and the `Mutex`es it holds, with the `generate` calls made. -/
structure Registry (α ε : Type) where
  /-- `globalMutexMap`, from key to the number of its `Mutex`, in insertion order. -/
  map : List (String × Nat)
  /-- The `Mutex` instances created so far. -/
  mutexes : List (Mutex α ε)
  /-- Each `generate` call: its board, package and source root, the `Mutex` it obtained,
      and its call number in that `Mutex`. -/
  calls : List ((String × String × String) × Nat × Nat)

namespace Registry

variable {α ε : Type}

/-- An event of a run. -/
inductive Event (α ε : Type) where
  /-- `new Ebuild(board, qualifiedPackageName, ...).generate()`, on source root `root`, whose
      critical section yields `job`. -/
  | generate (board qualifiedPackageName root : String) (job : Except ε α)
  /-- An event of the `Mutex` numbered `id`. -/
  | mutex (id : Nat) (e : Mutex.Event α ε)

/-- `Ebuild.mutex()` (`compdb_service/index.ts:45-56`): the `Mutex` of `key`, created and
    stored if the map has none. -/
def mutex (r : Registry α ε) (key : String) : Registry α ε × Nat :=
  match r.map.lookup key with
  | some id => (r, id)
  | none => ({ r with map := r.map ++ [(key, r.mutexes.length)],
                      mutexes := r.mutexes ++ [Mutex.init] }, r.mutexes.length)

/-- Apply `f` to the `Mutex` numbered `id`. -/
def onMutex (r : Registry α ε) (id : Nat) (f : Mutex α ε → Mutex α ε) : Registry α ε :=
  match r.mutexes[id]? with
  | some mx => { r with mutexes := r.mutexes.set id (f mx) }
  | none => r

/-- `Ebuild.generate()` (`compdb_service/index.ts:66-79`) up to its `await`:
    `this.mutex().runExclusive(...)`. -/
def generate (r : Registry α ε) (board qualifiedPackageName root : String)
    (job : Except ε α) : Registry α ε :=
  let (r, id) := r.mutex (mutexKey board qualifiedPackageName root)
  match r.mutexes[id]? with
  | some mx =>
    { r with mutexes := r.mutexes.set id (mx.runExclusive job),
             calls := r.calls ++ [((board, qualifiedPackageName, root), id, mx.jobs.length)] }
  | none => r

/-- One event of a run. -/
def step (r : Registry α ε) : Event α ε → Registry α ε
  | .generate board pkg root job => r.generate board pkg root job
  | .mutex id e => r.onMutex id (·.step e)

/-- The registry at start-up: `new Map()`. -/
def init : Registry α ε := ⟨[], [], []⟩

/-- The state after a trace of events. -/
def run (tr : List (Event α ε)) : Registry α ε := tr.foldl step init

/-- The board, package and source root of a `generate` event. -/
def Event.ebuild : Event α ε → Option (String × String × String)
  | .generate board pkg root _ => some (board, pkg, root)
  | .mutex .. => none

/-- Call `c`'s critical section is running: its `Mutex` awaits its job. -/
def Running (r : Registry α ε) (c : Nat) : Prop :=
  ∃ ebuild id i mx, r.calls[c]? = some (ebuild, id, i) ∧ r.mutexes[id]? = some mx ∧
    i ∈ mx.pending

/-! ## The invariant -/

variable {r : Registry α ε} {key : String} {id : Nat}

theorem mutex_of_some (h : r.map.lookup key = some id) : r.mutex key = (r, id) := by
  simp [mutex, h]

theorem mutex_of_none (h : r.map.lookup key = none) :
    r.mutex key = ({ r with map := r.map ++ [(key, r.mutexes.length)],
                            mutexes := r.mutexes ++ [Mutex.init] }, r.mutexes.length) := by
  simp [mutex, h]

/-- What holds of every reachable state: every `Mutex` satisfies the `Mutex` invariant; the
    map names existing `Mutex`es; each call holds the `Mutex` its key maps to, and its call
    number there, which no other call holds. -/
structure Inv (r : Registry α ε) : Prop where
  mutexes_inv : ∀ mx ∈ r.mutexes, mx.Inv
  map_lt : ∀ p ∈ r.map, p.2 < r.mutexes.length
  calls_key : ∀ e ∈ r.calls, r.map.lookup (mutexKey e.1.1 e.1.2.1 e.1.2.2) = some e.2.1
  calls_lt : ∀ e ∈ r.calls, ∃ mx, r.mutexes[e.2.1]? = some mx ∧ e.2.2 < mx.jobs.length
  calls_nodup : (r.calls.map Prod.snd).Nodup

theorem inv_init : (init : Registry α ε).Inv := by
  constructor <;> simp [init]

theorem lookup_lt (hi : r.Inv) (h : r.map.lookup key = some id) : id < r.mutexes.length := by
  obtain ⟨l₁, l₂, hl, -⟩ := List.lookup_eq_some_iff.1 h
  exact hi.map_lt (key, id) (by simp [hl])

/-- `Ebuild.mutex()` keeps the invariant, keeps every binding, and binds the key. -/
theorem Inv.mutex (hi : r.Inv) (key : String) :
    (r.mutex key).1.Inv ∧ (r.mutex key).1.map.lookup key = some (r.mutex key).2 ∧
      (r.mutex key).2 < (r.mutex key).1.mutexes.length ∧ (r.mutex key).1.calls = r.calls ∧
      ∀ k id, r.map.lookup k = some id → (r.mutex key).1.map.lookup k = some id := by
  cases h : r.map.lookup key with
  | some id => rw [mutex_of_some h]; exact ⟨hi, h, lookup_lt hi h, rfl, fun _ _ h => h⟩
  | none =>
    rw [mutex_of_none h]
    have keep : ∀ k id, r.map.lookup k = some id →
        (r.map ++ [(key, r.mutexes.length)]).lookup k = some id := fun k id hk => by
      rw [List.lookup_append, hk]; rfl
    refine ⟨⟨?_, ?_, fun e he => keep _ _ (hi.calls_key e he), ?_, hi.calls_nodup⟩,
      by simp [List.lookup_append, h], by simp, rfl, keep⟩
    · intro mx hmx
      rcases List.mem_append.1 hmx with hmx | hmx
      · exact hi.mutexes_inv mx hmx
      · rw [List.mem_singleton.1 hmx]; exact Mutex.inv_init
    · intro p hp
      rcases List.mem_append.1 hp with hp | hp
      · have := hi.map_lt p hp; simp; omega
      · simp [List.mem_singleton.1 hp]
    · intro e he
      obtain ⟨mx, hmx, hlt⟩ := hi.calls_lt e he
      exact ⟨mx, by
        simp only; rw [List.getElem?_append_left (List.getElem?_eq_some_iff.1 hmx).1, hmx], hlt⟩

/-- Enqueuing a call's critical section on the `Mutex` its key maps to keeps the invariant. -/
theorem Inv.enqueue (hi : r.Inv) (ebuild : String × String × String) {mx : Mutex α ε}
    (hk : r.map.lookup (mutexKey ebuild.1 ebuild.2.1 ebuild.2.2) = some id)
    (hm : r.mutexes[id]? = some mx) (job : Except ε α) :
    ({ r with mutexes := r.mutexes.set id (mx.runExclusive job),
              calls := r.calls ++ [(ebuild, id, mx.jobs.length)] } : Registry α ε).Inv := by
  have hlt : id < r.mutexes.length := (List.getElem?_eq_some_iff.1 hm).1
  have hset : (r.mutexes.set id (mx.runExclusive job))[id]? = some (mx.runExclusive job) :=
    List.getElem?_set_self hlt
  refine ⟨fun mx' h => ?_, by simpa using hi.map_lt, fun e he => ?_, fun e he => ?_, ?_⟩
  · rcases List.mem_or_eq_of_mem_set h with h | rfl
    · exact hi.mutexes_inv mx' h
    · exact (hi.mutexes_inv mx (List.getElem?_mem hm)).runExclusive job
  · rcases List.mem_append.1 he with he | he
    · exact hi.calls_key e he
    · rw [List.mem_singleton.1 he]; exact hk
  · rcases List.mem_append.1 he with he | he
    · obtain ⟨mx', hmx', hlt'⟩ := hi.calls_lt e he
      by_cases heq : e.2.1 = id
      · rw [heq, hm] at hmx'; cases hmx'
        exact ⟨_, by rw [heq]; exact hset, by simp; omega⟩
      · exact ⟨mx', by rw [List.getElem?_set_ne (Ne.symm heq)]; exact hmx', hlt'⟩
    · rw [List.mem_singleton.1 he]; exact ⟨_, hset, by simp⟩
  · rw [List.map_append, List.nodup_append]
    refine ⟨hi.calls_nodup, by simp, ?_⟩
    simp only [List.map_cons, List.map_nil, List.disjoint_singleton]
    intro h
    obtain ⟨e, he, heq⟩ := List.mem_map.1 h
    obtain ⟨mx', hmx', hlt'⟩ := hi.calls_lt e he
    rw [heq, hm] at hmx'; cases hmx'
    rw [heq] at hlt'; simp at hlt'

theorem Inv.generate (hi : r.Inv) (board qualifiedPackageName root : String)
    (job : Except ε α) : (r.generate board qualifiedPackageName root job).Inv := by
  have h := hi.mutex (mutexKey board qualifiedPackageName root)
  unfold Registry.generate
  generalize r.mutex (mutexKey board qualifiedPackageName root) = p at h ⊢
  obtain ⟨r0, id⟩ := p
  obtain ⟨h0, hk, hlt, -, -⟩ := h
  simp only at h0 hk hlt ⊢
  rw [List.getElem?_eq_getElem hlt]
  exact h0.enqueue (board, qualifiedPackageName, root) hk
    (List.getElem?_eq_getElem hlt) job

/-- A `generate` call is recorded, whatever `Mutex` it obtains. -/
theorem Inv.generate_calls (hi : r.Inv) (board qualifiedPackageName root : String)
    (job : Except ε α) :
    (r.generate board qualifiedPackageName root job).calls.map Prod.fst =
      r.calls.map Prod.fst ++ [(board, qualifiedPackageName, root)] := by
  have h := hi.mutex (mutexKey board qualifiedPackageName root)
  unfold Registry.generate
  generalize r.mutex (mutexKey board qualifiedPackageName root) = p at h ⊢
  obtain ⟨r0, id⟩ := p
  obtain ⟨-, -, hlt, hc, -⟩ := h
  simp only at hlt hc ⊢
  rw [List.getElem?_eq_getElem hlt]
  simp [hc]

theorem onMutex_calls (r : Registry α ε) (id : Nat) (f : Mutex α ε → Mutex α ε) :
    (r.onMutex id f).calls = r.calls := by
  unfold Registry.onMutex; split <;> rfl

theorem Inv.onMutex (hi : r.Inv) (id : Nat) (f : Mutex α ε → Mutex α ε)
    (hf : ∀ mx, mx.Inv → (f mx).Inv) (hj : ∀ mx, mx.jobs <+: (f mx).jobs) :
    (r.onMutex id f).Inv := by
  unfold Registry.onMutex
  split
  · next mx hm =>
    have hlt : id < r.mutexes.length := (List.getElem?_eq_some_iff.1 hm).1
    refine { hi with mutexes_inv := ?_, map_lt := by simpa using hi.map_lt, calls_lt := ?_ }
    · intro mx' h
      rcases List.mem_or_eq_of_mem_set h with h | rfl
      · exact hi.mutexes_inv mx' h
      · exact hf mx (hi.mutexes_inv mx (List.getElem?_mem hm))
    · intro e he
      obtain ⟨mx', hmx', hlt'⟩ := hi.calls_lt e he
      by_cases heq : e.2.1 = id
      · rw [heq, hm] at hmx'; cases hmx'
        exact ⟨f mx, by rw [heq]; exact List.getElem?_set_self hlt,
          lt_of_lt_of_le hlt' (hj mx).length_le⟩
      · exact ⟨mx', by rw [List.getElem?_set_ne (Ne.symm heq)]; exact hmx', hlt'⟩
  · exact hi

theorem Inv.step (hi : r.Inv) : ∀ e : Event α ε, (r.step e).Inv
  | .generate board pkg root job => hi.generate board pkg root job
  | .mutex id e => hi.onMutex id _ (fun _ h => h.step e) (fun mx => mx.step_jobs e)

theorem Inv.foldl : ∀ {r : Registry α ε}, r.Inv → ∀ tr : List (Event α ε),
    (tr.foldl Registry.step r).Inv
  | _, hi, [] => hi
  | _, hi, e :: tr => Inv.foldl (hi.step e) tr

theorem inv_run (tr : List (Event α ε)) : (run tr).Inv := inv_init.foldl tr

/-! ## The registry only grows -/

theorem mutex_map (r : Registry α ε) (key : String) : r.map <+: (r.mutex key).1.map := by
  unfold Registry.mutex; split
  · exact List.prefix_refl _
  · exact List.prefix_append _ _

/-- The map only grows: `generate` adds at most one binding, and nothing else touches it. -/
theorem step_map (r : Registry α ε) : ∀ e : Event α ε, r.map <+: (r.step e).map
  | .generate board pkg root job => by
    have h := r.mutex_map (mutexKey board pkg root)
    simp only [step, Registry.generate]
    generalize r.mutex (mutexKey board pkg root) = p at h ⊢
    obtain ⟨r0, id⟩ := p
    simp only at h ⊢
    split <;> exact h
  | .mutex id e => by
    simp only [step, Registry.onMutex]
    split <;> exact List.prefix_refl _

theorem map_foldl (r : Registry α ε) (tr : List (Event α ε)) : r.map <+: (tr.foldl step r).map := by
  induction tr generalizing r with
  | nil => exact List.prefix_refl _
  | cons e tr ih => exact (r.step_map e).trans (ih _)

theorem lookup_of_prefix {l l' : List (String × Nat)} (h : l <+: l') (hk : l.lookup key = some id) :
    l'.lookup key = some id := by
  obtain ⟨t, rfl⟩ := h
  rw [List.lookup_append, hk]; rfl

/-! ## Exclusion per key -/

/-- Call `c` is the `c`-th `generate` call of the trace. -/
theorem calls_run (tr : List (Event α ε)) :
    (run tr).calls.map Prod.fst = tr.filterMap Event.ebuild := by
  induction tr using List.reverseRecOn with
  | nil => rfl
  | append_singleton tr e ih =>
    rw [run, List.foldl_append, List.foldl_cons, List.foldl_nil, ← run, List.filterMap_append, ← ih]
    cases e with
    | generate board pkg root job => exact (inv_run tr).generate_calls board pkg root job
    | mutex id e => simp [step, onMutex_calls, Event.ebuild]

/-- `Ebuild.generate` over every interleaving of calls and critical-section completions:
    call `c` is the `c`-th `generate` call of the trace; calls on the same board, package and
    source root obtain the same `Mutex`, and their critical sections never run at the same
    time; the registry only grows, and a key once bound keeps its `Mutex`. -/
theorem generate_exclusive (tr : List (Event α ε)) :
    (run tr).calls.map Prod.fst = tr.filterMap Event.ebuild ∧
    (∀ (c c' : Nat) (ebuild : String × String × String) (id id' i i' : Nat),
      (run tr).calls[c]? = some (ebuild, id, i) →
      (run tr).calls[c']? = some (ebuild, id', i') → id = id') ∧
    (∀ (c c' : Nat) (ebuild : String × String × String) (id id' i i' : Nat), c ≠ c' →
      (run tr).calls[c]? = some (ebuild, id, i) → (run tr).calls[c']? = some (ebuild, id', i') →
      ¬ ((run tr).Running c ∧ (run tr).Running c')) ∧
    ∀ tr', (run tr).map <+: (run (tr ++ tr')).map ∧
      ∀ key id, (run tr).map.lookup key = some id → (run (tr ++ tr')).map.lookup key = some id := by
  have hi := inv_run tr
  have same : ∀ (c c' : Nat) (ebuild : String × String × String) (id id' i i' : Nat),
      (run tr).calls[c]? = some (ebuild, id, i) →
      (run tr).calls[c']? = some (ebuild, id', i') → id = id' := fun c c' ebuild id id' i i' h h' =>
    Option.some.inj ((hi.calls_key _ (List.getElem?_mem h)).symm.trans
      (hi.calls_key _ (List.getElem?_mem h')))
  have hmap : ∀ tr', (run tr).map <+: (run (tr ++ tr')).map := fun tr' => by
    rw [run, run, List.foldl_append]; exact map_foldl _ tr'
  refine ⟨calls_run tr, same, ?_,
    fun tr' => ⟨hmap tr', fun key id hk => lookup_of_prefix (hmap tr') hk⟩⟩
  rintro c c' ebuild id id' i i' hne h h'
    ⟨⟨e1, id1, i1, mx, h1, hm, hp⟩, ⟨e2, id2, i2, mx', h2, hm', hp'⟩⟩
  rw [h] at h1; rw [h'] at h2
  obtain ⟨rfl, rfl, rfl⟩ : ebuild = e1 ∧ id = id1 ∧ i = i1 := by simpa using h1
  obtain ⟨rfl, rfl, rfl⟩ : ebuild = e2 ∧ id' = id2 ∧ i' = i2 := by simpa using h2
  obtain rfl := same c c' ebuild id id' i i' h h'
  rw [hm] at hm'; cases hm'
  have hpend := (hi.mutexes_inv mx (List.getElem?_mem hm)).pending_eq hp
  rw [hpend, List.mem_singleton] at hp'
  subst hp'
  have hlen : c < ((run tr).calls.map Prod.snd).length := by
    simpa using (List.getElem?_eq_some_iff.1 h).1
  exact hne (List.getElem?_inj hlen hi.calls_nodup (by simp [h, h']))

end Registry

end CrosIde.CppCodeCompletion
