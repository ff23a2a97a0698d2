import Mathlib.Data.List.Nodup

/-!
# A `Map` as its entries in insertion order

A JavaScript `Map` is the list of its entries in insertion order, the order in which
`Map.prototype.keys` and `for (const [k, v] of map)` visit them. `set` on a key the map holds
replaces the value in place, and on a new key appends an entry; `delete` removes the key's
entry. The keys of a `Map` are distinct: `mapSet` keeps them so (`nodup_mapSet`), and
`mapDelete` erases one key (`keys_mapDelete`).
-/

namespace CrosIde

section Map

variable {κ ν : Type} [DecidableEq κ]

/-- `Map.prototype.set` on the entries of a `Map` in insertion order: an existing key keeps
    its place. -/
def mapSet : List (κ × ν) → κ → ν → List (κ × ν)
  | [], k, v => [(k, v)]
  | (k', v') :: m, k, v => if k' = k then (k, v) :: m else (k', v') :: mapSet m k v

/-- `Map.prototype.delete`. -/
def mapDelete : List (κ × ν) → κ → List (κ × ν)
  | [], _ => []
  | (k', v') :: m, k => if k' = k then m else (k', v') :: mapDelete m k

@[simp] theorem lookup_cons_of_ne {m : List (κ × ν)} {k r : κ} {v : ν} (h : r ≠ k) :
    ((k, v) :: m).lookup r = m.lookup r := by
  rw [List.lookup_cons, beq_eq_false_iff_ne.2 h]

theorem lookup_mapSet (m : List (κ × ν)) (k r : κ) (v : ν) :
    (mapSet m k v).lookup r = if r = k then some v else m.lookup r := by
  induction m with
  | nil => by_cases hr : r = k <;> simp [mapSet, hr]
  | cons p m ih =>
    obtain ⟨k', v'⟩ := p
    by_cases hk : k' = k
    · subst hk; by_cases hr : r = k' <;> simp [mapSet, hr]
    · by_cases hr : r = k'
      · subst hr; simp [mapSet, hk]
      · simp [mapSet, hk, hr, ih]

theorem keys_mapSet (m : List (κ × ν)) (k : κ) (v : ν) :
    (mapSet m k v).map Prod.fst =
      if k ∈ m.map Prod.fst then m.map Prod.fst else m.map Prod.fst ++ [k] := by
  induction m with
  | nil => simp [mapSet]
  | cons p m ih =>
    obtain ⟨k', v'⟩ := p
    by_cases hk : k' = k
    · subst hk; simp [mapSet]
    · by_cases hm : k ∈ m.map Prod.fst <;> simp_all [mapSet, Ne.symm hk]

theorem mem_mapSet {m : List (κ × ν)} {k : κ} {v : ν} {p : κ × ν}
    (h : p ∈ mapSet m k v) : p ∈ m ∨ p = (k, v) := by
  induction m with
  | nil => simpa [mapSet] using h
  | cons q m ih =>
    obtain ⟨k', v'⟩ := q
    unfold mapSet at h
    split at h
    · rcases List.mem_cons.1 h with rfl | h
      · exact .inr rfl
      · exact .inl (List.mem_cons_of_mem _ h)
    · rcases List.mem_cons.1 h with rfl | h
      · exact .inl (List.mem_cons_self _ _)
      · exact (ih h).imp_left (List.mem_cons_of_mem _)

theorem keys_mapDelete (m : List (κ × ν)) (k : κ) :
    (mapDelete m k).map Prod.fst = (m.map Prod.fst).erase k := by
  induction m with
  | nil => rfl
  | cons p m ih =>
    obtain ⟨k', v'⟩ := p
    by_cases hk : k' = k <;> simp [mapDelete, List.erase_cons, hk, ih]

theorem mapDelete_sublist (m : List (κ × ν)) (k : κ) : List.Sublist (mapDelete m k) m := by
  induction m with
  | nil => exact .slnil
  | cons p m ih =>
    obtain ⟨k', v'⟩ := p
    unfold mapDelete
    split
    · exact .cons _ (List.Sublist.refl m)
    · exact ih.cons₂ _

theorem lookup_mapDelete {m : List (κ × ν)} (hm : (m.map Prod.fst).Nodup) (k r : κ) :
    (mapDelete m k).lookup r = if r = k then none else m.lookup r := by
  induction m with
  | nil => simp [mapDelete]
  | cons p m ih =>
    obtain ⟨k', v'⟩ := p
    simp only [List.map_cons, List.nodup_cons] at hm
    by_cases hk : k' = k
    · subst hk
      by_cases hr : r = k'
      · subst hr
        have : ∀ p ∈ m, r ≠ p.1 := fun p hp e => hm.1 (by rw [e]; exact List.mem_map_of_mem _ hp)
        simpa [mapDelete] using this
      · simp [mapDelete, hr]
    · by_cases hr : r = k'
      · subst hr; simp [mapDelete, hk]
      · simp [mapDelete, hk, hr, ih hm.2]

theorem mem_keys_mapSet {m : List (κ × ν)} {k r : κ} {v : ν} :
    r ∈ (mapSet m k v).map Prod.fst ↔ r = k ∨ r ∈ m.map Prod.fst := by
  rw [keys_mapSet]
  split
  · next hk => exact ⟨.inr, fun h => h.elim (fun e => e ▸ hk) id⟩
  · simp [or_comm]

theorem nodup_mapSet {m : List (κ × ν)} (hm : (m.map Prod.fst).Nodup) (k : κ) (v : ν) :
    ((mapSet m k v).map Prod.fst).Nodup := by
  rw [keys_mapSet]
  split
  · exact hm
  · next hk => simp [List.nodup_append, hm, hk]

theorem mem_of_lookup {m : List (κ × ν)} {k : κ} {v : ν} (h : m.lookup k = some v) :
    (k, v) ∈ m := by
  obtain ⟨l₁, l₂, rfl, -⟩ := List.lookup_eq_some_iff.1 h
  simp

/-- Among distinct keys, `get` finds every entry. -/
theorem lookup_eq_some_of_mem {m : List (κ × ν)} (hm : (m.map Prod.fst).Nodup) {k : κ} {v : ν}
    (h : (k, v) ∈ m) : m.lookup k = some v := by
  induction m with
  | nil => cases h
  | cons p m ih =>
    obtain ⟨k', v'⟩ := p
    simp only [List.map_cons, List.nodup_cons] at hm
    rcases List.mem_cons.1 h with e | h
    · cases e; simp
    · have hk : k ≠ k' := fun e => hm.1 (e ▸ List.mem_map_of_mem Prod.fst h)
      rw [lookup_cons_of_ne hk, ih hm.2 h]

/-- Every key has its entry. -/
theorem exists_lookup_of_mem {m : List (κ × ν)} {k : κ} (h : k ∈ m.map Prod.fst) :
    ∃ v, m.lookup k = some v := by
  induction m with
  | nil => cases h
  | cons p m ih =>
    obtain ⟨k', v'⟩ := p
    by_cases hk : k = k'
    · exact ⟨v', by simp [hk]⟩
    · rw [lookup_cons_of_ne hk]
      exact ih ((List.mem_cons.1 h).resolve_left hk)

end Map

end CrosIde
