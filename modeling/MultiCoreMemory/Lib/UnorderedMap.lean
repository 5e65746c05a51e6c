import Mathlib.Data.List.AList

/-!
# Hash maps as association lists

`std::unordered_map` is modelled by Mathlib's `AList`: at most one entry a key, `find` is
`lookup`, `m[k] = v` is `insert`, `erase` is `erase`.  What a program may observe of the order
of the entries is a parameter of the functions that iterate.
-/

namespace MultiCoreMemory

open List Option

abbrev UnorderedMap (K V : Type*) := AList (fun _ : K => V)

namespace UnorderedMap

variable {K V : Type*} [DecidableEq K]

/-- `m[k]` read: the value, and the map with `k` present (an absent key gets the default). -/
def subscript (m : UnorderedMap K V) (k : K) (dflt : V) : V × UnorderedMap K V :=
  match m.lookup k with
  | some v => (v, m)
  | none => (dflt, m.insert k dflt)

variable {m : UnorderedMap K V} {k : K} {v : V}

theorem subscript_of_lookup (h : m.lookup k = some v) (dflt : V) : m.subscript k dflt = (v, m) := by
  simp [subscript, h]

theorem subscript_fst (m : UnorderedMap K V) (k : K) (dflt : V) :
    (m.subscript k dflt).1 = (m.lookup k).getD dflt := by
  unfold subscript
  split <;> simp_all

theorem lookup_insert_iff {k' : K} {w : V} :
    (m.insert k v).lookup k' = some w ↔ (k' = k ∧ v = w) ∨ (k' ≠ k ∧ m.lookup k' = some w) := by
  by_cases h : k' = k
  · subst h; simp [AList.lookup_insert]
  · simp [AList.lookup_insert_ne h, h]

theorem lookup_erase_iff {k' : K} {w : V} :
    (m.erase k).lookup k' = some w ↔ k' ≠ k ∧ m.lookup k' = some w := by
  by_cases h : k' = k
  · subst h; simp [AList.lookup_erase]
  · simp [AList.lookup_erase_ne h, h]

def insertAll (m : UnorderedMap K V) (keys : List K) (v : V) : UnorderedMap K V :=
  keys.foldl (fun m k => m.insert k v) m

theorem lookup_insertAll (m : UnorderedMap K V) (keys : List K) (v : V) (k : K) :
    (m.insertAll keys v).lookup k = if k ∈ keys then some v else m.lookup k := by
  induction keys generalizing m with
  | nil => rfl
  | cons k' keys ih =>
    rw [insertAll, foldl_cons, ← insertAll, ih]
    by_cases hk : k = k'
    · subst hk
      simp
    · simp [hk, AList.lookup_insert_ne hk]

/-- The values of all entries. -/
def values (m : UnorderedMap K V) : List V := m.entries.map fun e => e.2

theorem mem_values_iff : v ∈ m.values ↔ ∃ k, m.lookup k = some v := by
  constructor
  · intro h
    obtain ⟨⟨k, w⟩, he, rfl⟩ := List.mem_map.mp h
    exact ⟨k, AList.mem_lookup_iff.mpr he⟩
  · rintro ⟨k, hk⟩
    exact List.mem_map.mpr ⟨⟨k, v⟩, AList.mem_lookup_iff.mp hk, rfl⟩

theorem values_insert_of_lookup_none (h : m.lookup k = none) (v : V) :
    values (m.insert k v) = v :: m.values := by
  unfold values
  rw [AList.entries_insert_of_notMem (AList.lookup_eq_none.mp h), map_cons]

theorem values_nodup_iff :
    m.values.Nodup ↔ ∀ k k' v, m.lookup k = some v → m.lookup k' = some v → k = k' := by
  constructor
  · intro h k k' v hk hk'
    have he := inj_on_of_nodup_map h (AList.mem_lookup_iff.mp hk) (AList.mem_lookup_iff.mp hk') rfl
    exact congrArg Sigma.fst he
  · intro hinj
    refine List.Nodup.map_on ?_ m.nodupKeys.nodup
    rintro ⟨k, v⟩ he ⟨k', v'⟩ he' heq
    obtain rfl : v = v' := heq
    obtain rfl := hinj k k' v (AList.mem_lookup_iff.mpr he) (AList.mem_lookup_iff.mpr he')
    rfl

theorem values_insert (m : UnorderedMap K V) (k : K) (v : V) :
    values (m.insert k v) = v :: values (m.erase k) := rfl

theorem values_perm_erase (h : m.lookup k = some v) : m.values.Perm (v :: values (m.erase k)) := by
  have hmem : k ∈ m.entries.keys := AList.mem_keys.mp (AList.lookup_isSome.mp (by rw [h]; rfl))
  obtain ⟨w, l₁, l₂, -, hsplit, herase⟩ := exists_of_kerase hmem
  have hw : m.lookup k = some w := by
    apply AList.mem_lookup_iff.mpr
    rw [hsplit]
    exact mem_append_right _ (mem_cons_self ..)
  obtain rfl : v = w := some.inj (h.symm.trans hw)
  show (m.entries.map fun e => e.2).Perm (v :: (kerase k m.entries).map fun e => e.2)
  rw [herase, hsplit, map_append, map_cons, map_append]
  exact perm_middle

omit [DecidableEq K] in
theorem length_values (m : UnorderedMap K V) : m.values.length = m.keys.length := by
  rw [values, AList.keys, keys, length_map, length_map]

/-! ## Loops over the entries -/

section

variable {W : Type*}

omit [DecidableEq K] in
theorem keys_filterMap_sublist (f : K → V → Option W) (l : List (Σ _ : K, V)) :
    ((l.filterMap fun e => (f e.1 e.2).map fun w => (⟨e.1, w⟩ : Σ _ : K, W)).keys).Sublist
      l.keys := by
  induction l with
  | nil => exact .slnil
  | cons e l ih =>
    rw [filterMap_cons]
    cases f e.1 e.2 with
    | none => exact ih.cons _
    | some w => exact ih.cons_cons _

/-- A loop that rewrites or erases every entry by itself. -/
def filterMapValues (f : K → V → Option W) (m : UnorderedMap K V) : UnorderedMap K W :=
  ⟨m.entries.filterMap fun e : Σ _ : K, V => (f e.1 e.2).map fun w => (⟨e.1, w⟩ : Σ _ : K, W),
    (keys_filterMap_sublist f m.entries).nodup m.keys_nodup⟩

theorem lookup_filterMapValues (f : K → V → Option W) (m : UnorderedMap K V) (k : K) :
    (m.filterMapValues f).lookup k = (m.lookup k).bind (f k) := by
  ext w
  rw [← mem_def, AList.mem_lookup_iff, bind_eq_some_iff]
  simp only [filterMapValues, mem_filterMap, map_eq_some_iff]
  constructor
  · rintro ⟨⟨k', v⟩, hmem, w', hf, heq⟩
    cases heq
    exact ⟨v, AList.mem_lookup_iff.mpr hmem, hf⟩
  · rintro ⟨v, hv, hf⟩
    exact ⟨⟨k, v⟩, AList.mem_lookup_iff.mp hv, w, hf, rfl⟩

/-- The first key with the property in the given order; `none` if the keys cannot be met so. -/
def firstKey (m : UnorderedMap K V) (order : List K) (p : K → V → Bool) : Option (Option K) :=
  if order.Perm m.keys then
    some (order.find? fun k => (m.lookup k).any (p k))
  else none

theorem firstKey_eq_some {m : UnorderedMap K V} {order : List K} {p : K → V → Bool} {k : K}
    (h : m.firstKey order p = some (some k)) : ∃ v, m.lookup k = some v ∧ p k v = true := by
  unfold firstKey at h
  split at h
  · have hany := find?_some (some.inj h)
    exact (Option.any_eq_true _ _).mp hany
  · cases h

theorem firstKey_eq_none {m : UnorderedMap K V} {order : List K} {p : K → V → Bool}
    (h : m.firstKey order p = some none) {k : K} {v : V} (hk : m.lookup k = some v) :
    p k v = false := by
  unfold firstKey at h
  split at h
  · rename_i hperm
    have hmem : k ∈ order := hperm.mem_iff.mpr
      (AList.mem_keys.mp (AList.lookup_isSome.mp (by rw [hk]; rfl)))
    have hnone := find?_eq_none.mp (some.inj h) k hmem
    simpa [hk] using hnone
  · cases h

end

end UnorderedMap

end MultiCoreMemory
