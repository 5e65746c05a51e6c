import MultiCoreMemory.Lib.UnorderedMap
import Mathlib.Algebra.Group.Action.Defs
import Mathlib.Algebra.Order.BigOperators.Group.List
import Mathlib.Tactic.Linarith

/-!
# Frequent elements with a spillover counter

A table counts at most `n` elements of a stream; a spillover counter stands for all the others.  An
element that is not in the table takes the place of an entry that stands at the spillover counter, or
else raises that counter.
-/

namespace MultiCoreMemory

open List UnorderedMap

/-- The counted elements and the spillover counter. -/
structure SpillTable (K : Type) where
  table : UnorderedMap K ℕ := ∅
  spill : ℕ := 0

namespace SpillTable

variable {K : Type} [DecidableEq K]

variable (b : SpillTable K)

def count (k : K) : ℕ := (b.table.lookup k).getD b.spill

def put (k : K) (c : ℕ) : SpillTable K := { b with table := b.table.insert k c }

/-- `k` takes the place of `old` and counts from the spillover counter on. -/
def replace (old k : K) : SpillTable K :=
  { b with table := (b.table.erase old).insert k (b.spill + 1) }

def overflow : SpillTable K := { b with spill := b.spill + 1 }

def zero : SpillTable K where
  table := b.table.filterMapValues fun _ _ => some 0
  spill := 0

/-- What a table of `n` entries knows after `acts` elements, `since k` of them being `k` since it was
last restarted. -/
structure Covers (n acts : ℕ) (since : K → ℕ) (b : SpillTable K) : Prop where
  size : b.table.values.length = n
  floor : ∀ v ∈ b.table.values, b.spill ≤ v
  total : b.table.values.sum + b.spill ≤ acts
  covered : ∀ k, since k ≤ b.count k

variable {n acts : ℕ} {since since' : K → ℕ} {b : SpillTable K} {k old : K} {c : ℕ}

omit [DecidableEq K] in
theorem length_values_zero (b : SpillTable K) : b.zero.table.values.length = b.table.values.length := by
  rw [length_values, length_values]
  unfold zero filterMapValues
  simp [AList.keys, keys]

theorem mem_values_zero {v : ℕ} (h : v ∈ b.zero.table.values) : v = 0 := by
  obtain ⟨k, hk⟩ := mem_values_iff.mp h
  rw [zero, lookup_filterMapValues] at hk
  obtain ⟨w, -, hw⟩ := Option.bind_eq_some_iff.mp hk
  exact (Option.some.inj hw).symm

theorem covers_of_zero (hsize : b.table.values.length = n) (hzero : ∀ v ∈ b.table.values, v = 0)
    (hspill : b.spill = 0) (hsince : ∀ k, since k = 0) : Covers n 0 since b where
  size := hsize
  floor := fun v _ => hspill ▸ Nat.zero_le v
  total := by
    rw [hspill, sum_eq_zero hzero]
  covered := fun k => hsince k ▸ Nat.zero_le _

theorem count_put (b : SpillTable K) (k : K) (c : ℕ) (k' : K) :
    (b.put k c).count k' = if k' = k then c else b.count k' := by
  unfold count put
  by_cases h : k' = k
  · rw [if_pos h, h, AList.lookup_insert]
    rfl
  · rw [if_neg h, AList.lookup_insert_ne h]

theorem count_of_lookup (h : b.table.lookup k = some c) : b.count k = c := by
  rw [count, h]
  rfl

theorem count_of_lookup_none (h : b.table.lookup k = none) : b.count k = b.spill := by
  rw [count, h]
  rfl

theorem mem_values_put {v : ℕ} (h : v ∈ (b.put k c).table.values) :
    v = c ∨ v ∈ b.table.values := by
  obtain ⟨k', hk'⟩ := mem_values_iff.mp h
  rcases lookup_insert_iff.mp hk' with ⟨-, hv⟩ | ⟨-, hv⟩
  · exact .inl hv.symm
  · exact .inr (mem_values_iff.mpr ⟨k', hv⟩)

theorem mem_values_replace {v : ℕ} (h : v ∈ (b.replace old k).table.values) :
    v = b.spill + 1 ∨ v ∈ b.table.values := by
  obtain ⟨k', hk'⟩ := mem_values_iff.mp h
  rcases lookup_insert_iff.mp hk' with ⟨-, hv⟩ | ⟨-, hv⟩
  · exact .inl hv.symm
  · exact .inr (mem_values_iff.mpr ⟨k', (lookup_erase_iff.mp hv).2⟩)

section

variable (h : Covers n acts since b)
include h

theorem Covers.put (hk : b.table.lookup k = some c) {c' : ℕ} (hfloor : b.spill ≤ c')
    (hle : c' ≤ c + 1) (hsince : ∀ k', since' k' ≤ if k' = k then c' else since k') :
    Covers n (acts + 1) since' (b.put k c') := by
  have hperm := values_perm_erase hk
  have hvalues : (b.put k c').table.values = c' :: values (b.table.erase k) :=
    values_insert ..
  refine ⟨?_, ?_, ?_, ?_⟩
  · rw [hvalues, length_cons, ← h.size, hperm.length_eq, length_cons]
  · intro v hv
    rw [hvalues] at hv
    rcases mem_cons.mp hv with rfl | hv
    · exact hfloor
    · exact h.floor v (hperm.mem_iff.mpr (mem_cons_of_mem _ hv))
  · have htotal := h.total
    rw [hperm.sum_eq, sum_cons] at htotal
    rw [hvalues, sum_cons]
    show c' + _ + b.spill ≤ acts + 1
    omega
  · intro k'
    have hk' := hsince k'
    rw [count_put]
    by_cases heq : k' = k
    · rw [if_pos heq] at hk' ⊢
      exact hk'
    · rw [if_neg heq] at hk' ⊢
      exact hk'.trans (h.covered k')

section

variable (hsince : ∀ k', since' k' ≤ if k' = k then since k + 1 else since k')

include hsince

theorem Covers.hit (hk : b.table.lookup k = some c) :
    Covers n (acts + 1) since' (b.put k (c + 1)) := by
  have hcover := h.covered k
  rw [count_of_lookup hk] at hcover
  have hfloor := h.floor c (mem_values_iff.mpr ⟨k, hk⟩)
  refine h.put hk (by omega) le_rfl fun k' => (hsince k').trans ?_
  split
  · omega
  · exact le_rfl

omit hsince in
theorem Covers.restart (hk : b.table.lookup k = some c)
    (hsince : ∀ k', since' k' ≤ if k' = k then 0 else since k') :
    Covers n (acts + 1) since' (b.put k b.spill) := by
  have hfloor := h.floor c (mem_values_iff.mpr ⟨k, hk⟩)
  refine h.put hk le_rfl (by omega) fun k' => (hsince k').trans ?_
  split
  · exact Nat.zero_le _
  · exact le_rfl

theorem Covers.replace (hk : b.table.lookup k = none) (hold : b.table.lookup old = some b.spill) :
    Covers n (acts + 1) since' (b.replace old k) := by
  have hne : k ≠ old := by
    rintro rfl
    rw [hk] at hold
    cases hold
  have habsent : (b.table.erase old).lookup k = none := by
    rw [AList.lookup_erase_ne hne, hk]
  have hperm := values_perm_erase hold
  have hvalues : (b.replace old k).table.values =
      (b.spill + 1) :: values (b.table.erase old) :=
    values_insert_of_lookup_none habsent _
  refine ⟨?_, ?_, ?_, ?_⟩
  · rw [hvalues, length_cons, ← h.size, hperm.length_eq, length_cons]
  · intro v hv
    rw [hvalues] at hv
    rcases mem_cons.mp hv with rfl | hv
    · exact Nat.le_succ _
    · exact h.floor v (hperm.mem_iff.mpr (mem_cons_of_mem _ hv))
  · have htotal := h.total
    rw [hperm.sum_eq, sum_cons] at htotal
    rw [hvalues, sum_cons]
    show b.spill + 1 + _ + b.spill ≤ acts + 1
    omega
  · intro k'
    have hk' := hsince k'
    show since' k' ≤ (((b.table.erase old).insert k (b.spill + 1)).lookup k').getD b.spill
    split at hk'
    · rename_i heq
      rw [heq, AList.lookup_insert]
      have hcover := h.covered k
      rw [count_of_lookup_none hk] at hcover
      rw [heq] at hk'
      exact hk'.trans (Nat.succ_le_succ hcover)
    · rename_i heq
      rw [AList.lookup_insert_ne heq]
      refine hk'.trans ((h.covered k').trans ?_)
      by_cases hko : k' = old
      · -- the element that leaves the table stood at the spillover counter
        rw [hko, count_of_lookup hold, AList.lookup_erase]
        exact le_rfl
      · rw [AList.lookup_erase_ne hko]
        exact le_rfl

theorem Covers.overflow (hk : b.table.lookup k = none) (habove : ∀ v ∈ b.table.values, v ≠ b.spill) :
    Covers n (acts + 1) since' b.overflow where
  size := h.size
  floor := fun v hv => by
    have hfloor := h.floor v hv
    have hne := habove v hv
    show b.spill + 1 ≤ v
    omega
  total := by
    have htotal := h.total
    show b.table.values.sum + (b.spill + 1) ≤ acts + 1
    omega
  covered := fun k' => by
    have hk' := hsince k'
    have hmono : b.count k' ≤ b.overflow.count k' := by
      unfold count SpillTable.overflow
      cases b.table.lookup k' with
      | none => exact Nat.le_succ _
      | some v => exact le_rfl
    split at hk'
    · rename_i heq
      have hcover := h.covered k
      rw [count_of_lookup_none hk] at hcover
      have hcount : b.overflow.count k' = b.spill + 1 := by
        rw [heq]
        exact count_of_lookup_none (b := b.overflow) hk
      omega
    · exact hk'.trans ((h.covered k').trans hmono)

end

/-- The entries and the spillover counter are `n + 1` numbers that are at least the latter. -/
theorem Covers.spill_lt {t : ℕ} (hacts : acts < (n + 1) * t) : b.spill < t := by
  have hsum : n * b.spill ≤ b.table.values.sum := by
    have hle := card_nsmul_le_sum b.table.values b.spill h.floor
    rw [h.size, smul_eq_mul] at hle
    exact hle
  have htotal := h.total
  by_contra hge
  have hmul : (n + 1) * t ≤ (n + 1) * b.spill := Nat.mul_le_mul_left _ (Nat.le_of_not_lt hge)
  nlinarith

end

/-! ## A table that fills up -/

/-- An element seen by a table of at most `size` entries, and its counter, if it gets one. `order` is
the order in which the entries are met. -/
def track (size : ℕ) (order : List K) (k : K) (b : SpillTable K) : Option (SpillTable K × Option ℕ) :=
  match b.table.lookup k with
  | none =>
    if b.table.keys.length < size then some (b.put k 1, some 1)
    else
      match b.table.firstKey order fun _ c => c == b.spill with
      | none => none
      | some (some old) => some (b.replace old k, some (b.spill + 1))
      | some none => some (b.overflow, none)
  | some c => some (b.put k (c + 1), some (c + 1))

def nextCount (size : ℕ) (k : K) (b : SpillTable K) : Option ℕ :=
  match b.table.lookup k with
  | none =>
    if b.table.keys.length < size then some 1
    else if b.spill ∈ b.table.values then some (b.spill + 1) else none
  | some c => some (c + 1)

theorem track_lookup {size : ℕ} {order : List K} {b' : SpillTable K}
    (h : b.track size order k = some (b', some c)) : b'.table.lookup k = some c := by
  unfold track at h
  split at h
  · split at h
    · cases h
      exact AList.lookup_insert _
    · split at h
      · cases h
      · cases h
        exact AList.lookup_insert _
      · cases h
  · cases h
    exact AList.lookup_insert _

theorem track_eq_nextCount {size : ℕ} {order : List K} {b' : SpillTable K} {counted : Option ℕ}
    (h : b.track size order k = some (b', counted)) : counted = b.nextCount size k := by
  unfold track at h
  unfold nextCount
  split at h
  · split at h
    · rename_i hroom
      cases h
      rw [if_pos hroom]
    · rename_i hroom
      rw [if_neg hroom]
      split at h
      · cases h
      · rename_i old hfirst
        cases h
        obtain ⟨v, hv, heq⟩ := firstKey_eq_some hfirst
        rw [if_pos (mem_values_iff.mpr ⟨old, beq_iff_eq.mp heq ▸ hv⟩)]
      · rename_i hfirst
        cases h
        refine (if_neg ?_).symm
        intro hmem
        obtain ⟨k', hk'⟩ := mem_values_iff.mp hmem
        have hne := firstKey_eq_none hfirst hk'
        rw [beq_self_eq_true] at hne
        cases hne
  · cases h
    rfl

end SpillTable

end MultiCoreMemory
