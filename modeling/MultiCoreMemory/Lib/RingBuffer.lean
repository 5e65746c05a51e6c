import Mathlib.Data.Int.ModEq

/-!
# The contents of a circular buffer

A circular buffer of `depth` slots whose oldest element is at `tail`, as the list of its `n` elements.
-/

namespace MultiCoreMemory.RingBuffer

open List

variable {α β : Type*} {f f' : ℕ → α} {depth tail n : ℕ}

def contents (f : ℕ → α) (depth tail n : ℕ) : List α :=
  (List.range n).map fun j => f ((tail + j) % depth)

@[simp] theorem length_contents : (contents f depth tail n).length = n := by
  simp [contents]

theorem slot_ne {j : ℕ} (hj : j < n) (hn : n < depth) : (tail + j) % depth ≠ (tail + n) % depth := by
  intro h
  have hmod : j ≡ n [MOD depth] := Nat.ModEq.add_left_cancel' tail h
  have heq : j = n := hmod.eq_of_lt_of_lt (hj.trans hn) hn
  omega

/-- The slots that a walk from the tail visits. -/
theorem exists_slot_succ {i : ℕ} : (∃ j < n + 1, (tail + j) % depth = i) ↔
    tail % depth = i ∨ ∃ j < n, ((tail + 1) % depth + j) % depth = i := by
  constructor
  · rintro ⟨j, hj, hi⟩
    cases j with
    | zero => exact .inl hi
    | succ j =>
      refine .inr ⟨j, by omega, ?_⟩
      rw [Nat.mod_add_mod, Nat.add_assoc, Nat.add_comm 1 j]
      exact hi
  · rintro (hi | ⟨j, hj, hi⟩)
    · exact ⟨0, by omega, hi⟩
    · refine ⟨j + 1, by omega, ?_⟩
      rw [Nat.mod_add_mod, Nat.add_assoc, Nat.add_comm 1 j] at hi
      exact hi

/-- Rewriting the occupied slots. -/
theorem contents_map {f' : ℕ → β} (g : α → β)
    (h : ∀ j < n, f' ((tail + j) % depth) = g (f ((tail + j) % depth))) :
    contents f' depth tail n = (contents f depth tail n).map g := by
  unfold contents
  rw [List.map_map]
  refine map_congr_left ?_
  intro j hj
  exact h j (mem_range.mp hj)

/-- Writing the slot after the newest element appends it; advancing the tail drops the oldest. -/
theorem contents_push (hn : n < depth) (hother : ∀ i, i ≠ (tail + n) % depth → f' i = f i) :
    contents f' depth tail (n + 1) = contents f depth tail n ++ [f' ((tail + n) % depth)] := by
  have hold : contents f' depth tail n = contents f depth tail n := by
    rw [contents_map (f := f) id, List.map_id]
    intro j hj
    exact hother _ (slot_ne hj hn)
  rw [← hold]
  unfold contents
  rw [range_succ, map_append, map_singleton]

theorem contents_pop :
    contents f depth tail (n + 1) =
      f (tail % depth) :: contents f depth ((tail + 1) % depth) n := by
  unfold contents
  rw [range_succ_eq_map, map_cons, List.map_map]
  refine congrArg (cons _) (map_congr_left ?_)
  intro j _
  show f ((tail + (j + 1)) % depth) = f (((tail + 1) % depth + j) % depth)
  rw [Nat.mod_add_mod, Nat.add_assoc, Nat.add_comm 1 j]

end MultiCoreMemory.RingBuffer
