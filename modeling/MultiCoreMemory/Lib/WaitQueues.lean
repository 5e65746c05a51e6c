import Mathlib.Data.List.Nodup
import Mathlib.Logic.Function.Basic

/-!
# Families of waiting queues

Threads that wait stand in queues; a thread stands in one queue at a time.
-/

namespace MultiCoreMemory

open List Function

namespace WaitQueues

variable {ι α : Type*} [DecidableEq ι] {queues : ι → List α} {waits : α → Prop}
  {i : ι} {a : α} {rest : List α}

/-- The elements that wait are those in some queue, each in one queue and once. -/
structure Placed (queues : ι → List α) (waits : α → Prop) : Prop where
  nodup : ∀ i, (queues i).Nodup
  unique : ∀ {i j a}, a ∈ queues i → a ∈ queues j → i = j
  waits_iff : ∀ a, waits a ↔ ∃ i, a ∈ queues i

omit [DecidableEq ι] in
theorem Placed.notMem (h : Placed queues waits) (ha : ¬ waits a) (i : ι) : a ∉ queues i :=
  fun hmem => ha ((h.waits_iff a).mpr ⟨i, hmem⟩)

omit [DecidableEq ι] in
theorem Placed.congr {waits' : α → Prop} (h : Placed queues waits) (heq : ∀ a, waits' a ↔ waits a) :
    Placed queues waits' :=
  ⟨h.nodup, h.unique, fun a => (heq a).trans (h.waits_iff a)⟩

theorem mem_update_iff {queue : List α} {j : ι} {b : α} :
    b ∈ Function.update queues i queue j ↔ (j = i ∧ b ∈ queue) ∨ (j ≠ i ∧ b ∈ queues j) := by
  by_cases hj : j = i
  · subst hj
    simp
  · simp [hj]

/-- A new element goes to the end of a queue, the first one leaves it. -/
theorem Placed.push (h : Placed queues waits) (ha : ¬ waits a) (i : ι) :
    Placed (Function.update queues i (queues i ++ [a])) fun b => b = a ∨ waits b := by
  have hnot := h.notMem ha
  have hmem : ∀ {j b}, b ∈ update queues i (queues i ++ [a]) j ↔
      b ∈ queues j ∨ (b = a ∧ j = i) := by
    intro j b
    rw [mem_update_iff, mem_append, mem_singleton]
    by_cases hj : j = i
    · subst hj
      simp
    · simp [hj]
  refine ⟨fun j => ?_, fun {j k b} hj hk => ?_, fun b => ?_⟩
  · by_cases hj : j = i
    · subst hj
      rw [update_self, nodup_append]
      refine ⟨h.nodup j, nodup_singleton a, ?_⟩
      rintro b hb _ (_ | ⟨_, ⟨⟩⟩) rfl
      exact hnot j hb
    · rw [update_of_ne hj]
      exact h.nodup j
  · obtain hold | ⟨rfl, rfl⟩ := hmem.mp hj
    · obtain hold' | ⟨rfl, -⟩ := hmem.mp hk
      · exact h.unique hold hold'
      · exact absurd hold (hnot j)
    · obtain hold' | ⟨-, rfl⟩ := hmem.mp hk
      · exact absurd hold' (hnot k)
      · rfl
  · simp only [hmem, h.waits_iff b]
    constructor
    · rintro (rfl | ⟨j, hj⟩)
      · exact ⟨i, .inr ⟨rfl, rfl⟩⟩
      · exact ⟨j, .inl hj⟩
    · rintro ⟨j, hj | ⟨rfl, -⟩⟩
      · exact .inr ⟨j, hj⟩
      · exact .inl rfl

theorem Placed.pop (h : Placed queues waits) (hqueue : queues i = a :: rest) :
    Placed (Function.update queues i rest) fun b => b ≠ a ∧ waits b := by
  have hai : a ∈ queues i := hqueue ▸ mem_cons_self
  have hnodup : a ∉ rest := (nodup_cons.mp (hqueue ▸ h.nodup i)).1
  have hmem : ∀ {j b}, b ∈ update queues i rest j ↔ b ≠ a ∧ b ∈ queues j := by
    intro j b
    rw [mem_update_iff]
    by_cases hj : j = i
    · subst hj
      rw [hqueue, mem_cons]
      constructor
      · rintro (⟨-, hb⟩ | ⟨hne, -⟩)
        · exact ⟨fun hba => hnodup (hba ▸ hb), .inr hb⟩
        · exact absurd rfl hne
      · rintro ⟨hne, hb⟩
        exact .inl ⟨rfl, hb.resolve_left hne⟩
    · constructor
      · rintro (⟨hji, -⟩ | ⟨-, hb⟩)
        · exact absurd hji hj
        · exact ⟨fun hba => hj (h.unique (hba ▸ hb) hai), hb⟩
      · exact fun hb => .inr ⟨hj, hb.2⟩
  refine ⟨fun j => ?_, fun hj hk => h.unique (hmem.mp hj).2 (hmem.mp hk).2, fun b => ?_⟩
  · by_cases hj : j = i
    · subst hj
      rw [update_self]
      exact (nodup_cons.mp (hqueue ▸ h.nodup j)).2
    · rw [update_of_ne hj]
      exact h.nodup j
  · simp only [hmem, h.waits_iff b, exists_and_left]

omit [DecidableEq ι] in
/-- A waiting element stands in one queue, once, and in no other. -/
theorem Placed.exists_unique [DecidableEq α] (h : Placed queues waits) (ha : waits a) :
    ∃ i, (queues i).count a = 1 ∧ ∀ j, j ≠ i → a ∉ queues j := by
  obtain ⟨i, hi⟩ := (h.waits_iff a).mp ha
  exact ⟨i, count_eq_one_of_mem (h.nodup i) hi, fun j hne hj => hne (h.unique hj hi)⟩

end WaitQueues

inductive WaitEvent where
  | stall
  | resume
  deriving DecidableEq, Repr

/-- Every stall is followed by one resume; the flag says whether the last stall is open. -/
inductive Alternating : List WaitEvent → Bool → Prop
  | nil : Alternating [] false
  | stall {l : List WaitEvent} : Alternating l false → Alternating (l ++ [.stall]) true
  | resume {l : List WaitEvent} : Alternating l true → Alternating (l ++ [.resume]) false

end MultiCoreMemory
