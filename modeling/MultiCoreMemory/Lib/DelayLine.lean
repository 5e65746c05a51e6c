import Mathlib.Data.Int.Notation
import Mathlib.Data.List.Basic

/-!
# A queue of deadlines that is popped at most once a cycle
-/

namespace MultiCoreMemory.DelayLine

open List

variable {α : Type*} {deadline : α → ℤ} {now : ℤ} {q : List α}

/-- The element that leaves the queue in a cycle, and the queue after it. -/
def popDue (deadline : α → ℤ) (now : ℤ) : List α → Option α × List α
  | [] => (none, [])
  | a :: q => if deadline a ≤ now then (some a, q) else (none, a :: q)

theorem popDue_cons (a : α) : popDue deadline now (a :: q) =
    if deadline a ≤ now then (some a, q) else (none, a :: q) := rfl

/-- The deadlines increase along the queue and lie in the future. -/
structure Spaced (deadline : α → ℤ) (now : ℤ) (q : List α) : Prop where
  ordered : q.Pairwise fun a b => deadline a < deadline b
  future : ∀ a ∈ q, now < deadline a

theorem Spaced.nil : Spaced deadline now [] := ⟨.nil, forall_mem_nil _⟩

/-- A queue given later deadlines only stays so, and every element leaves at its deadline. -/
theorem Spaced.push (h : Spaced deadline now q) {b : α} (hlast : ∀ a ∈ q, deadline a < deadline b)
    (hnow : now < deadline b) : Spaced deadline now (q ++ [b]) where
  ordered := by
    rw [pairwise_append]
    refine ⟨h.ordered, pairwise_singleton _ _, ?_⟩
    intro a ha b' hb'
    rw [mem_singleton.mp hb']
    exact hlast a ha
  future := by
    intro a ha
    rcases mem_append.mp ha with ha | ha
    · exact h.future a ha
    · rw [mem_singleton.mp ha]
      exact hnow

/-- **One cycle of a spaced queue**: what leaves is due in this cycle, the rest later. -/
theorem Spaced.popDue (h : Spaced deadline now q) :
    Spaced deadline (now + 1) (popDue deadline (now + 1) q).2 ∧
      (∀ a, (DelayLine.popDue deadline (now + 1) q).1 = some a → a ∈ q ∧ deadline a = now + 1) ∧
      ∀ a ∈ q, (DelayLine.popDue deadline (now + 1) q).1 = some a ∨
        a ∈ (DelayLine.popDue deadline (now + 1) q).2 := by
  cases q with
  | nil =>
    refine ⟨.nil, ?_, forall_mem_nil _⟩
    intro a ha
    cases ha
  | cons b q =>
    obtain ⟨hbefore, hordered⟩ := pairwise_cons.mp h.ordered
    have hb := h.future b mem_cons_self
    rw [popDue_cons]
    split
    · rename_i hdue
      refine ⟨⟨hordered, ?_⟩, ?_, ?_⟩
      · intro a ha
        have := hbefore a ha
        omega
      · intro a ha
        cases ha
        exact ⟨mem_cons_self, by omega⟩
      · intro a ha
        rcases mem_cons.mp ha with rfl | ha
        · exact .inl rfl
        · exact .inr ha
    · rename_i hdue
      refine ⟨⟨h.ordered, ?_⟩, ?_, fun a ha => .inr ha⟩
      · intro a ha
        rcases mem_cons.mp ha with rfl | ha
        · omega
        · have := hbefore a ha
          omega
      · intro a ha
        cases ha

theorem mem_of_mem_popDue {a : α} (h : a ∈ (popDue deadline now q).2) : a ∈ q := by
  cases q with
  | nil => cases h
  | cons b q =>
    rw [popDue_cons] at h
    split at h
    · exact mem_cons_of_mem b h
    · exact h

/-- An element behind another one stays. -/
theorem mem_popDue_append (hq : q ≠ []) (a : α) : a ∈ (popDue deadline now (q ++ [a])).2 := by
  cases q with
  | nil => exact absurd rfl hq
  | cons b q =>
    rw [cons_append, popDue_cons]
    split <;> simp

end MultiCoreMemory.DelayLine
