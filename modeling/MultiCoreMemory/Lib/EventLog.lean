import Mathlib.Data.List.Count
import Mathlib.Data.List.Nodup

/-!
# Logs of timed events

What a component has seen, as a list of events with the time of each, the newest first.
-/

namespace MultiCoreMemory.EventLog

open List

variable {α : Type*} [DecidableEq α] {log : List (ℕ × α)} {t time : ℕ} {e e' : α}

/-- How often an event happened from a time on. -/
def countSince (log : List (ℕ × α)) (t : ℕ) (e : α) : ℕ :=
  log.countP fun x => t ≤ x.1 ∧ x.2 = e

/-- A new event counts once, for itself. -/
theorem countSince_cons_self (h : t ≤ time) :
    countSince ((time, e) :: log) t e = countSince log t e + 1 := by
  simp [countSince, h]

theorem countSince_cons_of_ne (h : e' ≠ e) :
    countSince ((time, e') :: log) t e = countSince log t e := by
  simp [countSince, h]

/-- Before the time nothing counts. -/
theorem countSince_eq_zero (h : ∀ x ∈ log, x.1 < t) : countSince log t e = 0 := by
  refine countP_eq_zero.mpr fun x hx => ?_
  have hlt := h x hx
  simp only [decide_eq_true_eq, not_and]
  omega

theorem countSince_anti {t' : ℕ} (h : t ≤ t') : countSince log t' e ≤ countSince log t e := by
  refine countP_mono_left fun x _ hx => ?_
  simp only [decide_eq_true_eq] at hx ⊢
  exact ⟨Nat.le_trans h hx.1, hx.2⟩

/-- When the window moves by one, what happened at its first time leaves it. -/
theorem countSince_succ (hnodup : (log.map Prod.fst).Nodup) :
    countSince log t e = countSince log (t + 1) e + if (t, e) ∈ log then 1 else 0 := by
  induction log with
  | nil => rfl
  | cons x log ih =>
    obtain ⟨time, e'⟩ := x
    rw [map_cons, nodup_cons] at hnodup
    have hrest := ih hnodup.2
    unfold countSince at hrest ⊢
    rw [countP_cons, countP_cons, hrest]
    by_cases hx : (time, e') = (t, e)
    · cases hx
      have hnot : (t, e) ∉ log := fun hmem => hnodup.1 (List.mem_map_of_mem hmem)
      simp [hnot]
    · have hiff : t ≤ time ∧ e' = e ↔ t + 1 ≤ time ∧ e' = e := by
        constructor
        · rintro ⟨hle, rfl⟩
          have hne : time ≠ t := fun h => hx (by rw [h])
          exact ⟨by omega, rfl⟩
        · rintro ⟨hle, rfl⟩
          exact ⟨by omega, rfl⟩
      have hmem : (t, e) ∈ (time, e') :: log ↔ (t, e) ∈ log := by
        rw [mem_cons]
        exact ⟨fun h => h.resolve_left fun h => hx h.symm, .inr⟩
      simp only [hiff, hmem]
      omega

end MultiCoreMemory.EventLog
