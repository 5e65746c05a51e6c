import Mathlib.Order.Lattice
import Mathlib.Order.Bounds.Basic

/-!
# First come, first served

Requests, each an arrival and a duration, are served in their order by a number of equal servers.  A
request begins at the first time, not before its arrival, at which fewer earlier ones are unfinished than
there are servers.
-/

namespace MultiCoreMemory.FCFSQueue

def unfinished (served : List (ℕ × ℕ)) (t : ℕ) : ℕ := served.countP fun i => t < i.2

def inService (served : List (ℕ × ℕ)) (t : ℕ) : ℕ := served.countP fun i => i.1 ≤ t ∧ t < i.2

def IsBegin (m : ℕ) (served : List (ℕ × ℕ)) (arrival start : ℕ) : Prop :=
  IsLeast {t | arrival ≤ t ∧ unfinished served t < m} start

/-- The intervals in which `m` servers serve the requests, after those that were served before. -/
def Serves (m : ℕ) : List (ℕ × ℕ) → List (ℕ × ℕ) → List (ℕ × ℕ) → Prop
  | _, [], intervals => intervals = []
  | _, _ :: _, [] => False
  | served, (arrival, duration) :: requests, i :: intervals =>
    IsBegin m served arrival i.1 ∧ i.2 = i.1 + duration ∧ Serves m (i :: served) requests intervals

variable {m : ℕ} {served requests intervals : List (ℕ × ℕ)}

theorem unfinished_anti {t t' : ℕ} (h : t ≤ t') : unfinished served t' ≤ unfinished served t :=
  List.countP_mono_left fun i _ hi => by simp at hi ⊢; omega

theorem IsBegin.inService_cons_le {arrival : ℕ} {i : ℕ × ℕ} (h : IsBegin m served arrival i.1)
    (hserved : ∀ t, inService served t ≤ m) (t : ℕ) : inService (i :: served) t ≤ m := by
  unfold inService
  rw [List.countP_cons]
  split
  · rename_i hin
    have hle : inService served t ≤ unfinished served t :=
      List.countP_mono_left fun i _ hi => by simp at hi ⊢; omega
    have hlt : unfinished served t < m :=
      (unfinished_anti (by simp at hin; omega)).trans_lt h.1.2
    exact Nat.succ_le_of_lt (hle.trans_lt hlt)
  · exact hserved t

/-- **No more requests are in service at a time than there are servers.** -/
theorem Serves.inService_add_le (h : Serves m served requests intervals)
    (hserved : ∀ t, inService served t ≤ m) (t : ℕ) : inService served t + inService intervals t ≤ m := by
  fun_induction Serves m served requests intervals with
  | case1 served intervals =>
    subst h
    exact hserved t
  | case2 => cases h
  | case3 served arrival duration requests i intervals ih =>
    obtain ⟨hbegin, -, hrest⟩ := h
    have hle := ih hrest (hbegin.inService_cons_le hserved)
    unfold inService at hle ⊢
    rw [List.countP_cons] at hle ⊢
    omega

end MultiCoreMemory.FCFSQueue
