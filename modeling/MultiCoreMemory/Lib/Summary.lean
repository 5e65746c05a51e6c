import Mathlib.Data.List.Basic
import Mathlib.Data.Int.Order.Basic
import Mathlib.Tactic

/-!
# Summaries of an unbounded history

Two summaries a simulator keeps instead of the list of everything that happened.
-/

namespace MultiCoreMemory

section

variable {K α : Type*} [DecidableEq K]

def raise (table : K → ℤ) (k : K) (v : ℤ) : K → ℤ := Function.update table k (max (table k) v)

/-- A table of running maxima, raised entry by entry. -/
def raiseAll (key : α → K) (future : α → Option ℤ) (entries : List α) (table : K → ℤ) : K → ℤ :=
  entries.foldl (fun tab t => match future t with
    | some v => raise tab (key t) v
    | none => tab) table

theorem raise_le_iff {table : K → ℤ} {k k' : K} {v x : ℤ} :
    raise table k v k' ≤ x ↔ table k' ≤ x ∧ (k = k' → v ≤ x) := by
  unfold raise
  by_cases h : k' = k
  · subst h; simp
  · simp [Function.update_of_ne h, Ne.symm h]

theorem raiseAll_le_iff {key : α → K} {future : α → Option ℤ} {entries : List α} {table : K → ℤ}
    {k : K} {x : ℤ} :
    raiseAll key future entries table k ≤ x ↔
      table k ≤ x ∧ ∀ t ∈ entries, key t = k → ∀ v, future t = some v → v ≤ x := by
  induction entries generalizing table with
  | nil => simp [raiseAll]
  | cons t ts ih =>
    have hstep : raiseAll key future (t :: ts) table = raiseAll key future ts
        (match future t with | some v => raise table (key t) v | none => table) := rfl
    rw [hstep, ih]
    cases hf : future t with
    | none => simp [hf]
    | some v => simp [hf, raise_le_iff, and_assoc]

end

section

/-- The `w` newest stamps of a history (newest first), `-1` where there is none. -/
def recent (w : ℕ) (hist : List ℕ) : List ℤ :=
  (hist.map (fun c : ℕ => (c : ℤ)) ++ List.replicate w (-1)).take w

theorem recent_length (w : ℕ) (hist : List ℕ) : (recent w hist).length = w := by
  simp [recent]

theorem recent_nil (w : ℕ) : recent w [] = List.replicate w (-1) := by
  simp [recent]

theorem recent_push {w : ℕ} (hw : 0 < w) (c : ℕ) (hist : List ℕ) :
    recent w (c :: hist) = (c : ℤ) :: (recent w hist).dropLast := by
  obtain ⟨w, rfl⟩ : ∃ v, w = v + 1 := ⟨w - 1, by omega⟩
  rw [List.dropLast_eq_take, recent_length]
  simp [recent, List.take_take]

theorem recent_getD {w i : ℕ} (hi : i < w) (hist : List ℕ) :
    (recent w hist).getD i (-1) = match hist[i]? with
      | some c => (c : ℤ)
      | none => -1 := by
  rw [recent, List.getD_eq_getElem?_getD, List.getElem?_take_of_lt hi]
  by_cases hlt : i < hist.length
  · simp [List.getElem?_append, hlt]
  · have hrep : i - hist.length < w := by omega
    simp [List.getElem?_append, hlt, hrep]

end

end MultiCoreMemory
