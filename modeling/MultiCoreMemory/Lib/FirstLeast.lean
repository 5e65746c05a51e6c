import Mathlib.Data.List.Basic
import Mathlib.Order.Lattice

/-!
# A scan for the first least element

A loop over a list keeps a candidate with its position and compares it with each element that follows.
-/

namespace MultiCoreMemory.FirstLeast

open List

variable {α β : Type*}

/-- The loop: the candidate, the position of the next element, and the elements from there on. -/
def scan (keeps : α → α → Bool) : ℕ × α → ℕ → List α → ℕ × α
  | candidate, _, [] => candidate
  | candidate, next, a :: l =>
    scan keeps (if keeps candidate.2 a then candidate else (next, a)) (next + 1) l

theorem scan_getElem? (keeps : α → α → Bool) (candidate : ℕ × α) (seen rest : List α)
    (h : (seen ++ rest)[candidate.1]? = some candidate.2) :
    (seen ++ rest)[(scan keeps candidate seen.length rest).1]? =
      some (scan keeps candidate seen.length rest).2 := by
  induction rest generalizing candidate seen with
  | nil => exact h
  | cons a rest ih =>
    have hsplit : seen ++ a :: rest = (seen ++ [a]) ++ rest := by simp
    have hlen : seen.length + 1 = (seen ++ [a]).length := by simp
    rw [scan, hsplit, hlen]
    apply ih
    split
    · rwa [← hsplit]
    · simp

variable [LinearOrder β] {key : α → β} {keeps : α → α → Bool} {l : List α} {i : ℕ} {a b : α}

/-- `a` stands at `i` and comes before every other element: its key is smaller, or equal and it stands
earlier. -/
structure IsFirstLeast (key : α → β) (l : List α) (i : ℕ) (a : α) : Prop where
  at_pos : l[i]? = some a
  least : ∀ {j b}, l[j]? = some b → key a < key b ∨ key a = key b ∧ i ≤ j

theorem IsFirstLeast.singleton (key : α → β) (a : α) : IsFirstLeast key [a] 0 a where
  at_pos := rfl
  least := by
    intro j b hb
    obtain ⟨rfl, rfl⟩ : j = 0 ∧ a = b := by simpa [getElem?_singleton] using hb
    exact .inr ⟨rfl, Nat.le_refl _⟩

theorem IsFirstLeast.lt_length (h : IsFirstLeast key l i a) : i < l.length :=
  (List.getElem?_eq_some_iff.mp h.at_pos).1

theorem getElem?_concat_cases {j : ℕ} {c : α} (h : (l ++ [b])[j]? = some c) :
    l[j]? = some c ∨ j = l.length ∧ c = b := by
  rw [getElem?_append] at h
  split at h
  · exact .inl h
  · rename_i hj
    obtain ⟨hzero, hc⟩ : j - l.length = 0 ∧ b = c := by simpa [getElem?_singleton] using h
    exact .inr ⟨by omega, hc.symm⟩

theorem IsFirstLeast.keep (h : IsFirstLeast key l i a) (hle : key a ≤ key b) :
    IsFirstLeast key (l ++ [b]) i a where
  at_pos := by rw [getElem?_append_left h.lt_length, h.at_pos]
  least := by
    intro j c hc
    rcases getElem?_concat_cases hc with hold | ⟨rfl, rfl⟩
    · exact h.least hold
    · exact hle.lt_or_eq.imp_right fun heq => ⟨heq, Nat.le_of_lt h.lt_length⟩

theorem IsFirstLeast.replace (h : IsFirstLeast key l i a) (hlt : key b < key a) :
    IsFirstLeast key (l ++ [b]) l.length b where
  at_pos := getElem?_concat_length
  least := by
    intro j c hc
    rcases getElem?_concat_cases hc with hold | ⟨rfl, rfl⟩
    · refine .inl ?_
      rcases h.least hold with hac | ⟨hac, -⟩
      · exact hlt.trans hac
      · exact hlt.trans_eq hac
    · exact .inr ⟨rfl, Nat.le_refl _⟩

/-- **The scan ends at the first least element.** -/
theorem scan_isFirstLeast (hkeeps : ∀ a b, keeps a b = true ↔ key a ≤ key b) (candidate : ℕ × α)
    (seen rest : List α) (h : IsFirstLeast key seen candidate.1 candidate.2) :
    IsFirstLeast key (seen ++ rest) (scan keeps candidate seen.length rest).1
      (scan keeps candidate seen.length rest).2 := by
  induction rest generalizing candidate seen with
  | nil =>
    rw [append_nil]
    exact h
  | cons b rest ih =>
    have hsplit : seen ++ b :: rest = (seen ++ [b]) ++ rest := by simp
    have hlen : seen.length + 1 = (seen ++ [b]).length := by simp
    rw [scan, hsplit, hlen]
    apply ih
    split
    · rename_i hkeep
      exact h.keep ((hkeeps _ _).mp hkeep)
    · rename_i hdrop
      rw [hkeeps, not_le] at hdrop
      exact h.replace hdrop

/-! ## A scan that keeps the value -/

/-- A loop that keeps the first element of least value: what it ends with. -/
theorem foldl_keep_least (f : α → β) (l : List α) (init : α × β) :
    let r := l.foldl (fun best a => if f a < best.2 then (a, f a) else best) init
    (∀ a ∈ l, r.2 ≤ f a) ∧ (r = init ∨ r.2 < init.2 ∧ r.1 ∈ l ∧ f r.1 = r.2) := by
  induction l generalizing init with
  | nil => exact ⟨(fun _ h => by cases h), .inl rfl⟩
  | cons a l ih =>
    rw [foldl_cons]
    obtain ⟨hall, hfrom⟩ := ih (if f a < init.2 then (a, f a) else init)
    by_cases ha : f a < init.2
    · rw [if_pos ha] at hall hfrom ⊢
      obtain hinit | ⟨hless, hmem, hval⟩ := hfrom
      · rw [hinit] at hall ⊢
        exact ⟨forall_mem_cons.mpr ⟨le_refl _, hall⟩, .inr ⟨ha, mem_cons_self, rfl⟩⟩
      · exact ⟨forall_mem_cons.mpr ⟨hless.le, hall⟩,
          .inr ⟨hless.trans ha, mem_cons_of_mem a hmem, hval⟩⟩
    · rw [if_neg ha] at hall hfrom ⊢
      obtain hinit | ⟨hless, hmem, hval⟩ := hfrom
      · rw [hinit] at hall ⊢
        exact ⟨forall_mem_cons.mpr ⟨not_lt.mp ha, hall⟩, .inl rfl⟩
      · exact ⟨forall_mem_cons.mpr ⟨hless.le.trans (not_lt.mp ha), hall⟩,
          .inr ⟨hless, mem_cons_of_mem a hmem, hval⟩⟩

end MultiCoreMemory.FirstLeast
