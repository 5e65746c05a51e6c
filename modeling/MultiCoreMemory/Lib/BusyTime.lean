import Mathlib

/-!
# Busy time counted online

Half-open intervals end one after the other, in any order of their starts, and the time they cover is
counted with one mark, the latest end so far: an interval that ends after the mark adds its part from
the mark on.
-/

namespace MultiCoreMemory.BusyTime

open List Finset

structure Meter where
  mark : ℤ := 0
  total : ℤ := 0
  deriving DecidableEq, Repr

def Meter.add (m : Meter) (i : ℤ × ℤ) : Meter :=
  if m.mark < i.2 then { mark := i.2, total := m.total + (i.2 - max m.mark i.1) } else m

variable (l : List (ℤ × ℤ))

def meter : Meter := l.foldl Meter.add {}

noncomputable def covered : Finset ℤ := l.toFinset.biUnion fun i => Finset.Ico i.1 i.2

/-- The part of an interval before the mark that the intervals before it do not cover. -/
noncomputable def missed (i : ℤ × ℤ) : Finset ℤ :=
  (Finset.Ico i.1 i.2).filter fun x => x < (meter l).mark ∧ x ∉ covered l

structure Counted (l : List (ℤ × ℤ)) (i : ℤ × ℤ) : Prop where
  noneMissed : missed l i = ∅
  /-- an interval that moves the mark does not end before it starts -/
  ordered : (meter l).mark < i.2 → i.1 ≤ i.2

def AllCounted : Prop := ∀ pre i post, l = pre ++ i :: post → Counted pre i

variable {l : List (ℤ × ℤ)} {i : ℤ × ℤ}

theorem meter_concat (l : List (ℤ × ℤ)) (i : ℤ × ℤ) : meter (l ++ [i]) = (meter l).add i :=
  foldl_concat ..

theorem covered_concat (l : List (ℤ × ℤ)) (i : ℤ × ℤ) :
    covered (l ++ [i]) = covered l ∪ Finset.Ico i.1 i.2 := by
  unfold covered
  rw [toFinset_append, union_biUnion]
  simp

theorem allCounted_concat (l : List (ℤ × ℤ)) (i : ℤ × ℤ) :
    AllCounted (l ++ [i]) ↔ AllCounted l ∧ Counted l i := by
  constructor
  · intro h
    refine ⟨?_, h l i [] rfl⟩
    intro pre j post hl
    refine h pre j (post ++ [i]) ?_
    rw [hl, append_assoc, cons_append]
  · rintro ⟨hl, hi⟩ pre j post heq
    rcases eq_nil_or_concat post with rfl | ⟨post', k, rfl⟩
    · obtain ⟨rfl, hji⟩ := append_inj' heq rfl
      cases hji
      exact hi
    · refine hl pre j post' ?_
      have hsplit : l ++ [i] = (pre ++ j :: post') ++ [k] := by simpa using heq
      exact (append_inj' hsplit rfl).1

theorem lt_mark_of_mem_covered {x : ℤ} (h : x ∈ covered l) : x < (meter l).mark := by
  induction l using reverseRecOn with
  | nil => simp [covered] at h
  | append_singleton l i ih =>
    rw [covered_concat, mem_union, mem_Ico] at h
    rw [meter_concat, Meter.add]
    rcases h with hold | hnew
    · have hlt := ih hold
      split
      · rename_i hmark
        exact hlt.trans hmark
      · exact hlt
    · split
      · exact hnew.2
      · rename_i hmark
        exact hnew.2.trans_le (not_lt.mp hmark)

/-- What an interval adds to the union: its part from the mark on, and what was missed before. -/
theorem card_covered_concat (l : List (ℤ × ℤ)) (i : ℤ × ℤ) :
    (covered (l ++ [i])).card =
      (covered l).card + ((missed l i).card + (i.2 - max (meter l).mark i.1).toNat) := by
  have hnew : Finset.Ico i.1 i.2 \ covered l =
      missed l i ∪ Finset.Ico (max (meter l).mark i.1) i.2 := by
    ext x
    have hx : x ∈ covered l → x < (meter l).mark := lt_mark_of_mem_covered
    simp only [missed, mem_sdiff, mem_union, Finset.mem_filter, mem_Ico,
      max_le_iff]
    constructor
    · rintro ⟨hi, hnot⟩
      by_cases hmark : x < (meter l).mark
      · exact .inl ⟨hi, hmark, hnot⟩
      · exact .inr ⟨⟨not_lt.mp hmark, hi.1⟩, hi.2⟩
    · rintro (⟨hi, -, hnot⟩ | ⟨⟨hmark, hi⟩, hlt⟩)
      · exact ⟨hi, hnot⟩
      · exact ⟨⟨hi, hlt⟩, fun hold => absurd (hx hold) (not_lt.mpr hmark)⟩
  have hdisjoint : Disjoint (missed l i) (Finset.Ico (max (meter l).mark i.1) i.2) := by
    rw [Finset.disjoint_left]
    intro x hmissed hlate
    have hlt := (Finset.mem_filter.mp hmissed).2.1
    have hle := (le_max_left _ _).trans (mem_Ico.mp hlate).1
    omega
  rw [covered_concat, ← union_sdiff_self_eq_union, card_union_of_disjoint
    disjoint_sdiff, hnew, card_union_of_disjoint hdisjoint, Int.card_Ico]

theorem lack_concat (l : List (ℤ × ℤ)) (i : ℤ × ℤ) :
    ∃ lack : ℕ, (lack = 0 ↔ Counted l i) ∧
      ((covered (l ++ [i])).card : ℤ) - (meter (l ++ [i])).total =
        (covered l).card - (meter l).total + lack := by
  have hcard := card_covered_concat l i
  have hmissed : (missed l i).card = 0 ↔ missed l i = ∅ := card_eq_zero
  rw [meter_concat, Meter.add]
  by_cases hmark : (meter l).mark < i.2
  · rw [if_pos hmark]
    dsimp only
    refine ⟨(missed l i).card + (i.1 - i.2).toNat, ?_, ?_⟩
    · constructor
      · intro hzero
        exact ⟨hmissed.mp (by omega), fun _ => by omega⟩
      · rintro ⟨hnone, hordered⟩
        have := hordered hmark
        have := hmissed.mpr hnone
        omega
    · rw [hcard]
      push_cast
      omega
  · rw [if_neg hmark]
    refine ⟨(missed l i).card, ?_, ?_⟩
    · rw [hmissed]
      exact ⟨fun hnone => ⟨hnone, fun h => absurd h hmark⟩, fun h => h.noneMissed⟩
    · rw [hcard]
      push_cast
      omega

/-- The count is never too large, and exact when every interval was counted as what it adds. -/
theorem total_spec (l : List (ℤ × ℤ)) :
    (meter l).total ≤ (covered l).card ∧ ((meter l).total = (covered l).card ↔ AllCounted l) := by
  induction l using reverseRecOn with
  | nil =>
    refine ⟨le_rfl, fun _ => ?_, fun _ => rfl⟩
    intro pre i post h
    simp at h
  | append_singleton l i ih =>
    obtain ⟨lack, hlack, hdiff⟩ := lack_concat l i
    obtain ⟨hle, hiff⟩ := ih
    rw [allCounted_concat, ← hiff, ← hlack]
    omega

theorem total_le_card (l : List (ℤ × ℤ)) : (meter l).total ≤ (covered l).card := (total_spec l).1

/-- The count is the size of the union exactly when no interval has a missed part. -/
theorem total_eq_card_iff (l : List (ℤ × ℤ)) :
    (meter l).total = (covered l).card ↔ AllCounted l := (total_spec l).2

end MultiCoreMemory.BusyTime
