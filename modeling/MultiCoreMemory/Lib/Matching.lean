import Mathlib.Logic.Function.Basic
import Mathlib.Data.Fintype.Card

/-!
# One-to-one correspondences kept in two tables

A program that assigns things to places often keeps the assignment twice, once on each side.
-/

namespace MultiCoreMemory

open Option Function Finset

variable {α β : Type*} [DecidableEq α] [DecidableEq β] {f : α → Option β} {g : β → Option α}
  {a : α} {b : β}

/-- The two tables are inverse to each other. -/
def Matches (f : α → Option β) (g : β → Option α) : Prop := ∀ a b, f a = some b ↔ g b = some a

namespace Matches

omit [DecidableEq α] [DecidableEq β] in
theorem eq_none (h : Matches f g) (hb : g b = none) (a : α) : f a ≠ some b := by
  intro ha
  rw [h, hb] at ha
  cases ha

/-- A pair is taken out of both tables. -/
theorem unlink (h : Matches f g) (hab : f a = some b) :
    Matches (Function.update f a none) (Function.update g b none) := by
  intro a' b'
  by_cases ha : a' = a
  · subst ha
    rw [update_self]
    refine iff_of_false nofun fun hb' => ?_
    by_cases hb : b' = b
    · subst hb
      rw [update_self] at hb'
      cases hb'
    · rw [update_of_ne hb, ← h, hab] at hb'
      exact hb (some.inj hb').symm
  · rw [update_of_ne ha]
    by_cases hb : b' = b
    · subst hb
      rw [update_self]
      refine iff_of_false (fun ha' => ?_) nofun
      rw [h, (h a b').mp hab] at ha'
      exact ha (some.inj ha').symm
    · rw [update_of_ne hb]
      exact h a' b'

theorem link (h : Matches f g) (ha : f a = none) (hb : g b = none) :
    Matches (Function.update f a (some b)) (Function.update g b (some a)) := by
  intro a' b'
  by_cases haa : a' = a
  · subst haa
    by_cases hbb : b' = b
    · subst hbb
      simp
    · rw [update_self, update_of_ne hbb, ← h, ha]
      exact iff_of_false (fun heq => hbb (some.inj heq).symm) nofun
  · rw [update_of_ne haa]
    by_cases hbb : b' = b
    · subst hbb
      rw [update_self]
      exact iff_of_false (h.eq_none hb a') fun heq => haa (some.inj heq).symm
    · rw [update_of_ne hbb]
      exact h a' b'

end Matches

section

variable [Fintype β]

variable (g : β → Option α)

/-- The number of places without a thing. -/
def freePlaces : ℕ := (univ.filter fun b => (g b).isNone).card

omit [DecidableEq α] in
theorem freePlaces_fill (b : β) (a : α) :
    freePlaces (Function.update g b (some a)) + 1 = freePlaces g + if g b = none then 0 else 1 := by
  have hfilled : (univ.filter fun b' => (update g b (some a) b').isNone) =
      (univ.filter fun b' => (g b').isNone).erase b := by
    ext b'
    by_cases hb : b' = b
    · subst hb
      simp
    · simp [hb]
  unfold freePlaces
  rw [hfilled]
  split
  · rename_i hfree
    have hmem : b ∈ univ.filter fun b' => (g b').isNone := by simp [hfree]
    rw [card_erase_add_one hmem, Nat.add_zero]
  · rename_i hfull
    have hnot : b ∉ univ.filter fun b' => (g b').isNone := by simp [hfull]
    rw [erase_eq_of_notMem hnot]

omit [DecidableEq α] [DecidableEq β] in
theorem freePlaces_le (b : β) : (freePlaces g + if g b = none then 0 else 1) ≤ Fintype.card β := by
  unfold freePlaces
  split
  · exact card_le_univ _
  · rename_i hfull
    have hlt : (univ.filter fun b => (g b).isNone).card < (univ : Finset β).card := by
      refine card_lt_card (filter_ssubset.mpr ⟨b, mem_univ b, ?_⟩)
      simp [hfull]
    exact hlt

end

end MultiCoreMemory
