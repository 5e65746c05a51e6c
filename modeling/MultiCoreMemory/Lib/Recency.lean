import Mathlib.Data.List.Nodup
import Mathlib.Data.List.Perm.Basic

/-!
# Orders by recency of use

Elements are listed by their last use, the most recent first; a use moves an element to the front.
-/

namespace MultiCoreMemory.Recency

open List

variable {α : Type*} [DecidableEq α] {l : List α} {a b : α}

/-- One use. -/
def moveToFront (l : List α) (a : α) : List α := a :: l.erase a

def recency (initial uses : List α) : List α := uses.foldr (fun a l => moveToFront l a) initial

theorem recency_cons (initial uses : List α) (a : α) :
    recency initial (a :: uses) = moveToFront (recency initial uses) a := rfl

theorem moveToFront_perm (h : a ∈ l) : (moveToFront l a).Perm l := (perm_cons_erase h).symm

/-- The elements stay the same. -/
theorem recency_perm {initial uses : List α} (h : ∀ a ∈ uses, a ∈ initial) :
    (recency initial uses).Perm initial := by
  induction uses with
  | nil => exact .refl _
  | cons a uses ih =>
    have hrest := ih fun b hb => h b (mem_cons_of_mem a hb)
    exact (moveToFront_perm (hrest.mem_iff.mpr (h a mem_cons_self))).trans hrest

theorem idxOf_moveToFront_self : (moveToFront l a).idxOf a = 0 := idxOf_cons_self

/-- The ranks after a use: elements more recent than the used one move back one place. -/
theorem idxOf_moveToFront (ha : a ∈ l) (hb : b ∈ l) (hba : b ≠ a) :
    (moveToFront l a).idxOf b = if l.idxOf b < l.idxOf a then l.idxOf b + 1 else l.idxOf b := by
  rw [moveToFront, idxOf_cons_ne _ (Ne.symm hba)]
  induction l with
  | nil => cases ha
  | cons x l ih =>
    by_cases hxa : x = a
    · subst hxa
      rw [erase_cons_head, idxOf_cons_self, idxOf_cons_ne _ (Ne.symm hba), if_neg (by omega)]
    · have hax : a ∈ l := (mem_cons.mp ha).resolve_left (Ne.symm hxa)
      rw [erase_cons_tail (by simpa using hxa), idxOf_cons_ne l hxa]
      by_cases hxb : x = b
      · subst hxb
        rw [idxOf_cons_self, idxOf_cons_self, if_pos (by omega)]
      · have hbx : b ∈ l := (mem_cons.mp hb).resolve_left (Ne.symm hxb)
        have hrest := ih hax hbx
        rw [idxOf_cons_ne _ hxb, idxOf_cons_ne l hxb]
        split at hrest <;> split <;> omega

/-- **The order is by the last use**; the uses list the latest one first. -/
theorem idxOf_recency_lt_iff {initial uses : List α} (h : ∀ c ∈ uses, c ∈ initial) (ha : a ∈ uses)
    (hb : b ∈ initial) (hba : b ≠ a) :
    (recency initial uses).idxOf a < (recency initial uses).idxOf b ↔
      uses.idxOf a < uses.idxOf b := by
  induction uses with
  | nil => cases ha
  | cons x uses ih =>
    have hrest := fun c hc => h c (mem_cons_of_mem x hc)
    have hmem : ∀ {c}, c ∈ initial → c ∈ recency initial uses := (recency_perm hrest).mem_iff.mpr
    have hx := hmem (h x mem_cons_self)
    rw [recency_cons]
    by_cases hxa : a = x
    · subst hxa
      rw [idxOf_moveToFront_self, idxOf_cons_self, idxOf_moveToFront hx (hmem hb) hba,
        idxOf_cons_ne _ (Ne.symm hba)]
      have hplace : (recency initial uses).idxOf b ≠ (recency initial uses).idxOf a :=
        fun heq => hba ((idxOf_inj (hmem hb)).mp heq)
      split <;> omega
    · have hused := (mem_cons.mp ha).resolve_left hxa
      have hain := hmem (hrest a hused)
      have hplace : (recency initial uses).idxOf a ≠ (recency initial uses).idxOf x :=
        fun heq => hxa ((idxOf_inj hain).mp heq)
      rw [idxOf_cons_ne _ (Ne.symm hxa)]
      by_cases hxb : b = x
      · subst hxb
        rw [idxOf_moveToFront_self, idxOf_cons_self]
        omega
      · have hplace' : (recency initial uses).idxOf b ≠ (recency initial uses).idxOf x :=
          fun heq => hxb ((idxOf_inj (hmem hb)).mp heq)
        have hiff := ih hrest hused
        rw [idxOf_moveToFront hx hain hxa, idxOf_moveToFront hx (hmem hb) hxb,
          idxOf_cons_ne _ (Ne.symm hxb), Nat.succ_lt_succ_iff, ← hiff]
        split <;> split <;> omega

end MultiCoreMemory.Recency
