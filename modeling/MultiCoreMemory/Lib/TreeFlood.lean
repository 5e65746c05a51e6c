import Mathlib.Data.List.Nodup
import Mathlib.Data.List.Perm.Basic

/-!
# Flooding a rooted tree

A packet starts at the root, and every node it reaches passes it on to its children.  In which order the
nodes do so is left open.
-/

namespace MultiCoreMemory

open List

/-- The children of every node, with a rank that grows from a node to its children. -/
structure RootedTree (α : Type*) where
  node : α → Prop
  root : α
  children : α → List α
  root_node : node root
  child_node : ∀ {a b}, node a → b ∈ children a → node b
  children_nodup : ∀ {a}, node a → (children a).Nodup
  parent_unique : ∀ {a a' b}, node a → node a' → b ∈ children a → b ∈ children a' → a = a'
  root_no_child : ∀ {a}, node a → root ∉ children a
  rank : α → ℕ
  parent : ∀ {b}, node b → b ≠ root → ∃ a, node a ∧ b ∈ children a ∧ rank a < rank b

/-- The nodes in play are the root and the children of those reached, and all are different. -/
structure Flood {α : Type*} (t : RootedTree α) (reached frontier : List α) : Prop where
  inPlay : (reached ++ frontier).Perm (t.root :: reached.flatMap t.children)
  nodup : (reached ++ frontier).Nodup
  nodes : ∀ a ∈ reached ++ frontier, t.node a
  root_mem : t.root ∈ reached

namespace Flood

open scoped List

variable {α : Type*} {t : RootedTree α} {reached frontier reached' frontier' : List α} {a : α}

theorem start (t : RootedTree α) : Flood t [t.root] (t.children t.root) where
  inPlay := by simp
  nodup := nodup_cons.mpr ⟨t.root_no_child t.root_node, t.children_nodup t.root_node⟩
  nodes := by
    intro b hb
    rcases mem_cons.mp hb with rfl | hchild
    · exact t.root_node
    · exact t.child_node t.root_node hchild
  root_mem := mem_singleton_self _

theorem perm (h : Flood t reached frontier) (hr : reached'.Perm reached)
    (hf : frontier'.Perm frontier) : Flood t reached' frontier' where
  inPlay := (hr.append hf).trans (h.inPlay.trans ((hr.symm.flatMap_right _).cons _))
  nodup := (hr.append hf).nodup_iff.mpr h.nodup
  nodes := fun a ha => h.nodes a ((hr.append hf).mem_iff.mp ha)
  root_mem := hr.mem_iff.mpr h.root_mem

/-- **A node passes the packet on.** -/
theorem next (h : Flood t reached (a :: frontier)) :
    Flood t (a :: reached) (t.children a ++ frontier) := by
  have ha : t.node a := h.nodes a (mem_append_right _ mem_cons_self)
  have hplay : (a :: reached ++ (t.children a ++ frontier)).Perm
      (t.children a ++ (reached ++ a :: frontier)) := by
    calc a :: reached ++ (t.children a ++ frontier)
        = (a :: reached) ++ t.children a ++ frontier := (append_assoc ..).symm
      _ ~ t.children a ++ (a :: reached) ++ frontier := perm_append_comm.append_right _
      _ = t.children a ++ (a :: (reached ++ frontier)) := by simp
      _ ~ t.children a ++ (reached ++ a :: frontier) := perm_middle.symm.append_left _
  refine ⟨?_, ?_, ?_, mem_cons_of_mem _ h.root_mem⟩
  · calc a :: reached ++ (t.children a ++ frontier)
        ~ t.children a ++ (reached ++ a :: frontier) := hplay
      _ ~ t.children a ++ t.root :: reached.flatMap t.children := h.inPlay.append_left _
      _ ~ t.root :: (t.children a ++ reached.flatMap t.children) := perm_middle
      _ = t.root :: (a :: reached).flatMap t.children := by rw [flatMap_cons]
  · rw [hplay.nodup_iff]
    refine (t.children_nodup ha).append h.nodup ?_
    -- a child of `a` is in play only if `a` has been reached before
    intro b hchild hb
    rcases mem_cons.mp (h.inPlay.mem_iff.mp hb) with rfl | hother
    · exact t.root_no_child ha hchild
    · obtain ⟨a', ha', hchild'⟩ := mem_flatMap.mp hother
      have hnode' : t.node a' := h.nodes a' (mem_append_left _ ha')
      obtain rfl := t.parent_unique ha hnode' hchild hchild'
      exact (nodup_append.mp h.nodup).2.2 a ha' a mem_cons_self rfl
  · intro b hb
    rcases mem_append.mp (hplay.mem_iff.mp hb) with hchild | hold
    · exact t.child_node ha hchild
    · exact h.nodes b hold

theorem root_notMem (h : Flood t reached frontier) : t.root ∉ frontier := fun hmem =>
  (nodup_append.mp h.nodup).2.2 _ h.root_mem _ hmem rfl

/-- **When the packet is nowhere on its way, every node has been reached.** -/
theorem mem_reached (h : Flood t reached []) {b : α} (hb : t.node b) : b ∈ reached := by
  induction hn : t.rank b using Nat.strongRecOn generalizing b with
  | ind n ih =>
    have hplay := h.inPlay
    rw [append_nil] at hplay
    rw [hplay.mem_iff, mem_cons]
    by_cases hroot : b = t.root
    · exact .inl hroot
    · obtain ⟨a, ha, hchild, hlt⟩ := t.parent hb hroot
      exact .inr (mem_flatMap.mpr ⟨a, ih _ (hn ▸ hlt) ha rfl, hchild⟩)

end Flood

end MultiCoreMemory
