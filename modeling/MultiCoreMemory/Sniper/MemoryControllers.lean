import MultiCoreMemory.Sniper.MeshRouting

/-!
# The cores of the memory controllers (`network_model_emesh_hop_by_hop.cc`)

The controllers are spread at a fixed spacing over the list of the perimeter.  In a mesh of one column
the list goes down the column and up again.
-/

namespace MultiCoreMemory.Mesh

open List Nat

section

variable (m : Mesh) (dimensions n : ℕ)

/-- The nodes from `(0,0)` on: row 0, right column, last row, left column. -/
def coreIdListAlongPerimeter : List ℕ :=
  range m.width ++
    if dimensions > 1 ∧ m.height > 1 then
      (range' 1 (m.height - 2)).map (fun i => i * m.width + m.width - 1) ++
      (range m.width).reverse.map (fun i => (m.height - 1) * m.width + i) ++
      (range' 1 (m.height - 2)).reverse.map (fun i => i * m.width)
    else []

/-- The node that the loop takes for memory controller `i`. -/
def memoryControllerNode (i : ℕ) : ℕ :=
  let perimeter := m.coreIdListAlongPerimeter dimensions
  perimeter.getD ((i * (perimeter.length / n) + m.width / 2) % perimeter.length) 0

def computeMemoryControllerPositions : Option (List ℕ) :=
  if (m.coreIdListAlongPerimeter dimensions).length < n then none
  else some ((range n).map fun i => m.concentration * m.memoryControllerNode dimensions n i)

def OnPerimeter (core : ℕ) : Prop :=
  core < m.applicationCores ∧ ((m.computePosition core).1 = 0 ∨
    (m.computePosition core).1 = m.width - 1 ∨ (m.computePosition core).2 = 0 ∨
    (m.computePosition core).2 = m.height - 1)
  deriving Decidable

def perimeterSize : ℕ :=
  ((range (m.width * m.height)).filter fun node => m.OnPerimeter (m.concentration * node)).length

def perimeterPositions : List (ℕ × ℕ) :=
  (range m.width).map (·, 0) ++
    if dimensions > 1 ∧ m.height > 1 then
      (range' 1 (m.height - 2)).map (m.width - 1, ·) ++
      (range m.width).reverse.map (·, m.height - 1) ++ (range' 1 (m.height - 2)).reverse.map (0, ·)
    else []

def node (p : ℕ × ℕ) : ℕ := p.2 * m.width + p.1

end

variable {m : Mesh} {dimensions n : ℕ} {p q : ℕ × ℕ}

theorem coreIdList_eq_map :
    m.coreIdListAlongPerimeter dimensions = (m.perimeterPositions dimensions).map m.node := by
  have hw := m.width_pos
  simp only [coreIdListAlongPerimeter, perimeterPositions, map_append, map_map, Function.comp_def,
    node, zero_mul, zero_add, map_id']
  split
  · simp [Nat.add_sub_assoc hw, Function.comp_def, node]
  · rfl

theorem of_mem_perimeterPositions (h : p ∈ m.perimeterPositions dimensions) :
    p.1 < m.width ∧ p.2 < m.height ∧
      (p.1 = 0 ∨ p.1 + 1 = m.width ∨ p.2 = 0 ∨ p.2 + 1 = m.height) := by
  have hw := m.width_pos
  have hh := m.height_pos
  obtain ⟨x, y⟩ := p
  simp only [perimeterPositions] at h
  split at h <;> simp at h <;> omega

theorem mem_perimeterPositions (hdim : 1 < dimensions ∨ m.height = 1) (hx : p.1 < m.width)
    (hy : p.2 < m.height) (hedge : p.1 = 0 ∨ p.1 + 1 = m.width ∨ p.2 = 0 ∨ p.2 + 1 = m.height) :
    p ∈ m.perimeterPositions dimensions := by
  obtain ⟨x, y⟩ := p
  simp only [perimeterPositions]
  split <;> simp <;> omega

theorem perimeterPositions_nodup (h : 2 ≤ m.width ∨ ¬ (dimensions > 1 ∧ m.height > 1)) :
    (m.perimeterPositions dimensions).Nodup := by
  have hx (y : ℕ) : Function.Injective fun x : ℕ => (x, y) := fun _ _ h => (Prod.mk.inj h).1
  have hy (x : ℕ) : Function.Injective fun y : ℕ => (x, y) := fun _ _ h => (Prod.mk.inj h).2
  have hcolumn : (range' 1 (m.height - 2)).Nodup := nodup_range'
  simp only [perimeterPositions]
  split
  · simp only [nodup_append, nodup_map_iff (hx _), nodup_map_iff (hy _), nodup_reverse, nodup_range,
      hcolumn, true_and]
    refine ⟨⟨?_, ?_⟩, ?_⟩ <;> simp <;> omega
  · simpa using nodup_range.map (hx 0)

theorem node_div_mod (hx : p.1 < m.width) : m.node p / m.width = p.2 ∧ m.node p % m.width = p.1 := by
  rw [node, Nat.mul_comm]
  exact ⟨by rw [mul_add_div m.width_pos, div_eq_of_lt hx, Nat.add_zero],
    by rw [mul_add_mod, Nat.mod_eq_of_lt hx]⟩

theorem onPerimeter_iff {v : ℕ} : m.OnPerimeter (m.concentration * v) ↔ v < m.width * m.height ∧
    (v % m.width = 0 ∨ v % m.width + 1 = m.width ∨ v / m.width = 0 ∨ v / m.width + 1 = m.height) := by
  have hc := m.concentration_pos
  have hlt : m.concentration * v < m.applicationCores ↔ v < m.width * m.height := by
    rw [applicationCores, Nat.mul_assoc, Nat.mul_lt_mul_left hc, Nat.mul_comm]
  rw [OnPerimeter, hlt, computePosition, Nat.mul_div_cancel_left v hc]
  simp only
  omega

theorem coreIdList_nodup (h : 2 ≤ m.width ∨ ¬ (dimensions > 1 ∧ m.height > 1)) :
    (m.coreIdListAlongPerimeter dimensions).Nodup := by
  rw [coreIdList_eq_map]
  refine (perimeterPositions_nodup h).map_on fun p hp q hq heq => ?_
  obtain ⟨hpy, hpx⟩ := node_div_mod (of_mem_perimeterPositions hp).1
  obtain ⟨hqy, hqx⟩ := node_div_mod (of_mem_perimeterPositions hq).1
  rw [heq] at hpx hpy
  exact Prod.ext (hpx.symm.trans hqx) (hpy.symm.trans hqy)

theorem onPerimeter_of_mem {v : ℕ} (h : v ∈ m.coreIdListAlongPerimeter dimensions) :
    m.OnPerimeter (m.concentration * v) := by
  rw [coreIdList_eq_map] at h
  obtain ⟨p, hp, rfl⟩ := mem_map.mp h
  obtain ⟨hx, hy, hedge⟩ := of_mem_perimeterPositions hp
  obtain ⟨hdiv, hmod⟩ := node_div_mod hx
  rw [onPerimeter_iff, hdiv, hmod]
  refine ⟨?_, hedge⟩
  calc p.2 * m.width + p.1 < (p.2 + 1) * m.width := by rw [succ_mul]; omega
    _ ≤ m.height * m.width := mul_le_mul_right _ hy
    _ = m.width * m.height := Nat.mul_comm _ _

theorem mem_of_onPerimeter (hdim : 1 < dimensions ∨ m.height = 1) {v : ℕ}
    (h : m.OnPerimeter (m.concentration * v)) : v ∈ m.coreIdListAlongPerimeter dimensions := by
  obtain ⟨hlt, hedge⟩ := onPerimeter_iff.mp h
  rw [coreIdList_eq_map]
  refine mem_map.mpr ⟨(v % m.width, v / m.width), ?_, Nat.div_add_mod' v m.width⟩
  exact mem_perimeterPositions hdim (Nat.mod_lt _ m.width_pos) (Nat.div_lt_of_lt_mul hlt) hedge

theorem perimeterSize_le (hdim : 1 < dimensions ∨ m.height = 1) :
    m.perimeterSize ≤ (m.coreIdListAlongPerimeter dimensions).length := by
  refine (subperm_of_subset (nodup_range.filter _) fun v hv => ?_).length_le
  exact mem_of_onPerimeter hdim (of_decide_eq_true (mem_filter.mp hv).2)

/-! ## The picks -/

theorem coreIdList_column (hw : m.width = 1) (hdim : dimensions > 1 ∧ m.height > 1) :
    m.coreIdListAlongPerimeter dimensions =
      (range (2 * (m.height - 1))).map fun i => min i (2 * (m.height - 1) - i) := by
  obtain ⟨k, hk⟩ : ∃ k, m.height = k + 2 := ⟨m.height - 2, by omega⟩
  have hlist : m.coreIdListAlongPerimeter dimensions =
      0 :: (range' 1 k ++ (k + 1) :: (range' 1 k).reverse) := by
    rw [coreIdListAlongPerimeter, if_pos hdim, hw, hk]
    simp
  rw [hlist, hk]
  refine ext_getElem (by simp; omega) fun i h₁ h₂ => ?_
  rcases i with _ | i
  · simp
  · simp only [length_map, length_range] at h₂
    simp only [getElem_cons_succ, getElem_append, getElem_cons, getElem_map, getElem_range,
      length_range', getElem_reverse, getElem_range']
    split_ifs <;> omega

theorem stride_lt {len i : ℕ} (hi : i < n) (hn : n ≤ len) : i * (len / n) < len := by
  have hpos : 0 < len / n := div_pos hn (zero_lt_of_lt hi)
  calc i * (len / n) < n * (len / n) := mul_lt_mul_of_pos_right hi hpos
    _ ≤ len := mul_div_le len n

/-- The spacing does not lead back to an earlier pick. -/
theorem stride_injective {len o i j : ℕ} (hi : i < n) (hj : j < n) (hn : n ≤ len)
    (h : (i * (len / n) + o) % len = (j * (len / n) + o) % len) : i = j := by
  have hmod : i * (len / n) ≡ j * (len / n) [MOD len] := Nat.ModEq.add_right_cancel' o h
  have heq := hmod.eq_of_lt_of_lt (stride_lt hi hn) (stride_lt hj hn)
  exact eq_of_mul_eq_mul_right (div_pos hn (zero_lt_of_lt hi)) heq

/-- Two picks are at the same height of the column exactly when the spacing divides its length down
and up. -/
theorem fold_meets_iff {len : ℕ} (hn1 : 1 ≤ n) (hn : n ≤ len) :
    (∃ i j, i < j ∧ j < n ∧ min (i * (len / n)) (len - i * (len / n)) =
      min (j * (len / n)) (len - j * (len / n))) ↔ len / n ∣ len ∧ len / (len / n) + 3 ≤ 2 * n := by
  have hpos : 0 < len / n := div_pos hn hn1
  constructor
  · rintro ⟨i, j, hij, hj, hmin⟩
    have hlt := mul_lt_mul_of_pos_right hij hpos
    have hjlen := stride_lt hj hn
    have hsum : (i + j) * (len / n) = len := by rw [Nat.add_mul]; omega
    refine ⟨⟨i + j, by rw [Nat.mul_comm, hsum]⟩, ?_⟩
    have hdiv : len / (len / n) = i + j := by
      nth_rewrite 1 [← hsum]
      exact Nat.mul_div_cancel _ hpos
    omega
  · rintro ⟨⟨k, hk⟩, hle⟩
    have hdiv : len / (len / n) = k := by
      nth_rewrite 1 [hk]
      exact Nat.mul_div_cancel_left _ hpos
    have hnk : n ≤ k := by
      have hle : len / n * n ≤ len / n * k := by rw [← hk]; exact Nat.div_mul_le_self len n
      exact le_of_mul_le_mul_left hle hpos
    have hsum : (k - (n - 1)) * (len / n) + (n - 1) * (len / n) = len := by
      rw [← Nat.add_mul, Nat.sub_add_cancel (by omega), Nat.mul_comm, ← hk]
    exact ⟨k - (n - 1), n - 1, by omega, by omega, by omega⟩

section

variable (h1 : 1 ≤ n) (hn : n ≤ (m.coreIdListAlongPerimeter dimensions).length)

include h1 hn

theorem getElem?_memoryControllerNode (i : ℕ) :
    (m.coreIdListAlongPerimeter dimensions)[
      (i * ((m.coreIdListAlongPerimeter dimensions).length / n) + m.width / 2) %
        (m.coreIdListAlongPerimeter dimensions).length]? =
      some (m.memoryControllerNode dimensions n i) := by
  rw [memoryControllerNode, getD_eq_getElem?_getD,
    getElem?_eq_getElem (Nat.mod_lt _ (lt_of_lt_of_le h1 hn))]
  rfl

theorem memoryControllerNode_meet_iff :
    (∃ i j, i < j ∧ j < n ∧
      m.memoryControllerNode dimensions n i = m.memoryControllerNode dimensions n j) ↔
    (m.width = 1 ∧ dimensions > 1 ∧ m.height > 1) ∧ 2 * (m.height - 1) / n ∣ 2 * (m.height - 1) ∧
      2 * (m.height - 1) / (2 * (m.height - 1) / n) + 3 ≤ 2 * n := by
  have hget := getElem?_memoryControllerNode h1 hn
  by_cases hcolumn : m.width = 1 ∧ dimensions > 1 ∧ m.height > 1
  · rw [and_iff_right hcolumn]
    have hlist := coreIdList_column hcolumn.1 hcolumn.2
    simp only [hlist, length_map, length_range, hcolumn.1] at hget hn
    rw [← fold_meets_iff h1 hn]
    have hnode : ∀ i < n, m.memoryControllerNode dimensions n i =
        min (i * (2 * (m.height - 1) / n)) (2 * (m.height - 1) - i * (2 * (m.height - 1) / n)) := by
      intro i hi
      have hlt := stride_lt hi hn
      have hi := hget i
      rw [Nat.add_zero, Nat.mod_eq_of_lt hlt, getElem?_map, getElem?_range hlt] at hi
      exact (Option.some.inj hi).symm
    constructor <;> rintro ⟨i, j, hij, hj, heq⟩ <;> refine ⟨i, j, hij, hj, ?_⟩
    · rwa [hnode i (hij.trans hj), hnode j hj] at heq
    · rwa [hnode i (hij.trans hj), hnode j hj]
  · refine iff_of_false ?_ fun h => hcolumn h.1
    rintro ⟨i, j, hij, hj, heq⟩
    have hw := m.width_pos
    have hnodup : (m.coreIdListAlongPerimeter dimensions).Nodup := coreIdList_nodup (by omega)
    have hi := hget i
    rw [heq, ← hget j] at hi
    have hidx := (getElem?_inj (Nat.mod_lt _ (lt_of_lt_of_le h1 hn)) hnodup).mp hi
    exact hij.ne (stride_injective (hij.trans hj) hj hn hidx)

end

theorem nodup_picks_iff :
    ((range n).map fun i => m.concentration * m.memoryControllerNode dimensions n i).Nodup ↔
      ¬ ∃ i j, i < j ∧ j < n ∧
        m.memoryControllerNode dimensions n i = m.memoryControllerNode dimensions n j := by
  have hc : m.concentration ≠ 0 := ne_of_gt m.concentration_pos
  rw [Nodup, pairwise_map, pairwise_iff_getElem]
  simp only [length_range, getElem_range, ne_eq, Nat.mul_right_inj hc]
  constructor
  · rintro h ⟨i, j, hij, hj, heq⟩
    exact h i j (hij.trans hj) hj hij heq
  · exact fun h i j _ hj hij heq => h ⟨i, j, hij, hj, heq⟩

theorem le_length_iff (hn : n ≤ m.perimeterSize) :
    n ≤ (m.coreIdListAlongPerimeter dimensions).length ↔
      dimensions > 1 ∨ m.height = 1 ∨ n ≤ m.width := by
  have hh := m.height_pos
  by_cases hdim : dimensions > 1 ∨ m.height = 1
  · exact iff_of_true (hn.trans (perimeterSize_le hdim)) (by tauto)
  · have hrow : (m.coreIdListAlongPerimeter dimensions).length = m.width := by
      rw [coreIdListAlongPerimeter, if_neg (by omega), append_nil, length_range]
    rw [hrow]
    omega

/-- The controllers get distinct cores of the perimeter, but in a line or ring that was given rows it
does not list, and in a column of which two picks meet. -/
theorem memoryControllers_distinct_iff (h1 : 1 ≤ n) (hn : n ≤ m.perimeterSize) :
    (∃ cores, m.computeMemoryControllerPositions dimensions n = some cores ∧ cores.length = n ∧
      cores.Nodup ∧ ∀ core ∈ cores, m.OnPerimeter core) ↔
    (dimensions > 1 ∨ m.height = 1 ∨ n ≤ m.width) ∧
      ¬ ((m.width = 1 ∧ dimensions > 1 ∧ m.height > 1) ∧
        2 * (m.height - 1) / n ∣ 2 * (m.height - 1) ∧
        2 * (m.height - 1) / (2 * (m.height - 1) / n) + 3 ≤ 2 * n) := by
  rw [← le_length_iff hn]
  by_cases hlen : n ≤ (m.coreIdListAlongPerimeter dimensions).length
  · rw [← memoryControllerNode_meet_iff h1 hlen, and_iff_right hlen,
      computeMemoryControllerPositions, if_neg (by omega), ← nodup_picks_iff]
    constructor
    · rintro ⟨cores, hcores, -, hnodup, -⟩
      cases hcores
      exact hnodup
    · refine fun hnodup => ⟨_, rfl, by simp, hnodup, fun core hcore => ?_⟩
      obtain ⟨i, -, rfl⟩ := mem_map.mp hcore
      exact onPerimeter_of_mem (mem_of_getElem? (getElem?_memoryControllerNode h1 hlen i))
  · rw [computeMemoryControllerPositions, if_pos (by omega)]
    exact iff_of_false (fun ⟨_, h, _⟩ => by cases h) fun h => hlen h.1

theorem memoryControllers_distinct_iff_four_by_four :
    ∃ cores, computeMemoryControllerPositions ⟨4, 4, 1, false, by decide, by decide, by decide⟩ 2 5 =
      some cores ∧ cores.length = 5 ∧ cores.Nodup ∧
      ∀ core ∈ cores, OnPerimeter ⟨4, 4, 1, false, by decide, by decide, by decide⟩ core :=
  (memoryControllers_distinct_iff (m := ⟨4, 4, 1, false, by decide, by decide, by decide⟩)
    (by decide) (by decide)).mpr (by decide)

/-- In a column of four cores, two of three controllers get the third core. -/
theorem column_controllers_meet :
    computeMemoryControllerPositions ⟨1, 4, 1, false, by decide, by decide, by decide⟩ 2 3 =
      some [0, 2, 2] ∧
    3 ≤ perimeterSize ⟨1, 4, 1, false, by decide, by decide, by decide⟩ := by
  decide

end MultiCoreMemory.Mesh
