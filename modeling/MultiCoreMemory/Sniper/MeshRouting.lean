import Mathlib.Tactic

/-!
# Routing in the mesh network (`network_model_emesh_hop_by_hop.cc`)

Dimension-order routing: each node decides afresh from the offset that is left, first along the row and
then along the column.
-/

namespace MultiCoreMemory

open Nat

inductive OutputDirection where
  | up
  | down
  | left
  | right
  | self
  | peer
  | destination
  deriving DecidableEq, Repr

/-- Does the direction have a link (`direction < NUM_OUTPUT_DIRECTIONS`)? -/
def OutputDirection.isLink : OutputDirection → Bool
  | .up | .down | .left | .right => true
  | .self | .peer | .destination => false

/-- The topology: `m_mesh_width`, `m_mesh_height`, `m_concentration`, `m_wrap_around`. -/
structure Mesh where
  width : ℕ
  height : ℕ
  concentration : ℕ
  wrapAround : Bool
  width_pos : 1 ≤ width
  height_pos : 1 ≤ height
  concentration_pos : 1 ≤ concentration

namespace Mesh

variable (m : Mesh)

def applicationCores : ℕ := m.concentration * m.height * m.width

variable (core size : ℕ)

def computePosition : ℤ × ℤ :=
  (((core / m.concentration % m.width : ℕ) : ℤ), ((core / m.concentration / m.width : ℕ) : ℤ))

def computeCoreId (x y : ℤ) : ℕ :=
  (((y + m.height) % m.height * m.width + (x + m.width) % m.width) * m.concentration).toNat

/-- `m_fake_node` of a core: it is not the master of its concentrated node. -/
def isFakeNode : Bool :=
  core % m.concentration ≠ 0 ∨ core ≥ m.concentration * m.width * m.height

/-- Does the route of this dimension go over the wrap-around link? -/
def goesRound (s d : ℤ) : Bool :=
  m.wrapAround && (s - d).natAbs > (size + 1) / 2

def getNextDest (finalDest : ℕ) : OutputDirection × ℕ :=
  if finalDest ≥ m.applicationCores then (.destination, finalDest)
  else if core / m.concentration = finalDest / m.concentration then (.destination, finalDest)
  else if m.isFakeNode core then (.peer, core - core % m.concentration)
  else
    let (sx, sy) := m.computePosition core
    let (dx, dy) := m.computePosition finalDest
    if decide (sx > dx) ^^ m.goesRound m.width sx dx then (.left, m.computeCoreId (sx - 1) sy)
    else if sx ≠ dx then (.right, m.computeCoreId (sx + 1) sy)
    else if decide (sy > dy) ^^ m.goesRound m.height sy dy then (.down, m.computeCoreId sx (sy - 1))
    else if sy ≠ dy then (.up, m.computeCoreId sx (sy + 1))
    else (.self, core)

/-- The hop of a unicast packet in `routePacket`: a fake node sends straight to the receiver. -/
def routePacket (receiver : ℕ) : OutputDirection × ℕ :=
  if m.isFakeNode core then (.destination, receiver) else m.getNextDest core receiver

def axisDistance (s d : ℤ) : ℤ :=
  if m.wrapAround then min ((s - d).natAbs : ℤ) (size - (s - d).natAbs) else (s - d).natAbs

def computeDistance (sender receiver : ℕ) : ℤ :=
  let (sx, sy) := m.computePosition sender
  let (dx, dy) := m.computePosition receiver
  m.axisDistance m.width sx dx + m.axisDistance m.height sy dy

/-- A packet passed from core to core: the core that hands it over, and the mesh links crossed. -/
def forward (next : ℕ → OutputDirection × ℕ) : ℕ → ℕ → Option (ℕ × ℕ)
  | 0, _ => none
  | fuel + 1, core =>
    match next core with
    | (.destination, _) => some (core, 0)
    | (direction, nextCore) =>
      (forward next fuel nextCore).map fun (last, links) =>
        (last, links + if direction.isLink then 1 else 0)

/-! ## One dimension -/

def linksLeft (s d : ℤ) : ℕ :=
  if m.goesRound size s d then size - (s - d).natAbs else (s - d).natAbs

section

variable {m} {size : ℕ} {s d : ℤ} (h0 : 0 ≤ s) (h : s < size)
include h0 h

theorem wrap_pred : (s - 1 + size) % size = if s = 0 then (size : ℤ) - 1 else s - 1 := by
  split
  · subst s
    rw [Int.emod_eq_of_lt] <;> omega
  · rw [Int.add_emod_right, Int.emod_eq_of_lt] <;> omega

theorem wrap_succ : (s + 1 + size) % size = if s + 1 = size then 0 else s + 1 := by
  rw [Int.add_emod_right]
  split
  · rename_i heq
    rw [heq, Int.emod_self]
  · rw [Int.emod_eq_of_lt] <;> omega

theorem wrap_self : (s + size) % size = s := by
  rw [Int.add_emod_right, Int.emod_eq_of_lt h0 h]

variable (hd0 : 0 ≤ d) (hd : d < size)
include hd0 hd

theorem linksLeft_next :
    ((decide (s > d) ^^ m.goesRound size s d) = true →
      m.linksLeft size ((s - 1 + size) % size) d + 1 = m.linksLeft size s d) ∧
    (¬ (decide (s > d) ^^ m.goesRound size s d) = true → s ≠ d →
      m.linksLeft size ((s + 1 + size) % size) d + 1 = m.linksLeft size s d) := by
  rw [wrap_pred h0 h, wrap_succ h0 h]
  unfold linksLeft goesRound
  cases m.wrapAround with
  | false =>
    simp only [Bool.false_and, Bool.xor_false, decide_eq_true_eq, Bool.false_eq_true, if_false]
    refine ⟨fun hleft => ?_, fun hright hne => ?_⟩ <;> split_ifs <;> omega
  | true =>
    by_cases hgt : s > d
    · simp only [hgt, decide_true, Bool.true_and, Bool.true_xor, Bool.not_eq_true',
        decide_eq_false_iff_not, not_not, decide_eq_true_eq]
      refine ⟨fun hleft => ?_, fun hright hne => ?_⟩ <;> split_ifs <;> omega
    · simp only [hgt, decide_false, Bool.true_and, Bool.false_xor, decide_eq_true_eq]
      refine ⟨fun hleft => ?_, fun hright hne => ?_⟩ <;> split_ifs <;> omega

/-- The rule takes one link more than the distance where twice the offset is the size and one. -/
theorem linksLeft_eq :
    (m.linksLeft size s d : ℤ) = m.axisDistance size s d +
      if m.wrapAround ∧ 2 * (s - d).natAbs = size + 1 then 1 else 0 := by
  unfold linksLeft axisDistance goesRound
  cases m.wrapAround with
  | false => simp
  | true =>
    simp only [Bool.true_and, decide_eq_true_eq, if_true, true_and]
    split_ifs <;> omega

theorem axisDistance_eq_zero_iff : m.axisDistance size s d = 0 ↔ s = d := by
  unfold axisDistance
  split_ifs <;> omega

theorem axisDistance_nonneg : 0 ≤ m.axisDistance size s d := by
  unfold axisDistance
  split_ifs <;> omega

end

/-! ## The positions -/

theorem isFakeNode_eq_false_iff {core : ℕ} :
    m.isFakeNode core = false ↔ core % m.concentration = 0 ∧ core < m.applicationCores := by
  rw [applicationCores, Nat.mul_right_comm]
  simp [isFakeNode]

theorem computePosition_range {core : ℕ} (h : core < m.applicationCores) :
    (0 ≤ (m.computePosition core).1 ∧ (m.computePosition core).1 < m.width) ∧
      0 ≤ (m.computePosition core).2 ∧ (m.computePosition core).2 < m.height := by
  have hnode : core / m.concentration < m.height * m.width := by
    rw [div_lt_iff_lt_mul m.concentration_pos]
    calc core < m.concentration * m.height * m.width := h
      _ = m.height * m.width * m.concentration := by rw [Nat.mul_assoc, Nat.mul_comm]
  refine ⟨⟨Int.natCast_nonneg _, ?_⟩, Int.natCast_nonneg _, ?_⟩
  · exact Int.ofNat_lt.mpr (mod_lt _ m.width_pos)
  · exact Int.ofNat_lt.mpr ((div_lt_iff_lt_mul m.width_pos).mpr hnode)

theorem computeCoreId_spec (x y : ℤ) :
    m.computePosition (m.computeCoreId x y) = ((x + m.width) % m.width, (y + m.height) % m.height) ∧
      m.isFakeNode (m.computeCoreId x y) = false := by
  have hw : (0 : ℤ) < m.width := Int.ofNat_lt.mpr m.width_pos
  have hh : (0 : ℤ) < m.height := Int.ofNat_lt.mpr m.height_pos
  obtain ⟨i, hi⟩ := Int.eq_ofNat_of_zero_le (Int.emod_nonneg (x + m.width) hw.ne')
  obtain ⟨j, hj⟩ := Int.eq_ofNat_of_zero_le (Int.emod_nonneg (y + m.height) hh.ne')
  have hilt : i < m.width := Int.ofNat_lt.mp (hi ▸ Int.emod_lt_of_pos _ hw)
  have hjlt : j < m.height := Int.ofNat_lt.mp (hj ▸ Int.emod_lt_of_pos _ hh)
  have hid : m.computeCoreId x y = (j * m.width + i) * m.concentration := by
    rw [computeCoreId, hi, hj]
    exact Int.toNat_natCast _
  have hnode : (j * m.width + i) * m.concentration / m.concentration = j * m.width + i :=
    Nat.mul_div_cancel _ m.concentration_pos
  have hlt : (j * m.width + i) * m.concentration < m.applicationCores := by
    have hrow : j * m.width + i < m.height * m.width := by
      calc j * m.width + i < (j + 1) * m.width := by rw [add_mul]; omega
        _ ≤ m.height * m.width := mul_le_mul_right _ hjlt
    calc (j * m.width + i) * m.concentration < m.height * m.width * m.concentration :=
          mul_lt_mul_of_pos_right hrow m.concentration_pos
      _ = m.applicationCores := by rw [applicationCores, Nat.mul_comm, Nat.mul_assoc]
  rw [hid]
  refine ⟨?_, m.isFakeNode_eq_false_iff.mpr ⟨mul_mod_left _ _, hlt⟩⟩
  rw [computePosition, hnode, hi, hj, Nat.mul_comm j, mul_add_mod, mod_eq_of_lt hilt,
    mul_add_div m.width_pos, div_eq_of_lt hilt, add_zero]

theorem node_eq_iff {core core' : ℕ} :
    core / m.concentration = core' / m.concentration ↔
      m.computePosition core = m.computePosition core' := by
  constructor
  · intro h
    rw [computePosition, computePosition, h]
  · intro h
    simp only [computePosition, Prod.mk.injEq, Nat.cast_inj] at h
    rw [← Nat.mod_add_div (core / m.concentration) m.width, h.1, h.2, Nat.mod_add_div]

def routeLeft (core dest : ℕ) : ℕ :=
  m.linksLeft m.width (m.computePosition core).1 (m.computePosition dest).1 +
    m.linksLeft m.height (m.computePosition core).2 (m.computePosition dest).2

variable {m} {core dest : ℕ}

/-- **One hop of a master crosses one of the links left.** -/
theorem getNextDest_of_master (hdest : dest < m.applicationCores) (hfake : m.isFakeNode core = false)
    (hnode : core / m.concentration ≠ dest / m.concentration) :
    (m.getNextDest core dest).1.isLink = true ∧
      m.routeLeft (m.getNextDest core dest).2 dest + 1 = m.routeLeft core dest ∧
      m.isFakeNode (m.getNextDest core dest).2 = false := by
  obtain ⟨⟨hsx0, hsx⟩, hsy0, hsy⟩ := m.computePosition_range (m.isFakeNode_eq_false_iff.mp hfake).2
  obtain ⟨⟨hdx0, hdx⟩, hdy0, hdy⟩ := m.computePosition_range hdest
  have hne : m.computePosition core ≠ m.computePosition dest := fun h => hnode (m.node_eq_iff.mpr h)
  unfold getNextDest routeLeft
  rw [if_neg (not_le.mpr hdest), if_neg hnode, hfake, if_neg Bool.false_ne_true]
  generalize m.computePosition core = src at *
  generalize m.computePosition dest = dst at *
  obtain ⟨sx, sy⟩ := src
  obtain ⟨dx, dy⟩ := dst
  dsimp only at *
  split_ifs with hleft hx hdown hy
  · obtain ⟨hpos, hmaster⟩ := m.computeCoreId_spec (sx - 1) sy
    have hlinks := (linksLeft_next hsx0 hsx hdx0 hdx).1 hleft
    refine ⟨rfl, ?_, hmaster⟩
    rw [hpos, wrap_self hsy0 hsy]
    dsimp only
    omega
  · obtain ⟨hpos, hmaster⟩ := m.computeCoreId_spec (sx + 1) sy
    have hlinks := (linksLeft_next hsx0 hsx hdx0 hdx).2 hleft hx
    refine ⟨rfl, ?_, hmaster⟩
    rw [hpos, wrap_self hsy0 hsy]
    dsimp only
    omega
  · obtain ⟨hpos, hmaster⟩ := m.computeCoreId_spec sx (sy - 1)
    have hlinks := (linksLeft_next hsy0 hsy hdy0 hdy).1 hdown
    refine ⟨rfl, ?_, hmaster⟩
    rw [hpos, wrap_self hsx0 hsx]
    dsimp only
    omega
  · obtain ⟨hpos, hmaster⟩ := m.computeCoreId_spec sx (sy + 1)
    have hlinks := (linksLeft_next hsy0 hsy hdy0 hdy).2 hdown hy
    refine ⟨rfl, ?_, hmaster⟩
    rw [hpos, wrap_self hsx0 hsx]
    dsimp only
    omega
  · exact absurd (Prod.ext (not_not.mp hx) (not_not.mp hy)) hne

/-! ## The route -/

theorem routeLeft_eq_zero (h : core / m.concentration = dest / m.concentration) :
    m.routeLeft core dest = 0 := by
  rw [routeLeft, m.node_eq_iff.mp h]
  simp [linksLeft, goesRound]

variable {next : ℕ → OutputDirection × ℕ}

theorem forward_destination {fuel : ℕ} (h : (next core).1 = .destination) :
    forward next (fuel + 1) core = some (core, 0) := by
  rcases hnext : next core with ⟨direction, nextCore⟩
  rw [hnext] at h
  cases h
  simp [forward, hnext]

theorem forward_hop {fuel : ℕ} (h : (next core).1 ≠ .destination) :
    forward next (fuel + 1) core = (forward next fuel (next core).2).map fun (last, links) =>
      (last, links + if (next core).1.isLink then 1 else 0) := by
  rcases hnext : next core with ⟨direction, nextCore⟩
  rw [hnext] at h
  cases direction <;> first | contradiction | simp only [forward, hnext]

theorem getNextDest_same_node (hdest : dest < m.applicationCores)
    (hnode : core / m.concentration = dest / m.concentration) :
    m.getNextDest core dest = (.destination, dest) := by
  rw [getNextDest, if_neg (not_le.mpr hdest), if_pos hnode]

/-- From a master the packet crosses exactly the links left, whatever the rule at the other cores. -/
theorem forward_of_master (hdest : dest < m.applicationCores)
    (hnext : ∀ core, m.isFakeNode core = false → next core = m.getNextDest core dest)
    (hfake : m.isFakeNode core = false) :
    ∃ last, last / m.concentration = dest / m.concentration ∧
      ∀ fuel > m.routeLeft core dest,
        forward next fuel core = some (last, m.routeLeft core dest) := by
  induction hn : m.routeLeft core dest generalizing core with
  | zero =>
    have hnode : core / m.concentration = dest / m.concentration := by
      by_contra hne
      obtain ⟨-, hleft, -⟩ := getNextDest_of_master hdest hfake hne
      omega
    refine ⟨core, hnode, fun fuel hfuel => ?_⟩
    obtain ⟨fuel, rfl⟩ := exists_eq_add_one_of_ne_zero (ne_zero_of_lt hfuel)
    exact forward_destination (by rw [hnext core hfake, getNextDest_same_node hdest hnode])
  | succ n ih =>
    have hne : core / m.concentration ≠ dest / m.concentration := by
      intro hnode
      rw [routeLeft_eq_zero hnode] at hn
      cases hn
    obtain ⟨hlink, hleft, hfake'⟩ := getNextDest_of_master hdest hfake hne
    obtain ⟨last, hlast, hrest⟩ := ih hfake' (by omega)
    refine ⟨last, hlast, fun fuel hfuel => ?_⟩
    obtain ⟨fuel, rfl⟩ := exists_eq_add_one_of_ne_zero (ne_zero_of_lt hfuel)
    have hdir : (next core).1 ≠ .destination := by
      rw [hnext core hfake]
      intro h
      rw [h] at hlink
      cases hlink
    rw [forward_hop hdir, hnext core hfake, hrest fuel (by omega), hlink]
    rfl

theorem master_spec (hcore : core < m.applicationCores) :
    (core - core % m.concentration) / m.concentration = core / m.concentration ∧
      m.isFakeNode (core - core % m.concentration) = false := by
  have hmul : core - core % m.concentration = m.concentration * (core / m.concentration) := by
    have hdiv := Nat.mod_add_div core m.concentration
    omega
  refine ⟨?_, m.isFakeNode_eq_false_iff.mpr ⟨?_, (sub_le _ _).trans_lt hcore⟩⟩
  · rw [hmul, Nat.mul_div_cancel_left _ m.concentration_pos]
  · rw [hmul, mul_mod_right]

theorem forward_getNextDest (hcore : core < m.applicationCores) (hdest : dest < m.applicationCores) :
    ∃ last, last / m.concentration = dest / m.concentration ∧
      ∀ fuel > m.routeLeft core dest + 1,
        forward (m.getNextDest · dest) fuel core = some (last, m.routeLeft core dest) := by
  by_cases hnode : core / m.concentration = dest / m.concentration
  · refine ⟨core, hnode, fun fuel hfuel => ?_⟩
    obtain ⟨fuel, rfl⟩ := exists_eq_add_one_of_ne_zero (ne_zero_of_lt hfuel)
    rw [routeLeft_eq_zero hnode]
    exact forward_destination (by rw [getNextDest_same_node hdest hnode])
  cases hfake : m.isFakeNode core with
  | false =>
    obtain ⟨last, hlast, hrest⟩ := forward_of_master hdest (fun _ _ => rfl) hfake
    exact ⟨last, hlast, fun fuel hfuel => hrest fuel (by omega)⟩
  | true =>
    -- the first hop goes to the master of the node and crosses no link
    obtain ⟨hsame, hmaster⟩ := master_spec hcore
    have hpeer : m.getNextDest core dest = (.peer, core - core % m.concentration) := by
      rw [getNextDest, if_neg (not_le.mpr hdest), if_neg hnode, if_pos hfake]
    have hleft : m.routeLeft (core - core % m.concentration) dest = m.routeLeft core dest := by
      rw [routeLeft, m.node_eq_iff.mp hsame, routeLeft]
    obtain ⟨last, hlast, hrest⟩ := forward_of_master hdest (fun _ _ => rfl) hmaster
    refine ⟨last, hlast, fun fuel hfuel => ?_⟩
    obtain ⟨fuel, rfl⟩ := exists_eq_add_one_of_ne_zero (ne_zero_of_lt hfuel)
    rw [forward_hop (by rw [hpeer]; nofun), hpeer, hrest fuel (by omega), hleft]
    rfl

/-! ## The distance -/

/-- The network wraps round and in one dimension twice the offset is the size and one. -/
def JustOverHalf (m : Mesh) (sender receiver : ℕ) : Prop :=
  m.wrapAround = true ∧
    (2 * ((m.computePosition sender).1 - (m.computePosition receiver).1).natAbs = m.width + 1 ∨
      2 * ((m.computePosition sender).2 - (m.computePosition receiver).2).natAbs = m.height + 1)
  deriving Decidable

/-- The route is as long as the distance unless an offset is just over half. -/
theorem routeLeft_eq_distance_iff (hcore : core < m.applicationCores)
    (hdest : dest < m.applicationCores) :
    (m.routeLeft core dest : ℤ) = m.computeDistance core dest ↔ ¬ m.JustOverHalf core dest := by
  obtain ⟨⟨hsx0, hsx⟩, hsy0, hsy⟩ := m.computePosition_range hcore
  obtain ⟨⟨hdx0, hdx⟩, hdy0, hdy⟩ := m.computePosition_range hdest
  have hx := linksLeft_eq (m := m) hsx0 hsx hdx0 hdx
  have hy := linksLeft_eq (m := m) hsy0 hsy hdy0 hdy
  rw [routeLeft, cast_add, hx, hy]
  simp only [computeDistance, JustOverHalf]
  cases m.wrapAround with
  | false => simp
  | true =>
    simp only [true_and]
    split_ifs <;> omega

theorem computeDistance_eq_zero_iff (hcore : core < m.applicationCores)
    (hdest : dest < m.applicationCores) :
    m.computeDistance core dest = 0 ↔ core / m.concentration = dest / m.concentration := by
  obtain ⟨⟨hsx0, hsx⟩, hsy0, hsy⟩ := m.computePosition_range hcore
  obtain ⟨⟨hdx0, hdx⟩, hdy0, hdy⟩ := m.computePosition_range hdest
  have hx := axisDistance_nonneg (m := m) hsx0 hsx hdx0 hdx
  have hy := axisDistance_nonneg (m := m) hsy0 hsy hdy0 hdy
  rw [m.node_eq_iff, Prod.ext_iff, ← axisDistance_eq_zero_iff (m := m) hsx0 hsx hdx0 hdx,
    ← axisDistance_eq_zero_iff (m := m) hsy0 hsy hdy0 hdy]
  simp only [computeDistance]
  omega

theorem not_justOverHalf_of_same_node (h : core / m.concentration = dest / m.concentration) :
    ¬ m.JustOverHalf core dest := by
  rintro ⟨-, hx | hy⟩
  · rw [m.node_eq_iff.mp h] at hx
    simp at hx
  · rw [m.node_eq_iff.mp h] at hy
    simp at hy

/-- **A packet reaches the node of its destination, over as many links as `computeDistance` says unless
an offset is just over half of an odd ring.**  From a core that is no master, `routePacket` sends
straight to the receiver. -/
theorem links_eq_distance_iff (m : Mesh) (sender receiver : ℕ)
    (hsender : sender < m.applicationCores) (hreceiver : receiver < m.applicationCores) :
    (∃ last links, last / m.concentration = receiver / m.concentration ∧
      (∃ n, ∀ fuel ≥ n, forward (m.getNextDest · receiver) fuel sender = some (last, links)) ∧
      ((links : ℤ) = m.computeDistance sender receiver ↔ ¬ m.JustOverHalf sender receiver)) ∧
    ∃ last links, (∃ n, ∀ fuel ≥ n,
        forward (m.routePacket · receiver) fuel sender = some (last, links)) ∧
      ((links : ℤ) = m.computeDistance sender receiver ↔ ¬ m.JustOverHalf sender receiver ∧
        (m.isFakeNode sender = false ∨
          sender / m.concentration = receiver / m.concentration)) := by
  have hdistance := routeLeft_eq_distance_iff hsender hreceiver
  constructor
  · obtain ⟨last, hlast, hroute⟩ := forward_getNextDest hsender hreceiver
    exact ⟨last, _, hlast, ⟨_, fun fuel hfuel => hroute fuel hfuel⟩, hdistance⟩
  · cases hfake : m.isFakeNode sender with
    | false =>
      have hnext : ∀ core, m.isFakeNode core = false →
          m.routePacket core receiver = m.getNextDest core receiver := by
        intro core hmaster
        rw [routePacket, hmaster, if_neg Bool.false_ne_true]
      obtain ⟨last, -, hroute⟩ := forward_of_master hreceiver hnext hfake
      refine ⟨last, _, ⟨_, fun fuel hfuel => hroute fuel hfuel⟩, ?_⟩
      rw [hdistance]
      exact ⟨fun h => ⟨h, .inl rfl⟩, fun h => h.1⟩
    | true =>
      refine ⟨sender, 0, ⟨1, fun fuel hfuel => ?_⟩, ?_⟩
      · obtain ⟨fuel, rfl⟩ := exists_eq_add_one_of_ne_zero (ne_zero_of_lt hfuel)
        exact forward_destination (by rw [routePacket, if_pos hfake])
      · rw [cast_zero, eq_comm, computeDistance_eq_zero_iff hsender hreceiver]
        constructor
        · exact fun h => ⟨not_justOverHalf_of_same_node h, .inr h⟩
        · rintro ⟨-, h | h⟩
          · cases h
          · exact h

def ringOfThree : Mesh where
  width := 3
  height := 1
  concentration := 1
  wrapAround := true
  width_pos := by decide
  height_pos := by decide
  concentration_pos := by decide

/-- In a ring of three, node 2 is one link from node 0, and the packet takes two. -/
theorem odd_ring_takes_the_long_way :
    forward (ringOfThree.getNextDest · 2) 3 0 = some (2, 2) ∧ ringOfThree.computeDistance 0 2 = 1 ∧
      2 < ringOfThree.applicationCores := by
  decide

def torusOfTwelve : Mesh where
  width := 4
  height := 3
  concentration := 2
  wrapAround := true
  width_pos := by decide
  height_pos := by decide
  concentration_pos := Nat.le_succ 1

/-- From core 1, which is not the master of its node, to core 14: one link back round the row and one
up the column. -/
theorem torus_route_minimal :
    (1 < torusOfTwelve.applicationCores ∧ 14 < torusOfTwelve.applicationCores) ∧
    ∃ last links, last / 2 = 7 ∧
      (∃ n, ∀ fuel ≥ n, forward (torusOfTwelve.getNextDest · 14) fuel 1 = some (last, links)) ∧
      links = torusOfTwelve.computeDistance 1 14 := by
  refine ⟨⟨by decide, by decide⟩, ?_⟩
  obtain ⟨last, links, hlast, hroute, hlinks⟩ :=
    (links_eq_distance_iff torusOfTwelve 1 14 (by decide) (by decide)).1
  exact ⟨last, links, hlast, hroute, hlinks.mpr (by decide)⟩

end Mesh

end MultiCoreMemory
