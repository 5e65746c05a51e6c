import MultiCoreMemory.Lib.Machine
import MultiCoreMemory.Lib.TreeFlood
import MultiCoreMemory.Sniper.MeshRouting

/-!
# The broadcast tree of the mesh (`network_model_emesh_hop_by_hop.cc`, `network.cc`)

Every node decides from its position relative to the sender to which neighbours it passes a broadcast
on.  The neighbours are those of `computeCoreId`, which goes round at the edges of the mesh.
-/

namespace MultiCoreMemory

open List Option Mesh

/-- `NetworkModel::Hop` without its time; a packet to `NetPacket::BROADCAST` has no final destination. -/
structure Hop where
  direction : OutputDirection
  finalDest : Option ℕ
  nextDest : ℕ
  deriving DecidableEq, Repr

structure BroadcastNetwork extends Mesh where
  totalCores : ℕ
  cores : toMesh.applicationCores ≤ totalCores

structure Broadcast where
  inFlight : List Hop
  delivered : List ℕ := []
  deriving DecidableEq, Repr

namespace BroadcastNetwork

variable (net : BroadcastNetwork)

def routeBroadcast (sender core : ℕ) : List Hop :=
  if net.isFakeNode core then
    (List.range net.totalCores).map fun i => { direction := .destination, finalDest := some i, nextDest := i }
  else
    let (sx, sy) := net.computePosition sender
    let (cx, cy) := net.computePosition core
    (if cy ≥ sy then [⟨.up, none, net.computeCoreId cx (cy + 1)⟩] else []) ++
    (if cy ≤ sy then [⟨.down, none, net.computeCoreId cx (cy - 1)⟩] else []) ++
    if cy = sy then
      (if cx ≥ sx then [⟨.right, none, net.computeCoreId (cx + 1) cy⟩] else []) ++
      (if cx ≤ sx then [⟨.left, none, net.computeCoreId (cx - 1) cy⟩] else []) ++
      if cx = sx then [⟨.self, some core, core⟩] else []
    else []

/-- `netPullFromTransport` of one packet: a broadcast is forwarded and then received. -/
def pull (sender : ℕ) (s : Broadcast) (i : ℕ) : Option Broadcast :=
  match s.inFlight[i]? with
  | none => none
  | some hop =>
    match hop.finalDest with
    | none =>
      some { inFlight := s.inFlight.eraseIdx i ++ net.routeBroadcast sender hop.nextDest
             delivered := s.delivered ++ [hop.nextDest] }
    | some receiver =>
      -- no broadcast has a hop to another core on the way to its receiver
      if receiver = hop.nextDest then
        some { inFlight := s.inFlight.eraseIdx i, delivered := s.delivered ++ [hop.nextDest] }
      else none

/-- A broadcast under `netSend` and `netPullFromTransport`; the packets in flight arrive in any
order. -/
def machine (sender : ℕ) : Machine Broadcast ℕ where
  init := { inFlight := net.routeBroadcast sender sender }
  step := net.pull sender

/-- The broadcast ends, and by then every mesh node has received it once. -/
structure ExactlyOnce (sender : ℕ) : Prop where
  bounded : ∃ bound, ∀ pulls s, (net.machine sender).run (net.machine sender).init pulls = some s →
    pulls.length ≤ bound
  goes_on : ∀ s, (net.machine sender).Reachable s → s.inFlight ≠ [] →
    ∃ i s', (net.machine sender).step s i = some s'
  once : ∀ s, (net.machine sender).Reachable s → s.inFlight = [] →
    ∀ core, net.isFakeNode core = false → s.delivered.count core = 1

def crossedEdge (hop : Hop) : Bool :=
  hop.finalDest.isNone &&
    match hop.direction with
    | .up => (net.computePosition hop.nextDest).2 = 0
    | .down => (net.computePosition hop.nextDest).2 = net.height - 1
    | .right => (net.computePosition hop.nextDest).1 = 0
    | .left => (net.computePosition hop.nextDest).1 = net.width - 1
    | _ => false

end BroadcastNetwork

/-! ## Mesh nodes -/

namespace Mesh

variable {m : Mesh} {core b : ℕ} {x y : ℤ}

theorem lt_applicationCores (h : m.isFakeNode core = false) : core < m.applicationCores :=
  (m.isFakeNode_eq_false_iff.mp h).2

theorem node_eq_of_position (hcore : m.isFakeNode core = false) (hb : m.isFakeNode b = false)
    (h : m.computePosition core = m.computePosition b) : core = b := by
  rw [isFakeNode_eq_false_iff] at hcore hb
  have hnode := m.node_eq_iff.mpr h
  rw [← Nat.mod_add_div core m.concentration, ← Nat.mod_add_div b m.concentration, hcore.1, hb.1, hnode]

theorem computePosition_coreId (hx : 0 ≤ x ∧ x < m.width) (hy : 0 ≤ y ∧ y < m.height) :
    m.computePosition (m.computeCoreId x y) = (x, y) := by
  rw [(m.computeCoreId_spec x y).1, wrap_self hx.1 hx.2, wrap_self hy.1 hy.2]

theorem eq_computeCoreId_iff (hb : m.isFakeNode b = false) (hx : 0 ≤ x ∧ x < m.width)
    (hy : 0 ≤ y ∧ y < m.height) : b = m.computeCoreId x y ↔ m.computePosition b = (x, y) := by
  constructor
  · rintro rfl
    exact computePosition_coreId hx hy
  · intro h
    exact node_eq_of_position hb (m.computeCoreId_spec x y).2
      (h.trans (computePosition_coreId hx hy).symm)

end Mesh

/-! ## The tree -/

namespace BroadcastNetwork

variable (net : BroadcastNetwork)

/-- The mesh nodes that the packets of the tree are on their way to, inside the mesh. -/
def treeHops (hops : List Hop) : List ℕ :=
  (hops.filter fun hop => hop.finalDest.isNone && !net.crossedEdge hop).map Hop.nextDest

def directHops (hops : List Hop) : List ℕ :=
  (hops.filter fun hop => hop.finalDest.isSome).map Hop.nextDest

variable {net} {sender core b : ℕ} {hop : Hop} {hops hops' : List Hop} {x y : ℤ}

theorem treeHops_append : net.treeHops (hops ++ hops') = net.treeHops hops ++ net.treeHops hops' := by
  rw [treeHops, filter_append, map_append, treeHops, treeHops]

theorem directHops_append : directHops (hops ++ hops') = directHops hops ++ directHops hops' := by
  rw [directHops, filter_append, map_append, directHops, directHops]

theorem treeHops_perm (h : hops.Perm hops') : (net.treeHops hops).Perm (net.treeHops hops') :=
  (h.filter _).map _

theorem directHops_perm (h : hops.Perm hops') : (directHops hops).Perm (directHops hops') :=
  (h.filter _).map _

theorem finalDest_of_crossedEdge (h : net.crossedEdge hop = true) : hop.finalDest = none := by
  simp only [crossedEdge, Bool.and_eq_true, isNone_iff_eq_none] at h
  exact h.1

theorem crossedEdge_up (x : ℤ) (hy : 0 ≤ y ∧ y < net.height) :
    net.crossedEdge ⟨.up, none, net.computeCoreId x (y + 1)⟩ = decide (y + 1 = net.height) := by
  simp only [crossedEdge, (net.computeCoreId_spec x (y + 1)).1, wrap_succ hy.1 hy.2]
  grind

theorem crossedEdge_down (x : ℤ) (hy : 0 ≤ y ∧ y < net.height) :
    net.crossedEdge ⟨.down, none, net.computeCoreId x (y - 1)⟩ = decide (y = 0) := by
  simp only [crossedEdge, (net.computeCoreId_spec x (y - 1)).1, wrap_pred hy.1 hy.2]
  grind

theorem crossedEdge_right (hx : 0 ≤ x ∧ x < net.width) (y : ℤ) :
    net.crossedEdge ⟨.right, none, net.computeCoreId (x + 1) y⟩ = decide (x + 1 = net.width) := by
  simp only [crossedEdge, (net.computeCoreId_spec (x + 1) y).1, wrap_succ hx.1 hx.2]
  grind

theorem crossedEdge_left (hx : 0 ≤ x ∧ x < net.width) (y : ℤ) :
    net.crossedEdge ⟨.left, none, net.computeCoreId (x - 1) y⟩ = decide (x = 0) := by
  simp only [crossedEdge, (net.computeCoreId_spec (x - 1) y).1, wrap_pred hx.1 hx.2]
  grind

/-- The positions that the node at `c` passes a broadcast from `s` on to. -/
def IsChild (s c b : ℤ × ℤ) : Prop :=
  b.1 = c.1 ∧ (b.2 = c.2 + 1 ∧ s.2 ≤ c.2 ∨ b.2 = c.2 - 1 ∧ c.2 ≤ s.2) ∨
    b.2 = c.2 ∧ c.2 = s.2 ∧ (b.1 = c.1 + 1 ∧ s.1 ≤ c.1 ∨ b.1 = c.1 - 1 ∧ c.1 ≤ s.1)

def distance (s c : ℤ × ℤ) : ℕ := (c.1 - s.1).natAbs + (c.2 - s.2).natAbs

theorem treeHops_ite {P Q : Prop} [Decidable P] [Decidable Q] {direction : OutputDirection} {next : ℕ}
    (h : net.crossedEdge ⟨direction, none, next⟩ = decide Q) :
    net.treeHops (if P then [⟨direction, none, next⟩] else []) = if P ∧ ¬ Q then [next] else [] := by
  by_cases hP : P <;> by_cases hQ : Q <;> simp [treeHops, h, hP, hQ]

theorem treeHops_routeBroadcast (sender : ℕ) (h : net.isFakeNode core = false) :
    let s := net.computePosition sender
    let c := net.computePosition core
    net.treeHops (net.routeBroadcast sender core) =
      (if s.2 ≤ c.2 ∧ c.2 + 1 ≠ net.height then [net.computeCoreId c.1 (c.2 + 1)] else []) ++
      (if c.2 ≤ s.2 ∧ c.2 ≠ 0 then [net.computeCoreId c.1 (c.2 - 1)] else []) ++
      ((if c.2 = s.2 ∧ s.1 ≤ c.1 ∧ c.1 + 1 ≠ net.width then [net.computeCoreId (c.1 + 1) c.2] else []) ++
        if c.2 = s.2 ∧ c.1 ≤ s.1 ∧ c.1 ≠ 0 then [net.computeCoreId (c.1 - 1) c.2] else []) := by
  obtain ⟨hx, hy⟩ := net.computePosition_range (lt_applicationCores h)
  rw [routeBroadcast, if_neg (by simp [h])]
  generalize net.computePosition core = c at *
  generalize net.computePosition sender = s at *
  dsimp only
  rw [treeHops_append, treeHops_append, treeHops_ite (crossedEdge_up c.1 hy),
    treeHops_ite (crossedEdge_down c.1 hy)]
  congr 1
  by_cases hrow : c.2 = s.2
  · have hself : net.treeHops (if c.1 = s.1 then [⟨.self, some core, core⟩] else []) = [] := by
      split <;> rfl
    rw [if_pos hrow, treeHops_append, treeHops_append, treeHops_ite (crossedEdge_right hx c.2),
      treeHops_ite (crossedEdge_left hx c.2), hself]
    simp [hrow]
  · rw [if_neg hrow]
    simp [hrow, treeHops]

theorem mem_treeHops (hcore : net.isFakeNode core = false) :
    b ∈ net.treeHops (net.routeBroadcast sender core) ↔ net.isFakeNode b = false ∧
      IsChild (net.computePosition sender) (net.computePosition core) (net.computePosition b) := by
  rw [treeHops_routeBroadcast sender hcore]
  simp only [mem_append, mem_ite_nil_right, mem_singleton]
  obtain ⟨hx, hy⟩ := net.computePosition_range (lt_applicationCores hcore)
  by_cases hb : net.isFakeNode b = false
  · obtain ⟨hbx, hby⟩ := net.computePosition_range (lt_applicationCores hb)
    generalize net.computePosition core = c at *
    generalize net.computePosition sender = s at *
    have hat : ∀ {P : Prop} {x y : ℤ}, (P → (0 ≤ x ∧ x < net.width) ∧ 0 ≤ y ∧ y < net.height) →
        (P ∧ b = net.computeCoreId x y ↔ P ∧ net.computePosition b = (x, y)) := fun hin =>
      and_congr_right fun hP => eq_computeCoreId_iff hb (hin hP).1 (hin hP).2
    rw [hat (by omega), hat (by omega), hat (by omega), hat (by omega)]
    generalize net.computePosition b = p at *
    simp only [IsChild, hb, true_and, Prod.ext_iff]
    omega
  · have hid : ∀ x y, b ≠ net.computeCoreId x y := by
      rintro x y rfl
      exact hb (net.computeCoreId_spec x y).2
    simp [hb, hid]

theorem treeHops_nodup (hcore : net.isFakeNode core = false) :
    (net.treeHops (net.routeBroadcast sender core)).Nodup := by
  rw [treeHops_routeBroadcast sender hcore]
  obtain ⟨hx, hy⟩ := net.computePosition_range (lt_applicationCores hcore)
  generalize net.computePosition core = c at *
  generalize net.computePosition sender = s at *
  have hone : ∀ {P : Prop} [Decidable P] {a : ℕ}, (if P then [a] else []).Nodup := by
    intro P _ a
    split <;> simp
  have hne : ∀ {x y x' y' : ℤ}, (0 ≤ x ∧ x < net.width) ∧ 0 ≤ y ∧ y < net.height →
      (0 ≤ x' ∧ x' < net.width) ∧ 0 ≤ y' ∧ y' < net.height → x ≠ x' ∨ y ≠ y' →
      net.computeCoreId x y ≠ net.computeCoreId x' y' := by
    intro x y x' y' hin hin' hdiff heq
    have hpos := congrArg net.computePosition heq
    rw [computePosition_coreId hin.1 hin.2, computePosition_coreId hin'.1 hin'.2,
      Prod.mk.injEq] at hpos
    omega
  refine nodup_append.mpr ⟨nodup_append.mpr ⟨hone, hone, ?_⟩,
    nodup_append.mpr ⟨hone, hone, ?_⟩, ?_⟩
  all_goals
    simp only [mem_append, mem_ite_nil_right, mem_singleton]
    intro a ha a' ha'
  · obtain ⟨⟨hup, rfl⟩, hdown, rfl⟩ := And.intro ha ha'
    exact hne (by omega) (by omega) (by omega)
  · obtain ⟨⟨hright, rfl⟩, hleft, rfl⟩ := And.intro ha ha'
    exact hne (by omega) (by omega) (by omega)
  · rcases ha with ⟨hcol, rfl⟩ | ⟨hcol, rfl⟩ <;> rcases ha' with ⟨hrow, rfl⟩ | ⟨hrow, rfl⟩ <;>
      exact hne (by omega) (by omega) (by omega)

/-- **The hops inside the mesh form a tree** with the sender as its root. -/
def tree (net : BroadcastNetwork) (sender : ℕ) (hsender : net.isFakeNode sender = false) :
    RootedTree ℕ where
  node := fun core => net.isFakeNode core = false
  root := sender
  children := fun core => net.treeHops (net.routeBroadcast sender core)
  root_node := hsender
  child_node := fun hcore hb => ((mem_treeHops hcore).mp hb).1
  children_nodup := treeHops_nodup
  parent_unique := by
    intro a a' b ha ha' hb hb'
    have hchild := ((mem_treeHops ha).mp hb).2
    have hchild' := ((mem_treeHops ha').mp hb').2
    refine node_eq_of_position ha ha' (Prod.ext ?_ ?_)
    all_goals
      unfold IsChild at hchild hchild'
      omega
  root_no_child := by
    intro a ha hroot
    have hchild := ((mem_treeHops ha).mp hroot).2
    unfold IsChild at hchild
    omega
  rank := fun core => distance (net.computePosition sender) (net.computePosition core)
  parent := by
    intro b hb hne
    obtain ⟨hbx, hby⟩ := net.computePosition_range (lt_applicationCores hb)
    obtain ⟨hsx, hsy⟩ := net.computePosition_range (lt_applicationCores hsender)
    have hpos : net.computePosition b ≠ net.computePosition sender := fun heq =>
      hne (node_eq_of_position hb hsender heq)
    -- the parent is one step closer, first along the column
    obtain ⟨x, y, hx, hy, hchild, hcloser⟩ : ∃ x y : ℤ, (0 ≤ x ∧ x < net.width) ∧
        (0 ≤ y ∧ y < net.height) ∧
        IsChild (net.computePosition sender) (x, y) (net.computePosition b) ∧
        distance (net.computePosition sender) (x, y) <
          distance (net.computePosition sender) (net.computePosition b) := by
      generalize net.computePosition sender = s at *
      generalize net.computePosition b = p at *
      rw [Ne, Prod.ext_iff] at hpos
      unfold IsChild distance
      by_cases hup : s.2 < p.2
      · exact ⟨p.1, p.2 - 1, by omega⟩
      by_cases hdown : p.2 < s.2
      · exact ⟨p.1, p.2 + 1, by omega⟩
      by_cases hright : s.1 < p.1
      · exact ⟨p.1 - 1, p.2, by omega⟩
      · exact ⟨p.1 + 1, p.2, by omega⟩
    have hparent := (net.computeCoreId_spec x y).2
    have hat := computePosition_coreId hx hy
    exact ⟨net.computeCoreId x y, hparent, (mem_treeHops hparent).mpr ⟨hb, hat ▸ hchild⟩, hat ▸ hcloser⟩

/-! ## One pull -/

variable {s s' : Broadcast} {i : ℕ}

/-- **What a pull does.** -/
theorem pull_cases (h : net.pull sender s i = some s') :
    ∃ hop rest, s.inFlight[i]? = some hop ∧ s.inFlight.Perm (hop :: rest) ∧
      s'.delivered = s.delivered ++ [hop.nextDest] ∧
      (hop.finalDest = none ∧ s'.inFlight = rest ++ net.routeBroadcast sender hop.nextDest ∨
        hop.finalDest = some hop.nextDest ∧ s'.inFlight = rest) := by
  unfold pull at h
  split at h
  · cases h
  · rename_i hop hget
    obtain ⟨hlt, rfl⟩ := List.getElem?_eq_some_iff.mp hget
    refine ⟨_, s.inFlight.eraseIdx i, hget, (List.getElem_cons_eraseIdx_perm hlt).symm, ?_⟩
    split at h
    · rename_i hfinal
      cases h
      exact ⟨rfl, .inl ⟨hfinal, rfl⟩⟩
    · rename_i receiver hfinal
      simp only [ite_none_right_eq_some, some.injEq] at h
      obtain ⟨rfl, rfl⟩ := h
      exact ⟨rfl, .inr ⟨hfinal, rfl⟩⟩

theorem pull_returns {hop : Hop} (hget : s.inFlight[i]? = some hop)
    (h : hop.finalDest = none ∨ hop.finalDest = some hop.nextDest) :
    ∃ s', net.pull sender s i = some s' := by
  unfold pull
  rw [hget]
  rcases h with h | h
  · simp [h]
  · simp [h]

/-! ## A broadcast inside the mesh -/

def InsideMesh (net : BroadcastNetwork) (s : Broadcast) (i : ℕ) : Prop :=
  ∀ hop, s.inFlight[i]? = some hop → net.crossedEdge hop = false

theorem directHops_routeBroadcast (hsender : net.isFakeNode sender = false)
    (hcore : net.isFakeNode core = false) :
    directHops (net.routeBroadcast sender core) = if core = sender then [sender] else [] := by
  have hpos : core = sender ↔ (net.computePosition core).1 = (net.computePosition sender).1 ∧
      (net.computePosition core).2 = (net.computePosition sender).2 := by
    rw [← Prod.ext_iff]
    exact ⟨fun h => h ▸ rfl, node_eq_of_position hcore hsender⟩
  have hite : ∀ {P : Prop} [Decidable P] {direction : OutputDirection} {next : ℕ},
      directHops (if P then [⟨direction, none, next⟩] else []) = [] := by
    intro P _ direction next
    split <;> rfl
  rw [routeBroadcast, if_neg (by simp [hcore])]
  dsimp only
  rw [directHops_append, directHops_append, hite, hite, nil_append, nil_append]
  by_cases hrow : (net.computePosition core).2 = (net.computePosition sender).2
  · rw [if_pos hrow, directHops_append, directHops_append, hite, hite, nil_append, nil_append]
    by_cases hcol : (net.computePosition core).1 = (net.computePosition sender).1
    · obtain rfl := hpos.mpr ⟨hcol, hrow⟩
      rw [if_pos hcol, if_pos rfl]
      rfl
    · rw [if_neg hcol, if_neg fun heq => hcol (hpos.mp heq).1]
      rfl
  · rw [if_neg hrow, if_neg fun heq => hrow (hpos.mp heq).2]
    rfl

/-- **Inside the mesh a broadcast floods the tree.** -/
theorem flood_of_reachable (hsender : net.isFakeNode sender = false)
    (h : (net.machine sender).ReachableWhen net.InsideMesh s) :
    Flood (net.tree sender hsender) (s.delivered ++ directHops s.inFlight)
      (net.treeHops s.inFlight) := by
  refine h.invariant (P := fun s => Flood (net.tree sender hsender)
    (s.delivered ++ directHops s.inFlight) (net.treeHops s.inFlight)) ?_ ?_
  · have hdirect := directHops_routeBroadcast hsender hsender
    rw [if_pos rfl] at hdirect
    show Flood (net.tree sender hsender) ([] ++ directHops (net.routeBroadcast sender sender)) _
    rw [hdirect]
    exact .start (net.tree sender hsender)
  · intro s i s' hs hok hpull
    obtain ⟨hop, rest, hget, hperm, hdelivered, ⟨hfinal, hflight⟩ | ⟨hfinal, hflight⟩⟩ :=
      pull_cases hpull
    · -- a mesh node passes the packet on
      have hdirect : (directHops s.inFlight).Perm (directHops rest) := by
        refine (directHops_perm hperm).trans (.of_eq ?_)
        simp [directHops, hfinal]
      have htree : (net.treeHops s.inFlight).Perm (hop.nextDest :: net.treeHops rest) := by
        refine (treeHops_perm hperm).trans (.of_eq ?_)
        simp [treeHops, hfinal, hok hop hget]
      have hflood := hs.perm (hdirect.symm.append_left s.delivered) htree.symm
      have hnode : net.isFakeNode hop.nextDest = false :=
        hflood.nodes _ (mem_append_right _ mem_cons_self)
      have hne : hop.nextDest ≠ sender := fun heq => hflood.root_notMem (by
        rw [heq]
        exact mem_cons_self)
      refine hflood.next.perm ?_ ?_
      · rw [hdelivered, hflight, directHops_append, directHops_routeBroadcast hsender hnode, if_neg hne,
          append_nil, append_assoc]
        exact perm_middle
      · rw [hflight, treeHops_append]
        exact perm_append_comm
    · -- the packet reaches its receiver
      have hdirect : (directHops s.inFlight).Perm (hop.nextDest :: directHops rest) := by
        refine (directHops_perm hperm).trans (.of_eq ?_)
        simp [directHops, hfinal]
      have htree : (net.treeHops s.inFlight).Perm (net.treeHops rest) := by
        refine (treeHops_perm hperm).trans (.of_eq ?_)
        simp [treeHops, hfinal]
      refine hs.perm ?_ ?_
      · rw [hdelivered, hflight, append_assoc]
        exact hdirect.symm.append_left s.delivered
      · rw [hflight]
        exact htree.symm

/-! ## A core that is not a mesh node -/

/-- Every packet in flight goes straight to its receiver, and every core gets one. -/
structure Direct (net : BroadcastNetwork) (s : Broadcast) : Prop where
  straight : ∀ hop ∈ s.inFlight, hop.finalDest = some hop.nextDest
  cores : (s.delivered ++ s.inFlight.map Hop.nextDest).Perm (List.range net.totalCores)

theorem Direct.init (h : net.isFakeNode sender = true) : net.Direct (net.machine sender).init := by
  have hinit : (net.machine sender).init.inFlight = (range net.totalCores).map fun i =>
      { direction := .destination, finalDest := some i, nextDest := i } := by
    show net.routeBroadcast sender sender = _
    rw [routeBroadcast, if_pos h]
  refine ⟨?_, ?_⟩
  · rw [hinit]
    simp
  · show (([] : List ℕ) ++ _).Perm _
    rw [hinit, List.map_map, nil_append]
    exact .of_eq (List.map_id _)

theorem Direct.step (hs : net.Direct s) (h : net.pull sender s i = some s') :
    net.Direct s' ∧ s'.inFlight.length < s.inFlight.length := by
  obtain ⟨hop, rest, -, hperm, hdelivered, ⟨hfinal, -⟩ | ⟨-, hflight⟩⟩ := pull_cases h
  · have hstraight := hs.straight hop (hperm.mem_iff.mpr mem_cons_self)
    rw [hfinal] at hstraight
    cases hstraight
  · refine ⟨⟨?_, ?_⟩, ?_⟩
    · intro hop' hmem
      rw [hflight] at hmem
      exact hs.straight hop' (hperm.mem_iff.mpr (mem_cons_of_mem _ hmem))
    · rw [hdelivered, hflight, append_assoc]
      exact ((hperm.map Hop.nextDest).symm.append_left s.delivered).trans hs.cores
    · rw [hflight, hperm.length_eq, length_cons]
      exact Nat.lt_succ_self _

theorem direct_of_reachable (h : net.isFakeNode sender = true) (hs : (net.machine sender).Reachable s) :
    net.Direct s :=
  hs.invariant (.init h) fun _ _ _ hs _ hpull => (hs.step hpull).1

theorem Direct.count_le_one (hs : net.Direct s) (core : ℕ) : s.delivered.count core ≤ 1 :=
  nodup_iff_count_le_one.mp
    (nodup_append.mp (hs.cores.nodup_iff.mpr nodup_range)).1 core

theorem Direct.count_eq_one (hs : net.Direct s) (hend : s.inFlight = [])
    (hcore : net.isFakeNode core = false) : s.delivered.count core = 1 := by
  have hcores := hs.cores
  rw [hend, map_nil, append_nil] at hcores
  have hlt := (lt_applicationCores hcore).trans_le net.cores
  exact count_eq_one_of_mem (hcores.nodup_iff.mpr nodup_range)
    (hcores.mem_iff.mpr (mem_range.mpr hlt))

theorem exactlyOnce_of_fakeNode (h : net.isFakeNode sender = true) : net.ExactlyOnce sender where
  bounded := by
    refine ⟨(net.machine sender).init.inFlight.length, fun pulls s hrun => ?_⟩
    exact Machine.run_length_le (P := net.Direct) (fun s i s' hs hpull => hs.step hpull) (.init h) hrun
  goes_on := by
    intro s hs hne
    obtain ⟨hop, rest, hflight⟩ := exists_cons_of_ne_nil hne
    have hstraight := (direct_of_reachable h hs).straight hop (hflight ▸ mem_cons_self)
    have hget : s.inFlight[0]? = some hop := by
      rw [hflight]
      rfl
    exact ⟨0, pull_returns hget (.inr hstraight)⟩
  once := fun s hs hend core hcore => (direct_of_reachable h hs).count_eq_one hend hcore

/-! ## A mesh node -/

def Alive (net : BroadcastNetwork) (hops : List Hop) : Prop :=
  ∃ hop ∈ hops, hop.finalDest = none ∧ net.isFakeNode hop.nextDest = false

theorem alive_routeBroadcast (hcore : net.isFakeNode core = false) :
    net.Alive (net.routeBroadcast sender core) := by
  unfold Alive
  rw [routeBroadcast, if_neg (by simp [hcore])]
  generalize net.computePosition sender = s
  generalize net.computePosition core = c
  rcases le_total s.2 c.2 with hup | hdown
  · refine ⟨⟨.up, none, net.computeCoreId c.1 (c.2 + 1)⟩, ?_, rfl, (net.computeCoreId_spec ..).2⟩
    simp [hup]
  · refine ⟨⟨.down, none, net.computeCoreId c.1 (c.2 - 1)⟩, ?_, rfl, (net.computeCoreId_spec ..).2⟩
    simp [hdown]

/-- **The broadcast of a mesh node never ends.** -/
theorem not_exactlyOnce_of_node (h : net.isFakeNode sender = false) : ¬ net.ExactlyOnce sender := by
  intro honce
  obtain ⟨bound, hbound⟩ := honce.bounded
  have hstep : ∀ s : Broadcast, net.Alive s.inFlight →
      ∃ i s', (net.machine sender).step s i = some s' ∧ net.Alive s'.inFlight := by
    rintro s ⟨hop, hmem, hfinal, hnode⟩
    obtain ⟨i, hget⟩ := mem_iff_getElem?.mp hmem
    obtain ⟨s', hpull⟩ : ∃ s', net.pull sender s i = some s' := pull_returns hget (.inl hfinal)
    refine ⟨i, s', hpull, ?_⟩
    obtain ⟨hop', rest, hget', -, -, ⟨-, hflight⟩ | ⟨hfinal', -⟩⟩ := pull_cases hpull
    · obtain rfl := some.inj (hget.symm.trans hget')
      obtain ⟨hop', hmem', hnew⟩ : net.Alive (net.routeBroadcast sender hop.nextDest) :=
        alive_routeBroadcast hnode
      exact ⟨hop', hflight ▸ mem_append_right _ hmem', hnew⟩
    · obtain rfl := some.inj (hget.symm.trans hget')
      rw [hfinal] at hfinal'
      cases hfinal'
  have hinit : net.Alive (net.machine sender).init.inFlight := alive_routeBroadcast h
  obtain ⟨pulls, s, hlen, hrun⟩ := Machine.exists_run_of_length hstep (bound + 1) hinit
  have hle := hbound pulls s hrun
  omega

/-- **A broadcast ends, and reaches every mesh node exactly once, just when the sender is not a mesh
node.** While no packet that went round an edge is received, no core receives the broadcast twice. -/
theorem broadcast_exactly_once_iff (net : BroadcastNetwork) (sender : ℕ) :
    (net.ExactlyOnce sender ↔ net.isFakeNode sender = true) ∧
      ∀ s, (net.machine sender).ReachableWhen net.InsideMesh s →
        (∀ core, s.delivered.count core ≤ 1) ∧
        ((∀ hop ∈ s.inFlight, net.crossedEdge hop = true) →
          ∀ core, net.isFakeNode core = false → s.delivered.count core = 1) := by
  cases hfake : net.isFakeNode sender with
  | false =>
    refine ⟨iff_of_false (not_exactlyOnce_of_node hfake) Bool.false_ne_true, fun s hs => ?_⟩
    have hflood := flood_of_reachable hfake hs
    have hnodup := (nodup_append.mp (nodup_append.mp hflood.nodup).1).1
    refine ⟨nodup_iff_count_le_one.mp hnodup, fun hcrossed core hcore => ?_⟩
    have hdirect : directHops s.inFlight = [] := by
      rw [directHops, map_eq_nil_iff, filter_eq_nil_iff]
      intro hop hmem
      simp [finalDest_of_crossedEdge (hcrossed hop hmem)]
    have htree : net.treeHops s.inFlight = [] := by
      rw [treeHops, map_eq_nil_iff, filter_eq_nil_iff]
      intro hop hmem
      simp [hcrossed hop hmem]
    rw [hdirect, htree, append_nil] at hflood
    exact count_eq_one_of_mem hnodup (hflood.mem_reached hcore)
  | true =>
    refine ⟨iff_of_true (exactlyOnce_of_fakeNode hfake) rfl, fun s hs => ?_⟩
    have hdirect := direct_of_reachable hfake hs.reachable
    refine ⟨hdirect.count_le_one, fun hcrossed core hcore => ?_⟩
    have hend : s.inFlight = [] := by
      rw [eq_nil_iff_forall_not_mem]
      intro hop hmem
      have hstraight := hdirect.straight hop hmem
      rw [finalDest_of_crossedEdge (hcrossed hop hmem)] at hstraight
      cases hstraight
    exact hdirect.count_eq_one hend hcore

def fourNodes : BroadcastNetwork where
  width := 2
  height := 2
  concentration := 2
  wrapAround := false
  width_pos := Nat.two_pos
  height_pos := Nat.two_pos
  concentration_pos := Nat.two_pos
  totalCores := 9
  cores := by decide

/-- The broadcast of core 3, which shares its node with core 2, ends; the broadcast of core 0 reaches the
four nodes once while no packet is pulled that went round an edge. -/
theorem fourNodes_exactly_once : fourNodes.ExactlyOnce 3 ∧
    ∃ s, (fourNodes.machine 0).ReachableWhen fourNodes.InsideMesh s ∧ s.delivered.count 0 = 1 ∧
      s.delivered.count 2 = 1 ∧ s.delivered.count 4 = 1 ∧ s.delivered.count 6 = 1 := by
  refine ⟨(broadcast_exactly_once_iff fourNodes 3).1.mpr (by decide), ?_⟩
  let check : Broadcast → ℕ → Bool := fun s i => s.inFlight[i]?.all fun hop => !fourNodes.crossedEdge hop
  have hcheck : ∀ s i, check s i = true → fourNodes.InsideMesh s i := by
    intro s i hcheck hop hget
    simpa [check, hget] using hcheck
  obtain ⟨s, hs, hall⟩ := Machine.exists_reachableWhen (m := fourNodes.machine 0) check hcheck
    (P := fun s => ∀ hop ∈ s.inFlight, fourNodes.crossedEdge hop = true) [0, 1, 2, 3]
    (by decide +kernel) (by decide +kernel)
  have hcount := ((broadcast_exactly_once_iff fourNodes 0).2 s hs).2 hall
  exact ⟨s, hs, hcount 0 (by decide), hcount 2 (by decide), hcount 4 (by decide), hcount 6 (by decide)⟩

/-- The broadcast of core 0 goes up and down to the node above it, which receives it twice. -/
theorem fourNodes_delivers_twice : ∃ s, (fourNodes.machine 0).Reachable s ∧ s.delivered = [4, 4] ∧
    ¬ fourNodes.ExactlyOnce 0 := by
  obtain ⟨s, hs, hdelivered⟩ := Machine.exists_reachable (m := fourNodes.machine 0)
    (P := fun s => s.delivered = [4, 4]) [0, 0] (by decide +kernel)
  exact ⟨s, hs, hdelivered, not_exactlyOnce_of_node (by decide)⟩

end BroadcastNetwork

end MultiCoreMemory
