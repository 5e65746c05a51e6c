import MultiCoreMemory.Translation.FrameConservation

/-!
# The page tables over whole runs

`Local_to_requester` never migrates, so its four tables stay exact mirrors of each other;
`Dynamic_migration` keeps less, but enough for its random searches to find a frame.
-/

namespace MultiCoreMemory

open Placement DynamicMigration PlacementConfig

variable {cfg : PlacementConfig} {s s' : Placement} {ch ch' : Fin numChannels} {off off' : ℕ}

/-! ## Translated addresses -/

theorem physAddr_emod (cfg : PlacementConfig) (ppn : ℕ) (addr : ℤ) :
    cfg.physAddr ppn addr % 2 ^ cfg.offsetbits = addr % 2 ^ cfg.offsetbits := by
  unfold physAddr
  rw [Int.add_comm, Int.add_mul_emod_self_right, Int.emod_emod_of_dvd _ (dvd_refl _)]

theorem physAddr_nonneg (cfg : PlacementConfig) (ppn : ℕ) (addr : ℤ) : 0 ≤ cfg.physAddr ppn addr := by
  have hoff : 0 ≤ addr % 2 ^ cfg.offsetbits := Int.emod_nonneg _ (by positivity)
  unfold physAddr
  positivity

theorem two_pow_offsetbits_le (h : cfg.pagesize ≠ 0) : 2 ^ cfg.offsetbits ≤ cfg.pagesize := by
  rw [offsetbits, calcLog2_eq_log]
  exact Nat.pow_log_le_self 2 h

theorem physAddr_lt {ppn : ℕ} (h : ppn < cfg.numPages) (addr : ℤ) :
    cfg.physAddr ppn addr < cfg.maxPaddr := by
  have hsize : cfg.pagesize ≠ 0 := by
    intro h0
    rw [numPages, h0, Nat.div_zero] at h
    omega
  have hend : (ppn + 1) * 2 ^ cfg.offsetbits ≤ cfg.maxPaddr := by
    calc (ppn + 1) * 2 ^ cfg.offsetbits
        ≤ cfg.numPages * cfg.pagesize := Nat.mul_le_mul h (two_pow_offsetbits_le hsize)
      _ ≤ cfg.maxPaddr := Nat.div_mul_le_self _ _
  have hoff : addr % 2 ^ cfg.offsetbits < 2 ^ cfg.offsetbits := Int.emod_lt_of_pos _ (by positivity)
  have hend' : ((ppn : ℤ) + 1) * 2 ^ cfg.offsetbits ≤ cfg.maxPaddr := by exact_mod_cast hend
  unfold physAddr
  rw [Int.add_mul, Int.one_mul] at hend'
  omega

theorem frame_lt_numPages (ho : off < cfg.pagesPerChannel) : cfg.frame ch off < cfg.numPages := by
  have hch : ch.val + 1 ≤ 8 := ch.isLt
  calc cfg.frame ch off
      < cfg.pagesPerChannel + ch.val * cfg.pagesPerChannel := Nat.add_lt_add_right ho _
    _ = (ch.val + 1) * cfg.pagesPerChannel := by rw [Nat.add_mul, Nat.one_mul, Nat.add_comm]
    _ ≤ 8 * cfg.pagesPerChannel := Nat.mul_le_mul_right _ hch
    _ ≤ cfg.numPages := Nat.mul_div_le _ _

theorem Policy.translate_addr (hp : 1 ≤ cfg.pagesPerChannel) (policy : Policy)
    (h : (policy.machine cfg).Reachable s) {C : Type} {o : TranslateOracle} {req req' : Request C}
    (ht : policy.translate cfg o s req = some (req', s')) :
    req'.addr % 2 ^ cfg.offsetbits = req.addr % 2 ^ cfg.offsetbits ∧ 0 ≤ req'.addr ∧
      req'.addr < cfg.maxPaddr := by
  obtain ⟨hT, ppn, hl, rfl⟩ := policy.translate_spec hp h ht
  obtain ⟨ch, off, ho, hl', -⟩ := hT.placed.mapped (by rw [hl]; simp)
  rw [hl] at hl'
  obtain rfl : ppn = cfg.frame ch off := Option.some.inj hl'
  exact ⟨physAddr_emod cfg _ _, physAddr_nonneg cfg _ _, physAddr_lt (frame_lt_numPages ho) _⟩

/-! ## `Local_to_requester` -/

structure PageTableConsistent (cfg : PlacementConfig) (s : Placement) : Prop where
  injective : ∀ v v' p, s.globalPageTable.lookup v = some p →
    s.globalPageTable.lookup v' = some p → v = v'
  inverse : ∀ v p, s.reversePageTable.lookup p = some v ↔ s.globalPageTable.lookup v = some p
  free_iff : ∀ ch off, off < cfg.pagesPerChannel → (s.freePhysicalPages2d ch off = true ↔
    ∀ v, s.globalPageTable.lookup v ≠ some (cfg.frame ch off))
  counted : ∀ ch, s.numFreePhysicalPagesPerPart ch = freeCount cfg s.freePhysicalPages2d ch
  same_domain : ∀ v, s.pageToChannelMapping.lookup v = none ↔ s.globalPageTable.lookup v = none
  partition : ∀ v ch, s.pageToChannelMapping.lookup v = some ch →
    ∃ off < cfg.pagesPerChannel, s.globalPageTable.lookup v = some (cfg.frame ch off)

variable {table : UnorderedMap ℤ ℕ} {mapping : UnorderedMap ℤ (Fin numChannels)}

theorem Placed.same_domain (h : Placed cfg table mapping) (v : ℤ) :
    mapping.lookup v = none ↔ table.lookup v = none := by
  rcases h v with ⟨ht, hm⟩ | ⟨ch, off, -, ht, hm⟩
  · simp [ht, hm]
  · simp [ht, hm]

theorem Placed.partition (h : Placed cfg table mapping) {v : ℤ} (hm : mapping.lookup v = some ch) :
    ∃ off < cfg.pagesPerChannel, table.lookup v = some (cfg.frame ch off) := by
  rcases h v with ⟨-, hm'⟩ | ⟨ch', off, ho, ht, hm'⟩
  · rw [hm] at hm'
    cases hm'
  · rw [hm] at hm'
    cases hm'
    exact ⟨off, ho, ht⟩

theorem Mirrored.consistent (hM : Mirrored cfg s) (hT : TablesAgree cfg s) :
    PageTableConsistent cfg s where
  injective _ _ _ hv hv' := hM.inj hv hv'
  inverse := hM.inverse
  free_iff ch off ho := by
    rw [← not_exists, ← hM.occupied ch off ho, Bool.not_eq_false]
  counted := hT.counted
  same_domain := hT.placed.same_domain
  partition _ _ hm := hT.placed.partition hm

namespace LocalToRequester

theorem translate_mirrored (hp : 1 ≤ cfg.pagesPerChannel) (hT : TablesAgree cfg s)
    (h : Mirrored cfg s) {C : Type} {o : TranslateOracle} {req req' : Request C}
    (ht : translate cfg o s req = some (req', s')) : Mirrored cfg s' := by
  obtain ⟨ppn, hr, -⟩ := translate_cases ht
  obtain ⟨n, hn⟩ := endOfWindow_eq cfg (s.countAccess (cfg.vpnOf req.addr) (coreOf req.sourceId))
  rw [hn] at hr
  refine Mirrored.resolvePage ?_ hp ?_ hr
  · exact ⟨h.inverse, h.occupied⟩
  · exact hT.counted

theorem reachable_mirrored (hp : 1 ≤ cfg.pagesPerChannel) (h : (machine cfg).Reachable s) :
    TablesAgree cfg s ∧ Mirrored cfg s := by
  refine h.invariant (P := fun s => TablesAgree cfg s ∧ Mirrored cfg s)
    ⟨TablesAgree.initial cfg, Mirrored.initial cfg⟩ ?_
  intro s c s' hs _ hst
  obtain ⟨⟨req', s₂⟩, ht, rfl⟩ := Option.map_eq_some_iff.mp hst
  exact ⟨translate_tables hp hs.1 ht, translate_mirrored hp hs.1 hs.2 ht⟩

/-- **The page table of `Local_to_requester` is consistent in every run**, and every translated
    address keeps its page offset and lies below `m_max_paddr`. -/
theorem page_table_consistent (cfg : PlacementConfig) (hp : 1 ≤ cfg.pagesPerChannel) {s : Placement}
    (h : (machine cfg).Reachable s) :
    PageTableConsistent cfg s ∧
      ∀ (C : Type) (o : TranslateOracle) (req req' : Request C) (s' : Placement),
        translate cfg o s req = some (req', s') →
          req'.addr % 2 ^ cfg.offsetbits = req.addr % 2 ^ cfg.offsetbits ∧ 0 ≤ req'.addr ∧
            req'.addr < cfg.maxPaddr := by
  obtain ⟨hT, hM⟩ := reachable_mirrored hp h
  refine ⟨hM.consistent hT, ?_⟩
  intro C o req req' s' ht
  exact Policy.translate_addr hp .localToRequester h ht

/-- Pages 1 and 2 are touched in a memory of one frame a channel: the second evicts the first. -/
theorem consistent_after_eviction : ∃ s,
    (machine tinyConfig).Reachable s ∧
      s.globalPageTable.lookup 1 = none ∧ s.globalPageTable.lookup 2 = some 0 ∧
      PageTableConsistent tinyConfig s := by
  obtain ⟨s, hreach, hfirst, hsecond⟩ := Machine.exists_reachable
    (m := machine tinyConfig)
    (P := fun s => s.globalPageTable.lookup 1 = none ∧ s.globalPageTable.lookup 2 = some 0)
    [touch 1 0 [], touch 2 0 []] (by decide +kernel)
  exact ⟨s, hreach, hfirst, hsecond,
    (page_table_consistent tinyConfig (by decide +kernel) hreach).1⟩

end LocalToRequester

/-! ## Entering a random search -/

/-- The state in which an allocation enters its random search, and the values still to be drawn. -/
def enterSearch (cfg : PlacementConfig) (s : Placement) (ch : Fin numChannels) (draws : List ℕ) :
    Option (Placement × List ℕ) :=
  if s.numFreePhysicalPagesPerPart ch = 0 then
    match draws with
    | [] => none
    | d :: ds => some (s.evictFrame cfg ch d, ds)
  else some (s, draws)

theorem findRandomFreePage_eq (s : Placement) (ch : Fin numChannels) (draws : List ℕ) :
    findRandomFreePage cfg s ch draws =
      (enterSearch cfg s ch draws).bind fun r => searchFreePage cfg r.1 ch r.2 := by
  unfold findRandomFreePage enterSearch
  split
  · cases draws <;> rfl
  · rfl

/-- If the allocation gets as far as its search, a frame of the partition is free. -/
def FreeFrameAtSearch (cfg : PlacementConfig) (s : Placement) (ch : Fin numChannels)
    (draws : List ℕ) : Prop :=
  ∀ s' ds, enterSearch cfg s ch draws = some (s', ds) →
    ∃ off < cfg.pagesPerChannel, s'.freePhysicalPages2d ch off = true

theorem exists_free_of_freeCount {free : Fin numChannels → ℕ → Bool}
    (h : freeCount cfg free ch ≠ 0) : ∃ off < cfg.pagesPerChannel, free ch off = true := by
  obtain ⟨off, hoff⟩ := Finset.card_ne_zero.mp h
  rw [Finset.mem_filter, Finset.mem_range] at hoff
  exact ⟨off, hoff.1, hoff.2⟩

theorem TablesAgree.freeFrameAtSearch (hp : 1 ≤ cfg.pagesPerChannel) (h : TablesAgree cfg s)
    (draws : List ℕ) : FreeFrameAtSearch cfg s ch draws := by
  intro s' ds henter
  unfold enterSearch at henter
  split at henter
  · -- the frame just evicted is free
    cases draws with
    | nil => cases henter
    | cons d rest =>
      cases henter
      have hlt : d % cfg.pagesPerChannel < cfg.pagesPerChannel := Nat.mod_lt _ (by omega)
      refine ⟨_, hlt, ?_⟩
      simp only [Placement.evictFrame, frame_mod hlt, markFrame_apply, and_self, if_true]
  · rename_i hne
    cases henter
    rw [h.counted ch] at hne
    exact exists_free_of_freeCount hne

/-! ## `Dynamic_migration` -/

namespace DynamicMigration

/-- **The placement tables of `Dynamic_migration` agree**: the counter of a partition is the number of
its free bits, and a page's frame is in the partition of its channel. So every random search is entered
with a free frame there. -/
theorem placement_tables_agree (cfg : PlacementConfig) (hp : 1 ≤ cfg.pagesPerChannel)
    {s : Placement} (h : (machine cfg).Reachable s) :
    (∀ ch, s.numFreePhysicalPagesPerPart ch = freeCount cfg s.freePhysicalPages2d ch) ∧
      (∀ v, s.pageToChannelMapping.lookup v = none ↔ s.globalPageTable.lookup v = none) ∧
      (∀ v ch, s.pageToChannelMapping.lookup v = some ch →
        ∃ off < cfg.pagesPerChannel, s.globalPageTable.lookup v = some (cfg.frame ch off)) ∧
      ∀ c : TranslateCall, CallMeets cfg (FreeFrameAtSearch cfg) (FreeFrameAtSearch cfg) s c := by
  have hT := reachable_tables hp h
  refine ⟨hT.counted, hT.placed.same_domain, ?_, ?_⟩
  · intro v ch hm
    exact hT.placed.partition hm
  · intro c
    exact (tables_kept hp).callMeets (fun s ch draws hs => hs.freeFrameAtSearch hp draws) hT c

/-- The run after which two pages share a frame still has agreeing tables. -/
theorem tables_agree_after_sharing : ∃ s, (machine tinyConfig).Reachable s ∧
    s.pageToChannelMapping.lookup 2 = some 1 ∧
      ∃ off < tinyConfig.pagesPerChannel,
        s.globalPageTable.lookup 2 = some (tinyConfig.frame 1 off) := by
  obtain ⟨s, hreach, hl⟩ := Machine.exists_reachable (m := machine tinyConfig)
    (P := fun s => s.pageToChannelMapping.lookup 2 = some 1) sharingRun (by decide +kernel)
  obtain ⟨-, -, hpartition, -⟩ := placement_tables_agree tinyConfig (by decide +kernel) hreach
  exact ⟨s, hreach, hl, hpartition 2 1 hl⟩

end DynamicMigration

end MultiCoreMemory
