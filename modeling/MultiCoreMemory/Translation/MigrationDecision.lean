import Mathlib.Algebra.BigOperators.Fin
import Mathlib.Algebra.Order.BigOperators.Group.Finset
import MultiCoreMemory.Lib.FirstLeast
import MultiCoreMemory.Translation.FrameExclusive

/-!
# When `migrate_pages` moves a page
-/

namespace MultiCoreMemory

open FirstLeast List Option

def LatencyMatrix.IsInt (latency : LatencyMatrix) : Prop := ∀ core ch, latency core ch < 2 ^ 31

theorem findBestChannel_min {latency : LatencyMatrix} (h : latency.IsInt) (core : Fin 8)
    (ch : Fin numChannels) : latency core (findBestChannel latency core) ≤ latency core ch := by
  obtain ⟨hall, hfrom⟩ := foldl_keep_least (latency core) (finRange numChannels) (0, sizeMax)
  obtain hinit | ⟨-, -, hval⟩ := hfrom
  · -- no entry is as large as the initial value
    have h0 := hall 0 (mem_finRange 0)
    have hlt := h core 0
    rw [hinit] at h0
    unfold sizeMax at h0
    omega
  · unfold findBestChannel
    rw [hval]
    exact hall ch (mem_finRange ch)

namespace Placement

variable {cfg : PlacementConfig} {s s' : Placement}

/-- `std::min_element` keeps the position only; its value is the latency there. -/
theorem minElementChannel_min (latency : LatencyMatrix) (core : Fin 8) (ch : Fin numChannels) :
    latency core (minElementChannel latency core) ≤ latency core ch := by
  have hpair : ∀ (l : List (Fin numChannels)) (b : Fin numChannels),
      l.foldl (fun best a => if latency core a < best.2 then (a, latency core a) else best)
        (b, latency core b) =
      (l.foldl (fun best a => if latency core a < latency core best then a else best) b,
        latency core
          (l.foldl (fun best a => if latency core a < latency core best then a else best) b)) := by
    intro l
    induction l with
    | nil => intro b; rfl
    | cons a l ih =>
      intro b
      rw [foldl_cons, foldl_cons]
      by_cases ha : latency core a < latency core b
      · simp only [ha, if_true]
        exact ih a
      · simp only [ha, if_false]
        exact ih b
  obtain ⟨hall, -⟩ :=
    foldl_keep_least (latency core) (finRange numChannels) (0, latency core 0)
  have hch := hall ch (mem_finRange ch)
  rw [hpair] at hch
  exact hch

theorem findMostFrequentCore_max (s : Placement) (order : Equiv.Perm (Fin 8)) (vpn : ℤ)
    (core : Fin 8) : s.pageAccessCountsPerCore vpn core ≤
      s.pageAccessCountsPerCore vpn (findMostFrequentCore s order vpn) := by
  obtain ⟨hall, hfrom⟩ := foldl_keep_least
    (fun c => OrderDual.toDual (s.pageAccessCountsPerCore vpn c)) ((finRange 8).map order)
    (0, OrderDual.toDual 0)
  have hmem : core ∈ (finRange 8).map order :=
    List.mem_map.mpr ⟨order.symm core, mem_finRange _, order.apply_symm_apply core⟩
  have hcore := hall core hmem
  obtain hinit | ⟨-, -, hval⟩ := hfrom
  · -- no access at all
    rw [hinit] at hcore
    exact (show s.pageAccessCountsPerCore vpn core ≤ 0 from hcore).trans (Nat.zero_le _)
  · rw [← hval] at hcore
    exact hcore

theorem findRandomFreePage_migrations {ch : Fin numChannels} {draws ds : List ℕ} {ppn : ℕ}
    (h : findRandomFreePage cfg s ch draws = some (ppn, s', ds)) : s'.migrations = s.migrations := by
  obtain ⟨s₁, d, rfl | ⟨-, v, -, rfl⟩, -, -, rfl⟩ := findRandomFreePage_spec h
  · rfl
  · rfl

end Placement

namespace DynamicMigration

open Placement

variable {cfg : PlacementConfig} {s s' : Placement} {cores : ℤ → Equiv.Perm (Fin 8)} {vpn : ℤ}
  {draws ds : List ℕ}

def decidingCore (s : Placement) (cores : ℤ → Equiv.Perm (Fin 8)) (vpn : ℤ) : Fin 8 :=
  findMostFrequentCore s (cores vpn) vpn

/-- What a move to the nearest channel saves the deciding core in the next window, in ns: twice the
difference of the latencies for each of its accesses. -/
def saving (cfg : PlacementConfig) (s : Placement) (cores : ℤ → Equiv.Perm (Fin 8)) (vpn : ℤ) : ℚ :=
  let core := decidingCore s cores vpn
  2 * ((cfg.latency core (currentChannel s vpn) : ℚ) -
    cfg.latency core (findBestChannel cfg.latency core)) * s.pageAccessCountsPerCore vpn core

structure Candidate (cfg : PlacementConfig) (s : Placement) (cores : ℤ → Equiv.Perm (Fin 8))
    (vpn : ℤ) : Prop where
  hot : cfg.hotPageThreshold ≤ ∑ core, s.pageAccessCountsPerCore vpn core
  nearer : findBestChannel cfg.latency (decidingCore s cores vpn) ≠ currentChannel s vpn
  cooled : ∀ last, s.lastMigrationWindow.lookup vpn = some last →
    cfg.cooldownWindows ≤ s.windowCounter - last

/-- The time to transfer a page of `m_pagesize` bytes, in whole microseconds. -/
def transferTime (cfg : PlacementConfig) : ℕ :=
  ⌊(cfg.pagesize : ℚ) / (cfg.bandwidth * 1024 * 1024 * 1024) * 1000000⌋₊

theorem estimateLatencyGain_eq (h : cfg.latency.IsInt) (s : Placement)
    (cores : ℤ → Equiv.Perm (Fin 8)) (vpn : ℤ) :
    estimateLatencyGain cfg s vpn (decidingCore s cores vpn) (currentChannel s vpn) =
      saving cfg s cores vpn := by
  have hbest : cfg.latency (decidingCore s cores vpn)
      (minElementChannel cfg.latency (decidingCore s cores vpn)) =
      cfg.latency (decidingCore s cores vpn)
        (findBestChannel cfg.latency (decidingCore s cores vpn)) :=
    le_antisymm (minElementChannel_min ..) (findBestChannel_min h ..)
  simp only [estimateLatencyGain, saving, hbest, futureAccessFactor, Nat.mul_one]
  ring

theorem isCoolingDown_eq_false_iff : isCoolingDown cfg s vpn = false ↔
    ∀ last, s.lastMigrationWindow.lookup vpn = some last →
      cfg.cooldownWindows ≤ s.windowCounter - last := by
  unfold isCoolingDown
  cases s.lastMigrationWindow.lookup vpn with
  | none => simp
  | some last => simp

theorem isHotPage_iff : isHotPage cfg s vpn = true ↔
    cfg.hotPageThreshold ≤ ∑ core, s.pageAccessCountsPerCore vpn core := by
  rw [isHotPage, decide_eq_true_iff, Fin.sum_univ_def]

theorem migrationTarget_eq_some_iff (h : cfg.latency.IsInt) {ch : Fin numChannels} :
    migrationTarget cfg s cores vpn = some ch ↔
      vpn ≠ 0 ∧ Candidate cfg s cores vpn ∧ 1000 * cfg.cost < saving cfg s cores vpn ∧
        ch = findBestChannel cfg.latency (decidingCore s cores vpn) := by
  have hgain : saving cfg s cores vpn / 1000 > cfg.cost ↔
      1000 * (cfg.cost : ℚ) < saving cfg s cores vpn := by
    rw [gt_iff_lt, lt_div_iff₀ (by norm_num), mul_comm]
  have hcore : findMostFrequentCore s (cores vpn) vpn = decidingCore s cores vpn := rfl
  unfold migrationTarget
  simp only [hcore, estimateLatencyGain_eq h]
  by_cases hhot : isHotPage cfg s vpn = true
  · simp only [hhot, Bool.not_true, Bool.false_eq_true, if_false]
    by_cases h0 : vpn = 0
    · simp [h0]
    rw [if_neg h0]
    by_cases hnear : findBestChannel cfg.latency (decidingCore s cores vpn) = currentChannel s vpn
    · rw [if_pos hnear]
      refine iff_of_false nofun ?_
      rintro ⟨-, hcand, -⟩
      exact hcand.nearer hnear
    rw [if_neg hnear]
    by_cases hcool : isCoolingDown cfg s vpn = true
    · rw [if_pos hcool]
      refine iff_of_false nofun ?_
      rintro ⟨-, hcand, -⟩
      rw [isCoolingDown_eq_false_iff.mpr hcand.cooled] at hcool
      cases hcool
    rw [if_neg hcool]
    have hcand : Candidate cfg s cores vpn :=
      ⟨isHotPage_iff.mp hhot, hnear, isCoolingDown_eq_false_iff.mp (Bool.not_eq_true _ ▸ hcool)⟩
    by_cases hpays : saving cfg s cores vpn / 1000 > cfg.cost
    · rw [if_pos hpays, some_inj]
      exact ⟨fun he => ⟨h0, hcand, hgain.mp hpays, he.symm⟩, fun he => he.2.2.2.symm⟩
    · rw [if_neg hpays]
      exact iff_of_false nofun fun he => hpays (hgain.mpr he.2.2.1)
  · rw [if_pos (by simpa using hhot)]
    refine iff_of_false nofun ?_
    rintro ⟨-, hcand, -⟩
    exact hhot (isHotPage_iff.mpr hcand.hot)

theorem moved_iff (hmapped : s.globalPageTable.lookup vpn ≠ none)
    (hv : visitEntry cfg cores s vpn draws = some (s', ds)) :
    s'.migrations ≠ s.migrations ↔ ∃ ch, migrationTarget cfg s cores vpn = some ch := by
  obtain ⟨m, hm⟩ := readMapping_cases cfg s vpn
  obtain ⟨hnone, -⟩ | ⟨-, ht, rfl, -⟩ | ⟨-, ch, ppn, s₁, ht, hf, rfl⟩ := visitEntry_cases hv
  · exact absurd hnone hmapped
  · rw [hm, ht]
    simp
  · rw [hm] at hf
    have hkept := findRandomFreePage_migrations hf
    refine iff_of_true ?_ ⟨ch, ht⟩
    show s₁.migrations + 1 ≠ s.migrations
    rw [hkept]
    exact Nat.succ_ne_self _

/-! ## The cost of a transfer -/

theorem transferTime_le_cost (cfg : PlacementConfig) : transferTime cfg ≤ cfg.cost := by
  unfold transferTime PlacementConfig.cost PlacementConfig.calculateMigrationCost
  have hscale : (cfg.pagesize : ℚ) * 1024 / (cfg.bandwidth * 1024 * 1024 * 1024) * 1000000 =
      1024 * ((cfg.pagesize : ℚ) / (cfg.bandwidth * 1024 * 1024 * 1024) * 1000000) := by ring
  simp only [hscale]
  obtain hneg | hpos := le_total
    ((cfg.pagesize : ℚ) / (cfg.bandwidth * 1024 * 1024 * 1024) * 1000000) 0
  · rw [Nat.floor_of_nonpos hneg]
    exact Nat.zero_le _
  · exact Nat.floor_mono (by linarith)

/-- **The decision is the true one except for a saving between the cost of the transfer and the cost that
the code computes.** -/
theorem decision_is_true_iff (h : cfg.latency.IsInt) (h0 : vpn ≠ 0)
    (hmapped : s.globalPageTable.lookup vpn ≠ none)
    (hv : visitEntry cfg cores s vpn draws = some (s', ds)) :
    (∀ core, s.pageAccessCountsPerCore vpn core ≤
      s.pageAccessCountsPerCore vpn (decidingCore s cores vpn)) ∧
    (∀ ch, cfg.latency (decidingCore s cores vpn)
        (findBestChannel cfg.latency (decidingCore s cores vpn)) ≤
      cfg.latency (decidingCore s cores vpn) ch) ∧
    ((s'.migrations ≠ s.migrations ↔
        Candidate cfg s cores vpn ∧ 1000 * transferTime cfg < saving cfg s cores vpn) ↔
      ¬(Candidate cfg s cores vpn ∧ 1000 * transferTime cfg < saving cfg s cores vpn ∧
        saving cfg s cores vpn ≤ 1000 * cfg.cost)) := by
  refine ⟨findMostFrequentCore_max s (cores vpn) vpn, findBestChannel_min h _, ?_⟩
  have hmoved : s'.migrations ≠ s.migrations ↔
      Candidate cfg s cores vpn ∧ 1000 * (cfg.cost : ℚ) < saving cfg s cores vpn := by
    rw [moved_iff hmapped hv]
    simp only [migrationTarget_eq_some_iff h]
    constructor
    · rintro ⟨-, -, hcand, hpays, -⟩
      exact ⟨hcand, hpays⟩
    · rintro ⟨hcand, hpays⟩
      exact ⟨_, h0, hcand, hpays, rfl⟩
  have hle : (1000 : ℚ) * transferTime cfg ≤ 1000 * cfg.cost := by
    have hcost : (transferTime cfg : ℚ) ≤ cfg.cost := Nat.cast_le.mpr (transferTime_le_cost cfg)
    linarith
  rw [hmoved]
  constructor
  · rintro hiff ⟨hcand, htrue, hcode⟩
    exact absurd (hiff.mpr ⟨hcand, htrue⟩).2 (not_lt.mpr hcode)
  · intro hnot
    constructor
    · rintro ⟨hcand, hpays⟩
      exact ⟨hcand, hle.trans_lt hpays⟩
    · rintro ⟨hcand, htrue⟩
      refine ⟨hcand, not_le.mp fun hcode => hnot ⟨hcand, htrue, hcode⟩⟩

/-- One frame a partition, the default page size and bandwidth. -/
def defaultBandwidth : PlacementConfig where
  maxPaddr := 32768
  hotPageThreshold := 1
  stabilityWindow := 3
  latency := initializeCoreChannelLatency

theorem isInt_initializeCoreChannelLatency :
    LatencyMatrix.IsInt initializeCoreChannelLatency := by
  unfold LatencyMatrix.IsInt
  decide +kernel

def touchedTwice : List TranslateCall := [touch 1 4 [], touch 1 0 [1]]

/-- Page 1 lies in channel 4, and core 0 uses it most: a move saves 440 ns, and the transfer takes less
than a microsecond.  The code takes it to cost 25. -/
theorem worthwhile_page_not_migrated : ∃ s s' ds,
    (machine defaultBandwidth).Reachable s ∧
    visitEntry defaultBandwidth (fun _ => Equiv.refl _) (s.countAccess 1 0) 1 [0, 0] = some (s', ds) ∧
    s'.migrations = (s.countAccess 1 0).migrations ∧
    Candidate defaultBandwidth (s.countAccess 1 0) (fun _ => Equiv.refl _) 1 ∧
    1000 * transferTime defaultBandwidth <
      saving defaultBandwidth (s.countAccess 1 0) (fun _ => Equiv.refl _) 1 ∧
    defaultBandwidth.cost = 25 := by
  obtain ⟨s, hs, hvisit, hhot, hnearer, hlast, hpays⟩ :=
    Machine.exists_reachable (m := machine defaultBandwidth)
      (P := fun s =>
        (visitEntry defaultBandwidth (fun _ => Equiv.refl _) (s.countAccess 1 0) 1 [0, 0]).any
          (fun r => r.1.migrations = (s.countAccess 1 0).migrations) ∧
        1 ≤ ∑ core, (s.countAccess 1 0).pageAccessCountsPerCore 1 core ∧
        findBestChannel initializeCoreChannelLatency
            (decidingCore (s.countAccess 1 0) (fun _ => Equiv.refl _) 1) ≠
          currentChannel (s.countAccess 1 0) 1 ∧
        (s.countAccess 1 0).lastMigrationWindow.lookup 1 = none ∧
        1000 * transferTime defaultBandwidth <
          saving defaultBandwidth (s.countAccess 1 0) (fun _ => Equiv.refl _) 1)
      touchedTwice (by decide +kernel)
  obtain ⟨⟨s', ds⟩, hv, hs'⟩ := (Option.any_eq_true _ _).mp hvisit
  refine ⟨s, s', ds, hs, hv, of_decide_eq_true hs', ⟨hhot, hnearer, ?_⟩, hpays, by decide +kernel⟩
  simp [hlast]

/-- With a cost below one microsecond by either reckoning, page 1 moves. -/
theorem cheap_transfer_migrates : ∃ s s' ds,
    (machine tinyConfig).Reachable s ∧
    visitEntry tinyConfig (fun _ => Equiv.refl _) (s.countAccess 1 0) 1 [0, 0] = some (s', ds) ∧
    s'.migrations ≠ (s.countAccess 1 0).migrations ∧
    1000 * transferTime tinyConfig <
      saving tinyConfig (s.countAccess 1 0) (fun _ => Equiv.refl _) 1 := by
  obtain ⟨s, hs, hvisit, hmapped, hsaving⟩ := Machine.exists_reachable (m := machine tinyConfig)
    (P := fun s => (visitEntry tinyConfig (fun _ => Equiv.refl _) (s.countAccess 1 0) 1 [0, 0]).any
        (fun r => r.1.migrations ≠ (s.countAccess 1 0).migrations) ∧
      (s.countAccess 1 0).globalPageTable.lookup 1 ≠ none ∧
      1000 * tinyConfig.cost < saving tinyConfig (s.countAccess 1 0) (fun _ => Equiv.refl _) 1)
    touchedTwice (by decide +kernel)
  obtain ⟨⟨s', ds⟩, hv, hs'⟩ := (Option.any_eq_true _ _).mp hvisit
  have hmoved := of_decide_eq_true hs'
  obtain ⟨-, -, htrue⟩ :=
    decision_is_true_iff isInt_initializeCoreChannelLatency (by decide) hmapped hv
  have hcode := htrue.mpr fun hlost => absurd hsaving (not_lt.mpr hlost.2.2)
  exact ⟨s, s', ds, hs, hv, hmoved, (hcode.mp hmoved).2⟩

/-! ## All cores together -/

/-- What the accesses of a window to the page cost with the page in a channel. -/
def pageCost (cfg : PlacementConfig) (s : Placement) (vpn : ℤ) (ch : Fin numChannels) : ℕ :=
  ∑ core, s.pageAccessCountsPerCore vpn core * cfg.latency core ch

theorem pageCost_eq (cfg : PlacementConfig) (s : Placement) (vpn : ℤ) (core : Fin 8)
    (ch : Fin numChannels) : pageCost cfg s vpn ch =
      s.pageAccessCountsPerCore vpn core * cfg.latency core ch +
        ∑ i ∈ Finset.univ.erase core, s.pageAccessCountsPerCore vpn i * cfg.latency i ch :=
  (Finset.add_sum_erase Finset.univ _ (Finset.mem_univ core)).symm

theorem currentChannel_of_moved (hmapped : s.globalPageTable.lookup vpn ≠ none)
    (hv : visitEntry cfg cores s vpn draws = some (s', ds))
    (hmoved : s'.migrations ≠ s.migrations) :
    migrationTarget cfg s cores vpn = some (currentChannel s' vpn) := by
  obtain ⟨m, hm⟩ := readMapping_cases cfg s vpn
  obtain ⟨hnone, -⟩ | ⟨-, -, rfl, -⟩ | ⟨-, ch, ppn, s₁, ht, -, rfl⟩ := visitEntry_cases hv
  · exact absurd hnone hmapped
  · rw [hm] at hmoved
    exact absurd rfl hmoved
  · have hcurrent : currentChannel (moveTo s₁ vpn ch ppn) vpn = ch := by
      simp [currentChannel, moveTo, UnorderedMap.subscript_fst, AList.lookup_insert]
    rw [hcurrent]
    exact ht

/-- **A page that is moved gets cheaper for the core that uses it most, by more than 500 times the cost of
a migration**, and so for all cores together unless the others lose more than that. -/
theorem migration_pays_for_most_frequent_core (h : cfg.latency.IsInt)
    (hmapped : s.globalPageTable.lookup vpn ≠ none)
    (hv : visitEntry cfg cores s vpn draws = some (s', ds))
    (hmoved : s'.migrations ≠ s.migrations) :
    let core := decidingCore s cores vpn
    let c := currentChannel s vpn
    let d := currentChannel s' vpn
    (∀ i, s.pageAccessCountsPerCore vpn i ≤ s.pageAccessCountsPerCore vpn core) ∧
    500 * cfg.cost + s.pageAccessCountsPerCore vpn core * cfg.latency core d <
      s.pageAccessCountsPerCore vpn core * cfg.latency core c ∧
    (∑ i ∈ Finset.univ.erase core,
        (s.pageAccessCountsPerCore vpn i : ℤ) * (cfg.latency i d - cfg.latency i c) ≤ 500 * cfg.cost →
      pageCost cfg s vpn d < pageCost cfg s vpn c) := by
  intro core c d
  obtain ⟨-, -, hpays, hd⟩ :=
    (migrationTarget_eq_some_iff h).mp (currentChannel_of_moved hmapped hv hmoved)
  have hgain : 500 * cfg.cost + s.pageAccessCountsPerCore vpn core * cfg.latency core d <
      s.pageAccessCountsPerCore vpn core * cfg.latency core c := by
    rw [saving, ← hd] at hpays
    have hlt : 500 * (cfg.cost : ℚ) + s.pageAccessCountsPerCore vpn core * cfg.latency core d <
        s.pageAccessCountsPerCore vpn core * cfg.latency core c := by linarith
    exact_mod_cast hlt
  refine ⟨findMostFrequentCore_max s (cores vpn) vpn, hgain, fun hothers => ?_⟩
  rw [pageCost_eq cfg s vpn core, pageCost_eq cfg s vpn core, ← Int.ofNat_lt]
  rw [← Int.ofNat_lt] at hgain
  push_cast at hgain hothers ⊢
  simp only [mul_sub, Finset.sum_sub_distrib] at hothers
  linarith

/-- A cost that truncates to 0, and a window of seven accesses. -/
def sevenAccesses : PlacementConfig := { tinyConfig with stabilityWindow := 7 }

def sharedPage : List TranslateCall :=
  [touch 1 4 [], touch 1 4 [1], touch 1 5 [1], touch 1 5 [1], touch 1 0 [1], touch 1 0 [1]]

/-- Core 0, with one access more than cores 4 and 5, draws their page to its channel: the accesses of the
window cost 490 before and 520 after. -/
theorem shared_page_gets_more_expensive : ∃ s s' ds,
    (machine sevenAccesses).Reachable s ∧
    visitEntry sevenAccesses (fun _ => Equiv.refl _) (s.countAccess 1 0) 1 [0, 0] = some (s', ds) ∧
    s'.migrations ≠ (s.countAccess 1 0).migrations ∧
    pageCost sevenAccesses (s.countAccess 1 0) 1 (currentChannel (s.countAccess 1 0) 1) = 490 ∧
    pageCost sevenAccesses (s.countAccess 1 0) 1 (currentChannel s' 1) = 520 := by
  obtain ⟨s, hs, hvisit, hold⟩ := Machine.exists_reachable (m := machine sevenAccesses)
    (P := fun s =>
      (visitEntry sevenAccesses (fun _ => Equiv.refl _) (s.countAccess 1 0) 1 [0, 0]).any (fun r =>
        r.1.migrations ≠ (s.countAccess 1 0).migrations ∧
          pageCost sevenAccesses (s.countAccess 1 0) 1 (currentChannel r.1 1) = 520) ∧
      pageCost sevenAccesses (s.countAccess 1 0) 1 (currentChannel (s.countAccess 1 0) 1) = 490)
    sharedPage (by decide +kernel)
  obtain ⟨⟨s', ds⟩, hv, hs'⟩ := (Option.any_eq_true _ _).mp hvisit
  obtain ⟨hmoved, hnew⟩ := of_decide_eq_true hs'
  exact ⟨s, s', ds, hs, hv, hmoved, hold, hnew⟩

/-- Core 0 alone, apart from the first touch by core 4: the page gets cheaper. -/
theorem moved_page_gets_cheaper : ∃ s s' ds,
    (machine tinyConfig).Reachable s ∧
    visitEntry tinyConfig (fun _ => Equiv.refl _) (s.countAccess 1 0) 1 [0, 0] = some (s', ds) ∧
    (s.countAccess 1 0).pageAccessCountsPerCore 1 0 * tinyConfig.latency 0 (currentChannel s' 1) <
      (s.countAccess 1 0).pageAccessCountsPerCore 1 0 *
        tinyConfig.latency 0 (currentChannel (s.countAccess 1 0) 1) := by
  obtain ⟨s, hs, hvisit, hmapped, hcore⟩ := Machine.exists_reachable (m := machine tinyConfig)
    (P := fun s => (visitEntry tinyConfig (fun _ => Equiv.refl _) (s.countAccess 1 0) 1 [0, 0]).any
        (fun r => r.1.migrations ≠ (s.countAccess 1 0).migrations) ∧
      (s.countAccess 1 0).globalPageTable.lookup 1 ≠ none ∧
      decidingCore (s.countAccess 1 0) (fun _ => Equiv.refl _) 1 = 0)
    touchedTwice (by decide +kernel)
  obtain ⟨⟨s', ds⟩, hv, hs'⟩ := (Option.any_eq_true _ _).mp hvisit
  have hpays := migration_pays_for_most_frequent_core isInt_initializeCoreChannelLatency hmapped hv
    (of_decide_eq_true hs')
  simp only [hcore] at hpays
  exact ⟨s, s', ds, hs, hv, (Nat.le_add_left _ _).trans_lt hpays.2.1⟩

end DynamicMigration

end MultiCoreMemory
