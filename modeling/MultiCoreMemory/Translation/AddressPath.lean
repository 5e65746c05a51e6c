import MultiCoreMemory.AddrMapper.LinearBijection
import MultiCoreMemory.Translation.PageTable

/-!
# From virtual lines to places in the DRAM

An access goes through the page table of its policy and then through an address mapper. The table gives
each page a frame of its own, the mapper gives each transaction a place of its own, and the page offset
passes the table unchanged.
-/

namespace MultiCoreMemory

open List PlacementConfig

theorem mul_add_emod_inj {n : ℤ} (hn : 0 < n) {x y u v : ℤ} :
    x * n + u % n = y * n + v % n ↔ x = y ∧ u % n = v % n := by
  constructor
  · intro h
    have hlow := congrArg (· % n) h
    have hhigh := congrArg (· / n) h
    simp only [Int.mul_add_emod_self_right, Int.emod_emod] at hlow
    simp only [Int.mul_add_ediv_right _ _ hn.ne', Int.ediv_eq_zero_of_lt (Int.emod_nonneg _ hn.ne')
      (Int.emod_lt_of_pos _ hn), Int.add_zero] at hhigh
    exact ⟨hhigh, hlow⟩
  · rintro ⟨rfl, h⟩
    rw [h]

namespace PlacementConfig

variable {cfg : PlacementConfig} {k : ℕ} (hk : k ≤ cfg.offsetbits)
include hk

theorem two_pow_offsetbits : (2 : ℤ) ^ cfg.offsetbits = 2 ^ k * 2 ^ (cfg.offsetbits - k) := by
  rw [← pow_add, Nat.add_sub_cancel' hk]

theorem ediv_eq_iff_vpnOf (a b : ℤ) :
    a / 2 ^ k = b / 2 ^ k ↔ cfg.vpnOf a = cfg.vpnOf b ∧
      a / 2 ^ k % 2 ^ (cfg.offsetbits - k) = b / 2 ^ k % 2 ^ (cfg.offsetbits - k) := by
  have hline (x : ℤ) : x / 2 ^ k =
      cfg.vpnOf x * 2 ^ (cfg.offsetbits - k) + x / 2 ^ k % 2 ^ (cfg.offsetbits - k) := by
    rw [vpnOf, two_pow_offsetbits hk, ← Int.ediv_ediv_of_nonneg (by positivity), Int.ediv_mul_add_emod]
  rw [← mul_add_emod_inj (by positivity), ← hline, ← hline]

theorem physAddr_ediv (ppn : ℕ) (a : ℤ) :
    cfg.physAddr ppn a / 2 ^ k =
      ppn * 2 ^ (cfg.offsetbits - k) + a / 2 ^ k % 2 ^ (cfg.offsetbits - k) := by
  have hoff : a % 2 ^ cfg.offsetbits =
      a + 2 ^ k * (-(2 ^ (cfg.offsetbits - k) * (a / 2 ^ k / 2 ^ (cfg.offsetbits - k)))) := by
    rw [Int.emod_def, two_pow_offsetbits hk, ← Int.ediv_ediv_of_nonneg (by positivity)]
    ring
  rw [physAddr, hoff, two_pow_offsetbits hk, Int.emod_def,
    show (ppn : ℤ) * (2 ^ k * 2 ^ (cfg.offsetbits - k)) =
      2 ^ k * (ppn * 2 ^ (cfg.offsetbits - k)) by ring,
    Int.mul_add_ediv_left _ _ (by positivity), Int.add_mul_ediv_left _ _ (by positivity)]
  ring

end PlacementConfig

namespace LinearMapping

variable {C : Type} {m : LinearMapper}

theorem apply_eq_iff (impl : LinearMapping) (req : Request C) {pre : List ℕ} {row c : ℕ}
    (hm : m.addrBits = pre ++ [row, c + 2]) (hrow : row < 31) {x y : ℤ}
    (hx : 0 ≤ x ∧ x < 2 ^ (m.addrBits.sum + m.txOffset))
    (hy : 0 ≤ y ∧ y < 2 ^ (m.addrBits.sum + m.txOffset)) :
    (impl.apply m pre.length { req with addr := x }).addrVec =
        (impl.apply m pre.length { req with addr := y }).addrVec ↔
      x / 2 ^ m.txOffset = y / 2 ^ m.txOffset := by
  refine ⟨fun h => ?_, fun h => impl.apply_congr pre.length req h⟩
  have hstart (z : ℤ) :
      (impl.apply m pre.length { req with addr := z / 2 ^ m.txOffset * 2 ^ m.txOffset }).addrVec =
        (impl.apply m pre.length { req with addr := z }).addrVec :=
    impl.apply_congr pre.length req (Int.mul_ediv_cancel _ (by positivity))
  have hmem {z : ℤ} (hz : 0 ≤ z ∧ z < 2 ^ (m.addrBits.sum + m.txOffset)) :
      z / 2 ^ m.txOffset ∈ {tx : ℤ | 0 ≤ tx ∧ tx < 2 ^ (pre ++ [row, c + 2]).sum} := by
    refine ⟨Int.ediv_nonneg hz.1 (by positivity), Int.ediv_lt_of_lt_mul (by positivity) ?_⟩
    rw [← pow_add, ← hm]
    exact hz.2
  refine (impl.apply_bijOn req hm hrow).injOn (hmem hx) (hmem hy) ?_
  exact (hstart x).trans (h.trans (hstart y).symm)

end LinearMapping

namespace LocalToRequester

open DynamicMigration (tinyConfig touch)

/-- **Two accesses meet in the DRAM exactly if they are to one line of one virtual page**, in every run
of `Local_to_requester`, under each linear mapping of a DRAM that holds the address space. -/
theorem dram_place_eq_iff {C : Type} (impl : LinearMapping) (cfg : PlacementConfig)
    (hp : 1 ≤ cfg.pagesPerChannel) (pre : List ℕ) (row col prefetch width : ℕ)
    (hrow : row < 31) (hcol : prefetch + 2 ≤ col) (m : LinearMapper)
    (hm : m = LinearMapper.setup (pre.map (2 ^ ·) ++ [2 ^ row, 2 ^ col]) (2 ^ prefetch) width)
    (hpage : m.txOffset ≤ cfg.offsetbits)
    (hfits : cfg.maxPaddr ≤ 2 ^ (pre.sum + row + (col - prefetch) + m.txOffset)) {s : Placement}
    (h : (machine cfg).Reachable s) (req : Request C) {a b : ℤ} {p q : ℕ}
    (ha : s.globalPageTable.lookup (cfg.vpnOf a) = some p)
    (hb : s.globalPageTable.lookup (cfg.vpnOf b) = some q) :
    (impl.apply m pre.length { req with addr := cfg.physAddr p a }).addrVec =
        (impl.apply m pre.length { req with addr := cfg.physAddr q b }).addrVec ↔
      a / 2 ^ m.txOffset = b / 2 ^ m.txOffset := by
  obtain ⟨hT, hM⟩ := reachable_mirrored hp h
  obtain ⟨c, hc⟩ : ∃ c, col - prefetch = c + 2 := ⟨col - prefetch - 2, by omega⟩
  have hbits : m.addrBits = pre ++ [row, c + 2] := by
    rw [hm, ← hc]
    exact setup_addrBits pre row col prefetch width
  have hrange {v : ℤ} {ppn : ℕ} (hv : s.globalPageTable.lookup (cfg.vpnOf v) = some ppn) :
      0 ≤ cfg.physAddr ppn v ∧ cfg.physAddr ppn v < 2 ^ (m.addrBits.sum + m.txOffset) := by
    obtain ⟨ch, off, ho, hl, -⟩ := hT.placed.mapped (by rw [hv]; simp)
    obtain rfl : ppn = cfg.frame ch off := Option.some.inj (hv.symm.trans hl)
    refine ⟨physAddr_nonneg _ _ _, ?_⟩
    have hlt : cfg.physAddr (cfg.frame ch off) v < cfg.maxPaddr := physAddr_lt (frame_lt_numPages ho) v
    have hsum : m.addrBits.sum = pre.sum + row + (col - prefetch) := by
      rw [hbits, hc, sum_append, sum_cons, sum_singleton, Nat.add_assoc]
    rw [hsum]
    exact hlt.trans_le (by exact_mod_cast hfits)
  rw [impl.apply_eq_iff req hbits hrow (hrange ha) (hrange hb), physAddr_ediv hpage,
    physAddr_ediv hpage, mul_add_emod_inj (by positivity), ediv_eq_iff_vpnOf hpage]
  refine and_congr_left fun _ => ⟨fun hpq => ?_, fun hvpn => ?_⟩
  · rw [Nat.cast_inj.mp hpq] at ha
    exact hM.inj ha hb
  · rw [hvpn, hb] at ha
    rw [Option.some.inj ha]

/-- Pages 1 and 2 of two cores in a memory of eight frames, under `MOP4CLXOR` in a DRAM of 512 transactions:
the second lines of the two pages do not meet. -/
theorem dram_place_eq_iff_two_pages : ∃ s,
    (machine tinyConfig).Reachable s ∧ s.globalPageTable.lookup 1 = some 0 ∧
      s.globalPageTable.lookup 2 = some 1 ∧
      let place (addr : ℤ) : AddrVec := (LinearMapping.MOP4CLXOR.apply
        (LinearMapper.setup [1, 2, 16, 128] 8 64) 2 ({ addr, typeId := 0 } : Request Unit)).addrVec
      place (tinyConfig.physAddr 0 4160) ≠ place (tinyConfig.physAddr 1 8256) := by
  obtain ⟨s, hreach, hfirst, hsecond⟩ := Machine.exists_reachable
    (m := machine tinyConfig)
    (P := fun s => s.globalPageTable.lookup 1 = some 0 ∧ s.globalPageTable.lookup 2 = some 1)
    [touch 1 0 [], touch 2 1 []] (by decide +kernel)
  refine ⟨s, hreach, hfirst, hsecond, ?_⟩
  have hpages : tinyConfig.vpnOf 4160 = 1 ∧ tinyConfig.vpnOf 8256 = 2 := by decide +kernel
  refine (dram_place_eq_iff .MOP4CLXOR tinyConfig (by decide +kernel) [0, 1] 4 7 3 64 (by decide)
    (by decide) _ rfl (by decide +kernel) (by decide +kernel) hreach { typeId := 0 }
    (by rw [hpages.1, hfirst]) (by rw [hpages.2, hsecond])).not.mpr ?_
  decide +kernel

end LocalToRequester

end MultiCoreMemory
