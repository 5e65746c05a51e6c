import MultiCoreMemory.AddrMapper.LinearMapper
import MultiCoreMemory.Translation.TableInvariants

/-!
# The channel chosen for a page and the channel its address is sent to

With the shipped configuration the policies divide `⌊(2 ^ 37 - 1) / 4096⌋ = 2 ^ 25 - 1` frames by
8, so partition `ch` starts at frame `ch * (2 ^ 22 - 1)`, while `ChRaBaRoCo` takes the channel
from bits 34 … 36 of the address, so channel `ch` starts at frame `ch * 2 ^ 22`.
-/

namespace MultiCoreMemory

open ChRaBaRoCo

/-- The shipped address space: `max_addr: 137438953471` and 4 KB pages. -/
def PlacementConfig.shipped (base : PlacementConfig) : PlacementConfig :=
  { base with maxPaddr := 137438953471, pagesizeKB := 4 }

/-- `DDR4_8Gb_x8` with `channel: 8` and `rank: 2`: levels channel, rank, bank group, bank, row,
    column; 8n prefetch and a 64-bit channel. -/
def shippedMapper : LinearMapper := LinearMapper.setup [8, 2, 4, 4, 2 ^ 16, 2 ^ 10] 8 64

theorem shippedMapper_eq : shippedMapper = { addrBits := [3, 1, 2, 2, 16, 7], txOffset := 6 } := by
  decide +kernel

variable (base : PlacementConfig)

theorem shipped_offsetbits : base.shipped.offsetbits = 12 := by
  show calcLog2 (4 * 2 ^ 10) = 12
  rw [show 4 * 2 ^ 10 = 2 ^ 12 by norm_num, calcLog2_two_pow]

theorem shipped_pagesPerChannel : base.shipped.pagesPerChannel = 4194303 := by
  show 137438953471 / (4 * 2 ^ 10) / 8 = 4194303
  norm_num

theorem mapped_channel {C : Type} (req : Request C) (ppn : ℕ) :
    (apply shippedMapper (req.translated base.shipped ppn)).addrVec.level 0 =
      (ppn / 2 ^ 22 : ℕ) % 8 := by
  simp only [apply, shippedMapper_eq, sliceAll_level_zero, Request.translated,
    PlacementConfig.physAddr, shipped_offsetbits]
  have h0 : 0 ≤ req.addr % 2 ^ 12 := Int.emod_nonneg _ (by norm_num)
  have h1 : req.addr % 2 ^ 12 < 2 ^ 12 := Int.emod_lt_of_pos _ (by norm_num)
  norm_num at h0 h1 ⊢
  omega

theorem frame_channel (ch : Fin numChannels) {off : ℕ} (ho : off < 4194303) :
    (base.shipped.frame ch off / 2 ^ 22) % 8 = ch.val ↔ ch.val ≤ off := by
  rw [PlacementConfig.frame, shipped_pagesPerChannel, show 2 ^ 22 = 4194304 by norm_num]
  have hch : ch.val < 8 := ch.isLt
  by_cases hle : ch.val ≤ off
  · have hq : (off + ch.val * 4194303) / 4194304 = ch.val := by omega
    rw [hq]
    omega
  · have hq : (off + ch.val * 4194303) / 4194304 = ch.val - 1 := by omega
    rw [hq]
    omega

/-- **The mapper sends a page to the channel `ch` of its partition**, with the shipped configuration,
exactly when the page's offset in that partition is at least `ch`. -/
theorem channel_agrees_iff_offset (policy : Policy) {s s' : Placement}
    (h : (policy.machine base.shipped).Reachable s) {C : Type} {o : TranslateOracle}
    {req req' : Request C} (ht : policy.translate base.shipped o s req = some (req', s')) :
    ∃ ch off, s'.pageToChannelMapping.lookup (base.shipped.vpnOf req.addr) = some ch ∧
      off < base.shipped.pagesPerChannel ∧
      s'.globalPageTable.lookup (base.shipped.vpnOf req.addr) = some (base.shipped.frame ch off) ∧
      ((apply shippedMapper req').addrVec.level 0 = ch.val ↔ ch.val ≤ off) := by
  have hp : 1 ≤ base.shipped.pagesPerChannel := by rw [shipped_pagesPerChannel]; omega
  obtain ⟨hT, ppn, hl, rfl⟩ := policy.translate_spec hp h ht
  obtain ⟨ch, off, ho, hl', hm⟩ := hT.placed.mapped (by rw [hl]; simp)
  rw [hl] at hl'
  obtain rfl : ppn = base.shipped.frame ch off := Option.some.inj hl'
  refine ⟨ch, off, hm, ho, hl, ?_⟩
  rw [shipped_pagesPerChannel] at ho
  rw [mapped_channel, ← frame_channel base ch ho]
  exact_mod_cast Iff.rfl

/-- The translation part of `example_config.yaml`. -/
def exampleConfig : PlacementConfig where
  maxPaddr := 137438953471
  hotPageThreshold := 10000
  stabilityWindow := 1000000
  cooldownWindows := 10
  latency := initializeCoreChannelLatency

def loadPageOne (core : Fin 8) (draw : ℕ) : TranslateCall where
  addr := 4096
  sourceId := core
  oracle := { draws := [draw], order := [] }

def channelsOfPageOne (policy : Policy) (c : TranslateCall) : Option (Option (Fin numChannels) × ℤ) :=
  (policy.translate exampleConfig.shipped c.oracle (Placement.initial exampleConfig.shipped) c.req).map
    fun r => (r.2.pageToChannelMapping.lookup 1,
      (apply shippedMapper r.1).addrVec.level 0)

/-- Core 1 gets the first frame of partition 1, which the mapper sends to channel 0. -/
theorem first_frame_of_channel_one_is_sent_to_channel_zero :
    channelsOfPageOne .dynamicMigration (loadPageOne 1 0) = some (some 1, 0) ∧
    channelsOfPageOne .localToRequester (loadPageOne 1 0) = some (some 1, 0) := by
  constructor <;> decide +kernel

/-- With the second frame of partition 1 the two agree. -/
theorem second_frame_of_channel_one_agrees :
    channelsOfPageOne .dynamicMigration (loadPageOne 1 1) = some (some 1, 1) ∧
    ∃ req' s', Policy.translate exampleConfig.shipped (loadPageOne 1 1).oracle
        (Placement.initial exampleConfig.shipped) (loadPageOne 1 1).req .dynamicMigration =
          some (req', s') ∧
      ∃ ch off, s'.pageToChannelMapping.lookup 1 = some ch ∧
        off < exampleConfig.shipped.pagesPerChannel ∧
        s'.globalPageTable.lookup 1 = some (exampleConfig.shipped.frame ch off) ∧
        ((apply shippedMapper req').addrVec.level 0 = ch.val ↔ ch.val ≤ off) := by
  have hrun : channelsOfPageOne .dynamicMigration (loadPageOne 1 1) = some (some 1, 1) := by
    decide +kernel
  refine ⟨hrun, ?_⟩
  obtain ⟨⟨req', s'⟩, ht, _⟩ := Option.map_eq_some_iff.mp hrun
  have hvpn : exampleConfig.shipped.vpnOf (loadPageOne 1 1).req.addr = 1 := by decide +kernel
  have hagree := channel_agrees_iff_offset exampleConfig .dynamicMigration .start ht
  rw [hvpn] at hagree
  exact ⟨req', s', ht, hagree⟩

end MultiCoreMemory
