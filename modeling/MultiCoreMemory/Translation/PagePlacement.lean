import Mathlib.Data.Rat.Floor
import Mathlib.Data.Fintype.Perm
import MultiCoreMemory.Base.Request
import MultiCoreMemory.Base.Utils
import MultiCoreMemory.Lib.Machine
import MultiCoreMemory.Lib.UnorderedMap

/-!
# Page placement over eight channel partitions

The part that `Dynamic_migration.cpp` and `Local_to_requester.cpp` share: physical frames are
divided into one partition a channel, a page touched for the first time gets a random free frame
of the channel nearest to the requesting core, and a full partition evicts a random frame first.

A call that uses up its list of random values before a loop exits has not returned (`none`).
Latencies and gains are the source's `double`s, here exact rationals.
-/

namespace MultiCoreMemory

structure PlacementConfig where
  maxPaddr : ℕ
  pagesizeKB : ℕ := 4
  hotPageThreshold : ℕ
  stabilityWindow : ℕ
  cooldownWindows : ℤ := 2
  bandwidth : ℚ := 153
  latency : LatencyMatrix

namespace PlacementConfig

variable (cfg : PlacementConfig)

def pagesize : ℕ := cfg.pagesizeKB * 2 ^ 10

def offsetbits : ℕ := calcLog2 cfg.pagesize

def numPages : ℕ := cfg.maxPaddr / cfg.pagesize

def pagesPerChannel : ℕ := cfg.numPages / 8

def calculateMigrationCost (pageSize : ℕ) (memoryBandwidth : ℚ) : ℚ :=
  let pageSizeInBytes : ℚ := pageSize * 1024
  let bandwidthInBytesPerSecond := memoryBandwidth * 1024 * 1024 * 1024
  pageSizeInBytes / bandwidthInBytesPerSecond * 1000000

/-- `m_cost`: the cost stored in a `size_t`, hence truncated. -/
def cost : ℕ := ⌊calculateMigrationCost cfg.pagesize cfg.bandwidth⌋₊

def vpnOf (addr : ℤ) : ℤ := addr / 2 ^ cfg.offsetbits

def frame (ch : Fin numChannels) (off : ℕ) : ℕ := off + ch * cfg.pagesPerChannel

/-- `(ppn << m_offsetbits) | (addr & mask)`; the two operands have no bit in common. -/
def physAddr (ppn : ℕ) (addr : ℤ) : ℤ := ppn * 2 ^ cfg.offsetbits + addr % 2 ^ cfg.offsetbits

end PlacementConfig

structure Placement where
  migrationCounter : ℕ := 0
  windowCounter : ℤ := 0
  freePhysicalPages2d : Fin numChannels → ℕ → Bool
  numFreePhysicalPagesPerPart : Fin numChannels → ℕ
  globalPageTable : UnorderedMap ℤ ℕ := ∅
  reversePageTable : UnorderedMap ℕ ℤ := ∅
  pageToChannelMapping : UnorderedMap ℤ (Fin numChannels) := ∅
  pageAccessCountsPerCore : ℤ → Fin 8 → ℕ := fun _ _ => 0
  lastMigrationWindow : UnorderedMap ℤ ℤ := ∅
  migrations : ℕ := 0

def Placement.initial (cfg : PlacementConfig) : Placement where
  freePhysicalPages2d := fun _ _ => true
  numFreePhysicalPagesPerPart := fun _ => cfg.pagesPerChannel

def sizeMax : ℕ := 2 ^ 64 - 1

def findBestChannel (latency : LatencyMatrix) (core : Fin 8) : Fin numChannels :=
  ((List.finRange numChannels).foldl (fun (best : Fin numChannels × ℕ) channel =>
    if latency core channel < best.2 then (channel, latency core channel) else best)
    (0, sizeMax)).1

/-- A row index of the latency matrix (`source_id` is in `0 … 7` wherever it is used as one). -/
def coreOf (sourceId : ℤ) : Fin 8 := Fin.ofNat 8 sourceId.toNat

namespace Placement

variable (cfg : PlacementConfig)

variable (s : Placement) (ch : Fin numChannels) (vpn : ℤ)

def markFrame (off : ℕ) (free : Bool) : Fin numChannels → ℕ → Bool :=
  Function.update s.freePhysicalPages2d ch (Function.update (s.freePhysicalPages2d ch) off free)

def takeFrame (off : ℕ) : Placement :=
  { s with
    freePhysicalPages2d := s.markFrame ch off false
    numFreePhysicalPagesPerPart :=
      Function.update s.numFreePhysicalPagesPerPart ch (s.numFreePhysicalPagesPerPart ch - 1) }

/-- The random search loop of `translate` and of `find_random_free_page`. -/
def searchFreePage (s : Placement) (ch : Fin numChannels) : List ℕ → Option (ℕ × Placement × List ℕ)
  | [] => none
  | d :: ds =>
    let ppn := cfg.frame ch (d % cfg.pagesPerChannel)
    if s.freePhysicalPages2d ch (ppn % cfg.pagesPerChannel) then
      some (ppn, s.takeFrame ch (ppn % cfg.pagesPerChannel), ds)
    else searchFreePage s ch ds

/-- The body of `evict_and_replace_page` up to its last line.  Reading `reverse_page_table` with
    `[]` gives virtual page 0 for a frame that has no entry. -/
def evictFrame (d : ℕ) : Placement :=
  let victimPpn := cfg.frame ch (d % cfg.pagesPerChannel)
  let victim := s.reversePageTable.subscript victimPpn 0
  { s with
    globalPageTable := s.globalPageTable.erase victim.1
    reversePageTable := victim.2.erase victimPpn
    pageToChannelMapping := s.pageToChannelMapping.erase victim.1
    freePhysicalPages2d := s.markFrame ch (victimPpn % cfg.pagesPerChannel) true
    numFreePhysicalPagesPerPart :=
      Function.update s.numFreePhysicalPagesPerPart ch (s.numFreePhysicalPagesPerPart ch + 1) }

/-- `evict_and_replace_page`.  Its recursive call finds the partition non-empty. -/
def evictAndReplacePage :
    List ℕ → Option (ℕ × Placement × List ℕ)
  | [] => none
  | d :: ds => searchFreePage cfg (s.evictFrame cfg ch d) ch ds

/-- The search and the eviction call each other. -/
def findRandomFreePage (draws : List ℕ) : Option (ℕ × Placement × List ℕ) :=
  if s.numFreePhysicalPagesPerPart ch = 0 then evictAndReplacePage cfg s ch draws
  else searchFreePage cfg s ch draws

/-- The mutual recursion of the source, which the definition above has unrolled once. -/
theorem evictAndReplacePage_eq (d : ℕ) (ds : List ℕ) :
    evictAndReplacePage cfg s ch (d :: ds) =
      findRandomFreePage cfg (s.evictFrame cfg ch d) ch ds := by
  simp [evictAndReplacePage, findRandomFreePage, evictFrame]

def isHotPage : Bool :=
  cfg.hotPageThreshold ≤ ((List.finRange 8).map (s.pageAccessCountsPerCore vpn)).sum

/-- `find_most_frequent_core`, the inner map being iterated in the order `order`. -/
def findMostFrequentCore (order : Equiv.Perm (Fin 8)) (vpn : ℤ) : Fin 8 :=
  (((List.finRange 8).map order).foldl (fun (best : Fin 8 × ℕ) core =>
    if best.2 < s.pageAccessCountsPerCore vpn core then (core, s.pageAccessCountsPerCore vpn core)
    else best) (0, 0)).1

/-- `std::min_element` over the row of a core: the first channel of least latency. -/
def minElementChannel (latency : LatencyMatrix) (core : Fin 8) : Fin numChannels :=
  (List.finRange numChannels).foldl (fun best channel =>
    if latency core channel < latency core best then channel else best) 0

def futureAccessFactor : ℕ := 1

/-- `estimate_latency_gain`, the current channel having been read from the mapping. -/
def estimateLatencyGain (pageId : ℤ) (currentCore : Fin 8) (currentChannel : Fin numChannels) : ℚ :=
  let bestChannel := minElementChannel cfg.latency currentCore
  let predictedAccesses := s.pageAccessCountsPerCore pageId currentCore * futureAccessFactor
  ((cfg.latency currentCore currentChannel : ℚ) - cfg.latency currentCore bestChannel) * 2 *
    predictedAccesses

def countAccess (core : Fin 8) : Placement :=
  { s with
    pageAccessCountsPerCore := Function.update s.pageAccessCountsPerCore vpn
      (Function.update (s.pageAccessCountsPerCore vpn) core (s.pageAccessCountsPerCore vpn core + 1))
    migrationCounter := s.migrationCounter + 1 }

/-- First-touch allocation: take or evict a frame of the channel and enter it in the tables. -/
def assignPage (ch : Fin numChannels) (draws : List ℕ) : Option (ℕ × Placement) :=
  match (if 0 < s.numFreePhysicalPagesPerPart ch then searchFreePage cfg s ch draws
    else evictAndReplacePage cfg s ch draws) with
  | none => none
  | some (ppn, s, _) =>
    some (ppn, { s with
      globalPageTable := s.globalPageTable.insert vpn ppn
      reversePageTable := s.reversePageTable.insert ppn vpn
      pageToChannelMapping := s.pageToChannelMapping.insert vpn ch })

/-- The two allocation sites of the source make the same choice. -/
theorem assignPage_eq (ch : Fin numChannels) (draws : List ℕ) :
    assignPage cfg s vpn ch draws =
      (findRandomFreePage cfg s ch draws).map fun r => (r.1, { r.2.1 with
        globalPageTable := r.2.1.globalPageTable.insert vpn r.1
        reversePageTable := r.2.1.reversePageTable.insert r.1 vpn
        pageToChannelMapping := r.2.1.pageToChannelMapping.insert vpn ch }) := by
  unfold assignPage findRandomFreePage
  by_cases h : s.numFreePhysicalPagesPerPart ch = 0
  · simp only [h, Nat.lt_irrefl, if_true, if_false]
    cases evictAndReplacePage cfg s ch draws <;> rfl
  · simp only [Nat.pos_of_ne_zero h, h, if_true, if_false]
    cases searchFreePage cfg s ch draws <;> rfl

/-- The rest of `translate`, the window dealt with: the frame of the page, old or new. -/
def resolvePage (core : Fin 8) (draws : List ℕ) : Option (ℕ × Placement) :=
  match s.globalPageTable.lookup vpn with
  | some ppn => some (ppn, s)
  | none => assignPage cfg s vpn (findBestChannel cfg.latency core) draws

end Placement

/-- What the environment decides in one call: the values of the random generator, and the orders in
which the two hash maps are iterated. -/
structure TranslateOracle where
  draws : List ℕ
  order : List ℤ
  cores : ℤ → Equiv.Perm (Fin 8) := fun _ => Equiv.refl _

def Request.translated {C : Type} (req : Request C) (cfg : PlacementConfig) (ppn : ℕ) : Request C :=
  { req with
    vAddr := req.addr
    vpage := cfg.vpnOf req.addr
    addr := cfg.physAddr ppn req.addr }

structure TranslateCall where
  addr : ℤ
  sourceId : Fin 8
  oracle : TranslateOracle

def TranslateCall.req (c : TranslateCall) : Request Unit :=
  { addr := c.addr, typeId := typeRead, sourceId := (c.sourceId : ℕ) }

end MultiCoreMemory
