import MultiCoreMemory.Dram.DDR5VRR

/-!
# Hydra (`plugin/hydra.cpp`)

Activations are counted on three levels: a counter a row group (GCT) until the group threshold, then
a counter a row (RCT) that lives in the first rows of the bank, with a 16-way cache of it (RCC) for
each rank.

Statistics are left out.  Reads and writes of the RCT are sent as the source sends them; what they
return plays no part, the counters are kept in `rowCountTable`.
-/

namespace MultiCoreMemory

variable {C : Type}

inductive RccPolicy where
  | random
  | minCount
  deriving DecidableEq, Repr

structure HydraParams where
  trackingThreshold : ℕ
  groupThreshold : ℕ
  rowGroupSize : ℕ := 128
  rccNumPerRank : ℕ := 4096
  rccPolicy : RccPolicy := .random
  resetPeriodClk : ℤ
  vrrReqId : ℕ
  readReqId : ℕ := typeRead
  writeReqId : ℕ := typeWrite

namespace HydraParams

variable (cfg : DeviceConfig C) (p : HydraParams)

/-! ## Derived sizes -/

def rowAddressBits : ℕ := Nat.log2 cfg.numRowsPerBank

/-- `ceil(log2(m_tracking_threshold) / 8) * 8`, for thresholds from 2 on. -/
def counterBits : ℕ := (Nat.log2 (p.trackingThreshold - 1) / 8 + 1) * 8

def gctEntriesPerBank : ℕ := cfg.numRowsPerBank / p.rowGroupSize

def gctIndexBits : ℕ := Nat.log2 (gctEntriesPerBank cfg p)

def rccSetNum : ℕ := p.rccNumPerRank / 16

def rccIndexBits : ℕ := Nat.log2 p.rccSetNum

def rccTagRowBits : ℕ := rowAddressBits cfg - p.rccIndexBits

def totalRctClSize : ℕ := cfg.numRowsPerBank * p.counterBits / 512

def totalRctRowSize : ℕ := (totalRctClSize cfg p + cfg.numCls - 1) / cfg.numCls

def rctPerRow : ℕ := cfg.numCls * 512 / p.counterBits

def rctPerCl : ℕ := 512 / p.counterBits

def groupRctClSize : ℕ := p.rowGroupSize * p.counterBits / 512

/-! ## How a row is split -/

/-- The row group, from the most significant bits. -/
def gctIndex (row : ℕ) : ℕ := row >>> (rowAddressBits cfg - gctIndexBits cfg p)

/-- The cache set, from the least significant bits. -/
def rccIndex (row : ℕ) : ℕ := row &&& ((1 <<< p.rccIndexBits) - 1)

/-- The cache tag: the other bits of the row, and above them the bank, in a word of 32 bits. -/
def rccTag (bankId row : ℕ) : ℕ :=
  (row >>> (rowAddressBits cfg - rccTagRowBits cfg p)) |||
    ((bankId <<< rccTagRowBits cfg p) % 2 ^ 32)

/-- `generate_row_col_id`: where the counter of a row is kept. -/
def generateRowColId (row : ℤ) : ℤ × ℤ :=
  (row / rctPerRow cfg p, row % rctPerRow cfg p * p.counterBits / 512 * 8)

end HydraParams

open HydraParams

structure GctEntry where
  groupCount : ℕ := 0
  initialized : Bool := false
  deriving DecidableEq, Repr

structure Hydra where
  clk : ℤ := -1
  groupCountTable : List (UnorderedMap ℕ GctEntry)
  rowCountTable : List (UnorderedMap ℕ ℕ)
  rowCountCache : List (List (UnorderedMap ℤ ℕ))
  rctCountTable : List (UnorderedMap ℕ ℕ)

/-- What an update leaves open: the order of the entries of a cache set and the random number. -/
structure HydraChoice where
  order : List ℤ := []
  draw : ℕ := 0

namespace Hydra

variable (cfg : DeviceConfig C) (p : HydraParams) (addrVec : AddrVec) (s : Hydra)

def setup : Hydra where
  groupCountTable := List.replicate (cfg.numRanks * cfg.numBanksPerRank) ∅
  rowCountTable := List.replicate (cfg.numRanks * cfg.numBanksPerRank) ∅
  rowCountCache := List.replicate cfg.numRanks (List.replicate p.rccSetNum ∅)
  rctCountTable := List.replicate (cfg.numRanks * cfg.numBanksPerRank) ∅

def resets : Bool := (s.clk + 1) % p.resetPeriodClk == 0

def tick : Hydra :=
  if s.resets p then
    { clk := s.clk + 1
      groupCountTable := s.groupCountTable.map fun _ => ∅
      rowCountTable := s.rowCountTable.map fun _ => ∅
      rowCountCache := s.rowCountCache.map fun sets => sets.map fun _ => ∅
      rctCountTable := s.rctCountTable.map fun _ => ∅ }
  else { s with clk := s.clk + 1 }

def rccSet (rank : ℤ) (index : ℕ) : Option (UnorderedMap ℤ ℕ) :=
  (atBank s.rowCountCache rank).bind fun sets => sets[index]?

def setRccSet (cache : List (List (UnorderedMap ℤ ℕ))) (rank : ℤ) (index : ℕ) (set : UnorderedMap ℤ ℕ) :
    List (List (UnorderedMap ℤ ℕ)) :=
  match atBank cache rank with
  | some sets => setBank cache rank (sets.set index set)
  | none => cache

/-- A row that holds the RCT: its own counter, and whether it reached the threshold. -/
def countRctRow (threshold row : ℕ) (t : UnorderedMap ℕ ℕ) : UnorderedMap ℕ ℕ × Bool :=
  let count := (t.lookup row).getD 0 + 1
  if threshold ≤ count then (t.erase row, true) else (t.insert row count, false)

/-- The counters of a group start at the group threshold. -/
def initializeGroup (group : ℕ) (t : UnorderedMap ℕ ℕ) : UnorderedMap ℕ ℕ :=
  UnorderedMap.insertAll t
    ((List.range p.rowGroupSize).map fun i => group * p.rowGroupSize + i) p.groupThreshold

def initRequests (group : ℕ) : List (Request C) :=
  (List.range p.groupRctClSize).map fun i =>
    let rowCol := generateRowColId cfg p (group * p.rowGroupSize + i * p.rctPerCl : ℕ)
    { addrVec := (addrVec.set cfg.rowLevel rowCol.1).set cfg.colLevel rowCol.2
      typeId := p.writeReqId }

def toInt (tag : ℤ) : ℤ := if tag < 2 ^ 31 then tag else tag - 2 ^ 32

def minCountTag (set : UnorderedMap ℤ ℕ) (order : List ℤ) : ℤ :=
  (order.foldl (fun (acc : ℕ × ℤ) tag =>
    match set.lookup tag with
    | some count => if count < acc.1 then (count, tag) else acc
    | none => acc) (2 ^ 31 - 1, -1)).2

/-- `get_tag_to_evict`; the random number is one of 0 to 15. -/
def getTagToEvict (policy : RccPolicy) (c : HydraChoice) (set : UnorderedMap ℤ ℕ) : Option ℤ :=
  if c.order.Perm set.keys then
    match policy with
    | .random => if c.draw ≤ 15 then (c.order[c.draw]?).map toInt else none
    | .minCount => some (toInt (minCountTag set c.order))
  else none

def evictRequest (index : ℕ) (tag : ℤ) : Request C :=
  let evictedRowId := tag % 2 ^ rccTagRowBits cfg p * 2 ^ p.rccIndexBits + index
  let evictedBankId := tag / 2 ^ rccTagRowBits cfg p
  let rowCol := generateRowColId cfg p evictedRowId
  { addrVec := (((addrVec.set cfg.bankgroupLevel (evictedBankId.tdiv (cfg.count cfg.bankLevel))).set
      cfg.bankLevel (evictedBankId.tmod (cfg.count cfg.bankLevel))).set cfg.rowLevel rowCol.1).set
      cfg.colLevel rowCol.2
    typeId := p.writeReqId }

def readRequest : Request C :=
  let rowCol := generateRowColId cfg p (cfg.rowOf addrVec)
  { addrVec := (addrVec.set cfg.rowLevel rowCol.1).set cfg.colLevel rowCol.2
    typeId := p.readReqId }

/-- A full set makes room for an entry; with the write of the evicted counter. -/
def evict (index : ℕ) (c : HydraChoice) (set : UnorderedMap ℤ ℕ) :
    Option (UnorderedMap ℤ ℕ × List (Request C)) :=
  if set.keys.length = 16 then
    (getTagToEvict p.rccPolicy c set).map fun tag =>
      (set.erase tag, [evictRequest cfg p addrVec index tag])
  else some (set, [])

/-- The counter of a row in the cache set and in the table, one higher. -/
def accessRcc (row : ℕ) (tag : ℤ) (c : HydraChoice) (set : UnorderedMap ℤ ℕ) (t : UnorderedMap ℕ ℕ) :
    Option (UnorderedMap ℤ ℕ × UnorderedMap ℕ ℕ × List (Request C)) :=
  let t := t.insert row ((t.lookup row).getD 0 + 1)
  match set.lookup tag with
  | some count => some (set.insert tag (count + 1), t, [])
  | none => (evict cfg p addrVec (p.rccIndex row) c set).map fun (set, sent) =>
      (set.insert tag ((t.lookup row).getD 0), t, sent ++ [readRequest cfg p addrVec])

/-- The end of an access: a counter at the threshold goes back to 0 and the row is refreshed. -/
def checkRcc (row : ℕ) (tag : ℤ) (set : UnorderedMap ℤ ℕ) (t : UnorderedMap ℕ ℕ) :
    UnorderedMap ℤ ℕ × UnorderedMap ℕ ℕ × List (Request C) :=
  if p.trackingThreshold ≤ (set.lookup tag).getD 0 then
    (set.insert tag 0, t.insert row 0, [{ addrVec := addrVec, typeId := p.vrrReqId }])
  else (set, t, [])

def countRow (addrVec : AddrVec) (row : ℕ) (c : HydraChoice) :
    Option (Hydra × List (Request C)) := do
  let bank := cfg.flatBankId addrVec
  let rank := addrVec.level cfg.rankLevel
  let group := gctIndex cfg p row
  let tag : ℤ := rccTag cfg p (bank % cfg.numBanksPerRank).toNat row
  let gct ← atBank s.groupCountTable bank
  let entry := (gct.lookup group).getD {}
  if p.groupThreshold ≤ entry.groupCount then
    let t ← atBank s.rowCountTable bank
    let set ← s.rccSet rank (p.rccIndex row)
    let (t, initSent) :=
      if entry.initialized then (t, []) else (initializeGroup p group t, initRequests cfg p addrVec group)
    let (set, t, rccSent) ← accessRcc cfg p addrVec row tag c set t
    let (set, t, vrr) := checkRcc p addrVec row tag set t
    some ({ s with
        groupCountTable := setBank s.groupCountTable bank
          (gct.insert group { entry with initialized := true })
        rowCountTable := setBank s.rowCountTable bank t
        rowCountCache := setRccSet s.rowCountCache rank (p.rccIndex row) set },
      initSent ++ rccSent ++ vrr)
  else
    some ({ s with
        groupCountTable := setBank s.groupCountTable bank
          (gct.insert group { entry with groupCount := entry.groupCount + 1 }) }, [])

def activate (addrVec : AddrVec) (c : HydraChoice) : Option (Hydra × List (Request C)) :=
  let bank := cfg.flatBankId addrVec
  let row := (cfg.rowOf addrVec).toNat
  if row < totalRctRowSize cfg p then
    (atBank s.rctCountTable bank).map fun t =>
      match countRctRow p.trackingThreshold row t with
      | (t, exceeded) => ({ s with rctCountTable := setBank s.rctCountTable bank t },
          if exceeded then [{ addrVec := addrVec, typeId := p.vrrReqId }] else [])
  else countRow cfg p s addrVec row c

def update (found : Option (Request C)) (c : HydraChoice) : Option (Hydra × List (Request C)) :=
  match cfg.activation found with
  | none => some (s.tick p, [])
  | some req => (s.tick p).activate cfg p req.addrVec c

def plugin : ControllerPlugin C Hydra HydraChoice where
  init := setup cfg p
  update := update cfg p
  resets := resets p

end Hydra

end MultiCoreMemory
