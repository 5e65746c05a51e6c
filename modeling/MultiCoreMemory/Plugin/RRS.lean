import MultiCoreMemory.AddrMapper.RowIndirection
import MultiCoreMemory.Dram.DDR5VRR
import MultiCoreMemory.Lib.Exits
import MultiCoreMemory.Lib.SpillTable

/-!
# Randomized row-swap (`plugin/rrs.cpp`)

A hot row is swapped with a random row of its bank; the row indirection table of the address mapper
remembers the pair, locked until the end of the epoch.

`log` is not in the source: it lists the calls of `issue_swap`, oldest first.
-/

namespace MultiCoreMemory

open Option Exits

variable {C : Type}

structure RRSParams where
  numHrtEntries : ℕ
  numRitEntries : ℕ
  rssThreshold : ℕ
  resetPeriodClk : ℤ
  readReqId : ℕ := typeRead
  writeReqId : ℕ := typeWrite

structure RowSwap where
  bank : ℤ
  srcRow : ℤ
  dstRow : ℤ
  deriving DecidableEq, Repr

/-- How a swap ends the simulation. -/
inductive RRSExit where
  /-- "RIT is full! Check before insertion." -/
  | ritFull
  /-- "No unlocked entry found in the RIT!" -/
  | noUnlockedEntry
  /-- the random numbers given to the model are used up -/
  | noDraw
  deriving DecidableEq, Repr

structure RRS where
  clk : ℤ := 0
  hotRowTracker : List (SpillTable ℤ)
  addrMapper : RitMapper
  log : List RowSwap := []

/-- What an update leaves open: the orders of the two hash maps, the random numbers and the answers of
`priority_send`. -/
structure RRSChoice where
  hotOrder : List ℤ := []
  ritOrder : List ℤ := []
  draws : List ℤ := []
  accepted : Bool := true

namespace RRS

def setup (cfg : DeviceConfig C) (p : RRSParams) : RRS where
  hotRowTracker := List.replicate (cfg.numRanks * cfg.numBanksPerRank) {}
  addrMapper := initRit (cfg.numRanks * cfg.numBanksPerRank) p.numRitEntries

/-- `get_rand_row`: draws until one is neither hot, nor in the table, nor the row itself.  The
distribution includes the number of rows. -/
def getRandRow (numRows : ℕ) (hot : UnorderedMap ℤ ℕ) (t : Rit) (row : ℤ) :
    List ℤ → Option (ℤ × List ℤ)
  | [] => none
  | randRow :: draws =>
    if 0 ≤ randRow ∧ randRow ≤ numRows then
      if (hot.lookup randRow).isNone ∧ t.checkRit randRow = -1 ∧ randRow ≠ row then
        some (randRow, draws)
      else getRandRow numRows hot t row draws
    else none

variable (p : RRSParams)

def makeRoom (hot : UnorderedMap ℤ ℕ) (c : RRSChoice) (t : Rit) : Option (Rit × List (ℤ × ℤ)) :=
  if t.isRitFull p.numRitEntries then
    match t.getUnswapPair c.ritOrder hot with
    | none => none
    | some (a, b) => some (t.ritRemoveEntry a b, [(a, b)])
  else some (t, [])

variable (numRows : ℕ) (hot : UnorderedMap ℤ ℕ) (row : ℤ) (c : RRSChoice) (t : Rit)

/-- A row that is not in the table: if the table is full, another pair makes room. -/
def swapNew : Except RRSExit (Rit × List (ℤ × ℤ)) := do
  let (t, unswaps) ← orExit .noUnlockedEntry (makeRoom p hot c t)
  let (dstRow, _) ← orExit .noDraw (getRandRow numRows hot t row c.draws)
  let t ← orExit .ritFull (t.ritInsertEntry p.numRitEntries row dstRow)
  return (t, unswaps ++ [(row, dstRow)])

/-- A pair of an earlier epoch is unswapped, then the row is swapped again. -/
def unswapSwap (prevSwappedRow : ℤ) : Except RRSExit (Rit × List (ℤ × ℤ)) := do
  let (dstRow, _) ← orExit .noDraw (getRandRow numRows hot t row c.draws)
  let t := t.ritRemoveEntry row prevSwappedRow
  let t ← orExit .ritFull (t.ritInsertEntry p.numRitEntries row dstRow)
  return (t, [(row, prevSwappedRow), (row, dstRow)])

/-- A pair that is locked in the current epoch: both rows are swapped, each with a row of its own. -/
def reswapLocked (prevSwappedRow : ℤ) : Except RRSExit (Rit × List (ℤ × ℤ)) := do
  let (t, unswaps) ← orExit .noUnlockedEntry (makeRoom p hot c t)
  let (dstRow0, draws) ← orExit .noDraw (getRandRow numRows hot t row c.draws)
  let (dstRow1, _) ← orExit .noDraw (getRandRow numRows hot t row draws)
  let t := t.ritRemoveEntry row prevSwappedRow
  let t ← orExit .ritFull (t.ritInsertEntry p.numRitEntries row dstRow1)
  let t ← orExit .ritFull (t.ritInsertEntry p.numRitEntries prevSwappedRow dstRow0)
  return (t, unswaps ++ [(row, dstRow0), (prevSwappedRow, dstRow1)])

/-- A row whose counter reached a multiple of the threshold: the table of its bank after it, and the
swaps in the order in which they are issued. -/
def swapRow : Except RRSExit (Rit × List (ℤ × ℤ)) :=
  let prevSwappedRow := t.checkRit row
  if prevSwappedRow ≠ -1 then
    if t.isRitLocked row then reswapLocked p numRows hot row c t prevSwappedRow
    else unswapSwap p numRows hot row c t prevSwappedRow
  else swapNew p numRows hot row c t

/-- `issue_swap`: both rows are read, then each is written to the other's place. -/
def issueSwap (cfg : DeviceConfig C) (p : RRSParams) (addrVec : AddrVec) (swap : ℤ × ℤ) :
    List (Request C) :=
  cfg.rowRequests addrVec swap.1 p.readReqId ++ cfg.rowRequests addrVec swap.2 p.readReqId ++
    cfg.rowRequests addrVec swap.2 p.writeReqId ++ cfg.rowRequests addrVec swap.1 p.writeReqId

def resets (s : RRS) : Bool := (s.clk + 1) % p.resetPeriodClk == 0

/-- The head of `update`: at the end of an epoch the counters are cleared and the pairs unlocked. -/
def tick (s : RRS) : RRS :=
  if s.resets p then
    { s with
      clk := s.clk + 1
      hotRowTracker := s.hotRowTracker.map fun _ => {}
      addrMapper :=
        { s.addrMapper with
          rowIndirectionTable := s.addrMapper.rowIndirectionTable.map Rit.ritUnlock } }
  else { s with clk := s.clk + 1 }

def activate (cfg : DeviceConfig C) (p : RRSParams) (s : RRS) (req : Request C) (c : RRSChoice) :
    Option (RRS × List (Request C)) := do
  let bank := cfg.flatBankId req.addrVec
  let row := cfg.rowOf req.addrVec
  let b ← atBank s.hotRowTracker bank
  let t ← atBank s.addrMapper.rowIndirectionTable bank
  let (b, counted) ← b.track p.numHrtEntries c.hotOrder row
  let s := { s with hotRowTracker := setBank s.hotRowTracker bank b }
  match counted with
  | none => some (s, [])
  | some count =>
    if p.rssThreshold = 0 then none
    else if count % p.rssThreshold = 0 then do
      let (t, swaps) ← (swapRow p cfg.numRowsPerBank b.table row c t).toOption
      if c.accepted then
        some ({ s with
            addrMapper :=
              { s.addrMapper with
                rowIndirectionTable := setBank s.addrMapper.rowIndirectionTable bank t }
            log := s.log ++ swaps.map fun m => ⟨bank, m.1, m.2⟩ },
          swaps.flatMap (issueSwap cfg p req.addrVec))
      else none
    else some (s, [])

def update (cfg : DeviceConfig C) (p : RRSParams) (s : RRS) (found : Option (Request C))
    (c : RRSChoice) : Option (RRS × List (Request C)) :=
  match cfg.activation found with
  | none => some (s.tick p, [])
  | some req => (s.tick p).activate cfg p req c

def plugin (cfg : DeviceConfig C) (p : RRSParams) : ControllerPlugin C RRS RRSChoice where
  init := setup cfg p
  update := update cfg p
  resets := resets p

/-! ## Where the data is -/

def applySwaps (π : Equiv.Perm ℤ) (swaps : List (ℤ × ℤ)) : Equiv.Perm ℤ :=
  swaps.foldl (fun π m => Equiv.swap m.1 m.2 * π) π

def swapsOf (log : List RowSwap) (bank : ℤ) : List (ℤ × ℤ) :=
  (log.filter fun m => m.bank = bank).map fun m => (m.srcRow, m.dstRow)

/-- Where the swaps of a bank have put the data of each row. -/
def location (log : List RowSwap) (bank : ℤ) : Equiv.Perm ℤ := applySwaps 1 (swapsOf log bank)

theorem applySwaps_append (π : Equiv.Perm ℤ) (l l' : List (ℤ × ℤ)) :
    applySwaps π (l ++ l') = applySwaps (applySwaps π l) l' :=
  List.foldl_append

theorem swapsOf_append (log : List RowSwap) (bank bank' : ℤ) (swaps : List (ℤ × ℤ)) :
    swapsOf (log ++ swaps.map fun m => ⟨bank', m.1, m.2⟩) bank =
      swapsOf log bank ++ if bank = bank' then swaps else [] := by
  unfold swapsOf
  rw [List.filter_append, List.map_append]
  by_cases h : bank = bank'
  · simp [List.filter_map, Function.comp_def, h]
  · simp [List.filter_map, Function.comp_def, h, Ne.symm h]

variable {cfg : DeviceConfig C} {p : RRSParams} {s s' : RRS} {numRows : ℕ} {hot : UnorderedMap ℤ ℕ}
  {row : ℤ} {c : RRSChoice} {t t' : Rit} {π : Equiv.Perm ℤ} {swaps : List (ℤ × ℤ)}

theorem getRandRow_eq_some {draws rest : List ℤ} {dstRow : ℤ}
    (h : getRandRow numRows hot t row draws = some (dstRow, rest)) :
    0 ≤ dstRow ∧ dstRow ≤ numRows ∧ hot.lookup dstRow = none ∧ t.checkRit dstRow = -1 ∧ dstRow ≠ row := by
  induction draws with
  | nil => cases h
  | cons randRow draws ih =>
    unfold getRandRow at h
    split at h
    · rename_i hrange
      split at h
      · rename_i hfree
        cases h
        exact ⟨hrange.1, hrange.2, isNone_iff_eq_none.mp hfree.1, hfree.2⟩
      · exact ih h
    · cases h

section

variable (ht : t.Located π)
include ht

theorem getRandRow_lookup {draws rest : List ℤ} {dstRow : ℤ}
    (h : getRandRow numRows hot t row draws = some (dstRow, rest)) :
    0 ≤ dstRow ∧ t.lookup dstRow = none ∧ dstRow ≠ row := by
  obtain ⟨hnonneg, -, -, hfree, hne⟩ := getRandRow_eq_some h
  exact ⟨hnonneg, ht.checkRit_eq_neg_one_iff.mp hfree, hne⟩

theorem makeRoom_located (h : makeRoom p hot c t = some (t', swaps)) :
    t'.Located (applySwaps π swaps) ∧ ∀ row, t.lookup row = none → t'.lookup row = none := by
  unfold makeRoom at h
  split at h
  · split at h
    · cases h
    · rename_i a b hpair
      cases h
      obtain ⟨e, he, rfl⟩ := Rit.getUnswapPair_eq_some hpair
      refine ⟨ht.remove he, ?_⟩
      intro row hrow
      rw [Rit.ritRemoveEntry, UnorderedMap.lookup_erase_pair, hrow, ite_self]
  · cases h
    exact ⟨ht, fun _ hrow => hrow⟩

theorem swapNew_located (hnonneg : 0 ≤ row) (hrow : t.lookup row = none)
    (h : swapNew p numRows hot row c t = .ok (t', swaps)) : t'.Located (applySwaps π swaps) := by
  simp only [swapNew, bind_eq_ok_iff, orExit_eq_ok_iff, Prod.exists] at h
  obtain ⟨t₁, unswaps, hroom, dstRow, rest, hdraw, t₂, hins, heq⟩ := h
  cases heq
  obtain ⟨ht₁, hkeep⟩ := makeRoom_located ht hroom
  obtain ⟨hdst, hfree, hne⟩ := getRandRow_lookup ht₁ hdraw
  rw [applySwaps_append]
  exact ht₁.insert (Ne.symm hne) (hkeep row hrow) hfree hnonneg hdst hins

theorem unswapSwap_located {e : RitEntry} (hrow : t.lookup row = some e)
    (h : unswapSwap p numRows hot row c t e.dstRow = .ok (t', swaps)) :
    t'.Located (applySwaps π swaps) := by
  simp only [unswapSwap, bind_eq_ok_iff, orExit_eq_ok_iff, Prod.exists] at h
  obtain ⟨dstRow, rest, hdraw, t₂, hins, heq⟩ := h
  cases heq
  obtain ⟨hdst, hfree, hne⟩ := getRandRow_lookup ht hdraw
  refine (ht.remove hrow).insert (Ne.symm hne) ?_ ?_ (ht.nonneg hrow) hdst hins
  · rw [Rit.ritRemoveEntry, UnorderedMap.lookup_erase_pair, if_pos (.inl rfl)]
  · rw [Rit.ritRemoveEntry, UnorderedMap.lookup_erase_pair, hfree, ite_self]

/-- **The branch for a locked pair never matches its own swaps**: the data of `dstRow0` comes to the
hammered row. -/
theorem reswapLocked_misplaces {e : RitEntry} (hrow : t.lookup row = some e)
    (h : reswapLocked p numRows hot row c t e.dstRow = .ok (t', swaps)) :
    ∃ row', t'.indirectRow row' ≠ applySwaps π swaps row' := by
  simp only [reswapLocked, bind_eq_ok_iff, orExit_eq_ok_iff, Prod.exists] at h
  obtain ⟨t₁, unswaps, hroom, dstRow0, draws, hdraw0, dstRow1, rest, hdraw1, t₂, hins1, t₃, hins0,
    heq⟩ := h
  cases heq
  obtain ⟨ht₁, -⟩ := makeRoom_located ht hroom
  obtain ⟨-, hfree0, hne0⟩ := getRandRow_lookup ht₁ hdraw0
  obtain ⟨-, -, hne1⟩ := getRandRow_lookup ht₁ hdraw1
  have happart : e.dstRow ≠ row := ht.paired.apart hrow
  obtain ⟨w, hw, -⟩ := ht.paired.back hrow
  have hpos := ht.nonneg hw
  -- the last insertion leaves the old partner as the place of `dstRow0`
  have hlookup : t'.lookup dstRow0 = some ⟨e.dstRow, true⟩ := by
    unfold Rit.ritInsertEntry at hins0
    dsimp only at hins0
    split at hins0
    · cases hins0
    · cases hins0
      exact AList.lookup_insert _
  have htable : t'.indirectRow dstRow0 = e.dstRow := by
    have hcheck : t'.checkRit dstRow0 = e.dstRow := by rw [Rit.checkRit, hlookup]
    rw [Rit.indirectRow, hcheck, if_pos (by omega)]
  have hdata : applySwaps π (unswaps ++ [(row, dstRow0), (e.dstRow, dstRow1)]) dstRow0 = row := by
    rw [applySwaps_append]
    show Equiv.swap e.dstRow dstRow1 (Equiv.swap row dstRow0 (applySwaps π unswaps dstRow0)) = row
    rw [ht₁.apply_of_lookup_none hfree0, Equiv.swap_apply_right,
      Equiv.swap_apply_of_ne_of_ne (Ne.symm happart) (Ne.symm hne1)]
  refine ⟨dstRow0, ?_⟩
  rw [htable, hdata]
  exact happart

theorem swapRow_located (hnonneg : 0 ≤ row) (hlock : t.isRitLocked row = false)
    (h : swapRow p numRows hot row c t = .ok (t', swaps)) : t'.Located (applySwaps π swaps) := by
  unfold swapRow at h
  dsimp only at h
  split at h
  · rename_i hin
    rw [hlock] at h
    cases hrow : t.lookup row with
    | none => exact absurd (ht.checkRit_eq_neg_one_iff.mpr hrow) hin
    | some e =>
      have hdst : t.checkRit row = e.dstRow := by rw [Rit.checkRit, hrow]
      rw [hdst] at h
      exact unswapSwap_located ht hrow h
  · rename_i hout
    exact swapNew_located ht hnonneg (ht.checkRit_eq_neg_one_iff.mp (not_not.mp hout)) h

theorem swapRow_locked (hlock : t.isRitLocked row = true)
    (h : swapRow p numRows hot row c t = .ok (t', swaps)) :
    ∃ row', t'.indirectRow row' ≠ applySwaps π swaps row' := by
  obtain ⟨e, hrow, -⟩ := (Option.any_eq_true _ _).mp hlock
  have hdst : t.checkRit row = e.dstRow := by rw [Rit.checkRit, hrow]
  have hin : t.checkRit row ≠ -1 := fun hneg => by
    rw [ht.checkRit_eq_neg_one_iff.mp hneg] at hrow
    cases hrow
  simp only [swapRow, if_pos hin, hlock, if_true] at h
  rw [hdst] at h
  exact reswapLocked_misplaces ht hrow h

end

/-- The counter of a row that is locked in the current epoch reaches a multiple of the threshold. -/
def ReswapsLocked (cfg : DeviceConfig C) (p : RRSParams) (s : RRS) (found : Option (Request C)) : Prop :=
  s.resets p = false ∧ ∃ req b t count, cfg.activation found = some req ∧
    atBank s.hotRowTracker (cfg.flatBankId req.addrVec) = some b ∧
    atBank s.addrMapper.rowIndirectionTable (cfg.flatBankId req.addrVec) = some t ∧
    b.nextCount p.numHrtEntries (cfg.rowOf req.addrVec) = some count ∧ count % p.rssThreshold = 0 ∧
    t.isRitLocked (cfg.rowOf req.addrVec) = true

def RowActivation (cfg : DeviceConfig C) (found : Option (Request C)) : Prop :=
  ∀ req, cfg.activation found = some req → 0 ≤ cfg.rowOf req.addrVec

variable {sent : List (Request C)} {found : Option (Request C)}

/-- The hot rows, the row and the table with which an update makes a swap, if it makes one. -/
def swapInput (cfg : DeviceConfig C) (p : RRSParams) (s : RRS) (found : Option (Request C))
    (c : RRSChoice) : Option (UnorderedMap ℤ ℕ × ℤ × Rit) := do
  let req ← cfg.activation found
  let b ← atBank (s.tick p).hotRowTracker (cfg.flatBankId req.addrVec)
  let t ← atBank (s.tick p).addrMapper.rowIndirectionTable (cfg.flatBankId req.addrVec)
  let (b, counted) ← b.track p.numHrtEntries c.hotOrder (cfg.rowOf req.addrVec)
  let count ← counted
  if p.rssThreshold ≠ 0 ∧ count % p.rssThreshold = 0 then some (b.table, cfg.rowOf req.addrVec, t) else none

theorem log_tick (p : RRSParams) (s : RRS) : (s.tick p).log = s.log := by
  unfold tick
  split <;> rfl

theorem swapInput_eq_some_iff {t : Rit} :
    swapInput cfg p s found c = some (hot, row, t) ↔ ∃ req b b' count,
      cfg.activation found = some req ∧ row = cfg.rowOf req.addrVec ∧
      atBank (s.tick p).hotRowTracker (cfg.flatBankId req.addrVec) = some b ∧
      atBank (s.tick p).addrMapper.rowIndirectionTable (cfg.flatBankId req.addrVec) = some t ∧
      b.track p.numHrtEntries c.hotOrder row = some (b', some count) ∧ hot = b'.table ∧
      p.rssThreshold ≠ 0 ∧ count % p.rssThreshold = 0 := by
  simp only [swapInput, bind_eq_bind, bind_eq_some_iff, Prod.exists, ite_none_right_eq_some,
    some.injEq, Prod.mk.injEq]
  constructor
  · rintro ⟨req, hreq, b, hb, t, ht, b', _, htrack, count, rfl, hdue, rfl, rfl, rfl⟩
    exact ⟨req, b, b', count, hreq, rfl, hb, ht, htrack, rfl, hdue⟩
  · rintro ⟨req, b, b', count, hreq, rfl, hb, ht, htrack, rfl, hdue⟩
    exact ⟨req, hreq, b, hb, t, ht, b', _, htrack, count, rfl, hdue, rfl, rfl, rfl⟩

/-- **What an update does to the tables and the swaps.** -/
theorem update_cases (h : s.update cfg p found c = some (s', sent)) :
    (s'.addrMapper = (s.tick p).addrMapper ∧ s'.log = s.log ∧ swapInput cfg p s found c = none) ∨
      ∃ bank hot row t t' swaps, swapInput cfg p s found c = some (hot, row, t) ∧
        atBank (s.tick p).addrMapper.rowIndirectionTable bank = some t ∧
        swapRow p cfg.numRowsPerBank hot row c t = .ok (t', swaps) ∧
        s'.addrMapper.rowIndirectionTable =
          setBank (s.tick p).addrMapper.rowIndirectionTable bank t' ∧
        s'.log = s.log ++ swaps.map fun m => ⟨bank, m.1, m.2⟩ := by
  unfold update at h
  split at h
  · rename_i hnone
    cases h
    exact .inl ⟨rfl, log_tick p s, by simp [swapInput, hnone]⟩
  · rename_i req hreq
    simp only [activate, bind_eq_bind, bind_eq_some_iff, Prod.exists] at h
    obtain ⟨b, hb, t, ht, b', counted, htrack, h⟩ := h
    split at h
    · cases h
      exact .inl ⟨rfl, log_tick p s, by simp [swapInput, hreq, hb, ht, htrack]⟩
    · split_ifs at h with hthreshold hmult
      · simp only [bind_eq_some_iff, Prod.exists, toOption_eq_some_iff] at h
        obtain ⟨t', swaps, hswap, heq⟩ := h
        cases heq
        refine .inr ⟨_, b'.table, _, t, t', swaps, ?_, ht, hswap, rfl, by rw [log_tick]⟩
        simp [swapInput, hreq, hb, ht, htrack, hthreshold, hmult]
      · simp at h
      · cases h
        exact .inl ⟨rfl, log_tick p s, by simp [swapInput, hreq, hb, ht, htrack, hmult]⟩

theorem tick_cases (p : RRSParams) (s : RRS) :
    (s.resets p = true ∧ ∀ bank t row, atBank (s.tick p).addrMapper.rowIndirectionTable bank = some t →
      t.isRitLocked row = false) ∨
    (s.resets p = false ∧ (s.tick p).hotRowTracker = s.hotRowTracker ∧
      (s.tick p).addrMapper = s.addrMapper) := by
  unfold RRS.tick
  cases hreset : s.resets p with
  | true =>
    refine .inl ⟨rfl, ?_⟩
    intro bank t row ht
    rw [if_pos rfl, atBank_map] at ht
    obtain ⟨t₀, -, rfl⟩ := map_eq_some_iff.mp ht
    rw [Rit.isRitLocked, Rit.ritUnlock, UnorderedMap.lookup_mapValues]
    cases t₀.lookup row <;> rfl
  | false => exact .inr ⟨rfl, rfl, rfl⟩

theorem reswapsLocked_iff (h : s.update cfg p found c = some (s', sent)) :
    ReswapsLocked cfg p s found ↔ ∃ hot row t, swapInput cfg p s found c = some (hot, row, t) ∧
      t.isRitLocked row = true := by
  simp only [swapInput_eq_some_iff]
  rcases tick_cases p s with ⟨hreset, hunlocked⟩ | ⟨hreset, htracker, hsame⟩
  · refine iff_of_false (fun h => ?_) ?_
    · rw [h.1] at hreset
      cases hreset
    · rintro ⟨hot, row, t, ⟨req, b, b', count, -, -, -, ht, -⟩, hlock⟩
      rw [hunlocked _ _ _ ht] at hlock
      cases hlock
  · rw [htracker, hsame]
    constructor
    · rintro ⟨-, req, b, t, count, hreq, hb, ht, hcount, hmult, hlock⟩
      simp only [update, hreq, activate, htracker, hsame, hb, ht, bind_eq_bind, bind_some,
        bind_eq_some_iff, Prod.exists] at h
      obtain ⟨b', counted, htrack, h⟩ := h
      obtain rfl := (SpillTable.track_eq_nextCount htrack).trans hcount
      refine ⟨_, _, t, ⟨req, b, b', count, hreq, rfl, hb, ht, htrack, rfl, fun hzero => ?_, hmult⟩, hlock⟩
      simp [hzero] at h
    · rintro ⟨hot, row, t, ⟨req, b, b', count, hreq, rfl, hb, ht, htrack, -, -, hmult⟩, hlock⟩
      exact ⟨hreset, req, b, t, count, hreq, hb, ht, (SpillTable.track_eq_nextCount htrack).symm, hmult,
        hlock⟩

/-- The table of every bank, with the swaps of the bank. -/
def Tables (P : Rit → List (ℤ × ℤ) → Prop) (s : RRS) : Prop :=
  ∀ bank t, atBank s.addrMapper.rowIndirectionTable bank = some t → P t (swapsOf s.log bank)

section

variable {P : Rit → List (ℤ × ℤ) → Prop}

theorem tables_setup (h : P ∅ []) (cfg : DeviceConfig C) (p : RRSParams) : Tables P (setup cfg p) := by
  intro bank t ht
  rw [List.eq_of_mem_replicate (mem_of_atBank ht)]
  exact h

theorem Tables.tick (hs : Tables P s) (hunlock : ∀ t swaps, P t swaps → P t.ritUnlock swaps) :
    Tables P (s.tick p) := by
  intro bank t ht
  rw [log_tick]
  unfold RRS.tick at ht
  split at ht
  · rw [atBank_map] at ht
    obtain ⟨t₀, ht₀, rfl⟩ := map_eq_some_iff.mp ht
    exact hunlock t₀ _ (hs bank t₀ ht₀)
  · exact hs bank t ht

/-- **One update**: what unlocking and every swap keep of a table and its swaps. -/
theorem Tables.update (hs : Tables P s) (hunlock : ∀ t swaps, P t swaps → P t.ritUnlock swaps)
    (hswap : ∀ {hot row t t' swaps new}, swapInput cfg p s found c = some (hot, row, t) → P t swaps →
      swapRow p cfg.numRowsPerBank hot row c t = .ok (t', new) → P t' (swaps ++ new))
    (h : s.update cfg p found c = some (s', sent)) : Tables P s' := by
  have htick := hs.tick (p := p) hunlock
  unfold Tables at htick
  rw [log_tick] at htick
  intro bank t₁ ht₁
  rcases update_cases h with ⟨hmapper, hlog, -⟩ |
    ⟨bank', hot, row, t, t', swaps, hinput, ht, hrow, htable, hlog⟩
  · rw [hlog]
    exact htick bank t₁ (hmapper ▸ ht₁)
  · rw [htable, atBank_setBank ht] at ht₁
    rw [hlog, swapsOf_append]
    split at ht₁
    · rename_i heq
      cases ht₁
      rw [if_pos heq, heq]
      exact hswap hinput (htick _ t ht) hrow
    · rename_i hne
      rw [if_neg hne, List.append_nil]
      exact htick bank t₁ ht₁

end

/-! ## Whole runs -/

/-- The tables say where the data is. -/
def Consistent (s : RRS) : Prop := Tables (fun t swaps => t.Located (applySwaps 1 swaps)) s

theorem Consistent.update (hs : Consistent s) (hrow : RowActivation cfg found)
    (hlocked : ¬ ReswapsLocked cfg p s found) (h : s.update cfg p found c = some (s', sent)) :
    Consistent s' := by
  refine Tables.update hs (fun _ _ ht => ht.unlock) (fun {hot row t t' swaps new} hinput ht hswap => ?_) h
  have hlock : t.isRitLocked row = false := Bool.eq_false_of_not_eq_true fun hlock =>
    hlocked ((reswapsLocked_iff h).mpr ⟨hot, row, t, hinput, hlock⟩)
  obtain ⟨req, -, -, -, hreq, rfl, -⟩ := swapInput_eq_some_iff.mp hinput
  rw [applySwaps_append]
  exact swapRow_located ht (hrow req hreq) hlock hswap

/-- An update that re-swaps a locked pair leaves a table that is wrong. -/
theorem Consistent.update_locked (hs : Consistent s) (hlocked : ReswapsLocked cfg p s found)
    (h : s.update cfg p found c = some (s', sent)) :
    ∃ bank t row, atBank s'.addrMapper.rowIndirectionTable bank = some t ∧
      t.indirectRow row ≠ location s'.log bank row := by
  obtain ⟨hot, row, t, hinput, hlock⟩ := (reswapsLocked_iff h).mp hlocked
  have htick := Tables.tick (p := p) hs fun _ _ ht => ht.unlock
  obtain ⟨-, -, hnone⟩ | ⟨bank, hot', row', t', t₁, swaps, hinput', ht, hswap, htable, hlog⟩ :=
    update_cases h
  · rw [hnone] at hinput
    cases hinput
  · cases hinput.symm.trans hinput'
    obtain ⟨row, hne⟩ := swapRow_locked (htick _ t ht) hlock hswap
    refine ⟨bank, t₁, row, ?_, ?_⟩
    · rw [htable, atBank_setBank ht, if_pos rfl]
    · rwa [hlog, location, swapsOf_append, if_pos rfl, applySwaps_append, ← log_tick p]

theorem consistent_of_reachable {r : PluginRun C RRS}
    (h : (plugin cfg p).machine.ReachableWhen
      (fun r i => RowActivation cfg i.1 ∧ ¬ ReswapsLocked cfg p r.plugin i.1) r) :
    Consistent r.plugin :=
  ControllerPlugin.invariant (P := plugin cfg p) (I := fun s _ => Consistent s)
    (tables_setup Rit.located_empty cfg p)
    (fun _ _ _ _ _ hs hok hupdate => Consistent.update hs hok.1 hok.2 hupdate) h

/-- **The table and the data.** As long as no update re-swaps a pair locked in the current epoch, the
table of every bank sends every row where the issued swaps have put it; the first update that does
leaves a wrong table. -/
theorem rit_describes_location (cfg : DeviceConfig C) (p : RRSParams) {r : PluginRun C RRS}
    (h : (plugin cfg p).machine.ReachableWhen
      (fun r i => RowActivation cfg i.1 ∧ ¬ ReswapsLocked cfg p r.plugin i.1) r) :
    (∀ bank t, atBank r.plugin.addrMapper.rowIndirectionTable bank = some t →
      (∀ row, t.indirectRow row = location r.plugin.log bank row) ∧
        Function.Involutive t.indirectRow) ∧
    ∀ i r', ReswapsLocked cfg p r.plugin i.1 → (plugin cfg p).machine.step r i = some r' →
      ∃ bank t row, atBank r'.plugin.addrMapper.rowIndirectionTable bank = some t ∧
        t.indirectRow row ≠ location r'.plugin.log bank row := by
  have hconsistent := consistent_of_reachable h
  constructor
  · intro bank t ht
    have hlocated := hconsistent bank t ht
    exact ⟨hlocated.indirectRow_eq, hlocated.involutive⟩
  · intro i r' hlocked hstep
    obtain ⟨sent, hupdate, -⟩ := ControllerPlugin.step_eq_some hstep
    exact hconsistent.update_locked hlocked hupdate

/-- The activated row is not locked when the update looks it up. -/
def activatesUnlocked (cfg : DeviceConfig C) (p : RRSParams) (s : RRS) (found : Option (Request C)) :
    Bool :=
  (cfg.activation found).all fun req => decide (0 ≤ cfg.rowOf req.addrVec) && (s.resets p ||
    (atBank s.addrMapper.rowIndirectionTable (cfg.flatBankId req.addrVec)).all fun t =>
      !t.isRitLocked (cfg.rowOf req.addrVec))

theorem not_reswapsLocked_of_activatesUnlocked (h : activatesUnlocked cfg p s found = true) :
    RowActivation cfg found ∧ ¬ ReswapsLocked cfg p s found := by
  unfold activatesUnlocked at h
  constructor
  · intro req hreq
    rw [hreq, all_some, Bool.and_eq_true, decide_eq_true_eq] at h
    exact h.1
  · rintro ⟨hreset, req, b, t, count, hreq, -, ht, -, -, hlock⟩
    rw [hreq, all_some, ht, all_some, hreset, hlock] at h
    simp at h

abbrev everySecond (resetPeriodClk : ℤ) : RRSParams where
  numHrtEntries := 2
  numRitEntries := 4
  rssThreshold := 2
  resetPeriodClk := resetPeriodClk

def act (row : ℤ) (c : RRSChoice) : Option (Request DDR5VRR.Command) × RRSChoice :=
  (some (DDR5VRR.activateRow row), c)

/-- Row 5 is swapped with row 9, and in the next epoch with row 3. -/
theorem rit_describes_swap_of_two_epochs :
    ∃ r t, (plugin DDR5VRR.oneBank (everySecond 3)).machine.Reachable r ∧
      atBank r.plugin.addrMapper.rowIndirectionTable 0 = some t ∧ t.checkRit 5 = 3 ∧
      (∀ row, t.indirectRow row = location r.plugin.log 0 row) ∧ Function.Involutive t.indirectRow := by
  obtain ⟨r, hr, heq⟩ := Machine.exists_reachableWhen
    (m := (plugin DDR5VRR.oneBank (everySecond 3)).machine)
    (fun r i => activatesUnlocked DDR5VRR.oneBank (everySecond 3) r.plugin i.1)
    (fun _ _ => not_reswapsLocked_of_activatesUnlocked)
    (P := fun r => (atBank r.plugin.addrMapper.rowIndirectionTable 0).map (fun t => t.checkRit 5) = some 3)
    [act 5 {}, act 5 { draws := [9] }, act 5 {}, act 5 { draws := [3] }]
    (by decide +kernel) (by decide +kernel)
  obtain ⟨t, ht, hcheck⟩ := map_eq_some_iff.mp heq
  exact ⟨r, t, hr.reachable, ht, hcheck, (rit_describes_location _ _ hr).1 0 t ht⟩

/-- **A re-swap inside one epoch.**  Row 5 is swapped with row 9, then the locked pair is re-swapped
with the rows 1 and 2.  The data of row 1 is now in row 5; the table looks for it in row 9. -/
theorem locked_reswap_misplaces_row :
    ∃ r t, (plugin DDR5VRR.oneBank (everySecond 1000)).machine.Reachable r ∧
      atBank r.plugin.addrMapper.rowIndirectionTable 0 = some t ∧ t.indirectRow 1 = 9 ∧
      location r.plugin.log 0 1 = 5 := by
  obtain ⟨r, hr, htable, hdata⟩ := Machine.exists_reachable
    (m := (plugin DDR5VRR.oneBank (everySecond 1000)).machine)
    (P := fun r => (atBank r.plugin.addrMapper.rowIndirectionTable 0).map (fun t => t.indirectRow 1) =
      some 9 ∧ location r.plugin.log 0 1 = 5)
    [act 5 {}, act 5 { draws := [9] }, act 5 {}, act 5 { draws := [1, 2] }] (by decide +kernel)
  obtain ⟨t, ht, hrow⟩ := map_eq_some_iff.mp htable
  exact ⟨r, t, hr, ht, hrow, hdata⟩

end RRS

end MultiCoreMemory
