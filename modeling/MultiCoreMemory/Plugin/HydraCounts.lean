import MultiCoreMemory.Plugin.Hydra

/-!
# Hydra never under-counts (`plugin/hydra.cpp`)

A row is counted with its group until the group reaches its threshold, then by itself in the row count
table, of which the cache holds some entries.
-/

namespace MultiCoreMemory

open HydraParams List Option Nat AList DDR5VRR DeviceConfig

variable {C : Type}

/-- Powers of two for the rows of a bank, a row group and the cache, and thresholds in order. -/
structure HydraValid (cfg : DeviceConfig C) (p : HydraParams) : Prop where
  rows : ∃ bits, cfg.numRowsPerBank = 2 ^ bits
  group : ∃ bits, p.rowGroupSize = 2 ^ bits
  groupLe : p.rowGroupSize ≤ cfg.numRowsPerBank
  rcc : ∃ bits, p.rccNumPerRank = 2 ^ bits
  rccMin : 16 ≤ p.rccNumPerRank
  rccSets : p.rccSetNum < cfg.numRowsPerBank
  trackingThreshold : 2 ≤ p.trackingThreshold
  groupThreshold : p.groupThreshold < p.trackingThreshold

def TagsFit (cfg : DeviceConfig C) (p : HydraParams) : Prop :=
  cfg.numBanksPerRank * 2 ^ rccTagRowBits cfg p ≤ 2 ^ 32
  deriving Decidable

namespace HydraValid

variable {cfg : DeviceConfig C} {p : HydraParams}

variable (h : HydraValid cfg p)
include h

theorem gctIndex_eq (row : ℕ) : gctIndex cfg p row = row / p.rowGroupSize := by
  obtain ⟨rowBits, hrows⟩ := h.rows
  obtain ⟨groupBits, hgroup⟩ := h.group
  have hle : groupBits ≤ rowBits := by
    have hpow := h.groupLe
    rw [hrows, hgroup] at hpow
    exact (Nat.pow_le_pow_iff_right (by decide)).mp hpow
  unfold gctIndex rowAddressBits gctIndexBits gctEntriesPerBank
  rw [hrows, hgroup, Nat.pow_div hle (by decide), Nat.log2_two_pow, Nat.log2_two_pow,
    Nat.sub_sub_self hle, Nat.shiftRight_eq_div_pow]

theorem groupPos : 0 < p.rowGroupSize := by
  obtain ⟨bits, hbits⟩ := h.group
  rw [hbits]
  exact Nat.two_pow_pos bits

theorem exists_bits :
    ∃ setBits tagBits, p.rccIndexBits = setBits ∧ rccTagRowBits cfg p = tagBits ∧
      rowAddressBits cfg - rccTagRowBits cfg p = setBits ∧
      cfg.numRowsPerBank = 2 ^ tagBits * 2 ^ setBits := by
  obtain ⟨rowBits, hrows⟩ := h.rows
  obtain ⟨rccBits, hrcc⟩ := h.rcc
  have hfour : 4 ≤ rccBits := by
    have hmin := h.rccMin
    rw [hrcc, show 16 = 2 ^ 4 from rfl] at hmin
    exact (Nat.pow_le_pow_iff_right (by decide)).mp hmin
  have hsets : p.rccSetNum = 2 ^ (rccBits - 4) := by
    rw [rccSetNum, hrcc, show 16 = 2 ^ 4 from rfl, Nat.pow_div hfour (by decide)]
  have hlt : rccBits - 4 < rowBits := by
    have hfewer := h.rccSets
    rw [hsets, hrows] at hfewer
    exact (Nat.pow_lt_pow_iff_right (by decide)).mp hfewer
  have hindex : p.rccIndexBits = rccBits - 4 := by rw [rccIndexBits, hsets, Nat.log2_two_pow]
  have haddr : rowAddressBits cfg = rowBits := by rw [rowAddressBits, hrows, Nat.log2_two_pow]
  refine ⟨rccBits - 4, rowBits - (rccBits - 4), hindex, ?_, ?_, ?_⟩
  · rw [rccTagRowBits, haddr, hindex]
  · rw [rccTagRowBits, haddr, hindex]
    omega
  · rw [hrows, ← pow_add]
    congr 1
    omega

/-- **Set and tag name the row** of a rank. -/
theorem rccTag_unique (hfit : TagsFit cfg p) {bank bank' row row' : ℕ}
    (hbank : bank < cfg.numBanksPerRank) (hbank' : bank' < cfg.numBanksPerRank)
    (hrow : row < cfg.numRowsPerBank) (hrow' : row' < cfg.numRowsPerBank)
    (hindex : p.rccIndex row = p.rccIndex row')
    (htag : rccTag cfg p bank row = rccTag cfg p bank' row') : bank = bank' ∧ row = row' := by
  obtain ⟨setBits, tagBits, hset, htagBits, hshift, hrows⟩ := h.exists_bits
  unfold TagsFit at hfit
  rw [htagBits] at hfit
  -- without the wrap, the two parts of a tag stand side by side
  have hparts : ∀ b r, b < cfg.numBanksPerRank → r < cfg.numRowsPerBank →
      r / 2 ^ setBits < 2 ^ tagBits ∧ rccTag cfg p b r = b * 2 ^ tagBits + r / 2 ^ setBits := by
    intro b r hb hr
    have hhigh : r / 2 ^ setBits < 2 ^ tagBits := by
      rw [Nat.div_lt_iff_lt_mul (Nat.two_pow_pos _), ← hrows]
      exact hr
    have hword : b * 2 ^ tagBits < 2 ^ 32 :=
      lt_of_lt_of_le (Nat.mul_lt_mul_of_pos_right hb (Nat.two_pow_pos _)) hfit
    refine ⟨hhigh, ?_⟩
    rw [rccTag, hshift, htagBits, Nat.shiftRight_eq_div_pow, Nat.shiftLeft_eq, Nat.mod_eq_of_lt hword,
      Nat.or_comm, ← Nat.shiftLeft_eq, ← Nat.shiftLeft_add_eq_or_of_lt hhigh]
  obtain ⟨hhigh, heq⟩ := hparts bank row hbank hrow
  obtain ⟨hhigh', heq'⟩ := hparts bank' row' hbank' hrow'
  rw [heq, heq'] at htag
  have hcast : (bank : ℤ) * ((2 ^ tagBits : ℕ) : ℤ) + ((row / 2 ^ setBits : ℕ) : ℤ) =
      bank' * ((2 ^ tagBits : ℕ) : ℤ) + ((row' / 2 ^ setBits : ℕ) : ℤ) := by exact_mod_cast htag
  obtain ⟨hb, hr⟩ := digits_unique (Int.natCast_nonneg _) (by exact_mod_cast hhigh)
    (Int.natCast_nonneg _) (by exact_mod_cast hhigh') hcast
  refine ⟨by exact_mod_cast hb, ?_⟩
  have hlow : row % 2 ^ setBits = row' % 2 ^ setBits := by
    simpa only [rccIndex, hset, one_shiftLeft, and_two_pow_sub_one_eq_mod] using hindex
  have hr' : row / 2 ^ setBits = row' / 2 ^ setBits := by exact_mod_cast hr
  rw [← div_add_mod row (2 ^ setBits), ← div_add_mod row' (2 ^ setBits), hr', hlow]

end HydraValid

namespace Hydra

variable {cfg : DeviceConfig C} {p : HydraParams} {s s' : Hydra} {acts acts' : ℤ → ℕ → ℕ}

/-! ## What the tables say about a row -/

def gctEntry (cfg : DeviceConfig C) (p : HydraParams) (s : Hydra) (bank : ℤ) (row : ℕ) : GctEntry :=
  ((atBank s.groupCountTable bank).bind fun t => t.lookup (gctIndex cfg p row)).getD {}

def rctCount (s : Hydra) (bank : ℤ) (row : ℕ) : Option ℕ :=
  (atBank s.rowCountTable bank).bind fun t => t.lookup row

def rccCount (cfg : DeviceConfig C) (p : HydraParams) (s : Hydra) (bank : ℤ) (row : ℕ) : Option ℕ :=
  (s.rccSet (bank / cfg.numBanksPerRank) (p.rccIndex row)).bind fun set =>
    set.lookup (rccTag cfg p (bank % cfg.numBanksPerRank).toNat row : ℤ)

def DataRow (cfg : DeviceConfig C) (p : HydraParams) (row : ℕ) : Prop :=
  totalRctRowSize cfg p ≤ row ∧ row < cfg.numRowsPerBank
  deriving Decidable

/-- The three levels cover `acts`, the activations of a row since its last refresh request. -/
structure RowCounted (p : HydraParams) (e : GctEntry) (rct rcc : Option ℕ) (acts : ℕ) : Prop where
  groupCount_le : e.groupCount ≤ p.groupThreshold
  initialized_ge : e.initialized = true → p.groupThreshold ≤ e.groupCount
  grouped : e.initialized = false → acts ≤ e.groupCount
  tracked : e.initialized = true →
    ∃ count, rct = some count ∧ acts ≤ count ∧ count < p.trackingThreshold
  cached : ∀ count, rcc = some count → rct = some count ∧ e.initialized = true

/-- Every data row is covered. -/
def Counted (cfg : DeviceConfig C) (p : HydraParams) (s : Hydra) (acts : ℤ → ℕ → ℕ) : Prop :=
  ∀ bank row, DataRow cfg p row → RowCounted p (gctEntry cfg p s bank row) (rctCount s bank row)
    (rccCount cfg p s bank row) (acts bank row)

theorem RowCounted.mono {e : GctEntry} {rct rcc : Option ℕ} {n n' : ℕ} (h : RowCounted p e rct rcc n)
    (hle : n' ≤ n) : RowCounted p e rct rcc n' := by
  refine ⟨h.groupCount_le, h.initialized_ge, fun hinit => hle.trans (h.grouped hinit), fun hinit => ?_,
    h.cached⟩
  obtain ⟨count, hc, hacts, hlt⟩ := h.tracked hinit
  exact ⟨count, hc, hle.trans hacts, hlt⟩

theorem Counted.frame (hs : Counted cfg p s acts) (hgct : s'.groupCountTable = s.groupCountTable)
    (hrct : s'.rowCountTable = s.rowCountTable) (hrcc : s'.rowCountCache = s.rowCountCache)
    (hle : ∀ bank row, DataRow cfg p row → acts' bank row ≤ acts bank row) : Counted cfg p s' acts' := by
  refine fun bank row hrow => ?_
  have hold := (hs bank row hrow).mono (hle bank row hrow)
  unfold gctEntry rctCount rccCount rccSet at hold ⊢
  rw [hgct, hrct, hrcc]
  exact hold

variable {row row₀ : ℕ} {bank₀ : ℤ} {addrVec : AddrVec} {c : HydraChoice} {sent : List (Request C)}

theorem Counted.acts_lt (hs : Counted cfg p s acts) (hG : p.groupThreshold < p.trackingThreshold)
    (bank : ℤ) (hrow : DataRow cfg p row) : acts bank row < p.trackingThreshold := by
  cases hinit : (gctEntry cfg p s bank row).initialized with
  | false =>
    have hacts := (hs bank row hrow).grouped hinit
    have hgroup := (hs bank row hrow).groupCount_le
    omega
  | true =>
    obtain ⟨count, -, hacts, hlt⟩ := (hs bank row hrow).tracked hinit
    omega

theorem counted_of_empty (hgct : ∀ t ∈ s.groupCountTable, t = ∅)
    (hrcc : ∀ sets ∈ s.rowCountCache, ∀ set ∈ sets, set = ∅) (hacts : ∀ bank row, acts bank row = 0) :
    Counted cfg p s acts := by
  have hentry : ∀ bank row, gctEntry cfg p s bank row = {} := by
    intro bank row
    unfold gctEntry
    cases ht : atBank s.groupCountTable bank with
    | none => rfl
    | some t =>
      rw [hgct t (mem_of_atBank ht)]
      rfl
  have hcache : ∀ bank row, rccCount cfg p s bank row = none := by
    intro bank row
    unfold rccCount rccSet
    cases hsets : atBank s.rowCountCache (bank / cfg.numBanksPerRank) with
    | none => rfl
    | some sets =>
      simp only [bind_some]
      cases hset : sets[p.rccIndex row]? with
      | none => rfl
      | some set =>
        rw [hrcc sets (mem_of_atBank hsets) set (mem_of_getElem? hset)]
        rfl
  refine fun bank row _ => ?_
  rw [hentry, hcache, hacts]
  exact ⟨Nat.zero_le _, by simp, fun _ => le_rfl, by simp, by simp⟩

/-! ## One activation -/

theorem gctEntry_setBank (cfg : DeviceConfig C) (p : HydraParams) {gct : UnorderedMap ℕ GctEntry}
    {group : ℕ} {e : GctEntry} (hgct : atBank s.groupCountTable bank₀ = some gct)
    (hs' : s'.groupCountTable = setBank s.groupCountTable bank₀ (gct.insert group e)) (bank : ℤ)
    (row : ℕ) :
    gctEntry cfg p s' bank row =
      if bank = bank₀ ∧ gctIndex cfg p row = group then e else gctEntry cfg p s bank row := by
  unfold gctEntry
  rw [hs', atBank_setBank hgct]
  by_cases hbank : bank = bank₀
  · subst hbank
    rw [if_pos rfl, hgct, bind_some, bind_some]
    by_cases hgroup : gctIndex cfg p row = group
    · rw [if_pos ⟨rfl, hgroup⟩, hgroup, lookup_insert]
      rfl
    · rw [if_neg fun h => hgroup h.2, lookup_insert_ne hgroup]
  · rw [if_neg hbank, if_neg fun h => hbank h.1]

theorem rctCount_setBank {t t' : UnorderedMap ℕ ℕ} (ht : atBank s.rowCountTable bank₀ = some t)
    (hs' : s'.rowCountTable = setBank s.rowCountTable bank₀ t') (bank : ℤ) (row : ℕ) :
    rctCount s' bank row = if bank = bank₀ then t'.lookup row else rctCount s bank row := by
  unfold rctCount
  rw [hs', atBank_setBank ht]
  split <;> rfl

theorem rccSet_setRccSet {rank₀ : ℤ} {index₀ : ℕ} {set set' : UnorderedMap ℤ ℕ}
    (hset : s.rccSet rank₀ index₀ = some set)
    (hs' : s'.rowCountCache = setRccSet s.rowCountCache rank₀ index₀ set') (rank : ℤ) (index : ℕ) :
    s'.rccSet rank index =
      if rank = rank₀ ∧ index = index₀ then some set' else s.rccSet rank index := by
  unfold rccSet at hset ⊢
  obtain ⟨sets, hsets, hindex⟩ := bind_eq_some_iff.mp hset
  rw [hs', setRccSet, hsets]
  dsimp only
  rw [atBank_setBank hsets]
  by_cases hrank : rank = rank₀
  · subst hrank
    rw [if_pos rfl, hsets]
    simp only [bind_some, true_and]
    by_cases hi : index = index₀
    · rw [if_pos hi, hi, List.getElem?_set_self (List.getElem?_eq_some_iff.mp hindex).1]
    · rw [if_neg hi, getElem?_set_ne (Ne.symm hi)]
  · rw [if_neg hrank, if_neg fun h => hrank h.1]

theorem lookup_initializeGroup (hsize : 0 < p.rowGroupSize) (group : ℕ) (t : UnorderedMap ℕ ℕ) (row : ℕ) :
    (initializeGroup p group t).lookup row =
      if row / p.rowGroupSize = group then some p.groupThreshold else t.lookup row := by
  rw [initializeGroup, UnorderedMap.lookup_insertAll]
  refine if_congr ?_ rfl rfl
  simp only [List.mem_map, mem_range]
  constructor
  · rintro ⟨i, hi, rfl⟩
    rw [mul_comm, mul_add_div hsize, div_eq_of_lt hi, add_zero]
  · rintro rfl
    exact ⟨row % p.rowGroupSize, mod_lt _ hsize, div_add_mod' row p.rowGroupSize⟩

def bumped (p : HydraParams) (count : ℕ) : ℕ := if p.trackingThreshold ≤ count + 1 then 0 else count + 1

/-- An access raises the counter of its row in both places, or sends it back to 0 with a refresh
request. -/
theorem access_spec {tag : ℤ} {count : ℕ} {set set₁ set₂ : UnorderedMap ℤ ℕ}
    {t t₁ t₂ : UnorderedMap ℕ ℕ} {vrr : List (Request C)}
    (haccess : accessRcc cfg p addrVec row tag c set t = some (set₁, t₁, sent))
    (hcheck : checkRcc p addrVec row tag set₁ t₁ = (set₂, t₂, vrr))
    (hcount : t.lookup row = some count) (hcached : ∀ x, set.lookup tag = some x → x = count) :
    set₂.lookup tag = some (bumped p count) ∧ t₂.lookup row = some (bumped p count) ∧
      (∀ tag', tag' ≠ tag → ∀ x, set₂.lookup tag' = some x → set.lookup tag' = some x) ∧
      (∀ row', row' ≠ row → t₂.lookup row' = t.lookup row') ∧
      (p.trackingThreshold ≤ count + 1 →
        ({ addrVec := addrVec, typeId := p.vrrReqId } : Request C) ∈ vrr) := by
  -- after the access, before the test
  have hmid : set₁.lookup tag = some (count + 1) ∧ t₁ = t.insert row (count + 1) ∧
      ∀ tag', tag' ≠ tag → ∀ x, set₁.lookup tag' = some x → set.lookup tag' = some x := by
    unfold accessRcc at haccess
    rw [hcount] at haccess
    dsimp only at haccess
    split at haccess
    · rename_i x hx
      cases haccess
      rw [hcached x hx]
      refine ⟨lookup_insert _, rfl, ?_⟩
      intro tag' hne x hx
      rwa [lookup_insert_ne hne] at hx
    · obtain ⟨⟨set₀, sent₀⟩, hevict, heq⟩ := map_eq_some_iff.mp haccess
      cases heq
      rw [lookup_insert, lookup_insert]
      refine ⟨rfl, rfl, ?_⟩
      intro tag' hne x hx
      rw [lookup_insert_ne hne] at hx
      unfold evict at hevict
      split at hevict
      · obtain ⟨victim, -, heq⟩ := map_eq_some_iff.mp hevict
        cases heq
        exact (UnorderedMap.lookup_erase_iff.mp hx).2
      · cases hevict
        exact hx
  obtain ⟨hset, rfl, hothers⟩ := hmid
  unfold checkRcc at hcheck
  rw [hset, getD_some] at hcheck
  unfold bumped
  split at hcheck
  · rename_i hreached
    cases hcheck
    rw [if_pos hreached]
    refine ⟨lookup_insert _, lookup_insert _, ?_, ?_, fun _ => mem_singleton_self _⟩
    · intro tag' hne x hx
      rw [lookup_insert_ne hne] at hx
      exact hothers tag' hne x hx
    · intro row' hne
      rw [lookup_insert_ne hne, lookup_insert_ne hne]
  · rename_i hreached
    cases hcheck
    rw [if_neg hreached]
    exact ⟨hset, lookup_insert _, hothers, fun row' hne => lookup_insert_ne hne,
      fun h => absurd h hreached⟩

theorem gctEntry_congr (s : Hydra) {bank : ℤ}
    (h : bank = bank₀ ∧ gctIndex cfg p row = gctIndex cfg p row₀) :
    gctEntry cfg p s bank row = gctEntry cfg p s bank₀ row₀ := by
  rw [gctEntry, gctEntry, h.1, h.2]

/-- The rows of a bank with the counters that a group gets when its threshold is reached. -/
def startedTable (cfg : DeviceConfig C) (p : HydraParams) (s : Hydra) (bank : ℤ) (row : ℕ)
    (t : UnorderedMap ℕ ℕ) : UnorderedMap ℕ ℕ :=
  if (gctEntry cfg p s bank row).initialized then t else initializeGroup p (gctIndex cfg p row) t

theorem countRow_cases (h : s.countRow cfg p addrVec row c = some (s', sent)) :
    ∃ gct, atBank s.groupCountTable (cfg.flatBankId addrVec) = some gct ∧
      (((gctEntry cfg p s (cfg.flatBankId addrVec) row).groupCount < p.groupThreshold ∧
        s'.groupCountTable = setBank s.groupCountTable (cfg.flatBankId addrVec)
          (gct.insert (gctIndex cfg p row)
            { gctEntry cfg p s (cfg.flatBankId addrVec) row with
              groupCount := (gctEntry cfg p s (cfg.flatBankId addrVec) row).groupCount + 1 }) ∧
        s'.rowCountTable = s.rowCountTable ∧ s'.rowCountCache = s.rowCountCache) ∨
      (p.groupThreshold ≤ (gctEntry cfg p s (cfg.flatBankId addrVec) row).groupCount ∧
        s'.groupCountTable = setBank s.groupCountTable (cfg.flatBankId addrVec)
          (gct.insert (gctIndex cfg p row)
            { gctEntry cfg p s (cfg.flatBankId addrVec) row with initialized := true }) ∧
        ∃ t set set₁ t₁ sent₁ set₂ t₂ vrr,
          atBank s.rowCountTable (cfg.flatBankId addrVec) = some t ∧
          s.rccSet (addrVec.level cfg.rankLevel) (p.rccIndex row) = some set ∧
          accessRcc cfg p addrVec row
            (rccTag cfg p (cfg.flatBankId addrVec % cfg.numBanksPerRank).toNat row) c set
            (startedTable cfg p s (cfg.flatBankId addrVec) row t) = some (set₁, t₁, sent₁) ∧
          checkRcc p addrVec row
            (rccTag cfg p (cfg.flatBankId addrVec % cfg.numBanksPerRank).toNat row) set₁ t₁ =
              (set₂, t₂, vrr) ∧
          s'.rowCountTable = setBank s.rowCountTable (cfg.flatBankId addrVec) t₂ ∧
          s'.rowCountCache =
            setRccSet s.rowCountCache (addrVec.level cfg.rankLevel) (p.rccIndex row) set₂ ∧
          vrr ⊆ sent)) := by
  unfold countRow at h
  simp only [bind_eq_bind] at h
  obtain ⟨gct, hgct, h⟩ := bind_eq_some_iff.mp h
  have hentry : (gct.lookup (gctIndex cfg p row)).getD {} =
      gctEntry cfg p s (cfg.flatBankId addrVec) row := by
    rw [gctEntry, hgct]
    rfl
  rw [hentry] at h
  refine ⟨gct, hgct, ?_⟩
  split at h
  · rename_i hreached
    obtain ⟨t, ht, h⟩ := bind_eq_some_iff.mp h
    obtain ⟨set, hset, h⟩ := bind_eq_some_iff.mp h
    obtain ⟨⟨set₁, t₁, sent₁⟩, haccess, h⟩ := bind_eq_some_iff.mp h
    obtain ⟨⟨set₂, t₂, vrr⟩, hcheck⟩ : ∃ o, checkRcc (C := C) p addrVec row
        (rccTag cfg p (cfg.flatBankId addrVec % cfg.numBanksPerRank).toNat row) set₁ t₁ = o := ⟨_, rfl⟩
    rw [hcheck] at h
    dsimp only at h
    cases h
    refine .inr ⟨hreached, rfl, t, set, set₁, t₁, sent₁, set₂, t₂, vrr, ht, hset, ?_, hcheck, rfl, rfl,
      subset_append_right _ _⟩
    rw [← haccess, startedTable]
    split <;> rfl
  · rename_i hreached
    cases h
    exact .inl ⟨Nat.lt_of_not_le hreached, rfl, rfl, rfl⟩

theorem Counted.countGroup {gct : UnorderedMap ℕ GctEntry}
    (hs : Counted cfg p s acts) (hgct : atBank s.groupCountTable bank₀ = some gct)
    (hrow₀ : DataRow cfg p row₀)
    (hbelow : (gctEntry cfg p s bank₀ row₀).groupCount < p.groupThreshold)
    (htable : s'.groupCountTable = setBank s.groupCountTable bank₀ (gct.insert (gctIndex cfg p row₀)
      { gctEntry cfg p s bank₀ row₀ with groupCount := (gctEntry cfg p s bank₀ row₀).groupCount + 1 }))
    (hrct : s'.rowCountTable = s.rowCountTable) (hrcc : s'.rowCountCache = s.rowCountCache)
    (hacts : ∀ bank row, acts' bank row ≤ acts bank row + if bank = bank₀ ∧ row = row₀ then 1 else 0) :
    Counted cfg p s' acts' := by
  have hcount : rctCount s' = rctCount s := by
    unfold rctCount
    rw [hrct]
  have hcache : rccCount cfg p s' = rccCount cfg p s := by
    unfold rccCount rccSet
    rw [hrcc]
  -- rows of the group are not tracked yet
  have huninit : (gctEntry cfg p s bank₀ row₀).initialized = false := by
    refine Bool.eq_false_of_not_eq_true fun hinit => ?_
    have hge := (hs bank₀ row₀ hrow₀).initialized_ge hinit
    omega
  refine fun bank row hrow => ?_
  have hold := hs bank row hrow
  have hle := hacts bank row
  rw [gctEntry_setBank cfg p hgct htable, hcount, hcache]
  split
  · rename_i hin
    rw [gctEntry_congr s hin] at hold
    refine ⟨hbelow, fun hinit => ?_, fun _ => ?_, fun hinit => ?_, hold.cached⟩
    · cases hinit.symm.trans huninit
    · have hacts := hold.grouped huninit
      dsimp only
      split at hle <;> omega
    · cases hinit.symm.trans huninit
  · rename_i hout
    rw [if_neg fun h => hout ⟨h.1, congrArg _ h.2⟩] at hle
    exact hold.mono hle

section

variable {bank₀ : ℤ} {row₀ : ℕ} {t : UnorderedMap ℕ ℕ}

variable {row count : ℕ}

variable (hvalid : HydraValid cfg p)

include hvalid

theorem lookup_startedTable (ht : atBank s.rowCountTable bank₀ = some t)
    (hcase : (gctEntry cfg p s bank₀ row).initialized = true ∨ gctIndex cfg p row ≠ gctIndex cfg p row₀) :
    (startedTable cfg p s bank₀ row₀ t).lookup row = rctCount s bank₀ row := by
  have hrow : rctCount s bank₀ row = t.lookup row := by
    rw [rctCount, ht]
    rfl
  rw [hrow]
  unfold startedTable
  split
  · rfl
  · rename_i huninit
    rw [lookup_initializeGroup hvalid.groupPos, ← hvalid.gctIndex_eq, if_neg]
    intro hgroup
    rcases hcase with hinit | hne
    · rw [gctEntry_congr s ⟨rfl, hgroup⟩] at hinit
      exact huninit hinit
    · exact hne hgroup

/-- Every row of a group that tracks has a counter, and it covers the row. -/
theorem Counted.startedTable (hs : Counted cfg p s acts)
    (ht : atBank s.rowCountTable bank₀ = some t) (hrow : DataRow cfg p row)
    (hgroup : gctIndex cfg p row = gctIndex cfg p row₀) :
    ∃ count, (Hydra.startedTable cfg p s bank₀ row₀ t).lookup row = some count ∧
      acts bank₀ row ≤ count ∧ count < p.trackingThreshold := by
  have heq : gctEntry cfg p s bank₀ row = gctEntry cfg p s bank₀ row₀ :=
    gctEntry_congr s ⟨rfl, hgroup⟩
  cases hinit : (gctEntry cfg p s bank₀ row₀).initialized with
  | true =>
    rw [← heq] at hinit
    rw [lookup_startedTable hvalid ht (.inl hinit)]
    exact (hs bank₀ row hrow).tracked hinit
  | false =>
    refine ⟨p.groupThreshold, ?_, ?_, hvalid.groupThreshold⟩
    · rw [Hydra.startedTable, hinit, if_neg (by decide), lookup_initializeGroup hvalid.groupPos,
        ← hvalid.gctIndex_eq, if_pos hgroup]
    · rw [← heq] at hinit
      exact ((hs bank₀ row hrow).grouped hinit).trans ((hs bank₀ row hrow).groupCount_le)

theorem rccTag_ne (hfit : TagsFit cfg p) (hbanks : 0 < cfg.numBanksPerRank) {bank : ℤ}
    (hrow : row < cfg.numRowsPerBank) (hrow₀ : row₀ < cfg.numRowsPerBank)
    (hrank : bank / cfg.numBanksPerRank = bank₀ / cfg.numBanksPerRank)
    (hindex : p.rccIndex row = p.rccIndex row₀) (hne : ¬ (bank = bank₀ ∧ row = row₀)) :
    rccTag cfg p (bank % cfg.numBanksPerRank).toNat row ≠
      rccTag cfg p (bank₀ % cfg.numBanksPerRank).toNat row₀ := by
  intro htag
  have hpos : (0 : ℤ) < cfg.numBanksPerRank := by exact_mod_cast hbanks
  have hlow := Int.emod_nonneg bank hpos.ne'
  have hlow₀ := Int.emod_nonneg bank₀ hpos.ne'
  have hhigh := Int.emod_lt_of_pos bank hpos
  have hhigh₀ := Int.emod_lt_of_pos bank₀ hpos
  obtain ⟨hbank, hrowEq⟩ := hvalid.rccTag_unique hfit (by omega) (by omega) hrow hrow₀ hindex htag
  refine hne ⟨?_, hrowEq⟩
  rw [← Int.mul_ediv_add_emod bank cfg.numBanksPerRank,
    ← Int.mul_ediv_add_emod bank₀ cfg.numBanksPerRank, hrank]
  omega

structure Bumped (cfg : DeviceConfig C) (p : HydraParams) (s s' : Hydra) (bank₀ : ℤ) (row₀ : ℕ)
    (started : UnorderedMap ℕ ℕ) (count : ℕ) : Prop where
  entry : ∀ bank row, gctEntry cfg p s' bank row =
    if bank = bank₀ ∧ gctIndex cfg p row = gctIndex cfg p row₀ then
      { gctEntry cfg p s bank₀ row₀ with initialized := true }
    else gctEntry cfg p s bank row
  rct : ∀ bank row, rctCount s' bank row =
    if bank = bank₀ then (if row = row₀ then some (bumped p count) else started.lookup row)
    else rctCount s bank row
  rcc : ∀ bank row x, DataRow cfg p row → rccCount cfg p s' bank row = some x →
    if bank = bank₀ ∧ row = row₀ then x = bumped p count else rccCount cfg p s bank row = some x

theorem Bumped.rctCount_eq (ht : atBank s.rowCountTable bank₀ = some t)
    (hviews : Bumped cfg p s s' bank₀ row₀ (startedTable cfg p s bank₀ row₀ t) count) {bank : ℤ}
    (hne : ¬ (bank = bank₀ ∧ row = row₀)) (hinit : (gctEntry cfg p s bank row).initialized = true) :
    rctCount s' bank row = rctCount s bank row := by
  rw [hviews.rct]
  split
  · rename_i hbank
    subst hbank
    rw [if_neg fun h => hne ⟨rfl, h⟩]
    exact lookup_startedTable hvalid ht (.inl hinit)
  · rfl

omit hvalid in
theorem le_bumped {before after : ℕ} (hle : after ≤ before + 1) (hcount : before ≤ count)
    (hvrr : p.trackingThreshold ≤ count + 1 → after = 0) : after ≤ bumped p count := by
  unfold bumped
  split
  · rename_i hmax
    exact (hvrr hmax).le
  · omega

omit hvalid in
theorem bumped_lt (hpos : 0 < p.trackingThreshold) (count : ℕ) :
    bumped p count < p.trackingThreshold := by
  unfold bumped
  split <;> omega

theorem Counted.bumped (hs : Counted cfg p s acts) (ht : atBank s.rowCountTable bank₀ = some t)
    (hrow₀ : DataRow cfg p row₀)
    (hreached : p.groupThreshold ≤ (gctEntry cfg p s bank₀ row₀).groupCount)
    (hcount : (Hydra.startedTable cfg p s bank₀ row₀ t).lookup row₀ = some count)
    (hviews : Bumped cfg p s s' bank₀ row₀ (Hydra.startedTable cfg p s bank₀ row₀ t) count)
    (hacts : ∀ bank row, acts' bank row ≤ acts bank row + if bank = bank₀ ∧ row = row₀ then 1 else 0)
    (hvrr : p.trackingThreshold ≤ count + 1 → acts' bank₀ row₀ = 0) : Counted cfg p s' acts' := by
  refine fun bank row hrow => ?_
  have hold := hs bank row hrow
  have hle := hacts bank row
  rw [hviews.entry]
  by_cases hthis : bank = bank₀ ∧ row = row₀
  · -- the activated row
    obtain ⟨rfl, rfl⟩ := hthis
    have hpos := hvalid.trackingThreshold
    obtain ⟨x, hx, hxActs, -⟩ := hs.startedTable hvalid ht hrow rfl
    obtain rfl := some.inj (hcount.symm.trans hx)
    rw [if_pos ⟨rfl, rfl⟩] at hle ⊢
    rw [hviews.rct, if_pos rfl, if_pos rfl]
    refine ⟨hold.groupCount_le, fun _ => hreached, by simp, fun _ => ?_, fun x hx => ⟨?_, rfl⟩⟩
    · exact ⟨Hydra.bumped p count, rfl, le_bumped hle hxActs hvrr, bumped_lt (by omega) count⟩
    · have hcase := hviews.rcc bank row x hrow hx
      rw [if_pos ⟨rfl, rfl⟩] at hcase
      rw [hcase]
  rw [if_neg hthis] at hle
  have hcached : ∀ x, rccCount cfg p s' bank row = some x →
      rctCount s' bank row = some x ∧ (gctEntry cfg p s bank row).initialized = true := by
    intro x hx
    have hcase := hviews.rcc bank row x hrow hx
    rw [if_neg hthis] at hcase
    obtain ⟨htab, hinit⟩ := hold.cached x hcase
    exact ⟨(hviews.rctCount_eq hvalid ht hthis hinit).trans htab, hinit⟩
  by_cases hin : bank = bank₀ ∧ gctIndex cfg p row = gctIndex cfg p row₀
  · -- another row of its group
    rw [if_pos hin]
    obtain ⟨rfl, hgroup⟩ := hin
    refine ⟨(hs bank row₀ hrow₀).groupCount_le, fun _ => hreached, by simp, fun _ => ?_,
      fun x hx => ⟨(hcached x hx).1, rfl⟩⟩
    obtain ⟨x, hx, hxActs, hxLt⟩ := hs.startedTable hvalid ht hrow hgroup
    refine ⟨x, ?_, hle.trans hxActs, hxLt⟩
    rw [hviews.rct, if_pos rfl, if_neg fun h => hthis ⟨rfl, h⟩, hx]
  · rw [if_neg hin]
    have hmono := hold.mono hle
    refine ⟨hmono.groupCount_le, hmono.initialized_ge, hmono.grouped, fun hinit => ?_, hcached⟩
    rw [hviews.rctCount_eq hvalid ht hthis hinit]
    exact hmono.tracked hinit

end

/-- **One activation of a data row.** -/
theorem Counted.countRow (hs : Counted cfg p s acts) (hvalid : HydraValid cfg p) (hfit : TagsFit cfg p)
    (haddr : cfg.ValidBank addrVec) (hrow₀ : DataRow cfg p row₀)
    (h : s.countRow cfg p addrVec row₀ c = some (s', sent))
    (hacts : ∀ bank row, acts' bank row ≤
      acts bank row + if bank = cfg.flatBankId addrVec ∧ row = row₀ then 1 else 0)
    (hvrr : ({ addrVec := addrVec, typeId := p.vrrReqId } : Request C) ∈ sent →
      acts' (cfg.flatBankId addrVec) row₀ = 0) : Counted cfg p s' acts' := by
  obtain ⟨gct, hgct, ⟨hbelow, htable, hrct, hrcc⟩ | ⟨hreached, htable, t, set, set₁, t₁, sent₁, set₂, t₂,
    vrr, ht, hset, haccess, hcheck, hrct, hrcc, hsub⟩⟩ := countRow_cases h
  · exact hs.countGroup hgct hrow₀ hbelow htable hrct hrcc hacts
  · have hbanks : 0 < cfg.numBanksPerRank := by
      obtain ⟨hlow, hhigh⟩ := haddr.bankInRank
      omega
    rw [haddr.rank_eq] at hset hrcc
    obtain ⟨count, hcount, -, -⟩ := hs.startedTable hvalid ht hrow₀ rfl
    -- a cached counter is that of the table
    have hcachedCount : ∀ x, set.lookup
        (rccTag cfg p (cfg.flatBankId addrVec % cfg.numBanksPerRank).toNat row₀ : ℤ) = some x →
        x = count := by
      intro x hx
      have hcache : rccCount cfg p s (cfg.flatBankId addrVec) row₀ = some x := by
        rw [rccCount, hset]
        exact hx
      obtain ⟨htab, hinit⟩ := (hs _ row₀ hrow₀).cached x hcache
      rw [← lookup_startedTable hvalid ht (.inl hinit), hcount] at htab
      exact (some.inj htab).symm
    obtain ⟨hset₂, ht₂, hsetOthers, htOthers, hreq⟩ := access_spec haccess hcheck hcount hcachedCount
    refine hs.bumped hvalid ht hrow₀ hreached hcount ⟨gctEntry_setBank cfg p hgct htable, ?_, ?_⟩ hacts
      (fun hmax => hvrr (hsub (hreq hmax)))
    · intro bank row
      rw [rctCount_setBank ht hrct]
      by_cases hrow : row = row₀
      · rw [if_pos hrow, hrow, ht₂]
      · rw [if_neg hrow, htOthers row hrow]
    · intro bank row x hrow hx
      rw [rccCount, rccSet_setRccSet hset hrcc] at hx
      by_cases hthis : bank = cfg.flatBankId addrVec ∧ row = row₀
      · rw [if_pos hthis]
        rw [hthis.1, hthis.2, if_pos ⟨rfl, rfl⟩, bind_some, hset₂] at hx
        exact (some.inj hx).symm
      · -- an entry of another row was there before
        rw [if_neg hthis, rccCount]
        by_cases hplace : bank / cfg.numBanksPerRank = cfg.flatBankId addrVec / cfg.numBanksPerRank ∧
            p.rccIndex row = p.rccIndex row₀
        · rw [if_pos hplace, bind_some] at hx
          rw [hplace.1, hplace.2, hset, bind_some]
          refine hsetOthers _ ?_ x hx
          exact_mod_cast rccTag_ne hvalid hfit hbanks hrow.2 hrow₀.2 hplace.1 hplace.2 hthis
        · rwa [if_neg hplace] at hx

/-! ## Whole runs -/

theorem counted_setup (cfg : DeviceConfig C) (p : HydraParams) (hacts : ∀ bank row, acts bank row = 0) :
    Counted cfg p (setup cfg p) acts := by
  refine counted_of_empty ?_ ?_ hacts
  · intro t ht
    exact eq_of_mem_replicate ht
  · intro sets hsets set hset
    rw [eq_of_mem_replicate hsets] at hset
    exact eq_of_mem_replicate hset

theorem Counted.tick (hs : Counted cfg p s acts) :
    Counted cfg p (s.tick p) fun bank row => if s.resets p then 0 else acts bank row := by
  unfold Hydra.tick
  split
  · refine counted_of_empty ?_ ?_ fun _ _ => rfl
    · simp
    · intro sets hsets set hset
      obtain ⟨sets₀, -, rfl⟩ := List.mem_map.mp hsets
      obtain ⟨set₀, -, rfl⟩ := List.mem_map.mp hset
      rfl
  · exact hs.frame rfl rfl rfl fun _ _ _ => le_rfl

def ValidActivation (cfg : DeviceConfig C) (found : Option (Request C)) : Prop :=
  ∀ req, cfg.activation found = some req → cfg.ValidBank req.addrVec ∧
    0 ≤ cfg.rowOf req.addrVec ∧ cfg.rowOf req.addrVec < cfg.numRowsPerBank

def rowActs (cfg : DeviceConfig C) (p : HydraParams) (h : List (Observed C)) (bank : ℤ) (row : ℕ) : ℕ :=
  cfg.actsSinceRefresh p.vrrReqId bank row h

theorem Counted.update (hvalid : HydraValid cfg p) (hfit : TagsFit cfg p) {h : List (Observed C)}
    {found : Option (Request C)} (hs : Counted cfg p s (rowActs cfg p h))
    (hact : ValidActivation cfg found) (hupdate : s.update cfg p found c = some (s', sent)) :
    Counted cfg p s' (rowActs cfg p ({ reset := s.resets p, found := found, sent := sent } :: h)) := by
  have htick := hs.tick
  unfold Hydra.update at hupdate
  split at hupdate
  · rename_i hnone
    cases hupdate
    refine htick.frame rfl rfl rfl fun bank row _ => ?_
    rw [rowActs, actsSinceRefresh_cons, any_activatesRow_of_none hnone]
    split
    · exact Nat.zero_le _
    · exact le_rfl
  rename_i req hreq
  obtain ⟨haddr, hlow, hhigh⟩ := hact req hreq
  have hrowOf : cfg.rowOf req.addrVec = (cfg.rowOf req.addrVec).toNat := (Int.toNat_of_nonneg hlow).symm
  -- only the activated row has one activation more
  have hle : ∀ bank row,
      rowActs cfg p ({ reset := s.resets p, found := found, sent := sent } :: h) bank row ≤
        (if s.resets p then 0 else rowActs cfg p h bank row) +
          if bank = cfg.flatBankId req.addrVec ∧ row = (cfg.rowOf req.addrVec).toNat then 1 else 0 := by
    intro bank row
    rw [rowActs, actsSinceRefresh_cons, any_activatesRow hreq]
    split
    · exact Nat.zero_le _
    · refine Nat.add_le_add le_rfl ?_
      split
      · exact Bool.toNat_le _
      · rename_i hne
        have hno : (cfg.flatBankId req.addrVec == bank && cfg.rowOf req.addrVec == (row : ℤ)) = false := by
          refine Bool.eq_false_of_not_eq_true fun hboth => hne ?_
          simp only [Bool.and_eq_true, beq_iff_eq] at hboth
          exact ⟨hboth.1.symm, by omega⟩
        rw [hno, Bool.toNat_false]
  unfold activate at hupdate
  dsimp only at hupdate
  split at hupdate
  · -- a row of the RCT has its own table
    rename_i hrct
    obtain ⟨t, -, heq⟩ := map_eq_some_iff.mp hupdate
    have hstate := congrArg Prod.fst heq
    refine htick.frame (congrArg groupCountTable hstate).symm (congrArg rowCountTable hstate).symm
      (congrArg rowCountCache hstate).symm fun bank row hrow => ?_
    have hne : ¬ (bank = cfg.flatBankId req.addrVec ∧ row = (cfg.rowOf req.addrVec).toNat) := by
      have hdata := hrow.1
      omega
    have hsame := hle bank row
    rwa [if_neg hne, add_zero] at hsame
  · rename_i hrct
    have hrow : DataRow cfg p (cfg.rowOf req.addrVec).toNat := ⟨Nat.le_of_not_lt hrct, by omega⟩
    refine htick.countRow hvalid hfit haddr hrow hupdate hle ?_
    intro hmem
    rw [rowActs, actsSinceRefresh_cons, if_pos]
    refine List.any_eq_true.mpr ⟨_, hmem, ?_⟩
    simp [← hrowOf]

theorem counted_of_reachable (hvalid : HydraValid cfg p) (hfit : TagsFit cfg p) {r : PluginRun C Hydra}
    (h : (plugin cfg p).machine.ReachableWhen (fun _ i => ValidActivation cfg i.1) r) :
    Counted cfg p r.plugin (rowActs cfg p r.history) :=
  ControllerPlugin.invariant (P := plugin cfg p) (I := fun s h => Counted cfg p s (rowActs cfg p h))
    (counted_setup cfg p fun _ _ => rfl)
    (fun _ _ _ _ _ hs hact hupdate => Counted.update hvalid hfit hs hact hupdate) h

/-- **No row reaches the tracking threshold unrefreshed**, and a cached counter is that of the table,
if the tags of all banks of a rank fit into 32 bits. -/
theorem counts_cover_activations (cfg : DeviceConfig C) (p : HydraParams) (hvalid : HydraValid cfg p)
    (hfit : TagsFit cfg p) {r : PluginRun C Hydra}
    (h : (plugin cfg p).machine.ReachableWhen (fun _ i => ValidActivation cfg i.1) r) {v : AddrVec}
    {row : ℕ} (hrow : DataRow cfg p row) :
    cfg.actsSinceRefresh p.vrrReqId (cfg.flatBankId v) row r.history < p.trackingThreshold ∧
    ∀ count, rccCount cfg p r.plugin (cfg.flatBankId v) row = some count →
      rctCount r.plugin (cfg.flatBankId v) row = some count := by
  have hcounted := counted_of_reachable hvalid hfit h
  exact ⟨hcounted.acts_lt hvalid.groupThreshold (cfg.flatBankId v) hrow,
    fun count hcount => ((hcounted _ row hrow).cached count hcount).1⟩

def validActivation (cfg : DeviceConfig C) (found : Option (Request C)) : Bool :=
  (cfg.activation found).all fun req => decide (cfg.ValidBank req.addrVec ∧
    0 ≤ cfg.rowOf req.addrVec ∧ cfg.rowOf req.addrVec < cfg.numRowsPerBank)

theorem validActivation_spec {found : Option (Request C)} (h : validActivation cfg found = true) :
    ValidActivation cfg found := by
  intro req hreq
  rw [validActivation, hreq, all_some] at h
  exact of_decide_eq_true h

abbrev twoBanks : DeviceConfig DDR5VRR.Command := deviceConfig 1 1 2 1024 64

abbrev fourRowGroups : HydraParams where
  trackingThreshold := 3
  groupThreshold := 1
  rowGroupSize := 4
  rccNumPerRank := 16
  resetPeriodClk := 1000
  vrrReqId := typeVictimRowRefresh

/-- The third activation of row 100 sends the request. -/
theorem third_activation_covered :
    ∃ r, (plugin twoBanks fourRowGroups).machine.Reachable r ∧
      (r.history.map fun o => o.sent.any fun req => req.typeId == typeVictimRowRefresh) =
        [true, false, false] ∧
      twoBanks.actsSinceRefresh typeVictimRowRefresh
        (twoBanks.flatBankId [0, 0, 0, 1, 100, 0]) (100 : ℕ) r.history < 3 := by
  let act : Option (Request DDR5VRR.Command) × HydraChoice :=
    (some (command .ACT [0, 0, 0, 1, 100, 0]), {})
  obtain ⟨r, hr, hsent⟩ := Machine.exists_reachableWhen (m := (plugin twoBanks fourRowGroups).machine)
    (fun _ i => validActivation twoBanks i.1) (fun _ _ => validActivation_spec)
    (P := fun r => (r.history.map fun o => o.sent.any fun req =>
      req.typeId == typeVictimRowRefresh) = [true, false, false])
    [act, act, act] (by decide +kernel) (by decide +kernel)
  have hvalid : HydraValid twoBanks fourRowGroups :=
    ⟨⟨10, by decide⟩, ⟨2, by decide⟩, by decide, ⟨4, by decide⟩, by decide, by decide, by decide,
      by decide⟩
  have hfit : TagsFit twoBanks fourRowGroups := by decide +kernel
  have hrow : DataRow twoBanks fourRowGroups 100 := by decide +kernel
  exact ⟨r, hr.reachable, hsent, (counts_cover_activations _ _ hvalid hfit hr hrow).1⟩

abbrev manyBanks : DeviceConfig DDR5VRR.Command := deviceConfig 1 8 8 (2 ^ 27) 1024

abbrev singleRows : HydraParams where
  trackingThreshold := 2
  groupThreshold := 0
  rowGroupSize := 1
  rccNumPerRank := 16
  resetPeriodClk := 1000
  vrrReqId := typeVictimRowRefresh

/-- **A tag that does not fit.** The bank number is shifted by 27 bits, so that bank 32 has the tag of
bank 0, and an activation in bank 32 clears the cached counter of bank 0. -/
theorem wrapped_tag_loses_activation :
    HydraValid manyBanks singleRows ∧ DataRow manyBanks singleRows 20000 ∧
    ∃ r, (plugin manyBanks singleRows).machine.ReachableWhen (fun _ i => ValidActivation manyBanks i.1) r ∧
      manyBanks.actsSinceRefresh typeVictimRowRefresh
        (manyBanks.flatBankId [0, 0, 0, 0, 20000, 0]) (20000 : ℕ) r.history = 2 ∧
      rccCount manyBanks singleRows r.plugin (manyBanks.flatBankId [0, 0, 0, 0, 20000, 0]) 20000 = some 1 ∧
      rctCount r.plugin (manyBanks.flatBankId [0, 0, 0, 0, 20000, 0]) 20000 = some 2 := by
  let act (bankgroup : ℤ) : Option (Request DDR5VRR.Command) × HydraChoice :=
    (some (command .ACT [0, 0, bankgroup, 0, 20000, 0]), {})
  have hvalid : HydraValid manyBanks singleRows :=
    ⟨⟨27, by decide⟩, ⟨0, by decide⟩, by decide, ⟨4, by decide⟩, by decide, by decide, by decide,
      by decide⟩
  exact ⟨hvalid, by decide +kernel, Machine.exists_reachableWhen (fun _ i => validActivation manyBanks i.1)
    (fun _ _ => validActivation_spec) [act 0, act 4, act 0] (by decide +kernel) (by decide +kernel)⟩

end Hydra

end MultiCoreMemory
