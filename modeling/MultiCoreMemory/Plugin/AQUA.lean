import MultiCoreMemory.AddrMapper.RowIndirection
import MultiCoreMemory.Dram.DDR5VRR
import MultiCoreMemory.Lib.SpillTable

/-!
# AQUA (`plugin/aqua.cpp`)

The first `Q` rows of a bank are quarantine slots.  An aggressor row moves to the slot at the head of
the quarantine area, which is one head for all banks; the row indirection table sends the row to its
slot and back, the reverse pointer table names the row that a slot holds.
-/

namespace MultiCoreMemory

open Option UnorderedMap

variable {C : Type}

structure AQUAParams where
  numArtEntries : ℕ
  numFptEntries : ℕ
  numQrowsPerBank : ℕ
  artThreshold : ℕ
  resetPeriodClk : ℤ
  readReqId : ℕ := typeRead
  writeReqId : ℕ := typeWrite

structure AQUA where
  clk : ℤ := 0
  rqaHead : ℤ := 0
  /-- `m_aggressor_row_tracker` and `m_spillover_counter`. -/
  aggressorRowTracker : List (SpillTable ℤ)
  reversePointerTable : List (UnorderedMap ℤ ℤ)
  addrMapper : RitMapper

/-- What an update leaves open: the order of the tracker's entries and the answers of
`priority_send`. -/
structure AQUAChoice where
  order : List ℤ := []
  accepted : Bool := true

namespace AQUA

variable (cfg : DeviceConfig C) (p : AQUAParams) (s : AQUA)

def setup : AQUA where
  aggressorRowTracker := List.replicate (cfg.numRanks * cfg.numBanksPerRank) {}
  reversePointerTable := List.replicate (cfg.numRanks * cfg.numBanksPerRank) ∅
  addrMapper := initRit (cfg.numRanks * cfg.numBanksPerRank) (p.numFptEntries * 2)

structure BankTables where
  rpt : UnorderedMap ℤ ℤ
  rit : Rit

def BankTables.evict (b : BankTables) (slot orgRow : ℤ) : BankTables where
  rpt := b.rpt.erase slot
  rit := b.rit.ritRemoveEntry slot orgRow

def evictHead (head : ℤ) (b : BankTables) : BankTables × List (ℤ × ℤ) :=
  match b.rpt.lookup head with
  | some prevOrgRow => (b.evict head prevOrgRow, [(head, prevOrgRow)])
  | none => (b, [])

/-- The tables of a bank when a row is quarantined, with the migrations as they are issued. The pointer
of an empty slot is read as 0. -/
def quarantine (numRitEntries numQrows : ℕ) (head row : ℤ) (b : BankTables) :
    Option (BankTables × List (ℤ × ℤ)) :=
  match evictHead head b with
  | (b, migrations) =>
    if row < numQrows then
      let (orgRow, rpt) := b.rpt.subscript row 0
      let b := BankTables.evict { b with rpt := rpt } row orgRow
      (b.rit.ritInsertEntry numRitEntries head orgRow).map fun rit =>
        ({ rpt := b.rpt.insert head orgRow, rit := rit }, migrations ++ [(row, head)])
    else
      (b.rit.ritInsertEntry numRitEntries row head).map fun rit =>
        ({ rpt := b.rpt.insert head row, rit := rit }, migrations ++ [(row, head)])

def issueMigration (addrVec : AddrVec) (move : ℤ × ℤ) : List (Request C) :=
  cfg.rowRequests addrVec move.1 p.readReqId ++ cfg.rowRequests addrVec move.2 p.writeReqId

def resets : Bool := (s.clk + 1) % p.resetPeriodClk == 0

def resetTrackers : List (SpillTable ℤ) :=
  if s.resets p then s.aggressorRowTracker.map fun _ => {} else s.aggressorRowTracker

def update (found : Option (Request C)) (c : AQUAChoice) : Option (AQUA × List (Request C)) :=
  let s := { s with clk := s.clk + 1, aggressorRowTracker := s.resetTrackers p }
  match cfg.activation found with
  | none => some (s, [])
  | some req => do
    let bank := cfg.flatBankId req.addrVec
    let row := cfg.rowOf req.addrVec
    let tracker ← atBank s.aggressorRowTracker bank
    let rpt ← atBank s.reversePointerTable bank
    let rit ← atBank s.addrMapper.rowIndirectionTable bank
    let (tracker, counted) ← tracker.track p.numArtEntries c.order row
    let s := { s with aggressorRowTracker := setBank s.aggressorRowTracker bank tracker }
    match counted with
    | none => some (s, [])
    | some count =>
      if p.artThreshold = 0 then none
      else if count % p.artThreshold = 0 then do
        let (b, migrations) ←
          quarantine s.addrMapper.numRitEntries p.numQrowsPerBank s.rqaHead row ⟨rpt, rit⟩
        -- the next head is taken modulo the number of slots
        if p.numQrowsPerBank = 0 ∨ c.accepted = false then none
        else
          some ({ s with
              rqaHead := (s.rqaHead + 1) % p.numQrowsPerBank
              reversePointerTable := setBank s.reversePointerTable bank b.rpt
              addrMapper :=
                { s.addrMapper with
                  rowIndirectionTable := setBank s.addrMapper.rowIndirectionTable bank b.rit } },
            migrations.flatMap (issueMigration cfg p req.addrVec))
      else some (s, [])

def plugin : ControllerPlugin C AQUA AQUAChoice where
  init := setup cfg p
  update := update cfg p
  resets := resets p

/-! ## The two tables of a bank -/

def MapsTo (rit : Rit) (row row' : ℤ) : Prop := (rit.lookup row).map RitEntry.dstRow = some row'

/-- A slot holds a row exactly when the row is sent to the slot and back, no two slots hold one row, and
every indirection is that of an occupied slot. -/
structure TablesAgree (numQrows : ℕ) (b : BankTables) : Prop where
  slot : ∀ q r, b.rpt.lookup q = some r ↔
    MapsTo b.rit r q ∧ MapsTo b.rit q r ∧ q < numQrows ∧ (numQrows : ℤ) ≤ r
  distinct : ∀ q q' r, b.rpt.lookup q = some r → b.rpt.lookup q' = some r → q = q'
  occupied : ∀ row row', MapsTo b.rit row row' →
    b.rpt.lookup row = some row' ∨ b.rpt.lookup row' = some row

variable {cfg : DeviceConfig C} {p : AQUAParams} {s s' : AQUA} {numQrows numRitEntries : ℕ}
  {b b' : BankTables} {q r head row : ℤ} {migrations : List (ℤ × ℤ)}

/-- It is enough that slots are entered and left in both tables together. -/
theorem tablesAgree_of (hslot : ∀ q r, b.rpt.lookup q = some r →
      MapsTo b.rit r q ∧ MapsTo b.rit q r ∧ q < numQrows ∧ (numQrows : ℤ) ≤ r)
    (hoccupied : ∀ row row', MapsTo b.rit row row' →
      b.rpt.lookup row = some row' ∨ b.rpt.lookup row' = some row) :
    TablesAgree numQrows b where
  slot := by
    intro q r
    refine ⟨hslot q r, ?_⟩
    rintro ⟨-, hback, hq, hr⟩
    rcases hoccupied q r hback with hheld | hheld
    · exact hheld
    · -- a row outside the area is no slot
      have hlt := (hslot r q hheld).2.2.1
      omega
  distinct := by
    intro q q' r hq hq'
    have hmap := (hslot q r hq).1
    have hmap' := (hslot q' r hq').1
    exact some.inj (hmap.symm.trans hmap')
  occupied := hoccupied

theorem tablesAgree_empty (numQrows : ℕ) : TablesAgree numQrows ⟨∅, ∅⟩ :=
  tablesAgree_of (by simp) (by simp [MapsTo])

theorem TablesAgree.evict (hb : TablesAgree numQrows b) (hq : b.rpt.lookup q = some r) :
    TablesAgree numQrows (b.evict q r) := by
  obtain ⟨hrq, hqr, hlow, hhigh⟩ := (hb.slot q r).mp hq
  -- what is left of the two tables
  have hmaps : ∀ row row', MapsTo (b.evict q r).rit row row' ↔
      row ≠ q ∧ row ≠ r ∧ MapsTo b.rit row row' := by
    intro row row'
    unfold MapsTo BankTables.evict Rit.ritRemoveEntry
    rw [lookup_erase_pair]
    by_cases h : row = q ∨ row = r
    · rw [if_pos h]
      simp only [map_none, reduceCtorEq, false_iff]
      tauto
    · rw [if_neg h]
      tauto
  have hrpt : ∀ q' r', (b.evict q r).rpt.lookup q' = some r' ↔ q' ≠ q ∧ b.rpt.lookup q' = some r' :=
    fun q' r' => lookup_erase_iff
  apply tablesAgree_of
  · intro q' r' hq'
    obtain ⟨hne, hheld⟩ := (hrpt q' r').mp hq'
    obtain ⟨hmap, hback, hlow', hhigh'⟩ := (hb.slot q' r').mp hheld
    have hner : r' ≠ r := fun heq => hne (hb.distinct q' q r (heq ▸ hheld) hq)
    exact ⟨(hmaps r' q').mpr ⟨by omega, hner, hmap⟩, (hmaps q' r').mpr ⟨hne, by omega, hback⟩, hlow',
      hhigh'⟩
  · intro row row' hmap
    obtain ⟨hne, hner, hmap⟩ := (hmaps row row').mp hmap
    rcases hb.occupied row row' hmap with hheld | hheld
    · exact .inl ((hrpt row row').mpr ⟨hne, hheld⟩)
    · refine .inr ((hrpt row' row).mpr ⟨?_, hheld⟩)
      rintro rfl
      rw [hq] at hheld
      exact hner (some.inj hheld).symm

theorem TablesAgree.occupy (hb : TablesAgree numQrows b) {rit : Rit}
    (hrit : ∀ row row', MapsTo rit row row' ↔
      (row = q ∧ row' = r) ∨ (row = r ∧ row' = q) ∨ (row ≠ q ∧ row ≠ r ∧ MapsTo b.rit row row'))
    (hlow : q < numQrows) (hhigh : (numQrows : ℤ) ≤ r) (hfree : b.rpt.lookup q = none)
    (hheld : ∀ q', b.rpt.lookup q' ≠ some r) :
    TablesAgree numQrows { rpt := b.rpt.insert q r, rit := rit } := by
  apply tablesAgree_of
  · intro q' r' hq'
    rcases lookup_insert_iff.mp hq' with ⟨rfl, rfl⟩ | ⟨hne, hold⟩
    · exact ⟨(hrit _ _).mpr (.inr (.inl ⟨rfl, rfl⟩)), (hrit _ _).mpr (.inl ⟨rfl, rfl⟩), hlow, hhigh⟩
    · obtain ⟨hmap, hback, hlow', hhigh'⟩ := (hb.slot q' r').mp hold
      have hner : r' ≠ r := fun heq => hheld q' (heq ▸ hold)
      exact ⟨(hrit r' q').mpr (.inr (.inr ⟨by omega, hner, hmap⟩)),
        (hrit q' r').mpr (.inr (.inr ⟨hne, by omega, hback⟩)), hlow', hhigh'⟩
  · intro row row' hmap
    rcases (hrit row row').mp hmap with ⟨rfl, rfl⟩ | ⟨rfl, rfl⟩ | ⟨hne, hner, hmap⟩
    · exact .inl (lookup_insert_iff.mpr (.inl ⟨rfl, rfl⟩))
    · exact .inr (lookup_insert_iff.mpr (.inl ⟨rfl, rfl⟩))
    · rcases hb.occupied row row' hmap with hold | hold
      · exact .inl (lookup_insert_iff.mpr (.inr ⟨hne, hold⟩))
      · refine .inr (lookup_insert_iff.mpr (.inr ⟨?_, hold⟩))
        rintro rfl
        rw [hfree] at hold
        cases hold

theorem mapsTo_ritInsertEntry {rit rit' : Rit} {x y : ℤ} (hxy : x ≠ y)
    (h : rit.ritInsertEntry numRitEntries x y = some rit') (row row' : ℤ) :
    MapsTo rit' row row' ↔
      (row = x ∧ row' = y) ∨ (row = y ∧ row' = x) ∨ (row ≠ x ∧ row ≠ y ∧ MapsTo rit row row') := by
  unfold Rit.ritInsertEntry at h
  dsimp only at h
  split at h
  · cases h
  · cases h
    unfold MapsTo
    rw [lookup_insert_pair hxy]
    by_cases hx : row = x
    · subst hx
      simp [hxy, eq_comm]
    · by_cases hy : row = y
      · subst hy
        simp [hx, eq_comm]
      · simp [hx, hy]

/-! ## Quarantining a row -/

/-- A hammered slot is occupied and not the head, and a hammered row outside the area is held by no slot
other than the head, which is evicted first. -/
def Regular (numQrows : ℕ) (head row : ℤ) (b : BankTables) : Prop :=
  if row < numQrows then row ≠ head ∧ b.rpt.lookup row ≠ none
  else ∀ q, b.rpt.lookup q = some row → q = head

theorem evictHead_spec (numQrows : ℕ) {b₁ : BankTables} (h : evictHead head b = (b₁, migrations)) :
    (TablesAgree numQrows b → TablesAgree numQrows b₁) ∧ b₁.rpt.lookup head = none ∧
      ∀ q, q ≠ head → b₁.rpt.lookup q = b.rpt.lookup q := by
  unfold evictHead at h
  split at h
  · rename_i prevOrgRow hhead
    cases h
    exact ⟨fun hb => hb.evict hhead, AList.lookup_erase _ _, fun q hq => AList.lookup_erase_ne hq⟩
  · rename_i hhead
    cases h
    exact ⟨id, hhead, fun _ _ => rfl⟩

theorem TablesAgree.quarantine (hb : TablesAgree numQrows b) (hhead : head < numQrows)
    (hregular : Regular numQrows head row b)
    (h : AQUA.quarantine numRitEntries numQrows head row b = some (b', migrations)) :
    TablesAgree numQrows b' := by
  unfold AQUA.quarantine at h
  obtain ⟨⟨b₁, evictions⟩, hevict⟩ : ∃ o, evictHead head b = o := ⟨_, rfl⟩
  obtain ⟨hagree, hfree, hothers⟩ := evictHead_spec numQrows hevict
  have hb₁ := hagree hb
  rw [hevict] at h
  unfold Regular at hregular
  dsimp only at h
  split at h
  · -- a row in quarantine moves on to the head
    rename_i hslot
    rw [if_pos hslot] at hregular
    obtain ⟨orgRow, horg⟩ := ne_none_iff_exists'.mp hregular.2
    rw [← hothers row hregular.1] at horg
    rw [subscript_of_lookup horg] at h
    obtain ⟨rit, hins, heq⟩ := map_eq_some_iff.mp h
    cases heq
    have hhigh := ((hb₁.slot row orgRow).mp horg).2.2.2
    refine (hb₁.evict horg).occupy (mapsTo_ritInsertEntry (by omega) hins) hhead hhigh ?_ ?_
    · exact (AList.lookup_erase_ne (Ne.symm hregular.1)).trans hfree
    · intro q' hq'
      obtain ⟨hne, hheld⟩ := lookup_erase_iff.mp hq'
      exact hne (hb₁.distinct q' row orgRow hheld horg)
  · -- a row outside the area
    rename_i hslot
    rw [if_neg hslot] at hregular
    obtain ⟨rit, hins, heq⟩ := map_eq_some_iff.mp h
    cases heq
    refine hb₁.occupy (q := head) (r := row) ?_ hhead (by omega) hfree ?_
    · intro x y
      rw [mapsTo_ritInsertEntry (by omega) hins]
      tauto
    · intro q' hq'
      have hne : q' ≠ head := fun heq => by
        rw [heq, hfree] at hq'
        cases hq'
      rw [hothers q' hne] at hq'
      exact hne (hregular q' hq')

/-- Row 0 is entered for a slot that held nothing, or a second slot for one row. -/
theorem not_tablesAgree_quarantine (hlow : 0 ≤ head) (hhead : head < numQrows)
    (hirregular : ¬ Regular numQrows head row b)
    (h : quarantine numRitEntries numQrows head row b = some (b', migrations)) :
    ¬ TablesAgree numQrows b' := by
  unfold quarantine at h
  obtain ⟨⟨b₁, evictions⟩, hevict⟩ : ∃ o, evictHead head b = o := ⟨_, rfl⟩
  obtain ⟨-, hfree, hothers⟩ := evictHead_spec numQrows hevict
  rw [hevict] at h
  unfold Regular at hirregular
  dsimp only at h
  split at h
  · rename_i hslot
    rw [if_pos hslot] at hirregular
    have hempty : b₁.rpt.lookup row = none := by
      by_cases heq : row = head
      · rw [heq, hfree]
      · rw [hothers row heq]
        by_contra hne
        exact hirregular ⟨heq, hne⟩
    have hzero : (b₁.rpt.subscript row 0).1 = 0 := by
      rw [subscript_fst, hempty]
      rfl
    rw [hzero] at h
    obtain ⟨rit, -, heq⟩ := map_eq_some_iff.mp h
    cases heq
    intro hagree
    have hhigh := ((hagree.slot head 0).mp (AList.lookup_insert _)).2.2.2
    omega
  · rename_i hslot
    rw [if_neg hslot] at hirregular
    obtain ⟨rit, -, heq⟩ := map_eq_some_iff.mp h
    cases heq
    intro hagree
    apply hirregular
    intro q hq
    by_contra hne
    rw [← hothers q hne] at hq
    have hsecond : (b₁.rpt.insert head row).lookup q = some row :=
      (AList.lookup_insert_ne hne).trans hq
    exact hne (hagree.distinct q head row hsecond (AList.lookup_insert _))

/-! ## Whole runs -/

/-- The update quarantines a row that is not where the tables say it is. -/
def QuarantinesIrregular (cfg : DeviceConfig C) (p : AQUAParams) (s : AQUA)
    (found : Option (Request C)) : Prop :=
  ∃ req tracker rpt rit count, cfg.activation found = some req ∧
    atBank (s.resetTrackers p) (cfg.flatBankId req.addrVec) = some tracker ∧
    atBank s.reversePointerTable (cfg.flatBankId req.addrVec) = some rpt ∧
    atBank s.addrMapper.rowIndirectionTable (cfg.flatBankId req.addrVec) = some rit ∧
    tracker.nextCount p.numArtEntries (cfg.rowOf req.addrVec) = some count ∧
    count % p.artThreshold = 0 ∧
    ¬ Regular p.numQrowsPerBank s.rqaHead (cfg.rowOf req.addrVec) ⟨rpt, rit⟩

structure Agreeing (p : AQUAParams) (s : AQUA) : Prop where
  head : 0 ≤ s.rqaHead ∧ (0 < p.numQrowsPerBank → s.rqaHead < p.numQrowsPerBank)
  tables : ∀ bank rpt rit, atBank s.reversePointerTable bank = some rpt →
    atBank s.addrMapper.rowIndirectionTable bank = some rit → TablesAgree p.numQrowsPerBank ⟨rpt, rit⟩

theorem agreeing_setup (cfg : DeviceConfig C) (p : AQUAParams) : Agreeing p (setup cfg p) where
  head := ⟨le_rfl, fun h => Int.natCast_pos.mpr h⟩
  tables := by
    intro bank rpt rit hrpt hrit
    rw [List.eq_of_mem_replicate (mem_of_atBank hrpt), List.eq_of_mem_replicate (mem_of_atBank hrit)]
    exact tablesAgree_empty _

variable {found : Option (Request C)} {c : AQUAChoice} {sent : List (Request C)}

/-- What an update does to the tables: nothing, or one quarantine. -/
theorem update_cases (h : s.update cfg p found c = some (s', sent)) :
    (s'.rqaHead = s.rqaHead ∧ s'.reversePointerTable = s.reversePointerTable ∧
      s'.addrMapper = s.addrMapper ∧ ¬ QuarantinesIrregular cfg p s found) ∨
    ∃ req tracker rpt rit b migrations count, cfg.activation found = some req ∧
      atBank (s.resetTrackers p) (cfg.flatBankId req.addrVec) = some tracker ∧
      atBank s.reversePointerTable (cfg.flatBankId req.addrVec) = some rpt ∧
      atBank s.addrMapper.rowIndirectionTable (cfg.flatBankId req.addrVec) = some rit ∧
      tracker.nextCount p.numArtEntries (cfg.rowOf req.addrVec) = some count ∧
      count % p.artThreshold = 0 ∧
      quarantine s.addrMapper.numRitEntries p.numQrowsPerBank s.rqaHead (cfg.rowOf req.addrVec)
        ⟨rpt, rit⟩ = some (b, migrations) ∧ 0 < p.numQrowsPerBank ∧
      s'.rqaHead = (s.rqaHead + 1) % p.numQrowsPerBank ∧
      s'.reversePointerTable =
        setBank s.reversePointerTable (cfg.flatBankId req.addrVec) b.rpt ∧
      s'.addrMapper.rowIndirectionTable =
        setBank s.addrMapper.rowIndirectionTable (cfg.flatBankId req.addrVec) b.rit := by
  unfold AQUA.update at h
  dsimp only at h
  split at h
  · rename_i hnone
    cases h
    refine .inl ⟨rfl, rfl, rfl, ?_⟩
    rintro ⟨req, -, -, -, -, hreq, -⟩
    rw [hnone] at hreq
    cases hreq
  · rename_i req hreq
    simp only [bind_eq_bind, bind_eq_some_iff, Prod.exists] at h
    obtain ⟨tracker, htracker, rpt, hrpt, rit, hrit, tracker', counted, htrack, h⟩ := h
    rw [SpillTable.track_eq_nextCount htrack] at h
    -- a counter that is no multiple of the threshold quarantines nothing
    have hnot : (∀ count, tracker.nextCount p.numArtEntries (cfg.rowOf req.addrVec) = some count →
        count % p.artThreshold ≠ 0) → ¬ QuarantinesIrregular cfg p s found := by
      rintro hall ⟨req', tracker₁, -, -, count, hreq', htracker₁, -, -, hcount, hmult, -⟩
      obtain rfl := some.inj (hreq.symm.trans hreq')
      obtain rfl := some.inj (htracker.symm.trans htracker₁)
      exact hall count hcount hmult
    split at h
    · rename_i hcount
      cases h
      refine .inl ⟨rfl, rfl, rfl, hnot ?_⟩
      intro count hcount'
      rw [hcount] at hcount'
      cases hcount'
    · rename_i count hcount
      split at h
      · cases h
      split at h
      · rename_i hmult
        simp only [bind_eq_some_iff, Prod.exists] at h
        obtain ⟨b, migrations, hquarantine, h⟩ := h
        split at h
        · cases h
        · rename_i hok
          cases h
          exact .inr ⟨req, tracker, rpt, rit, b, migrations, count, hreq, htracker, hrpt, hrit, hcount,
            hmult, hquarantine, by omega, rfl, rfl, rfl⟩
      · rename_i hmult
        cases h
        refine .inl ⟨rfl, rfl, rfl, hnot ?_⟩
        intro count' hcount'
        rw [hcount] at hcount'
        rwa [← some.inj hcount']

/-- **One update** that quarantines only regular rows. -/
theorem Agreeing.update (hs : Agreeing p s) (hregular : ¬ QuarantinesIrregular cfg p s found)
    (h : s.update cfg p found c = some (s', sent)) : Agreeing p s' := by
  rcases update_cases h with ⟨hhead, hrpt, hmapper, -⟩ |
    ⟨req, tracker, rpt, rit, b, migrations, count, hreq, htracker, hrpt, hrit, hcount, hmult,
      hquarantine, hpos, hhead, hrpt', hrit'⟩
  · refine ⟨hhead ▸ hs.head, ?_⟩
    rw [hrpt, hmapper]
    exact hs.tables
  · have hagree : TablesAgree p.numQrowsPerBank b := by
      refine (hs.tables _ rpt rit hrpt hrit).quarantine (hs.head.2 hpos) ?_ hquarantine
      by_contra hirregular
      exact hregular ⟨req, tracker, rpt, rit, count, hreq, htracker, hrpt, hrit, hcount, hmult,
        hirregular⟩
    refine ⟨?_, ?_⟩
    · rw [hhead]
      have hpos' : (0 : ℤ) < p.numQrowsPerBank := by exact_mod_cast hpos
      exact ⟨Int.emod_nonneg _ (by omega), fun _ => Int.emod_lt_of_pos _ hpos'⟩
    · intro bank rpt₁ rit₁ hrpt₁ hrit₁
      rw [hrpt', atBank_setBank hrpt] at hrpt₁
      rw [hrit', atBank_setBank hrit] at hrit₁
      by_cases hbank : bank = cfg.flatBankId req.addrVec
      · rw [if_pos hbank] at hrpt₁ hrit₁
        cases hrpt₁
        cases hrit₁
        exact hagree
      · rw [if_neg hbank] at hrpt₁ hrit₁
        exact hs.tables bank rpt₁ rit₁ hrpt₁ hrit₁

theorem Agreeing.update_irregular (hs : Agreeing p s)
    (hirregular : QuarantinesIrregular cfg p s found) (h : s.update cfg p found c = some (s', sent)) :
    ∃ bank rpt rit, atBank s'.reversePointerTable bank = some rpt ∧
      atBank s'.addrMapper.rowIndirectionTable bank = some rit ∧
      ¬ TablesAgree p.numQrowsPerBank ⟨rpt, rit⟩ := by
  rcases update_cases h with ⟨-, -, -, hregular⟩ |
    ⟨req, tracker, rpt, rit, b, migrations, count, hreq, htracker, hrpt, hrit, hcount, hmult,
      hquarantine, hpos, hhead, hrpt', hrit'⟩
  · exact absurd hirregular hregular
  · obtain ⟨req₁, tracker₁, rpt₁, rit₁, count₁, hreq₁, htracker₁, hrpt₁, hrit₁, -, -, hnot⟩ := hirregular
    obtain rfl := some.inj (hreq.symm.trans hreq₁)
    obtain rfl := some.inj (hrpt.symm.trans hrpt₁)
    obtain rfl := some.inj (hrit.symm.trans hrit₁)
    refine ⟨cfg.flatBankId req.addrVec, b.rpt, b.rit, ?_, ?_, ?_⟩
    · rw [hrpt', atBank_setBank hrpt, if_pos rfl]
    · rw [hrit', atBank_setBank hrit, if_pos rfl]
    · exact not_tablesAgree_quarantine hs.head.1 (hs.head.2 hpos) hnot hquarantine

/-- **Forward and reverse pointers** agree as long as every quarantined row is where the tables say it
is; the first update that quarantines another row makes the tables of its bank disagree. -/
theorem tables_agree_in_regular_runs (cfg : DeviceConfig C) (p : AQUAParams) {r : PluginRun C AQUA}
    (h : (plugin cfg p).machine.ReachableWhen
      (fun r i => ¬ QuarantinesIrregular cfg p r.plugin i.1) r) :
    (∀ bank rpt rit, atBank r.plugin.reversePointerTable bank = some rpt →
      atBank r.plugin.addrMapper.rowIndirectionTable bank = some rit →
      TablesAgree p.numQrowsPerBank ⟨rpt, rit⟩) ∧
    ∀ i r', QuarantinesIrregular cfg p r.plugin i.1 → (plugin cfg p).machine.step r i = some r' →
      ∃ bank rpt rit, atBank r'.plugin.reversePointerTable bank = some rpt ∧
        atBank r'.plugin.addrMapper.rowIndirectionTable bank = some rit ∧
        ¬ TablesAgree p.numQrowsPerBank ⟨rpt, rit⟩ := by
  have hagreeing : Agreeing p r.plugin :=
    ControllerPlugin.invariant (P := plugin cfg p) (I := fun s _ => Agreeing p s)
      (agreeing_setup cfg p) (fun _ _ _ _ _ hs hok hupdate => Agreeing.update hs hok hupdate) h
  refine ⟨hagreeing.tables, ?_⟩
  intro i r' hirregular hstep
  obtain ⟨sent, hupdate, -⟩ := ControllerPlugin.step_eq_some hstep
  exact hagreeing.update_irregular hirregular hupdate

/-- The activated row is an occupied slot other than the head, or a row that no slot holds. -/
def activatesRegular (cfg : DeviceConfig C) (p : AQUAParams) (s : AQUA) (found : Option (Request C)) :
    Bool :=
  (cfg.activation found).all fun req =>
    (atBank s.reversePointerTable (cfg.flatBankId req.addrVec)).all fun rpt =>
      if cfg.rowOf req.addrVec < p.numQrowsPerBank then
        decide (cfg.rowOf req.addrVec ≠ s.rqaHead) && (rpt.lookup (cfg.rowOf req.addrVec)).isSome
      else decide (cfg.rowOf req.addrVec ∉ rpt.values)

theorem not_quarantinesIrregular_of_activatesRegular (h : activatesRegular cfg p s found = true) :
    ¬ QuarantinesIrregular cfg p s found := by
  rintro ⟨req, tracker, rpt, rit, count, hreq, -, hrpt, -, -, -, hirregular⟩
  apply hirregular
  unfold activatesRegular at h
  rw [hreq, all_some, hrpt, all_some] at h
  unfold Regular
  split at h
  · rename_i hslot
    rw [if_pos hslot]
    simp only [Bool.and_eq_true, decide_eq_true_eq] at h
    exact ⟨h.1, isSome_iff_ne_none.mp h.2⟩
  · rename_i hslot
    rw [if_neg hslot]
    intro q hq
    exact absurd (mem_values_iff.mpr ⟨q, hq⟩) (of_decide_eq_true h)

abbrev twoSlots : AQUAParams where
  numArtEntries := 4
  numFptEntries := 4
  numQrowsPerBank := 2
  artThreshold := 1
  resetPeriodClk := 1000

def act (row : ℤ) : Option (Request DDR5VRR.Command) × AQUAChoice := (some (DDR5VRR.activateRow row), {})

/-- Row 5 is quarantined in slot 0 and hammered there, which moves it to slot 1. -/
theorem tables_agree_after_second_quarantine :
    ∃ r rpt rit, (plugin DDR5VRR.oneBank twoSlots).machine.Reachable r ∧
      atBank r.plugin.reversePointerTable 0 = some rpt ∧
      atBank r.plugin.addrMapper.rowIndirectionTable 0 = some rit ∧ rpt.lookup 1 = some 5 ∧
      TablesAgree 2 ⟨rpt, rit⟩ := by
  obtain ⟨r, hr, hslot, hsome⟩ := Machine.exists_reachableWhen
    (m := (plugin DDR5VRR.oneBank twoSlots).machine)
    (fun r i => activatesRegular DDR5VRR.oneBank twoSlots r.plugin i.1)
    (fun _ _ => not_quarantinesIrregular_of_activatesRegular)
    (P := fun r => (atBank r.plugin.reversePointerTable 0).map (fun rpt => rpt.lookup 1) = some (some 5) ∧
      (atBank r.plugin.addrMapper.rowIndirectionTable 0).isSome)
    [act 5, act 0] (by decide +kernel) (by decide +kernel)
  obtain ⟨rpt, hrpt, hrow⟩ := map_eq_some_iff.mp hslot
  obtain ⟨rit, hrit⟩ := isSome_iff_exists.mp hsome
  exact ⟨r, rpt, rit, hr.reachable, hrpt, hrit, hrow,
    (tables_agree_in_regular_runs _ _ hr).1 0 rpt rit hrpt hrit⟩

/-- **The slot at the head is hammered**, once rows 5 and 7 fill both slots: its row is evicted before
its pointer is read, and the slot is left with row 0, a row of the quarantine area. -/
theorem hammered_head_breaks_tables :
    ∃ r rpt rit, (plugin DDR5VRR.oneBank twoSlots).machine.Reachable r ∧
      atBank r.plugin.reversePointerTable 0 = some rpt ∧
      atBank r.plugin.addrMapper.rowIndirectionTable 0 = some rit ∧ rpt.lookup 0 = some 0 ∧
      ¬ TablesAgree 2 ⟨rpt, rit⟩ := by
  obtain ⟨r, hr, hslot, hsome⟩ := Machine.exists_reachable (m := (plugin DDR5VRR.oneBank twoSlots).machine)
    (P := fun r => (atBank r.plugin.reversePointerTable 0).map (fun rpt => rpt.lookup 0) = some (some 0) ∧
      (atBank r.plugin.addrMapper.rowIndirectionTable 0).isSome)
    [act 5, act 7, act 0] (by decide +kernel)
  obtain ⟨rpt, hrpt, hrow⟩ := map_eq_some_iff.mp hslot
  obtain ⟨rit, hrit⟩ := isSome_iff_exists.mp hsome
  refine ⟨r, rpt, rit, hr, hrpt, hrit, hrow, ?_⟩
  intro hagree
  have hhigh := ((hagree.slot 0 0).mp hrow).2.2.2
  omega

end AQUA

end MultiCoreMemory
