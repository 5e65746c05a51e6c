import MultiCoreMemory.Lib.PairTable
import MultiCoreMemory.Plugin.Interface

/-!
# The row indirection table (`addr_mapper/impl/rit.cpp`)

The address mapper of the row-swap plugins: one hash map a bank sends a row to the row where its data
is now.  The plugins enter and remove pairs.
-/

namespace MultiCoreMemory

open UnorderedMap

variable {C : Type}

structure RitEntry where
  dstRow : ℤ
  lock : Bool
  deriving DecidableEq, Repr

abbrev Rit := UnorderedMap ℤ RitEntry

structure RitMapper where
  numRitEntries : ℕ
  rowIndirectionTable : List Rit

def initRit (numBanks numRitEntries : ℕ) : RitMapper where
  numRitEntries := numRitEntries
  rowIndirectionTable := List.replicate numBanks ∅

namespace Rit

variable (t : Rit) (srcRow : ℤ) (numRitEntries : ℕ)

/-- `check_rit`: `-1` for a row that is not in the table. -/
def checkRit : ℤ :=
  match t.lookup srcRow with
  | some e => e.dstRow
  | none => -1

def isRitFull (t : Rit) : Bool := numRitEntries ≤ t.keys.length

/-- `is_rit_locked`, called for rows of the table only. -/
def isRitLocked : Bool := (t.lookup srcRow).any RitEntry.lock

def ritUnlock : Rit := t.filterMapValues fun _ e => some { e with lock := false }

/-- `rit_insert_entry`: both directions, locked. -/
def ritInsertEntry (t : Rit) (srcRow dstRow : ℤ) : Option Rit :=
  let t' : Rit := (t.insert srcRow ⟨dstRow, true⟩).insert dstRow ⟨srcRow, true⟩
  if numRitEntries < t'.keys.length then none else some t'

def ritRemoveEntry (dstRow : ℤ) : Rit := (t.erase srcRow).erase dstRow

/-- `get_unswap_pair`: the first unlocked entry met with both rows outside the exclusion list. -/
def getUnswapPair (order : List ℤ) (exclusionList : UnorderedMap ℤ ℕ) : Option (ℤ × ℤ) :=
  match t.firstKey order fun row e =>
    !e.lock && (exclusionList.lookup row).isNone && (exclusionList.lookup e.dstRow).isNone with
  | some (some row) => some (row, t.checkRit row)
  | _ => none

/-- The row that `apply_indirection` puts into a request. -/
def indirectRow : ℤ :=
  if t.checkRit srcRow ≠ -1 then t.checkRit srcRow else srcRow

/-! ## Where the data is -/

variable {t t' : Rit} {π : Equiv.Perm ℤ} {a b : ℤ}

/-- The table sends every row to its place under `π`. -/
structure Located (t : Rit) (π : Equiv.Perm ℤ) : Prop where
  paired : UnorderedMap.Paired RitEntry.dstRow t
  nonneg : ∀ {row e}, t.lookup row = some e → 0 ≤ row
  located : ∀ row, redirect RitEntry.dstRow t row = π row

theorem located_empty : Located ∅ 1 where
  paired := paired_empty
  nonneg := by simp
  located := fun _ => redirect_of_lookup_none (AList.lookup_empty _)

section

variable (h : Located t π)
include h

theorem Located.checkRit_eq_neg_one_iff : t.checkRit a = -1 ↔ t.lookup a = none := by
  unfold checkRit
  constructor
  · intro hneg
    split at hneg
    · rename_i e he
      obtain ⟨w, hw, -⟩ := h.paired.back he
      have hnonneg := h.nonneg hw
      omega
    · assumption
  · intro hnone
    rw [hnone]

theorem Located.indirectRow_eq (row : ℤ) : t.indirectRow row = π row := by
  rw [← h.located row]
  unfold indirectRow
  split
  · rename_i hin
    cases hl : t.lookup row with
    | none => exact absurd (h.checkRit_eq_neg_one_iff.mpr hl) hin
    | some e => rw [redirect_of_lookup hl, checkRit, hl]
  · rename_i hout
    rw [redirect_of_lookup_none (h.checkRit_eq_neg_one_iff.mp (not_not.mp hout))]

theorem Located.involutive : Function.Involutive t.indirectRow := by
  intro row
  rw [h.indirectRow_eq, h.indirectRow_eq, ← h.located, ← h.located]
  exact h.paired.involutive row

theorem Located.apply_of_lookup_none (ha : t.lookup a = none) : π a = a := by
  rw [← h.located, redirect_of_lookup_none ha]

theorem Located.unlock : Located t.ritUnlock π where
  paired := h.paired.mapValues fun _ => rfl
  nonneg := by
    intro row e hrow
    rw [ritUnlock, lookup_mapValues] at hrow
    obtain ⟨e₀, he₀, -⟩ := Option.map_eq_some_iff.mp hrow
    exact h.nonneg he₀
  located := by
    intro row
    rw [← h.located row]
    exact redirect_mapValues (f := fun e : RitEntry => { e with lock := false })
      (fun _ => rfl) row

theorem Located.insert {numRitEntries : ℕ} (hab : a ≠ b) (ha : t.lookup a = none)
    (hb : t.lookup b = none) (hapos : 0 ≤ a) (hbpos : 0 ≤ b)
    (hins : t.ritInsertEntry numRitEntries a b = some t') : Located t' (Equiv.swap a b * π) := by
  unfold ritInsertEntry at hins
  dsimp only at hins
  split at hins
  · cases hins
  · cases hins
    refine ⟨h.paired.insert_pair hab ha hb rfl rfl, ?_, ?_⟩
    · intro row e hrow
      rw [lookup_insert_pair hab] at hrow
      split at hrow
      · rename_i heq
        exact heq ▸ hapos
      · split at hrow
        · rename_i heq
          exact heq ▸ hbpos
        · exact h.nonneg hrow
    · intro row
      rw [h.paired.redirect_insert_pair hab ha hb rfl rfl, h.located]
      rfl

theorem Located.remove {e : RitEntry} (ha : t.lookup a = some e) :
    Located (t.ritRemoveEntry a e.dstRow) (Equiv.swap a e.dstRow * π) where
  paired := h.paired.erase_pair ha
  nonneg := by
    intro row e' hrow
    rw [ritRemoveEntry, lookup_erase_pair] at hrow
    split at hrow
    · cases hrow
    · exact h.nonneg hrow
  located := by
    intro row
    rw [ritRemoveEntry, h.paired.redirect_erase_pair ha, h.located]
    rfl

end

theorem getUnswapPair_eq_some {order : List ℤ} {exclusionList : UnorderedMap ℤ ℕ}
    (h : t.getUnswapPair order exclusionList = some (a, b)) :
    ∃ e, t.lookup a = some e ∧ b = e.dstRow := by
  unfold getUnswapPair at h
  split at h
  · rename_i row hfirst
    cases h
    obtain ⟨e, he, -⟩ := firstKey_eq_some hfirst
    refine ⟨e, he, ?_⟩
    rw [checkRit, he]
  · cases h

theorem getUnswapPair_excluded {order : List ℤ} {exclusionList : UnorderedMap ℤ ℕ}
    (h : t.getUnswapPair order exclusionList = some (a, b)) :
    exclusionList.lookup a = none ∧ exclusionList.lookup b = none := by
  unfold getUnswapPair at h
  split at h
  · rename_i row hfirst
    cases h
    obtain ⟨e, he, htest⟩ := firstKey_eq_some hfirst
    simp only [Bool.and_eq_true, Option.isNone_iff_eq_none] at htest
    rw [checkRit, he]
    exact ⟨htest.1.2, htest.2⟩
  · cases h

end Rit

/-- `apply_indirection`; there is no table before `init_rit`. -/
def applyIndirection (cfg : DeviceConfig C) (mapper : Option RitMapper) (req : Request C) :
    Option (Request C) :=
  match mapper with
  | none => some req
  | some m =>
    match atBank m.rowIndirectionTable (cfg.flatBankId req.addrVec) with
    | none => none
    | some t =>
      let dstRow := t.checkRit (cfg.rowOf req.addrVec)
      if dstRow ≠ -1 then some { req with addrVec := req.addrVec.set cfg.rowLevel dstRow }
      else some req

theorem AddrVec.set_level (v : AddrVec) (i : ℕ) : v.set i (v.level i) = v := by
  by_cases h : i < v.length
  · simp [level, List.getD, h]
  · rw [List.set_eq_of_length_le (not_lt.mp h)]

section

variable {cfg : DeviceConfig C} {m : RitMapper} {req : Request C} {t : Rit}

theorem DeviceConfig.flatBankId_set_row (cfg : DeviceConfig C) (v : AddrVec) (row : ℤ) :
    cfg.flatBankId (v.set cfg.rowLevel row) = cfg.flatBankId v := by
  have hother (i : ℕ) (hi : i ≤ cfg.bankLevel) : AddrVec.level (v.set cfg.rowLevel row) i = v.level i :=
    AddrVec.level_set_ne (Nat.ne_of_gt (Nat.lt_succ_of_le hi))
  have hgroup : cfg.hasBankgroup → cfg.bankgroupLevel ≤ cfg.bankLevel := by
    intro h
    simp [bankgroupLevel, bankLevel, h]
  rw [flatBankId_eq, flatBankId_eq, bankInRank, bankInRank, hother _ (Nat.le_add_right ..),
    hother _ (le_refl _)]
  split
  · rename_i h
    rw [hother _ (hgroup h)]
  · rfl

theorem applyIndirection_eq (ht : atBank m.rowIndirectionTable (cfg.flatBankId req.addrVec) = some t) :
    applyIndirection cfg (some m) req = some { req with
      addrVec := req.addrVec.set cfg.rowLevel (t.indirectRow (cfg.rowOf req.addrVec)) } := by
  simp only [applyIndirection, ht]
  unfold Rit.indirectRow
  split
  · rfl
  · rw [DeviceConfig.rowOf, AddrVec.set_level]

/-- A table of pairs takes back what it has done. -/
theorem applyIndirection_twice {π : Equiv.Perm ℤ} {req' : Request C}
    (ht : atBank m.rowIndirectionTable (cfg.flatBankId req.addrVec) = some t) (hπ : t.Located π)
    (h : applyIndirection cfg (some m) req = some req') :
    applyIndirection cfg (some m) req' = some req := by
  rw [applyIndirection_eq ht] at h
  have hback (v : AddrVec) : (v.set cfg.rowLevel (t.indirectRow (cfg.rowOf v))).set cfg.rowLevel
      (t.indirectRow (cfg.rowOf (v.set cfg.rowLevel (t.indirectRow (cfg.rowOf v))))) = v := by
    by_cases hlong : cfg.rowLevel < v.length
    · simp only [DeviceConfig.rowOf, AddrVec.level_set_self hlong, List.set_set, hπ.involutive _,
        AddrVec.set_level]
    · simp only [List.set_eq_of_length_le (not_lt.mp hlong)]
  obtain rfl := Option.some.inj h
  rw [applyIndirection_eq (t := t) (by rw [DeviceConfig.flatBankId_set_row, ht])]
  exact congrArg (fun v => some { req with addrVec := v }) (hback req.addrVec)

end

end MultiCoreMemory
