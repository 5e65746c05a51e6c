import MultiCoreMemory.Dram.Node
import MultiCoreMemory.Lib.Machine
import Mathlib.Tactic.Linarith
import Mathlib.Tactic.Ring

/-!
# Controller plugins (`dram_controller/plugin.h`, `plugin/device_config/`)

A plugin is told in every cycle which request the controller serves, if it serves one, and may send
requests of its own with `priority_send`.

An index outside a table, undefined in the source, ends the run.
-/

namespace MultiCoreMemory

open List

variable {C σ ι : Type}

/-! ## The device -/

/-- `DeviceConfig`.  The levels of a device stand in the order rank, bank group (if it has that
level), bank, row, column. -/
structure DeviceConfig (C : Type) where
  commandMeta : C → CommandMeta
  commandScopes : C → ℕ
  rankLevel : ℕ := 1
  hasBankgroup : Bool := true
  count : ℕ → ℕ

namespace DeviceConfig

variable (cfg : DeviceConfig C)

def bankgroupLevel : ℕ := cfg.rankLevel + 1

def bankLevel : ℕ := cfg.rankLevel + if cfg.hasBankgroup then 2 else 1

def rowLevel : ℕ := cfg.bankLevel + 1

def colLevel : ℕ := cfg.bankLevel + 2

def numRanks : ℕ := cfg.count cfg.rankLevel

def numBanksPerRank : ℕ :=
  if cfg.hasBankgroup then cfg.count cfg.bankgroupLevel * cfg.count cfg.bankLevel
  else cfg.count cfg.bankLevel

/-- No bank groups on a device without that level. -/
def numBankgroups : ℕ := if cfg.hasBankgroup then cfg.count cfg.bankgroupLevel else 0

def numBanksPerBankgroup : ℕ := if cfg.hasBankgroup then cfg.count cfg.bankLevel else 0

def numRowsPerBank : ℕ := cfg.count cfg.rowLevel

/-- Column accesses of eight columns each. -/
def numCls : ℕ := cfg.count cfg.colLevel / 8

variable (v : AddrVec)

/-- The body of the loop of `get_flat_bank_id`: the flat number and `accumulated_dimension`. -/
def flatBankStep (acc : ℤ × ℤ) (i : ℕ) : ℤ × ℤ :=
  let accumulatedDimension := acc.2 * cfg.count (i + 1)
  (acc.1 + v.level i * accumulatedDimension, accumulatedDimension)

/-- `get_flat_bank_id`, from the level above the bank up to the rank. -/
def flatBankId : ℤ :=
  ((List.range' cfg.rankLevel (cfg.bankLevel - cfg.rankLevel)).reverse.foldl (cfg.flatBankStep v)
    (v.level cfg.bankLevel, 1)).1

/-- `is_opening` and the scope of a row. -/
def isActivation (req : Request C) : Bool :=
  match req.command with
  | some cmd => (cfg.commandMeta cmd).isOpening && cfg.commandScopes cmd == cfg.rowLevel
  | none => false

def rowOf : ℤ := v.level cfg.rowLevel

def rowRequests (addrVec : AddrVec) (row : ℤ) (typeId : ℕ) : List (Request C) :=
  (List.range cfg.numCls).map fun cl =>
    { addrVec := (addrVec.set cfg.rowLevel row).set cfg.colLevel (8 * cl : ℕ), typeId := typeId }

def ValidBank : Prop :=
  ∀ level, cfg.rankLevel ≤ level → level ≤ cfg.bankLevel →
    0 ≤ v.level level ∧ v.level level < cfg.count level

instance (v : AddrVec) : Decidable (cfg.ValidBank v) :=
  decidable_of_iff (∀ level < cfg.bankLevel + 1, cfg.rankLevel ≤ level →
      0 ≤ v.level level ∧ v.level level < cfg.count level)
    ⟨fun h level hlow hhigh => h level (Nat.lt_succ_of_le hhigh) hlow,
      fun h level hhigh hlow => h level hlow (Nat.le_of_lt_succ hhigh)⟩

def bankInRank : ℤ :=
  if cfg.hasBankgroup then
    v.level cfg.bankgroupLevel * cfg.count cfg.bankLevel + v.level cfg.bankLevel
  else v.level cfg.bankLevel

theorem flatBankId_eq :
    cfg.flatBankId v = v.level cfg.rankLevel * cfg.numBanksPerRank + cfg.bankInRank v := by
  unfold flatBankId bankInRank numBanksPerRank bankgroupLevel bankLevel
  cases cfg.hasBankgroup with
  | true =>
    have hrange : (range' cfg.rankLevel (cfg.rankLevel + 2 - cfg.rankLevel)).reverse =
        [cfg.rankLevel + 1, cfg.rankLevel] := by
      rw [Nat.add_sub_cancel_left]
      rfl
    simp only [if_true, hrange, foldl_cons, foldl_nil, flatBankStep]
    push_cast
    ring
  | false =>
    have hrange : (range' cfg.rankLevel (cfg.rankLevel + 1 - cfg.rankLevel)).reverse =
        [cfg.rankLevel] := by
      rw [Nat.add_sub_cancel_left]
      rfl
    simp only [Bool.false_eq_true, if_false, hrange, foldl_cons, foldl_nil, flatBankStep]
    ring

variable {cfg}

theorem digits_unique {base high low high' low' : ℤ} (h : 0 ≤ low) (hlt : low < base) (h' : 0 ≤ low')
    (hlt' : low' < base) (heq : high * base + low = high' * base + low') :
    high = high' ∧ low = low' := by
  have hhigh : high = high' := by
    rcases lt_trichotomy high high' with hlt'' | heq' | hgt
    · nlinarith
    · exact heq'
    · nlinarith
  refine ⟨hhigh, ?_⟩
  rw [hhigh] at heq
  linarith

variable {v : AddrVec}

variable (h : cfg.ValidBank v)
include h

theorem ValidBank.rank : 0 ≤ v.level cfg.rankLevel ∧ v.level cfg.rankLevel < cfg.numRanks :=
  h _ le_rfl (Nat.le_add_right _ _)

theorem ValidBank.bank :
    0 ≤ v.level cfg.bankLevel ∧ v.level cfg.bankLevel < cfg.count cfg.bankLevel :=
  h _ (Nat.le_add_right _ _) le_rfl

theorem ValidBank.bankgroup (hbg : cfg.hasBankgroup = true) :
    0 ≤ v.level cfg.bankgroupLevel ∧ v.level cfg.bankgroupLevel < cfg.count cfg.bankgroupLevel := by
  refine h _ (Nat.le_succ _) ?_
  unfold bankgroupLevel bankLevel
  rw [hbg]
  exact Nat.le_succ _

theorem ValidBank.bankInRank : 0 ≤ cfg.bankInRank v ∧ cfg.bankInRank v < cfg.numBanksPerRank := by
  obtain ⟨hb, hb'⟩ := h.bank
  unfold DeviceConfig.bankInRank numBanksPerRank
  cases hbg : cfg.hasBankgroup with
  | true =>
    obtain ⟨hg, hg'⟩ := h.bankgroup hbg
    simp only [if_true]
    push_cast
    constructor
    · positivity
    · nlinarith
  | false => exact ⟨hb, hb'⟩

theorem ValidBank.flatBankId :
    0 ≤ cfg.flatBankId v ∧ cfg.flatBankId v < cfg.numRanks * cfg.numBanksPerRank := by
  obtain ⟨hr, hr'⟩ := h.rank
  obtain ⟨hb, hb'⟩ := h.bankInRank
  rw [flatBankId_eq]
  constructor
  · positivity
  · nlinarith

theorem ValidBank.rank_eq : v.level cfg.rankLevel = cfg.flatBankId v / cfg.numBanksPerRank := by
  obtain ⟨hlow, hhigh⟩ := h.bankInRank
  rw [flatBankId_eq, Int.add_comm, Int.add_mul_ediv_right _ _ (by omega), Int.ediv_eq_zero_of_lt hlow hhigh,
    Int.zero_add]

/-- **The flat number names the bank.** -/
theorem flatBankId_eq_iff {v' : AddrVec} (h' : cfg.ValidBank v') :
    cfg.flatBankId v = cfg.flatBankId v' ↔
      ∀ level, cfg.rankLevel ≤ level → level ≤ cfg.bankLevel → v.level level = v'.level level := by
  constructor
  · intro heq
    rw [flatBankId_eq, flatBankId_eq] at heq
    obtain ⟨hrank, hin⟩ := digits_unique h.bankInRank.1 h.bankInRank.2 h'.bankInRank.1
      h'.bankInRank.2 heq
    intro level hlow hhigh
    unfold DeviceConfig.bankInRank at hin
    cases hbg : cfg.hasBankgroup with
    | true =>
      rw [hbg] at hin
      obtain ⟨hgroup, hbank⟩ := digits_unique h.bank.1 h.bank.2 h'.bank.1 h'.bank.2 hin
      have hlevels : level = cfg.rankLevel ∨ level = cfg.bankgroupLevel ∨ level = cfg.bankLevel := by
        simp only [bankgroupLevel, bankLevel, hbg, if_true] at hhigh ⊢
        omega
      rcases hlevels with rfl | rfl | rfl
      · exact hrank
      · exact hgroup
      · exact hbank
    | false =>
      rw [hbg] at hin
      have hlevels : level = cfg.rankLevel ∨ level = cfg.bankLevel := by
        simp only [bankLevel, hbg, Bool.false_eq_true, if_false] at hhigh ⊢
        omega
      rcases hlevels with rfl | rfl
      · exact hrank
      · exact hin
  · intro hsame
    have hrank := hsame _ le_rfl (Nat.le_add_right _ _)
    have hbank := hsame cfg.bankLevel (Nat.le_add_right _ _) le_rfl
    rw [flatBankId_eq, flatBankId_eq, hrank]
    unfold DeviceConfig.bankInRank
    cases hbg : cfg.hasBankgroup with
    | true =>
      have hgroup : v.level cfg.bankgroupLevel = v'.level cfg.bankgroupLevel := by
        refine hsame _ (Nat.le_succ _) ?_
        simp only [bankgroupLevel, bankLevel, hbg, if_true]
        omega
      rw [hgroup, hbank]
    | false => exact congrArg _ hbank

end DeviceConfig

/-! ## Per-bank tables -/

section

variable {β : Type} {tables : List β} {i j : ℤ}

def atBank (tables : List β) (i : ℤ) : Option β := if 0 ≤ i then tables[i.toNat]? else none

def setBank (tables : List β) (i : ℤ) (b : β) : List β := tables.set i.toNat b

theorem atBank_setBank {b b' : β} (h : atBank tables i = some b) :
    atBank (setBank tables i b') j = if j = i then some b' else atBank tables j := by
  unfold atBank at h ⊢
  unfold setBank
  split at h
  · rename_i hi
    by_cases hj : 0 ≤ j
    · rw [if_pos hj, if_pos hj]
      by_cases hji : j = i
      · rw [if_pos hji, hji, List.getElem?_set_self (List.getElem?_eq_some_iff.mp h).1]
      · rw [if_neg hji, getElem?_set_ne (by omega)]
    · rw [if_neg hj, if_neg hj, if_neg (by omega)]
  · cases h

theorem atBank_map {γ : Type} (f : β → γ) : atBank (tables.map f) i = (atBank tables i).map f := by
  unfold atBank
  split
  · exact getElem?_map ..
  · rfl

theorem exists_atBank (h : 0 ≤ i) (hlt : i < tables.length) : ∃ b, atBank tables i = some b := by
  unfold atBank
  rw [if_pos h]
  exact ⟨_, getElem?_eq_getElem (by omega)⟩

theorem mem_of_atBank {b : β} (h : atBank tables i = some b) : b ∈ tables := by
  unfold atBank at h
  split at h
  · exact mem_of_getElem? h
  · cases h

end

/-! ## Plugins -/

/-- `IControllerPlugin`: `update` gets the request that is served and gives those sent with
`priority_send`. `ι` is what the source leaves open. `resets` says whether the next update begins a new
window. -/
structure ControllerPlugin (C σ ι : Type) where
  init : σ
  update : σ → Option (Request C) → ι → Option (σ × List (Request C))
  resets : σ → Bool := fun _ => false

structure Observed (C : Type) where
  reset : Bool := false
  found : Option (Request C)
  sent : List (Request C)

structure PluginRun (C σ : Type) where
  plugin : σ
  history : List (Observed C) := []

namespace ControllerPlugin

def machine (P : ControllerPlugin C σ ι) : Machine (PluginRun C σ) (Option (Request C) × ι) where
  init := { plugin := P.init }
  step := fun s i => (P.update s.plugin i.1 i.2).map fun r =>
    { plugin := r.1
      history := { reset := P.resets s.plugin, found := i.1, sent := r.2 } :: s.history }

variable {P : ControllerPlugin C σ ι}

variable {s : PluginRun C σ} {I : σ → List (Observed C) → Prop}

theorem step_eq_some {s' : PluginRun C σ} {i : Option (Request C) × ι}
    (h : P.machine.step s i = some s') :
    ∃ sent, P.update s.plugin i.1 i.2 = some (s'.plugin, sent) ∧
      s'.history = { reset := P.resets s.plugin, found := i.1, sent := sent } :: s.history := by
  obtain ⟨r, hupdate, rfl⟩ := Option.map_eq_some_iff.mp h
  exact ⟨r.2, hupdate, rfl⟩

theorem invariant {ok : PluginRun C σ → Option (Request C) × ι → Prop} (h0 : I P.init [])
    (hupdate : ∀ s found choice s' sent, I s.plugin s.history → ok s (found, choice) →
      P.update s.plugin found choice = some (s', sent) →
      I s' ({ reset := P.resets s.plugin, found := found, sent := sent } :: s.history))
    (h : P.machine.ReachableWhen ok s) : I s.plugin s.history := by
  refine h.invariant (P := fun s => I s.plugin s.history) h0 ?_
  intro s i s' hinv hok hstep
  obtain ⟨sent, hupd, hhist⟩ := step_eq_some hstep
  rw [hhist]
  exact hupdate s i.1 i.2 s'.plugin sent hinv hok hupd

/-- A property of a stretch of a run; `h` is what was observed in the stretch. -/
theorem stretch_invariant {s' : PluginRun C σ}
    {is : List (Option (Request C) × ι)} {h : List (Observed C)} (h0 : I s.plugin [])
    (hupdate : ∀ p found choice p' sent h, I p h → P.update p found choice = some (p', sent) →
      I p' ({ reset := P.resets p, found := found, sent := sent } :: h))
    (hrun : P.machine.run s is = some s') (hhist : s'.history = h ++ s.history) :
    I s'.plugin h := by
  have hkept : ∃ h', s'.history = h' ++ s.history ∧ I s'.plugin h' := by
    refine Machine.run_invariant
      (P := fun r => ∃ h', r.history = h' ++ s.history ∧ I r.plugin h') ?_ ⟨[], rfl, h0⟩ hrun
    rintro r i r' ⟨h', hh', hinv⟩ hstep
    obtain ⟨sent, hupd, hnew⟩ := step_eq_some hstep
    refine ⟨_ :: h', ?_, hupdate _ _ _ _ _ _ hinv hupd⟩
    rw [hnew, hh', cons_append]
  obtain ⟨h', hh', hinv⟩ := hkept
  rw [hhist] at hh'
  rwa [append_cancel_right hh']

end ControllerPlugin

/-! ## Counting over a history -/

/-- The entries with `hit` since the last one with `clear`, and since the beginning of the last one
with `fresh`, which begins a new count. -/
def tally {α : Type} (fresh clear hit : α → Bool) : List α → ℕ
  | [] => 0
  | e :: h => if clear e then 0 else (if fresh e then 0 else tally fresh clear hit h) + (hit e).toNat

namespace DeviceConfig

variable (cfg : DeviceConfig C)

def activation (found : Option (Request C)) : Option (Request C) := found.filter cfg.isActivation

variable (bank : ℤ) (vrr : ℕ)

def activatesBank (req : Request C) : Bool :=
  cfg.isActivation req && cfg.flatBankId req.addrVec == bank

def activatesRow (row : ℤ) (req : Request C) : Bool :=
  cfg.activatesBank bank req && cfg.rowOf req.addrVec == row

/-- Was a request of type `vrr` for this row of the bank sent? -/
def refreshesRow (bank row : ℤ) (o : Observed C) : Bool :=
  o.sent.any fun r => r.typeId == vrr && cfg.flatBankId r.addrVec == bank &&
    cfg.rowOf r.addrVec == row

/-- The activations of a row since the last request of type `vrr` for it, in the current window. -/
def actsSinceRefresh (bank row : ℤ) (h : List (Observed C)) : ℕ :=
  tally Observed.reset (cfg.refreshesRow vrr bank row) (fun o => o.found.any (cfg.activatesRow bank row)) h

def windowActs (h : List (Observed C)) : ℕ :=
  tally Observed.reset (fun _ => false) (fun o => o.found.any (cfg.activatesBank bank)) h

theorem windowActs_cons (o : Observed C) (h : List (Observed C)) :
    cfg.windowActs bank (o :: h) =
      (if o.reset then 0 else cfg.windowActs bank h) +
        (o.found.any (cfg.activatesBank bank)).toNat := rfl

theorem actsSinceRefresh_cons (bank row : ℤ) (o : Observed C) (h : List (Observed C)) :
    cfg.actsSinceRefresh vrr bank row (o :: h) =
      if cfg.refreshesRow vrr bank row o then 0
      else (if o.reset then 0 else cfg.actsSinceRefresh vrr bank row h) +
        (o.found.any (cfg.activatesRow bank row)).toNat := rfl

variable {cfg} {found : Option (Request C)} {req : Request C}

variable (h : cfg.activation found = some req)

include h

theorem activation_eq_some : found = some req ∧ cfg.isActivation req = true :=
  Option.filter_eq_some_iff.mp h

omit h in
theorem any_activatesBank_of_none (h : cfg.activation found = none) (bank : ℤ) :
    found.any (cfg.activatesBank bank) = false := by
  cases found with
  | none => rfl
  | some req =>
    have hact : cfg.isActivation req = false := by
      simpa [activation, Option.filter] using h
    simp [activatesBank, hact]

omit h in
theorem any_activatesRow_of_none (h : cfg.activation found = none) (bank row : ℤ) :
    found.any (cfg.activatesRow bank row) = false := by
  cases found with
  | none => rfl
  | some req =>
    have hbank := any_activatesBank_of_none h bank
    simp only [Option.any_some] at hbank
    simp [activatesRow, hbank]

theorem any_activatesBank (bank : ℤ) :
    found.any (cfg.activatesBank bank) = (cfg.flatBankId req.addrVec == bank) := by
  obtain ⟨rfl, hact⟩ := activation_eq_some h
  simp [activatesBank, hact]

theorem any_activatesRow (bank row : ℤ) :
    found.any (cfg.activatesRow bank row) =
      (cfg.flatBankId req.addrVec == bank && cfg.rowOf req.addrVec == row) := by
  obtain ⟨rfl, hact⟩ := activation_eq_some h
  simp [activatesRow, activatesBank, hact]

end DeviceConfig

end MultiCoreMemory
