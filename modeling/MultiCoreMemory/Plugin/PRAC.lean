import MultiCoreMemory.Dram.DDR5VRR
import Mathlib.Data.List.MinMax

/-!
# Per-row activation counting (`plugin/prac/prac.h`, `plugin/prac/prac.cpp`)

Every bank counts the activations of its rows.  A row at the threshold is critical; a critical row
raises an alert, and the alert state machine waits, lets the controller refresh, and looks again after
some activations.

Counters are of 32 bits.  The product of two `int`s that gives the number of refreshes is undefined
from `2 ^ 31` on; such an update ends the run.
-/

namespace MultiCoreMemory

open List Option ControllerPlugin DDR5VRR

variable {C : Type} [DecidableEq C]

structure PRACParams (C : Type) where
  cmdAct : C
  cmdRfmab : C
  cmdRfmsb : C
  aboThresh : ℕ := 512
  aboDelayActs : ℕ := 4
  aboRecoveryRefs : ℕ := 4
  /-- `m_abo_act_cycles`, which `setup` computes from `abo_act_ns` and the clock period. -/
  aboActCycles : ℕ

namespace PRACParams

variable (p : PRACParams C)

def isAct (req : Request C) : Bool := req.command == some p.cmdAct

def isRfm (req : Request C) : Bool := req.command == some p.cmdRfmab || req.command == some p.cmdRfmsb

end PRACParams

/-! ## The counters of a bank -/

structure PerBankCounters where
  counters : UnorderedMap ℤ ℕ := ∅
  criticalRows : UnorderedMap ℤ ℕ := ∅

namespace PerBankCounters

def isCritical (b : PerBankCounters) : Bool := decide (0 < b.criticalRows.entries.length)

def processAct (thresh : ℕ) (row : ℤ) (b : PerBankCounters) : PerBankCounters × Bool :=
  let count := ((b.counters.lookup row).getD 0 + 1) % 2 ^ 32
  let b := { b with counters := b.counters.insert row count }
  if thresh ≤ count then ({ b with criticalRows := b.criticalRows.insert row count }, true)
  else (b, false)

/-- `process_rfm`: the first row of the largest counter, the rows being met in the given order. -/
def processRfm (order : List ℤ) (b : PerBankCounters) : Option PerBankCounters :=
  if order.Perm b.counters.keys then
    match order.argmax fun row => (b.counters.lookup row).getD 0 with
    | none => some b
    | some row =>
      some { counters := b.counters.insert row 0, criticalRows := b.criticalRows.erase row }
  else none

def onRequest (cfg : DeviceConfig C) (p : PRACParams C) (req : Request C) (order : List ℤ)
    (b : PerBankCounters) : Option (PerBankCounters × Bool) :=
  if p.isAct req then some (b.processAct p.aboThresh (cfg.rowOf req.addrVec))
  else if p.isRfm req then (b.processRfm order).map fun b => (b, false)
  else some (b, false)

end PerBankCounters

/-! ## The plugin -/

inductive ABOState where
  | normal
  | preRecovery
  | recovery
  | delay
  deriving DecidableEq, Repr

/-- The back-off state machine with its counters. -/
structure PRAC where
  bankCounters : List PerBankCounters
  clk : ℕ := 0
  state : ABOState := .normal
  aboRecoveryStart : ℕ := 2 ^ 63 - 1
  aboRecovRemRefs : ℕ := 2 ^ 32 - 1
  aboDelayRemActs : ℕ := 2 ^ 32 - 1
  isAboNeeded : Bool := false
  numRecovery : ℕ := 0

namespace PRAC

variable (cfg : DeviceConfig C) (p : PRACParams C)

def setup : PRAC where
  bankCounters := List.replicate (cfg.numRanks * cfg.numBanksPerRank) {}

def decr (n : ℕ) : ℕ := (n + (2 ^ 32 - 1)) % 2 ^ 32

def updateStateMachine (s : PRAC) (found : Option (Request C)) : Option PRAC :=
  match s.state with
  | .normal =>
    if s.isAboNeeded then
      some { s with
        state := .preRecovery
        aboRecoveryStart := s.clk + p.aboActCycles
        numRecovery := s.numRecovery + 1 }
    else some s
  | .preRecovery =>
    if s.clk = s.aboRecoveryStart then
      if p.aboRecoveryRefs * cfg.numRanks < 2 ^ 31 then
        some { s with
          state := .recovery
          aboRecoveryStart := 2 ^ 63 - 1
          aboRecovRemRefs := p.aboRecoveryRefs * cfg.numRanks }
      else none
    else some s
  | .recovery =>
    if found.any p.isRfm then
      let s := { s with aboRecovRemRefs := decr s.aboRecovRemRefs }
      if s.aboRecovRemRefs = 0 then
        some { s with state := .delay, aboDelayRemActs := p.aboDelayActs }
      else some s
    else some s
  | .delay =>
    if found.any p.isAct then
      let s := { s with aboDelayRemActs := decr s.aboDelayRemActs }
      if s.aboDelayRemActs = 0 then
        some { s with
          isAboNeeded := s.bankCounters.any PerBankCounters.isCritical
          state := .normal }
      else some s
    else some s

def targets (v : AddrVec) : List ℤ :=
  let rankOffset := v.level cfg.rankLevel * cfg.numBanksPerRank
  if v.level cfg.bankgroupLevel = -1 ∧ v.level cfg.bankLevel = -1 then
    (List.range cfg.numBanksPerRank).map fun i : ℕ => rankOffset + i
  else if v.level cfg.bankgroupLevel = -1 then
    (List.range cfg.numBankgroups).map fun i : ℕ =>
      rankOffset + i * cfg.numBanksPerBankgroup + v.level cfg.bankLevel
  else if v.level cfg.bankLevel = -1 then
    (List.range cfg.numBanksPerBankgroup).map fun i : ℕ =>
      rankOffset + v.level cfg.bankgroupLevel * cfg.numBanksPerBankgroup + i
  else [cfg.flatBankId v]

/-- `m_bank_counters[bank].on_request(req)`; every bank writes the one flag. -/
def onBank (req : Request C) (orders : ℤ → List ℤ) (s : PRAC) (bank : ℤ) : Option PRAC := do
  let b ← atBank s.bankCounters bank
  let (b, raised) ← b.onRequest cfg p req (orders bank)
  some { s with
    bankCounters := setBank s.bankCounters bank b
    isAboNeeded := s.isAboNeeded || raised }

/-- `update`; `orders` gives for each bank the order in which its counters are met. -/
def update (s : PRAC) (found : Option (Request C)) (orders : ℤ → List ℤ) :
    Option (PRAC × List (Request C)) := do
  let s ← updateStateMachine cfg p { s with clk := s.clk + 1 } found
  match found with
  | none => some (s, [])
  | some req =>
    let s ← (targets cfg req.addrVec).foldlM (onBank cfg p req orders) s
    some (s, [])

def plugin :
    ControllerPlugin C PRAC (ℤ → List ℤ) where
  init := setup cfg
  update := update cfg p

end PRAC

/-! ## Critical rows -/

namespace PerBankCounters

variable {cfg : DeviceConfig C} {p : PRACParams C} {thresh bound : ℕ} {b b' : PerBankCounters}

theorem isCritical_iff : b.isCritical = true ↔ ∃ row count, b.criticalRows.lookup row = some count := by
  rw [isCritical, decide_eq_true_eq, length_pos_iff_exists_mem]
  constructor
  · rintro ⟨⟨row, count⟩, hmem⟩
    exact ⟨row, count, AList.mem_lookup_iff.mpr hmem⟩
  · rintro ⟨row, count, hlookup⟩
    exact ⟨⟨row, count⟩, AList.mem_lookup_iff.mp hlookup⟩

structure Exact (thresh bound : ℕ) (b : PerBankCounters) : Prop where
  critical : ∀ row, (∃ count, b.criticalRows.lookup row = some count) ↔
    ∃ count, b.counters.lookup row = some count ∧ thresh ≤ count
  bounded : ∀ row count, b.counters.lookup row = some count → count ≤ bound

section

variable (h : Exact thresh bound b)

include h

theorem Exact.mono {bound' : ℕ} (hle : bound ≤ bound') : Exact thresh bound' b :=
  ⟨h.critical, fun row count hcount => (h.bounded row count hcount).trans hle⟩

theorem Exact.bounded_insert {bound' value : ℕ} (hvalue : value ≤ bound') (hle : bound ≤ bound')
    (row row' : ℤ) (count : ℕ) (hcount : (b.counters.insert row value).lookup row' = some count) :
    count ≤ bound' := by
  rcases UnorderedMap.lookup_insert_iff.mp hcount with ⟨-, rfl⟩ | ⟨-, hold⟩
  · exact hvalue
  · exact (h.bounded row' count hold).trans hle

theorem Exact.processAct (hsmall : bound + 1 < 2 ^ 32) (row : ℤ) :
    Exact thresh (bound + 1) (b.processAct thresh row).1 ∧
      ((b.processAct thresh row).1.isCritical = true →
        b.isCritical = true ∨ (b.processAct thresh row).2 = true) := by
  have hcount : (b.counters.lookup row).getD 0 ≤ bound := by
    cases hlookup : b.counters.lookup row with
    | none => exact Nat.zero_le _
    | some count => exact h.bounded row count hlookup
  -- the counter does not wrap around
  have hmod : ((b.counters.lookup row).getD 0 + 1) % 2 ^ 32 = (b.counters.lookup row).getD 0 + 1 :=
    Nat.mod_eq_of_lt (by omega)
  unfold PerBankCounters.processAct
  simp only [hmod]
  split
  · rename_i hge
    refine ⟨⟨?_, ?_⟩, fun _ => .inr rfl⟩
    · intro row'
      by_cases hrow : row' = row
      · subst hrow
        simpa using hge
      · simpa [AList.lookup_insert_ne hrow] using h.critical row'
    · exact h.bounded_insert (by omega) (Nat.le_succ _) row
  · rename_i hlt
    refine ⟨⟨?_, ?_⟩, fun hcrit => .inl hcrit⟩
    · intro row'
      by_cases hrow : row' = row
      · subst hrow
        -- the row was below the threshold before, so it was not critical
        have hnot : ¬ ∃ count, b.counters.lookup row' = some count ∧ thresh ≤ count := by
          rintro ⟨count, hlookup, hle⟩
          simp only [hlookup, getD_some] at hlt
          omega
        rw [h.critical row', AList.lookup_insert]
        constructor
        · exact fun hex => absurd hex hnot
        · rintro ⟨count, heq, hle⟩
          cases heq
          exact absurd hle hlt
      · simpa [AList.lookup_insert_ne hrow] using h.critical row'
    · exact h.bounded_insert (by omega) (Nat.le_succ _) row

theorem Exact.processRfm (hthresh : 1 ≤ thresh) {order : List ℤ}
    (hrfm : b.processRfm order = some b') :
    Exact thresh bound b' ∧ (b'.isCritical = true → b.isCritical = true) := by
  unfold PerBankCounters.processRfm at hrfm
  split at hrfm
  · split at hrfm
    · cases hrfm
      exact ⟨h, id⟩
    · rename_i row _
      cases hrfm
      refine ⟨⟨?_, ?_⟩, ?_⟩
      · intro row'
        by_cases hrow : row' = row
        · subst hrow
          simp
          omega
        · simpa [AList.lookup_insert_ne hrow, AList.lookup_erase_ne hrow] using h.critical row'
      · exact h.bounded_insert (Nat.zero_le _) le_rfl row
      · rw [isCritical_iff, isCritical_iff]
        rintro ⟨row', count, hlookup⟩
        exact ⟨row', count, (UnorderedMap.lookup_erase_iff.mp hlookup).2⟩
  · cases hrfm

end

theorem Exact.onRequest (h : Exact p.aboThresh bound b) (hthresh : 1 ≤ p.aboThresh)
    (hsmall : bound + 1 < 2 ^ 32) {req : Request C} {order : List ℤ} {raised : Bool}
    (hreq : b.onRequest cfg p req order = some (b', raised)) :
    Exact p.aboThresh (bound + 1) b' ∧
      (b'.isCritical = true → b.isCritical = true ∨ raised = true) := by
  unfold PerBankCounters.onRequest at hreq
  split at hreq
  · have hact := h.processAct hsmall (cfg.rowOf req.addrVec)
    rwa [some.inj hreq] at hact
  · split at hreq
    · obtain ⟨b₁, hrfm, heq⟩ := map_eq_some_iff.mp hreq
      cases heq
      obtain ⟨hexact, hcrit⟩ := h.processRfm hthresh hrfm
      exact ⟨hexact.mono (Nat.le_succ _), fun hc => .inl (hcrit hc)⟩
    · cases hreq
      exact ⟨h.mono (Nat.le_succ _), .inl⟩

end PerBankCounters

namespace PRAC

variable {cfg : DeviceConfig C} {p : PRACParams C} {s s' : PRAC}

structure Tracked (cfg : DeviceConfig C) (p : PRACParams C) (s : PRAC) (commands : ℕ) : Prop where
  size : s.bankCounters.length = cfg.numRanks * cfg.numBanksPerRank
  exact : ∀ b ∈ s.bankCounters, b.Exact p.aboThresh commands
  needed : ∀ b ∈ s.bankCounters, b.isCritical = true → s.isAboNeeded = true

omit [DecidableEq C] in
theorem tracked_setup : Tracked cfg p (setup cfg) 0 where
  size := by simp [setup]
  exact := by
    intro b hb
    obtain rfl := eq_of_mem_replicate hb
    constructor
    · simp
    · simp
  needed := by
    intro b hb hcrit
    obtain rfl := eq_of_mem_replicate hb
    cases hcrit

variable {commands : ℕ} {found : Option (Request C)} {req : Request C} {orders : ℤ → List ℤ}
  {sent : List (Request C)}

theorem Tracked.updateStateMachine (h : Tracked cfg p s commands)
    (hupd : s.updateStateMachine cfg p found = some s') : Tracked cfg p s' commands := by
  -- every branch but the end of the delay keeps the counters and the flag
  have hkeep : s'.bankCounters = s.bankCounters → s'.isAboNeeded = s.isAboNeeded →
      Tracked cfg p s' commands := by
    intro hbanks hflag
    refine ⟨?_, ?_, ?_⟩
    · rw [hbanks]; exact h.size
    · rw [hbanks]; exact h.exact
    · rw [hbanks, hflag]; exact h.needed
  unfold PRAC.updateStateMachine at hupd
  split at hupd
  · split at hupd <;> cases hupd <;> exact hkeep rfl rfl
  · split at hupd
    · split at hupd <;> cases hupd
      exact hkeep rfl rfl
    · cases hupd
      exact hkeep rfl rfl
  · dsimp only at hupd
    split at hupd
    · split at hupd <;> cases hupd <;> exact hkeep rfl rfl
    · cases hupd
      exact hkeep rfl rfl
  · dsimp only at hupd
    split at hupd
    · split at hupd
      · cases hupd
        exact ⟨h.size, h.exact, fun b hb hcrit => List.any_eq_true.mpr ⟨b, hb, hcrit⟩⟩
      · cases hupd
        exact hkeep rfl rfl
    · cases hupd
      exact hkeep rfl rfl

omit [DecidableEq C] in
theorem nodup_targets (hbanks : 0 < cfg.numBanksPerRank) (v : AddrVec) : (targets cfg v).Nodup := by
  unfold targets
  dsimp only
  split
  · refine List.Nodup.map ?_ nodup_range
    intro i j hij
    simpa using hij
  split
  · refine List.Nodup.map_on ?_ nodup_range
    intro i hi j _ hij
    have hgroups : 0 < cfg.numBankgroups := Nat.zero_lt_of_lt (mem_range.mp hi)
    have hper : (cfg.numBanksPerBankgroup : ℤ) ≠ 0 := by
      unfold DeviceConfig.numBanksPerRank at hbanks
      unfold DeviceConfig.numBankgroups at hgroups
      unfold DeviceConfig.numBanksPerBankgroup
      split at hbanks
      · have := Nat.pos_of_mul_pos_left hbanks
        simp_all
        omega
      · simp_all
    have hmul : (i : ℤ) * cfg.numBanksPerBankgroup = j * cfg.numBanksPerBankgroup := by linarith
    exact_mod_cast mul_right_cancel₀ hper hmul
  split
  · refine List.Nodup.map ?_ nodup_range
    intro i j hij
    simpa using hij
  · exact nodup_singleton _

theorem onBank_eq_some {bank : ℤ} (h : s.onBank cfg p req orders bank = some s') :
    ∃ b b' raised, atBank s.bankCounters bank = some b ∧
      b.onRequest cfg p req (orders bank) = some (b', raised) ∧
      s' = { s with
        bankCounters := setBank s.bankCounters bank b'
        isAboNeeded := s.isAboNeeded || raised } := by
  simp only [onBank, bind_eq_bind, bind_eq_some_iff, Prod.exists] at h
  obtain ⟨b, hb, b', raised, hreq, heq⟩ := h
  exact ⟨b, b', raised, hb, hreq, (some.inj heq).symm⟩

/-- The banks that the loop still has to visit have not counted the command yet. -/
theorem Tracked.onBanks (hthresh : 1 ≤ p.aboThresh) (hsmall : commands + 1 < 2 ^ 32)
    {banks : List ℤ} (hnodup : banks.Nodup) (h : Tracked cfg p s (commands + 1))
    (hrest : ∀ bank ∈ banks, ∀ b, atBank s.bankCounters bank = some b → b.Exact p.aboThresh commands)
    (hloop : banks.foldlM (onBank cfg p req orders) s = some s') :
    Tracked cfg p s' (commands + 1) := by
  induction banks generalizing s with
  | nil =>
    cases hloop
    exact h
  | cons bank banks ih =>
    rw [foldlM_cons, bind_eq_bind, bind_eq_some_iff] at hloop
    obtain ⟨s₁, hbank, hloop⟩ := hloop
    obtain ⟨b, b', raised, hb, hreq, rfl⟩ := onBank_eq_some hbank
    obtain ⟨hnotmem, hnodup⟩ := nodup_cons.mp hnodup
    obtain ⟨hexact, hcrit⟩ := (hrest bank (mem_cons_self ..) b hb).onRequest hthresh hsmall hreq
    refine ih hnodup ⟨?_, ?_, ?_⟩ ?_ hloop
    · simpa [setBank] using h.size
    · intro b₁ hb₁
      rcases mem_or_eq_of_mem_set hb₁ with hold | rfl
      · exact h.exact b₁ hold
      · exact hexact
    · intro b₁ hb₁ hcrit₁
      rw [Bool.or_eq_true]
      rcases mem_or_eq_of_mem_set hb₁ with hold | rfl
      · exact .inl (h.needed b₁ hold hcrit₁)
      · exact (hcrit hcrit₁).imp_left (h.needed b (mem_of_atBank hb))
    · intro bank' hbank' b₁ hb₁
      have hne : bank' ≠ bank := fun heq => hnotmem (heq ▸ hbank')
      rw [atBank_setBank hb, if_neg hne] at hb₁
      exact hrest bank' (mem_cons_of_mem _ hbank') b₁ hb₁

omit [DecidableEq C] in
theorem Tracked.mono {commands' : ℕ} (h : Tracked cfg p s commands) (hle : commands ≤ commands') :
    Tracked cfg p s commands' :=
  ⟨h.size, fun b hb => (h.exact b hb).mono hle, h.needed⟩

theorem onBanks_frame {banks : List ℤ} (hloop : banks.foldlM (onBank cfg p req orders) s = some s') :
    s'.bankCounters.length = s.bankCounters.length ∧ s'.state = s.state ∧ s'.clk = s.clk ∧
      s'.aboRecoveryStart = s.aboRecoveryStart ∧ s'.aboRecovRemRefs = s.aboRecovRemRefs := by
  induction banks generalizing s with
  | nil =>
    cases hloop
    exact ⟨rfl, rfl, rfl, rfl, rfl⟩
  | cons bank banks ih =>
    rw [foldlM_cons, bind_eq_bind, bind_eq_some_iff] at hloop
    obtain ⟨s₁, hbank, hloop⟩ := hloop
    obtain ⟨b, b', raised, -, -, rfl⟩ := onBank_eq_some hbank
    obtain ⟨hlength, hmachine⟩ := ih hloop
    exact ⟨hlength.trans length_set, hmachine⟩

/-- The two parts of an update: the state machine and the counters. -/
theorem update_eq_some (h : s.update cfg p found orders = some (s', sent)) :
    ∃ t, updateStateMachine cfg p { s with clk := s.clk + 1 } found = some t ∧
      ((found = none ∧ s' = t) ∨
        ∃ req, found = some req ∧
          (targets cfg req.addrVec).foldlM (onBank cfg p req orders) t = some s') := by
  simp only [update, bind_eq_bind, bind_eq_some_iff] at h
  obtain ⟨t, hmachine, h⟩ := h
  refine ⟨t, hmachine, ?_⟩
  cases found with
  | none =>
    cases h
    exact .inl ⟨rfl, rfl⟩
  | some req =>
    simp only [bind_eq_some_iff] at h
    obtain ⟨s₁, hloop, heq⟩ := h
    cases heq
    exact .inr ⟨req, rfl, hloop⟩

/-- **One update.** -/
theorem Tracked.update (hthresh : 1 ≤ p.aboThresh) (h : Tracked cfg p s commands)
    (hsmall : commands + found.isSome.toNat < 2 ^ 32)
    (hupd : s.update cfg p found orders = some (s', sent)) :
    Tracked cfg p s' (commands + found.isSome.toNat) := by
  obtain ⟨t, hmachine, hcount⟩ := update_eq_some hupd
  have ht : Tracked cfg p t commands :=
    Tracked.updateStateMachine (s := { s with clk := s.clk + 1 }) ⟨h.size, h.exact, h.needed⟩ hmachine
  rcases hcount with ⟨rfl, rfl⟩ | ⟨req, rfl, hloop⟩
  · exact ht
  · rcases Nat.eq_zero_or_pos cfg.numBanksPerRank with hzero | hbanks
    · -- a device without banks has no counters
      have hlength := (onBanks_frame hloop).1
      have hempty : s'.bankCounters = [] := by
        rw [← length_eq_zero_iff, hlength, ht.size, hzero, Nat.mul_zero]
      refine ⟨hlength.trans ht.size, ?_, ?_⟩ <;> simp [hempty]
    · exact Tracked.onBanks hthresh hsmall (nodup_targets hbanks _) (ht.mono (Nat.le_succ _))
        (fun bank _ b hb => ht.exact b (mem_of_atBank hb)) hloop

/-! ## The alert state machine -/

theorem update_machine (h : s.update cfg p found orders = some (s', sent)) :
    ∃ t, updateStateMachine cfg p { s with clk := s.clk + 1 } found = some t ∧
      s'.state = t.state ∧ s'.clk = t.clk ∧ s'.aboRecoveryStart = t.aboRecoveryStart ∧
      s'.aboRecovRemRefs = t.aboRecovRemRefs := by
  obtain ⟨t, hmachine, hcount⟩ := update_eq_some h
  refine ⟨t, hmachine, ?_⟩
  rcases hcount with ⟨-, rfl⟩ | ⟨req, -, hloop⟩
  · exact ⟨rfl, rfl, rfl, rfl⟩
  · exact (onBanks_frame hloop).2

section

variable {found : Option (Request C)} {orders : ℤ → List ℤ} {sent : List (Request C)}

section

variable (h : s.update cfg p found orders = some (s', sent))
include h

theorem update_normal (hstate : s.state = .normal) (hneeded : s.isAboNeeded = true) :
    s'.state = .preRecovery ∧ s'.aboRecoveryStart = s'.clk + p.aboActCycles := by
  obtain ⟨t, hmachine, hst, hclk, hstart, -⟩ := update_machine h
  simp only [updateStateMachine, hstate, hneeded, if_true] at hmachine
  cases hmachine
  rw [hst, hclk, hstart]
  exact ⟨rfl, rfl⟩

theorem update_preRecovery {left : ℕ} (hstate : s.state = .preRecovery)
    (hstart : s.aboRecoveryStart = s.clk + (left + 1)) :
    if left = 0 then s'.state = .recovery
    else s'.state = .preRecovery ∧ s'.aboRecoveryStart = s'.clk + left := by
  obtain ⟨t, hmachine, hst, hclk, hstart', -⟩ := update_machine h
  simp only [updateStateMachine, hstate, hstart] at hmachine
  split at hmachine
  · rename_i hnow
    rw [if_pos (by omega)]
    split at hmachine <;> cases hmachine
    exact hst
  · rename_i hnow
    rw [if_neg (by omega)]
    cases hmachine
    refine ⟨hst, ?_⟩
    rw [hstart', hclk]
    dsimp only
    omega

theorem update_begins_recovery (hbefore : s.state ≠ .recovery) (hafter : s'.state = .recovery) :
    s'.aboRecovRemRefs = p.aboRecoveryRefs * cfg.numRanks ∧
      p.aboRecoveryRefs * cfg.numRanks < 2 ^ 31 := by
  obtain ⟨t, hmachine, hst, -, -, hrem⟩ := update_machine h
  rw [hafter] at hst
  rw [hrem]
  unfold updateStateMachine at hmachine
  split at hmachine
  · rename_i hstate
    split at hmachine <;> cases hmachine
    · cases hst
    · exact absurd hst.symm hbefore
  · rename_i hstate
    split at hmachine
    · split at hmachine
      · rename_i hfits
        cases hmachine
        exact ⟨rfl, hfits⟩
      · cases hmachine
    · cases hmachine
      exact absurd hst.symm hbefore
  · rename_i hstate
    exact absurd hstate hbefore
  · rename_i hstate
    dsimp only at hmachine
    split at hmachine
    · split at hmachine <;> cases hmachine
      · cases hst
      · exact absurd hst.symm hbefore
    · cases hmachine
      exact absurd hst.symm hbefore

end

theorem decr_succ {n : ℕ} (h : n + 1 < 2 ^ 32) : decr (n + 1) = n := by
  unfold decr
  omega

theorem update_recovery {left : ℕ} (hstate : s.state = .recovery)
    (hrem : s.aboRecovRemRefs = left + 1) (hsmall : left + 1 < 2 ^ 32)
    (h : s.update cfg p found orders = some (s', sent)) :
    if left + 1 = (found.any p.isRfm).toNat then s'.state = .delay
    else s'.state = .recovery ∧ s'.aboRecovRemRefs + (found.any p.isRfm).toNat = left + 1 := by
  obtain ⟨t, hmachine, hst, -, -, hrem'⟩ := update_machine h
  rw [hst, hrem']
  simp only [updateStateMachine, hstate, hrem, decr_succ hsmall] at hmachine
  cases hrfm : found.any p.isRfm with
  | true =>
    simp only [hrfm, if_true] at hmachine
    split at hmachine
    · rename_i hzero
      cases hmachine
      simp [hzero]
    · rename_i hpos
      cases hmachine
      simp [hpos]
  | false =>
    simp only [hrfm, Bool.false_eq_true, if_false] at hmachine
    cases hmachine
    simp

end

section

variable {r r' : PluginRun C PRAC} {is : List (Option (Request C) × (ℤ → List ℤ))}

def rfms (p : PRACParams C) (is : List (Option (Request C) × (ℤ → List ℤ))) : ℕ :=
  is.countP fun i => i.1.any p.isRfm

theorem run_preRecovery {left : ℕ} (hstate : r.plugin.state = .preRecovery)
    (hstart : r.plugin.aboRecoveryStart = r.plugin.clk + left)
    (hrun : (plugin cfg p).machine.run r is = some r') (hle : is.length ≤ left) (hpos : 1 ≤ left) :
    r'.plugin.state = if is.length = left then .recovery else .preRecovery := by
  induction is generalizing r left with
  | nil =>
    cases hrun
    rw [if_neg (by simp; omega)]
    exact hstate
  | cons i is ih =>
    obtain ⟨left, rfl⟩ : ∃ k, left = k + 1 := ⟨left - 1, by omega⟩
    obtain ⟨r₁, hstep, hrun⟩ := Machine.run_cons hrun
    obtain ⟨sent, hupd, -⟩ := step_eq_some hstep
    have hnext := update_preRecovery hupd hstate hstart
    rw [length_cons] at hle ⊢
    split at hnext
    · rename_i hzero
      obtain rfl : is = [] := length_eq_zero_iff.mp (by omega)
      cases hrun
      simpa [hzero] using hnext
    · rename_i hne
      rw [ih hnext.1 hnext.2 hrun (by omega) (by omega)]
      simp

theorem run_recovery {refs : ℕ} (hsmall : refs < 2 ^ 32) (hstate : r.plugin.state = .recovery)
    (hrem : r.plugin.aboRecovRemRefs = refs)
    (hrun : (plugin cfg p).machine.run r is = some r') (hlt : rfms p is < refs) :
    r'.plugin.state = .recovery ∧ r'.plugin.aboRecovRemRefs = refs - rfms p is := by
  induction is generalizing r refs with
  | nil =>
    cases hrun
    exact ⟨hstate, hrem⟩
  | cons i is ih =>
    obtain ⟨left, rfl⟩ : ∃ k, refs = k + 1 := ⟨refs - 1, by omega⟩
    obtain ⟨r₁, hstep, hrun⟩ := Machine.run_cons hrun
    obtain ⟨sent, hupd, -⟩ := step_eq_some hstep
    have hnext := update_recovery hstate hrem hsmall hupd
    have hcount : rfms p (i :: is) = rfms p is + (i.1.any p.isRfm).toNat := by
      cases hrfm : i.1.any p.isRfm <;> simp [rfms, hrfm]
    rw [hcount] at hlt ⊢
    rw [if_neg (by omega)] at hnext
    obtain ⟨hstate₁, hrem₁⟩ := hnext
    obtain ⟨hstate', hrem'⟩ := ih (by omega) hstate₁ (Eq.refl r₁.plugin.aboRecovRemRefs) hrun (by omega)
    exact ⟨hstate', by omega⟩

end

theorem tracked_of_reachable (hthresh : 1 ≤ p.aboThresh) {r : PluginRun C PRAC}
    (h : (plugin cfg p).machine.Reachable r)
    (hfew : r.history.countP (fun o => o.found.isSome) < 2 ^ 32) :
    Tracked cfg p r.plugin (r.history.countP fun o => o.found.isSome) := by
  refine invariant (P := plugin cfg p)
    (I := fun s h => h.countP (fun o => o.found.isSome) < 2 ^ 32 →
      Tracked cfg p s (h.countP fun o => o.found.isSome))
    (fun _ => tracked_setup) ?_ h hfew
  intro r found orders s' sent hinv _ hupd hsmall
  have hcount : countP (fun o : Observed C => o.found.isSome)
      ({ reset := (plugin cfg p).resets r.plugin, found := found, sent := sent } :: r.history) =
        r.history.countP (fun o => o.found.isSome) + found.isSome.toNat := by
    cases found <;> simp
  rw [hcount] at hsmall ⊢
  exact (hinv (by omega)).update hthresh hsmall hupd

/-- **The alert follows the critical rows**, after fewer than `2 ^ 32` commands: a row at the threshold
keeps it raised; a raised alert leaves `normal` with the next update and begins the recovery
`aboActCycles` updates later, which ends with the last refresh of each rank. -/
theorem alert_follows_critical_rows (cfg : DeviceConfig C) (p : PRACParams C)
    (hthresh : 1 ≤ p.aboThresh) (hcycles : 1 ≤ p.aboActCycles) {r : PluginRun C PRAC}
    (h : (plugin cfg p).machine.Reachable r)
    (hfew : r.history.countP (fun o => o.found.isSome) < 2 ^ 32) :
    (∀ b ∈ r.plugin.bankCounters, ∀ row, (∃ count, b.criticalRows.lookup row = some count) ↔
      ∃ count, b.counters.lookup row = some count ∧ p.aboThresh ≤ count) ∧
    ((∃ b ∈ r.plugin.bankCounters, b.isCritical = true) → r.plugin.isAboNeeded = true) ∧
    (r.plugin.state = .normal → r.plugin.isAboNeeded = true →
      ∀ i r', (plugin cfg p).machine.step r i = some r' → r'.plugin.state = .preRecovery ∧
        ∀ is r'', (plugin cfg p).machine.run r' is = some r'' → is.length ≤ p.aboActCycles →
          r''.plugin.state = if is.length = p.aboActCycles then .recovery else .preRecovery) ∧
    (r.plugin.state ≠ .recovery →
      ∀ i r', (plugin cfg p).machine.step r i = some r' → r'.plugin.state = .recovery →
        ∀ is r'', (plugin cfg p).machine.run r' is = some r'' →
          rfms p is < p.aboRecoveryRefs * cfg.numRanks → r''.plugin.state = .recovery ∧
            ∀ j r''', (plugin cfg p).machine.step r'' j = some r''' →
              r'''.plugin.state =
                if rfms p (is ++ [j]) = p.aboRecoveryRefs * cfg.numRanks then .delay
                else .recovery) := by
  have htracked := tracked_of_reachable hthresh h hfew
  refine ⟨fun b hb => (htracked.exact b hb).critical, fun ⟨b, hb, hcrit⟩ => htracked.needed b hb hcrit,
    ?_, ?_⟩
  · intro hstate hneeded i r' hstep
    obtain ⟨sent, hupd, -⟩ := step_eq_some hstep
    obtain ⟨hpre, hstart⟩ := update_normal hupd hstate hneeded
    exact ⟨hpre, fun is r'' hrun hle => run_preRecovery hpre hstart hrun hle hcycles⟩
  · intro hbefore i r' hstep hrec is r'' hrun hlt
    obtain ⟨sent, hupd, -⟩ := step_eq_some hstep
    obtain ⟨hrem, hfits⟩ := update_begins_recovery hupd hbefore hrec
    obtain ⟨hstate, hleft⟩ := run_recovery (by omega) hrec hrem hrun hlt
    refine ⟨hstate, ?_⟩
    intro j r''' hstep'
    obtain ⟨sent', hupd', -⟩ := step_eq_some hstep'
    obtain ⟨left, hk⟩ : ∃ k, p.aboRecoveryRefs * cfg.numRanks - rfms p is = k + 1 :=
      ⟨p.aboRecoveryRefs * cfg.numRanks - rfms p is - 1, by omega⟩
    have hnext := update_recovery hstate (hleft.trans hk) (by omega) hupd'
    have hcount : rfms p (is ++ [j]) = rfms p is + (j.1.any p.isRfm).toNat := by
      cases hrfm : j.1.any p.isRfm <;> simp [rfms, hrfm]
    rw [hcount]
    split at hnext
    · rw [if_pos (by omega)]
      exact hnext
    · rw [if_neg (by omega)]
      exact hnext.1

abbrev smallParams : PRACParams DDR5VRR.Command where
  cmdAct := .ACT
  cmdRfmab := .RFMab
  cmdRfmsb := .RFMsb
  aboThresh := 2
  aboDelayActs := 1
  aboRecoveryRefs := 1
  aboActCycles := 2

def actInput (row : ℤ) : Option (Request DDR5VRR.Command) × (ℤ → List ℤ) :=
  (some (activateRow row), fun _ => [])

def idleInput : Option (Request DDR5VRR.Command) × (ℤ → List ℤ) := (none, fun _ => [])

/-- The second activation of a row makes it critical, and the next update answers the alert. -/
theorem second_activation_raises_alert :
    ∃ r, (plugin oneBank smallParams).machine.Reachable r ∧ r.plugin.state = .normal ∧
      r.plugin.bankCounters.map (fun b => b.criticalRows.keys) = [[5]] ∧
      r.plugin.isAboNeeded = true ∧
      ∀ i r', (plugin oneBank smallParams).machine.step r i = some r' →
        r'.plugin.state = .preRecovery := by
  obtain ⟨r, hr, hstate, hrows, hneeded, hcount⟩ := Machine.exists_reachable
    (m := (plugin oneBank smallParams).machine)
    (P := fun r => r.plugin.state = .normal ∧
      r.plugin.bankCounters.map (fun b => b.criticalRows.keys) = [[5]] ∧
      r.plugin.isAboNeeded = true ∧ (r.history.countP fun o => o.found.isSome) = 3)
    [actInput 5, actInput 7, actInput 5] (by decide +kernel)
  obtain ⟨-, -, hnormal, -⟩ := alert_follows_critical_rows oneBank smallParams (by decide)
    (by decide) hr (by rw [hcount]; decide)
  exact ⟨r, hr, hstate, hrows, hneeded, fun i r' hstep => (hnormal hstate hneeded i r' hstep).1⟩

/-- The refresh of the only rank ends the recovery and clears the critical row. -/
example :
    let m := (plugin oneBank smallParams).machine
    (m.run m.init [actInput 5, actInput 5, idleInput, idleInput, idleInput,
      (some (command .RFMab [0, 0, -1, -1, -1, -1]), fun _ => [5])]).map
        (fun r => (r.plugin.state, r.plugin.bankCounters.map PerBankCounters.isCritical)) =
      some (.delay, [false]) := by decide +kernel

end PRAC

end MultiCoreMemory
