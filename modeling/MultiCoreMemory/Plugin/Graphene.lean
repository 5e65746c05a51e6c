import MultiCoreMemory.Dram.DDR5VRR
import MultiCoreMemory.Lib.SpillTable

/-!
# Graphene (`plugin/graphene.cpp`)

One table of activation counters and one spillover counter for each bank; a row whose counter reaches
the threshold gets a victim-row-refresh request.

A row that enters the table is not checked against the threshold.  It enters one above the spillover
counter, so the bound on that counter is what keeps it below the threshold.
-/

namespace MultiCoreMemory

open DeviceConfig UnorderedMap

variable {C : Type}

structure GrapheneParams where
  numTableEntries : ℕ
  activationThreshold : ℕ
  resetPeriodClk : ℤ
  vrrReqId : ℕ

structure Graphene where
  clk : ℤ := -1
  banks : List (SpillTable ℤ)

namespace Graphene

variable (cfg : DeviceConfig C) (p : GrapheneParams) (g : Graphene) (numRows entries : ℕ)

/-- The entries of a new table: rows from `-numRows` on, no rows of the bank while negative. -/
def initialEntries : List (Σ _ : ℤ, ℕ) :=
  (List.range entries).map fun j : ℕ => ⟨(j : ℤ) - numRows, 0⟩

theorem nodupKeys_initialEntries : (initialEntries numRows entries).NodupKeys := by
  unfold List.NodupKeys List.keys initialEntries
  rw [List.map_map]
  refine List.Nodup.map ?_ List.nodup_range
  intro i j hij
  simp only [Function.comp_apply] at hij
  omega

def initialTable : UnorderedMap ℤ ℕ :=
  ⟨initialEntries numRows entries, nodupKeys_initialEntries numRows entries⟩

def setup : Graphene where
  banks := List.replicate (cfg.numRanks * cfg.numBanksPerRank)
    { table := initialTable cfg.numRowsPerBank p.numTableEntries }

def activateRow (threshold : ℕ) (order : List ℤ) (row : ℤ) (b : SpillTable ℤ) :
    Option (SpillTable ℤ × Bool) :=
  match b.table.lookup row with
  | none =>
    -- an entry that stands at the spillover counter makes place
    match b.table.firstKey order fun _ count => count == b.spill with
    | none => none
    | some (some toRemove) => some (b.replace toRemove row, false)
    | some none => some (b.overflow, false)
  | some count =>
    if threshold ≤ count + 1 then some (b.put row b.spill, true)
    else some (b.put row (count + 1), false)

def resets : Bool := (g.clk + 1) % p.resetPeriodClk == 0

def resetBanks : List (SpillTable ℤ) :=
  if g.resets p then g.banks.map SpillTable.zero else g.banks

def update (found : Option (Request C)) (order : List ℤ) : Option (Graphene × List (Request C)) :=
  let banks := g.resetBanks p
  match cfg.activation found with
  | none => some (⟨g.clk + 1, banks⟩, [])
  | some req =>
    let bank := cfg.flatBankId req.addrVec
    match atBank banks bank with
    | none => none
    | some b =>
      match activateRow p.activationThreshold order (cfg.rowOf req.addrVec) b with
      | none => none
      | some (b', exceeded) =>
        some (⟨g.clk + 1, setBank banks bank b'⟩,
          if exceeded then [{ addrVec := req.addrVec, typeId := p.vrrReqId }] else [])

def plugin : ControllerPlugin C Graphene (List ℤ) where
  init := setup cfg p
  update := update cfg p
  resets := resets p

/-! ## What the tables know -/

variable {cfg : DeviceConfig C} {p : GrapheneParams} {acts : ℕ} {since since' : ℤ → ℕ}
  {b b' : SpillTable ℤ} {g g' : Graphene} {h : List (Observed C)}

/-- The table of a bank after `acts` activations in the window, `since row` of them of a row since it
was last refreshed. -/
structure BankTracked (p : GrapheneParams) (acts : ℕ) (since : ℤ → ℕ) (b : SpillTable ℤ) : Prop where
  covers : b.Covers p.numTableEntries acts since
  below : acts < (p.numTableEntries + 1) * (p.activationThreshold - 1) →
    ∀ v ∈ b.table.values, v < p.activationThreshold

theorem bankTracked_of_zero (hsize : b.table.values.length = p.numTableEntries)
    (hzero : ∀ v ∈ b.table.values, v = 0) (hspill : b.spill = 0) (hsince : ∀ row, since row = 0) :
    BankTracked p 0 since b where
  covers := SpillTable.covers_of_zero hsize hzero hspill hsince
  below := by
    intro hacts v hv
    have hpos := Nat.pos_of_mul_pos_left hacts
    rw [hzero v hv]
    omega

/-- **One activation**: a row in the table is counted, or refreshed and restarted; another one takes an
entry at the spillover counter, or raises that counter. -/
theorem BankTracked.activateRow (hb : BankTracked p acts since b) {order : List ℤ} {row : ℤ}
    {exceeded : Bool}
    (hact : Graphene.activateRow p.activationThreshold order row b = some (b', exceeded))
    (hsince : ∀ row', since' row' ≤
      if row' = row then (if exceeded then 0 else since row + 1) else since row') :
    BankTracked p (acts + 1) since' b' := by
  -- the spillover counter stays two below the threshold
  have hspill : acts + 1 < (p.numTableEntries + 1) * (p.activationThreshold - 1) →
      b.spill < p.activationThreshold - 1 := fun hacts => hb.covers.spill_lt (by omega)
  have hold : acts + 1 < (p.numTableEntries + 1) * (p.activationThreshold - 1) →
      ∀ v ∈ b.table.values, v < p.activationThreshold := fun hacts => hb.below (by omega)
  -- the entry that changes stays below the threshold, as the others were
  have hbelow : ∀ {t : SpillTable ℤ} {x : ℕ}, (∀ v ∈ t.table.values, v = x ∨ v ∈ b.table.values) →
      (acts + 1 < (p.numTableEntries + 1) * (p.activationThreshold - 1) → x < p.activationThreshold) →
      acts + 1 < (p.numTableEntries + 1) * (p.activationThreshold - 1) →
      ∀ v ∈ t.table.values, v < p.activationThreshold := by
    intro t x hvalues hx hacts v hv
    rcases hvalues v hv with rfl | hv
    · exact hx hacts
    · exact hold hacts v hv
  unfold Graphene.activateRow at hact
  split at hact
  · rename_i habsent
    split at hact
    · cases hact
    · rename_i toRemove hfirst
      cases hact
      obtain ⟨v, hv, hcount⟩ := firstKey_eq_some hfirst
      rw [beq_iff_eq.mp hcount] at hv
      refine ⟨hb.covers.replace hsince habsent hv,
        hbelow (fun v hv => SpillTable.mem_values_replace hv) fun hacts => ?_⟩
      have hlt := hspill hacts
      omega
    · rename_i hfirst
      cases hact
      refine ⟨hb.covers.overflow hsince habsent ?_, hold⟩
      intro v hv heq
      obtain ⟨row', hrow'⟩ := mem_values_iff.mp hv
      have hne := firstKey_eq_none hfirst hrow'
      rw [heq, beq_self_eq_true] at hne
      cases hne
  · rename_i count hpresent
    split at hact
    · cases hact
      refine ⟨hb.covers.restart hpresent hsince,
        hbelow (fun v hv => SpillTable.mem_values_put hv) fun hacts => ?_⟩
      have hlt := hspill hacts
      omega
    · rename_i hlt
      cases hact
      exact ⟨hb.covers.hit hsince hpresent,
        hbelow (fun v hv => SpillTable.mem_values_put hv) fun _ => by omega⟩

theorem BankTracked.since_lt (hb : BankTracked p acts since b)
    (hacts : acts < (p.numTableEntries + 1) * (p.activationThreshold - 1)) (row : ℤ) :
    since row < p.activationThreshold := by
  have hcover := hb.covers.covered row
  have hspill := hb.covers.spill_lt hacts
  cases hl : b.table.lookup row with
  | none =>
    rw [SpillTable.count_of_lookup_none hl] at hcover
    omega
  | some v =>
    rw [SpillTable.count_of_lookup hl] at hcover
    have hbelow := hb.below hacts v (mem_values_iff.mpr ⟨row, hl⟩)
    omega

/-! ## Whole runs -/

/-- Every bank has a table, and it covers what happened to the bank in the current window. -/
structure Tracked (cfg : DeviceConfig C) (p : GrapheneParams) (g : Graphene)
    (h : List (Observed C)) : Prop where
  length : g.banks.length = cfg.numRanks * cfg.numBanksPerRank
  bank : ∀ i b, atBank g.banks i = some b →
    BankTracked p (cfg.windowActs i h) (fun row => cfg.actsSinceRefresh p.vrrReqId i row h) b

theorem tracked_setup (cfg : DeviceConfig C) (p : GrapheneParams) : Tracked cfg p (setup cfg p) [] where
  length := List.length_replicate
  bank := by
    intro i b hb
    rw [List.eq_of_mem_replicate (mem_of_atBank hb)]
    refine bankTracked_of_zero ?_ ?_ rfl fun _ => rfl
    · simp [values, initialTable, initialEntries]
    · intro v hv
      simp only [values, initialTable, initialEntries, List.map_map, List.mem_map] at hv
      obtain ⟨j, -, hj⟩ := hv
      exact hj.symm

theorem Tracked.resetBanks (hg : Tracked cfg p g h) {i : ℤ} (hb : atBank (g.resetBanks p) i = some b) :
    BankTracked p (if g.resets p then 0 else cfg.windowActs i h)
      (fun row => if g.resets p then 0 else cfg.actsSinceRefresh p.vrrReqId i row h) b := by
  unfold Graphene.resetBanks at hb
  split at hb
  · rename_i hreset
    rw [atBank_map] at hb
    obtain ⟨b₀, hb₀, rfl⟩ := Option.map_eq_some_iff.mp hb
    simp only [hreset, if_true]
    refine bankTracked_of_zero ?_ (fun v hv => SpillTable.mem_values_zero hv) rfl fun _ => rfl
    exact (SpillTable.length_values_zero b₀).trans (hg.bank i b₀ hb₀).covers.size
  · rename_i hreset
    simp only [hreset, Bool.false_eq_true, if_false]
    exact hg.bank i b hb

theorem length_resetBanks (p : GrapheneParams) (g : Graphene) :
    (g.resetBanks p).length = g.banks.length := by
  unfold resetBanks
  split
  · exact List.length_map ..
  · rfl

/-- The request for the row that an activation pushed to the threshold. -/
theorem refreshesRow_iff {req : Request C} {exceeded reset : Bool} {found : Option (Request C)}
    {i row : ℤ} :
    cfg.refreshesRow p.vrrReqId i row
        { reset := reset, found := found,
          sent := if exceeded then [{ addrVec := req.addrVec, typeId := p.vrrReqId }] else [] } = true ↔
      exceeded = true ∧ cfg.flatBankId req.addrVec = i ∧ cfg.rowOf req.addrVec = row := by
  cases exceeded with
  | true => simp [refreshesRow]
  | false => simp [refreshesRow]

theorem Tracked.update (hg : Tracked cfg p g h) {found : Option (Request C)} {order : List ℤ}
    {sent : List (Request C)} (hupdate : g.update cfg p found order = some (g', sent)) :
    Tracked cfg p g' ({ reset := g.resets p, found := found, sent := sent } :: h) := by
  unfold Graphene.update at hupdate
  dsimp only at hupdate
  split at hupdate
  · rename_i hnone
    cases hupdate
    refine ⟨(length_resetBanks p g).trans hg.length, ?_⟩
    intro i b hb
    have htracked := hg.resetBanks hb
    simp only [windowActs_cons, actsSinceRefresh_cons,
      any_activatesBank_of_none hnone, any_activatesRow_of_none hnone]
    exact htracked
  · rename_i req hreq
    split at hupdate
    · cases hupdate
    rename_i b₀ hb₀
    split at hupdate
    · cases hupdate
    rename_i b₁ exceeded hact
    cases hupdate
    refine ⟨?_, ?_⟩
    · exact List.length_set.trans ((length_resetBanks p g).trans hg.length)
    intro i b hb
    rw [atBank_setBank hb₀] at hb
    simp only [windowActs_cons, any_activatesBank hreq]
    split at hb
    · -- the bank of the activation
      rename_i hi
      subst hi
      obtain rfl := Option.some.inj hb
      rw [beq_self_eq_true]
      refine (hg.resetBanks hb₀).activateRow hact ?_
      intro row
      simp only [actsSinceRefresh_cons, refreshesRow_iff,
        any_activatesRow hreq, true_and, beq_self_eq_true, Bool.true_and]
      by_cases hrow : row = cfg.rowOf req.addrVec
      · subst hrow
        cases exceeded <;> simp
      · have hne : (cfg.rowOf req.addrVec == row) = false := beq_eq_false_iff_ne.mpr (Ne.symm hrow)
        simp [hrow, Ne.symm hrow, hne]
    · -- any other bank
      rename_i hi
      have hne : (cfg.flatBankId req.addrVec == i) = false := beq_eq_false_iff_ne.mpr (Ne.symm hi)
      simp only [actsSinceRefresh_cons, refreshesRow_iff, Ne.symm hi, false_and, and_false,
        any_activatesRow hreq, hne, Bool.false_and, if_false, Bool.toNat_false, add_zero]
      exact hg.resetBanks hb

theorem tracked_of_reachable {s : PluginRun C Graphene}
    (h : (plugin cfg p).machine.Reachable s) : Tracked cfg p s.plugin s.history :=
  ControllerPlugin.invariant (tracked_setup cfg p)
    (fun _ _ _ _ _ hinv _ hupdate => hinv.update hupdate) h

/-- **No row reaches the threshold unrefreshed.** While the window of a bank holds fewer than `(N + 1) *
(T - 1)` activations, every row of it was activated fewer than `T` times since its last refresh request
in the window. -/
theorem refresh_requested_in_time (cfg : DeviceConfig C) (p : GrapheneParams)
    {s : PluginRun C Graphene} (h : (plugin cfg p).machine.Reachable s) {v : AddrVec}
    (hv : cfg.ValidBank v)
    (hwindow : cfg.windowActs (cfg.flatBankId v) s.history <
      (p.numTableEntries + 1) * (p.activationThreshold - 1)) (row : ℤ) :
    cfg.actsSinceRefresh p.vrrReqId (cfg.flatBankId v) row s.history < p.activationThreshold := by
  have htracked := tracked_of_reachable h
  obtain ⟨b, hb⟩ := exists_atBank hv.flatBankId.1 (by rw [htracked.length]; exact_mod_cast hv.flatBankId.2)
  exact (htracked.bank _ b hb).since_lt hwindow row

def smallParams : GrapheneParams := ⟨1, 3, 100, DDR5VRR.typeVictimRowRefresh⟩

/-- Row 5 is activated three times: the third activation sends the request. -/
theorem third_activation_requests_refresh :
    ∃ s, (plugin DDR5VRR.oneBank smallParams).machine.Reachable s ∧
      s.history.map (fun o => o.sent.length) = [1, 0, 0] ∧
      DDR5VRR.oneBank.actsSinceRefresh DDR5VRR.typeVictimRowRefresh
        (DDR5VRR.oneBank.flatBankId [0, 0, 0, 0, 5, 0]) 5 s.history < 3 := by
  obtain ⟨s, hs, hsent, hwindow⟩ := Machine.exists_reachable
    (m := (plugin DDR5VRR.oneBank smallParams).machine)
    (P := fun s => s.history.map (fun o => o.sent.length) = [1, 0, 0] ∧
      DDR5VRR.oneBank.windowActs (DDR5VRR.oneBank.flatBankId [0, 0, 0, 0, 5, 0]) s.history = 3)
    [(some (DDR5VRR.activateRow 5), [-16]), (some (DDR5VRR.activateRow 5), [5]),
      (some (DDR5VRR.activateRow 5), [5])] (by decide +kernel)
  refine ⟨s, hs, hsent, refresh_requested_in_time _ _ hs (by decide) ?_ 5⟩
  rw [hwindow]
  decide

end Graphene

end MultiCoreMemory
