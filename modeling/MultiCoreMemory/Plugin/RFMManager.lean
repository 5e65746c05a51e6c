import MultiCoreMemory.Dram.DDR5VRR

/-!
# The refresh-management plugin (`plugin/rfm_manager.cpp`)

One activation counter a bank.  When a counter reaches the threshold, the counters of **all** banks of
all ranks are cleared and one RFM request is sent, to the rank of the activated bank.
-/

namespace MultiCoreMemory

open Option DeviceConfig DDR5VRR AddrVec

variable {C : Type}

structure RFMParams where
  rfmThresh : ℕ := 80
  rfmReqId : ℕ

structure RFMManager where
  clk : ℕ := 0
  bankCtrs : List ℕ
  rfmCounter : ℕ := 0

namespace RFMManager

variable (cfg : DeviceConfig C) (p : RFMParams) (v : AddrVec) (s : RFMManager)
  (found : Option (Request C))

def setup : RFMManager where
  bankCtrs := List.replicate (cfg.numRanks * cfg.numBanksPerRank) 0

def rfmRequest (req : Request C) : Request C :=
  { addrVec := (req.addrVec.set cfg.bankgroupLevel (-1)).set cfg.bankLevel (-1)
    typeId := p.rfmReqId }

/-- `update`; `accepted` is the answer of `priority_send`, the program ends if it is `false`. -/
def update (accepted : Bool) : Option (RFMManager × List (Request C)) :=
  let s := { s with clk := s.clk + 1 }
  match cfg.activation found with
  | none => some (s, [])
  | some req =>
    let bank := cfg.flatBankId req.addrVec
    match atBank s.bankCtrs bank with
    | none => none
    | some ctr =>
      let s := { s with bankCtrs := setBank s.bankCtrs bank (ctr + 1) }
      if ctr + 1 < p.rfmThresh then some (s, [])
      else if accepted then
        some ({ s with
            bankCtrs := s.bankCtrs.map fun _ => 0
            rfmCounter := s.rfmCounter + 1 },
          [rfmRequest cfg p req])
      else none

def plugin : ControllerPlugin C RFMManager Bool where
  init := setup cfg
  update := update cfg p

/-! ## Activations and RFM requests -/

def managesRank (rank : ℤ) (o : Observed C) : Bool :=
  o.sent.any fun r => r.typeId == p.rfmReqId && r.addrVec.level cfg.rankLevel == rank &&
    r.addrVec.level cfg.bankgroupLevel == -1 && r.addrVec.level cfg.bankLevel == -1

/-- The activations of the bank at `v` after the last RFM request for its rank. -/
def actsSinceRfm (h : List (Observed C)) : ℕ :=
  tally (fun _ => false) (managesRank cfg p (v.level cfg.rankLevel))
    (fun o => o.found.any (cfg.activatesBank (cfg.flatBankId v))) h

/-- The activations of the bank at `v` up to the last update, without an RFM request for its rank
between. -/
def actsWithoutRfm : List (Observed C) → ℕ
  | [] => 0
  | o :: h => actsSinceRfm cfg p v h + (o.found.any (cfg.activatesBank (cfg.flatBankId v))).toNat

theorem actsSinceRfm_cons (o : Observed C) (h : List (Observed C)) :
    actsSinceRfm cfg p v (o :: h) =
      if managesRank cfg p (v.level cfg.rankLevel) o then 0
      else actsSinceRfm cfg p v h + (o.found.any (cfg.activatesBank (cfg.flatBankId v))).toNat := rfl

def ValidActivation : Prop :=
  ∀ req, cfg.activation found = some req → cfg.ValidBank req.addrVec

def ClearsOwnRank : Prop :=
  ∀ req ctr, cfg.activation found = some req →
    atBank s.bankCtrs (cfg.flatBankId req.addrVec) = some ctr → p.rfmThresh ≤ ctr + 1 →
    ∀ v, cfg.ValidBank v → v.level cfg.rankLevel ≠ req.addrVec.level cfg.rankLevel →
      atBank s.bankCtrs (cfg.flatBankId v) = some 0

variable {cfg : DeviceConfig C} {p : RFMParams} {s s' : RFMManager} {h : List (Observed C)}

/-- Every counter is the number of activations since the last RFM request for the rank, below the
threshold. -/
structure Exact (cfg : DeviceConfig C) (p : RFMParams) (s : RFMManager) (h : List (Observed C)) :
    Prop where
  counter : ∀ v, cfg.ValidBank v → atBank s.bankCtrs (cfg.flatBankId v) = some (actsSinceRfm cfg p v h)
  below : ∀ v, cfg.ValidBank v → actsSinceRfm cfg p v h < p.rfmThresh

theorem exact_setup (hthresh : 1 ≤ p.rfmThresh) : Exact cfg p (setup cfg) [] where
  counter := by
    intro v hv
    have hlength : cfg.flatBankId v < (setup cfg).bankCtrs.length := by
      simpa [setup] using hv.flatBankId.2
    obtain ⟨ctr, hctr⟩ := exists_atBank hv.flatBankId.1 hlength
    rw [hctr, List.eq_of_mem_replicate (mem_of_atBank hctr)]
    rfl
  below := fun _ _ => hthresh

theorem managesRank_rfmRequest {req : Request C} (hreq : cfg.ValidBank req.addrVec) (rank : ℤ)
    (found : Option (Request C)) :
    managesRank cfg p rank { found := found, sent := [rfmRequest cfg p req] } =
      (req.addrVec.level cfg.rankLevel == rank) := by
  have hbank : cfg.bankLevel < req.addrVec.length := by
    by_contra hlong
    have hdefault : req.addrVec.level cfg.bankLevel = -1 := by simp [level, hlong]
    have hnonneg := hreq.bank.1
    omega
  have hgroup : cfg.bankgroupLevel ≤ cfg.bankLevel := by
    unfold bankgroupLevel bankLevel
    split <;> omega
  have hrank : cfg.rankLevel < cfg.bankgroupLevel := Nat.lt_succ_self _
  have hrankSame : (rfmRequest cfg p req).addrVec.level cfg.rankLevel =
      req.addrVec.level cfg.rankLevel := by
    rw [rfmRequest, level_set_ne (by omega), level_set_ne (by omega)]
  have hbankAll : (rfmRequest cfg p req).addrVec.level cfg.bankLevel = -1 := by
    rw [rfmRequest, level_set_self (by rwa [List.length_set])]
  have hgroupAll : (rfmRequest cfg p req).addrVec.level cfg.bankgroupLevel = -1 := by
    rw [rfmRequest]
    by_cases heq : cfg.bankLevel = cfg.bankgroupLevel
    · rw [heq, level_set_self (by rw [List.length_set]; omega)]
    · rw [level_set_ne heq, level_set_self (by omega)]
  have htype : (rfmRequest cfg p req).typeId = p.rfmReqId := rfl
  simp [managesRank, hrankSame, hbankAll, hgroupAll, htype]

/-- Nothing was activated, a counter is raised, or all counters are cleared with a request. -/
theorem update_cases {found : Option (Request C)} {accepted : Bool} {sent : List (Request C)}
    (hupdate : s.update cfg p found accepted = some (s', sent)) :
    (cfg.activation found = none ∧ s'.bankCtrs = s.bankCtrs ∧ sent = []) ∨
      ∃ req ctr, cfg.activation found = some req ∧
        atBank s.bankCtrs (cfg.flatBankId req.addrVec) = some ctr ∧
        ((ctr + 1 < p.rfmThresh ∧ sent = [] ∧
          s'.bankCtrs = setBank s.bankCtrs (cfg.flatBankId req.addrVec) (ctr + 1)) ∨
        (p.rfmThresh ≤ ctr + 1 ∧ sent = [rfmRequest cfg p req] ∧
          s'.bankCtrs = (setBank s.bankCtrs (cfg.flatBankId req.addrVec) (ctr + 1)).map fun _ => 0)) := by
  unfold RFMManager.update at hupdate
  dsimp only at hupdate
  split at hupdate
  · rename_i hnone
    cases hupdate
    exact .inl ⟨hnone, rfl, rfl⟩
  · rename_i req hreq
    split at hupdate
    · cases hupdate
    rename_i ctr hctr
    refine .inr ⟨req, ctr, hreq, hctr, ?_⟩
    split at hupdate
    · rename_i hlt
      cases hupdate
      exact .inl ⟨hlt, rfl, rfl⟩
    · rename_i hge
      split at hupdate
      · cases hupdate
        exact .inr ⟨Nat.le_of_not_lt hge, rfl, rfl⟩
      · cases hupdate

section

variable {found : Option (Request C)} {req : Request C} {ctr : ℕ}

theorem Exact.idle (hs : Exact cfg p s h) (hnone : cfg.activation found = none)
    (hctrs : s'.bankCtrs = s.bankCtrs) : Exact cfg p s' ({ found := found, sent := [] } :: h) := by
  have hsame : ∀ v, actsSinceRfm cfg p v ({ found := found, sent := [] } :: h) =
      actsSinceRfm cfg p v h := by
    intro v
    simp [actsSinceRfm_cons, managesRank, any_activatesBank_of_none hnone]
  constructor
  · intro v hv
    rw [hsame, hctrs]
    exact hs.counter v hv
  · intro v hv
    rw [hsame]
    exact hs.below v hv

theorem Exact.count (hs : Exact cfg p s h) (hreq : cfg.activation found = some req)
    (hctr : atBank s.bankCtrs (cfg.flatBankId req.addrVec) = some ctr) (hlt : ctr + 1 < p.rfmThresh)
    (hctrs : s'.bankCtrs = setBank s.bankCtrs (cfg.flatBankId req.addrVec) (ctr + 1)) :
    Exact cfg p s' ({ found := found, sent := [] } :: h) := by
  have hcount : ∀ v, actsSinceRfm cfg p v ({ found := found, sent := [] } :: h) =
      actsSinceRfm cfg p v h + (cfg.flatBankId req.addrVec == cfg.flatBankId v).toNat := by
    intro v
    simp [actsSinceRfm_cons, managesRank, any_activatesBank hreq]
  -- two addresses of one bank have the same counter
  have hbank : ∀ v, cfg.ValidBank v → cfg.flatBankId v = cfg.flatBankId req.addrVec →
      actsSinceRfm cfg p v h = ctr := by
    intro v hv heq
    have hcounter := hs.counter v hv
    rw [heq, hctr] at hcounter
    exact (some.inj hcounter).symm
  constructor
  · intro v hv
    rw [hctrs, atBank_setBank hctr, hcount]
    by_cases heq : cfg.flatBankId v = cfg.flatBankId req.addrVec
    · simp [heq, hbank v hv heq]
    · simpa [heq, beq_eq_false_iff_ne.mpr (Ne.symm heq)] using hs.counter v hv
  · intro v hv
    rw [hcount]
    by_cases heq : cfg.flatBankId v = cfg.flatBankId req.addrVec
    · simpa [heq, hbank v hv heq] using hlt
    · simpa [beq_eq_false_iff_ne.mpr (Ne.symm heq)] using hs.below v hv

theorem Exact.clear (hs : Exact cfg p s h) (hreq : cfg.activation found = some req)
    (hvalid : cfg.ValidBank req.addrVec)
    (hctr : atBank s.bankCtrs (cfg.flatBankId req.addrVec) = some ctr)
    (hothers : ∀ v, cfg.ValidBank v → v.level cfg.rankLevel ≠ req.addrVec.level cfg.rankLevel →
      atBank s.bankCtrs (cfg.flatBankId v) = some 0)
    (hctrs : s'.bankCtrs =
      (setBank s.bankCtrs (cfg.flatBankId req.addrVec) (ctr + 1)).map fun _ => 0) :
    Exact cfg p s' ({ found := found, sent := [rfmRequest cfg p req] } :: h) := by
  have hzero : ∀ v, cfg.ValidBank v → actsSinceRfm cfg p v
      ({ found := found, sent := [rfmRequest cfg p req] } :: h) = 0 := by
    intro v hv
    rw [actsSinceRfm_cons, managesRank_rfmRequest hvalid]
    by_cases hrank : v.level cfg.rankLevel = req.addrVec.level cfg.rankLevel
    · simp [hrank]
    · have hother := hothers v hv hrank
      rw [hs.counter v hv] at hother
      have hne : cfg.flatBankId req.addrVec ≠ cfg.flatBankId v := fun heq =>
        hrank ((flatBankId_eq_iff hv hvalid).mp heq.symm _ le_rfl (Nat.le_add_right _ _))
      simp [Ne.symm hrank, any_activatesBank hreq, hne, some.inj hother]
  constructor
  · intro v hv
    rw [hzero v hv, hctrs, atBank_map, atBank_setBank hctr]
    by_cases heq : cfg.flatBankId v = cfg.flatBankId req.addrVec
    · simp [heq]
    · simp [heq, hs.counter v hv]
  · intro v hv
    rw [hzero v hv]
    exact (Nat.zero_le _).trans_lt (hs.below v hv)

end

/-- **One update** that clears no counter of another rank. -/
theorem Exact.update (hs : Exact cfg p s h) {found : Option (Request C)} {accepted : Bool}
    {sent : List (Request C)} (hvalid : ValidActivation cfg found)
    (hclears : ClearsOwnRank cfg p s found)
    (hupdate : s.update cfg p found accepted = some (s', sent)) :
    Exact cfg p s' ({ found := found, sent := sent } :: h) := by
  obtain ⟨hnone, hctrs, rfl⟩ | ⟨req, ctr, hreq, hctr, ⟨hlt, rfl, hctrs⟩ | ⟨hge, rfl, hctrs⟩⟩ :=
    update_cases hupdate
  · exact hs.idle hnone hctrs
  · exact hs.count hreq hctr hlt hctrs
  · exact hs.clear hreq (hvalid req hreq) hctr (hclears req ctr hreq hctr hge) hctrs

theorem Exact.actsWithoutRfm_le (hs : Exact cfg p s h) {v : AddrVec} (hv : cfg.ValidBank v)
    (o : Observed C) : actsWithoutRfm cfg p v (o :: h) ≤ p.rfmThresh := by
  have hbelow := hs.below v hv
  have hhit := Bool.toNat_le (o.found.any (cfg.activatesBank (cfg.flatBankId v)))
  simp only [actsWithoutRfm]
  omega

theorem clearsOwnRank_of_one_rank (hranks : cfg.numRanks ≤ 1) {found : Option (Request C)}
    (hvalid : ValidActivation cfg found) : ClearsOwnRank cfg p s found := by
  intro req ctr hreq hctr hge v hv hne
  obtain ⟨hr, hr'⟩ := hv.rank
  obtain ⟨hr₁, hr₁'⟩ := (hvalid req hreq).rank
  omega

theorem bounded_of_reachable (hthresh : 1 ≤ p.rfmThresh) {r : PluginRun C RFMManager}
    (hr : (plugin cfg p).machine.ReachableWhen
      (fun r i => ValidActivation cfg i.1 ∧ ClearsOwnRank cfg p r.plugin i.1) r) :
    Exact cfg p r.plugin r.history ∧
      ∀ v, cfg.ValidBank v → actsWithoutRfm cfg p v r.history ≤ p.rfmThresh := by
  refine ControllerPlugin.invariant (P := plugin cfg p)
    (I := fun s h => Exact cfg p s h ∧ ∀ v, cfg.ValidBank v → actsWithoutRfm cfg p v h ≤ p.rfmThresh)
    ⟨exact_setup hthresh, fun _ _ => Nat.zero_le _⟩ ?_ hr
  rintro r found accepted s' sent ⟨hexact, -⟩ ⟨hvalid, hclears⟩ hupdate
  exact ⟨hexact.update hvalid hclears hupdate, fun v hv => hexact.actsWithoutRfm_le hv _⟩

/-- **Activations between RFM requests.** If no update clears the counter of a bank of another rank, no
bank gets more than `rfmThresh` activations without an RFM request for its rank between them; with one
rank no update does. -/
theorem acts_bounded_without_foreign_reset (cfg : DeviceConfig C) (p : RFMParams)
    (hthresh : 1 ≤ p.rfmThresh) :
    (∀ r, (plugin cfg p).machine.ReachableWhen
        (fun r i => ValidActivation cfg i.1 ∧ ClearsOwnRank cfg p r.plugin i.1) r →
      ∀ v, cfg.ValidBank v → actsWithoutRfm cfg p v r.history ≤ p.rfmThresh) ∧
    (cfg.numRanks ≤ 1 → ∀ r, (plugin cfg p).machine.ReachableWhen
        (fun _ i => ValidActivation cfg i.1) r →
      ∀ v, cfg.ValidBank v → actsWithoutRfm cfg p v r.history ≤ p.rfmThresh) := by
  refine ⟨fun r hr => (bounded_of_reachable hthresh hr).2, ?_⟩
  intro hranks r hr
  refine (bounded_of_reachable hthresh (hr.mono ?_)).2
  intro r i hvalid
  exact ⟨hvalid, clearsOwnRank_of_one_rank hranks hvalid⟩

def clearsNothing (cfg : DeviceConfig C) (p : RFMParams) (s : RFMManager)
    (found : Option (Request C)) : Bool :=
  match cfg.activation found with
  | none => true
  | some req =>
    decide (cfg.ValidBank req.addrVec) &&
      ((atBank s.bankCtrs (cfg.flatBankId req.addrVec)).all (· + 1 < p.rfmThresh) ||
        decide (∀ i < cfg.numRanks * cfg.numBanksPerRank, (i : ℤ) = cfg.flatBankId req.addrVec ∨
          atBank s.bankCtrs i = some 0))

theorem clearsOwnRank_of_clearsNothing {found : Option (Request C)}
    (h : clearsNothing cfg p s found = true) :
    ValidActivation cfg found ∧ ClearsOwnRank cfg p s found := by
  unfold clearsNothing at h
  split at h
  · rename_i hnone
    constructor
    · intro req hreq
      rw [hnone] at hreq
      cases hreq
    · intro req ctr hreq
      rw [hnone] at hreq
      cases hreq
  · rename_i req hreq
    simp only [Bool.and_eq_true, Bool.or_eq_true, decide_eq_true_eq] at h
    obtain ⟨hvalid, hzero⟩ := h
    constructor
    · intro req' hreq'
      rwa [← some.inj (hreq.symm.trans hreq')]
    · intro req' ctr hreq' hctr hge v hv hrank
      rw [← some.inj (hreq.symm.trans hreq')] at hctr hrank
      rcases hzero with hlt | hzero
      · simp only [hctr, all_some, decide_eq_true_eq] at hlt
        omega
      · obtain ⟨hlow, hhigh⟩ := hv.flatBankId
        have hi : ((cfg.flatBankId v).toNat : ℤ) = cfg.flatBankId v := Int.toNat_of_nonneg hlow
        have hcases := hzero (cfg.flatBankId v).toNat (by omega)
        rw [hi] at hcases
        refine hcases.resolve_left fun heq => hrank ?_
        exact (flatBankId_eq_iff hv hvalid).mp heq _ le_rfl (Nat.le_add_right _ _)

abbrev twoRanks : DeviceConfig DDR5VRR.Command := deviceConfig 2 1 1 16 64

def act (rank : ℤ) : Option (Request DDR5VRR.Command) × Bool :=
  (some (command .ACT [0, rank, 0, 0, 0, 0]), true)

/-- The bank of rank 0 is activated up to the threshold, then the bank of rank 1. -/
theorem acts_bounded_one_rank_after_the_other :
    ∃ r, (plugin twoRanks ⟨2, typeRfm⟩).machine.Reachable r ∧
      r.history.map (fun o => o.sent.length) = [1, 0, 1, 0] ∧
      actsWithoutRfm twoRanks ⟨2, typeRfm⟩ [0, 1, 0, 0, 0, 0] r.history ≤ 2 := by
  obtain ⟨r, hr, hsent⟩ := Machine.exists_reachableWhen
    (m := (plugin twoRanks ⟨2, typeRfm⟩).machine)
    (fun r i => clearsNothing twoRanks ⟨2, typeRfm⟩ r.plugin i.1)
    (fun _ _ => clearsOwnRank_of_clearsNothing)
    (P := fun r => r.history.map (fun o => o.sent.length) = [1, 0, 1, 0])
    [act 0, act 0, act 1, act 1] (by decide +kernel) (by decide +kernel)
  exact ⟨r, hr.reachable, hsent,
    (acts_bounded_without_foreign_reset _ _ (by decide)).1 r hr _ (by decide)⟩

/-- **An RFM request for one rank hides the activations of another**: the bank of rank 1 is activated
three times, and its counter is cleared by requests that go to rank 0. -/
theorem foreign_reset_hides_activations :
    ∃ r, (plugin twoRanks ⟨2, typeRfm⟩).machine.Reachable r ∧
      actsWithoutRfm twoRanks ⟨2, typeRfm⟩ [0, 1, 0, 0, 0, 0] r.history = 3 :=
  Machine.exists_reachable [act 1, act 0, act 0, act 1, act 0, act 0, act 1] (by decide +kernel)

end RFMManager

end MultiCoreMemory
