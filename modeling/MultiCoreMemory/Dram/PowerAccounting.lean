import MultiCoreMemory.Dram.PowerWalk

/-!
# Every cycle of a rank is accounted once

A rank is active while a bank is open, refreshing between a `REFab` and its `REFab_end`, and idle
otherwise.  The record of a rank keeps up with that as long as no precharge goes to a closed bank while
exactly one other bank is open, and no refresh begins while another is pending.
-/

namespace MultiCoreMemory

open List Nat

namespace DDR4

/-! ## The record of a rank -/

/-- The record has the state of the rank, and its cycles add up to the start of the open interval. -/
inductive RankAccounted (d : Device) (c r refresh : ℕ) (st : PowerStats) : Prop
  | idle : st.curPowerState = .IDLE → ¬ OpenIn d.channels c r → d.refreshPending c r = false →
      st.activeCycles + st.idleCycles + refresh = st.idleStartCycle → RankAccounted d c r refresh st
  | active : st.curPowerState = .ACTIVE → OpenIn d.channels c r → d.refreshPending c r = false →
      st.activeCycles + st.idleCycles + refresh = st.activeStartCycle → RankAccounted d c r refresh st
  | refreshing : st.curPowerState = .REFRESHING → d.refreshPending c r = true →
      st.activeCycles + st.idleCycles + refresh = d.clk → RankAccounted d c r refresh st

variable {d : Device} {c r refresh : ℕ} {st : PowerStats}

theorem RankAccounted.finalizeRank (h : RankAccounted d c r refresh st) :
    (st.finalizeRank d.clk).activeCycles + (st.finalizeRank d.clk).idleCycles + refresh = d.clk := by
  unfold PowerStats.finalizeRank
  cases h with
  | idle hstate _ _ hsum =>
    rw [hstate]
    dsimp only
    omega
  | active hstate _ _ hsum =>
    rw [hstate]
    dsimp only
    omega
  | refreshing hstate _ hsum =>
    rw [hstate]
    exact hsum

theorem RankAccounted.count (h : RankAccounted d c r refresh st) (cmd : CmdCounted) (n : ℕ) :
    RankAccounted d c r refresh (st.count cmd n) := by
  cases h with
  | idle hstate hopen hpending hsum => exact .idle hstate hopen hpending hsum
  | active hstate hopen hpending hsum => exact .active hstate hopen hpending hsum
  | refreshing hstate hpending hsum => exact .refreshing hstate hpending hsum

theorem RankAccounted.congr {d' : Device} (h : RankAccounted d c r refresh st)
    (hopen : OpenIn d'.channels c r ↔ OpenIn d.channels c r)
    (hpending : d'.refreshPending c r = d.refreshPending c r) (hclk : d'.clk = d.clk) :
    RankAccounted d' c r refresh st := by
  cases h with
  | idle hstate hclosed hnone hsum => exact .idle hstate (hopen.not.mpr hclosed) (hpending.trans hnone) hsum
  | active hstate hopened hnone hsum => exact .active hstate (hopen.mpr hopened) (hpending.trans hnone) hsum
  | refreshing hstate hsome hsum => exact .refreshing hstate (hpending.trans hsome) (by rw [hclk]; exact hsum)

/-! ## A command to the rank -/

section

variable {cfg : Config} {d : Device} {logs : ℕ → List (TimingEvent Command)} {addrVec : AddrVec}
  {c r refresh : ℕ} {st : PowerStats} {rk : Node Command State 2}

variable {i : BankId} {b : Bank} {command : Command}

theorem noneOpen_iff (hrk : rankIn (PowerDevice.timed cfg d command addrVec) c r = some rk) :
    openBankCount 2 rk = 0 ↔ ¬ OpenIn d.channels c r := by
  rw [openBankCount_eq_zero_iff hrk, openIn_timed]

theorem RankAccounted.activate (h : RankAccounted d i.channel i.rank refresh st)
    (hinv : BanksInv cfg d logs) (haddr : ExactAddr addrVec i) (hb : d.bankAt i = some b)
    (hready : d.checkReady cfg .ACT addrVec = true)
    (hrk : rankIn (PowerDevice.timed cfg d .ACT addrVec) i.channel i.rank = some rk) :
    RankAccounted (d.issueCommand cfg .ACT addrVec) i.channel i.rank refresh
      (powerAfter .ACT (openBankCount 2 rk) (refreshingBankCount 2 rk) d.clk st) := by
  have hpending : d.refreshPending i.channel i.rank = false := by
    rw [Device.refreshPending, any_eq_false]
    intro fa hfa hnames
    rw [show fa.names i.channel i.rank = namesRank fa.addrVec i from rfl,
      hinv.no_pending_of_ready haddr hb hready fa hfa] at hnames
    cases hnames
  have hrefreshing := hinv.refreshingBankCount_eq_zero hpending hrk
  have hopens : OpenIn (d.issueCommand cfg .ACT addrVec).channels i.channel i.rank := by
    apply openIn_issueCommand hb
    have hreach : reaches .ACT addrVec i = true := (namesBank_eq_true_iff haddr).mpr rfl
    rw [hreach]
    rfl
  have hpending' : (d.issueCommand cfg .ACT addrVec).refreshPending i.channel i.rank = false := by
    rw [refreshPending_issueCommand cfg d addrVec (by decide), hpending]
  apply RankAccounted.count
  cases h with
  | idle hstate hclosed _ hsum =>
    rw [PowerStats.actPower, if_pos ⟨(noneOpen_iff hrk).mpr hclosed, hrefreshing⟩]
    refine .active rfl hopens hpending' ?_
    simp only [PowerStats.becomeActive]
    omega
  | active hstate hopen _ hsum =>
    rw [PowerStats.actPower, if_neg fun hidle => (noneOpen_iff hrk).mp hidle.1 hopen]
    exact .active hstate hopens hpending' hsum
  | refreshing _ htrue _ =>
    rw [hpending] at htrue
    cases htrue

/-- A bank is open, or no open bank of its rank is the only one. -/
def RegularPrecharge (d : Device) (i : BankId) (b : Bank) : Prop :=
  b.state ≠ .Opened → ∀ j b', j.channel = i.channel → j.rank = i.rank →
    d.bankAt j = some b' → b'.state = .Opened → OtherOpen d.channels j

/-- The only open bank of a rank is the one that is precharged, if precharges are regular. -/
theorem opened_of_one_open {j : BankId} {b' : Bank}
    (hunique : ∀ k b'', k.channel = i.channel → k.rank = i.rank → d.bankAt k = some b'' →
      b''.state = .Opened → k = j)
    (hregular : RegularPrecharge d i b)
    (hjc : j.channel = i.channel) (hjr : j.rank = i.rank) (hj : d.bankAt j = some b')
    (hjopen : b'.state = .Opened) : b.state = .Opened := by
  by_contra hclosed
  obtain ⟨k, b'', hne, hkc, hkr, hk, hkopen⟩ := hregular hclosed j b' hjc hjr hj hjopen
  exact hne (hunique k b'' (hkc.trans hjc) (hkr.trans hjr) hk hkopen)

theorem not_openIn_precharge (haddr : ExactAddr addrVec i)
    (hunique : ∀ k b, k.channel = i.channel → k.rank = i.rank → d.bankAt k = some b →
      b.state = .Opened → k = i) :
    ¬ OpenIn (d.issueCommand cfg .PRE addrVec).channels i.channel i.rank := by
  intro hopen
  obtain ⟨k, b, hkc, hkr, hk, ⟨hreach, hkopen⟩ | ⟨-, hkopen⟩⟩ := exists_of_openIn_issueCommand hopen
  · have hki : reaches .PRE addrVec k = true :=
      (namesBank_eq_true_iff haddr).mpr (hunique k b hkc hkr hk hkopen)
    rw [hki] at hreach
    cases hreach
  · cases hkopen

theorem openIn_precharge (haddr : ExactAddr addrVec i) (hb : d.bankAt i = some b)
    (hrk : rankIn (PowerDevice.timed cfg d .PRE addrVec) i.channel i.rank = some rk)
    (htwo : 2 ≤ openBankCount 2 rk) :
    OpenIn (d.issueCommand cfg .PRE addrVec).channels i.channel i.rank := by
  obtain ⟨k, b', hne, hkc, hkr, hk, hkopen⟩ := exists_other_open hrk htwo ((bankIn_timed i).trans hb)
  rw [bankIn_timed] at hk
  rw [← hkc, ← hkr]
  apply openIn_issueCommand hk
  have hreach : ¬ reaches .PRE addrVec k = true := fun hk' => hne ((namesBank_eq_true_iff haddr).mp hk')
  rw [if_neg hreach]
  exact hkopen

theorem RankAccounted.precharge (h : RankAccounted d i.channel i.rank refresh st)
    (hinv : BanksInv cfg d logs) (haddr : ExactAddr addrVec i) (hb : d.bankAt i = some b)
    (hregular : RegularPrecharge d i b)
    (hrk : rankIn (PowerDevice.timed cfg d .PRE addrVec) i.channel i.rank = some rk) :
    RankAccounted (d.issueCommand cfg .PRE addrVec) i.channel i.rank refresh
      (powerAfter .PRE (openBankCount 2 rk) (refreshingBankCount 2 rk) d.clk st) := by
  have hpending' : (d.issueCommand cfg .PRE addrVec).refreshPending i.channel i.rank =
      d.refreshPending i.channel i.rank := refreshPending_issueCommand cfg d addrVec (by decide) ..
  have hzero := noneOpen_iff hrk
  apply RankAccounted.count
  rw [PowerStats.prePower]
  cases h with
  | idle hstate hclosed hnone hsum =>
    have hcount := hzero.mpr hclosed
    rw [if_neg (by omega)]
    refine .idle hstate (not_openIn_precharge haddr ?_) (hpending'.trans hnone) hsum
    intro k b' hkc hkr hk hkopen
    exact absurd ⟨k, b', hkc, hkr, hk, hkopen⟩ hclosed
  | active hstate hopen hnone hsum =>
    have hpos : openBankCount 2 rk ≠ 0 := fun hcount => hzero.mp hcount hopen
    obtain ⟨j, b', hjc, hjr, hj, hjopen⟩ := hopen
    by_cases hone : openBankCount 2 rk = 1
    · -- the one open bank is the one that is closed
      have hunique : ∀ k b'', k.channel = i.channel → k.rank = i.rank → d.bankAt k = some b'' →
          b''.state = .Opened → k = j := by
        intro k b'' hkc hkr hk hkopen
        rw [← hjc, ← hjr] at hrk
        exact open_unique_of_count_eq_one hrk hone (hkc.trans hjc.symm) (hkr.trans hjr.symm)
          ((bankIn_timed j).trans hj) ((bankIn_timed k).trans hk) hjopen hkopen
      obtain rfl : i = j :=
        hunique i b rfl rfl hb (opened_of_one_open hunique hregular hjc hjr hj hjopen)
      rw [if_pos ⟨hone, hinv.refreshingBankCount_eq_zero hnone hrk⟩]
      refine .idle rfl (not_openIn_precharge haddr hunique) (hpending'.trans hnone) ?_
      simp only [PowerStats.becomeIdle]
      omega
    · -- another bank stays open
      rw [if_neg fun hidle => hone hidle.1]
      exact .active hstate (openIn_precharge haddr hb hrk (by omega)) (hpending'.trans hnone) hsum
  | refreshing hstate hsome hsum =>
    have hcount := hzero.mpr (hinv.not_openIn hsome)
    rw [if_neg (by omega)]
    exact .refreshing hstate (hpending'.trans hsome) hsum

variable (h : RankAccounted d c r refresh st)
include h

theorem RankAccounted.prechargeAll (hinv : BanksInv cfg d logs) (hch : addrVec.level channel = c)
    (hr : addrVec.level rank = r) (hopen : OpenIn d.channels c r)
    (hrk : rankIn (PowerDevice.timed cfg d .PREA addrVec) c r = some rk) :
    RankAccounted (d.issueCommand cfg .PREA addrVec) c r refresh
      (powerAfter .PREA (openBankCount 2 rk) (refreshingBankCount 2 rk) d.clk st) := by
  have hpos : openBankCount 2 rk ≠ 0 := fun hzero => (noneOpen_iff hrk).mp hzero hopen
  have hidle : ¬ (openBankCount 2 rk = 0 ∧ refreshingBankCount 2 rk = 0) := fun hidle => hpos hidle.1
  cases h with
  | idle _ hclosed _ _ => exact absurd hopen hclosed
  | active hstate _ hnone hsum =>
    simp only [powerAfter, PowerStats.preaPower, if_neg hidle]
    refine .idle rfl ?_ ?_ ?_
    · intro hopen'
      obtain ⟨j, b, hjc, hjr, -, ⟨hreach, -⟩ | ⟨-, hj⟩⟩ := exists_of_openIn_issueCommand hopen'
      · have hnames : reaches .PREA addrVec j = true := (namesRank_eq_true_iff hch hr j).mpr ⟨hjc, hjr⟩
        rw [hnames] at hreach
        cases hreach
      · cases hj
    · rw [refreshPending_issueCommand cfg d addrVec (by decide), hnone]
    · simp only [PowerStats.becomeIdle, PowerStats.count]
      omega
  | refreshing _ hsome _ => exact absurd hopen (hinv.not_openIn hsome)

theorem RankAccounted.access {command : Command} (haccess : command = .RD ∨ command = .WR)
    (openBanks refreshingBanks : ℕ) :
    RankAccounted (d.issueCommand cfg command addrVec) c r refresh
      (powerAfter command openBanks refreshingBanks d.clk st) := by
  have hopen : OpenIn (d.issueCommand cfg command addrVec).channels c r ↔ OpenIn d.channels c r := by
    have hbank : ∀ i, bankIn (d.issueCommand cfg command addrVec).channels i = bankIn d.channels i := by
      intro i
      refine (bankAt_issueCommand d command addrVec i).trans ?_
      simp [bankAfter_access haccess, Device.bankAt]
    simp only [OpenIn, hbank]
  have hcmd : command ≠ .REFab := by rcases haccess with rfl | rfl <;> decide
  have hkeep := h.congr hopen (refreshPending_issueCommand cfg d addrVec hcmd c r) rfl
  rcases haccess with rfl | rfl
  · exact hkeep.count .RD 1
  · exact hkeep.count .WR 1

theorem RankAccounted.beginRefresh (hch : addrVec.level channel = c) (hr : addrVec.level rank = r)
    (hclosed : ∀ i b, namesRank addrVec i = true → d.bankAt i = some b → b.state ≠ .Opened)
    (hnone : d.refreshPending c r = false) (openBanks refreshingBanks : ℕ) :
    RankAccounted (d.issueCommand cfg .REFab addrVec) c r refresh
      (powerAfter .REFab openBanks refreshingBanks d.clk st) := by
  have hpending : (d.issueCommand cfg .REFab addrVec).refreshPending c r = true := by
    refine any_eq_true.mpr ⟨_, mem_futureActions_issueCommand.mpr (.inr ⟨rfl, rfl⟩), ?_⟩
    exact (FutureAction.names_eq_true_iff hch hr).mpr ⟨rfl, rfl⟩
  cases h with
  | idle _ _ _ hsum =>
    refine .refreshing rfl hpending ?_
    simp only [powerAfter, PowerStats.refabPower, PowerStats.count, Device.issueCommand]
    omega
  | active _ hopen _ _ =>
    obtain ⟨i, b, hic, hir, hb, hopen⟩ := hopen
    exact absurd hopen (hclosed i b ((namesRank_eq_true_iff hch hr i).mpr ⟨hic, hir⟩) hb)
  | refreshing _ hsome _ =>
    rw [hnone] at hsome
    cases hsome

end

/-! ## One step of the run -/

/-- No precharge of a bank that is not open meets a rank with one open bank, and no refresh begins while
one of the rank is pending. -/
def PowerRun.Regular (cfg : Config) (s : PowerRun) : DeviceCall → Prop
  | .tick => True
  | .request typeId addrVec =>
    (s.device.serve cfg typeId addrVec = some .PRE → ∀ i b, ExactAddr addrVec i →
      s.device.bankAt i = some b → RegularPrecharge s.device.toDevice i b) ∧
    (s.device.serve cfg typeId addrVec = some .REFab → ∀ c r : ℕ, addrVec.level channel = c →
      addrVec.level rank = r → s.device.refreshPending c r = false)

section

variable {cfg : Config} {s : PowerRun} {logs : ℕ → List (TimingEvent Command)} {typeId : ℕ}
  {addrVec : AddrVec} {command : Command} {c r : ℕ} {rk : Node Command State 2}

theorem rank_of_exactAddr {i : BankId} (h : ExactAddr addrVec i) (hc : addrVec.level channel = c)
    (hr : addrVec.level rank = r) : i.channel = c ∧ i.rank = r :=
  ⟨cast_inj.mp (h.channel.symm.trans hc), cast_inj.mp (h.rank.symm.trans hr)⟩

theorem RankAccounted.issueCommand {st : PowerStats} {refresh : ℕ}
    (h : RankAccounted s.device.toDevice c r refresh st) (hinv : BanksInv cfg s.device.toDevice logs)
    (hserve : s.device.serve cfg typeId addrVec = some command)
    (hregular : s.Regular cfg (.request typeId addrVec)) (hc : addrVec.level channel = c)
    (hr : addrVec.level rank = r)
    (hrk : rankIn (PowerDevice.timed cfg s.device.toDevice command addrVec) c r = some rk) :
    RankAccounted (s.device.toDevice.issueCommand cfg command addrVec) c r refresh
      (powerAfter command (openBankCount 2 rk) (refreshingBankCount 2 rk) s.device.clk st) := by
  cases hinv.safe_of_serve hserve with
  | activate haddr hb _ hready =>
    obtain ⟨rfl, rfl⟩ := rank_of_exactAddr haddr hc hr
    exact h.activate hinv haddr hb hready hrk
  | precharge haddr hb =>
    obtain ⟨rfl, rfl⟩ := rank_of_exactAddr haddr hc hr
    exact h.precharge hinv haddr hb (hregular.1 hserve _ _ haddr hb) hrk
  | prechargeAll hic hir hb hopen =>
    rw [hc, Nat.cast_inj] at hic
    rw [hr, Nat.cast_inj] at hir
    exact h.prechargeAll hinv hc hr ⟨_, _, hic.symm, hir.symm, hb, hopen⟩ hrk
  | access haccess => exact h.access haccess ..
  | refresh _ hclosed => exact h.beginRefresh hc hr hclosed (hregular.2 hserve c r hc hr) ..

theorem RankAccounted.issueCommand_other {d : Device} {st : PowerStats} {refresh c₀ r₀ : ℕ}
    (h : RankAccounted d c r refresh st) (hc : addrVec.level channel = c₀) (hr : addrVec.level rank = r₀)
    (hne : ¬ (c = c₀ ∧ r = r₀)) : RankAccounted (d.issueCommand cfg command addrVec) c r refresh st := by
  have hreach : ∀ i : BankId, i.channel = c → i.rank = r → reaches command addrVec i = false := by
    rintro i rfl rfl
    by_contra hreach
    have hnames : namesRank addrVec i = true := by
      have := reaches_iff.mp (Bool.not_eq_false _ ▸ hreach)
      simp [namesRank, this.1, this.2.1]
    exact hne ((namesRank_eq_true_iff hc hr i).mp hnames)
  refine h.congr ⟨?_, ?_⟩ ?_ rfl
  · intro hopen
    obtain ⟨i, b, hic, hir, hb, ⟨-, hopen⟩ | ⟨hreached, -⟩⟩ := exists_of_openIn_issueCommand hopen
    · exact ⟨i, b, hic, hir, hb, hopen⟩
    · rw [hreach i hic hir] at hreached
      cases hreached
  · rintro ⟨i, b, rfl, rfl, hb, hopen⟩
    apply openIn_issueCommand hb
    rw [hreach i rfl rfl]
    exact hopen
  · rw [Bool.eq_iff_iff]
    simp only [Device.refreshPending, any_eq_true, mem_futureActions_issueCommand]
    constructor
    · rintro ⟨fa, hfa | ⟨-, rfl⟩, hnames⟩
      · exact ⟨fa, hfa, hnames⟩
      · exact absurd ((FutureAction.names_eq_true_iff hc hr).mp hnames) hne
    · rintro ⟨fa, hfa, hnames⟩
      exact ⟨fa, .inl hfa, hnames⟩

theorem updatePowers_served {d : Device} (stats : List PowerStats) (clk : ℕ) (hinv : BanksInv cfg d logs)
    (hserve : d.serve cfg typeId addrVec = some command) (hc : addrVec.level channel = c)
    (hr : addrVec.level rank = r)
    (hrk : rankIn (PowerDevice.timed cfg d command addrVec) c r = some rk) :
    PowerDevice.updatePowers cfg command addrVec clk (PowerDevice.timed cfg d command addrVec) stats =
      stats.modify (c * cfg.org.rank + r)
        (powerAfter command (openBankCount 2 rk) (refreshingBankCount 2 rk) clk) := by
  have hbank : ∀ {i : BankId} {b : Bank}, command = .ACT ∨ command = .PRE ∨ command = .RD ∨ command = .WR →
      ExactAddr addrVec i → d.bankAt i = some b →
      PowerDevice.updatePowers cfg command addrVec clk (PowerDevice.timed cfg d command addrVec) stats =
        stats.modify (c * cfg.org.rank + r)
          (powerAfter command (openBankCount 2 rk) (refreshingBankCount 2 rk) clk) := by
    intro i b hbanked haddr hb
    obtain ⟨rfl, rfl⟩ := rank_of_exactAddr haddr hc hr
    exact updatePowers_bank hbanked haddr ((bankIn_timed i).trans hb) hrk
  cases hinv.safe_of_serve hserve with
  | activate haddr hb => exact hbank (.inl rfl) haddr hb
  | precharge haddr hb => exact hbank (.inr (.inl rfl)) haddr hb
  | prechargeAll => exact updatePowers_rank rfl hc hr hrk
  | access haccess haddr hb => exact hbank (.inr (.inr haccess)) haddr hb
  | refresh => exact updatePowers_rank rfl hc hr hrk

end

theorem flat_eq_iff {ranks c' r' : ℕ} (hr : r < ranks) (hr' : r' < ranks) :
    c * ranks + r = c' * ranks + r' ↔ c = c' ∧ r = r' := by
  constructor
  · intro heq
    have hdiv : ∀ a b : ℕ, b < ranks → (a * ranks + b) / ranks = a := by
      intro a b hb
      rw [mul_comm, mul_add_div (by omega), div_eq_of_lt hb, add_zero]
    obtain rfl : c = c' := by rw [← hdiv c r hr, heq, hdiv c' r' hr']
    exact ⟨rfl, add_left_cancel heq⟩
  · rintro ⟨rfl, rfl⟩
    rfl

section

variable {cfg : Config} {d : Device} {logs : ℕ → List (TimingEvent Command)} {c r clk : ℕ}

def NamesRankOf (org : Organization) (fa : FutureAction) : Prop :=
  ∃ c < org.channel, ∃ r < org.rank, fa.addrVec.level channel = (c : ℕ) ∧ fa.addrVec.level rank = (r : ℕ)

theorem getElem?_handleFutureActions {channels : List Channel} {stats : List PowerStats}
    {due : List FutureAction} (hcmd : ∀ fa ∈ due, fa.cmd = .REFab)
    (haddr : ∀ fa ∈ due, NamesRankOf cfg.org fa) (hranks : HasRanks cfg.org channels)
    (hr : r < cfg.org.rank) :
    (due.foldr (PowerDevice.handleFutureAction cfg clk) (channels, stats)).2[c * cfg.org.rank + r]? =
      stats[c * cfg.org.rank + r]?.map fun st =>
        if due.any fun fa => fa.names c r then st.refabEndPower clk else st := by
  induction due with
  | nil => simp
  | cons fa due ih =>
    obtain ⟨hfa, hcmd⟩ := forall_mem_cons.mp hcmd
    obtain ⟨⟨c₀, hc₀, r₀, hr₀, hfc, hfr⟩, haddr⟩ := forall_mem_cons.mp haddr
    have hranks' := hranks.handleFutureActions due
    rw [← fst_handleFutureActions cfg clk due (channels, stats)] at hranks'
    obtain ⟨rk, hrk⟩ := hranks' c₀ hc₀ r₀ hr₀
    rw [foldr_cons, PowerDevice.handleFutureAction, hfa]
    dsimp only
    rw [updatePowers_rank rfl hfc hfr hrk, getElem?_modify, ih hcmd haddr, any_cons]
    cases stats[c * cfg.org.rank + r]? with
    | none => rfl
    | some st =>
      simp only [Option.map_eq_map, Option.map_some, flat_eq_iff hr₀ hr]
      by_cases hown : c₀ = c ∧ r₀ = r
      · have hnames : fa.names c r = true :=
          (FutureAction.names_eq_true_iff hfc hfr).mpr ⟨hown.1.symm, hown.2.symm⟩
        -- ending a refresh twice is ending it once
        by_cases hdue : (due.any fun fa => fa.names c r) = true <;>
          simp [hown, hnames, hdue, powerAfter, PowerStats.refabEndPower]
      · have hnames : fa.names c r = false := by
          rw [← Bool.not_eq_true, FutureAction.names_eq_true_iff hfc hfr]
          exact fun heq => hown ⟨heq.1.symm, heq.2.symm⟩
        simp [hown, hnames]

theorem RankAccounted.tick {st : PowerStats} {refresh : ℕ} (h : RankAccounted d c r refresh st)
    (hinv : BanksInv cfg d logs)
    (hsingle : ∀ fa ∈ d.futureActions, ∀ fa' ∈ d.futureActions, fa.names c r = true →
      fa'.names c r = true → fa.clk = fa'.clk) :
    RankAccounted (d.tick cfg) c r (refresh + (d.refreshPending c r).toNat)
      (if (d.futureActions.filter fun fa => fa.clk = ((d.clk + 1 : ℕ) : ℤ)).any fun fa => fa.names c r
        then st.refabEndPower (d.clk + 1) else st) := by
  have hquiet : d.refreshPending c r = false → (d.tick cfg).refreshPending c r = false ∧
      ((d.futureActions.filter fun fa => fa.clk = ((d.clk + 1 : ℕ) : ℤ)).any fun fa =>
        fa.names c r) = false := by
    simp only [Device.refreshPending, any_eq_false]
    intro hnone
    exact ⟨fun fa hfa => hnone fa (mem_futureActions_tick.mp hfa).1,
      fun fa hfa => hnone fa (mem_of_mem_filter hfa)⟩
  cases h with
  | idle hstate hclosed hnone hsum =>
    obtain ⟨hnone', hdue⟩ := hquiet hnone
    simp only [hdue, hnone, Bool.false_eq_true, if_false, Bool.toNat_false, add_zero]
    exact .idle hstate (hinv.openIn_tick.not.mpr hclosed) hnone' hsum
  | active hstate hopen hnone hsum =>
    obtain ⟨hnone', hdue⟩ := hquiet hnone
    simp only [hdue, hnone, Bool.false_eq_true, if_false, Bool.toNat_false, add_zero]
    exact .active hstate (hinv.openIn_tick.mpr hopen) hnone' hsum
  | refreshing hstate hsome hsum =>
    rw [hsome, Bool.toNat_true]
    split
    · -- the refresh ends, and it was the only one
      rename_i hdue
      obtain ⟨fa, hfa, hnames⟩ := any_eq_true.mp hdue
      obtain ⟨hfa, hclk⟩ := mem_filter.mp hfa
      rw [decide_eq_true_eq] at hclk
      refine .idle rfl (hinv.openIn_tick.not.mpr (hinv.not_openIn hsome)) ?_ ?_
      · rw [Device.refreshPending, any_eq_false]
        intro fa' hfa' hnames'
        obtain ⟨hfa', hne⟩ := mem_futureActions_tick.mp hfa'
        exact hne ((hsingle fa' hfa' fa hfa hnames' hnames).trans hclk)
      · simp only [PowerStats.refabEndPower]
        omega
    · rename_i hdue
      obtain ⟨fa, hfa, hnames⟩ := any_eq_true.mp hsome
      refine .refreshing hstate ?_ ?_
      · refine any_eq_true.mpr ⟨fa, mem_futureActions_tick.mpr ⟨hfa, fun hclk => hdue ?_⟩, hnames⟩
        exact any_eq_true.mpr ⟨fa, mem_filter.mpr ⟨hfa, decide_eq_true hclk⟩, hnames⟩
      · simp only [Device.tick]
        omega

end

/-! ## Whole runs -/

structure PowerRun.Accounted (cfg : Config) (s : PowerRun) : Prop where
  banks : ∃ logs, BanksInv cfg s.device.toDevice logs
  ranks : HasRanks cfg.org s.device.channels
  addressed : ∀ fa ∈ s.device.futureActions, NamesRankOf cfg.org fa
  single : ∀ c r, ∀ fa ∈ s.device.futureActions, ∀ fa' ∈ s.device.futureActions,
    fa.names c r = true → fa'.names c r = true → fa.clk = fa'.clk
  stats : ∀ c < cfg.org.channel, ∀ r < cfg.org.rank, ∃ st,
    s.device.powerStats[c * cfg.org.rank + r]? = some st ∧
      RankAccounted s.device.toDevice c r (s.refreshCycles c r) st

namespace PowerRun

variable {cfg : Config} {s s' : PowerRun}

theorem accounted_init (cfg : Config) : (machine cfg).init.Accounted cfg where
  banks := ⟨_, BanksInv.create cfg⟩
  ranks := hasRanks_create cfg
  addressed := fun _ hfa => by cases hfa
  single := fun _ _ _ hfa => by cases hfa
  stats := fun c hc r hr => by
    have hlt : c * cfg.org.rank + r < cfg.org.channel * cfg.org.rank := by
      have hle := mul_le_mul_right cfg.org.rank (succ_le_of_lt hc)
      rw [succ_mul] at hle
      omega
    refine ⟨{}, by simp [machine, PowerDevice.create, hlt], .idle rfl ?_ rfl rfl⟩
    rintro ⟨i, b, -, -, hb, hopen⟩
    change (Device.create cfg).bankAt i = some b at hb
    rw [bankAt_create] at hb
    split at hb <;> cases hb
    cases hopen

theorem Accounted.tick (h : s.Accounted cfg) (hstep : (machine cfg).step s .tick = some s') :
    s'.Accounted cfg := by
  cases hstep
  obtain ⟨logs, hinv⟩ := h.banks
  have hranks : HasRanks cfg.org (s.device.toDevice.tick cfg).channels := h.ranks.handleFutureActions _
  refine ⟨⟨logs, hinv.tick⟩, hranks, ?_, ?_, ?_⟩
  · exact fun fa hfa => h.addressed fa (mem_futureActions_tick.mp hfa).1
  · exact fun c r fa hfa fa' hfa' =>
      h.single c r fa (mem_futureActions_tick.mp hfa).1 fa' (mem_futureActions_tick.mp hfa').1
  · intro c hc r hr
    obtain ⟨st, hst, hacc⟩ := h.stats c hc r hr
    refine ⟨_, ?_, hacc.tick hinv (h.single c r)⟩
    refine (getElem?_handleFutureActions (fun fa hfa => ?_) (fun fa hfa => ?_) h.ranks hr).trans ?_
    · exact (hinv.pending fa (mem_of_mem_filter hfa)).1
    · exact h.addressed fa (mem_of_mem_filter hfa)
    · rw [hst]
      rfl

theorem exists_rank_of_validAddr {typeId : ℕ} {addrVec : AddrVec}
    (h : validAddr cfg.org typeId addrVec = true) :
    ∃ c < cfg.org.channel, ∃ r < cfg.org.rank, addrVec.level channel = (c : ℕ) ∧
      addrVec.level rank = (r : ℕ) := by
  obtain ⟨c, r, hc, hr⟩ := rankAddr_of_validAddr h
  simp only [validAddr, all_eq_true, mem_range, decide_eq_true_eq] at h
  have hclt := (h channel (by split <;> decide)).2
  have hrlt := (h rank (by split <;> decide)).2
  rw [hc] at hclt
  rw [hr] at hrlt
  exact ⟨c, cast_lt.mp hclt, r, cast_lt.mp hrlt, hc, hr⟩

theorem Accounted.request (hrfc : 2 ≤ cfg.timing.nRFC) (h : s.Accounted cfg) {typeId : ℕ}
    {addrVec : AddrVec} (hregular : s.Regular cfg (.request typeId addrVec))
    (hstep : (machine cfg).step s (.request typeId addrVec) = some s') : s'.Accounted cfg := by
  obtain ⟨command, hserve, rfl⟩ := Option.map_eq_some_iff.mp hstep
  obtain ⟨logs, hinv⟩ := h.banks
  obtain ⟨-, hvalid, -⟩ := Device.serve_eq_some hinv.inside hserve
  obtain ⟨c₀, hc₀, r₀, hr₀, hc, hr⟩ := exists_rank_of_validAddr hvalid
  obtain ⟨rk, hrk⟩ := h.ranks.timed command addrVec c₀ hc₀ r₀ hr₀
  have hinv' := hinv.issueCommand hrfc (hinv.safe_of_serve hserve)
  have hranks : HasRanks cfg.org (s.device.toDevice.issueCommand cfg command addrVec).channels :=
    h.ranks.issueCommand
  refine ⟨⟨_, hinv'⟩, hranks, ?_, ?_, ?_⟩
  · intro fa hfa
    rcases mem_futureActions_issueCommand.mp hfa with hfa | ⟨-, rfl⟩
    · exact h.addressed fa hfa
    · exact ⟨c₀, hc₀, r₀, hr₀, hc, hr⟩
  · -- a new refresh meets none of its rank
    intro c r fa hfa fa' hfa' hnames hnames'
    have hnew : command = .REFab → ∀ fa ∈ s.device.futureActions, fa.names c r = true →
        ¬ (⟨.REFab, addrVec, s.device.clk + cfg.timing.nRFC - 1⟩ : FutureAction).names c r = true := by
      rintro rfl fa hfa hnames hnew
      obtain ⟨rfl, rfl⟩ := (FutureAction.names_eq_true_iff hc hr).mp hnew
      have hnone := hregular.2 hserve c r hc hr
      rw [Device.refreshPending, any_eq_false] at hnone
      exact hnone fa hfa hnames
    rcases mem_futureActions_issueCommand.mp hfa with hfa | ⟨hcmd, rfl⟩ <;>
      rcases mem_futureActions_issueCommand.mp hfa' with hfa' | ⟨hcmd', rfl⟩
    · exact h.single c r fa hfa fa' hfa' hnames hnames'
    · exact absurd hnames' (hnew hcmd' fa hfa hnames)
    · exact absurd hnames (hnew hcmd fa' hfa' hnames')
    · rfl
  · intro c hclt r hrlt
    obtain ⟨st, hst, hacc⟩ := h.stats c hclt r hrlt
    simp only [PowerDevice.issueCommand]
    rw [updatePowers_served s.device.powerStats s.device.clk hinv hserve hc hr hrk, getElem?_modify, hst]
    simp only [flat_eq_iff hr₀ hrlt]
    by_cases hown : c₀ = c ∧ r₀ = r
    · obtain ⟨rfl, rfl⟩ := hown
      exact ⟨_, by simp, hacc.issueCommand hinv hserve hregular hc hr hrk⟩
    · refine ⟨st, by simp [hown], hacc.issueCommand_other hc hr fun heq => hown ?_⟩
      exact ⟨heq.1.symm, heq.2.symm⟩

theorem accounted_of_reachable (hrfc : 2 ≤ cfg.timing.nRFC)
    (h : (machine cfg).ReachableWhen (Regular cfg) s) : s.Accounted cfg := by
  refine h.invariant (P := fun s => s.Accounted cfg) (accounted_init cfg) ?_
  intro s call s' hacc hregular hstep
  cases call with
  | tick => exact hacc.tick hstep
  | request typeId addrVec => exact hacc.request hrfc hregular hstep

/-- **Every cycle of a rank is accounted once in regular runs**: after `finalize_rank` its active, idle
and refresh cycles add up to the clock. -/
theorem power_accounts_every_cycle (cfg : Config) (hrfc : 2 ≤ cfg.timing.nRFC) (s : PowerRun)
    (h : (machine cfg).ReachableWhen (Regular cfg) s) (c r : ℕ) (hc : c < cfg.org.channel)
    (hr : r < cfg.org.rank) :
    ∃ st : PowerStats, s.device.finalize[c * cfg.org.rank + r]? = some st ∧
      st.activeCycles + st.idleCycles + s.refreshCycles c r = s.device.clk := by
  obtain ⟨st, hst, hacc⟩ := (accounted_of_reachable hrfc h).stats c hc r hr
  refine ⟨st.finalizeRank s.device.clk, ?_, hacc.finalizeRank⟩
  rw [PowerDevice.finalize, getElem?_map, hst]
  rfl

/-- A sufficient condition that evaluates: precharges of open banks, refreshes with nothing pending. -/
def regularCheck (cfg : Config) (s : PowerRun) : DeviceCall → Bool
  | .tick => true
  | .request typeId addrVec =>
    match s.device.serve cfg typeId addrVec with
    | some .PRE =>
      (s.device.bankAt ⟨(addrVec.level channel).toNat, (addrVec.level rank).toNat,
        (addrVec.level bankgroup).toNat, (addrVec.level bank).toNat⟩).any fun b => b.state = .Opened
    | some .REFab => s.device.futureActions.isEmpty
    | _ => true

theorem regular_of_regularCheck (cfg : Config) (s : PowerRun) (call : DeviceCall)
    (h : regularCheck cfg s call = true) : s.Regular cfg call := by
  cases call with
  | tick => trivial
  | request typeId addrVec =>
    constructor
    · intro hserve i b haddr hb hclosed
      simp only [regularCheck, hserve, haddr.channel, haddr.rank, haddr.bankgroup, haddr.bank,
        Int.toNat_natCast] at h
      obtain ⟨b', hb', hopen⟩ := (Option.any_eq_true _ _).mp h
      cases hb.symm.trans hb'
      exact absurd (of_decide_eq_true hopen) hclosed
    · intro hserve c r _ _
      simp only [regularCheck, hserve, List.isEmpty_iff] at h
      rw [Device.refreshPending, h]
      rfl

def twoBanks (nRFC : ℤ) : Config := ⟨⟨1, 1, 1, 2⟩, { Timings.ddr4_2400R with nRFC := nRFC }⟩

def totals (s : PowerRun) : List (ℤ × ℤ) × ℕ × ℕ :=
  (s.device.finalize.map fun st => (st.activeCycles, st.idleCycles), s.refreshCycles 0 0, s.device.clk)

def ticks (n : ℕ) : List DeviceCall := replicate n .tick

def openRow (bank : ℤ) : DeviceCall := .request typeOpenRow [0, 0, 0, bank, 5, 0]

def closeRow (bank : ℤ) : DeviceCall := .request typeCloseRow [0, 0, 0, bank, 5, 0]

def refreshRank : DeviceCall := .request typeAllBankRefresh [0, 0, -1, -1, -1, -1]

/-- A row is opened and closed and the rank is refreshed: 39 active, 20 idle and 3 refresh cycles. -/
theorem open_close_refresh_accounted :
    ∃ s, (machine (twoBanks 4)).ReachableWhen (Regular (twoBanks 4)) s ∧
      totals s = ([(39, 20)], 3, 62) ∧
      ∃ st : PowerStats, s.device.finalize[0]? = some st ∧
        st.activeCycles + st.idleCycles + s.refreshCycles 0 0 = s.device.clk := by
  obtain ⟨s, hs, htotals⟩ := Machine.exists_reachableWhen (m := machine (twoBanks 4))
    (regularCheck (twoBanks 4)) (regular_of_regularCheck (twoBanks 4))
    (P := fun s => totals s = ([(39, 20)], 3, 62))
    ([.tick, openRow 0] ++ ticks 39 ++ [closeRow 0] ++ ticks 16 ++ [refreshRank] ++ ticks 6)
    (by decide +kernel) (by decide +kernel)
  exact ⟨s, hs, htotals, power_accounts_every_cycle (twoBanks 4) (by decide) s hs 0 0 (by decide) (by decide)⟩

/-- **A precharge of a closed bank counts cycles twice, and so does a second refresh**: a close-row
request for bank 1 closes the active interval of bank 0, whose precharge closes it again. -/
theorem precharge_of_closed_bank_counts_twice :
    (∃ s, (machine (twoBanks 433)).Reachable s ∧ totals s = ([(50, 1)], 0, 41)) ∧
      ∃ s, (machine (twoBanks 433)).Reachable s ∧ totals s = ([(0, 3)], 1, 2) :=
  ⟨Machine.exists_reachable
      ([.tick, openRow 0] ++ ticks 10 ++ [closeRow 1] ++ ticks 30 ++ [closeRow 0]) (by decide +kernel),
    Machine.exists_reachable [.tick, refreshRank, .tick, refreshRank] (by decide +kernel)⟩

end PowerRun

end DDR4

end MultiCoreMemory
