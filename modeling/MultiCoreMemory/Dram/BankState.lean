import MultiCoreMemory.Dram.BankView
import MultiCoreMemory.Lib.Machine

/-!
# DDR4 bank states over whole runs

The device is driven by requests: each issued command is the prerequisite the device names for a
request, and it is issued only when the device is ready for it.

Only the constraint `REFab -> ACT` keeps an activation from slipping into a refresh: the
deferred `REFab_end` fires one cycle before the constraint expires.
-/

namespace MultiCoreMemory.DDR4

open List Option Device Config

/-! ## Driving the device by requests -/

/-- The components that name nodes are inside the organisation; a refresh names a rank. -/
def validAddr (org : Organization) (typeId : ℕ) (addrVec : AddrVec) : Bool :=
  (List.range (if typeId = typeAllBankRefresh then 2 else 4)).all fun level =>
    decide (0 ≤ addrVec.level level ∧ addrVec.level level < org.count level)

def Device.serve (cfg : Config) (d : Device) (typeId : ℕ) (addrVec : AddrVec) : Option Command :=
  match requestTranslations typeId with
  | none => none
  | some final =>
    let command := d.getPreqCommand cfg final addrVec
    if validAddr cfg.org typeId addrVec && d.checkReady cfg command addrVec then some command
    else none

inductive DeviceCall where
  | tick
  | request (typeId : ℕ) (addrVec : AddrVec)

def Device.machine (cfg : Config) : Machine Device DeviceCall where
  init := create cfg
  step := fun d call =>
    match call with
    | .tick => some (d.tick cfg)
    | .request typeId addrVec =>
      (d.serve cfg typeId addrVec).map fun command => d.issueCommand cfg command addrVec

/-! ## The invariant -/

def BankId.Inside (i : BankId) (org : Organization) : Prop :=
  i.channel < org.channel ∧ i.rank < org.rank ∧ i.bankgroup < org.bankgroup ∧ i.bank < org.bank

def WellFormed (b : Bank) : Prop :=
  (b.state = .Opened ∧ ∃ r, b.rowState = AList.singleton r .Opened) ∨
    (b.state = .Closed ∨ b.state = .Refreshing) ∧ b.rowState = ∅

/-- Banks are well formed, and a pending action keeps every bank of its rank from being open. -/
structure BanksInv (cfg : Config) (d : Device) (logs : ℕ → List (TimingEvent Command)) : Prop
    extends Tracked cfg d logs where
  inside : ∀ i, i.Inside cfg.org → (d.bankAt i).isSome
  wellFormed : ∀ i b, d.bankAt i = some b → WellFormed b
  pending : ∀ fa ∈ d.futureActions, fa.cmd = .REFab ∧ (d.clk : ℤ) < fa.clk ∧
    ∃ ch : ℕ, fa.addrVec.level channel = ch ∧ ∃ e ∈ logs ch, e.command = .REFab ∧
      e.addrVec = fa.addrVec ∧ fa.clk = e.clk + cfg.timing.nRFC - 1
  refreshing : ∀ i b, d.bankAt i = some b → b.state = .Refreshing →
    ∃ fa ∈ d.futureActions, namesRank fa.addrVec i = true
  quiet : ∀ fa ∈ d.futureActions, ∀ i b, namesRank fa.addrVec i = true → d.bankAt i = some b →
    b.state ≠ .Opened

/-- The command that the device names for a request of a type with a final command. -/
inductive LeadsTo (d : Device) (addrVec : AddrVec) : ℕ → Command → Command → Prop
  | refresh {ch r : ℕ} : addrVec.level channel = ch → addrVec.level rank = r →
      ((∀ i b, i.channel = ch → i.rank = r → d.bankAt i = some b → b.state = .Closed) ∨
        ∃ i b, i.channel = ch ∧ i.rank = r ∧ d.bankAt i = some b ∧ b.state = .Refreshing) →
      LeadsTo d addrVec typeAllBankRefresh .REFab .REFab
  | prechargeAll {i : BankId} {b : Bank} : addrVec.level channel = i.channel →
      addrVec.level rank = i.rank → d.bankAt i = some b → b.state ≠ .Closed →
      b.state ≠ .Refreshing → LeadsTo d addrVec typeAllBankRefresh .REFab .PREA
  | bank {typeId : ℕ} {final command : Command} {i : BankId} {b : Bank} :
      typeId ≠ typeAllBankRefresh → (final = .RD ∨ final = .WR ∨ final = .ACT ∨ final = .PRE) →
      ExactAddr addrVec i → d.bankAt i = some b → command = bankPreq final addrVec b →
      LeadsTo d addrVec typeId final command

/-- The commands that keep the invariant. -/
inductive Safe (cfg : Config) (d : Device) (addrVec : AddrVec) : Command → Prop
  | activate {i : BankId} {b : Bank} : ExactAddr addrVec i → d.bankAt i = some b →
      (b.state = .Opened → addrVec.level row ∈ b.rowState) →
      d.checkReady cfg .ACT addrVec = true → Safe cfg d addrVec .ACT
  | precharge {i : BankId} {b : Bank} : ExactAddr addrVec i → d.bankAt i = some b →
      Safe cfg d addrVec .PRE
  | prechargeAll {i : BankId} {b : Bank} : addrVec.level channel = i.channel →
      addrVec.level rank = i.rank → d.bankAt i = some b → b.state = .Opened → Safe cfg d addrVec .PREA
  | access {i : BankId} {b : Bank} {command : Command} : command = .RD ∨ command = .WR →
      ExactAddr addrVec i → d.bankAt i = some b → b.state = .Opened →
      addrVec.level row ∈ b.rowState → Safe cfg d addrVec command
  | refresh {ch : ℕ} : addrVec.level channel = ch →
      (∀ i b, namesRank addrVec i = true → d.bankAt i = some b → b.state ≠ .Opened) →
      Safe cfg d addrVec .REFab

variable {cfg : Config} {d : Device} {logs : ℕ → List (TimingEvent Command)}

/-! ## Requests lead to safe commands -/

variable {typeId : ℕ} {addrVec : AddrVec} {i : BankId} {b : Bank} {final command : Command}
  {fa : FutureAction}

theorem exactAddr_of_validAddr (htype : typeId ≠ typeAllBankRefresh)
    (h : validAddr cfg.org typeId addrVec = true) :
    ∃ i, ExactAddr addrVec i ∧ BankId.Inside i cfg.org := by
  simp only [validAddr, if_neg htype, List.all_eq_true, mem_range, decide_eq_true_eq] at h
  obtain ⟨hc0, hc⟩ := h channel (by decide)
  obtain ⟨hr0, hr⟩ := h rank (by decide)
  obtain ⟨hg0, hg⟩ := h bankgroup (by decide)
  obtain ⟨hb0, hb⟩ := h bank (by decide)
  obtain ⟨c, hceq⟩ := Int.eq_ofNat_of_zero_le hc0
  obtain ⟨r, hreq⟩ := Int.eq_ofNat_of_zero_le hr0
  obtain ⟨g, hgeq⟩ := Int.eq_ofNat_of_zero_le hg0
  obtain ⟨b, hbeq⟩ := Int.eq_ofNat_of_zero_le hb0
  refine ⟨⟨c, r, g, b⟩, ⟨hceq, hreq, hgeq, hbeq⟩, ?_⟩
  simp only [Organization.count, hceq, hreq, hgeq, hbeq, Nat.cast_lt] at hc hr hg hb
  exact ⟨hc, hr, hg, hb⟩

theorem rankAddr_of_validAddr (h : validAddr cfg.org typeId addrVec = true) :
    ∃ ch r : ℕ, addrVec.level channel = ch ∧ addrVec.level rank = r := by
  simp only [validAddr, List.all_eq_true, mem_range, decide_eq_true_eq] at h
  obtain ⟨ch, hch⟩ := Int.eq_ofNat_of_zero_le (h channel (by split <;> decide)).1
  obtain ⟨r, hr⟩ := Int.eq_ofNat_of_zero_le (h rank (by split <;> decide)).1
  exact ⟨ch, r, hch, hr⟩

theorem namesRank_eq_true_iff {ch r : ℕ} (hch : addrVec.level channel = ch)
    (hr : addrVec.level rank = r) (i : BankId) :
    namesRank addrVec i = true ↔ i.channel = ch ∧ i.rank = r := by
  simp only [namesRank, isTarget, hch, hr, Bool.and_eq_true, Bool.or_eq_true, decide_eq_true_eq]
  omega

theorem namesBank_eq_true_iff {j : BankId} (h : ExactAddr addrVec i) :
    namesBank addrVec j = true ↔ j = i := by
  simp only [namesBank, isTarget, h.bankgroup, h.bank, Bool.and_eq_true, Bool.or_eq_true,
    decide_eq_true_eq, namesRank_eq_true_iff h.channel h.rank]
  cases i
  cases j
  simp only [BankId.mk.injEq]
  omega

section

variable (h : BanksInv cfg d logs)

include h

theorem BanksInv.not_opened_of_refreshing {j : BankId} {c : Bank} (hchannel : i.channel = j.channel)
    (hrank : i.rank = j.rank) (hi : d.bankAt i = some b) (hj : d.bankAt j = some c)
    (hc : c.state = .Refreshing) : b.state ≠ .Opened := by
  obtain ⟨fa, hfa, hnames⟩ := h.refreshing j c hj hc
  refine h.quiet fa hfa i b ?_ hi
  simpa [namesRank, hchannel, hrank] using hnames

omit h in
theorem bankPreq_cases (hfinal : final = .RD ∨ final = .WR ∨ final = .ACT ∨ final = .PRE)
    (hb : WellFormed b) (h : command = bankPreq final addrVec b) :
    command = .PRE ∨ command = .ACT ∧ (b.state = .Opened → addrVec.level row ∈ b.rowState) ∨
      (command = .RD ∨ command = .WR) ∧ command = final ∧ b.state = .Opened ∧
        addrVec.level row ∈ b.rowState := by
  subst h
  obtain ⟨hstate, -⟩ | ⟨hstate | hstate, -⟩ := hb
  all_goals
    by_cases hrow : addrVec.level row ∈ b.rowState <;>
      rcases hfinal with rfl | rfl | rfl | rfl <;> simp [bankPreq, hstate, hrow]

omit h in
theorem final_of_not_refresh (htype : typeId ≠ typeAllBankRefresh)
    (hfinal : requestTranslations typeId = some final) :
    final = .RD ∨ final = .WR ∨ final = .ACT ∨ final = .PRE := by
  match typeId, htype, hfinal with
  | 0, _, hf => cases hf; simp
  | 1, _, hf => cases hf; simp
  | 3, _, hf => cases hf; simp
  | 4, _, hf => cases hf; simp

omit h in
theorem bankPreq_ne_of_rank (hfinal : final = .RD ∨ final = .WR ∨ final = .ACT ∨ final = .PRE) :
    bankPreq final addrVec b ≠ .REFab ∧ bankPreq final addrVec b ≠ .PREA := by
  rcases hfinal with rfl | rfl | rfl | rfl <;> unfold bankPreq <;> cases b.state <;> simp <;>
    split <;> simp

omit h in
theorem leadsTo_of_request (hinside : ∀ i : BankId, i.Inside cfg.org → (d.bankAt i).isSome)
    (hfinal : requestTranslations typeId = some final)
    (hvalid : validAddr cfg.org typeId addrVec = true) :
    LeadsTo d addrVec typeId final (d.getPreqCommand cfg final addrVec) := by
  by_cases htype : typeId = typeAllBankRefresh
  · subst htype
    cases hfinal
    obtain ⟨ch, r, hch, hr⟩ := rankAddr_of_validAddr hvalid
    obtain ⟨hprea, i, b, rfl, rfl, hb, hclosed, hrefreshing⟩ | ⟨href, hbanks⟩ :=
      getPreqCommand_refresh cfg d hch hr
    · rw [hprea]
      exact .prechargeAll hch hr hb hclosed hrefreshing
    · rw [href]
      exact .refresh hch hr hbanks
  · obtain ⟨i, haddr, hi⟩ := exactAddr_of_validAddr htype hvalid
    obtain ⟨b, hb⟩ := isSome_iff_exists.mp (hinside i hi)
    have hfinal' := final_of_not_refresh htype hfinal
    exact .bank htype hfinal' haddr hb (getPreqCommand_of_bank hfinal' haddr hb)

/-- **A command that a request leads to is safe.** -/
theorem BanksInv.safe_of_leadsTo (hleads : LeadsTo d addrVec typeId final command)
    (hready : d.checkReady cfg command addrVec = true) : Safe cfg d addrVec command := by
  cases hleads with
  | refresh hch hr hclosed =>
    refine .refresh hch fun i b hnames hb => ?_
    obtain ⟨hic, hir⟩ := (namesRank_eq_true_iff hch hr i).mp hnames
    rcases hclosed with hall | ⟨j, c, hjc, hjr, hc, hrefreshing⟩
    · simp [hall i b hic hir hb]
    · exact h.not_opened_of_refreshing (hic.trans hjc.symm) (hir.trans hjr.symm) hb hc hrefreshing
  | prechargeAll hch hr hb hclosed hrefreshing =>
    obtain ⟨hopen, -⟩ | ⟨hstate | hstate, -⟩ := h.wellFormed _ _ hb
    · exact .prechargeAll hch hr hb hopen
    · exact absurd hstate hclosed
    · exact absurd hstate hrefreshing
  | bank _ hfinal haddr hb hcmd =>
    obtain rfl | ⟨rfl, hopen⟩ | ⟨haccess, -, hstate, hrow⟩ :=
      bankPreq_cases hfinal (h.wellFormed _ _ hb) hcmd
    · exact .precharge haddr hb
    · exact .activate haddr hb hopen hready
    · exact .access haccess haddr hb hstate hrow

omit h in
theorem Device.serve_eq_some (hinside : ∀ i : BankId, i.Inside cfg.org → (d.bankAt i).isSome)
    (h : d.serve cfg typeId addrVec = some command) :
    (∃ final, LeadsTo d addrVec typeId final command) ∧ validAddr cfg.org typeId addrVec = true ∧
      d.checkReady cfg command addrVec = true := by
  unfold serve at h
  split at h
  · cases h
  · rename_i final hfinal
    dsimp only at h
    split at h
    · rename_i hcond
      cases h
      obtain ⟨hvalid, hready⟩ := Bool.and_eq_true_iff.mp hcond
      exact ⟨⟨final, leadsTo_of_request hinside hfinal hvalid⟩, hvalid, hready⟩
    · cases h

theorem BanksInv.safe_of_serve (hserve : d.serve cfg typeId addrVec = some command) :
    Safe cfg d addrVec command := by
  obtain ⟨⟨final, hleads⟩, -, hready⟩ := Device.serve_eq_some h.inside hserve
  exact h.safe_of_leadsTo hleads hready

/-! ## One step -/

theorem BanksInv.no_pending_of_ready (haddr : ExactAddr addrVec i) (hb : d.bankAt i = some b)
    (hready : d.checkReady cfg .ACT addrVec = true) :
    ∀ fa ∈ d.futureActions, namesRank fa.addrVec i = false := by
  intro fa hfa
  by_contra hnames
  rw [Bool.not_eq_false] at hnames
  obtain ⟨-, hclk, ch, hch, e, he, hecmd, headdr, hdue⟩ := h.pending fa hfa
  have hchannel : ch = i.channel := by
    have := (Bool.and_eq_true_iff.mp hnames).1
    simp only [hch, decide_eq_true_eq] at this
    exact_mod_cast this
  have hover := h.refresh_over_of_ready haddr hb hready e (hchannel ▸ he) hecmd (headdr ▸ hnames)
  omega

omit h in
theorem wellFormed_activate {r : ℤ} (hb : WellFormed b) (hopen : b.state = .Opened → r ∈ b.rowState) :
    WellFormed ⟨.Opened, b.rowState.insert r .Opened⟩ := by
  refine .inl ⟨rfl, r, ?_⟩
  obtain ⟨hstate, hrows⟩ | ⟨-, hrows⟩ := hb
  · -- the row is open already
    obtain ⟨r', hrows⟩ := hrows
    have hr := hopen hstate
    rw [hrows, AList.mem_keys, AList.keys_singleton, mem_singleton] at hr
    simp [hrows, hr, AList.insert_singleton_eq]
  · simp [hrows, AList.insert_empty]

omit h in
theorem exists_of_bankAt_issueCommand {b' : Bank}
    (h : (d.issueCommand cfg command addrVec).bankAt i = some b') :
    ∃ b, d.bankAt i = some b ∧ (reaches command addrVec i = false ∧ b' = b ∨
      reaches command addrVec i = true ∧ b' = bankAfter command addrVec b) := by
  rw [bankAt_issueCommand] at h
  obtain ⟨b, hb, rfl⟩ := map_eq_some_iff.mp h
  refine ⟨b, hb, ?_⟩
  cases reaches command addrVec i <;> simp

theorem BanksInv.wellFormed_after (hsafe : Safe cfg d addrVec command) (hb : d.bankAt i = some b)
    (hreach : reaches command addrVec i = true) : WellFormed (bankAfter command addrVec b) := by
  have hwf := h.wellFormed i b hb
  cases hsafe with
  | activate haddr hb₀ hopen _ =>
    obtain rfl := (namesBank_eq_true_iff haddr).mp hreach
    cases hb₀.symm.trans hb
    exact wellFormed_activate hwf hopen
  | precharge => exact .inr ⟨.inl rfl, rfl⟩
  | prechargeAll => exact .inr ⟨.inl rfl, rfl⟩
  | access haccess =>
    rcases haccess with rfl | rfl <;> exact hwf
  | refresh _ hclosed =>
    -- no bank of the rank is open, so its rows are empty
    obtain ⟨hstate, -⟩ | ⟨-, hrows⟩ := hwf
    · exact absurd hstate (hclosed i b hreach hb)
    · exact .inr ⟨.inr rfl, hrows⟩

omit h in
theorem mem_futureActions_issueCommand :
    fa ∈ (d.issueCommand cfg command addrVec).futureActions ↔ fa ∈ d.futureActions ∨
      command = .REFab ∧ fa = ⟨.REFab, addrVec, d.clk + cfg.timing.nRFC - 1⟩ := by
  simp only [issueCommand, mem_append]
  cases command <;> simp [checkFutureAction]

omit h in
theorem mem_futureActions_tick :
    fa ∈ (d.tick cfg).futureActions ↔ fa ∈ d.futureActions ∧ fa.clk ≠ ((d.clk + 1 : ℕ) : ℤ) := by
  simp [tick]

omit h in
theorem mem_logAfter {ch : ℕ} {e : TimingEvent Command} (he : e ∈ logs ch) :
    e ∈ logAfter logs command addrVec d.clk ch := by
  unfold logAfter
  split
  · exact mem_cons_of_mem _ he
  · exact he

omit h in
theorem bankAfter_access (haccess : command = .RD ∨ command = .WR) (addrVec : AddrVec) (b : Bank) :
    bankAfter command addrVec b = b := by
  rcases haccess with rfl | rfl <;> rfl

theorem BanksInv.refreshing_after (hsafe : Safe cfg d addrVec command) (hb : d.bankAt i = some b)
    (hreach : reaches command addrVec i = true)
    (href : (bankAfter command addrVec b).state = .Refreshing) :
    ∃ fa ∈ (d.issueCommand cfg command addrVec).futureActions, namesRank fa.addrVec i = true := by
  cases hsafe with
  | activate => cases href
  | precharge => cases href
  | prechargeAll => cases href
  | access haccess =>
    rw [bankAfter_access haccess] at href
    obtain ⟨fa, hfa, hnames⟩ := h.refreshing i _ hb href
    exact ⟨fa, mem_futureActions_issueCommand.mpr (.inl hfa), hnames⟩
  | refresh =>
    exact ⟨_, mem_futureActions_issueCommand.mpr (.inr ⟨rfl, rfl⟩), hreach⟩

theorem BanksInv.quiet_after (hsafe : Safe cfg d addrVec command) (hb : d.bankAt i = some b)
    (hreach : reaches command addrVec i = true)
    (hfa : fa ∈ (d.issueCommand cfg command addrVec).futureActions)
    (hnames : namesRank fa.addrVec i = true) : (bankAfter command addrVec b).state ≠ .Opened := by
  cases hsafe with
  | activate haddr hb₀ _ hready =>
    obtain rfl := (namesBank_eq_true_iff haddr).mp hreach
    rcases mem_futureActions_issueCommand.mp hfa with hfa | ⟨hcmd, -⟩
    · rw [h.no_pending_of_ready haddr hb₀ hready fa hfa] at hnames
      cases hnames
    · cases hcmd
  | precharge => simp [bankAfter]
  | prechargeAll => simp [bankAfter]
  | access haccess =>
    rw [bankAfter_access haccess]
    rcases mem_futureActions_issueCommand.mp hfa with hfa | ⟨hcmd, -⟩
    · exact h.quiet fa hfa i _ hnames hb
    · rcases haccess with rfl | rfl <;> cases hcmd
  | refresh => simp [bankAfter]

/-- **A safe command keeps the invariant.** -/
theorem BanksInv.issueCommand (hrfc : 2 ≤ cfg.timing.nRFC) (hsafe : Safe cfg d addrVec command) :
    BanksInv cfg (d.issueCommand cfg command addrVec) (logAfter logs command addrVec d.clk) where
  toTracked := h.toTracked.issueCommand command addrVec
  inside := fun i hi => by
    rw [bankAt_issueCommand, isSome_map]
    exact h.inside i hi
  wellFormed := fun i b' hb' => by
    obtain ⟨b, hb, ⟨-, rfl⟩ | ⟨hreach, rfl⟩⟩ := exists_of_bankAt_issueCommand hb'
    · exact h.wellFormed i _ hb
    · exact h.wellFormed_after hsafe hb hreach
  pending := fun fa hfa => by
    rcases mem_futureActions_issueCommand.mp hfa with hfa | ⟨rfl, rfl⟩
    · obtain ⟨hcmd, hclk, ch, hch, e, he, hrest⟩ := h.pending fa hfa
      exact ⟨hcmd, hclk, ch, hch, e, mem_logAfter he, hrest⟩
    · -- the refresh just issued
      obtain ⟨ch, hch⟩ : ∃ ch : ℕ, addrVec.level channel = ch := by
        cases hsafe with
        | access haccess => rcases haccess with h | h <;> cases h
        | refresh hch _ => exact ⟨_, hch⟩
      refine ⟨rfl, ?_, ch, hch, ⟨.REFab, addrVec, d.clk⟩, ?_, rfl, rfl, rfl⟩
      · show (d.clk : ℤ) < d.clk + cfg.timing.nRFC - 1
        omega
      · simp [logAfter, hch]
  refreshing := fun i b' hb' href => by
    obtain ⟨b, hb, ⟨-, rfl⟩ | ⟨hreach, rfl⟩⟩ := exists_of_bankAt_issueCommand hb'
    · obtain ⟨fa, hfa, hnames⟩ := h.refreshing i _ hb href
      exact ⟨fa, mem_futureActions_issueCommand.mpr (.inl hfa), hnames⟩
    · exact h.refreshing_after hsafe hb hreach href
  quiet := fun fa hfa i b' hnames hb' => by
    obtain ⟨b, hb, ⟨hreach, rfl⟩ | ⟨hreach, rfl⟩⟩ := exists_of_bankAt_issueCommand hb'
    · rcases mem_futureActions_issueCommand.mp hfa with hfa | ⟨rfl, rfl⟩
      · exact h.quiet fa hfa i _ hnames hb
      · rw [show reaches .REFab addrVec i = namesRank addrVec i from rfl] at hreach
        rw [hreach] at hnames
        cases hnames
    · exact h.quiet_after hsafe hb hreach hfa hnames

/-- **A clock tick keeps the invariant**: an action that is due ends the refresh it belongs to. -/
theorem BanksInv.tick : BanksInv cfg (d.tick cfg) logs := by
  have hbank := fun i => bankAt_tick cfg (fun fa hfa => (h.pending fa hfa).1) i
  refine { toTracked := h.toTracked.tick, inside := ?_, wellFormed := ?_, pending := ?_,
           refreshing := ?_, quiet := ?_ }
  · intro i hi
    rw [hbank, isSome_map]
    exact h.inside i hi
  · intro i b' hb'
    rw [hbank] at hb'
    obtain ⟨b, hb, rfl⟩ := map_eq_some_iff.mp hb'
    split
    · -- the bank was not open, so it had no rows
      rename_i hdue
      obtain ⟨fa, hfa, -, hnames⟩ := hdue
      obtain ⟨hstate, -⟩ | ⟨-, hrows⟩ := h.wellFormed i b hb
      · exact absurd hstate (h.quiet fa hfa i b hnames hb)
      · exact .inr ⟨.inl rfl, hrows⟩
    · exact h.wellFormed i b hb
  · intro fa hfa
    obtain ⟨hfa, hne⟩ := mem_futureActions_tick.mp hfa
    obtain ⟨hcmd, hclk, hrest⟩ := h.pending fa hfa
    refine ⟨hcmd, ?_, hrest⟩
    show ((d.clk + 1 : ℕ) : ℤ) < fa.clk
    omega
  · intro i b' hb' href
    rw [hbank] at hb'
    obtain ⟨b, hb, rfl⟩ := map_eq_some_iff.mp hb'
    split at href
    · cases href
    · rename_i hdue
      obtain ⟨fa, hfa, hnames⟩ := h.refreshing i b hb href
      exact ⟨fa, mem_futureActions_tick.mpr ⟨hfa, fun hclk => hdue ⟨fa, hfa, hclk, hnames⟩⟩, hnames⟩
  · intro fa hfa i b' hnames hb'
    rw [hbank] at hb'
    obtain ⟨b, hb, rfl⟩ := map_eq_some_iff.mp hb'
    split
    · simp
    · exact h.quiet fa (mem_futureActions_tick.mp hfa).1 i b hnames hb

end

theorem BanksInv.create (cfg : Config) : BanksInv cfg (create cfg) fun _ => [] where
  toTracked := Tracked.create cfg
  inside := fun i hi => by simp [bankAt_create, show _ ∧ _ from hi]
  wellFormed := fun i b hb => by
    rw [bankAt_create] at hb
    split at hb
    · cases hb
      exact .inr ⟨.inl rfl, rfl⟩
    · cases hb
  pending := fun _ hfa => by cases hfa
  refreshing := fun i b hb href => by
    rw [bankAt_create] at hb
    split at hb <;> cases hb
    cases href
  quiet := fun _ hfa => by cases hfa

/-! ## Whole runs -/

theorem banksInv_of_reachable (hrfc : 2 ≤ cfg.timing.nRFC) (h : (machine cfg).Reachable d) :
    ∃ logs, BanksInv cfg d logs := by
  refine h.invariant (P := fun d => ∃ logs, BanksInv cfg d logs) ⟨_, BanksInv.create cfg⟩ ?_
  rintro d call d' ⟨logs, hinv⟩ - hstep
  cases call with
  | tick =>
    cases hstep
    exact ⟨logs, hinv.tick⟩
  | request typeId addrVec =>
    obtain ⟨command, hserve, rfl⟩ := map_eq_some_iff.mp hstep
    exact ⟨_, hinv.issueCommand hrfc (hinv.safe_of_serve hserve)⟩

/-- **DDR4 bank states are well formed**: each bank is open with one row, or closed or refreshing with
none; a `RD` or `WR` goes to its open row; no bank of a rank is open while another is refreshing. -/
theorem bank_states_well_formed (cfg : Config) (hrfc : 2 ≤ cfg.timing.nRFC) (d : Device)
    (h : (machine cfg).Reachable d) :
    (∀ i b, d.bankAt i = some b → WellFormed b) ∧
      (∀ typeId addrVec command, d.serve cfg typeId addrVec = some command →
        command = .RD ∨ command = .WR → ∃ i b, ExactAddr addrVec i ∧ d.bankAt i = some b ∧
          b.state = .Opened ∧ b.rowState = AList.singleton (addrVec.level row) .Opened) ∧
      ∀ i j b c, i.channel = j.channel → i.rank = j.rank → d.bankAt i = some b →
        d.bankAt j = some c → b.state = .Opened → c.state ≠ .Refreshing := by
  obtain ⟨logs, hinv⟩ := banksInv_of_reachable hrfc h
  refine ⟨hinv.wellFormed, ?_, ?_⟩
  · intro typeId addrVec command hserve haccess
    cases hinv.safe_of_serve hserve with
    | access _ haddr hb hstate hrow =>
      refine ⟨_, _, haddr, hb, hstate, ?_⟩
      obtain ⟨-, r, hrows⟩ | ⟨hclosed, -⟩ := hinv.wellFormed _ _ hb
      · rw [hrows, AList.mem_keys, AList.keys_singleton, mem_singleton] at hrow
        rw [hrows, hrow]
      · rcases hclosed with hclosed | hclosed <;> simp [hclosed] at hstate
    | activate => rcases haccess with h | h <;> cases h
    | precharge => rcases haccess with h | h <;> cases h
    | prechargeAll => rcases haccess with h | h <;> cases h
    | refresh => rcases haccess with h | h <;> cases h
  · intro i j b c hchannel hrank hb hc hopen href
    exact hinv.not_opened_of_refreshing hchannel hrank hb hc href hopen

def readThenRefresh : List DeviceCall :=
  .request typeRead [0, 0, 0, 0, 5, 0] :: replicate 39 .tick ++
    .request typeAllBankRefresh [0, 0, -1, -1, -1, -1] :: replicate 16 .tick ++
    [.request typeAllBankRefresh [0, 0, -1, -1, -1, -1]]

/-- The row that a read opens is closed by the first request for a refresh; the second one refreshes. -/
theorem refresh_after_read_well_formed :
    ((machine shipped).run (create shipped) (readThenRefresh.take 1)).map
      (fun d => (d.bankAt ⟨0, 0, 0, 0⟩).map (·.state)) = some (some .Opened) ∧
    ∃ d b, (machine shipped).Reachable d ∧ d.bankAt ⟨0, 0, 0, 0⟩ = some b ∧ b.state = .Refreshing ∧
      WellFormed b := by
  refine ⟨by decide +kernel, ?_⟩
  obtain ⟨d, hd, hstate⟩ := (machine shipped).exists_reachable
    (P := fun d => (d.bankAt ⟨0, 0, 0, 0⟩).map (·.state) = some .Refreshing)
    readThenRefresh (by decide +kernel)
  obtain ⟨b, hb, hrefreshing⟩ := Option.map_eq_some_iff.mp hstate
  exact ⟨d, b, hd, hb, hrefreshing, (bank_states_well_formed shipped (by decide) d hd).1 _ _ hb⟩

end MultiCoreMemory.DDR4
