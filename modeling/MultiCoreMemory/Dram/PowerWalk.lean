import MultiCoreMemory.Dram.Power

/-!
# What the power model reads and writes

The functions of `Power::Rank` see the counts of open and refreshing banks of their rank, after the
timing pass and before the state pass of a command.
-/

namespace MultiCoreMemory

open List Option Node NodeData

/-! ## Counting in a list of lists -/

section

variable {α : Type} {L : List (List α)} {g k : ℕ} {l : List α} {a : α}

theorem perm_flatten_eraseIdx (hg : L[g]? = some l) (hk : l[k]? = some a) :
    L.flatten.Perm (a :: (L.modify g fun l => l.eraseIdx k).flatten) := by
  induction L generalizing g with
  | nil => cases hg
  | cons l₀ L ih =>
    cases g with
    | zero =>
      cases hg
      obtain ⟨hlt, rfl⟩ := List.getElem?_eq_some_iff.mp hk
      simp only [List.flatten_cons, List.modify_zero_cons, ← List.cons_append]
      exact (List.getElem_cons_eraseIdx_perm hlt).symm.append_right _
    | succ g =>
      simp only [flatten_cons, modify_succ_cons]
      exact ((ih hg).append_left l₀).trans perm_middle

theorem mem_flatten_eraseIdx_iff {x : α} :
    x ∈ (L.modify g fun l => l.eraseIdx k).flatten ↔
      ∃ g' k', (g', k') ≠ (g, k) ∧ (L[g']?.bind fun l => l[k']?) = some x := by
  simp only [mem_flatten, mem_iff_getElem? (l := L.modify g _), getElem?_modify]
  constructor
  · rintro ⟨l, ⟨g', hg'⟩, hx⟩
    obtain ⟨l₀, hl₀, rfl⟩ := map_eq_some_iff.mp hg'
    by_cases hgg : g = g'
    · simp only [hgg, if_true] at hx
      obtain ⟨k', hne, hk'⟩ := mem_eraseIdx_iff_getElem?.mp hx
      exact ⟨g', k', by simp [hne], by rw [hl₀]; exact hk'⟩
    · simp only [hgg, if_false] at hx
      obtain ⟨k', hk'⟩ := mem_iff_getElem?.mp hx
      exact ⟨g', k', fun heq => hgg (Prod.mk.inj heq).1.symm, by rw [hl₀]; exact hk'⟩
  · rintro ⟨g', k', hne, hx⟩
    obtain ⟨l₀, hl₀, hk'⟩ := bind_eq_some_iff.mp hx
    refine ⟨_, ⟨g', by rw [hl₀]; rfl⟩, ?_⟩
    by_cases hgg : g = g'
    · subst hgg
      have hkk : k' ≠ k := fun heq => hne (by rw [heq])
      simp only [if_true]
      exact mem_eraseIdx_iff_getElem?.mpr ⟨k', hkk, hk'⟩
    · simp only [hgg, if_false]
      exact mem_of_getElem? hk'

end

namespace DDR4

/-! ## The counts of a rank -/

def OpenIn (channels : List Channel) (c r : ℕ) : Prop :=
  ∃ (i : BankId) (b : Bank), i.channel = c ∧ i.rank = r ∧ bankIn channels i = some b ∧ b.state = .Opened

def OtherOpen (channels : List Channel) (i : BankId) : Prop :=
  ∃ j b, j ≠ i ∧ j.channel = i.channel ∧ j.rank = i.rank ∧ bankIn channels j = some b ∧
    b.state = .Opened

section

variable {channels : List Channel} {c r : ℕ} {rk : Node Command State 2}

theorem openBankCount_eq_zero_iff (hrk : rankIn channels c r = some rk) :
    openBankCount 2 rk = 0 ↔ ¬ OpenIn channels c r := by
  unfold openBankCount
  rw [countP_eq_zero]
  constructor
  · rintro hall ⟨i, b, rfl, rfl, hb, hopen⟩
    obtain ⟨bk, -, hmem, rfl⟩ := mem_banksOf_of_bankIn hrk hb
    exact hall bk hmem (by simpa [view] using hopen)
  · intro hnone bk hmem hopen
    obtain ⟨i, hc, hr, hi⟩ := bankIn_of_mem_banksOf hrk hmem
    exact hnone ⟨i, _, hc, hr, hi, by simpa [view] using hopen⟩

theorem banksOf_eq_flatten (rk : Node Command State 2) :
    banksOf 2 rk = (rk.children.map fun bg => bg.children.map data).flatten := by
  obtain ⟨d, bgs⟩ := rk
  exact flatMap_def ..

theorem get?_eq_nested (rk : Node Command State 2) (g k : ℕ) :
    rk.get? [g, k] = (rk.children.map fun bg => bg.children.map data)[g]?.bind fun l => l[k]? := by
  rw [get?_cons, getElem?_map]
  cases rk.children[g]? with
  | none => rfl
  | some bg =>
    simp only [bind_some, map_some, getElem?_map]
    rw [get?_cons]
    cases bg.children[k]? <;> rfl

theorem openBankCount_split {g k : ℕ} {bk : BankData} (h : rk.get? [g, k] = some bk) :
    ∃ rest : List BankData, openBankCount 2 rk = rest.countP (fun b => b.state = .Opened) +
        (decide (bk.state = .Opened)).toNat ∧
      ∀ x, x ∈ rest ↔ ∃ g' k', (g', k') ≠ (g, k) ∧ rk.get? [g', k'] = some x := by
  rw [get?_eq_nested] at h
  obtain ⟨l, hg, hk⟩ := bind_eq_some_iff.mp h
  refine ⟨((rk.children.map fun bg => bg.children.map data).modify g fun l =>
    l.eraseIdx k).flatten, ?_, fun x => ?_⟩
  · rw [openBankCount, banksOf_eq_flatten, (perm_flatten_eraseIdx hg hk).countP_eq, countP_cons]
    by_cases hopen : bk.state = .Opened <;> simp [hopen]
  · simp only [mem_flatten_eraseIdx_iff, get?_eq_nested]

theorem bankIn_eq_some_of_get? {g k : ℕ} {bk : BankData} (hrk : rankIn channels c r = some rk)
    (h : rk.get? [g, k] = some bk) : bankIn channels ⟨c, r, g, k⟩ = some bk.view := by
  rw [bankIn_eq_rankIn, hrk, bind_some, h]
  rfl

theorem open_unique_of_count_eq_one {i j : BankId} {b b' : Bank}
    (hrk : rankIn channels i.channel i.rank = some rk) (hone : openBankCount 2 rk = 1)
    (hchannel : j.channel = i.channel) (hrank : j.rank = i.rank) (hi : bankIn channels i = some b)
    (hj : bankIn channels j = some b') (hopen : b.state = .Opened) (hopen' : b'.state = .Opened) :
    j = i := by
  by_contra hne
  obtain ⟨bk, hget, -, rfl⟩ := mem_banksOf_of_bankIn hrk hi
  rw [← hchannel, ← hrank] at hrk
  obtain ⟨bk', hget', -, rfl⟩ := mem_banksOf_of_bankIn hrk hj
  obtain ⟨rest, hcount, hrest⟩ := openBankCount_split hget
  have hpos : (j.bankgroup, j.bank) ≠ (i.bankgroup, i.bank) := by
    intro heq
    obtain ⟨hg, hk⟩ := Prod.mk.inj heq
    cases i
    cases j
    simp_all
  have hmem : bk' ∈ rest := (hrest bk').mpr ⟨_, _, hpos, hget'⟩
  have hother : 0 < rest.countP (fun b => b.state = .Opened) :=
    countP_pos_iff.mpr ⟨bk', hmem, by simpa [view] using hopen'⟩
  have hself : (decide (bk.state = .Opened)).toNat = 1 := by
    have hstate : bk.state = .Opened := hopen
    simp [hstate]
  omega

theorem exists_other_open {i : BankId} {b : Bank} (hrk : rankIn channels i.channel i.rank = some rk)
    (htwo : 2 ≤ openBankCount 2 rk) (hi : bankIn channels i = some b) : OtherOpen channels i := by
  obtain ⟨bk, hget, -, rfl⟩ := mem_banksOf_of_bankIn hrk hi
  obtain ⟨rest, hcount, hrest⟩ := openBankCount_split hget
  have hle := Bool.toNat_le (decide (bk.state = .Opened))
  have hother : 0 < rest.countP (fun b => b.state = .Opened) := by omega
  obtain ⟨bk', hmem, hopen⟩ := countP_pos_iff.mp hother
  obtain ⟨g, k, hne, hget'⟩ := (hrest bk').mp hmem
  refine ⟨⟨i.channel, i.rank, g, k⟩, _, ?_, rfl, rfl, bankIn_eq_some_of_get? hrk hget', ?_⟩
  · intro heq
    exact hne (Prod.ext (congrArg BankId.bankgroup heq) (congrArg BankId.bank heq))
  · simpa [view] using hopen

end

/-! ## What the walk does -/

/-- What a command does to the record of the rank it goes to. -/
def powerAfter (command : Command) (openBanks refreshingBanks clk : ℕ) (st : PowerStats) : PowerStats :=
  match command with
  | .ACT => (st.actPower openBanks refreshingBanks clk).count .ACT 1
  | .PRE => (st.prePower openBanks refreshingBanks clk).count .PRE 1
  | .PREA => st.preaPower openBanks refreshingBanks clk
  | .REFab => st.refabPower clk
  | .REFab_end => st.refabEndPower clk
  | .RD => st.count .RD 1
  | .WR => st.count .WR 1
  | .RDA | .WRA => st

section

variable {cfg : Config} {channels : List Channel} {stats : List PowerStats} {command : Command}
  {addrVec : AddrVec} {clk : ℕ}

theorem updatePowers_child {n level i : ℕ} {path : List ℕ} {t : Node Command State (n + 1)}
    {child : Node Command State n} (hscope : level ≠ commandScopes command)
    (haddr : addrVec.level (level + 1) = i) (hchild : t.children[i]? = some child) :
    updatePowers (powers cfg) commandScopes command addrVec clk level path t stats =
      updatePowers (powers cfg) commandScopes command addrVec clk (level + 1) (path ++ [i]) child
        (powerAt (powers cfg) command clk level path t stats) := by
  have hnot : addrVec.level (level + 1) ≠ -1 := by omega
  have hat : childAt t.children (addrVec.level (level + 1)) = some child :=
    childAt_eq_some_iff.mpr ⟨i, haddr, hchild⟩
  simp only [updatePowers, if_neg hscope, if_neg hnot, hat]
  rw [haddr, Int.toNat_natCast]

theorem updatePowers_rank {c r : ℕ} {rk : Node Command State 2} (hscope : commandScopes command = rank)
    (hc : addrVec.level channel = c) (hr : addrVec.level rank = r)
    (hrk : rankIn channels c r = some rk) :
    PowerDevice.updatePowers cfg command addrVec clk channels stats =
      stats.modify (c * cfg.org.rank + r)
        (powerAfter command (openBankCount 2 rk) (refreshingBankCount 2 rk) clk) := by
  obtain ⟨root, hroot, hchild⟩ := bind_eq_some_iff.mp hrk
  have hat : childAt channels (addrVec.level channel) = some root :=
    childAt_eq_some_iff.mpr ⟨c, hc, hroot⟩
  have hne : (0 : ℕ) ≠ commandScopes command := by rw [hscope]; decide
  rw [PowerDevice.updatePowers, hat]
  dsimp only
  rw [updatePowers_child hne hr hchild, hc, Int.toNat_natCast]
  cases command <;> first | exact absurd hscope (by decide) | rfl

theorem updatePowers_bank {i : BankId} {b : Bank} {rk : Node Command State 2}
    (hcmd : command = .ACT ∨ command = .PRE ∨ command = .RD ∨ command = .WR)
    (haddr : ExactAddr addrVec i) (hb : bankIn channels i = some b)
    (hrk : rankIn channels i.channel i.rank = some rk) :
    PowerDevice.updatePowers cfg command addrVec clk channels stats =
      stats.modify (i.channel * cfg.org.rank + i.rank)
        (powerAfter command (openBankCount 2 rk) (refreshingBankCount 2 rk) clk) := by
  obtain ⟨root, rk', bg, bk, hroot, hrk', hbg, hbk, -⟩ :=
    exists_path_of_bankAt (d := { channels := channels }) hb
  obtain rfl : rk' = rk := by
    rw [rankIn, hroot, bind_some, hrk'] at hrk
    exact some.inj hrk
  have hat : childAt channels (addrVec.level channel) = some root :=
    childAt_eq_some_iff.mpr ⟨i.channel, haddr.channel, hroot⟩
  have hscope : bank ≤ commandScopes command := by
    rcases hcmd with rfl | rfl | rfl | rfl <;> decide
  have hroot_ne : (0 : ℕ) ≠ commandScopes command := by
    have : bank = 3 := rfl
    omega
  have hrank_ne : rank ≠ commandScopes command := by
    have : bank = 3 := rfl
    have : rank = 1 := rfl
    omega
  have hbg_ne : bankgroup ≠ commandScopes command := by
    have : bank = 3 := rfl
    have : bankgroup = 2 := rfl
    omega
  rw [PowerDevice.updatePowers, hat]
  dsimp only
  rw [updatePowers_child hroot_ne haddr.rank hrk', updatePowers_child hrank_ne haddr.bankgroup hbg,
    updatePowers_child hbg_ne haddr.bank hbk, haddr.channel, Int.toNat_natCast]
  rcases hcmd with rfl | rfl | rfl | rfl
  · exact modify_modify_eq ..
  · exact modify_modify_eq ..
  · rfl
  · rfl

end

/-! ## The banks during a call -/

section

variable {cfg : Config} {d : Device} {logs : ℕ → List (TimingEvent Command)} {command : Command}
  {addrVec : AddrVec} {c r : ℕ}

theorem bankIn_timed (i : BankId) : bankIn (PowerDevice.timed cfg d command addrVec) i = d.bankAt i := by
  unfold PowerDevice.timed Device.bankAt bankIn
  rw [getElem?_modifyChild]
  cases d.channels[i.channel]? with
  | none => rfl
  | some root =>
    simp only [map_some, bind_some]
    split
    · exact get?_updateTiming ..
    · rfl

theorem openIn_timed : OpenIn (PowerDevice.timed cfg d command addrVec) c r ↔ OpenIn d.channels c r := by
  unfold OpenIn
  simp only [bankIn_timed]
  rfl

/-- Every rank has its node. -/
def HasRanks (org : Organization) (channels : List Channel) : Prop :=
  ∀ c < org.channel, ∀ r < org.rank, ∃ rk, rankIn channels c r = some rk

variable (root : Channel)

theorem isSome_get?_singleton (r : ℕ) : (root.get? [r]).isSome = root.children[r]?.isSome := by
  rw [get?_cons]
  cases root.children[r]? <;> rfl

theorem HasRanks.modifyChild {org : Organization} {channels : List Channel} {f : Channel → Channel}
    {id : ℤ} (h : HasRanks org channels)
    (hf : ∀ (root : Channel) (r : ℕ), ((f root).get? [r]).isSome = (root.get? [r]).isSome) :
    HasRanks org (modifyChild channels f id) := by
  intro c hc r hr
  obtain ⟨rk, hrk⟩ := h c hc r hr
  obtain ⟨root, hroot, hchild⟩ := bind_eq_some_iff.mp hrk
  have hsome : (root.get? [r]).isSome = true := by rw [isSome_get?_singleton, hchild]; rfl
  rw [← isSome_iff_exists, rankIn, getElem?_modifyChild, hroot, map_some,
    bind_some, ← isSome_get?_singleton]
  split
  · rw [hf, hsome]
  · exact hsome

theorem isSome_get?_updateTiming (clk r : ℕ) :
    ((updateTiming (n := 3) cfg.spec command addrVec clk 0 root).get? [r]).isSome =
      (root.get? [r]).isSome := by
  have hview : ((updateTiming (n := 3) cfg.spec command addrVec clk 0 root).get? [r]).map
      view = (root.get? [r]).map view := get?_updateTiming ..
  simpa using congrArg isSome hview

theorem isSome_get?_updateStates (r : ℕ) :
    ((updateStates (n := 3) cfg.spec command addrVec 0 root).get? [r]).isSome =
      (root.get? [r]).isSome := by
  have hscope : channel ≠ cfg.spec.commandScopes command := by
    cases command <;> simp [Config.spec, commandScopes]
  rw [updateStates_get?_cons rfl hscope, get?_cons]
  cases root.children[r]? <;> rfl

theorem HasRanks.timed (h : HasRanks cfg.org d.channels) (command : Command) (addrVec : AddrVec) :
    HasRanks cfg.org (PowerDevice.timed cfg d command addrVec) :=
  h.modifyChild fun root r => isSome_get?_updateTiming root d.clk r

theorem HasRanks.issueCommand (h : HasRanks cfg.org d.channels) :
    HasRanks cfg.org (d.issueCommand cfg command addrVec).channels := by
  refine h.modifyChild fun root r => ?_
  rw [isSome_get?_updateStates, isSome_get?_updateTiming]

theorem HasRanks.handleFutureActions {channels : List Channel} (h : HasRanks cfg.org channels)
    (due : List FutureAction) :
    HasRanks cfg.org (due.foldr (Device.handleFutureAction cfg) channels) := by
  induction due with
  | nil => exact h
  | cons fa due ih =>
    rw [foldr_cons, Device.handleFutureAction]
    split
    · exact ih.modifyChild fun root r => isSome_get?_updateStates root r
    · exact ih

theorem hasRanks_create (cfg : Config) : HasRanks cfg.org (Device.create cfg).channels := by
  intro c hc r hr
  refine ⟨cfg.spec.create 2 1 r, ?_⟩
  simp [rankIn, Device.create, hc, hr, DramSpec.create, children, Config.spec, Organization.count]

theorem openIn_issueCommand {i : BankId} {b : Bank} (hi : d.bankAt i = some b)
    (hopen : (if reaches command addrVec i then bankAfter command addrVec b else b).state = .Opened) :
    OpenIn (d.issueCommand cfg command addrVec).channels i.channel i.rank := by
  refine ⟨i, _, rfl, rfl, ?_, hopen⟩
  rw [← Device.bankAt, bankAt_issueCommand, hi, map_some]

theorem refreshPending_issueCommand (cfg : Config) (d : Device) (addrVec : AddrVec)
    (hcmd : command ≠ .REFab) (c r : ℕ) :
    (d.issueCommand cfg command addrVec).refreshPending c r = d.refreshPending c r := by
  cases command <;> first | exact absurd rfl hcmd | simp [Device.refreshPending, Device.issueCommand,
    Device.checkFutureAction]

variable (h : BanksInv cfg d logs)

include h

theorem BanksInv.refreshingBankCount_eq_zero (hpending : d.refreshPending c r = false)
    {rk : Node Command State 2}
    (hrk : rankIn (PowerDevice.timed cfg d command addrVec) c r = some rk) :
    refreshingBankCount 2 rk = 0 := by
  unfold refreshingBankCount
  rw [countP_eq_zero]
  intro bk hmem href
  obtain ⟨i, rfl, rfl, hi⟩ := bankIn_of_mem_banksOf hrk hmem
  rw [bankIn_timed] at hi
  obtain ⟨fa, hfa, hnames⟩ := h.refreshing i _ hi (by simpa [view] using href)
  rw [Device.refreshPending, List.any_eq_false] at hpending
  exact hpending fa hfa hnames

theorem BanksInv.not_openIn (hpending : d.refreshPending c r = true) : ¬ OpenIn d.channels c r := by
  rintro ⟨i, b, rfl, rfl, hb, hopen⟩
  obtain ⟨fa, hfa, hnames⟩ := List.any_eq_true.mp hpending
  exact h.quiet fa hfa i b hnames hb hopen

omit h in
theorem exists_of_openIn_issueCommand (h : OpenIn (d.issueCommand cfg command addrVec).channels c r) :
    ∃ i b, i.channel = c ∧ i.rank = r ∧ d.bankAt i = some b ∧
      (reaches command addrVec i = false ∧ b.state = .Opened ∨
        reaches command addrVec i = true ∧ (bankAfter command addrVec b).state = .Opened) := by
  obtain ⟨i, b', hc, hr, hb', hopen⟩ := h
  obtain ⟨b, hb, ⟨hreach, rfl⟩ | ⟨hreach, rfl⟩⟩ := exists_of_bankAt_issueCommand hb'
  · exact ⟨i, _, hc, hr, hb, .inl ⟨hreach, hopen⟩⟩
  · exact ⟨i, b, hc, hr, hb, .inr ⟨hreach, hopen⟩⟩

omit h in
theorem FutureAction.names_eq_true_iff {fa : FutureAction} {c₀ r₀ : ℕ}
    (hc : fa.addrVec.level channel = c₀) (hr : fa.addrVec.level rank = r₀) :
    fa.names c r = true ↔ c = c₀ ∧ r = r₀ :=
  namesRank_eq_true_iff hc hr ⟨c, r, 0, 0⟩

theorem BanksInv.openIn_tick : OpenIn (d.tick cfg).channels c r ↔ OpenIn d.channels c r := by
  have hbank := fun i => bankAt_tick cfg (fun fa hfa => (h.pending fa hfa).1) i
  constructor
  · rintro ⟨i, b', hc, hr, hb', hopen⟩
    rw [← Device.bankAt, hbank] at hb'
    obtain ⟨b, hb, rfl⟩ := map_eq_some_iff.mp hb'
    split at hopen
    · cases hopen
    · exact ⟨i, b, hc, hr, hb, hopen⟩
  · rintro ⟨i, b, hc, hr, hb, hopen⟩
    refine ⟨i, b, hc, hr, ?_, hopen⟩
    rw [← Device.bankAt, hbank, Device.bankAt, hb, map_some, if_neg]
    rintro ⟨fa, hfa, -, hnames⟩
    exact h.quiet fa hfa i b hnames hb hopen

end

end DDR4

end MultiCoreMemory
