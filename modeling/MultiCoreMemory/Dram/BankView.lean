import MultiCoreMemory.Dram.DDR4
import MultiCoreMemory.Dram.NodeFrame

/-!
# The DDR4 device bank by bank

What `tick`, `issue_command` and `get_preq_command` mean for one bank, so that no later proof
walks the tree again.
-/

namespace MultiCoreMemory.DDR4

open List Option Function Node NodeData Config

structure BankId where
  channel : ℕ
  rank : ℕ
  bankgroup : ℕ
  bank : ℕ
  deriving DecidableEq, Repr

abbrev Bank := NodeView State

def bankIn (channels : List Channel) (i : BankId) : Option Bank :=
  (channels[i.channel]?.bind fun root =>
    get? (n := 3) root [i.rank, i.bankgroup, i.bank]).map view

/-- State and open rows of a bank. -/
def Device.bankAt (d : Device) (i : BankId) : Option Bank := bankIn d.channels i

def namesRank (addrVec : AddrVec) (i : BankId) : Bool :=
  addrVec.level channel = i.channel && isTarget rank i.rank addrVec

def namesBank (addrVec : AddrVec) (i : BankId) : Bool :=
  namesRank addrVec i && (isTarget bankgroup i.bankgroup addrVec && isTarget bank i.bank addrVec)

def reaches (command : Command) (addrVec : AddrVec) (i : BankId) : Bool :=
  if commandScopes command = rank then namesRank addrVec i else namesBank addrVec i

def bankAfter (command : Command) (addrVec : AddrVec) (b : Bank) : Bank :=
  match command with
  | .ACT => ⟨.Opened, b.rowState.insert (addrVec.level row) .Opened⟩
  | .PRE | .PREA | .RDA | .WRA => ⟨.Closed, ∅⟩
  | .REFab => ⟨.Refreshing, b.rowState⟩
  | .REFab_end => ⟨.Closed, b.rowState⟩
  | .RD | .WR => b

/-! ## The state pass, bank by bank -/

variable {cfg : Config}

theorem actions_sameTiming (level : ℕ) (cmd : Command)
    (action : ∀ n, Node Command State n → ℤ → Node Command State n)
    (h : cfg.spec.actions level cmd = some action) (n : ℕ) (t : Node Command State n)
    (childId : ℤ) : Node.SameTiming t (action n t childId) := by
  have hbanks : ∀ f : BankData → BankData, (∀ d, NodeData.SameTiming d (f d)) →
      Node.SameTiming t (onBanks f n t) := by
    intro f hf
    match n, t with
    | 0, t => exact Node.SameTiming.refl t
    | 1, t => exact Node.SameTiming.refl t
    | n + 2, (d, bgs) =>
      refine sameTiming_of_children (f := fun _ bg => (bg.1, bg.2.map (modifyData f)))
        ?_ fun i => getElem?_map ..
      rintro - ⟨bd, banks⟩
      exact sameTiming_of_children (f := fun _ c => c.modifyData f)
        (fun _ c => modifyData_sameTiming hf c) fun i => getElem?_map ..
  simp only [spec, actions] at h
  split at h
  · cases cmd <;> cases h <;> exact hbanks _ fun _ => ⟨rfl, rfl, rfl⟩
  · split at h
    · cases cmd <;> cases h <;> refine modifyData_sameTiming ?_ t <;>
        exact fun _ => ⟨rfl, rfl, rfl⟩
    · cases h

theorem get?_onBanks (f : BankData → BankData) (t : Node Command State 2) (g b : ℕ) :
    (onBanks f 2 t).get? [g, b] = (t.get? [g, b]).map f := by
  obtain ⟨d, bgs⟩ := t
  simp only [onBanks, get?, children, getElem?_map]
  cases bgs[g]? with
  | none => rfl
  | some bg =>
    simp only [map_some, bind_some, getElem?_map]
    cases bg.2[b]? <;> rfl

variable {command : Command} {addrVec : AddrVec} {i : BankId} {channels : List Channel} {d : Device}
  {b : Bank} {r ch : ℕ} {logs : ℕ → List (TimingEvent Command)}

theorem view_updateStates_bank (hscope : commandScopes command ≠ rank) (addrVec : AddrVec)
    (t : Node Command State 0) :
    view (updateStates (n := 0) cfg.spec command addrVec bank t) =
      bankAfter command addrVec (view t) := by
  cases command <;> first | rfl | exact absurd rfl hscope

theorem get?_updateStates_bankgroup (hscope : commandScopes command ≠ rank) (addrVec : AddrVec)
    (t : Node Command State 1) (b : ℕ) :
    ((updateStates (n := 1) cfg.spec command addrVec bankgroup t).get? [b]).map view =
      ((t.get? [b]).map view).map fun bk =>
        if isTarget bank b addrVec = true then bankAfter command addrVec bk else bk := by
  have hbg : cfg.spec.actions bankgroup command = none := rfl
  have hbgScope : bankgroup ≠ cfg.spec.commandScopes command := by
    cases command <;> simp [spec, commandScopes]
  rw [updateStates_get?_cons hbg hbgScope, get?_cons]
  cases t.children[b]? with
  | none => rfl
  | some bk =>
    cases hb : isTarget bank b addrVec
    · simp [comp_def]
    · simpa [get?, data] using view_updateStates_bank hscope addrVec bk

theorem get?_updateStates_rank (command : Command) (addrVec : AddrVec)
    (t : Node Command State 2) (g b : ℕ) :
    ((updateStates (n := 2) cfg.spec command addrVec rank t).get? [g, b]).map view =
      ((t.get? [g, b]).map view).map fun bk =>
        if commandScopes command = rank ∨
          isTarget bankgroup g addrVec = true ∧ isTarget bank b addrVec = true
        then bankAfter command addrVec bk else bk := by
  by_cases hscope : commandScopes command = rank
  · -- the command stops here and acts on every bank of the rank
    have hact : ∃ f : BankData → BankData, (∀ d, (f d).view = bankAfter command addrVec d.view) ∧
        ∀ childId, act (n := 2) cfg.spec command rank childId t = onBanks f 2 t := by
      cases command <;>
        first
        | exact absurd hscope (by decide)
        | exact ⟨_, fun _ => rfl, fun _ => rfl⟩
    obtain ⟨f, hview, hact⟩ := hact
    rw [updateStates_of_scope hscope.symm, hact, get?_onBanks]
    cases t.get? [g, b] with
    | none => rfl
    | some d => simp [hscope, hview]
  · -- it passes through the bank group to the banks the address names
    have hrank : cfg.spec.actions rank command = none := by
      cases command <;> first | rfl | exact absurd rfl hscope
    rw [updateStates_get?_cons hrank (Ne.symm hscope), get?_cons]
    cases t.children[g]? with
    | none => rfl
    | some bg =>
      cases hg : isTarget bankgroup g addrVec
      · simp [hscope, comp_def]
      · simpa [hscope, hg] using get?_updateStates_bankgroup hscope addrVec bg b

theorem get?_updateStates (command : Command) (addrVec : AddrVec) (root : Channel) (r g b : ℕ) :
    ((updateStates (n := 3) cfg.spec command addrVec 0 root).get? [r, g, b]).map
        view =
      ((root.get? [r, g, b]).map view).map fun bk =>
        if isTarget rank r addrVec = true ∧ (commandScopes command = rank ∨
          isTarget bankgroup g addrVec = true ∧ isTarget bank b addrVec = true)
        then bankAfter command addrVec bk else bk := by
  have hscope : channel ≠ cfg.spec.commandScopes command := by
    cases command <;> simp [spec, commandScopes]
  rw [updateStates_get?_cons rfl hscope, get?_cons]
  cases root.children[r]? with
  | none => rfl
  | some rk =>
    cases hr : isTarget rank r addrVec
    · simp [comp_def]
    · simpa [hr] using get?_updateStates_rank command addrVec rk g b

/-! ## The banks after a call -/

theorem reaches_iff :
    reaches command addrVec i = true ↔ addrVec.level channel = i.channel ∧
      isTarget rank i.rank addrVec = true ∧ (commandScopes command = rank ∨
        isTarget bankgroup i.bankgroup addrVec = true ∧ isTarget bank i.bank addrVec = true) := by
  unfold reaches namesBank namesRank
  by_cases hscope : commandScopes command = rank <;> simp [hscope, and_assoc]

theorem bankIn_modifyChild (cfg : Config) {f : Channel → Channel}
    (hf : ∀ root r g b, ((f root).get? [r, g, b]).map view =
      ((updateStates (n := 3) cfg.spec command addrVec 0 root).get? [r, g, b]).map
        view) (i : BankId) :
    bankIn (modifyChild channels f (addrVec.level channel)) i =
      (bankIn channels i).map fun b =>
        if reaches command addrVec i then bankAfter command addrVec b else b := by
  unfold bankIn
  rw [getElem?_modifyChild]
  cases channels[i.channel]? with
  | none => rfl
  | some root =>
    by_cases hc : addrVec.level channel = i.channel
    · simp only [map_some, bind_some, hc, if_true, hf, get?_updateStates,
        reaches_iff, true_and]
    · simp [hc, reaches_iff, comp_def]

/-- **The banks after `issue_command`.** -/
theorem bankAt_issueCommand (d : Device) (command : Command) (addrVec : AddrVec) (i : BankId) :
    (d.issueCommand cfg command addrVec).bankAt i =
      (d.bankAt i).map fun b =>
        if reaches command addrVec i then bankAfter command addrVec b else b := by
  refine bankIn_modifyChild cfg (fun root r g b => ?_) i
  simp only [get?_updateStates]
  rw [get?_updateTiming]

theorem bankIn_handleFutureActions {due : List FutureAction} (hcmd : ∀ fa ∈ due, fa.cmd = .REFab)
    (i : BankId) :
    bankIn (due.foldr (Device.handleFutureAction cfg) channels) i =
      (bankIn channels i).map fun b =>
        if (∃ fa ∈ due, namesRank fa.addrVec i = true) then ⟨.Closed, b.rowState⟩ else b := by
  induction due with
  | nil => simp
  | cons fa due ih =>
    obtain ⟨hfa, hdue⟩ := forall_mem_cons.mp hcmd
    have hreach : reaches .REFab_end fa.addrVec i = namesRank fa.addrVec i := rfl
    simp only [foldr_cons, Device.handleFutureAction, hfa]
    rw [bankIn_modifyChild cfg (fun _ _ _ _ => rfl), ih hdue, hreach, Option.map_map]
    congr 1
    funext b
    by_cases h : namesRank fa.addrVec i = true
    · by_cases h' : ∃ fa ∈ due, namesRank fa.addrVec i = true <;> simp [h, h', bankAfter]
    · simp [h]

/-- **The banks after `tick`**: a deferred action that is due ends the refresh of its rank. -/
theorem bankAt_tick (cfg : Config) (hcmd : ∀ fa ∈ d.futureActions, fa.cmd = .REFab) (i : BankId) :
    (d.tick cfg).bankAt i = (d.bankAt i).map fun b =>
      if (∃ fa ∈ d.futureActions, fa.clk = ((d.clk + 1 : ℕ) : ℤ) ∧ namesRank fa.addrVec i = true)
      then ⟨.Closed, b.rowState⟩ else b := by
  refine (bankIn_handleFutureActions (fun fa hfa => hcmd fa (mem_of_mem_filter hfa)) i).trans ?_
  simp only [mem_filter, decide_eq_true_eq, and_assoc, Device.bankAt]

theorem bankAt_create (i : BankId) :
    (Device.create cfg).bankAt i =
      if i.channel < cfg.org.channel ∧ i.rank < cfg.org.rank ∧ i.bankgroup < cfg.org.bankgroup ∧
        i.bank < cfg.org.bank
      then some ⟨.Closed, ∅⟩ else none := by
  unfold Device.bankAt bankIn Device.create
  simp only [getElem?_map]
  by_cases hc : i.channel < cfg.org.channel
  · simp only [getElem?_range hc, map_some, bind_some, create_get?_cons]
    by_cases hr : i.rank < cfg.org.rank
    · by_cases hg : i.bankgroup < cfg.org.bankgroup
      · by_cases hb : i.bank < cfg.org.bank
        · simp [spec, Organization.count, hc, hr, hg, hb, DramSpec.create, get?,
            data, DramSpec.createData, view]
        · simp [spec, Organization.count, hb]
      · simp [spec, Organization.count, hg]
    · simp [spec, Organization.count, hr]
  · simp [hc]

/-! ## Prerequisites -/

theorem exists_path_of_bankAt (h : d.bankAt i = some b) :
    ∃ (root : Channel) (rk : Node Command State 2) (bg : Node Command State 1)
      (bk : Node Command State 0), d.channels[i.channel]? = some root ∧
      root.children[i.rank]? = some rk ∧ rk.children[i.bankgroup]? = some bg ∧
      bg.children[i.bank]? = some bk ∧ view bk = b := by
  unfold Device.bankAt bankIn at h
  obtain ⟨bk, hbk, hview⟩ := map_eq_some_iff.mp h
  obtain ⟨root, hroot, hbk⟩ := bind_eq_some_iff.mp hbk
  obtain ⟨rk, hrk, hbk⟩ := bind_eq_some_iff.mp hbk
  obtain ⟨bg, hbg, hbk⟩ := bind_eq_some_iff.mp hbk
  obtain ⟨leaf, hleaf, hbk⟩ := bind_eq_some_iff.mp hbk
  cases hbk
  exact ⟨root, rk, bg, leaf, hroot, hrk, hbg, hleaf, hview⟩

theorem mem_banksOf {t : Node Command State 2} {b : BankData} :
    b ∈ banksOf 2 t ↔ ∃ g k, t.get? [g, k] = some b := by
  obtain ⟨d, bgs⟩ := t
  simp only [banksOf, mem_flatMap, List.mem_map, get?_cons, bind_eq_some_iff]
  constructor
  · rintro ⟨bg, hbg, bk, hbk, rfl⟩
    obtain ⟨g, hg⟩ := mem_iff_getElem?.mp hbg
    obtain ⟨k, hk⟩ := mem_iff_getElem?.mp hbk
    exact ⟨g, k, bg, hg, bk, hk, rfl⟩
  · rintro ⟨g, k, bg, hg, bk, hk, hb⟩
    cases hb
    exact ⟨bg, mem_of_getElem? hg, bk, mem_of_getElem? hk, rfl⟩

structure ExactAddr (addrVec : AddrVec) (i : BankId) : Prop where
  channel : addrVec.level channel = i.channel
  rank : addrVec.level rank = i.rank
  bankgroup : addrVec.level bankgroup = i.bankgroup
  bank : addrVec.level bank = i.bank

theorem ExactAddr.unique {j : BankId} (hi : ExactAddr addrVec i) (hj : ExactAddr addrVec j) :
    i = j := by
  have h₁ := hi.channel.symm.trans hj.channel
  have h₂ := hi.rank.symm.trans hj.rank
  have h₃ := hi.bankgroup.symm.trans hj.bankgroup
  have h₄ := hi.bank.symm.trans hj.bank
  cases i
  cases j
  simp only [Nat.cast_inj] at h₁ h₂ h₃ h₄
  simp [h₁, h₂, h₃, h₄]

/-- The prerequisite of a command of bank scope or below, read off the bank. -/
def bankPreq (command : Command) (addrVec : AddrVec) (b : Bank) : Command :=
  match command with
  | .PRE => .PRE
  | _ =>
    match b.state with
    | .Opened => if addrVec.level row ∈ b.rowState then command else .PRE
    | .PowerUp | .NA => command
    | _ => .ACT

theorem requireRowOpen_getD (hcmd : command ≠ .PRE) (addrVec : AddrVec) (b : BankData) :
    (requireRowOpen command b addrVec).getD command = bankPreq command addrVec b.view := by
  obtain ⟨_, state, _, _, rowState⟩ := b
  have hpreq : bankPreq command addrVec ⟨state, rowState⟩ =
      match state with
      | .Opened => if addrVec.level row ∈ rowState then command else .PRE
      | .PowerUp | .NA => command
      | _ => .ACT := by
    cases command <;> first | rfl | exact absurd rfl hcmd
  refine Eq.trans ?_ hpreq.symm
  cases state with
  | Opened =>
    simp only [requireRowOpen]
    split <;> rfl
  | _ => rfl

theorem requireBankClosed_getD (addrVec : AddrVec) (b : BankData) :
    (requireBankClosed .PRE b).getD .PRE = bankPreq .PRE addrVec b.view := by
  obtain ⟨_, state, _, _, _⟩ := b
  cases state <;> rfl

theorem getPreqCommand_of_bank
    (hcmd : command = .RD ∨ command = .WR ∨ command = .ACT ∨ command = .PRE)
    (haddr : ExactAddr addrVec i) (hb : d.bankAt i = some b) :
    d.getPreqCommand cfg command addrVec = bankPreq command addrVec b := by
  obtain ⟨root, rk, bg, bk, hroot, hrk, hbg, hbk, rfl⟩ := exists_path_of_bankAt hb
  have hchannel : childAt d.channels (addrVec.level channel) = some root :=
    childAt_eq_some_iff.mpr ⟨i.channel, haddr.channel, hroot⟩
  have hrank : cfg.spec.preqs rank command = none := by
    rcases hcmd with rfl | rfl | rfl | rfl <;> rfl
  calc d.getPreqCommand cfg command addrVec
      = getPreqCommand (n := 3) cfg.spec command addrVec 0 root := by
        simp only [Device.getPreqCommand, hchannel]
    _ = getPreqCommand (n := 2) cfg.spec command addrVec rank rk :=
        getPreqCommand_child _ _ rfl haddr.rank hrk
    _ = getPreqCommand (n := 1) cfg.spec command addrVec bankgroup bg :=
        getPreqCommand_child _ _ hrank haddr.bankgroup hbg
    _ = getPreqCommand (n := 0) cfg.spec command addrVec bank bk :=
        getPreqCommand_child _ _ rfl haddr.bank hbk
    _ = bankPreq command addrVec (view bk) := by
        rcases hcmd with rfl | rfl | rfl | rfl
        · exact requireRowOpen_getD (by decide) addrVec bk
        · exact requireRowOpen_getD (by decide) addrVec bk
        · exact requireRowOpen_getD (by decide) addrVec bk
        · exact requireBankClosed_getD addrVec bk

theorem requireAllBanksClosed_cases (banks : List BankData) :
    requireAllBanksClosed .REFab banks = .PREA ∧
        (∃ b ∈ banks, b.state ≠ .Closed ∧ b.state ≠ .Refreshing) ∨
      requireAllBanksClosed .REFab banks = .REFab ∧
        ((∀ b ∈ banks, b.state = .Closed) ∨ ∃ b ∈ banks, b.state = .Refreshing) := by
  unfold requireAllBanksClosed
  split
  · rename_i hnone
    have hall := find?_eq_none.mp hnone
    exact .inr ⟨rfl, .inl fun b hb => by simpa using hall b hb⟩
  · rename_i b hsome
    have hmem := mem_of_find?_eq_some hsome
    split
    · rename_i href
      exact .inr ⟨rfl, .inr ⟨b, hmem, href⟩⟩
    · rename_i hnot
      exact .inl ⟨rfl, b, hmem, by simpa using find?_some hsome, hnot⟩

def rankIn (channels : List Channel) (c r : ℕ) : Option (Node Command State 2) :=
  channels[c]?.bind fun root => root.children[r]?

theorem bankIn_eq_rankIn (channels : List Channel) (i : BankId) :
    bankIn channels i = ((rankIn channels i.channel i.rank).bind fun rk =>
      rk.get? [i.bankgroup, i.bank]).map view := by
  unfold bankIn rankIn
  cases channels[i.channel]? <;> rfl

theorem bankIn_of_mem_banksOf {c : ℕ} {rk : Node Command State 2}
    (hrk : rankIn channels c r = some rk) {bk : BankData} (h : bk ∈ banksOf 2 rk) :
    ∃ i : BankId, i.channel = c ∧ i.rank = r ∧ bankIn channels i = some bk.view := by
  obtain ⟨g, k, hget⟩ := mem_banksOf.mp h
  refine ⟨⟨c, r, g, k⟩, rfl, rfl, ?_⟩
  rw [bankIn_eq_rankIn, hrk, bind_some, hget]
  rfl

theorem mem_banksOf_of_bankIn {rk : Node Command State 2}
    (hrk : rankIn channels i.channel i.rank = some rk) (h : bankIn channels i = some b) :
    ∃ bk, rk.get? [i.bankgroup, i.bank] = some bk ∧ bk ∈ banksOf 2 rk ∧ bk.view = b := by
  rw [bankIn_eq_rankIn, hrk, bind_some] at h
  obtain ⟨bk, hget, hview⟩ := map_eq_some_iff.mp h
  exact ⟨bk, hget, mem_banksOf.mpr ⟨_, _, hget⟩, hview⟩

/-- At the rank the table always answers, and the answer is about its banks. -/
theorem getPreqCommand_refresh_eq (cfg : Config) (d : Device) (hch : addrVec.level channel = ch)
    (hr : addrVec.level rank = r) :
    d.getPreqCommand cfg .REFab addrVec =
      match rankIn d.channels ch r with
      | some rk => requireAllBanksClosed .REFab (banksOf 2 rk)
      | none => .REFab := by
  unfold rankIn
  cases hroot : d.channels[ch]? with
  | none => simp [Device.getPreqCommand, hch, childAt, hroot]
  | some root =>
    have hpreq : d.getPreqCommand cfg .REFab addrVec =
        getPreqCommand (n := 3) cfg.spec .REFab addrVec 0 root := by
      simp [Device.getPreqCommand, hch, childAt, hroot]
    rw [hpreq, bind_some]
    cases hrk : root.children[r]? with
    | none =>
      have hchild : childAt root.children (addrVec.level rank) = none := by
        simpa [hr, childAt] using hrk
      simp [getPreqCommand, preqAt, spec, preqs, hchild]
    | some rk =>
      rw [getPreqCommand_child cfg.spec .REFab rfl hr hrk]
      rfl

theorem getPreqCommand_refresh (cfg : Config) (d : Device) (hch : addrVec.level channel = ch)
    (hr : addrVec.level rank = r) :
    d.getPreqCommand cfg .REFab addrVec = .PREA ∧
        (∃ i b, i.channel = ch ∧ i.rank = r ∧ d.bankAt i = some b ∧ b.state ≠ .Closed ∧
          b.state ≠ .Refreshing) ∨
      d.getPreqCommand cfg .REFab addrVec = .REFab ∧
        ((∀ i b, i.channel = ch → i.rank = r → d.bankAt i = some b → b.state = .Closed) ∨
          ∃ i b, i.channel = ch ∧ i.rank = r ∧ d.bankAt i = some b ∧ b.state = .Refreshing) := by
  rw [getPreqCommand_refresh_eq cfg d hch hr]
  cases hrk : rankIn d.channels ch r with
  | none =>
    refine .inr ⟨rfl, .inl ?_⟩
    rintro i b rfl rfl hb
    rw [Device.bankAt, bankIn_eq_rankIn, hrk] at hb
    cases hb
  | some rk =>
    refine (requireAllBanksClosed_cases (banksOf 2 rk)).imp (And.imp id ?_) (And.imp id (Or.imp ?_ ?_))
    · rintro ⟨bk, hbk, hstate⟩
      obtain ⟨i, hc, hr, hi⟩ := bankIn_of_mem_banksOf hrk hbk
      exact ⟨i, _, hc, hr, hi, hstate⟩
    · rintro hall i b rfl rfl hb
      obtain ⟨bk, -, hmem, rfl⟩ := mem_banksOf_of_bankIn hrk hb
      exact hall bk hmem
    · rintro ⟨bk, hbk, href⟩
      obtain ⟨i, hc, hr, hi⟩ := bankIn_of_mem_banksOf hrk hbk
      exact ⟨i, _, hc, hr, hi, href⟩

/-! ## The clocks -/

theorem windowsPositive (cfg : Config) : cfg.spec.WindowsPositive := by
  intro level p t ht
  obtain ⟨ts, hts, -, -, -, -, hwindow, -⟩ := mem_populateTimingcons.mp ht
  rw [hwindow]
  have hall : ∀ ts ∈ timingInitializer cfg.timing, 1 ≤ ts.window := by
    simp [timingInitializer]
  exact hall ts hts

structure Tracked (cfg : Config) (d : Device) (logs : ℕ → List (TimingEvent Command)) : Prop where
  tracks : ∀ ch root, d.channels[ch]? = some root → Tracks (n := 3) cfg.spec 0 ch (logs ch) root
  chronological : ∀ ch, Chronological (logs ch)
  past : ∀ ch, ∀ e ∈ logs ch, e.clk ≤ d.clk

theorem Tracked.create (cfg : Config) : Tracked cfg (Device.create cfg) fun _ => [] where
  tracks := fun ch root hroot => by
    rw [Device.create, List.getElem?_map] at hroot
    obtain ⟨j, hj, rfl⟩ := Option.map_eq_some_iff.mp hroot
    obtain ⟨_, rfl⟩ := List.getElem?_eq_some_iff.mp hj
    simpa using create_tracks cfg.spec 3 0 ch
  chronological := fun _ => List.Pairwise.nil
  past := fun _ _ he => by cases he

def logAfter (logs : ℕ → List (TimingEvent Command)) (command : Command) (addrVec : AddrVec)
    (clk : ℕ) : ℕ → List (TimingEvent Command) := fun ch =>
  if addrVec.level channel = ch then ⟨command, addrVec, clk⟩ :: logs ch else logs ch

theorem Tracked.issueCommand (h : Tracked cfg d logs) (command : Command) (addrVec : AddrVec) :
    Tracked cfg (d.issueCommand cfg command addrVec) (logAfter logs command addrVec d.clk) := by
  have hchron : ∀ ch, Chronological (logAfter logs command addrVec d.clk ch) := by
    intro ch
    unfold logAfter
    split
    · exact pairwise_cons.mpr ⟨h.past ch, h.chronological ch⟩
    · exact h.chronological ch
  refine ⟨fun ch root hroot => ?_, hchron, fun ch e he => ?_⟩
  · rw [Device.issueCommand, getElem?_modifyChild] at hroot
    obtain ⟨root₀, hroot₀, rfl⟩ := map_eq_some_iff.mp hroot
    have htracks := h.tracks ch root₀ hroot₀
    have hchron := hchron ch
    unfold logAfter at hchron ⊢
    split
    · rename_i hc
      rw [if_pos hc] at hchron
      exact (updateTiming_tracks (windowsPositive cfg) htracks hchron).of_sameTiming
        (updateStates_sameTiming actions_sameTiming command addrVec 0 _)
    · exact htracks
  · unfold logAfter at he
    split at he
    · rcases mem_cons.mp he with rfl | he
      · exact le_refl _
      · exact h.past ch e he
    · exact h.past ch e he

theorem Tracked.tick (h : Tracked cfg d logs) : Tracked cfg (d.tick cfg) logs := by
  refine ⟨?_, h.chronological, fun ch e he => (h.past ch e he).trans (Nat.le_succ d.clk)⟩
  have hfold : ∀ due : List FutureAction, ∀ ch root,
      (due.foldr (Device.handleFutureAction cfg) d.channels)[ch]? = some root →
        Tracks (n := 3) cfg.spec 0 ch (logs ch) root := by
    intro due
    induction due with
    | nil => exact h.tracks
    | cons fa due ih =>
      intro ch root hroot
      simp only [foldr_cons, Device.handleFutureAction] at hroot
      split at hroot
      · rw [getElem?_modifyChild] at hroot
        obtain ⟨root₀, hroot₀, rfl⟩ := map_eq_some_iff.mp hroot
        have htracks := ih ch root₀ hroot₀
        split
        · exact htracks.of_sameTiming (updateStates_sameTiming actions_sameTiming _ _ 0 _)
        · exact htracks
      · exact ih ch root hroot
  exact hfold _

/-- A rank accepts an `ACT` only when every refresh it was given is `nRFC` cycles old. -/
theorem Tracked.refresh_over_of_ready (h : Tracked cfg d logs) (haddr : ExactAddr addrVec i)
    (hb : d.bankAt i = some b) (hready : d.checkReady cfg .ACT addrVec = true) :
    ∀ e ∈ logs i.channel, e.command = .REFab → namesRank e.addrVec i = true →
      (e.clk : ℤ) + cfg.timing.nRFC ≤ d.clk := by
  intro e he hcmd hnames
  obtain ⟨root, rk, -, -, hroot, hrk, -⟩ := exists_path_of_bankAt hb
  have hchannel : childAt d.channels (addrVec.level channel) = some root :=
    childAt_eq_some_iff.mpr ⟨i.channel, haddr.channel, hroot⟩
  simp only [Device.checkReady, hchannel] at hready
  rw [checkReady_iff_of_tracks _ _ (h.tracks _ _ hroot) (Nat.zero_le _)] at hready
  -- the constraint REFab -> ACT of the rank
  have hmem : (⟨.ACT, cfg.timing.nRFC, 1, false⟩ : TimingConsEntry Command) ∈
      cfg.spec.timingCons rank .REFab := by
    refine mem_populateTimingcons.mpr ⟨⟨rank, [.REFab], [.ACT, .PREA], cfg.timing.nRFC, 1, false⟩,
      by simp [timingInitializer], rfl, by simp, by simp, rfl, rfl, rfl⟩
  have hlaw := hready [i.rank] (by simp [hrk, get?])
    (by simp [addresses, isTarget, haddr.rank]) (by simp [spec, commandScopes]) .REFab _ hmem
    rfl
  refine hlaw.forall_of_window_one (h.chronological i.channel) rfl rfl e he hcmd ?_
  obtain ⟨hc, hr⟩ := Bool.and_eq_true_iff.mp hnames
  simpa [addresses, isTarget, decide_eq_true_eq.mp hc] using hr

end MultiCoreMemory.DDR4
