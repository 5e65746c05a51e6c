import MultiCoreMemory.MemorySystem.Activation

/-!
# How far apart the refreshes of a rank are

The constraint table of `DDR4.cpp` lists `REFab -> {ACT, PREA}` but no `REFab -> REFab`, and
`RequireAllBanksClosed` lets a refresh through to a rank that is refreshing.
-/

namespace MultiCoreMemory.DDR4

open List Option

/-! ## The device and what it was told -/

structure RefreshRun where
  device : Device
  log : List (TimingEvent Command) := []

def sameRank (a b : AddrVec) : Bool := a.level channel = b.level channel && a.level rank = b.level rank

def Spaced (cfg : Config) (log : List (TimingEvent Command)) : Prop :=
  log.Pairwise fun newer older => newer.command = .REFab → older.command = .REFab →
    sameRank older.addrVec newer.addrVec = true → (older.clk : ℤ) + cfg.timing.nRFC ≤ newer.clk
  deriving Decidable

variable (addrVec : AddrVec) (log : List (TimingEvent Command)) (e : TimingEvent Command)

def activates : Bool :=
  e.command = .ACT && sameRank e.addrVec addrVec

def sinceActivation :
    List (TimingEvent Command) := log.takeWhile fun e => !activates addrVec e

def untilActivation :
    List (TimingEvent Command) := log.dropWhile fun e => !activates addrVec e

def refreshes : Bool :=
  e.command = .REFab && sameRank e.addrVec addrVec

namespace RefreshRun

variable (cfg : Config)

def step (s : RefreshRun) : DeviceCall → Option RefreshRun
  | .tick => some { s with device := s.device.tick cfg }
  | .request typeId addrVec =>
    (s.device.serve cfg typeId addrVec).map fun command =>
      { device := s.device.issueCommand cfg command addrVec
        log := ⟨command, addrVec, s.device.clk⟩ :: s.log }

def machine : Machine RefreshRun DeviceCall where
  init := { device := Device.create cfg }
  step := step cfg

def spacedCall (s : RefreshRun) : DeviceCall → Bool
  | .tick => true
  | .request typeId addrVec =>
    typeId ≠ typeAllBankRefresh || (sinceActivation addrVec s.log).all fun e =>
      !refreshes addrVec e || decide ((e.clk : ℤ) + cfg.timing.nRFC ≤ s.device.clk)

end RefreshRun

variable {cfg : Config} {s s' : RefreshRun}

theorem sameRank_iff {a b : AddrVec} :
    sameRank a b = true ↔ a.level channel = b.level channel ∧ a.level rank = b.level rank := by
  simp [sameRank]

variable {addrVec : AddrVec} {e : TimingEvent Command} {b : Bank} {typeId : ℕ} {command : Command}
  {i : BankId}

theorem refreshes_iff :
    refreshes addrVec e = true ↔ e.command = .REFab ∧ sameRank e.addrVec addrVec = true := by
  simp [refreshes]

theorem mem_since_or_until (addrVec : AddrVec) {log : List (TimingEvent Command)} (he : e ∈ log) :
    e ∈ sinceActivation addrVec log ∨ e ∈ untilActivation addrVec log := by
  rw [← mem_append, sinceActivation, untilActivation, takeWhile_append_dropWhile]
  exact he

theorem sinceActivation_cons (e : TimingEvent Command) (log : List (TimingEvent Command)) :
    sinceActivation addrVec (e :: log) =
      if activates addrVec e then [] else e :: sinceActivation addrVec log := by
  rw [sinceActivation, takeWhile_cons]
  cases activates addrVec e <;> rfl

theorem untilActivation_cons (e : TimingEvent Command) (log : List (TimingEvent Command)) :
    untilActivation addrVec (e :: log) =
      if activates addrVec e then e :: log else untilActivation addrVec log := by
  rw [untilActivation, dropWhile_cons]
  cases activates addrVec e <;> rfl

/-! ## The invariant -/

def channelLog (log : List (TimingEvent Command)) (ch : ℕ) : List (TimingEvent Command) :=
  log.filter fun e => e.addrVec.level channel = ch

/-- The refreshes before an activation are over for good. -/
structure SpacingInv (cfg : Config) (s : RefreshRun) : Prop where
  tracked : Tracked cfg s.device (channelLog s.log)
  past : ∀ e ∈ s.log, e.clk ≤ s.device.clk
  inside : ∀ i : BankId, i.Inside cfg.org → (s.device.bankAt i).isSome
  deferred : ∀ fa ∈ s.device.futureActions, fa.cmd = .REFab
  finished : ∀ addrVec, ∀ e ∈ untilActivation addrVec s.log, refreshes addrVec e = true →
    (e.clk : ℤ) + cfg.timing.nRFC ≤ s.device.clk
  opened : ∀ (i : BankId) b (addrVec : AddrVec), s.device.bankAt i = some b → b.state ≠ .Closed →
    b.state ≠ .Refreshing → addrVec.level channel = i.channel → addrVec.level rank = i.rank →
    ∀ e ∈ sinceActivation addrVec s.log, refreshes addrVec e = false

theorem SpacingInv.init (cfg : Config) : SpacingInv cfg (RefreshRun.machine cfg).init where
  tracked := Tracked.create cfg
  past := fun _ he => nomatch he
  inside := (BanksInv.create cfg).inside
  deferred := fun _ hfa => nomatch hfa
  finished := fun _ _ he => nomatch he
  opened := fun _ _ _ _ _ _ _ _ _ he => nomatch he

section

variable (h : SpacingInv cfg s)
include h

theorem SpacingInv.tick : SpacingInv cfg { s with device := s.device.tick cfg } where
  tracked := h.tracked.tick
  past := fun e he => Nat.le_succ_of_le (h.past e he)
  inside := fun i hi => by
    rw [bankAt_tick cfg h.deferred, isSome_map]
    exact h.inside i hi
  deferred := fun fa hfa => h.deferred fa (mem_futureActions_tick.mp hfa).1
  finished := fun addrVec e he href => by
    have := h.finished addrVec e he href
    show (e.clk : ℤ) + cfg.timing.nRFC ≤ ((s.device.clk + 1 : ℕ) : ℤ)
    omega
  opened := fun i b addrVec hb hclosed hrefreshing hch hr => by
    -- a deferred action leaves its banks closed
    rw [bankAt_tick cfg h.deferred] at hb
    obtain ⟨b₀, hb₀, rfl⟩ := map_eq_some_iff.mp hb
    split at hclosed
    · exact absurd rfl hclosed
    · rename_i hdue
      rw [if_neg hdue] at hrefreshing
      exact h.opened i b₀ addrVec hb₀ hclosed hrefreshing hch hr

/-! ## One command -/

omit h in
theorem channelLog_cons (command : Command) (addrVec : AddrVec) (clk : ℕ)
    (log : List (TimingEvent Command)) :
    channelLog (⟨command, addrVec, clk⟩ :: log) = logAfter (channelLog log) command addrVec clk := by
  funext ch
  unfold channelLog logAfter
  by_cases hch : addrVec.level channel = ch <;> simp [hch]

theorem SpacingInv.finished_of_activation (haddr : ExactAddr addrVec i)
    (hb : s.device.bankAt i = some b) (hready : s.device.checkReady cfg .ACT addrVec = true)
    (he : e ∈ s.log) (href : refreshes addrVec e = true) :
    (e.clk : ℤ) + cfg.timing.nRFC ≤ s.device.clk := by
  obtain ⟨hcmd, hsame⟩ := refreshes_iff.mp href
  obtain ⟨hch, hr⟩ := sameRank_iff.mp hsame
  rw [haddr.channel] at hch
  rw [haddr.rank] at hr
  refine h.tracked.refresh_over_of_ready haddr hb hready e ?_ hcmd ?_
  · exact mem_filter.mpr ⟨he, by simpa using hch⟩
  · simp [namesRank, isTarget, hch, hr]

variable {final : Command} (hleads : LeadsTo s.device addrVec typeId final command)
  (hready : s.device.checkReady cfg command addrVec = true)
include hleads hready

theorem SpacingInv.finished_after (a : AddrVec)
    (he : e ∈ untilActivation a (⟨command, addrVec, s.device.clk⟩ :: s.log))
    (href : refreshes a e = true) : (e.clk : ℤ) + cfg.timing.nRFC ≤ s.device.clk := by
  rw [untilActivation_cons] at he
  split at he
  · rename_i hact
    obtain ⟨hcmd, hsame⟩ : command = .ACT ∧ sameRank addrVec a = true := by
      simpa [activates] using hact
    rcases mem_cons.mp he with rfl | hold
    · -- the activation itself is no refresh
      rw [hcmd] at href
      exact absurd (refreshes_iff.mp href).1 (by simp)
    · cases hleads with
      | refresh => cases hcmd
      | prechargeAll => cases hcmd
      | bank _ _ haddr hb =>
        subst hcmd
        refine h.finished_of_activation haddr hb hready hold (refreshes_iff.mpr ?_)
        obtain ⟨hecmd, hesame⟩ := refreshes_iff.mp href
        rw [sameRank_iff] at hsame hesame ⊢
        exact ⟨hecmd, hesame.1.trans hsame.1.symm, hesame.2.trans hsame.2.symm⟩
  · exact h.finished a e he href

omit h hleads hready in
theorem open_after {d : Device} (hb : (d.issueCommand cfg command addrVec).bankAt i = some b)
    (hclosed : b.state ≠ .Closed) (hrefreshing : b.state ≠ .Refreshing) :
    (command = .ACT ∧ reaches .ACT addrVec i = true) ∨
      (∃ b₀, d.bankAt i = some b₀ ∧ b₀.state ≠ .Closed ∧ b₀.state ≠ .Refreshing) ∧
        (command = .REFab → namesRank addrVec i = false) := by
  obtain ⟨b₀, hb₀, ⟨hreach, rfl⟩ | ⟨hreach, rfl⟩⟩ := exists_of_bankAt_issueCommand hb
  · refine .inr ⟨⟨b, hb₀, hclosed, hrefreshing⟩, ?_⟩
    rintro rfl
    exact hreach
  · cases command with
    | ACT => exact .inl ⟨rfl, hreach⟩
    | RD | WR => exact .inr ⟨⟨b₀, hb₀, hclosed, hrefreshing⟩, nofun⟩
    | REFab => exact absurd rfl hrefreshing
    | PRE | PREA | RDA | WRA | REFab_end => exact absurd rfl hclosed

omit hleads hready in
theorem SpacingInv.opened_after (hexact : command = .ACT → ∃ j, ExactAddr addrVec j) {a : AddrVec}
    (hb : (s.device.issueCommand cfg command addrVec).bankAt i = some b)
    (hclosed : b.state ≠ .Closed) (hrefreshing : b.state ≠ .Refreshing)
    (hch : a.level channel = i.channel) (hr : a.level rank = i.rank) :
    ∀ e ∈ sinceActivation a (⟨command, addrVec, s.device.clk⟩ :: s.log), refreshes a e = false := by
  intro e he
  rw [sinceActivation_cons] at he
  split at he
  · cases he
  · rename_i hact
    rcases open_after hb hclosed hrefreshing with ⟨rfl, hreach⟩ | ⟨⟨b₀, hb₀, hclosed₀, hrefreshing₀⟩, hne⟩
    · -- the activation opened this bank, so it is of this rank
      obtain ⟨j, haddr⟩ := hexact rfl
      obtain rfl := (namesBank_eq_true_iff haddr).mp hreach
      refine absurd ?_ hact
      simp [activates, sameRank, haddr.channel, haddr.rank, hch, hr]
    · rcases mem_cons.mp he with rfl | he
      · by_contra href
        obtain ⟨rfl, hsame⟩ := refreshes_iff.mp (eq_true_of_ne_false href)
        obtain ⟨hc, hr'⟩ := sameRank_iff.mp hsame
        have hnames := hne rfl
        simp [namesRank, isTarget, hc, hr', hch, hr] at hnames
      · exact h.opened i b₀ a hb₀ hclosed₀ hrefreshing₀ hch hr e he

theorem SpacingInv.issueCommand :
    SpacingInv cfg { device := s.device.issueCommand cfg command addrVec
                     log := ⟨command, addrVec, s.device.clk⟩ :: s.log } where
  tracked := by
    rw [channelLog_cons]
    exact h.tracked.issueCommand command addrVec
  past := by
    intro e he
    rcases mem_cons.mp he with rfl | he
    · exact le_refl _
    · exact h.past e he
  inside := by
    intro i hi
    rw [bankAt_issueCommand, isSome_map]
    exact h.inside i hi
  deferred := by
    intro fa hfa
    rcases mem_futureActions_issueCommand.mp hfa with hfa | ⟨-, rfl⟩
    · exact h.deferred fa hfa
    · rfl
  finished := fun a e he href => h.finished_after hleads hready a he href
  opened := by
    intro i b a hb hclosed hrefreshing hch hr
    refine h.opened_after ?_ hb hclosed hrefreshing hch hr
    rintro rfl
    cases hleads with
    | bank _ _ haddr => exact ⟨_, haddr⟩

/-! ## Runs -/

omit hleads hready in
/-- A refresh keeps the run spaced exactly when the refreshes since the last activation are over. -/
theorem SpacingInv.spaced_refresh_iff (addrVec : AddrVec) :
    Spaced cfg (⟨.REFab, addrVec, s.device.clk⟩ :: s.log) ↔
      (s.spacedCall cfg (.request typeAllBankRefresh addrVec) = true ∧ Spaced cfg s.log) := by
  unfold Spaced
  rw [pairwise_cons]
  refine and_congr_left fun _ => ?_
  simp only [RefreshRun.spacedCall, ne_eq, not_true_eq_false, decide_false, Bool.false_or,
    List.all_eq_true, Bool.or_eq_true, Bool.not_eq_true', decide_eq_true_eq]
  constructor
  · intro hall e he
    cases href : refreshes addrVec e with
    | false => exact .inl rfl
    | true =>
      obtain ⟨hcmd, hsame⟩ := refreshes_iff.mp href
      exact .inr (hall e ((takeWhile_sublist _).subset he) trivial hcmd hsame)
  · intro hsince e he _ hcmd hsame
    have href := refreshes_iff.mpr ⟨hcmd, hsame⟩
    rcases mem_since_or_until addrVec he with he | he
    · exact (hsince e he).resolve_left (by simp [href])
    · exact h.finished addrVec e he href

omit h hleads hready in
theorem spaced_cons_iff {log : List (TimingEvent Command)} (hcmd : e.command ≠ .REFab) :
    Spaced cfg (e :: log) ↔ Spaced cfg log := by
  unfold Spaced
  rw [pairwise_cons]
  exact and_iff_right fun _ _ href => absurd href hcmd

omit hleads hready in
/-- **One call** keeps the run spaced exactly when `spacedCall` lets it through. -/
theorem SpacingInv.step {call : DeviceCall} (hstep : s.step cfg call = some s') :
    SpacingInv cfg s' ∧ (Spaced cfg s'.log ↔ s.spacedCall cfg call = true ∧ Spaced cfg s.log) := by
  cases call with
  | tick =>
    cases hstep
    exact ⟨h.tick, by simp [RefreshRun.spacedCall]⟩
  | request typeId addrVec =>
    obtain ⟨command, hserve, rfl⟩ := map_eq_some_iff.mp hstep
    obtain ⟨⟨final, hleads⟩, -, hready⟩ := Device.serve_eq_some h.inside hserve
    refine ⟨h.issueCommand hleads hready, ?_⟩
    cases hleads with
    | refresh => exact h.spaced_refresh_iff addrVec
    | prechargeAll hch hr hb hclosed hrefreshing =>
      -- a bank is open, so the rank has not been refreshed since its last activation
      have hnone := h.opened _ _ addrVec hb hclosed hrefreshing hch hr
      have hcall : s.spacedCall cfg (.request typeAllBankRefresh addrVec) = true := by
        simp only [RefreshRun.spacedCall, Bool.or_eq_true, List.all_eq_true]
        exact .inr fun e he => .inl (by simp [hnone e he])
      rw [spaced_cons_iff (by simp)]
      simp [hcall]
    | bank htype hfinal _ _ hcmd =>
      have hne : command ≠ .REFab := hcmd ▸ (bankPreq_ne_of_rank hfinal).1
      have hcall : s.spacedCall cfg (.request typeId addrVec) = true := by
        simp [RefreshRun.spacedCall, htype]
      rw [spaced_cons_iff hne]
      simp [hcall]

end

/-- **The refreshes of a run are `nRFC` cycles apart exactly when each refresh request finds the
refreshes since the last activation of its rank over**: nothing in the device keeps them apart. -/
theorem refreshes_spaced_iff (cfg : Config) (calls : List DeviceCall) (s : RefreshRun)
    (hrun : (RefreshRun.machine cfg).run (RefreshRun.machine cfg).init calls = some s) :
    Spaced cfg s.log ↔ (RefreshRun.machine cfg).runMeets (RefreshRun.spacedCall cfg)
      (RefreshRun.machine cfg).init calls = true := by
  have hrest : ∀ s₀, SpacingInv cfg s₀ → (RefreshRun.machine cfg).run s₀ calls = some s →
      (Spaced cfg s.log ↔ Spaced cfg s₀.log ∧
        (RefreshRun.machine cfg).runMeets (RefreshRun.spacedCall cfg) s₀ calls = true) := by
    clear hrun
    induction calls with
    | nil =>
      intro s₀ _ hrun
      cases hrun
      simp [Machine.runMeets]
    | cons call calls ih =>
      intro s₀ hinv hrun
      obtain ⟨s₁, hstep, hrun⟩ := Machine.run_cons hrun
      obtain ⟨hinv₁, hspaced⟩ := hinv.step hstep
      rw [ih s₁ hinv₁ hrun, hspaced, Machine.runMeets, hstep, Bool.and_eq_true]
      tauto
  rw [hrest _ (SpacingInv.init cfg) hrun]
  exact and_iff_right List.Pairwise.nil

def quickRefresh : Config := ⟨⟨1, 1, 1, 1⟩, { Timings.ddr4_2400R with nRFC := 4 }⟩

def refreshRequest : DeviceCall := .request typeAllBankRefresh [0, 0, -1, -1, -1, -1]

/-- A refresh, its time, and a refresh again. -/
theorem second_refresh_after_first_spaced :
    ∃ s, (RefreshRun.machine quickRefresh).run (RefreshRun.machine quickRefresh).init
        [.tick, refreshRequest, .tick, .tick, .tick, .tick, refreshRequest] = some s ∧
      s.log.map TimingEvent.clk = [5, 1] ∧ Spaced quickRefresh s.log := by
  let m := RefreshRun.machine quickRefresh
  have hrun : (m.run m.init [.tick, refreshRequest, .tick, .tick, .tick, .tick, refreshRequest]).map
      (fun s => s.log.map TimingEvent.clk) = some [5, 1] := by decide +kernel
  obtain ⟨s, hs, hclocks⟩ := map_eq_some_iff.mp hrun
  exact ⟨s, hs, hclocks, (refreshes_spaced_iff quickRefresh _ s hs).mpr (by decide +kernel)⟩

def twoRefreshes : List (SystemCall Command) :=
  List.replicate 2 (.prioritySend 0
    { typeId := typeAllBankRefresh, addrVec := [0, 0, -1, -1, -1, -1] }) ++
    MemorySystem.cycle (List.replicate 8 ([], [])) ++ MemorySystem.cycle (List.replicate 8 ([], []))

/-- **Two refreshes that wait are issued in consecutive cycles**: in the shipped memory system rank 0 is
refreshed in cycles 1 and 2, each refresh taking 433 cycles. -/
theorem waiting_refreshes_issued_in_consecutive_cycles :
    (∃ s, shippedSystem.Reachable s ∧ s.dram.clk = 2 ∧ s.dram.futureActions.map
        (fun fa => (fa.cmd, fa.addrVec, fa.clk - Timings.ddr4_2400R.nRFC + 1)) =
      [(.REFab, [0, 0, -1, -1, -1, -1], 1), (.REFab, [0, 0, -1, -1, -1, -1], 2)]) ∧
    ∃ s, (RefreshRun.machine Config.shipped).Reachable s ∧ ¬Spaced Config.shipped s.log :=
  ⟨Machine.exists_reachable twoRefreshes (by decide +kernel),
    Machine.exists_reachable [.tick, refreshRequest, .tick, refreshRequest] (by decide +kernel)⟩

end MultiCoreMemory.DDR4
