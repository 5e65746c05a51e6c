import MultiCoreMemory.MemorySystem.RefreshSpacing

/-!
# The commands of the memory system keep the timing law

The device takes every command it is given; what keeps the constraints of `DDR4.cpp` is that a controller
asks `check_ready` for the chosen request and issues its command in the same cycle, before the device or
another controller of the channel can move.
-/

namespace MultiCoreMemory.DDR4

open List Option Controller

/-- A memory system and the commands that its controllers have issued, newest first. -/
structure SystemRun where
  sys : MemorySystem Command Device
  log : List (TimingEvent Command) := []

def issuedEvents (clk : ℕ) (effects : List (Effect Command)) : List (TimingEvent Command) :=
  effects.filterMap fun
    | .issued command req => some ⟨command, req.addrVec, clk⟩
    | _ => none

namespace SystemRun

variable (cfg : Config) (mapper : Request Command → Request Command) (params : ControllerParams)

def issuedBy (s : MemorySystem Command Device) : SystemCall Command → List (TimingEvent Command)
  | .tickController ch refreshReqs policyReqs =>
    match s.controllers[ch]? with
    | none => []
    | some c =>
      match c.tick (idram cfg) params s.dram refreshReqs policyReqs with
      | .error _ => []
      | .ok (_, effects, _) => issuedEvents s.dram.clk effects
  | _ => []

def machine (channels : ℕ) : Machine SystemRun (SystemCall Command) where
  init := ⟨(MemorySystem.machine (system cfg mapper params) (Device.create cfg) channels).init, []⟩
  step s call := (s.sys.step (system cfg mapper params) call).map fun sys =>
    ⟨sys, issuedBy cfg params s.sys call ++ s.log⟩

end SystemRun

/-- Every constraint on the command, at the channel and at each rank, bank group and bank that it
addresses, holds against the commands that were issued before it. -/
def Lawful (cfg : Config) (earlier : List (TimingEvent Command)) (e : TimingEvent Command) : Prop :=
  ∀ i : BankId, i.Inside cfg.org → e.addrVec.level channel = i.channel →
    ∀ k ≤ 3, k ≤ cfg.spec.commandScopes e.command →
      addresses e.addrVec 1 ([i.rank, i.bankgroup, i.bank].take k) = true →
      ∀ p, ∀ t ∈ cfg.spec.timingCons k p, t.cmd = e.command →
        Respected (channelLog earlier i.channel) 0 (i.channel :: [i.rank, i.bankgroup, i.bank].take k)
          p t e.clk

structure TimingInv (cfg : Config) (d : Device) (log : List (TimingEvent Command)) : Prop where
  tracked : Tracked cfg d (channelLog log)
  inside : ∀ i : BankId, i.Inside cfg.org → (d.bankAt i).isSome
  deferred : ∀ fa ∈ d.futureActions, fa.cmd = .REFab
  lawful : ∀ e earlier, e :: earlier <:+ log → Lawful cfg earlier e

variable {cfg : Config} {d d' : Device} {log : List (TimingEvent Command)} {command : Command}
  {addrVec : AddrVec}

namespace TimingInv

variable (h : TimingInv cfg d log)
include h

theorem lawful_of_ready (hready : d.checkReady cfg command addrVec = true) :
    Lawful cfg log ⟨command, addrVec, d.clk⟩ := by
  intro i hin hch k hk hscope haddr p t ht hcmd
  obtain ⟨b, hb⟩ := isSome_iff_exists.mp (h.inside i hin)
  obtain ⟨root, rk, bg, bk, hroot, hrk, hbg, hbk, -⟩ := exists_path_of_bankAt hb
  have hchannel : Node.childAt d.channels (addrVec.level channel) = some root :=
    Node.childAt_eq_some_iff.mpr ⟨i.channel, hch, hroot⟩
  simp only [Device.checkReady, hchannel] at hready
  rw [checkReady_iff_of_tracks _ _ (h.tracked.tracks _ _ hroot) (Nat.zero_le _)] at hready
  have hlength : ([i.rank, i.bankgroup, i.bank].take k).length = k := by
    rw [length_take, length_cons, length_cons, length_singleton]
    omega
  have hnode : (root.get? ([i.rank, i.bankgroup, i.bank].take k)).isSome := by
    obtain rfl | rfl | rfl | rfl : k = 0 ∨ k = 1 ∨ k = 2 ∨ k = 3 := by omega
    · simp [Node.get?]
    · simp [Node.get?, hrk]
    · simp [Node.get?, hrk, hbg]
    · simp [Node.get?, hrk, hbg, hbk]
  refine hready _ hnode haddr ?_ p t (by rwa [hlength, Nat.zero_add]) hcmd
  rw [hlength, Nat.zero_add]
  exact hscope

theorem issueCommand (hready : d.checkReady cfg command addrVec = true) :
    TimingInv cfg (d.issueCommand cfg command addrVec) (⟨command, addrVec, d.clk⟩ :: log) where
  tracked := channelLog_cons command addrVec d.clk log ▸ h.tracked.issueCommand command addrVec
  inside i hi := by
    rw [bankAt_issueCommand, isSome_map]
    exact h.inside i hi
  deferred fa hfa := by
    rcases mem_futureActions_issueCommand.mp hfa with hfa | ⟨-, rfl⟩
    · exact h.deferred fa hfa
    · rfl
  lawful e earlier hsuffix := by
    rcases suffix_cons_iff.mp hsuffix with heq | hsuffix
    · cases heq
      exact h.lawful_of_ready hready
    · exact h.lawful e earlier hsuffix

theorem tick : TimingInv cfg (d.tick cfg) log where
  tracked := h.tracked.tick
  inside i hi := by
    rw [bankAt_tick cfg h.deferred, isSome_map]
    exact h.inside i hi
  deferred fa hfa := h.deferred fa (mem_futureActions_tick.mp hfa).1
  lawful := h.lawful

end TimingInv

theorem issuedEvents_serve (cfg : Config) {c : Controller Command} {chosen : Chosen Command}
    (hok : ChosenOk (idram cfg) d c chosen) :
    ∃ command, d.checkReady cfg command chosen.req.addrVec = true ∧
      (serve (idram cfg) d c chosen).1 = d.issueCommand cfg command chosen.req.addrVec ∧
      issuedEvents d.clk (serve (idram cfg) d c chosen).2.1 = [⟨command, chosen.req.addrVec, d.clk⟩] := by
  obtain ⟨-, -, hcore, hcommand⟩ := countServed_spec (D := idram cfg) (d := d) hok.pos
  -- the served request differs from the chosen one in its mark only
  have haddr : (countServed (idram cfg) d c chosen).1.addrVec = chosen.req.addrVec := by
    simpa [Request.core] using congrArg Request.addrVec hcore
  have hready := hok.ready
  unfold Request.ready at hready
  split at hready
  · rename_i command hcmd
    unfold serve
    simp only [hcommand, hcmd, haddr]
    exact ⟨command, hready, rfl, by simp [issuedEvents, haddr]⟩
  · cases hready

/-- A cycle of a controller issues nothing, or one command for which the device was ready. -/
theorem issuedEvents_tick {params : ControllerParams} {c c' : Controller Command}
    {refreshReqs policyReqs : List (Request Command)} {effects : List (Effect Command)}
    (htick : c.tick (idram cfg) params d refreshReqs policyReqs = .ok (d', effects, c')) :
    issuedEvents d.clk effects = [] ∧ d' = d ∨
      ∃ command addrVec, d.checkReady cfg command addrVec = true ∧
        d' = d.issueCommand cfg command addrVec ∧
        issuedEvents d.clk effects = [⟨command, addrVec, d.clk⟩] := by
  obtain ⟨c₁, served, refreshed, sent, c₂, c₃, chosen, hserved, hrefreshed, hchosen, hsent, hrest⟩ :=
    tick_phases htick
  have hbefore : issuedEvents d.clk (served ++ refreshed ++ sent) = [] := by
    obtain ⟨accepted, rfl, -⟩ := prioritySendAll_spec hrefreshed
    obtain ⟨accepted', rfl, -⟩ := prioritySendAll_spec hsent
    have hcompleted : issuedEvents d.clk served = [] := by
      unfold serveCompletedReads at hserved
      split at hserved
      · cases hserved
        rfl
      · split at hserved <;> cases hserved <;> rfl
    simp only [issuedEvents, filterMap_append, filterMap_map, append_eq_nil_iff] at hcompleted ⊢
    exact ⟨⟨hcompleted, by simp⟩, by simp⟩
  rcases hrest with ⟨-, rfl, rfl, -⟩ | ⟨ch, hch, rfl, rfl, -⟩
  · exact .inl ⟨hbefore, rfl⟩
  · obtain ⟨hok, -⟩ := (scheduleRequest_spec (p := params) c₂).2 ch (hchosen.trans hch)
    obtain ⟨extra, -, rfl, -⟩ := prioritySendAll_spec hsent
    obtain ⟨command, hready, hdevice, hevents⟩ := issuedEvents_serve cfg
      ⟨getElem?_appendPriority hok.pos, hok.preq, hok.ready⟩
    refine .inr ⟨command, _, hready, hdevice, ?_⟩
    rw [issuedEvents, filterMap_append]
    exact (congrArg (· ++ _) hbefore).trans hevents

variable {mapper : Request Command → Request Command} {params : ControllerParams} {channels : ℕ}
  {s s' : SystemRun}

theorem TimingInv.step {call : SystemCall Command} (h : TimingInv cfg s.sys.dram s.log)
    (hstep : (SystemRun.machine cfg mapper params channels).step s call = some s') :
    TimingInv cfg s'.sys.dram s'.log := by
  obtain ⟨sys, hsys, rfl⟩ := map_eq_some_iff.mp hstep
  cases MemorySystem.step_cases _ hsys with
  | send _ _ hdram => exact hdram ▸ h
  | prioritySend _ _ hdram => exact hdram ▸ h
  | tickDram hdram => exact hdram ▸ h.tick
  | @tickController refreshReqs policyReqs ch c c' effects hc htick =>
    change c.tick (idram cfg) params s.sys.dram refreshReqs policyReqs = _ at htick
    simp only [SystemRun.issuedBy, hc, htick]
    rcases issuedEvents_tick htick with ⟨hnone, hdram⟩ | ⟨command, addrVec, hready, hdram, hone⟩
    · rw [hnone, hdram]
      exact h
    · rw [hone, hdram]
      exact h.issueCommand hready

/-- **No run of the memory system breaks a timing constraint**: every command that a controller issues
keeps every constraint of the device against all commands issued to its channel before, whatever is sent,
to whatever addresses, and in whatever order the channels are ticked. -/
theorem issued_commands_lawful (h : (SystemRun.machine cfg mapper params channels).Reachable s)
    (e : TimingEvent Command) (earlier : List (TimingEvent Command)) (hlog : e :: earlier <:+ s.log) :
    Lawful cfg earlier e := by
  have hinv := h.invariant (P := fun s => TimingInv cfg s.sys.dram s.log) ?_
    fun _ _ _ hs _ hstep => hs.step hstep
  · exact hinv.lawful e earlier hlog
  · refine ⟨Tracked.create cfg, (BanksInv.create cfg).inside, fun fa hfa => ?_, fun e earlier he => ?_⟩
    · cases hfa
    · cases suffix_nil.mp he

/-- A read of a closed bank, and the cycles until it is served. -/
def readOnce : List (SystemCall Command) :=
  .send { typeId := typeRead, addrVec := [0, 0, 0, 0, 5, 0] } ::
    (replicate 17 (MemorySystem.cycle [([], [])])).flatten

theorem issued_commands_lawful_read_once : ∃ s : SystemRun,
    (SystemRun.machine Config.shipped id ControllerParams.shipped 1).Reachable s ∧
      ∃ e earlier, s.log = e :: earlier ∧ e.command = .RD ∧ earlier.map (·.command) = [.ACT] ∧
        Lawful Config.shipped earlier e := by
  obtain ⟨s, hs, hlog⟩ := Machine.exists_reachable
    (m := SystemRun.machine Config.shipped id ControllerParams.shipped 1)
    (P := fun s => s.log.map (·.command) = [.RD, .ACT]) readOnce (by decide +kernel)
  obtain ⟨e, earlier, heq, he, hearlier⟩ := map_eq_cons_iff.mp hlog
  exact ⟨s, hs, e, earlier, heq, he, hearlier,
    issued_commands_lawful hs e earlier (heq ▸ suffix_refl _)⟩

end MultiCoreMemory.DDR4
