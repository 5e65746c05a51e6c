import MultiCoreMemory.Controller.Run
import MultiCoreMemory.Dram.BankState
import MultiCoreMemory.MemorySystem.GenericDRAMSystem

/-!
# No activation is wasted

A request whose row was opened for it waits in the active buffer.  Until its own command is
issued its row stays open, whatever the other requests, the refreshes and the row policy ask for.
-/

namespace MultiCoreMemory.DDR4

open List Option Controller Request MemorySystem

/-! ## The requests of a channel -/

def Addressed (cfg : Config) (ch : ℕ) (r : Request Command) : Prop :=
  r.addrVec.level channel = ch ∧ validAddr cfg.org r.typeId r.addrVec = true ∧
    (r.typeId = typeAllBankRefresh → r.addrVec.level bankgroup = -1 ∧ r.addrVec.level bank = -1)
  deriving Decidable

structure Queued (cfg : Config) (ch : ℕ) (r : Request Command) : Prop where
  addressed : Addressed cfg ch r
  final : ∃ final, requestTranslations r.typeId = some final ∧ r.finalCommand = some final

/-- The row of the request is open. -/
def RowOpen (d : Device) (r : Request Command) : Prop :=
  ∃ i b, ExactAddr r.addrVec i ∧ d.bankAt i = some b ∧ b.state = .Opened ∧
    r.addrVec.level row ∈ b.rowState

def DifferentBanks (r r' : Request Command) : Prop :=
  ∀ i, ExactAddr r.addrVec i → ¬ExactAddr r'.addrVec i

structure ControllerInv (cfg : Config) (d : Device) (ch : ℕ) (c : Controller Command) : Prop where
  queued : ∀ id, ∀ r ∈ (c.buf id).buffer, Queued cfg ch r
  access : ∀ r ∈ c.activeBuffer.buffer, r.finalCommand = some .RD ∨ r.finalCommand = some .WR
  rowOpen : ∀ r ∈ c.activeBuffer.buffer, RowOpen d r
  distinct : c.activeBuffer.buffer.Pairwise DifferentBanks

variable {cfg : Config} {d : Device} {logs : ℕ → List (TimingEvent Command)} {ch : ℕ}
  {c : Controller Command}

variable {r : Request Command} {final command : Command} {d' : Device} {c' : Controller Command}
  {effects : List (Effect Command)} {chosen : Controller.Chosen Command}

theorem getPreqCommand_of_rowOpen (hfinal : final = .RD ∨ final = .WR) (h : RowOpen d r) :
    d.getPreqCommand cfg final r.addrVec = final := by
  obtain ⟨i, b, haddr, hb, hstate, hrow⟩ := h
  rw [getPreqCommand_of_bank (by tauto) haddr hb]
  rcases hfinal with rfl | rfl <;> simp [bankPreq, hstate, hrow]

/-! ## Changes of the device -/

theorem RowOpen.issueCommand {addrVec : AddrVec} (h : RowOpen d r)
    (hreach : ∀ i, ExactAddr r.addrVec i → reaches command addrVec i = true →
      command = .RD ∨ command = .WR ∨ command = .ACT) :
    RowOpen (d.issueCommand cfg command addrVec) r := by
  obtain ⟨i, b, haddr, hb, hstate, hrow⟩ := h
  have hbank : (d.issueCommand cfg command addrVec).bankAt i = _ :=
    bankAt_issueCommand d command addrVec i
  rw [hb, map_some] at hbank
  cases hr : reaches command addrVec i with
  | false =>
    rw [hr] at hbank
    exact ⟨i, b, haddr, hbank, hstate, hrow⟩
  | true =>
    rw [hr, if_pos rfl] at hbank
    refine ⟨i, _, haddr, hbank, ?_⟩
    rcases hreach i haddr hr with rfl | rfl | rfl
    · exact ⟨hstate, hrow⟩
    · exact ⟨hstate, hrow⟩
    · exact ⟨rfl, by simp [bankAfter, hrow]⟩

theorem RowOpen.tick (hinv : BanksInv cfg d logs) (h : RowOpen d r) : RowOpen (d.tick cfg) r := by
  obtain ⟨i, b, haddr, hb, hstate, hrow⟩ := h
  refine ⟨i, b, haddr, ?_, hstate, hrow⟩
  rw [bankAt_tick cfg (fun fa hfa => (hinv.pending fa hfa).1), hb, map_some, if_neg]
  rintro ⟨fa, hfa, -, hnames⟩
  exact hinv.quiet fa hfa i b hnames hb hstate

theorem ControllerInv.mapDevice (h : ControllerInv cfg d ch c)
    (hrows : ∀ r ∈ c.activeBuffer.buffer, RowOpen d r → RowOpen d' r) : ControllerInv cfg d' ch c :=
  ⟨h.queued, h.access, fun r hr => hrows r hr (h.rowOpen r hr), h.distinct⟩

theorem ControllerInv.otherChannel {ch' : ℕ} {addrVec : AddrVec} (h : ControllerInv cfg d ch' c')
    (hne : ch' ≠ ch) (haddr : addrVec.level channel = ch) :
    ControllerInv cfg (d.issueCommand cfg command addrVec) ch' c' := by
  refine h.mapDevice fun r hr hopen => hopen.issueCommand fun i hi hreach => ?_
  have hchannel := (reaches_iff.mp hreach).1
  have hr' := (h.queued .active r hr).addressed.1
  rw [haddr] at hchannel
  rw [hi.channel] at hr'
  omega

/-! ## What may be issued -/

theorem sameBank_eq_true_iff {a b : AddrVec} :
    sameBank bank a b = true ↔
      ∀ level < 4, a.level level = b.level level ∨ a.level level = -1 ∨ b.level level = -1 := by
  simp only [sameBank, List.all_eq_true, mem_range, bank]
  refine forall₂_congr fun level _ => ?_
  by_cases h : a.level level = b.level level <;> by_cases h₁ : a.level level = -1 <;>
    by_cases h₂ : b.level level = -1 <;> simp [h, h₁, h₂]

theorem not_reached_of_closing {a : Request Command} {i : BankId}
    (hclose : closesActive (idram cfg) c r = false) (hcmd : r.command = some command)
    (hclosing : (commandMeta command).isClosing = true) (ha : a ∈ c.activeBuffer.buffer)
    (haddr : ExactAddr a.addrVec i)
    (hwild : commandScopes command = rank → r.addrVec.level bankgroup = -1 ∧
      r.addrVec.level bank = -1) :
    reaches command r.addrVec i = false := by
  by_contra hreach
  obtain ⟨hchannel, hrank, hbank⟩ := reaches_iff.mp (Bool.not_eq_false _ ▸ hreach)
  have hsame : sameBank bank a.addrVec r.addrVec = true := by
    refine sameBank_eq_true_iff.mpr fun level hlevel => ?_
    simp only [isTarget, Bool.or_eq_true, decide_eq_true_eq] at hrank hbank
    obtain rfl | rfl | rfl | rfl : level = channel ∨ level = rank ∨ level = bankgroup ∨
        level = bank := by
      simp only [channel, rank, bankgroup, bank]
      omega
    · exact .inl (haddr.channel.trans hchannel.symm)
    · rw [haddr.rank]
      omega
    · rw [haddr.bankgroup]
      rcases hbank with hscope | ⟨hg, -⟩
      · exact .inr (.inr (hwild hscope).1)
      · omega
    · rw [haddr.bank]
      rcases hbank with hscope | ⟨-, hb⟩
      · exact .inr (.inr (hwild hscope).2)
      · omega
  simp only [closesActive, hcmd, idram, hclosing, Bool.true_and,
    List.any_eq_false] at hclose
  exact hclose a ha hsame

theorem BanksInv.leadsTo (hinv : BanksInv cfg d logs) (hr : Queued cfg ch r)
    (hfinal : r.finalCommand = some final) :
    LeadsTo d r.addrVec r.typeId final (d.getPreqCommand cfg final r.addrVec) := by
  obtain ⟨f, hf, hff⟩ := hr.final
  cases hff.symm.trans hfinal
  exact leadsTo_of_request hinv.inside hf hr.addressed.2.1

theorem LeadsTo.refresh_of_prechargeAll {typeId : ℕ} {addrVec : AddrVec}
    (h : LeadsTo d addrVec typeId final .PREA) : typeId = typeAllBankRefresh := by
  cases h with
  | prechargeAll => rfl
  | bank _ hfinal _ _ hcmd => exact absurd hcmd.symm (bankPreq_ne_of_rank hfinal).2

theorem LeadsTo.closed_of_activation {typeId : ℕ} {addrVec : AddrVec}
    (h : LeadsTo d addrVec typeId final .ACT) (hne : final ≠ .ACT) :
    (final = .RD ∨ final = .WR) ∧
      ∃ i b, ExactAddr addrVec i ∧ d.bankAt i = some b ∧ b.state ≠ .Opened := by
  cases h with
  | @bank _ _ _ i b _ hfinal haddr hb hcmd =>
    have haccess : final = .RD ∨ final = .WR := by
      rcases hfinal with hf | hf | hf | rfl
      · exact .inl hf
      · exact .inr hf
      · exact absurd hf hne
      · cases hcmd
    refine ⟨haccess, i, b, haddr, hb, fun hopen => ?_⟩
    rcases haccess with rfl | rfl <;>
      by_cases hrow : addrVec.level row ∈ b.rowState <;> simp [bankPreq, hopen, hrow] at hcmd

/-- **What `schedule_request` lets through leaves the rows of the active requests open.** -/
theorem not_closed_by_chosen (hinv : BanksInv cfg d logs) {a : Request Command}
    (hr : Queued cfg ch r) (hfinal : r.finalCommand = some final) (hcmd : r.command = some command)
    (hpreq : command = d.getPreqCommand cfg final r.addrVec)
    (hready : d.checkReady cfg command r.addrVec = true)
    (hclose : closesActive (idram cfg) c r = false) (ha : a ∈ c.activeBuffer.buffer)
    (hopen : RowOpen d a) (i : BankId) (haddr : ExactAddr a.addrVec i)
    (hreach : reaches command r.addrVec i = true) :
    command = .RD ∨ command = .WR ∨ command = .ACT := by
  have hleads := hinv.leadsTo hr hfinal
  rw [← hpreq] at hleads
  cases hinv.safe_of_leadsTo hleads hready with
  | activate => exact .inr (.inr rfl)
  | precharge =>
    have := not_reached_of_closing hclose hcmd rfl ha haddr fun h => by cases h
    rw [hreach] at this
    cases this
  | prechargeAll =>
    have := not_reached_of_closing hclose hcmd rfl ha haddr fun _ =>
      hr.addressed.2.2 hleads.refresh_of_prechargeAll
    rw [hreach] at this
    cases this
  | access haccess => exact haccess.imp_right .inl
  | refresh _ hclosed =>
    obtain ⟨j, b, haddr', hb, hstate, -⟩ := hopen
    obtain rfl := haddr.unique haddr'
    exact absurd hstate (hclosed i b hreach hb)

/-! ## One controller -/

section

variable (h : ControllerInv cfg d ch c)
include h

theorem ControllerInv.of_core
    (hcore : ∀ id, (c'.buf id).buffer.map core = (c.buf id).buffer.map core) :
    ControllerInv cfg d ch c' := by
  have hactive : c'.activeBuffer.buffer.map core =
      c.activeBuffer.buffer.map core := hcore .active
  have hall : ∀ {P : Request Command → Prop} {l l' : List (Request Command)},
      l'.map core = l.map core → (∀ r, P r.core ↔ P r) → (∀ r ∈ l, P r) →
        ∀ r ∈ l', P r := by
    intro P l l' hmap hP hl r hr
    have hmem : r.core ∈ l.map core := hmap ▸ List.mem_map_of_mem hr
    obtain ⟨r₀, hr₀, heq⟩ := List.mem_map.mp hmem
    exact (hP r).mp (heq ▸ (hP r₀).mpr (hl r₀ hr₀))
  refine ⟨fun id => hall (hcore id) (fun r => ?_) (h.queued id), ?_, ?_, ?_⟩
  · exact ⟨fun h => ⟨h.addressed, h.final⟩, fun h => ⟨h.addressed, h.final⟩⟩
  · exact hall hactive (fun _ => Iff.rfl) h.access
  · exact hall hactive (fun _ => Iff.rfl) h.rowOpen
  · have hpairwise : (c.activeBuffer.buffer.map core).Pairwise DifferentBanks :=
      pairwise_map.mpr h.distinct
    rw [← hactive] at hpairwise
    exact (pairwise_map (f := core)).mp hpairwise

theorem ControllerInv.of_mem (hactive : c'.activeBuffer = c.activeBuffer)
    (hmem : ∀ id, ∀ r ∈ (c'.buf id).buffer, r ∈ (c.buf id).buffer ∨ Queued cfg ch r) :
    ControllerInv cfg d ch c' := by
  refine ⟨fun id r hr => ?_, ?_, ?_, ?_⟩
  · exact (hmem id r hr).elim (h.queued id r) fun hq => hq
  · exact hactive ▸ h.access
  · exact hactive ▸ h.rowOpen
  · exact hactive ▸ h.distinct

theorem ControllerInv.prioritySendAll {insist : Bool} {reqs : List (Request Command)}
    (hreqs : ∀ r ∈ reqs, Addressed cfg ch r)
    (hsend : c.prioritySendAll (idram cfg) insist reqs = .ok (effects, c')) :
    ControllerInv cfg d ch c' := by
  obtain ⟨extra, -, rfl, hextra⟩ := prioritySendAll_spec hsend
  refine h.of_mem rfl fun id r hr => (mem_buf_appendPriority hr).imp_right fun hr => ?_
  obtain ⟨r₀, hr₀, final, hfinal, rfl⟩ := hextra r hr
  exact ⟨hreqs r₀ hr₀, final, hfinal, rfl⟩

theorem ControllerInv.send {ok : Bool} (hr : Addressed cfg ch r)
    (hsend : c.send (idram cfg) r = .ok (ok, effects, c')) : ControllerInv cfg d ch c' := by
  cases send_cases hsend with
  | forwarded => exact h.of_mem rfl fun id r hr => .inl (by cases id <;> exact hr)
  | @read final _ _ hfinal =>
    refine h.of_mem rfl fun id r' hr' => ?_
    cases id with
    | read =>
      refine (mem_append.mp hr').imp_right fun hr' => ?_
      rw [mem_singleton.mp hr']
      exact ⟨hr, final, hfinal, rfl⟩
    | _ => exact .inl hr'
  | @write final _ _ hfinal =>
    refine h.of_mem rfl fun id r' hr' => ?_
    cases id with
    | write =>
      refine (mem_append.mp hr').imp_right fun hr' => ?_
      rw [mem_singleton.mp hr']
      exact ⟨hr, final, hfinal, rfl⟩
    | _ => exact .inl hr'
  | refused => exact h.of_mem rfl fun id r hr => .inl (by cases id <;> exact hr)

theorem ControllerInv.prioritySend {ok : Bool} (hr : Addressed cfg ch r)
    (hsend : c.prioritySend (idram cfg) r = .ok (ok, effects, c')) : ControllerInv cfg d ch c' := by
  obtain ⟨final, hfinal, ⟨-, rfl⟩ | ⟨-, rfl⟩⟩ := prioritySend_spec hsend
  · refine h.of_mem rfl fun id r' hr' =>
      (mem_buf_appendPriority hr').imp_right fun hr' => ?_
    rw [mem_singleton.mp hr']
    exact ⟨hr, final, hfinal, rfl⟩
  · exact h

theorem ControllerInv.afterIssue (hr : Queued cfg ch r)
    (hactivated : r.command ≠ r.finalCommand → (commandMeta command).isOpening = true →
      (r.finalCommand = some .RD ∨ r.finalCommand = some .WR) ∧ RowOpen d r ∧
        ∀ a ∈ c.activeBuffer.buffer, DifferentBanks a r) :
    ControllerInv cfg d ch (Controller.afterIssue (idram cfg) c chosen r command) := by
  have hsub := Controller.afterIssue_sublist (D := idram cfg) (c := c) chosen r command
  have hqueued : ∀ id, ∀ r' ∈ ((Controller.afterIssue (idram cfg) c chosen r command).buf id).buffer,
      Queued cfg ch r' := by
    intro id r' hr'
    rcases mem_append.mp ((hsub id).subset hr') with hr' | hr'
    · exact h.queued id r' hr'
    · split at hr'
      · rw [mem_singleton.mp hr']
        exact hr
      · cases hr'
  have hactive := hsub .active
  simp only [true_and, idram] at hactive
  by_cases hopening : r.command ≠ r.finalCommand ∧ (commandMeta command).isOpening = true
  · rw [if_pos hopening] at hactive
    obtain ⟨haccess, hopen, hother⟩ := hactivated hopening.1 hopening.2
    refine ⟨hqueued, fun r' hr' => ?_, fun r' hr' => ?_, ?_⟩
    · rcases mem_append.mp (hactive.subset hr') with hr' | hr'
      · exact h.access r' hr'
      · rw [mem_singleton.mp hr']
        exact haccess
    · rcases mem_append.mp (hactive.subset hr') with hr' | hr'
      · exact h.rowOpen r' hr'
      · rw [mem_singleton.mp hr']
        exact hopen
    · refine List.Pairwise.sublist hactive (pairwise_append.mpr ⟨h.distinct, by simp, ?_⟩)
      intro a ha r' hr'
      rw [mem_singleton.mp hr']
      exact hother a ha
  · rw [if_neg hopening, append_nil] at hactive
    exact ⟨hqueued, fun r' hr' => h.access r' (hactive.subset hr'),
      fun r' hr' => h.rowOpen r' (hactive.subset hr'), h.distinct.sublist hactive⟩

end

structure Kept (cfg : Config) (d d' : Device) (ch : ℕ) (c' : Controller Command) : Prop where
  banks : ∃ logs, BanksInv cfg d' logs
  own : ControllerInv cfg d' ch c'
  others : ∀ ch' c, ch' ≠ ch → ControllerInv cfg d ch' c → ControllerInv cfg d' ch' c

section

variable (hinv : BanksInv cfg d logs) (h : ControllerInv cfg d ch c)
include hinv h

theorem Kept.refl : Kept cfg d d ch c :=
  ⟨⟨logs, hinv⟩, h, fun _ _ _ h => h⟩

theorem ControllerInv.activated (hr : Queued cfg ch r) (hfinal : r.finalCommand = some final)
    (hne : final ≠ .ACT) (hpreq : d.getPreqCommand cfg final r.addrVec = .ACT) :
    (r.finalCommand = some .RD ∨ r.finalCommand = some .WR) ∧
      RowOpen (d.issueCommand cfg .ACT r.addrVec) r ∧
        ∀ a ∈ c.activeBuffer.buffer, DifferentBanks a r := by
  have hleads := hinv.leadsTo hr hfinal
  rw [hpreq] at hleads
  obtain ⟨haccess, i, b, haddr, hb, hclosed⟩ := hleads.closed_of_activation hne
  refine ⟨?_, ?_, fun a ha j hj hrj => ?_⟩
  · rw [hfinal]
    simpa using haccess
  · have hreach : reaches .ACT r.addrVec i = true := (namesBank_eq_true_iff haddr).mpr rfl
    refine ⟨i, bankAfter .ACT r.addrVec b, haddr, ?_, rfl, by simp [bankAfter]⟩
    rw [bankAt_issueCommand, hb, map_some, if_pos hreach]
  · obtain ⟨j', b', hj', hb', hopen, -⟩ := h.rowOpen a ha
    obtain rfl := hj.unique hj'
    obtain rfl := haddr.unique hrj
    cases hb.symm.trans hb'
    exact hclosed hopen

theorem ControllerInv.serve (hrfc : 2 ≤ cfg.timing.nRFC)
    (hok : Controller.ChosenOk (idram cfg) d c chosen)
    (hclose : closesActive (idram cfg) c chosen.req = false) :
    Kept cfg d (Controller.serve (idram cfg) d c chosen).1 ch
      (Controller.serve (idram cfg) d c chosen).2.2 := by
  obtain ⟨hann, hpos, hcore, hcommand⟩ :=
    countServed_spec (D := idram cfg) (d := d) hok.pos
  have hq : Queued cfg ch chosen.req := h.queued _ _ (mem_of_getElem? hok.pos)
  obtain ⟨final, -, hfinal⟩ := hq.final
  have hcmd : chosen.req.command = some (d.getPreqCommand cfg final chosen.req.addrVec) := by
    rw [hok.preq, hfinal]
    rfl
  have hready := hok.ready
  simp only [ready, hcmd, idram] at hready
  -- the command keeps the rows of the active requests of this channel, and the other channels
  have hbanks := hinv.issueCommand hrfc (hinv.safe_of_leadsTo (hinv.leadsTo hq hfinal) hready)
  have hrows : ControllerInv cfg (d.issueCommand cfg
      (d.getPreqCommand cfg final chosen.req.addrVec) chosen.req.addrVec) ch c :=
    h.mapDevice fun a ha hopen => hopen.issueCommand
      (not_closed_by_chosen hinv hq hfinal hcmd rfl hready hclose ha hopen)
  -- the served request differs from the chosen one in its mark only
  have haddr : (countServed (idram cfg) d c chosen).1.addrVec = chosen.req.addrVec := by
    simpa [core] using congrArg addrVec hcore
  have hfinal' : (countServed (idram cfg) d c chosen).1.finalCommand = some final := by
    simpa [core, hfinal] using congrArg finalCommand hcore
  unfold Controller.serve
  simp only [hcommand, hcmd, haddr]
  refine ⟨⟨_, hbanks⟩, ?_, fun ch' c' hne h' => h'.otherChannel hne hq.addressed.1⟩
  have h' := h.of_core hann.buffers
  have hserved : Queued cfg ch (countServed (idram cfg) d c chosen).1 :=
    h'.queued _ _ (mem_of_getElem? hpos)
  refine (hrows.of_core hann.buffers).afterIssue hserved fun hne hopening => ?_
  · have hact : d.getPreqCommand cfg final chosen.req.addrVec = .ACT := by
      cases hpreq : d.getPreqCommand cfg final chosen.req.addrVec <;>
        simp [hpreq, commandMeta] at hopening ⊢
    rw [hcommand, hcmd, hfinal', hact] at hne
    have hactivated := h'.activated hinv hserved hfinal' (fun h => hne (congrArg some h.symm))
      (haddr ▸ hact)
    rw [haddr] at hactivated
    simpa [idram, hact] using hactivated

/-- **One cycle of a controller.** -/
theorem ControllerInv.tick {params : ControllerParams}
    {refreshReqs policyReqs : List (Request Command)} (hrfc : 2 ≤ cfg.timing.nRFC)
    (hrefresh : ∀ r ∈ refreshReqs, Addressed cfg ch r)
    (hpolicy : ∀ r ∈ policyReqs, Addressed cfg ch r)
    (htick : c.tick (idram cfg) params d refreshReqs policyReqs = .ok (d', effects, c')) :
    Kept cfg d d' ch c' := by
  obtain ⟨c₁, served, refreshed, sent, c₂, c₃, chosen, hserved, hrefreshed, hchosen, hsent, hrest⟩ :=
    tick_phases htick
  obtain ⟨hann, hok⟩ := scheduleRequest_spec (D := idram cfg) (p := params) (d := d) c₂
  have h₁ : ControllerInv cfg d ch c₁ := by
    have hframe := serveCompletedReads_frame (p := params)
      { c with clk := c.clk + 1, stats := c.countQueues }
    rw [hserved] at hframe
    refine h.of_core fun id => ?_
    rw [hframe.2]
    cases id <;> rfl
  have h₂ := h₁.prioritySendAll hrefresh hrefreshed
  have h₃ := (h₂.of_core hann.buffers).prioritySendAll hpolicy hsent
  rcases hrest with ⟨-, rfl, -, rfl⟩ | ⟨chosen', hsome, rfl, -, rfl⟩
  · exact .refl hinv h₃
  · obtain ⟨hok, hclose⟩ := hok chosen' (hchosen.trans hsome)
    obtain ⟨extra, -, rfl, -⟩ := prioritySendAll_spec hsent
    refine h₃.serve hinv hrfc ⟨getElem?_appendPriority hok.pos, hok.preq, hok.ready⟩ ?_
    exact hclose

end

/-! ## The memory system -/

def SystemInv (cfg : Config) (s : MemorySystem Command Device) : Prop :=
  (∃ logs, BanksInv cfg s.dram logs) ∧
    ∀ ch c, s.controllers[ch]? = some c → ControllerInv cfg s.dram ch c

def CallAddressed (cfg : Config) (mapper : Request Command → Request Command) :
    SystemCall Command → Prop
  | .send req => Addressed cfg ((mapper req).addrVec.level channel).toNat (mapper req)
  | .prioritySend ch req => Addressed cfg ch req
  | .tickDram => True
  | .tickController ch refreshReqs policyReqs => ∀ r ∈ refreshReqs ++ policyReqs, Addressed cfg ch r

instance (cfg : Config) (mapper : Request Command → Request Command) :
    (call : SystemCall Command) → Decidable (CallAddressed cfg mapper call)
  | .send req => inferInstanceAs
      (Decidable (Addressed cfg ((mapper req).addrVec.level channel).toNat (mapper req)))
  | .prioritySend ch req => inferInstanceAs (Decidable (Addressed cfg ch req))
  | .tickDram => inferInstanceAs (Decidable True)
  | .tickController ch refreshReqs policyReqs =>
    inferInstanceAs (Decidable (∀ r ∈ refreshReqs ++ policyReqs, Addressed cfg ch r))

theorem SystemInv.setController {s s' : MemorySystem Command Device} (h : SystemInv cfg s)
    (hkept : Kept cfg s.dram d' ch c') (hdram : s'.dram = d')
    (hset : s'.controllers = s.controllers.set ch c') : SystemInv cfg s' := by
  subst hdram
  refine ⟨hkept.banks, fun ch' c hc => ?_⟩
  rw [hset] at hc
  by_cases hne : ch' = ch
  · subst hne
    obtain ⟨hlt, hget⟩ := List.getElem?_eq_some_iff.mp hc
    rw [List.getElem_set_self] at hget
    exact hget ▸ hkept.own
  · rw [getElem?_set_ne (Ne.symm hne)] at hc
    exact hkept.others ch' c hne (h.2 ch' c hc)

section

variable {mapper : Request Command → Request Command} {params : ControllerParams}

theorem SystemInv.step (hrfc : 2 ≤ cfg.timing.nRFC) {s s' : MemorySystem Command Device}
    {call : SystemCall Command} (h : SystemInv cfg s) (hcall : CallAddressed cfg mapper call)
    (hstep : step (system cfg mapper params) s call = some s') : SystemInv cfg s' := by
  obtain ⟨⟨logs, hinv⟩, hctrl⟩ := id h
  cases step_cases _ hstep with
  | send hc hsend hdram hset =>
    exact h.setController (.refl hinv ((hctrl _ _ hc).send hcall hsend)) hdram hset
  | prioritySend hc hsend hdram hset =>
    exact h.setController (.refl hinv ((hctrl _ _ hc).prioritySend hcall hsend)) hdram hset
  | tickDram hdram hset =>
    unfold SystemInv
    rw [hdram, hset]
    exact ⟨⟨logs, hinv.tick⟩, fun ch c hc =>
      (hctrl ch c hc).mapDevice fun r _ hopen => hopen.tick hinv⟩
  | tickController hc htick hset =>
    obtain ⟨hrefresh, hpolicy⟩ := forall_mem_append.mp hcall
    exact h.setController ((hctrl _ _ hc).tick hinv hrfc hrefresh hpolicy htick) rfl hset

theorem systemInv_of_reachable (hrfc : 2 ≤ cfg.timing.nRFC) {s : MemorySystem Command Device}
    (h : (machine (system cfg mapper params) (Device.create cfg)
      cfg.org.channel).ReachableWhen (fun _ call => CallAddressed cfg mapper call) s) :
    SystemInv cfg s := by
  refine h.invariant ⟨⟨_, BanksInv.create cfg⟩, fun ch c hc => ?_⟩
    fun s call s' hs hcall hstep => hs.step hrfc hcall hstep
  obtain rfl : c = {} := eq_of_mem_replicate (mem_of_getElem? hc)
  exact ⟨fun id r hr => (by cases id <;> cases hr), fun r hr => (by cases hr),
    fun r hr => (by cases hr), .nil⟩

end

/-- **No activation is wasted**: the prerequisite of each request in an active buffer is its own final
command and its row is open, and no two of them are for the same bank. -/
theorem active_rows_stay_open (cfg : Config) (hrfc : 2 ≤ cfg.timing.nRFC)
    (mapper : Request Command → Request Command) (params : ControllerParams)
    (s : MemorySystem Command Device)
    (h : (machine (system cfg mapper params) (Device.create cfg)
      cfg.org.channel).ReachableWhen (fun _ call => CallAddressed cfg mapper call) s)
    (ch : ℕ) (c : Controller Command) (hc : s.controllers[ch]? = some c) :
    (∀ r ∈ c.activeBuffer.buffer, RowOpen s.dram r ∧
      ∃ final, r.finalCommand = some final ∧
        s.dram.getPreqCommand cfg final r.addrVec = final) ∧
      c.activeBuffer.buffer.Pairwise DifferentBanks := by
  have hctrl := (systemInv_of_reachable hrfc h).2 ch c hc
  refine ⟨fun r hr => ?_, hctrl.distinct⟩
  have hopen := hctrl.rowOpen r hr
  rcases hctrl.access r hr with hfinal | hfinal
  · exact ⟨hopen, _, hfinal, getPreqCommand_of_rowOpen (.inl rfl) hopen⟩
  · exact ⟨hopen, _, hfinal, getPreqCommand_of_rowOpen (.inr rfl) hopen⟩

abbrev shippedSystem : Machine (MemorySystem Command Device) (SystemCall Command) :=
  machine (system Config.shipped id ControllerParams.shipped)
    (Device.create Config.shipped) 8

def twoRows : List (SystemCall Command) :=
  [.send { typeId := typeRead, addrVec := [0, 0, 0, 0, 5, 0] },
    .send { typeId := typeRead, addrVec := [0, 0, 0, 0, 6, 0] }] ++
    cycle (List.replicate 8 ([], []))

/-- The row of the first read is opened for it; the second read does not close it. -/
theorem first_row_stays_open :
    ∃ s c r, shippedSystem.run shippedSystem.init twoRows = some s ∧
      s.controllers[0]? = some c ∧ r ∈ c.activeBuffer.buffer ∧
        ∃ final, r.finalCommand = some final ∧
          s.dram.getPreqCommand Config.shipped final r.addrVec = final := by
  have hrun : (shippedSystem.run shippedSystem.init twoRows).map
      (fun s => s.controllers[0]?.map fun c => c.activeBuffer.buffer.length) =
      some (some 1) := by decide +kernel
  obtain ⟨s, hs, hvalue⟩ := map_eq_some_iff.mp hrun
  obtain ⟨c, hc, hlength⟩ := map_eq_some_iff.mp hvalue
  obtain ⟨r, hr⟩ := length_eq_one_iff.mp hlength
  have hmem : r ∈ c.activeBuffer.buffer := by simp [hr]
  have hreach : shippedSystem.ReachableWhen
      (fun _ call => CallAddressed Config.shipped id call) s :=
    Machine.reachableWhen_of_run (fun _ call => decide (CallAddressed Config.shipped id call))
      (fun _ _ h => of_decide_eq_true h) hs (by decide +kernel)
  refine ⟨s, c, r, hs, hc, hmem, ?_⟩
  exact ((active_rows_stay_open Config.shipped (by decide) id ControllerParams.shipped s hreach 0 c
    hc).1 r hmem).2

end MultiCoreMemory.DDR4
