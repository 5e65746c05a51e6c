import MultiCoreMemory.Controller.PRACController

/-!
# The refreshes of a recovery period

The set-up of a recovery puts one precharge for each rank and `aboRecoveryRefs` refreshes for each
rank into `m_prac_buffer`, whose size is the default one, and does not look whether they are accepted.
The plugin waits for all of them.
-/

namespace MultiCoreMemory.PRACController

open List

variable {C σ S : Type}

/-! ## What only the start of a cycle changes -/

/-- The size of the PRAC buffer and the two clocks. -/
def kept (c : PRACController C S) : ℕ × ℕ × S := (c.pracBuffer.maxSize, c.clk, c.scheduler)

section

variable {D : IDRAM C σ} {sched : IBHScheduler C σ S} {p : PRACControllerParams C} {d : σ} {prac : PRAC}
  {c c' : PRACController C S}

theorem kept_send {req : Request C} {isSuccess : Bool} (h : c.send D req = .ok (isSuccess, c')) :
    c'.kept = c.kept := by
  unfold send at h
  split at h
  · cases h
  dsimp only at h
  split at h
  · cases h
    rfl
  split at h
  · cases h
    rfl
  split at h
  · cases h
    rfl
  · cases h

theorem kept_prioritySend {req : Request C} {isSuccess : Bool}
    (h : c.prioritySend D req = .ok (isSuccess, c')) : c'.kept = c.kept := by
  unfold prioritySend at h
  split at h <;> cases h
  rfl

theorem kept_prioritySendAll {insist : Bool} {reqs : List (Request C)}
    (h : c.prioritySendAll D insist reqs = .ok c') : c'.kept = c.kept := by
  induction reqs generalizing c with
  | nil =>
    cases h
    rfl
  | cons req reqs ih =>
    simp only [prioritySendAll] at h
    split at h
    · cases h
    · rename_i hsend
      split at h
      · cases h
      · rw [ih h, kept_prioritySend hsend]

theorem kept_beginTick {refreshReqs : List (Request C)} (h : beginTick D sched c refreshReqs = .ok c') :
    c'.kept = (c.pracBuffer.maxSize, c.clk + 1, sched.tick c.scheduler) := by
  unfold beginTick at h
  dsimp only at h
  split at h
  · cases h
  · rename_i c₁ hsend
    cases h
    have hserved : ∀ c : PRACController C S, c.serveCompletedReads.kept = c.kept := by
      intro c
      unfold serveCompletedReads
      split
      · rfl
      · split <;> rfl
    have hkept := (kept_prioritySendAll hsend).trans (hserved _)
    simp only [kept, Prod.mk.injEq] at hkept ⊢
    exact ⟨hkept.1, hkept.2.1, congrArg sched.tick hkept.2.2⟩

theorem kept_setBuf {id : PRACBufferId} {b : ReqBuffer C}
    (h : id = .prac → b.maxSize = c.pracBuffer.maxSize) :
    (c.setBuf b id).kept = c.kept := by
  cases id with
  | prac => exact Prod.ext (h rfl) rfl
  | active | priority | read | write => rfl

theorem kept_bestOf {id : PRACBufferId} (hid : id ≠ .prac) :
    (bestOf D sched p d prac c id).2.kept = c.kept := by
  unfold bestOf
  dsimp only
  split <;> exact kept_setBuf fun heq => absurd heq hid

theorem kept_candidateRest {found : Option (Chosen C)} :
    (candidateRest D sched p d prac c found).2.kept = c.kept := by
  unfold candidateRest
  split
  · rfl
  split
  · rfl
  · exact kept_bestOf (by split <;> decide)

theorem kept_setupRecovery : (setupRecovery p prac c).kept = c.kept := by
  unfold setupRecovery
  split
  · exact Prod.ext (ReqBuffer.maxSize_enqueueAll ..) rfl
  · rfl

variable [DecidableEq C]

theorem kept_candidate : (candidate D sched p d prac c).2.kept = c.kept := by
  have hbest : (bestOf D sched p d prac c .active).2.kept = c.kept := kept_bestOf (by decide)
  unfold candidate
  split
  · rename_i heq
    rw [heq] at hbest
    exact hbest
  · rename_i c₁ heq
    rw [heq] at hbest
    split
    · dsimp only
      split
      · exact kept_candidateRest.trans hbest
      · exact hbest
    · exact kept_candidateRest.trans hbest

theorem kept_scheduleRequest : (scheduleRequest D sched p d prac c).2.kept = c.kept := by
  have hcandidate : (candidate D sched p d prac c).2.kept = c.kept := kept_candidate
  unfold scheduleRequest
  split
  · rename_i chosen c₁ heq
    rw [heq] at hcandidate
    split
    · exact hcandidate
    · unfold countScheduled
      split
      · dsimp only
        split <;> exact hcandidate
      · exact hcandidate
  · rename_i heq
    rw [heq] at hcandidate
    exact hcandidate

theorem kept_serve {chosen : Chosen C} : (c.serve D d chosen).2.kept = c.kept := by
  have hremove : ∀ c' : PRACController C S, c'.kept = c.kept →
      (c'.setBuf ((c'.buf chosen.buffer).remove chosen.pos) chosen.buffer).kept = c.kept := by
    intro c' hc'
    rw [kept_setBuf, hc']
    intro hid
    rw [hid]
    rfl
  unfold serve
  split
  · rfl
  dsimp only
  split
  · split <;> exact hremove _ rfl
  split
  · exact hremove _ rfl
  · rfl

theorem kept_tick {d' : σ} {prac' : PRAC} {refreshReqs policyReqs : List (Request C)}
    {orders : ℤ → List ℤ}
    (h : tick D sched p d prac c refreshReqs policyReqs orders = .ok (d', prac', c')) :
    c'.kept = (c.pracBuffer.maxSize, c.clk + 1, sched.tick c.scheduler) := by
  unfold tick at h
  split at h
  · cases h
  rename_i c₁ hbegin
  unfold endTick at h
  obtain ⟨⟨chosen, c₂⟩, hschedule⟩ : ∃ o, scheduleRequest D sched p d prac (setupRecovery p prac c₁) = o :=
    ⟨_, rfl⟩
  have hsched : (scheduleRequest D sched p d prac (setupRecovery p prac c₁)).2.kept =
      (setupRecovery p prac c₁).kept := kept_scheduleRequest
  rw [hschedule] at h hsched
  dsimp only at h hsched
  split at h
  · cases h
  rename_i c₃ hsend
  have hsent : c₃.kept = (c.pracBuffer.maxSize, c.clk + 1, sched.tick c.scheduler) := by
    rw [kept_prioritySendAll hsend, hsched, kept_setupRecovery, kept_beginTick hbegin]
  split at h
  · cases h
  split at h
  · cases h
    exact hsent
  · cases h
    exact kept_serve.trans hsent

/-- **A property of the size and the clocks that survives a tick of both clocks holds in every run.** -/
theorem kept_of_reachable {P : ℕ × ℕ × S → Prop} {scheduler : S} {r : PRACRun C σ S}
    (hinit : P (32, 0, scheduler))
    (htick : ∀ size clk t, P (size, clk, t) → P (size, clk + 1, sched.tick t))
    (h : (machine D sched p scheduler d).Reachable r) : P r.ctrl.kept := by
  refine h.invariant (P := fun r => P r.ctrl.kept) hinit ?_
  intro r call r' hkept _ hstep
  cases call with
  | send req =>
    simp only [machine, step] at hstep
    split at hstep <;> cases hstep
    rename_i hsend
    exact (kept_send hsend).symm ▸ hkept
  | prioritySend req =>
    simp only [machine, step] at hstep
    split at hstep <;> cases hstep
    rename_i hsend
    exact (kept_prioritySend hsend).symm ▸ hkept
  | tick refreshReqs policyReqs orders =>
    simp only [machine, step] at hstep
    split at hstep <;> cases hstep
    rename_i hcycle
    exact (kept_tick hcycle).symm ▸ htick _ _ _ hkept
  | device f =>
    cases hstep
    exact hkept

theorem maxSize_pracBuffer {scheduler : S} {r : PRACRun C σ S}
    (h : (machine D sched p scheduler d).Reachable r) : r.ctrl.pracBuffer.maxSize = 32 :=
  kept_of_reachable (P := fun k => k.1 = 32) rfl (fun _ _ _ hsize => hsize) h

end

/-! ## What a set-up leaves -/

section

variable {p : PRACControllerParams C} {prac : PRAC} {c : PRACController C S}

theorem length_recoveryRequests :
    (recoveryRequests p).length = p.cfg.numRanks * (p.prac.aboRecoveryRefs + 1) := by
  simp only [recoveryRequests, length_append, length_map, length_range,
    length_flatMap, map_const', sum_replicate, smul_eq_mul]
  ring

theorem buffer_setupRecovery (hsize : c.pracBuffer.maxSize = 32) (h : SetsUp p prac c) :
    (setupRecovery p prac c).pracBuffer.buffer = (recoveryRequests p).take 33 := by
  have hempty : c.pracBuffer.buffer = [] := length_eq_zero_iff.mp h.2
  rw [setupRecovery, if_pos h]
  dsimp only
  rw [ReqBuffer.buffer_enqueueAll, hempty, hsize, h.2, nil_append]

variable [DecidableEq C]

def rfmabQueued (p : PRACControllerParams C) (c : PRACController C S) : ℕ :=
  c.pracBuffer.buffer.countP fun r => r.finalCommand == some p.prac.cmdRfmab

/-- The precharges come first: the refreshes get what room they leave. -/
theorem countP_take_recoveryRequests (room : ℕ) :
    ((recoveryRequests p).take room).countP (fun r => r.finalCommand == some p.prac.cmdRfmab) =
      min (room - p.cfg.numRanks) (p.prac.aboRecoveryRefs * p.cfg.numRanks) := by
  have hprea : ∀ r ∈ ((range p.cfg.numRanks).map (preaRequest p)).take room,
      ¬ (r.finalCommand == some p.prac.cmdRfmab) = true := by
    intro r hr
    obtain ⟨rank, -, rfl⟩ := List.mem_map.mp (mem_of_mem_take hr)
    simpa [preaRequest] using p.cmdPrea_ne_cmdRfmab
  have hrfmab : ∀ r ∈ ((range p.prac.aboRecoveryRefs).flatMap fun _ =>
      (range p.cfg.numRanks).map (rfmabRequest p)).take (room - p.cfg.numRanks),
      (r.finalCommand == some p.prac.cmdRfmab) = true := by
    intro r hr
    obtain ⟨_, -, hr⟩ := mem_flatMap.mp (mem_of_mem_take hr)
    obtain ⟨rank, -, rfl⟩ := List.mem_map.mp hr
    simp [rfmabRequest]
  rw [recoveryRequests, take_append, countP_append, countP_eq_zero.mpr hprea,
    length_map, length_range, countP_eq_length.mpr hrfmab, Nat.zero_add]
  simp

end

/-- **A recovery has its refreshes queued exactly if they fit**: if the precharges and refreshes of all
ranks are at most 33. -/
theorem recovery_queue_complete_iff [DecidableEq C] (D : IDRAM C σ) (sched : IBHScheduler C σ S)
    (p : PRACControllerParams C) (hrefs : 1 ≤ p.prac.aboRecoveryRefs) (scheduler : S) (d : σ)
    {r : PRACRun C σ S} (hr : (machine D sched p scheduler d).Reachable r)
    {refreshReqs : List (Request C)} {c : PRACController C S}
    (hbegin : beginTick D sched r.ctrl refreshReqs = .ok c) (hsets : SetsUp p r.prac c) :
    ((setupRecovery p r.prac c).pracBuffer.buffer = recoveryRequests p ↔
      p.cfg.numRanks * (p.prac.aboRecoveryRefs + 1) ≤ 33) ∧
    (rfmabQueued p (setupRecovery p r.prac c) = p.prac.aboRecoveryRefs * p.cfg.numRanks ↔
      p.cfg.numRanks * (p.prac.aboRecoveryRefs + 1) ≤ 33) := by
  have hsize : c.pracBuffer.maxSize = 32 := by
    exact (congrArg Prod.fst (kept_beginTick hbegin)).trans (maxSize_pracBuffer hr)
  have hbuffer := buffer_setupRecovery hsize hsets
  constructor
  · rw [hbuffer, take_eq_self_iff, length_recoveryRequests]
  · rw [rfmabQueued, hbuffer, countP_take_recoveryRequests]
    have hmul : p.cfg.numRanks * (p.prac.aboRecoveryRefs + 1) =
        p.prac.aboRecoveryRefs * p.cfg.numRanks + p.cfg.numRanks := by ring
    rw [hmul]
    rcases Nat.eq_zero_or_pos p.cfg.numRanks with hzero | hpos
    · simp [hzero]
    · have hone : 1 * 1 ≤ p.prac.aboRecoveryRefs * p.cfg.numRanks := Nat.mul_le_mul hrefs hpos
      omega

/-! ## Eight ranks -/

/-- One bank a rank and no timing constraints: the state is the open row of each rank. -/
def untimedDevice : IDRAM DDR5VRR.Command (ℤ → Option ℤ) where
  requestTranslations := DDR5VRR.requestTranslations
  commandMeta := DDR5VRR.commandMeta
  bankLevel := 3
  readLatency := 0
  issueCommand := fun rows cmd v =>
    match cmd with
    | .ACT => Function.update rows (v.level 1) (some (v.level 4))
    | .PRE | .PREA | .PREsb | .RDA | .WRA => Function.update rows (v.level 1) none
    | _ => rows
  getPreqCommand := fun rows cmd v =>
    match cmd with
    | .RD | .WR | .RDA | .WRA =>
      match rows (v.level 1) with
      | none => .ACT
      | some row => if row = v.level 4 then cmd else .PRE
    | .REFab | .RFMab | .DRFMab => if (rows (v.level 1)).isSome then .PREA else cmd
    | _ => cmd
  checkReady := fun _ _ _ => true
  checkRowbufferHit := fun rows _ v => rows (v.level 1) == some (v.level 4)
  checkNodeOpen := fun rows _ v => (rows (v.level 1)).isSome

/-- The default four refreshes a recovery; every activation makes its row critical. -/
def untimedParams (ranks : ℕ) : PRACControllerParams DDR5VRR.Command where
  cfg := DDR5VRR.deviceConfig ranks 1 1 16 64
  prac := { PRAC.smallParams with aboThresh := 1, aboRecoveryRefs := 4, aboActCycles := 3 }
  nRP := 0
  cmdPrea := .PREA
  cmdPrea_ne_cmdRfmab := by decide
  typeCloseAllBank := DDR5VRR.typeCloseAllBank
  typeRfm := DDR5VRR.typeRfm
  cmdToMinCycles := fun _ => 0

/-- The run of the untimed device. -/
abbrev UntimedRun := PRACRun DDR5VRR.Command (ℤ → Option ℤ) ℕ

abbrev untimedScheduler (p : PRACControllerParams DDR5VRR.Command) :
    IBHScheduler DDR5VRR.Command (ℤ → Option ℤ) ℕ :=
  pracScheduler untimedDevice p

/-- The controller of the untimed device, with all rows closed. -/
abbrev untimedController (p : PRACControllerParams DDR5VRR.Command) :
    Machine UntimedRun (PRACCall DDR5VRR.Command (ℤ → Option ℤ)) :=
  machine untimedDevice (untimedScheduler p) p 0 fun _ => none

def untimedMachine (ranks : ℕ) : Machine UntimedRun (PRACCall DDR5VRR.Command (ℤ → Option ℤ)) :=
  untimedController (untimedParams ranks)

def readThenTicks (ticks : ℕ) : List (PRACCall DDR5VRR.Command (ℤ → Option ℤ)) :=
  .send { addr := 0, addrVec := [0, 0, 0, 0, 5, 0], typeId := typeRead } ::
    List.replicate ticks (.tick [] [] fun bank => if bank = 0 then [5] else [])

/-- A run, and the start of the next cycle. -/
theorem exists_beginTick (p : PRACControllerParams DDR5VRR.Command)
    (refreshReqs : List (Request DDR5VRR.Command))
    {P : UntimedRun → PRACController DDR5VRR.Command ℕ → Prop} [∀ s c, Decidable (P s c)]
    (calls : List (PRACCall DDR5VRR.Command (ℤ → Option ℤ)))
    (h : ((untimedController p).run (untimedController p).init calls).any (fun s =>
      (beginTick untimedDevice (untimedScheduler p) s.ctrl refreshReqs).toOption.any fun c =>
        decide (P s c)) = true) :
    ∃ s c, (untimedController p).Reachable s ∧
      beginTick untimedDevice (untimedScheduler p) s.ctrl refreshReqs = .ok c ∧ P s c := by
  obtain ⟨s, hs, hnext⟩ := (Option.any_eq_true _ _).mp h
  refine ⟨s, ?_⟩
  cases hbegin : beginTick untimedDevice (untimedScheduler p) s.ctrl refreshReqs with
  | error e => simp [hbegin, Except.toOption] at hnext
  | ok c =>
    rw [hbegin] at hnext
    exact ⟨c, Machine.reachable_of_run hs, rfl, of_decide_eq_true hnext⟩

/-- With two ranks all eight refreshes are queued. -/
theorem two_ranks_fit :
    ∃ r c, (untimedMachine 2).Reachable r ∧
      beginTick untimedDevice (pracScheduler untimedDevice (untimedParams 2)) r.ctrl [] = .ok c ∧
      SetsUp (untimedParams 2) r.prac c ∧
      (setupRecovery (untimedParams 2) r.prac c).pracBuffer.buffer = recoveryRequests (untimedParams 2) := by
  obtain ⟨r, c, hr, hbegin, hsets⟩ := exists_beginTick (untimedParams 2) []
    (P := fun r c => SetsUp (untimedParams 2) r.prac c) (readThenTicks 2) (by decide +kernel)
  have hiff := recovery_queue_complete_iff _ _ (untimedParams 2) (by decide) _ _ hr hbegin hsets
  exact ⟨r, c, hr, hbegin, hsets, hiff.1.mpr (by decide)⟩

/-- **With eight ranks the buffer overflows**: only 25 of the 32 refreshes are queued, and when they are
served the plugin waits for seven more. -/
theorem eight_ranks_overflow :
    (∃ r c, (untimedMachine 8).Reachable r ∧
      beginTick untimedDevice (pracScheduler untimedDevice (untimedParams 8)) r.ctrl [] = .ok c ∧
      SetsUp (untimedParams 8) r.prac c ∧
      (setupRecovery (untimedParams 8) r.prac c).pracBuffer.size = 33 ∧
      rfmabQueued (untimedParams 8) (setupRecovery (untimedParams 8) r.prac c) = 25 ∧
      (untimedParams 8).prac.aboRecoveryRefs * (untimedParams 8).cfg.numRanks = 32) ∧
    ∃ r, (untimedMachine 8).Reachable r ∧ r.prac.state = .recovery ∧ r.prac.aboRecovRemRefs = 7 ∧
      r.ctrl.pracBuffer.size = 0 := by
  constructor
  · obtain ⟨r, c, hr, hbegin, hsets, hsize, hrfms⟩ := exists_beginTick (untimedParams 8) []
      (P := fun r c => SetsUp (untimedParams 8) r.prac c ∧
        (setupRecovery (untimedParams 8) r.prac c).pracBuffer.size = 33 ∧
        rfmabQueued (untimedParams 8) (setupRecovery (untimedParams 8) r.prac c) = 25)
      (readThenTicks 2) (by decide +kernel)
    exact ⟨r, c, hr, hbegin, hsets, hsize, hrfms, by decide⟩
  · exact Machine.exists_reachable (readThenTicks 36) (by decide +kernel)

end MultiCoreMemory.PRACController
