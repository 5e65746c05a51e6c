import MultiCoreMemory.Controller.PRACRecovery

/-!
# Recovery requests against other maintenance (`prac_dram_controller.cpp`)

When the active buffer yields nothing, `schedule_request` looks at the head of the PRAC buffer.  Part
2.2.2 then looks at the priority buffer, whether or not a request was found.
-/

namespace MultiCoreMemory.PRACController

open Option

variable {C σ S : Type}

/-- The active buffer yields nothing, and the head of the PRAC buffer is ready and not an `RFMab` before
the recovery starts. -/
structure PracHeadDue (D : IDRAM C σ) (sched : IBHScheduler C σ S) (p : PRACControllerParams C) (d : σ)
    (prac : PRAC) (c : PRACController C S) (head : Request C) : Prop where
  active : (bestOf D sched p d prac c .active).1 = none
  atHead : c.pracBuffer.buffer.head? = some head
  ready : (head.withPreq D d).ready D d = true
  notEarly : ¬ ((head.withPreq D d).command = some p.prac.cmdRfmab ∧ prac.state = .preRecovery)

def scannedActive (sched : IBHScheduler C σ S) (d : σ) (prac : PRAC) (c : PRACController C S) :
    PRACController C S :=
  c.setBuf (sched.getBestRequest c.scheduler prac d c.activeBuffer).2 .active

/-- Does part 2.2.2 find the head of the priority buffer, for which it sets the prerequisite command? -/
def priorityFound (D : IDRAM C σ) (p : PRACControllerParams C) (d : σ) (prac : PRAC)
    (c : PRACController C S) (first : Request C) : Bool :=
  p.fits c.clk prac (first.withPreq D d) && (first.withPreq D d).ready D d

variable {D : IDRAM C σ} {sched : IBHScheduler C σ S} {p : PRACControllerParams C} {d : σ} {prac : PRAC}
  {c c' : PRACController C S} {head first : Request C}

theorem bestOf_snd (sched : IBHScheduler C σ S) (c : PRACController C S) (id : PRACBufferId) :
    (bestOf D sched p d prac c id).2 =
      c.setBuf (sched.getBestRequest c.scheduler prac d (c.buf id)).2 id := by
  unfold bestOf
  generalize sched.getBestRequest c.scheduler prac d (c.buf id) = choice
  obtain ⟨_ | ⟨i, r⟩, b⟩ := choice <;> rfl

theorem closesActive_congr (h : c.activeBuffer = c'.activeBuffer) (r : Request C) :
    closesActive D c r = closesActive D c' r := by
  unfold closesActive
  rw [h]

theorem candidateRest_of_nil (hprio : c.priorityBuffer.buffer = []) (chosen : Chosen C) :
    candidateRest D sched p d prac c (some chosen) = (some chosen, c) := by
  unfold candidateRest
  rw [hprio]

theorem candidateRest_of_cons {rest : List (Request C)} (hprio : c.priorityBuffer.buffer = first :: rest)
    (found : Option (Chosen C)) :
    candidateRest D sched p d prac c found =
      (if priorityFound D p d prac c first then some ⟨.priority, 0, first.withPreq D d⟩ else none,
        { c with
          priorityBuffer := { c.priorityBuffer with buffer := first.withPreq D d :: rest } }) := by
  unfold candidateRest
  rw [hprio]
  rfl

variable [DecidableEq C]

/-- The cascade comes to part 2.2.2 with the head of the PRAC buffer. -/
theorem candidate_of_pracHeadDue (h : PracHeadDue D sched p d prac c head) :
    ∃ c₁ : PRACController C S,
      c₁.activeBuffer = (scannedActive sched d prac c).activeBuffer ∧
      c₁.priorityBuffer = c.priorityBuffer ∧ c₁.clk = c.clk ∧
      candidate D sched p d prac c =
        candidateRest D sched p d prac c₁ (some ⟨.prac, 0, head.withPreq D d⟩) := by
  obtain ⟨rest, hbuffer⟩ : ∃ rest, c.pracBuffer.buffer = head :: rest :=
    List.head?_eq_some_iff.mp h.atHead
  have hactive : bestOf D sched p d prac c .active = (none, scannedActive sched d prac c) :=
    Prod.ext h.active (bestOf_snd sched c .active)
  have hearly : ((head.withPreq D d).command == some p.prac.cmdRfmab &&
      prac.state == .preRecovery) = false := by
    simpa using h.notEarly
  refine ⟨{ scannedActive sched d prac c with
    pracBuffer := { c.pracBuffer with buffer := head.withPreq D d :: rest } }, rfl, rfl, rfl, ?_⟩
  unfold candidate
  rw [hactive]
  dsimp only
  rw [show (scannedActive sched d prac c).pracBuffer.buffer = head :: rest from hbuffer]
  dsimp only
  rw [hearly, h.ready]
  rfl

theorem scheduleRequest_fst {found : Option (Chosen C)}
    (hcandidate : candidate D sched p d prac c = (found, c'))
    (hc' : c'.activeBuffer = (scannedActive sched d prac c).activeBuffer) :
    (scheduleRequest D sched p d prac c).1 =
      found.filter fun chosen => !closesActive D (scannedActive sched d prac c) chosen.req := by
  unfold scheduleRequest
  rw [hcandidate]
  cases found with
  | none => rfl
  | some chosen =>
    dsimp only
    rw [closesActive_congr hc', filter_some]
    cases closesActive D (scannedActive sched d prac c) chosen.req <;> rfl

theorem scheduleRequest_of_priority_nil (h : PracHeadDue D sched p d prac c head)
    (hprio : c.priorityBuffer.buffer = []) :
    (scheduleRequest D sched p d prac c).1 =
      if closesActive D (scannedActive sched d prac c) (head.withPreq D d) then none
      else some ⟨.prac, 0, head.withPreq D d⟩ := by
  obtain ⟨c₁, hactive, hprio₁, -, hcandidate⟩ := candidate_of_pracHeadDue h
  rw [← hprio₁] at hprio
  rw [candidateRest_of_nil hprio] at hcandidate
  rw [scheduleRequest_fst hcandidate hactive, filter_some]
  cases closesActive D (scannedActive sched d prac c) (head.withPreq D d) <;> rfl

theorem scheduleRequest_of_priority_cons (h : PracHeadDue D sched p d prac c head)
    {rest : List (Request C)} (hprio : c.priorityBuffer.buffer = first :: rest) :
    (scheduleRequest D sched p d prac c).1 =
      if priorityFound D p d prac c first &&
          !closesActive D (scannedActive sched d prac c) (first.withPreq D d) then
        some ⟨.priority, 0, first.withPreq D d⟩
      else none := by
  obtain ⟨c₁, hactive, hprio₁, hclk, hcandidate⟩ := candidate_of_pracHeadDue h
  rw [← hprio₁] at hprio
  rw [candidateRest_of_cons hprio, show priorityFound D p d prac c₁ first =
    priorityFound D p d prac c first by unfold priorityFound; rw [hclk]] at hcandidate
  rw [scheduleRequest_fst hcandidate hactive]
  cases priorityFound D p d prac c first with
  | false => rfl
  | true =>
    rw [if_pos rfl, filter_some, Bool.true_and]

/-- **The head of the PRAC buffer takes precedence exactly when the priority buffer is empty**, or when
nothing is to be selected because it would close a bank in use, and nothing is. -/
theorem pracHead_selected_iff (D : IDRAM C σ) (sched : IBHScheduler C σ S) (p : PRACControllerParams C)
    (d : σ) (prac : PRAC) (c : PRACController C S) (head : Request C)
    (h : PracHeadDue D sched p d prac c head) :
    (scheduleRequest D sched p d prac c).1 =
        (if closesActive D (scannedActive sched d prac c) (head.withPreq D d) then none
          else some ⟨.prac, 0, head.withPreq D d⟩) ↔
      c.priorityBuffer.buffer = [] ∨
        closesActive D (scannedActive sched d prac c) (head.withPreq D d) = true ∧
          ∀ first ∈ c.priorityBuffer.buffer.head?, priorityFound D p d prac c first = true →
            closesActive D (scannedActive sched d prac c) (first.withPreq D d) = true := by
  cases hprio : c.priorityBuffer.buffer with
  | nil => exact ⟨fun _ => .inl rfl, fun _ => scheduleRequest_of_priority_nil h hprio⟩
  | cons first rest =>
    rw [scheduleRequest_of_priority_cons h hprio]
    simp only [List.head?_cons, mem_some_iff, forall_eq']
    cases closesActive D (scannedActive sched d prac c) (head.withPreq D d) <;>
      cases priorityFound D p d prac c first <;>
      cases closesActive D (scannedActive sched d prac c) (first.withPreq D d) <;> simp

/-! ## A refresh during the recovery -/

def refreshOfRank0 : Request DDR5VRR.Command :=
  { addrVec := [0, 0, -1, -1, -1, -1], typeId := 2 }

abbrev oneRankScheduler : IBHScheduler DDR5VRR.Command (ℤ → Option ℤ) ℕ :=
  untimedScheduler (untimedParams 1)

/-- The head of the PRAC buffer is due, and closes no bank in use. -/
def DueHead (r : UntimedRun) (c : PRACController DDR5VRR.Command ℕ) (head : Request DDR5VRR.Command) :
    Prop :=
  (bestOf untimedDevice oneRankScheduler (untimedParams 1) r.dram r.prac c .active).1 = none ∧
    (head.withPreq untimedDevice r.dram).ready untimedDevice r.dram = true ∧
    ¬ ((head.withPreq untimedDevice r.dram).command = some (untimedParams 1).prac.cmdRfmab ∧
      r.prac.state = .preRecovery) ∧
    closesActive untimedDevice (scannedActive oneRankScheduler r.dram r.prac c)
      (head.withPreq untimedDevice r.dram) = false
  deriving Decidable

/-- In a recovery without other maintenance, the recovery's refresh is issued. -/
theorem recovery_refresh_selected :
    ∃ r c head, (untimedMachine 1).Reachable r ∧
      beginTick untimedDevice oneRankScheduler r.ctrl [] = .ok c ∧
      PracHeadDue untimedDevice oneRankScheduler (untimedParams 1) r.dram r.prac
        (setupRecovery (untimedParams 1) r.prac c) head ∧
      (scheduleRequest untimedDevice oneRankScheduler (untimedParams 1) r.dram r.prac
        (setupRecovery (untimedParams 1) r.prac c)).1 =
          some ⟨.prac, 0, head.withPreq untimedDevice r.dram⟩ := by
  obtain ⟨r, c, hr, hbegin, hempty, head, hhead, hactive, hready, hearly, hcloses⟩ :=
    exists_beginTick (untimedParams 1) []
      (P := fun r c => (setupRecovery (untimedParams 1) r.prac c).priorityBuffer.buffer.isEmpty ∧
        ∃ head ∈ (setupRecovery (untimedParams 1) r.prac c).pracBuffer.buffer.head?,
          DueHead r (setupRecovery (untimedParams 1) r.prac c) head) (readThenTicks 5) (by decide +kernel)
  have hdue : PracHeadDue untimedDevice oneRankScheduler (untimedParams 1) r.dram r.prac
      (setupRecovery (untimedParams 1) r.prac c) head := ⟨hactive, hhead, hready, hearly⟩
  have hselected := (pracHead_selected_iff _ _ _ _ _ _ _ hdue).mpr (.inl (List.isEmpty_iff.mp hempty))
  rw [hcloses, if_neg Bool.false_ne_true] at hselected
  exact ⟨r, c, head, hr, hbegin, hdue, hselected⟩

/-- **A refresh goes before the recovery**: the `RFMab` at the head of the PRAC buffer is due and closes
no bank in use, and the new refresh is issued. -/
theorem refresh_before_recovery :
    ∃ r c, (untimedMachine 1).Reachable r ∧
      beginTick untimedDevice oneRankScheduler r.ctrl [refreshOfRank0] = .ok c ∧
      (∃ head ∈ (setupRecovery (untimedParams 1) r.prac c).pracBuffer.buffer.head?,
        DueHead r (setupRecovery (untimedParams 1) r.prac c) head) ∧
      (scheduleRequest untimedDevice oneRankScheduler (untimedParams 1) r.dram r.prac
        (setupRecovery (untimedParams 1) r.prac c)).1.map
          (fun chosen => (chosen.buffer, chosen.req.command)) = some (.priority, some .REFab) :=
  exists_beginTick (untimedParams 1) _ (readThenTicks 5) (by decide +kernel)

end MultiCoreMemory.PRACController
