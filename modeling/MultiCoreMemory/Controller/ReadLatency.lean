import MultiCoreMemory.Controller.Conservation

/-!
# What `s_read_latency` counts

The statistic is meant to count the reads the device served; a comment in
`serve_completed_reads` says that its test `depart - arrive > 1` recognises them.  A forwarded
read keeps the default `arrive = -1`, so it passes the test as well, with its departure clock as
its latency.
-/

namespace MultiCoreMemory

open List Controller ControllerParams

variable {C σ : Type}

def completedReads (log : List (Effect C)) : List (Request C) :=
  log.filterMap fun
    | .completed r => some r
    | _ => none

def readLatencyOf (p : ControllerParams) (r : Request C) : ℤ :=
  r.depart - r.arrive + 2 * p.latency r.sourceId (r.addrVec.level 0)

def wasForwarded (log : List (Effect C)) (r : Request C) : Bool :=
  log.any (Effect.forwardedTag r.tag)

def servedLatency (p : ControllerParams) (log : List (Effect C)) : ℤ :=
  (((completedReads log).filter fun r => !wasForwarded log r).map (readLatencyOf p)).sum

/-! ## The statistic as a sum -/

namespace Queues

structure Late (p : ControllerParams) (q : Queues C) : Prop where
  pending : ∀ r ∈ q.pending, 1 < r.depart - r.arrive
  completed : ∀ r ∈ completedReads q.log, 1 < r.depart - r.arrive
  sum : q.readLatency = ((completedReads q.log).map (readLatencyOf p)).sum

variable {p : ControllerParams}

theorem latencyOf_of_late {r : Request C} (h : 1 < r.depart - r.arrive) :
    latencyOf p r = readLatencyOf p r := by
  simp [latencyOf, readLatencyOf, h]

theorem Late.record {q q' : Queues C} (h : q.Late p) {e : Effect C} (hlog : q'.log = e :: q.log)
    (he : ∀ r, e ≠ .completed r) (hlatency : q'.readLatency = q.readLatency)
    (hpending : ∀ r ∈ q'.pending, 1 < r.depart - r.arrive) : q'.Late p := by
  have hsame : completedReads q'.log = completedReads q.log := by
    rw [hlog]
    cases e with
    | completed r => exact absurd rfl (he r)
    | _ => rfl
  exact ⟨hpending, hsame ▸ h.completed, by rw [hlatency, h.sum, hsame]⟩

theorem move_late {D : IDRAM C σ} (hlatency : 1 ≤ D.readLatency) {lossy hazard : Bool}
    {q q' : Queues C} (h : q.Late p) (hmove : Move D p lossy hazard q q') : q'.Late p := by
  cases hmove with
  | clock => exact ⟨h.pending, h.completed, h.sum⟩
  | refuse => exact ⟨h.pending, h.completed, h.sum⟩
  | accept => exact h.record rfl (fun _ => by simp) rfl h.pending
  | forward r _ _ harrive hdepart =>
    refine h.record rfl (fun _ => by simp) rfl fun r' hr' => ?_
    rcases mem_append.mp hr' with hr' | hr'
    · exact h.pending r' hr'
    · rw [mem_singleton.mp hr', harrive, hdepart]
      omega
  | complete r rest hhead _ =>
    have hr : 1 < r.depart - r.arrive := h.pending r (by simp [hhead])
    refine ⟨fun r' hr' => h.pending r' ?_, fun r' hr' => ?_, ?_⟩
    · rw [hhead]
      exact mem_cons_of_mem _ hr'
    · rcases mem_cons.mp hr' with rfl | hr'
      · exact hr
      · exact h.completed r' hr'
    · change q.readLatency + latencyOf p r =
        readLatencyOf p r + ((completedReads q.log).map (readLatencyOf p)).sum
      rw [latencyOf_of_late hr, h.sum, Int.add_comm]
  | keep => exact h.record rfl (fun _ => by simp) rfl h.pending
  | finishRead id i r command _ _ _ harrive =>
    refine h.record rfl (fun _ => by simp) rfl fun r' hr' => ?_
    rcases mem_append.mp hr' with hr' | hr'
    · exact h.pending r' hr'
    · rw [mem_singleton.mp hr']
      change 1 < (q.clk + D.readLatency) - r.arrive
      omega
  | finish => exact h.record rfl (fun _ => by simp) rfl h.pending
  | activate => exact h.record rfl (fun _ => by simp) rfl h.pending
  | lose => exact h.record rfl (fun _ => by simp) rfl h.pending

end Queues

theorem sum_map_filter_add {α : Type} (f : α → ℤ) (test : α → Bool) (l : List α) :
    (l.map f).sum = ((l.filter fun a => !test a).map f).sum + ((l.filter test).map f).sum := by
  induction l with
  | nil => rfl
  | cons a l ih =>
    cases h : test a <;> simp [h, ih] <;> ring

theorem sum_map_eq_zero_iff {α : Type} {f : α → ℤ} {l : List α} (hpos : ∀ a ∈ l, 0 < f a) :
    (l.map f).sum = 0 ↔ l = [] := by
  cases l with
  | nil => simp
  | cons a l =>
    have hnonneg : 0 ≤ (l.map f).sum := by
      refine sum_nonneg fun x hx => ?_
      obtain ⟨b, hb, rfl⟩ := List.mem_map.mp hx
      exact (hpos b (mem_cons_of_mem _ hb)).le
    have ha := hpos a mem_cons_self
    simp only [map_cons, sum_cons, reduceCtorEq, iff_false]
    omega

theorem wasForwarded_eq_false {log : List (Effect C)} (h : ∀ r, .forwarded r ∉ log)
    (r : Request C) : wasForwarded log r = false := by
  refine List.any_eq_false.mpr fun e he => ?_
  cases e with
  | forwarded r' => exact absurd he (h r')
  | _ => simp [Effect.forwardedTag]

section

variable [DecidableEq C]

variable {D : IDRAM C σ} {p : ControllerParams}

theorem late_of_reachable {d : σ} {s : Run C σ} (hlatency : 1 ≤ D.readLatency)
    (h : (machine D p d).Reachable s) : s.queues.Late p := by
  refine Run.queues_invariant true true (P := Queues.Late p)
    (fun hl => by cases hl) (fun hh => by cases hh) ?_ (fun q q' => Queues.move_late hlatency) h
  exact ⟨fun _ hr => (by cases hr), fun _ hr => (by cases hr), rfl⟩

/-- Before the call no write waits to the address of a read that is sent. -/
def NoWriteWaiting (s : Run C σ) (call : Call C σ) : Prop :=
  ∀ r, call = .send r → r.typeId = typeRead → ∀ w ∈ s.ctrl.writeBuffer.buffer, w.addr ≠ r.addr

theorem Controller.tick_forwards_nothing {d d' : σ} {c c' : Controller C}
    {refreshReqs policyReqs : List (Request C)} {effects : List (Effect C)}
    (h : c.tick D p d refreshReqs policyReqs = .ok (d', effects, c')) (r : Request C) :
    .forwarded r ∉ effects := by
  obtain ⟨c₁, served, refreshed, sent, c₂, c₃, chosen, hserved, hrefresh, -, hsent, hrest⟩ :=
    tick_phases h
  obtain ⟨extra, rfl, -⟩ := prioritySendAll_spec hrefresh
  obtain ⟨extra', rfl, -⟩ := prioritySendAll_spec hsent
  have hcompleted : .forwarded r ∉ served := by
    rw [← show _ = served from congrArg Prod.fst hserved]
    unfold serveCompletedReads
    split
    · simp
    · split <;> simp
  have hissued : ∀ ch, .forwarded r ∉ (serve D d c₃ ch).2.1 := by
    intro ch
    unfold serve
    dsimp only
    split <;> simp
  rcases hrest with ⟨-, -, rfl, -⟩ | ⟨ch, -, -, rfl, -⟩
  · simpa using hcompleted
  · simpa using ⟨hcompleted, hissued ch⟩

theorem step_forwards_nothing {s s' : Run C σ} {call : Call C σ} (hwait : NoWriteWaiting s call)
    (h : step D p s call = some s') (hlog : ∀ r, .forwarded r ∉ s.log) (r : Request C) :
    .forwarded r ∉ s'.log := by
  have hrecord : ∀ effects : List (Effect C), (∀ r, .forwarded r ∉ effects) →
      .forwarded r ∉ recordAll effects s.log := by
    intro effects heffects hmem
    rcases mem_append.mp hmem with hmem | hmem
    · obtain ⟨e, he, hcore⟩ := List.mem_map.mp (mem_reverse.mp hmem)
      cases e with
      | forwarded r' => exact heffects r' he
      | _ => cases hcore
    · exact hlog r hmem
  cases Run.step_cases h with
  | send hsend =>
    refine hrecord _ fun r' hr' => ?_
    cases send_cases hsend with
    | forwarded _ _ htype hany =>
      obtain ⟨w, hw, haddr⟩ := hany
      exact hwait _ rfl htype w hw haddr
    | read | write | refused => simp at hr'
  | prioritySend hsend =>
    refine hrecord _ fun r' hr' => ?_
    obtain ⟨final, -, ⟨rfl, -⟩ | ⟨rfl, -⟩⟩ := prioritySend_spec hsend <;> simp at hr'
  | tick htick => exact hrecord _ (tick_forwards_nothing htick)
  | device => exact hlog r

/-- **The statistic is the latency of the reads the device served exactly when no completed read
was forwarded**, so in every run whose reads are sent with no write to their address waiting. -/
theorem readLatency_exact_iff (D : IDRAM C σ) (p : ControllerParams) (d : σ)
    (hlatency : 1 ≤ D.readLatency) :
    (∀ s, (machine D p d).Reachable s →
      (s.ctrl.stats.readLatency = servedLatency p s.log ↔
        ∀ r ∈ completedReads s.log, wasForwarded s.log r = false)) ∧
    ∀ s, (machine D p d).ReachableWhen NoWriteWaiting s →
      s.ctrl.stats.readLatency = servedLatency p s.log := by
  have hiff : ∀ s, (machine D p d).Reachable s →
      (s.ctrl.stats.readLatency = servedLatency p s.log ↔
        ∀ r ∈ completedReads s.log, wasForwarded s.log r = false) := by
    intro s h
    obtain ⟨-, hlate, hsum⟩ := late_of_reachable hlatency h
    change s.ctrl.stats.readLatency = ((completedReads s.log).map (readLatencyOf p)).sum at hsum
    rw [hsum, sum_map_filter_add (readLatencyOf p) (wasForwarded s.log), servedLatency]
    have hpos : ∀ r ∈ (completedReads s.log).filter (wasForwarded s.log),
        0 < readLatencyOf p r := by
      intro r hr
      have := hlate r (mem_of_mem_filter hr)
      unfold readLatencyOf
      omega
    have hzero := sum_map_eq_zero_iff hpos
    rw [filter_eq_nil_iff] at hzero
    simp only [Bool.not_eq_true] at hzero
    rw [← hzero]
    exact ⟨fun h => by omega, fun h => by omega⟩
  refine ⟨hiff, fun s h => (hiff s h.reachable).mpr fun r _ => ?_⟩
  refine wasForwarded_eq_false (h.invariant (P := fun s => ∀ r, .forwarded r ∉ s.log) ?_ ?_) r
  · exact fun r hr => by cases hr
  · exact fun s call s' hlog hwait hstep => step_forwards_nothing hwait hstep hlog

end

def alwaysReady : IDRAM DDR4.Command Unit where
  requestTranslations := DDR4.requestTranslations
  commandMeta := DDR4.commandMeta
  bankLevel := DDR4.bank
  readLatency := 20
  issueCommand := fun d _ _ => d
  getPreqCommand := fun _ command _ => command
  checkReady := fun _ _ _ => true
  checkRowbufferHit := fun _ _ _ => true
  checkNodeOpen := fun _ _ _ => true

def writeThenRead : List (Call DDR4.Command Unit) :=
  [.send { readOfBank 5 with typeId := typeWrite, callback := false }, .send (readOfBank 5),
    .tick [] []]

/-- **A forwarded read is counted**: no read was served by the device, and the statistic is two
cycles and twice the 20 cycles between core 0 and channel 0. -/
theorem forwarded_read_is_counted :
    ∃ s, (machine alwaysReady shipped ()).Reachable s ∧
      servedLatency shipped s.log = 0 ∧ s.ctrl.stats.readLatency = 42 :=
  Machine.exists_reachable writeThenRead (by decide +kernel)

/-- A read that the device serves is counted with its 21 cycles and the way. -/
theorem served_read_is_exact :
    ∃ s, (machine alwaysReady shipped ()).run
        (machine alwaysReady shipped ()).init
        (.send (readOfBank 5) :: List.replicate 21 (.tick [] [])) = some s ∧
      completedReads s.log ≠ [] ∧
      s.ctrl.stats.readLatency = servedLatency shipped s.log := by
  have hrun : ((machine alwaysReady shipped ()).run
      (machine alwaysReady shipped ()).init
      (.send (readOfBank 5) :: replicate 21 (.tick [] []))).map
        (fun s => ((completedReads s.log).length,
          (completedReads s.log).all fun r => !wasForwarded s.log r)) =
      some (1, true) := by decide +kernel
  obtain ⟨s, hs, hvalues⟩ := Option.map_eq_some_iff.mp hrun
  simp only [Prod.mk.injEq] at hvalues
  refine ⟨s, hs, fun hnil => by simp [hnil] at hvalues, ?_⟩
  refine ((readLatency_exact_iff alwaysReady shipped () (by decide)).1 s
    (Machine.reachable_of_run hs)).mpr ?_
  simpa using hvalues.2

end MultiCoreMemory
