import MultiCoreMemory.Controller.ReadLatency
import MultiCoreMemory.Lib.DelayLine

/-!
# When reads complete

`pending` is a queue of departure cycles, and `serve_completed_reads` pops its head at most once a
cycle.  A read of the device departs a full read latency ahead, behind everything that is pending.  A
forwarded read departs in the next cycle, so it is on time only if nothing is pending.
-/

namespace MultiCoreMemory

open DelayLine List Controller ControllerParams Request

variable {C σ : Type} [DecidableEq C]

namespace Controller

variable {D : IDRAM C σ} {p : ControllerParams} {d d' : σ} {c c' : Controller C}
  {effects : List (Effect C)} {refreshReqs policyReqs : List (Request C)}

omit [DecidableEq C] in
theorem serveCompletedReads_pending (c : Controller C) :
    (c.serveCompletedReads p).2.pending = (popDue depart c.clk c.pending).2 ∧
      ∀ r, .completed r ∈ (c.serveCompletedReads p).1 ↔
        (popDue depart c.clk c.pending).1 = some r := by
  unfold serveCompletedReads
  split
  · rename_i hnil
    simp [hnil, popDue]
  · rename_i r rest hcons
    rw [hcons, popDue_cons]
    split <;> simp_all [eq_comm]

def Departs (D : IDRAM C σ) (clk : ℕ) (added : List (Request C)) : Prop :=
  added = [] ∨ ∃ r : Request C, added = [r] ∧ r.depart = clk + D.readLatency

omit [DecidableEq C] in
theorem countServed_frame (c : Controller C) (chosen : Chosen C) :
    (countServed D d c chosen).2.clk = c.clk ∧
      (countServed D d c chosen).2.pending = c.pending := by
  unfold countServed
  split
  · exact ⟨rfl, rfl⟩
  · exact ⟨setBuf_clk .., setBuf_pending ..⟩

theorem afterIssue_pending (c : Controller C) (chosen : Chosen C) (r : Request C) (cmd : C) :
    (afterIssue D c chosen r cmd).clk = c.clk ∧
      ∃ added, (afterIssue D c chosen r cmd).pending = c.pending ++ added ∧
        Departs D c.clk added := by
  unfold afterIssue
  split
  · dsimp only
    rw [setBuf_clk, setBuf_pending]
    split
    · exact ⟨rfl, _, rfl, .inr ⟨_, rfl, rfl⟩⟩
    · exact ⟨rfl, [], (append_nil _).symm, .inl rfl⟩
  · split
    · dsimp only
      rw [setBuf_clk, setBuf_pending]
      exact ⟨rfl, [], (append_nil _).symm, .inl rfl⟩
    · exact ⟨rfl, [], (append_nil _).symm, .inl rfl⟩

theorem serve_pending (c : Controller C) (chosen : Chosen C) :
    (serve D d c chosen).2.2.clk = c.clk ∧ (∀ r, .completed r ∉ (serve D d c chosen).2.1) ∧
      ∃ added, (serve D d c chosen).2.2.pending = c.pending ++ added ∧ Departs D c.clk added := by
  obtain ⟨hclk, hpending⟩ := countServed_frame (D := D) (d := d) c chosen
  unfold serve
  dsimp only
  split
  · refine ⟨hclk, by simp, [], ?_, .inl rfl⟩
    rw [append_nil]
    exact hpending
  · rename_i cmd hcmd
    obtain ⟨hclk', added, hadded, hdeparts⟩ := afterIssue_pending (D := D)
      (countServed D d c chosen).2 chosen (countServed D d c chosen).1 cmd
    rw [hclk] at hclk' hdeparts
    rw [hpending] at hadded
    exact ⟨hclk', by simp, added, hadded, hdeparts⟩

/-- **A cycle on `pending`**: the head leaves if it is due, and at most one read is added. -/
theorem tick_pending (h : c.tick D p d refreshReqs policyReqs = .ok (d', effects, c')) :
    c'.clk = c.clk + 1 ∧
      (∀ r, .completed r ∈ effects ↔
        (popDue depart (c.clk + 1) c.pending).1 = some r) ∧
      ∃ added, c'.pending = (popDue depart (c.clk + 1) c.pending).2 ++ added ∧
        Departs D (c.clk + 1) added := by
  obtain ⟨c₁, served, refreshed, sent, c₂, c₃, chosen, hserved, hrefresh, -, hsent, hrest⟩ :=
    tick_phases h
  obtain ⟨hpending, hcompleted⟩ := serveCompletedReads_pending (p := p)
    { c with clk := c.clk + 1, stats := c.countQueues }
  have hclk := (serveCompletedReads_frame (p := p)
    { c with clk := c.clk + 1, stats := c.countQueues }).1
  rw [hserved] at hpending hcompleted hclk
  dsimp only at hpending hcompleted hclk
  push_cast at hpending hcompleted
  -- the refresh manager, the scheduler and the row policy leave `pending` alone
  obtain ⟨extra, rfl, rfl, -⟩ := prioritySendAll_spec hrefresh
  obtain ⟨extra', rfl, rfl, -⟩ := prioritySendAll_spec hsent
  have hann := (scheduleRequest_spec (D := D) (p := p) (d := d) (c₁.appendPriority extra)).1
  have hclk₃ := hann.clk.trans hclk
  have hpending₃ := hann.pending.trans hpending
  rcases hrest with ⟨-, -, rfl, rfl⟩ | ⟨ch, -, -, rfl, rfl⟩
  · refine ⟨hclk₃, ?_, [], ?_, .inl rfl⟩
    · intro r
      rw [← hcompleted r]
      simp
    · rw [append_nil]
      exact hpending₃
  · obtain ⟨hclk', hnone, added, hadded, hdeparts⟩ := serve_pending (D := D) (d := d)
      ((scheduleRequest D p d (c₁.appendPriority extra)).2.appendPriority extra') ch
    have hsame : ((scheduleRequest D p d (c₁.appendPriority extra)).2.appendPriority extra').clk =
        c.clk + 1 := hclk₃
    rw [hsame] at hclk' hdeparts
    refine ⟨hclk', ?_, added, ?_, hdeparts⟩
    · intro r
      rw [← hcompleted r]
      simp [hnone r]
    · rw [hadded, ← hpending₃]
      rfl

end Controller

/-- The departures of the pending reads increase, lie in the future, and lie at most a read latency
ahead. -/
structure Timely (D : IDRAM C σ) (c : Controller C) : Prop where
  spaced : Spaced depart c.clk c.pending
  near : ∀ r ∈ c.pending, r.depart ≤ c.clk + D.readLatency

section

variable {D : IDRAM C σ} {p : ControllerParams} {d : σ} {s s' : Run C σ}

/-- Before the call: a read of an address with a waiting write finds nothing pending. -/
def ForwardsAlone (s : Run C σ) (call : Call C σ) : Prop :=
  ∀ r, call = .send r → r.typeId = typeRead → (∃ w ∈ s.ctrl.writeBuffer.buffer, w.addr = r.addr) →
    s.ctrl.pending = []

theorem Timely.tick (hlatency : 1 ≤ D.readLatency) {c c' : Controller C} (h : Timely D c) {d d' : σ}
    {refreshReqs policyReqs : List (Request C)} {effects : List (Effect C)}
    (htick : c.tick D p d refreshReqs policyReqs = .ok (d', effects, c')) : Timely D c' := by
  obtain ⟨hclk, -, added, hpending, hdeparts⟩ := tick_pending htick
  have hspaced := h.spaced.popDue.1
  have hnear : ∀ r ∈ (popDue depart (c.clk + 1) c.pending).2,
      r.depart ≤ c.clk + D.readLatency := fun r hr => h.near r (mem_of_mem_popDue hr)
  refine ⟨?_, ?_⟩
  · rw [hclk, hpending]
    push_cast
    rcases hdeparts with rfl | ⟨r, rfl, hdepart⟩
    · rw [append_nil]
      exact hspaced
    · push_cast at hdepart
      refine hspaced.push ?_ (by omega)
      intro r' hr'
      have := hnear r' hr'
      omega
  · intro r hr
    rw [hpending] at hr
    rw [hclk]
    push_cast
    rcases mem_append.mp hr with hr | hr
    · have := hnear r hr
      omega
    · rcases hdeparts with rfl | ⟨r', rfl, hdepart⟩
      · cases hr
      · rw [mem_singleton.mp hr, hdepart]
        push_cast
        exact le_rfl

theorem Timely.step (hlatency : 1 ≤ D.readLatency) (h : Timely D s.ctrl) {call : Call C σ}
    (halone : ForwardsAlone s call) (hstep : step D p s call = some s') :
    Timely D s'.ctrl := by
  cases Run.step_cases hstep with
  | send hsend =>
    cases send_cases hsend with
    | forwarded _ _ htype hany =>
      have hnil := halone _ rfl htype hany
      refine ⟨?_, ?_⟩
      · show Spaced _ _ (s.ctrl.pending ++ _)
        rw [hnil]
        refine Spaced.nil.push (forall_mem_nil _) ?_
        show (s.ctrl.clk : ℤ) < s.ctrl.clk + 1
        omega
      · show ∀ r ∈ s.ctrl.pending ++ _, _
        rw [hnil]
        intro r hr
        rw [mem_singleton.mp hr]
        show (s.ctrl.clk : ℤ) + 1 ≤ s.ctrl.clk + D.readLatency
        omega
    | read | write | refused => exact ⟨h.spaced, h.near⟩
  | prioritySend hsend =>
    obtain ⟨final, -, ⟨-, rfl⟩ | ⟨-, rfl⟩⟩ := prioritySend_spec hsend
    · exact ⟨h.spaced, h.near⟩
    · exact h
  | tick htick => exact h.tick hlatency htick
  | device => exact h

theorem timely_of_reachable (hlatency : 1 ≤ D.readLatency)
    (h : (machine D p d).ReachableWhen ForwardsAlone s) : Timely D s.ctrl := by
  refine h.invariant (P := fun s => Timely D s.ctrl) ?_ ?_
  · exact ⟨Spaced.nil, forall_mem_nil _⟩
  · intro s call s' hs halone hstep
    exact hs.step hlatency halone hstep

/-- The cycle completes the pending reads whose departure it is, and no others; the rest stay pending,
and nothing that is pending after it is due. -/
structure CompletesOnTime (c : Controller C) (effects : List (Effect C)) (c' : Controller C) :
    Prop where
  due : ∀ r, .completed r ∈ effects → r ∈ c.pending ∧ r.depart = c'.clk
  all : ∀ r ∈ c.pending, .completed r ∈ effects ∨ r ∈ c'.pending
  future : ∀ r ∈ c'.pending, c'.clk < r.depart

/-- **Reads complete on time if they are forwarded alone**, that is, when nothing is pending.  A read
forwarded behind another one is overdue after the next cycle, in every run. -/
theorem reads_complete_on_time (D : IDRAM C σ) (p : ControllerParams) (d : σ)
    (hlatency : 1 ≤ D.readLatency) :
    (∀ s, (machine D p d).ReachableWhen ForwardsAlone s →
      (∀ r ∈ s.ctrl.pending, s.ctrl.clk < r.depart) ∧
      ∀ refreshReqs policyReqs d' effects c',
        s.ctrl.tick D p s.dram refreshReqs policyReqs = .ok (d', effects, c') →
        CompletesOnTime s.ctrl effects c') ∧
    ∀ s, (machine D p d).Reachable s → s.ctrl.pending ≠ [] →
      ∀ req ok r c₁, s.ctrl.send D req = .ok (ok, [.forwarded r], c₁) →
      ∀ dram refreshReqs policyReqs d' effects c',
        c₁.tick D p dram refreshReqs policyReqs = .ok (d', effects, c') →
        r ∈ c'.pending ∧ r.depart ≤ c'.clk := by
  refine ⟨?_, ?_⟩
  · intro s h
    have htimely := timely_of_reachable hlatency h
    refine ⟨htimely.spaced.future, ?_⟩
    intro refreshReqs policyReqs d' effects c' htick
    obtain ⟨hclk, hcompleted, added, hpending, -⟩ := tick_pending htick
    obtain ⟨-, hpopped, hkept⟩ := htimely.spaced.popDue
    refine ⟨?_, ?_, (htimely.tick hlatency htick).spaced.future⟩
    · intro r hr
      rw [hclk]
      exact hpopped r ((hcompleted r).mp hr)
    · intro r hr
      rcases hkept r hr with hpop | hstay
      · exact .inl ((hcompleted r).mpr hpop)
      · rw [hpending]
        exact .inr (mem_append_left added hstay)
  · intro s _ hne req ok r c₁ hsend dram refreshReqs policyReqs d' effects c' htick
    obtain ⟨hclk, -, added, hpending, -⟩ := tick_pending htick
    obtain ⟨hsame, hdepart, happend⟩ : c₁.clk = s.ctrl.clk ∧ r.depart = s.ctrl.clk + 1 ∧
        c₁.pending = s.ctrl.pending ++ [r] := by
      cases send_cases hsend with
      | forwarded => exact ⟨rfl, rfl, rfl⟩
    refine ⟨?_, ?_⟩
    · rw [hpending, happend]
      exact mem_append_left added (mem_popDue_append hne r)
    · rw [hclk, hsame, hdepart]
      push_cast
      exact le_rfl

end

def checkForwardsAlone (s : Run DDR4.Command Unit) : Call DDR4.Command Unit → Bool
  | .send r => !s.ctrl.writeBuffer.buffer.any (fun w => w.addr = r.addr) || s.ctrl.pending.isEmpty
  | _ => true

theorem checkForwardsAlone_spec (s : Run DDR4.Command Unit) (call : Call DDR4.Command Unit)
    (h : checkForwardsAlone s call = true) : ForwardsAlone s call := by
  rintro r rfl - ⟨w, hw, haddr⟩
  have hany : s.ctrl.writeBuffer.buffer.any (fun w => w.addr = r.addr) = true :=
    List.any_eq_true.mpr ⟨w, hw, by simpa using haddr⟩
  simpa [checkForwardsAlone, hany] using h

/-- A read that is forwarded alone departs in the next cycle. -/
theorem lone_forwarded_read_on_time :
    ∃ s, (machine alwaysReady shipped ()).ReachableWhen ForwardsAlone s ∧
      s.ctrl.pending.map depart = [1] ∧ (∀ r ∈ s.ctrl.pending, s.ctrl.clk < r.depart) ∧
      ∀ d' effects c', s.ctrl.tick alwaysReady shipped s.dram [] [] =
        .ok (d', effects, c') → CompletesOnTime s.ctrl effects c' := by
  obtain ⟨s, hwhen, hpending⟩ := Machine.exists_reachableWhen
    (m := machine alwaysReady shipped ()) checkForwardsAlone
    checkForwardsAlone_spec (P := fun s => s.ctrl.pending.map depart = [1])
    (writeThenRead.take 2) (by decide +kernel) (by decide +kernel)
  obtain ⟨hfuture, htick⟩ := (reads_complete_on_time alwaysReady shipped ()
    (by decide)).1 s hwhen
  exact ⟨s, hwhen, hpending, hfuture, htick [] []⟩

def writeThenTwoReads : List (Call DDR4.Command Unit) :=
  [.send { readOfBank 5 with typeId := typeWrite, callback := false }, .send (readOfBank 5),
    .send (readOfBank 5)]

/-- **The second forwarded read is late**: it departs in cycle 1 and completes in cycle 2. -/
theorem second_forwarded_read_is_late :
    ∃ s s', (machine alwaysReady shipped ()).Reachable s ∧
      (machine alwaysReady shipped ()).step s (.tick [] []) = some s' ∧
      s.ctrl.clk = 1 ∧ s.ctrl.pending.map depart = [1] ∧
      s'.ctrl.clk = 2 ∧ (completedReads s'.log).map depart = [1, 1] := by
  let m := machine alwaysReady shipped ()
  obtain ⟨s, hs, hclk, hpending, hnext⟩ := m.exists_reachable
    (P := fun s => s.ctrl.clk = 1 ∧ s.ctrl.pending.map depart = [1] ∧
      (m.step s (.tick [] [])).any fun s' =>
        s'.ctrl.clk = 2 ∧ (completedReads s'.log).map depart = [1, 1])
    (writeThenTwoReads ++ [.tick [] []]) (by decide +kernel)
  obtain ⟨s', hstep, hvalues⟩ := (Option.any_eq_true _ _).mp hnext
  exact ⟨s, s', hs, hstep, hclk, hpending, of_decide_eq_true hvalues⟩

end MultiCoreMemory
