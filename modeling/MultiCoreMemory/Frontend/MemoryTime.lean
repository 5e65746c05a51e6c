import MultiCoreMemory.Frontend.LoadRetirement
import MultiCoreMemory.Lib.BusyTime

/-!
# The memory time of a core

`receive` adds up the time a core had reads outstanding, as seen from the departures: it remembers the
latest departure only.
-/

namespace MultiCoreMemory

open BusyTime SimpleO3Core

variable {C τ : Type}

namespace SimpleO3Core

variable (c : SimpleO3Core) (req : Request C)

def memoryMeter : Meter := { mark := c.lastMemCycle, total := c.memAccessCycles }

/-- Was the read served by DRAM, which sets its arrival, before the core has reached its target? -/
def isCounted : Bool :=
  req.arrive ≠ -1 && !c.reachedExpectedNumInsts

theorem receive_meter :
    (c.receive req).memoryMeter =
      if c.isCounted req then c.memoryMeter.add (req.arrive, req.depart) else c.memoryMeter := by
  unfold receive isCounted memoryMeter Meter.add
  dsimp only
  by_cases harrive : req.arrive = -1
  · simp [harrive]
  · cases c.reachedExpectedNumInsts with
    | true => simp
    | false =>
      by_cases hmark : c.lastMemCycle < req.depart
      · simp [harrive, hmark]
      · simp [harrive, hmark]

variable {translate : Translate C τ} {accept : Bool} {c c' : SimpleO3Core} {t t' : τ}
  {attempt : Option (Attempt C)}

theorem loadSent_meter (c : SimpleO3Core) (req : Request C) :
    (c.loadSent req).memoryMeter = c.memoryMeter := by
  unfold loadSent
  dsimp only
  split <;> rfl

theorem tick_meter (htick : c.tick translate accept t = some (c', t', attempt)) :
    c'.memoryMeter = c.memoryMeter := by
  unfold tick at htick
  dsimp only at htick
  split at htick
  · cases htick
    rfl
  · split at htick
    · cases sendLoad_cases htick with
      | noRoom => rfl
      | untranslated => rfl
      | refused => rfl
      | accepted => exact loadSent_meter _ _
    · cases sendWriteback_cases htick <;> rfl

end SimpleO3Core

/-- A core, and the intervals from arrival to departure of the counted reads. -/
structure MemoryTimeRun (τ : Type) where
  core : SimpleO3Core
  translation : τ
  served : List (ℤ × ℤ) := []

namespace MemoryTimeRun

def step (s : MemoryTimeRun τ) : LoadCall C τ → Option (MemoryTimeRun τ)
  | .tick translate accept =>
    (s.core.tick translate accept s.translation).map fun r =>
      { s with core := r.1, translation := r.2.1 }
  | .receive req => some { s with
      core := s.core.receive req
      served := if s.core.isCounted req then s.served ++ [(req.arrive, req.depart)] else s.served }

def machine (C : Type) (core : SimpleO3Core) (t : τ) : Machine (MemoryTimeRun τ) (LoadCall C τ) where
  init := { core := core, translation := t }
  step := step

theorem meter_of_reachable {id ipc depth numExpectedInsts : ℕ} {trace : List Inst} {t : τ}
    {s : MemoryTimeRun τ}
    (h : (machine C (create id ipc depth numExpectedInsts trace) t).Reachable s) :
    s.core.memoryMeter = meter s.served := by
  refine h.invariant (P := fun s => s.core.memoryMeter = meter s.served) rfl ?_
  intro s call s' hs _ hstep
  cases call with
  | tick translate accept =>
    obtain ⟨⟨c, t, attempt⟩, htick, rfl⟩ := Option.map_eq_some_iff.mp hstep
    exact (tick_meter htick).trans hs
  | receive req =>
    cases hstep
    show (s.core.receive req).memoryMeter = meter (if s.core.isCounted req then _ else _)
    rw [receive_meter]
    split
    · rw [meter_concat, hs]
    · exact hs

/-- **When the counter is the time the core had a read outstanding.** It is at most the union of the
reads' intervals, and equal exactly when each read, before the latest departure so far, was outstanding
together with a read completed before it. -/
theorem memAccessCycles_eq_card_iff (C : Type) (id ipc depth numExpectedInsts : ℕ) (trace : List Inst)
    (t : τ) (s : MemoryTimeRun τ)
    (h : (machine C (create id ipc depth numExpectedInsts trace) t).Reachable s) :
    s.core.memAccessCycles ≤ (covered s.served).card ∧
      (s.core.memAccessCycles = (covered s.served).card ↔ AllCounted s.served) := by
  have htotal : s.core.memAccessCycles = (meter s.served).total :=
    congrArg Meter.total (meter_of_reachable h)
  rw [htotal]
  exact ⟨total_le_card s.served, total_eq_card_iff s.served⟩

/-! ## Two runs -/

def idleCore : SimpleO3Core := create 0 4 8 100 [{ loadAddr := 64 }]

def servedRead (arrive depart : ℤ) : LoadCall Unit Unit :=
  .receive { addr := 64, typeId := typeRead, arrive := arrive, depart := depart }

/-- Two reads that overlap and a later one. -/
theorem overlapping_reads_counted :
    ∃ s, (machine Unit idleCore ()).Reachable s ∧ s.served = [(0, 20), (10, 30), (40, 50)] ∧
      s.core.memAccessCycles = 40 ∧ (covered s.served).card = 40 ∧ AllCounted s.served := by
  obtain ⟨s, hs, hserved, hcycles, hcard⟩ := Machine.exists_reachable (m := machine Unit idleCore ())
    (P := fun s => s.served = [(0, 20), (10, 30), (40, 50)] ∧ s.core.memAccessCycles = 40 ∧
      (covered s.served).card = 40)
    [servedRead 0 20, servedRead 10 30, servedRead 40 50] (by decide +kernel)
  have hiff := (memAccessCycles_eq_card_iff Unit 0 4 8 100 [{ loadAddr := 64 }] () s hs).2
  refine ⟨s, hs, hserved, hcycles, hcard, hiff.mp ?_⟩
  rw [hcycles, hcard]
  rfl

/-- **A read that outlasts a younger one**: from 0 to 30 and from 10 to 20, counted as 20 cycles. -/
theorem nested_read_undercounts :
    ∃ s, (machine Unit idleCore ()).Reachable s ∧ s.served = [(10, 20), (0, 30)] ∧
      s.core.reachedExpectedNumInsts = false ∧ s.core.memAccessCycles = 20 ∧
      (covered s.served).card = 30 :=
  Machine.exists_reachable [servedRead 10 20, servedRead 0 30] (by decide +kernel)

end MemoryTimeRun

end MultiCoreMemory
