import Mathlib.Data.Bool.Count
import MultiCoreMemory.Lib.Machine

/-!
# The LimitLESS directory entry (`directory_schemes/directory_entry_limitless.h`)

`addSharer` compares the hardware pointers with the size of the sharer container, not with the number
of sharers, so the trap depends on the configuration alone.
-/

namespace MultiCoreMemory.Sniper

def containerSize (maxNumSharers : ℕ) : ℕ :=
  if maxNumSharers ≤ 64 then 64
  else if maxNumSharers ≤ 128 then 128
  else if maxNumSharers ≤ 256 then 256
  else if maxNumSharers ≤ 1024 then 1024
  else maxNumSharers

structure DirectoryEntryLimitless where
  sharers : List Bool
  softwareTrapEnabled : Bool := false
  softwareTrapPenalty : ℕ

namespace DirectoryEntryLimitless

variable (e : DirectoryEntryLimitless)

def getLatency : ℕ := if e.softwareTrapEnabled then e.softwareTrapPenalty else 0

def getNumSharers : ℕ := e.sharers.count true

def addSharer (sharerId maxHwSharers : ℕ) : Option DirectoryEntryLimitless :=
  if e.sharers[sharerId]? = some false then
    some { e with
      softwareTrapEnabled := e.softwareTrapEnabled || e.sharers.length == maxHwSharers
      sharers := e.sharers.set sharerId true }
  else none

def removeSharer (sharerId : ℕ) (replyExpected : Bool) : Option DirectoryEntryLimitless :=
  if !replyExpected ∧ e.sharers[sharerId]? = some true then
    some { e with sharers := e.sharers.set sharerId false }
  else none

end DirectoryEntryLimitless

inductive SharerCall where
  | addSharer (sharerId : ℕ)
  | removeSharer (sharerId : ℕ) (replyExpected : Bool)

/-- An entry, and of its history: was a sharer added, and was one added to an entry that held
`maxHwSharers` already? -/
structure LimitlessRun where
  entry : DirectoryEntryLimitless
  added : Bool := false
  overflowed : Bool := false

namespace LimitlessRun

section

variable (numCores maxHwSharers penalty : ℕ)

/-- The entry of a directory of `numCores` caches under the calls for them. -/
def machine : Machine LimitlessRun SharerCall where
  init := ⟨{ sharers := .replicate (containerSize numCores) false, softwareTrapPenalty := penalty },
    false, false⟩
  step s call := match call with
    | .addSharer id =>
      if id < numCores then (s.entry.addSharer id maxHwSharers).map fun e =>
        ⟨e, true, s.overflowed || s.entry.getNumSharers == maxHwSharers⟩
      else none
    | .removeSharer id replyExpected =>
      if id < numCores then (s.entry.removeSharer id replyExpected).map fun e => { s with entry := e }
      else none

/-- What the calls keep: the trap is on when the container has `maxHwSharers` bits and a sharer was
added, and a container of that size never overflows. -/
structure Sized (s : LimitlessRun) : Prop where
  length : s.entry.sharers.length = containerSize numCores
  penalty : s.entry.softwareTrapPenalty = penalty
  trap : s.entry.softwareTrapEnabled = (s.added && containerSize numCores == maxHwSharers)
  overflow : s.overflowed = true → containerSize numCores ≠ maxHwSharers

end

variable {numCores maxHwSharers penalty : ℕ} {s s' : LimitlessRun} {call : SharerCall}

theorem getNumSharers_lt {e : DirectoryEntryLimitless} {id : ℕ}
    (h : e.sharers[id]? = some false) : e.getNumSharers < e.sharers.length := by
  have hsum := List.count_false_add_count_true e.sharers
  have hpos : 0 < e.sharers.count false := List.count_pos_iff.mpr (List.mem_of_getElem? h)
  rw [DirectoryEntryLimitless.getNumSharers]
  omega

theorem Sized.step (h : s.Sized numCores maxHwSharers penalty)
    (hstep : (machine numCores maxHwSharers penalty).step s call = some s') :
    s'.Sized numCores maxHwSharers penalty := by
  cases call with
  | addSharer id =>
    simp only [machine, DirectoryEntryLimitless.addSharer] at hstep
    split at hstep
    · split at hstep
      · rename_i hbit
        cases hstep
        refine ⟨by simpa using h.length, h.penalty, by simp [h.trap, h.length], ?_⟩
        intro hover hsize
        -- an entry whose container is full of sharers has none left to add
        have hlt := getNumSharers_lt hbit
        rw [h.length, hsize] at hlt
        rcases (Bool.or_eq_true _ _).mp hover with hbefore | hnow
        · exact h.overflow hbefore hsize
        · exact hlt.ne (of_decide_eq_true hnow)
      · cases hstep
    · cases hstep
  | removeSharer id replyExpected =>
    simp only [machine, DirectoryEntryLimitless.removeSharer] at hstep
    split at hstep
    · split at hstep
      · cases hstep
        exact ⟨by simpa using h.length, h.penalty, h.trap, h.overflow⟩
      · cases hstep
    · cases hstep

theorem sized_of_reachable (h : (machine numCores maxHwSharers penalty).Reachable s) :
    s.Sized numCores maxHwSharers penalty :=
  h.invariant ⟨List.length_replicate, rfl, rfl, fun h => by cases h⟩
    fun _ _ _ hs _ hstep => hs.step hstep

/-- The latency is what the history asks for where the trap costs nothing, or the entry has not
overflowed and does not trap on every sharer. -/
theorem getLatency_eq_iff (h : (machine numCores maxHwSharers penalty).Reachable s) :
    s.entry.getLatency = (if s.overflowed then penalty else 0) ↔
      penalty = 0 ∨
        s.overflowed = false ∧ (containerSize numCores = maxHwSharers → s.added = false) := by
  have hs := sized_of_reachable h
  rw [DirectoryEntryLimitless.getLatency, hs.trap, hs.penalty]
  by_cases hsize : containerSize numCores = maxHwSharers
  · have hover : s.overflowed = false := Bool.eq_false_iff.mpr fun hover => hs.overflow hover hsize
    cases hadded : s.added <;> simp [hsize, hover]
  · have hoff : (s.added && containerSize numCores == maxHwSharers) = false := by simp [hsize]
    rw [hoff]
    cases hover : s.overflowed with
    | false => simp [hsize]
    | true => simpa [hsize] using eq_comm

theorem getLatency_eq_iff_four_cores : ∃ s, (machine 4 2 5).Reachable s ∧ s.added = true ∧
    s.entry.getLatency = if s.overflowed then 5 else 0 := by
  obtain ⟨s, hs, hadded, hover⟩ := Machine.exists_reachable (m := machine 4 2 5)
    (P := fun s => s.added = true ∧ s.overflowed = false) [.addSharer 0, .addSharer 1] (by decide)
  have hsize : containerSize 4 ≠ 2 := by decide
  exact ⟨s, hs, hadded, (getLatency_eq_iff hs).mpr (.inr ⟨hover, fun h => absurd h hsize⟩)⟩

/-- With one hardware pointer and four cores the second sharer does not trap; with sixty-four
pointers the first one does. -/
theorem trap_misses_overflow :
    (∃ s, (machine 4 1 5).Reachable s ∧ s.overflowed = true ∧ s.entry.getLatency = 0) ∧
    ∃ s, (machine 4 64 5).Reachable s ∧ s.overflowed = false ∧ s.entry.getLatency = 5 :=
  ⟨Machine.exists_reachable [.addSharer 0, .addSharer 1] (by decide),
    Machine.exists_reachable [.addSharer 0] (by decide)⟩

end LimitlessRun

end MultiCoreMemory.Sniper
