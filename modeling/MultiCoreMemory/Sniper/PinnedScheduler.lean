import MultiCoreMemory.Lib.Machine
import Mathlib.Tactic
import Mathlib.Data.Fintype.Card

/-!
# The pinned scheduler (`scheduler_pinned_base.cc`, `scheduler_dynamic.cc`)

The scheduler with what it calls of `ThreadManager` and `Thread`.  `reschedule` moves threads, and
moving a thread that waits for a core resumes it, which comes back to the scheduler as an event and may
reschedule another core.

Times are 64-bit counts of femtoseconds.  The states of the cores are left out.
-/

namespace MultiCoreMemory

open Function

inductive ThreadStatus where
  | running
  | initializing
  | stalled
  | idle
  deriving DecidableEq, Repr

inductive StallType where
  | unscheduled
  | broken
  | join
  | mutex
  | cond
  | barrier
  | futex
  | pause
  | sleep
  | syscall
  deriving DecidableEq, Repr

structure ThreadInfo (n : ℕ) where
  hasAffinity : Bool := false
  explicitAffinity : Bool := false
  coreAffinity : Fin n → Bool := fun _ => false
  coreRunning : Option (Fin n) := none
  lastScheduledIn : UInt64 := 0
  lastScheduledOut : UInt64 := 0

structure CorePlacement (n : ℕ) where
  thread : ℕ
  core : Fin n
  mask : Fin n → Bool

/-- The tables of the scheduler, the threads of `ThreadManager`, and the pointers between threads and
cores. -/
structure PinnedScheduler (n : ℕ) where
  quantum : UInt64
  lastPeriodic : UInt64 := 0
  threadInfo : ℕ → ThreadInfo n := fun _ => {}
  coreThreadRunning : Fin n → Option ℕ := fun _ => none
  quantumLeft : Fin n → UInt64 := fun _ => 0
  /-- the bits of `m_threads_runnable`, and its size -/
  threadsRunnable : ℕ → Bool := fun _ => false
  runnableSize : ℕ := 16
  numThreads : ℕ := 0
  status : ℕ → ThreadStatus := fun _ => .idle
  stalledReason : ℕ → StallType := fun _ => .unscheduled
  /-- `Thread::m_core` and `Core::m_thread` -/
  threadCore : ℕ → Option (Fin n) := fun _ => none
  coreThread : Fin n → Option ℕ := fun _ => none
  placements : List (CorePlacement n) := []

namespace PinnedScheduler

variable {n : ℕ}

variable (s : PinnedScheduler n) (thread : ℕ) (time : UInt64) (core : Fin n)

@[simps]
def setInfo (info : ThreadInfo n) : PinnedScheduler n :=
  { s with threadInfo := update s.threadInfo thread info }

@[simps]
def setRunning (thread : Option ℕ) : PinnedScheduler n :=
  { s with coreThreadRunning := update s.coreThreadRunning core thread }

@[simps]
def record : PinnedScheduler n :=
  { s with placements := ⟨thread, core, (s.threadInfo thread).coreAffinity⟩ :: s.placements }

/-! ## `Thread` and `ThreadManager` -/

/-- `Thread::setCore`; the assertion asks for a core without a thread. -/
def setCore (core : Option (Fin n)) : Option (PinnedScheduler n) :=
  let coreThread := match s.threadCore thread with
    | some old => update s.coreThread old none
    | none => s.coreThread
  let threadCore := update s.threadCore thread core
  match core with
  | none => some { s with threadCore, coreThread }
  | some c =>
    if (coreThread c).isSome then none
    else some { s with threadCore, coreThread := update coreThread c (some thread) }

/-- Does moving the thread to a core resume it? -/
def waitsForCore : Bool :=
  s.threadCore thread = none && s.status thread = .stalled && s.stalledReason thread = .unscheduled

/-- `ThreadManager::moveThread`, with `resumeThread` as a parameter; a thread that was never created
fails an assertion. -/
def moveThread (resumeThread : PinnedScheduler n → ℕ → Option (PinnedScheduler n))
    (s : PinnedScheduler n) (thread : ℕ) (core : Option (Fin n)) : Option (PinnedScheduler n) :=
  if thread < s.numThreads then
    match core with
    | none => s.setCore thread none
    | some c =>
      match if s.waitsForCore thread then resumeThread s thread else some s with
      | none => none
      | some s => s.setCore thread (some c)
  else none

/-! ## The scheduler -/

def findFreeCoreForThread : Option (Fin n) :=
  (List.finRange n).find? fun core =>
    (s.threadInfo thread).coreAffinity core && (s.coreThreadRunning core).isNone

/-- `ThreadManager::resumeThread` and the hook it calls, with `reschedule` as a parameter. -/
def resumeThread (reschedule : PinnedScheduler n → Fin n → Option (PinnedScheduler n))
    (s : PinnedScheduler n) (thread : ℕ) : Option (PinnedScheduler n) :=
  if thread < s.numThreads then
    let s : PinnedScheduler n := { s with
      status := update s.status thread .running
      threadsRunnable := update s.threadsRunnable thread true }
    match s.findFreeCoreForThread thread with
    | none => some s
    | some core => reschedule s core
  else none

def isCandidate (thread : ℕ) : Bool :=
  (s.threadInfo thread).coreAffinity core && s.threadsRunnable thread &&
    ((s.threadInfo thread).coreRunning = none || (s.threadInfo thread).coreRunning = some core)

def picoseconds : UInt64 := time / 1000

/-- How long a running thread has run, negated, or how long another has waited. -/
def score (thread : ℕ) : Int64 :=
  if (s.threadInfo thread).coreRunning = none then
    (picoseconds time - picoseconds (s.threadInfo thread).lastScheduledOut).toInt64
  else (picoseconds (s.threadInfo thread).lastScheduledIn - picoseconds time).toInt64

/-- The loop of `reschedule` over the threads: the first with the highest score. -/
def pickThread : Option ℕ :=
  ((List.range s.runnableSize).foldl (fun (best : Option ℕ × Int64) thread =>
    if s.isCandidate core thread && best.2 < s.score time thread then
      (some thread, s.score time thread)
    else best) (none, Int64.minValue)).1

def unschedule : Option (PinnedScheduler n) :=
  match s.coreThreadRunning core with
  | none => some s
  | some current =>
    let info : ThreadInfo n := { s.threadInfo current with
      coreRunning := none, lastScheduledOut := time + UInt64.ofNat core * 1000 }
    (s.setInfo current info).moveThread (fun _ _ => none) current none

def leaveOldCore : PinnedScheduler n :=
  match (s.threadInfo thread).coreRunning with
  | some old => s.setRunning old none
  | none => s

/-- The tables of a thread that gets the core, before it is moved there. -/
def place (thread : ℕ) : PinnedScheduler n :=
  ((s.leaveOldCore thread).record thread core).setInfo thread
    { s.threadInfo thread with coreRunning := some core, lastScheduledIn := time }

def refill : PinnedScheduler n :=
  { s with quantumLeft := update s.quantumLeft core s.quantum }

def isStarting : Bool :=
  match s.coreThreadRunning core with
  | none => false
  | some current => s.status current = .initializing

/-- `reschedule`, calling itself through `moveThread` at most so deep. -/
def reschedule : ℕ → UInt64 → PinnedScheduler n → Fin n → Option (PinnedScheduler n)
  | 0, _, _, _ => none
  | depth + 1, time, s, core =>
    if s.isStarting core then some s
    else
      let newThread := s.pickThread time core
      if s.coreThreadRunning core = newThread then some (s.refill core)
      else
        match s.unschedule time core with
        | none => none
        | some s =>
          -- set before the move, so that the resume hook does not see an empty core
          let s := s.setRunning core newThread
          match newThread with
          | none => some (s.refill core)
          | some thread =>
            match (s.place time core thread).moveThread (resumeThread (reschedule depth time))
                thread (some core) with
            | none => none
            | some s => some (s.refill core)

def rescheduleNow (s : PinnedScheduler n) (core : Fin n) : Option (PinnedScheduler n) :=
  reschedule (n + 1) time s core

/-- `reschedule` on the first free core of the thread, if there is one. -/
def rescheduleFreeCore (s : PinnedScheduler n) (thread : ℕ) : Option (PinnedScheduler n) :=
  match s.findFreeCoreForThread thread with
  | none => some s
  | some core => rescheduleNow time s core

/-- `if (m_thread_info[thread_id].isRunning()) reschedule(...)` -/
def rescheduleCoreOf (s : PinnedScheduler n) (thread : ℕ) : Option (PinnedScheduler n) :=
  match (s.threadInfo thread).coreRunning with
  | none => some s
  | some core => rescheduleNow time s core

def setMask (info : ThreadInfo n) (mask : Fin n → Bool) : ThreadInfo n :=
  { info with
    coreAffinity := mask
    hasAffinity := info.hasAffinity || (List.finRange n).any mask }

/-- `threadCreate`, with the core it returns; the mask is that of `threadSetInitialAffinity`. -/
def threadCreate (initial : Fin n → Bool) : PinnedScheduler n × Option (Fin n) :=
  let info := if (s.threadInfo thread).hasAffinity then s.threadInfo thread
    else setMask (s.threadInfo thread) initial
  let s := s.setInfo thread info
  match s.findFreeCoreForThread thread with
  | some core =>
    ((((s.record thread core).setInfo thread { info with coreRunning := some core }).setRunning core
      (some thread)).refill core, some core)
  | none => (s.setInfo thread { info with coreRunning := none }, none)

def createThread (initial : Fin n → Bool) : Option (PinnedScheduler n) :=
  let thread := s.numThreads
  let s : PinnedScheduler n := { s with
    numThreads := s.numThreads + 1
    status := update s.status thread .initializing }
  match s.threadCreate thread initial with
  | (s, none) => some s
  | (s, some core) => s.setCore thread (some core)

/-- The resize and the write of `__threadStart`: new bits are false, and an index past the size is a bit
that the loop of `reschedule` does not read. -/
def markStarted : PinnedScheduler n :=
  let grown : Bool := s.runnableSize ≤ thread
  let bits := if grown then fun t => s.threadsRunnable t && !(s.runnableSize ≤ t && t < s.runnableSize + 16)
    else s.threadsRunnable
  { s with
    runnableSize := if grown then s.runnableSize + 16 else s.runnableSize
    threadsRunnable := update bits thread true }

def startThread : Option (PinnedScheduler n) :=
  if thread < s.numThreads then
    let s : PinnedScheduler n := { s with status := update s.status thread .running }
    match rescheduleFreeCore time (s.markStarted thread) thread with
    | none => none
    | some s =>
      match s.threadCore thread with
      | some _ => some { s with status := update s.status thread .running }
      | none => some { s with
          status := update s.status thread .stalled
          stalledReason := update s.stalledReason thread .unscheduled }
  else none

def stallThread (reason : StallType) (time : UInt64) : Option (PinnedScheduler n) :=
  if thread < s.numThreads then
    let s : PinnedScheduler n := { s with
      status := update s.status thread .stalled
      stalledReason := update s.stalledReason thread reason }
    if reason ≠ .unscheduled then
      rescheduleCoreOf time
        { s with threadsRunnable := update s.threadsRunnable thread false } thread
    else some s
  else none

def resumeNow (s : PinnedScheduler n) (thread : ℕ) : Option (PinnedScheduler n) :=
  resumeThread (rescheduleNow time) s thread

/-- `onThreadExit` with `__threadExit`.  The threads that wait for the end of this one are resumed
first. -/
def exitThread (waiters : List ℕ) (time : UInt64) : Option (PinnedScheduler n) :=
  if thread < s.numThreads ∧ s.threadCore thread ≠ none ∧ s.status thread = .running then
    let s : PinnedScheduler n := { s with status := update s.status thread .idle }
    match waiters.foldlM (resumeNow time) s with
    | none => none
    | some s =>
      match s.setCore thread none with
      | none => none
      | some s => rescheduleCoreOf time
          { s with threadsRunnable := update s.threadsRunnable thread false } thread
  else none

def threadYield : Option (PinnedScheduler n) :=
  match (s.threadInfo thread).coreRunning with
  | none => some s
  | some core =>
    let s : PinnedScheduler n := { s with quantumLeft := update s.quantumLeft core 0 }
    match rescheduleNow time s core with
    | none => none
    | some s =>
      if !(s.threadInfo thread).coreAffinity core then rescheduleFreeCore time s thread else some s

def threadSetAffinity (caller thread : ℕ) (mask : Option (Fin n → Bool)) (time : UInt64) :
    Option (PinnedScheduler n) :=
  let info : ThreadInfo n := { s.threadInfo thread with explicitAffinity := true }
  let s := s.setInfo thread (setMask info (mask.getD fun _ => true))
  if thread ≥ s.numThreads then some s
  else if thread = caller then s.threadYield thread time
  else
    match (s.threadInfo thread).coreRunning with
    | some core =>
      if !(s.threadInfo thread).coreAffinity core then
        some { s with quantumLeft := update s.quantumLeft core 0 }
      else some s
    | none => if s.threadsRunnable thread then rescheduleFreeCore time s thread else some s

def periodicCore (delta : UInt64) (s : PinnedScheduler n) (core : Fin n) :
    Option (PinnedScheduler n) :=
  if s.quantumLeft core < delta ∨ s.coreThreadRunning core = none then rescheduleNow time s core
  else some { s with
    quantumLeft := update s.quantumLeft core (s.quantumLeft core - delta) }

def periodic : Option (PinnedScheduler n) :=
  match (List.finRange n).foldlM (periodicCore time (time - s.lastPeriodic)) s with
  | none => none
  | some s => some { s with lastPeriodic := time }

end PinnedScheduler

inductive SchedulerEvent (n : ℕ) where
  | create (initial : Fin n → Bool)
  | start (thread : ℕ) (time : UInt64)
  | stall (thread : ℕ) (reason : StallType) (time : UInt64)
  | resume (thread : ℕ) (time : UInt64)
  | exit (thread : ℕ) (waiters : List ℕ) (time : UInt64)
  | yield (thread : ℕ) (time : UInt64)
  | setAffinity (caller thread : ℕ) (mask : Option (Fin n → Bool)) (time : UInt64)
  | periodic (time : UInt64)

namespace PinnedScheduler

/-- Runs of events. `placements` records each placement with the mask of that moment. -/
def machine (n : ℕ) (quantum : UInt64) : Machine (PinnedScheduler n) (SchedulerEvent n) where
  init := { quantum }
  step s
    | .create initial => s.createThread initial
    | .start thread time => s.startThread thread time
    | .stall thread reason time => s.stallThread thread reason time
    | .resume thread time => s.resumeNow time thread
    | .exit thread waiters time => s.exitThread thread waiters time
    | .yield thread time => s.threadYield thread time
    | .setAffinity caller thread mask time => s.threadSetAffinity caller thread mask time
    | .periodic time => s.periodic time

end PinnedScheduler

end MultiCoreMemory
