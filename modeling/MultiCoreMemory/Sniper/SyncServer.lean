import MultiCoreMemory.Lib.Machine
import MultiCoreMemory.Lib.WaitQueues
import Mathlib.Tactic.Simps.Basic

/-!
# Simulated mutexes and condition variables (`sync_server.cc`)

`SimMutex` and `SimCond` with the part of `ThreadManager` they call: a thread is stalled inside `lock` or
`wait` until another thread resumes it.  The threads, mutexes and condition variables are arbitrary
types; a mutex or condition variable that was never named is in the state of its constructor.

Simulated time is left out.
-/

namespace MultiCoreMemory

open Function

/-- The owner and the queue of a mutex. -/
structure SimMutex (T : Type) where
  owner : Option T := none
  waiting : List T := []
  deriving DecidableEq, Repr

/-- Why a thread is stalled. -/
inductive StallReason where
  | mutex
  | cond
  deriving DecidableEq, Repr

/-- What happens to threads and mutexes. -/
inductive SyncEvent (T M : Type) where
  | stall (thread : T) (reason : StallReason)
  | resume (thread threadBy : T)
  /-- `m_waiting.push(thread)` of a mutex -/
  | queued (mux : M) (thread : T)
  /-- `m_owner = waiter`, with the waiter just popped -/
  | handedOver (mux : M) (thread : T)
  deriving DecidableEq, Repr

/-- The mutexes and condition variables of `SyncServer`, and the threads. -/
structure SyncState (T M C : Type) where
  mutexes : M → SimMutex T := fun _ => {}
  conds : C → List (T × M) := fun _ => []
  /-- the reason of a stalled thread; the others are running -/
  stalled : T → Option StallReason := fun _ => none
  /-- the mutex of the `lock` or `wait` in which the thread is, from its stall to its return -/
  pending : T → Option M := fun _ => none
  events : List (SyncEvent T M) := []

namespace SimMutex

variable {T : Type} [DecidableEq T]

/-- `isLocked`: owned by someone that is not this thread. -/
def isLocked (mux : SimMutex T) (thread : T) : Bool :=
  match mux.owner with
  | none => false
  | some owner => owner ≠ thread

end SimMutex

namespace SyncState

variable {T M C : Type} [DecidableEq T] [DecidableEq M] [DecidableEq C]

variable (s : SyncState T M C) (thread : T) (mux : M) (cond : C) (tryLock : Bool)

/-- `ThreadManager::stallThread`, up to the point where the thread waits. -/
@[simps]
def stallThread (reason : StallReason) (mux : M) : SyncState T M C :=
  { s with
    stalled := update s.stalled thread (some reason)
    pending := update s.pending thread (some mux)
    events := s.events ++ [.stall thread reason] }

/-- `ThreadManager::resumeThread`. -/
@[simps]
def resumeThread (threadBy : T) : SyncState T M C :=
  { s with
    stalled := update s.stalled thread none
    events := s.events ++ [.resume thread threadBy] }

/-- `m_owner = thread`, for a mutex without an owner. -/
@[simps]
def own (thread : T) : SyncState T M C :=
  { s with mutexes := update s.mutexes mux { s.mutexes mux with owner := some thread } }

/-- `m_waiting.push`. -/
@[simps]
def pushWaiting (thread : T) : SyncState T M C :=
  { s with
    mutexes := update s.mutexes mux
      { s.mutexes mux with waiting := (s.mutexes mux).waiting ++ [thread] }
    events := s.events ++ [.queued mux thread] }

/-- `SimMutex::lock`, up to the point where the thread waits. -/
def lock : SyncState T M C :=
  match (s.mutexes mux).owner with
  | none => s.own mux thread
  | some _ => (s.pushWaiting mux thread).stallThread thread .mutex mux

/-- `SimMutex::lock_async`: the lock is taken in the name of another thread. -/
def lockAsync (threadBy : T) (mux : M) : SyncState T M C :=
  match (s.mutexes mux).owner with
  | none => (s.own mux thread).resumeThread thread threadBy
  | some _ => s.pushWaiting mux thread

/-- The mutex has no owner. -/
@[simps]
def release : SyncState T M C :=
  { s with mutexes := update s.mutexes mux { s.mutexes mux with owner := none } }

/-- The first waiter becomes the owner. -/
@[simps]
def handOver (waiter : T) (rest : List T) : SyncState T M C :=
  { s with
    mutexes := update s.mutexes mux { owner := some waiter, waiting := rest }
    events := s.events ++ [.handedOver mux waiter] }

/-- `SimMutex::unlock`; the assertion asks for the owner. -/
def unlock : Option (SyncState T M C) :=
  if (s.mutexes mux).owner = some thread then
    match (s.mutexes mux).waiting with
    | [] => some (s.release mux)
    | waiter :: rest => some ((s.handOver mux waiter rest).resumeThread waiter thread)
  else none

/-- The waiters of a condition variable change. -/
@[simps]
def setCond (waiting : List (T × M)) : SyncState T M C :=
  { s with conds := update s.conds cond waiting }

/-- `SimCond::wait`, up to the point where the thread waits. -/
def condWait (mux : M) : Option (SyncState T M C) :=
  (s.unlock thread mux).map fun s =>
    (s.setCond cond (s.conds cond ++ [(thread, mux)])).stallThread thread .cond mux

/-- `SimCond::signal`. -/
def signal : SyncState T M C :=
  match s.conds cond with
  | [] => s
  | (woken, mux) :: rest => (s.setCond cond rest).lockAsync woken thread mux

/-- The loop of `SimCond::broadcast`, for at most so many rounds. -/
def broadcastLoop (thread : T) (cond : C) : ℕ → SyncState T M C → SyncState T M C
  | 0, s => s
  | rounds + 1, s =>
    match s.conds cond with
    | [] => s
    | _ :: _ => broadcastLoop thread cond rounds (s.signal thread cond)

/-- `SimCond::broadcast`. -/
def broadcast : SyncState T M C :=
  broadcastLoop thread cond (s.conds cond).length s

/-- `SyncServer::mutexLock`. -/
def mutexLock : SyncState T M C :=
  if tryLock && (s.mutexes mux).isLocked thread then s else s.lock thread mux

/-- Is the lock granted or waited for? -/
def mutexLockAnswer : Bool :=
  !(tryLock && (s.mutexes mux).isLocked thread)

end SyncState

/-- The calls of the threads; `ret` is a return. -/
inductive SyncCall (T M C : Type) where
  | lock (thread : T) (mux : M) (tryLock : Bool)
  | unlock (thread : T) (mux : M)
  | wait (thread : T) (cond : C) (mux : M)
  | signal (thread : T) (cond : C)
  | broadcast (thread : T) (cond : C)
  | ret (thread : T)
  deriving DecidableEq, Repr

namespace SyncState

variable {T M C : Type} [DecidableEq T] [DecidableEq M] [DecidableEq C]

variable (s : SyncState T M C) (thread : T)

/-- The thread runs, and is in no call. -/
def CanCall : Prop :=
  s.stalled thread = none ∧ s.pending thread = none
  deriving Decidable

/-- The thread returns from `lock` or `wait`. -/
@[simps]
def returned : SyncState T M C :=
  { s with pending := update s.pending thread none }

/-- Runs of calls. A call is made by a thread that is not inside another one; a thread that was
resumed returns from its call in a step of its own, so that other threads may come before. -/
def machine (T M C : Type) [DecidableEq T] [DecidableEq M] [DecidableEq C] :
    Machine (SyncState T M C) (SyncCall T M C) where
  init := {}
  step s
    | .lock thread mux tryLock =>
      if s.CanCall thread ∧ (s.mutexes mux).owner ≠ some thread then
        some (s.mutexLock thread mux tryLock)
      else none
    | .unlock thread mux => if s.CanCall thread then s.unlock thread mux else none
    | .wait thread cond mux => if s.CanCall thread then s.condWait thread cond mux else none
    | .signal thread cond => if s.CanCall thread then some (s.signal thread cond) else none
    | .broadcast thread cond => if s.CanCall thread then some (s.broadcast thread cond) else none
    | .ret thread =>
      if s.stalled thread = none ∧ s.pending thread ≠ none then
        some (s.returned thread)
      else none

/-- A try-lock returns at once: nobody is stalled or queued, and it is granted, with the answer that
says so, exactly if the mutex had no owner. -/
structure TryLockReturns (s : SyncState T M C) (thread : T) (mux : M) : Prop where
  stalled : ∀ t, (s.mutexLock thread mux true).stalled t = s.stalled t
  waiting : ∀ m, ((s.mutexLock thread mux true).mutexes m).waiting = (s.mutexes m).waiting
  answer : s.mutexLockAnswer thread mux true = true ↔ (s.mutexes mux).owner = none
  granted : ((s.mutexLock thread mux true).mutexes mux).owner = some thread ↔
    (s.mutexes mux).owner = none

omit [DecidableEq C] in
/-- **A try-lock returns at once except for the owner**, for whom `isLocked` is false and `lock` queues. -/
theorem tryLock_returns_iff (mux : M) :
    s.TryLockReturns thread mux ↔ (s.mutexes mux).owner ≠ some thread := by
  constructor
  · intro h howner
    have hwaiting := congrArg List.length (h.waiting mux)
    simp [mutexLock, SimMutex.isLocked, lock, howner] at hwaiting
  · intro hother
    cases howner : (s.mutexes mux).owner with
    | none =>
      refine ⟨fun t => ?_, fun m => ?_, ?_, ?_⟩
      · simp [mutexLock, SimMutex.isLocked, lock, howner]
      · by_cases hm : m = mux
        · subst hm
          simp [mutexLock, SimMutex.isLocked, lock, howner]
        · simp [mutexLock, SimMutex.isLocked, lock, howner, hm]
      · simp [mutexLockAnswer, SimMutex.isLocked, howner]
      · simp [mutexLock, SimMutex.isLocked, lock, howner]
    | some owner =>
      have hne : owner ≠ thread := fun heq => hother (by rw [howner, heq])
      constructor <;> simp [mutexLock, mutexLockAnswer, SimMutex.isLocked, howner, hne]

/-- Thread 0 owns the mutex: a try-lock of thread 1 returns. -/
theorem tryLock_of_other_thread : ∃ s, (machine ℕ ℕ ℕ).Reachable s ∧ s.TryLockReturns 1 0 := by
  obtain ⟨s, hs, howner⟩ := Machine.exists_reachable (m := machine ℕ ℕ ℕ)
    (P := fun s => (s.mutexes 0).owner = some 0) [.lock 0 0 false] (by decide)
  refine ⟨s, hs, (tryLock_returns_iff s 1 0).mpr ?_⟩
  simp [howner]

/-- **The owner's own try-lock stalls it**: it waits for the mutex it has. -/
theorem tryLock_of_owner_stalls : ∃ s, (machine ℕ ℕ ℕ).Reachable s ∧ s.CanCall 0 ∧
    (s.mutexLock 0 0 true).stalled 0 = some .mutex ∧
    ((s.mutexLock 0 0 true).mutexes 0).waiting = [0] :=
  Machine.exists_reachable [.lock 0 0 false] (by decide)

end SyncState

end MultiCoreMemory
