import Mathlib.Algebra.Group.Nat.Defs
import MultiCoreMemory.Lib.UnorderedMap

/-!
# Futexes and their time-outs (`system/syscall_server.cc`)

A futex is a queue of waiters, each with a bitset and a deadline.  Times are 64-bit counts of
femtoseconds; an address is the physical one.

`FUTEX_WAKE_OP`, `FUTEX_CMP_REQUEUE` and the cost of a wake-up are left out.
-/

namespace MultiCoreMemory

open List

structure Waiter where
  threadId : ℕ
  mask : BitVec 32
  timeout : UInt64
  deriving DecidableEq

def maxTime : UInt64 := 0xffffffffffffffff

def matchAny : BitVec 32 := 0xffffffff

namespace SimFutex

def isMatch (mask : BitVec 32) (w : Waiter) : Bool := mask &&& w.mask ≠ 0

/-- `dequeueWaiter`: the waiter that is resumed, and the queue without it. -/
def dequeueWaiter (mask : BitVec 32) (waiting : List Waiter) : Option (Waiter × List Waiter) :=
  (waiting.find? (isMatch mask)).map fun w => (w, waiting.eraseP (isMatch mask))

def wakeTimedOut (time : UInt64) (waiting : List Waiter) : Option (Waiter × List Waiter) :=
  (waiting.find? (·.timeout ≤ time)).map fun w => (w, waiting.eraseP (·.timeout ≤ time))

/-- `SimFutex::getNextTimeout`, and the loop over the sleeping threads. -/
def getNextTimeout (waiting : List Waiter) : UInt64 :=
  waiting.foldl (fun next w => if w.timeout < maxTime then w.timeout else next) maxTime

/-- The loop of `futexWake`: the waiters that are resumed, the queue, and `num_procs_woken_up`. -/
def wakeLoop (mask : BitVec 32) : ℕ → List Waiter → ℕ → List Waiter × List Waiter × ℕ
  | 0, waiting, woken => ([], waiting, woken)
  | n + 1, waiting, woken =>
    match dequeueWaiter mask waiting with
    | none => ([], waiting, woken)
    | some (w, waiting) =>
      let r := wakeLoop mask n waiting (woken + 1)
      (w :: r.1, r.2)

end SimFutex

structure Timespec where
  tvSec : UInt64
  tvNsec : UInt64

def Timespec.fs (t : Timespec) : ℕ := t.tvSec.toNat * 10 ^ 15 + t.tvNsec.toNat * 10 ^ 6

inductive FutexCmd where
  | WAIT
  | WAIT_BITSET
  | WAKE
  | WAKE_BITSET
  deriving DecidableEq

structure FutexArgs where
  uaddr : ℕ
  cmd : FutexCmd
  val : ℤ
  timeout : Option Timespec := none
  val3 : BitVec 32 := 0

inductive FutexResult where
  | wouldBlock
  | stalled
  | woken (resumed : List Waiter) (numProcsWokenUp : ℕ)
  deriving DecidableEq

structure SyscallServer where
  sleeping : List Waiter := []
  futexes : UnorderedMap ℕ (List Waiter) := ∅

namespace SyscallServer

open SimFutex

def sec (s : UInt64) : UInt64 := s * 1000000000000000

def ns (n : UInt64) : UInt64 := n * 1000000

section

variable (s : SyscallServer) (emuTimeStart : UInt64) (threadId : ℕ) (args : FutexArgs) (actVal : ℤ)
  (currTime : UInt64)

def waiting (uaddr : ℕ) : List Waiter := (s.futexes.lookup uaddr).getD []

def setWaiting (uaddr : ℕ) (waiting : List Waiter) : SyscallServer :=
  { s with futexes := s.futexes.insert uaddr waiting }

def handleSleepCall (wakeTime : UInt64) : SyscallServer :=
  { s with sleeping := s.sleeping ++ [⟨threadId, 0, wakeTime⟩] }

/-- The first part of `handleFutexCall`: the deadline of a waiter. -/
def timeoutTime : UInt64 :=
  match args.timeout with
  | none => maxTime
  | some t =>
    let timeoutVal := sec (t.tvSec - emuTimeStart) + ns t.tvNsec
    if args.cmd = .WAIT_BITSET then timeoutVal else currTime + timeoutVal

def futexWait (mask : BitVec 32) (timeoutTime : UInt64) : SyscallServer × FutexResult :=
  if args.val ≠ actVal then (s.setWaiting args.uaddr (s.waiting args.uaddr), .wouldBlock)
  else (s.setWaiting args.uaddr (s.waiting args.uaddr ++ [⟨threadId, mask, timeoutTime⟩]), .stalled)

def futexWake (mask : BitVec 32) : SyscallServer × FutexResult :=
  let r := wakeLoop mask args.val.toNat (s.waiting args.uaddr) 0
  (s.setWaiting args.uaddr r.2.1, .woken r.1 r.2.2)

/-- `handleFutexCall`; `actVal` is what is read at `uaddr`. -/
def handleFutexCall : SyscallServer × FutexResult :=
  match args.cmd with
  | .WAIT | .WAIT_BITSET =>
    s.futexWait threadId args actVal (if args.cmd = .WAIT_BITSET then args.val3 else matchAny)
      (timeoutTime emuTimeStart args currTime)
  | .WAKE | .WAKE_BITSET => s.futexWake args (if args.cmd = .WAIT_BITSET then args.val3 else matchAny)

def getNextTimeout : UInt64 :=
  s.futexes.values.foldl (fun next waiting =>
    let t := SimFutex.getNextTimeout waiting
    if t < next then t else next) (SimFutex.getNextTimeout s.sleeping)

end

/-! ## Wake-ups -/

/-- The first `n` elements with a property, and the others in their order. -/
def takeFirst {α : Type*} (p : α → Bool) : ℕ → List α → List α × List α
  | 0, l => ([], l)
  | _, [] => ([], [])
  | n + 1, a :: l =>
    if p a then ((a :: (takeFirst p n l).1), (takeFirst p n l).2)
    else ((takeFirst p (n + 1) l).1, a :: (takeFirst p (n + 1) l).2)

theorem takeFirst_fst {α : Type*} (p : α → Bool) (n : ℕ) (l : List α) :
    (takeFirst p n l).1 = (l.filter p).take n := by
  induction l generalizing n with
  | nil => cases n <;> simp [takeFirst]
  | cons a l ih => cases n <;> by_cases ha : p a = true <;> simp [takeFirst, ha, ih]

theorem takeFirst_of_forall {α : Type*} {p : α → Bool} {n : ℕ} {l : List α}
    (h : ∀ a ∈ l.take n, p a = true) : takeFirst p n l = (l.take n, l.drop n) := by
  induction l generalizing n with
  | nil => cases n <;> simp [takeFirst]
  | cons a l ih =>
    cases n with
    | zero => simp [takeFirst]
    | succ n =>
      rw [take_succ_cons, forall_mem_cons] at h
      simp [takeFirst, h.1, ih h.2]

variable (s : SyscallServer) (emuTimeStart : UInt64) (waiting : List Waiter) (threadId : ℕ)
  (args : FutexArgs) (actVal : ℤ) (currTime : UInt64)

def wakesFirst (p : Waiter → Bool) : SyscallServer × FutexResult :=
  let r := takeFirst p args.val.toNat (s.waiting args.uaddr)
  (s.setWaiting args.uaddr r.2, .woken r.1 r.1.length)

theorem wakeLoop_matchAny {waiting : List Waiter} (h : ∀ w ∈ waiting, w.mask ≠ 0) (n woken : ℕ) :
    wakeLoop matchAny n waiting woken =
      (waiting.take n, waiting.drop n, woken + (waiting.take n).length) := by
  induction waiting generalizing n woken with
  | nil => cases n <;> simp [wakeLoop, dequeueWaiter]
  | cons w waiting ih =>
    cases n with
    | zero => simp [wakeLoop]
    | succ n =>
      obtain ⟨hw, hrest⟩ := forall_mem_cons.mp h
      have hmatch : isMatch matchAny w = true := by
        have hand : matchAny &&& w.mask = w.mask := BitVec.allOnes_and
        simpa [isMatch, hand] using hw
      simp [wakeLoop, dequeueWaiter, hmatch, ih hrest]
      omega

/-- **`FUTEX_WAKE_BITSET` wakes by its bitset exactly when that is of no importance**: the first waiters
all intersect it.  `FUTEX_WAKE` wakes the first ones. -/
theorem futex_wake_bitset_iff (hmasks : ∀ w ∈ s.waiting args.uaddr, w.mask ≠ 0) :
    (args.cmd = .WAKE → s.handleFutexCall emuTimeStart threadId args actVal currTime =
      s.wakesFirst args fun _ => true) ∧
    (args.cmd = .WAKE_BITSET → (s.handleFutexCall emuTimeStart threadId args actVal currTime =
      s.wakesFirst args (isMatch args.val3) ↔
        ∀ w ∈ (s.waiting args.uaddr).take args.val.toNat, isMatch args.val3 w = true)) := by
  have hcall : args.cmd = .WAKE ∨ args.cmd = .WAKE_BITSET →
      s.handleFutexCall emuTimeStart threadId args actVal currTime =
        (s.setWaiting args.uaddr ((s.waiting args.uaddr).drop args.val.toNat),
          .woken ((s.waiting args.uaddr).take args.val.toNat)
            ((s.waiting args.uaddr).take args.val.toNat).length) := by
    rintro (hcmd | hcmd) <;> simp [handleFutexCall, hcmd, futexWake, wakeLoop_matchAny hmasks]
  constructor
  · intro hcmd
    rw [hcall (.inl hcmd), wakesFirst, takeFirst_of_forall fun _ _ => rfl]
  · intro hcmd
    rw [hcall (.inr hcmd), wakesFirst]
    constructor
    · intro heq w hw
      have hwoken := (FutexResult.woken.inj (congrArg Prod.snd heq)).1
      rw [hwoken, takeFirst_fst] at hw
      exact (mem_filter.mp (mem_of_mem_take hw)).2
    · intro hall
      rw [takeFirst_of_forall hall]

def twoWaiters : SyscallServer :=
  let first := ({} : SyscallServer).handleFutexCall 0 1 ⟨64, .WAIT_BITSET, 0, none, 1⟩ 0 0
  (first.1.handleFutexCall 0 2 ⟨64, .WAIT_BITSET, 0, none, 2⟩ 0 0).1

theorem bitset_of_both_wakes_first :
    twoWaiters.handleFutexCall 0 3 ⟨64, .WAKE_BITSET, 1, none, 3⟩ 0 0 =
      twoWaiters.wakesFirst ⟨64, .WAKE_BITSET, 1, none, 3⟩ (isMatch 3) :=
  ((futex_wake_bitset_iff twoWaiters 0 3 ⟨64, .WAKE_BITSET, 1, none, 3⟩ 0 0 (by decide)).2 rfl).mpr
    (by decide)

/-- The bitset 2 wakes the waiter with the bitset 1. -/
theorem bitset_wakes_other_waiter :
    (twoWaiters.handleFutexCall 0 3 ⟨64, .WAKE_BITSET, 1, none, 2⟩ 0 0).2 = .woken [⟨1, 1, maxTime⟩] 1 ∧
    (twoWaiters.wakesFirst ⟨64, .WAKE_BITSET, 1, none, 2⟩ (isMatch 2)).2 = .woken [⟨2, 2, maxTime⟩] 1 := by
  decide

/-! ## Deadlines -/

theorem toNat_timeoutVal (start : UInt64) (t : Timespec) :
    ((sec (t.tvSec - start) + ns t.tvNsec).toNat + start.toNat * 10 ^ 15) % 2 ^ 64 = t.fs % 2 ^ 64 := by
  have hsec := t.tvSec.toNat_lt
  have hstart := start.toNat_lt
  simp only [sec, ns, Timespec.fs, UInt64.toNat_add, UInt64.toNat_mul, UInt64.toNat_sub,
    UInt64.reduceToNat]
  omega

/-- **A deadline is right exactly when it fits in 64 bits** and, for `FUTEX_WAIT`, the emulated time
starts at 0; and no waiter is timed out before the deadline it is queued with. -/
theorem futex_deadlines {t : Timespec} (ht : args.timeout = some t) :
    (args.val = actVal → args.cmd = .WAIT ∨ args.cmd = .WAIT_BITSET → ∃ mask,
      (s.handleFutexCall emuTimeStart threadId args actVal currTime).1.waiting args.uaddr =
        s.waiting args.uaddr ++ [⟨threadId, mask, timeoutTime emuTimeStart args currTime⟩]) ∧
    (args.cmd = .WAIT_BITSET →
      ((timeoutTime emuTimeStart args currTime).toNat + emuTimeStart.toNat * 10 ^ 15 = t.fs ↔
        emuTimeStart.toNat * 10 ^ 15 ≤ t.fs ∧ t.fs < emuTimeStart.toNat * 10 ^ 15 + 2 ^ 64)) ∧
    (args.cmd = .WAIT →
      ((timeoutTime emuTimeStart args currTime).toNat = currTime.toNat + t.fs ↔
        currTime.toNat + t.fs < 2 ^ 64 ∧ emuTimeStart.toNat * 10 ^ 15 % 2 ^ 64 = 0)) ∧
    ∀ time waiting w rest, wakeTimedOut time waiting = some (w, rest) → w.timeout ≤ time := by
  have hval := toNat_timeoutVal emuTimeStart t
  have hlt := (sec (t.tvSec - emuTimeStart) + ns t.tvNsec).toNat_lt
  refine ⟨?_, ?_, ?_, ?_⟩
  · rintro hval (hcmd | hcmd) <;>
      simp [handleFutexCall, hcmd, futexWait, hval, waiting, setWaiting, AList.lookup_insert]
  · intro hcmd
    simp only [timeoutTime, ht, hcmd, if_true]
    omega
  · intro hcmd
    simp only [timeoutTime, ht, hcmd, reduceCtorEq, if_false]
    rw [UInt64.toNat_add]
    generalize (sec (t.tvSec - emuTimeStart) + ns t.tvNsec).toNat = val at *
    generalize emuTimeStart.toNat * 10 ^ 15 = start at *
    omega
  · intro time waiting w rest h
    obtain ⟨w', hfind, heq⟩ := Option.map_eq_some_iff.mp h
    cases heq
    simpa using find?_some hfind

def waitOneSecond : FutexArgs := { uaddr := 64, cmd := .WAIT, val := 0, timeout := some ⟨1, 0⟩ }

theorem wait_from_start_zero : (timeoutTime 0 waitOneSecond (sec 2)).toNat = 3 * 10 ^ 15 :=
  ((futex_deadlines {} 0 1 waitOneSecond 0 (sec 2) rfl).2.2.1 rfl).mpr (by decide)

/-- The thread is timed out at once. -/
theorem wait_ends_before_deadline : ∃ w,
    (({} : SyscallServer).handleFutexCall 1 7 waitOneSecond 0 (sec 2)).1.waiting 64 = [w] ∧
    wakeTimedOut (sec 2) [w] = some (w, []) ∧ w.threadId = 7 :=
  ⟨⟨7, matchAny, sec 2⟩, by decide⟩

/-! ## The next time-out -/

def IsEarliest (deadlines : List UInt64) (t : UInt64) : Prop :=
  (∀ d ∈ deadlines, t ≤ d) ∧ (t = maxTime ∨ t ∈ deadlines)

def queues : List (List Waiter) := s.sleeping :: s.futexes.values

def deadlines : List UInt64 := s.queues.flatten.map (·.timeout)

theorem getNextTimeout_eq : SimFutex.getNextTimeout waiting =
    ((waiting.map (·.timeout)).filter (· < maxTime)).getLastD maxTime := by
  suffices h : ∀ next, waiting.foldl (fun next w => if w.timeout < maxTime then w.timeout else next) next =
      ((waiting.map (·.timeout)).filter (· < maxTime)).getLastD next from h maxTime
  induction waiting with
  | nil => exact fun _ => rfl
  | cons w waiting ih =>
    intro next
    rw [foldl_cons, map_cons, ih, filter_cons]
    split <;> rename_i hw <;> simp only [hw, decide_true, decide_false, if_true, getLastD_cons]
    simp

theorem getNextTimeout_mem :
    SimFutex.getNextTimeout waiting = maxTime ∨
      SimFutex.getNextTimeout waiting ∈ waiting.map (·.timeout) := by
  refine foldlRecOn (motive := fun next => next = maxTime ∨ next ∈ waiting.map (·.timeout)) waiting _
    (.inl rfl) fun next hnext w hw => ?_
  split
  · exact .inr (List.mem_map_of_mem hw)
  · exact hnext

/-- The loop over the futexes ends with the least of the times that it is given. -/
theorem getNextTimeout_least :
    (∃ q ∈ s.queues, s.getNextTimeout = SimFutex.getNextTimeout q) ∧
      ∀ q ∈ s.queues, s.getNextTimeout ≤ SimFutex.getNextTimeout q := by
  unfold getNextTimeout queues
  generalize s.sleeping = first
  induction s.futexes.values generalizing first with
  | nil => simp
  | cons q qs ih =>
    rw [foldl_cons]
    dsimp only
    split
    · rename_i hlt
      obtain ⟨⟨q', hq', heq⟩, hle⟩ := ih q
      refine ⟨⟨q', mem_cons_of_mem _ hq', heq⟩, ?_⟩
      rw [forall_mem_cons]
      exact ⟨UInt64.le_trans (hle q mem_cons_self) (UInt64.le_of_lt hlt), hle⟩
    · rename_i hge
      obtain ⟨⟨q', hq', heq⟩, hle⟩ := ih first
      obtain ⟨hfirst, hrest⟩ := forall_mem_cons.mp hle
      refine ⟨⟨q', ?_, heq⟩, ?_⟩
      · simp only [mem_cons] at hq' ⊢
        tauto
      · simp only [forall_mem_cons]
        exact ⟨hfirst, UInt64.le_trans hfirst (UInt64.not_lt.mp hge), hrest⟩

/-- **The next time-out is the earliest one exactly when that is the last finite one of its queue.** -/
theorem nextTimeout_earliest_iff : IsEarliest s.deadlines s.getNextTimeout ↔
    ∃ q ∈ s.queues,
      IsEarliest s.deadlines (((q.map (·.timeout)).filter (· < maxTime)).getLastD maxTime) := by
  obtain ⟨⟨q, hq, heq⟩, hle⟩ := s.getNextTimeout_least
  simp only [← getNextTimeout_eq]
  constructor
  · intro h
    exact ⟨q, hq, heq ▸ h⟩
  · rintro ⟨q₀, hq₀, hleast, hmem⟩
    have hback : SimFutex.getNextTimeout q₀ ≤ s.getNextTimeout := by
      rw [heq]
      rcases getNextTimeout_mem q with hmax | hin
      · rw [hmax, UInt64.le_iff_toNat_le]
        exact Nat.le_of_lt_succ (UInt64.toNat_lt _)
      · obtain ⟨w, hw, htime⟩ := List.mem_map.mp hin
        rw [← htime]
        exact hleast _ (List.mem_map_of_mem (mem_flatten.mpr ⟨q, hq, hw⟩))
    rw [UInt64.le_antisymm (hle q₀ hq₀) hback]
    exact ⟨hleast, hmem⟩

/-- Two threads sleep until 10 and 20. -/
theorem later_timeout_returned : ∃ s : SyscallServer,
    s = (({} : SyscallServer).handleSleepCall 1 10).handleSleepCall 2 20 ∧ s.getNextTimeout = 20 ∧
      s.deadlines = [10, 20] :=
  ⟨_, rfl, by decide, by decide⟩

end SyscallServer

end MultiCoreMemory
