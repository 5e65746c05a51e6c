import Mathlib.Algebra.BigOperators.Group.List.Basic
import Mathlib.Algebra.GroupWithZero.Nat
import Mathlib.Data.List.Sort
import MultiCoreMemory.Lib.Machine

/-!
# The windowed M/G/1 queue model (`performance_model/queue_model_windowed_mg1.cc`)

The window is a multimap from the times of the requests to their service times; what it loses is taken
out of the sums.  Times are 64-bit counts of femtoseconds, and so is the bound below which requests are
removed: it is very large where it should be negative.

The delay, which is computed in floating point from the sums, is left out.
-/

namespace MultiCoreMemory

open List

abbrev QueueRequest := UInt64 × UInt64

structure ServiceSums where
  numArrivals : UInt64 := 0
  serviceTimeSum : UInt64 := 0
  serviceTimeSum2 : UInt64 := 0
  deriving DecidableEq

def getPS (time : UInt64) : UInt64 := time / 1000

namespace ServiceSums

variable (s : ServiceSums) (service : UInt64)

def add : ServiceSums :=
  ⟨s.numArrivals + 1, s.serviceTimeSum + getPS service, s.serviceTimeSum2 + getPS service * getPS service⟩

def remove : ServiceSums :=
  ⟨s.numArrivals - 1, s.serviceTimeSum - getPS service, s.serviceTimeSum2 - getPS service * getPS service⟩

/-- Number, sum and sum of squares of the service times of some requests. -/
def ofWindow (window : List QueueRequest) : ServiceSums where
  numArrivals := .ofNat window.length
  serviceTimeSum := .ofNat (window.map fun r => r.2.toNat / 1000).sum
  serviceTimeSum2 := .ofNat (window.map fun r => (r.2.toNat / 1000) ^ 2).sum

theorem add_ofWindow (r : QueueRequest) (window : List QueueRequest) :
    (ofWindow window).add r.2 = ofWindow (r :: window) := by
  have hps : getPS r.2 = .ofNat (r.2.toNat / 1000) := UInt64.toNat_inj.mp (by
    have := r.2.toNat_lt
    simp [getPS]
    omega)
  simp [add, ofWindow, hps, UInt64.ofNat_add, UInt64.ofNat_mul, pow_two, UInt64.add_comm]

theorem remove_add : (s.add service).remove service = s := by
  simp [add, remove]

theorem ofWindow_perm {window window' : List QueueRequest} (h : window.Perm window') :
    ofWindow window = ofWindow window' := by
  simp [ofWindow, h.length_eq, (h.map _).sum_eq]

end ServiceSums

/-- `QueueModelWindowedMG1`, with the requests made and the largest bound used; a bound below 0 is 0. -/
structure QueueModelWindowedMG1 where
  window : List QueueRequest := []
  sums : ServiceSums := {}
  requests : List QueueRequest := []
  bound : ℕ := 0

namespace QueueModelWindowedMG1

def removeItems (earliestTime : UInt64) : List QueueRequest → ServiceSums → List QueueRequest × ServiceSums
  | [], sums => ([], sums)
  | r :: window, sums =>
    if r.1 < earliestTime then removeItems earliestTime window (sums.remove r.2) else (r :: window, sums)

variable (windowSize : UInt64) (s : QueueModelWindowedMG1) (globalTime : UInt64)

def removeBefore (pktTime : UInt64) : UInt64 :=
  if globalTime - windowSize < pktTime - 10 * windowSize then pktTime - 10 * windowSize
  else globalTime - windowSize

/-- `computeQueueDelay` at a global time; `addItem` puts a request after those of the same time. -/
def computeQueueDelay (r : QueueRequest) : QueueModelWindowedMG1 :=
  let (window, sums) := removeItems (removeBefore windowSize globalTime r.1) s.window s.sums
  { window := window.orderedInsert (fun a b => a.1 < b.1) r
    sums := sums.add r.2
    requests := r :: s.requests
    bound := max s.bound (max (globalTime.toNat - windowSize.toNat) (r.1.toNat - 10 * windowSize.toNat)) }

def machine : Machine QueueModelWindowedMG1 (UInt64 × QueueRequest) where
  init := {}
  step := fun s call => some (s.computeQueueDelay windowSize call.1 call.2)

/-- No bound is negative, and the request is not older than one. -/
def InWindow (call : UInt64 × QueueRequest) : Prop :=
  windowSize ≤ call.1 ∧ 10 * windowSize.toNat ≤ call.2.1.toNat ∧
    max s.bound (call.1.toNat - windowSize.toNat) ≤ call.2.1.toNat
  deriving Decidable

/-- The window is in order and has what it should, and the sums are over it. -/
structure Recent (s : QueueModelWindowedMG1) : Prop where
  sorted : s.window.Pairwise fun a b => a.1 ≤ b.1
  holds : s.window.Perm (s.requests.filter fun r => s.bound ≤ r.1.toNat)
  sums : s.sums = .ofWindow s.window

variable {s : QueueModelWindowedMG1} {windowSize : UInt64}

theorem removeItems_eq (earliestTime : UInt64) {window : List QueueRequest}
    (h : window.Pairwise fun a b => a.1 ≤ b.1) :
    removeItems earliestTime window (.ofWindow window) =
      (window.filter fun r => earliestTime ≤ r.1, .ofWindow (window.filter fun r => earliestTime ≤ r.1)) := by
  induction window with
  | nil => rfl
  | cons r window ih =>
    obtain ⟨hr, hrest⟩ := pairwise_cons.mp h
    unfold removeItems
    split
    · rename_i hold
      rw [← ServiceSums.add_ofWindow, ServiceSums.remove_add, ih hrest, filter_cons_of_neg]
      simpa using hold
    · rename_i hnew
      have hall : ∀ r' ∈ r :: window, earliestTime ≤ r'.1 := by
        rw [UInt64.not_lt] at hnew
        exact forall_mem_cons.mpr ⟨hnew, fun r' hr' => UInt64.le_trans hnew (hr r' hr')⟩
      rw [filter_eq_self.mpr (by simpa using hall)]

theorem pairwise_orderedInsert (r : QueueRequest) {window : List QueueRequest}
    (h : window.Pairwise fun a b => a.1 ≤ b.1) :
    (window.orderedInsert (fun a b => a.1 < b.1) r).Pairwise fun a b => a.1 ≤ b.1 := by
  induction window with
  | nil => simp
  | cons a window ih =>
    obtain ⟨ha, hrest⟩ := pairwise_cons.mp h
    rw [orderedInsert_cons]
    split
    · rename_i hlt
      refine pairwise_cons.mpr ⟨?_, h⟩
      exact forall_mem_cons.mpr ⟨UInt64.le_of_lt hlt,
        fun b hb => UInt64.le_trans (UInt64.le_of_lt hlt) (ha b hb)⟩
    · rename_i hge
      refine pairwise_cons.mpr ⟨fun b hb => ?_, ih hrest⟩
      rcases (mem_orderedInsert _).mp hb with rfl | hb
      · exact UInt64.not_lt.mp hge
      · exact ha b hb

/-- Nothing wraps in the bound of such a call. -/
theorem InWindow.toNat_removeBefore {globalTime : UInt64} {r : QueueRequest}
    (h : InWindow windowSize s (globalTime, r)) :
    (removeBefore windowSize globalTime r.1).toNat =
      max (globalTime.toNat - windowSize.toNat) (r.1.toNat - 10 * windowSize.toNat) := by
  obtain ⟨hglobal, hpkt, -⟩ := h
  have hten : (10 * windowSize).toNat = 10 * windowSize.toNat := by
    have := r.1.toNat_lt
    simp at hpkt ⊢
    omega
  have hle : 10 * windowSize ≤ r.1 := by
    rw [UInt64.le_iff_toNat_le, hten]
    exact hpkt
  have hsub := UInt64.toNat_sub_of_le globalTime windowSize hglobal
  have hsub10 := UInt64.toNat_sub_of_le r.1 _ hle
  unfold removeBefore
  split <;> rename_i hlt <;> rw [UInt64.lt_iff_toNat_lt] at hlt <;> omega

theorem Recent.computeQueueDelay (h : s.Recent) {globalTime : UInt64} {r : QueueRequest}
    (hin : InWindow windowSize s (globalTime, r)) : (s.computeQueueDelay windowSize globalTime r).Recent := by
  obtain ⟨-, -, hbound⟩ := id hin
  have hearliest := hin.toNat_removeBefore
  have hremoved := removeItems_eq (removeBefore windowSize globalTime r.1) h.sorted
  rw [← h.sums] at hremoved
  unfold QueueModelWindowedMG1.computeQueueDelay
  rw [hremoved]
  generalize removeBefore windowSize globalTime r.1 = earliest at hearliest
  have hinsert := perm_orderedInsert (fun a b => a.1 < b.1) r (s.window.filter fun r => earliest ≤ r.1)
  refine ⟨pairwise_orderedInsert r (h.sorted.filter _), ?_, ?_⟩
  · have hkept : (s.requests.filter fun r => max s.bound earliest.toNat ≤ r.1.toNat) =
        (s.requests.filter fun r => s.bound ≤ r.1.toNat).filter fun r => earliest ≤ r.1 := by
      rw [List.filter_filter]
      congr 1 with r'
      simp [UInt64.le_iff_toNat_le, Bool.and_comm]
    have hnew : max s.bound (max (globalTime.toNat - windowSize.toNat) (r.1.toNat - 10 * windowSize.toNat)) ≤
        r.1.toNat := by
      simp at hbound
      omega
    rw [← hearliest] at hnew ⊢
    rw [filter_cons_of_pos (by simpa using hnew), hkept]
    exact hinsert.trans ((h.holds.filter _).cons r)
  · rw [ServiceSums.ofWindow_perm hinsert, ← ServiceSums.add_ofWindow]

/-- **The window holds exactly the requests since the largest bound, and the sums are over them**, as long
as no bound is negative and no request is older than one. -/
theorem window_holds_recent_requests (windowSize : UInt64) {s : QueueModelWindowedMG1}
    (h : (machine windowSize).ReachableWhen (InWindow windowSize) s) :
    s.window.Perm (s.requests.filter fun r => s.bound ≤ r.1.toNat) ∧ s.sums = .ofWindow s.window := by
  have hinv : s.Recent := by
    refine h.invariant (P := Recent) ⟨.nil, .nil, rfl⟩ ?_
    rintro s call s' hs hin ⟨⟩
    exact hs.computeQueueDelay hin
  exact ⟨hinv.holds, hinv.sums⟩

/-- The request at 100 ns leaves a window of 10 ns when the next call is made at 115 ns. -/
theorem first_request_leaves :
    ∃ s, (machine 10000000).ReachableWhen (InWindow 10000000) s ∧ s.window = [(120000000, 3000)] ∧
      s.requests.length = 2 ∧ s.window.Perm (s.requests.filter fun r => s.bound ≤ r.1.toNat) ∧
      s.sums = .ofWindow s.window := by
  obtain ⟨s, hs, hwindow, hlen⟩ := (machine 10000000).exists_reachableWhen
    (fun s call => decide (InWindow 10000000 s call)) (fun _ _ => of_decide_eq_true)
    (P := fun s => s.window = [(120000000, 3000)] ∧ s.requests.length = 2)
    [(100000000, 100000000, 2000), (115000000, 120000000, 3000)] (by decide) (by decide)
  exact ⟨s, hs, hwindow, hlen, window_holds_recent_requests _ hs⟩

/-- **Early requests are lost and late ones kept**: at time 0, before the window is full, the second request
removes the first though no bound is above 0; at 200 ns a request of 100 ns, older than the bound, goes in. -/
theorem window_loses_and_keeps :
    (∃ s, (machine 10000000).Reachable s ∧ s.bound = 0 ∧ s.requests = [(6000000, 3000), (5000000, 2000)] ∧
      s.window = [(6000000, 3000)] ∧ s.sums.numArrivals = 1) ∧
    ∃ s, (machine 10000000).Reachable s ∧ s.bound = 190000000 ∧ s.window = [(100000000, 2000)] ∧
      s.sums.numArrivals = 1 :=
  ⟨(machine 10000000).exists_reachable [(0, 5000000, 2000), (0, 6000000, 3000)] (by decide),
    (machine 10000000).exists_reachable [(200000000, 100000000, 2000)] (by decide)⟩

end QueueModelWindowedMG1

end MultiCoreMemory
