import Mathlib.Algebra.Group.Nat.Defs
import Mathlib.Order.Lattice
import MultiCoreMemory.Lib.Machine

/-!
# The history-list queue model (`performance_model/queue_model_history_list.cc`)

A list of the times that are free.  A request is put where it fits, or at the start of the first free
interval after it, whether or not it fits there: what is left of the interval is computed on unsigned
64-bit times.

The delay of the analytical model and the statistics are left out.
-/

namespace MultiCoreMemory

open List

abbrev Interval := UInt64 × UInt64

structure HistoryListParams where
  minProcessingTime : UInt64
  maxFreeIntervalListSize : ℕ
  analyticalModelEnabled : Bool

/-- `QueueModelHistoryList`, with the intervals granted to the requests. -/
structure QueueModelHistoryList where
  freeIntervals : List Interval
  granted : List Interval := []

namespace QueueModelHistoryList

section

variable (p : HistoryListParams) (pktTime processingTime : UInt64)

def keep (i : Interval) (length : UInt64) : List Interval := if p.minProcessingTime ≤ length then [i] else []

def place : List Interval → Option (UInt64 × List Interval)
  | [] => none
  | i :: rest =>
    if i.1 ≤ pktTime ∧ pktTime + processingTime ≤ i.2 then
      some (0, keep p (i.1, pktTime) (pktTime - i.1) ++
        keep p (pktTime + processingTime, i.2) (i.2 - (pktTime + processingTime)) ++ rest)
    else if pktTime < i.1 then
      some (i.1 - pktTime,
        keep p (i.1 + processingTime, i.2) (i.2 - (i.1 + processingTime)) ++ rest)
    else (place rest).map fun r => (r.1, i :: r.2)

variable (s : QueueModelHistoryList)

/-- `computeUsingHistoryList`; the assertions are about the size and about the delay. -/
def computeUsingHistoryList : Option QueueModelHistoryList :=
  if s.freeIntervals.length ≤ p.maxFreeIntervalListSize then
    ((place p pktTime processingTime s.freeIntervals).filter (·.1 ≠ 0xffffffffffffffff)).map fun r =>
      { freeIntervals := if p.maxFreeIntervalListSize < r.2.length then r.2.tail else r.2
        granted := (pktTime + r.1, pktTime + r.1 + processingTime) :: s.granted }
  else none

def usesAnalyticalModel : Bool :=
  p.analyticalModelEnabled && s.freeIntervals.head?.any fun i => pktTime + processingTime ≤ i.1

/-- `computeQueueDelay`; the assertion is that the free list is not empty. -/
def computeQueueDelay : Option QueueModelHistoryList :=
  if s.freeIntervals = [] then none
  else if s.usesAnalyticalModel p pktTime processingTime then some s
  else s.computeUsingHistoryList p pktTime processingTime

end

def machine (p : HistoryListParams) : Machine QueueModelHistoryList (UInt64 × UInt64) where
  init := { freeIntervals := [(0, 0x8000000000000000)] }
  step := fun s r => s.computeQueueDelay p r.1 r.2

def stops (r : UInt64 × UInt64) (i : Interval) : Bool := i.1 ≤ r.1 ∧ r.1 + r.2 ≤ i.2 ∨ r.1 < i.1

/-- Both times are below `2 ^ 62`, and the interval that the request gets is long enough. -/
def Fits (p : HistoryListParams) (s : QueueModelHistoryList) (r : UInt64 × UInt64) : Prop :=
  (r.1.toNat < 2 ^ 62 ∧ r.2.toNat < 2 ^ 62) ∧ (s.usesAnalyticalModel p r.1 r.2 = false →
    ∀ i ∈ s.freeIntervals.find? (stops r), r.1 < i.1 → i.1.toNat + r.2.toNat ≤ i.2.toNat)

-- for all intervals in the option, and not for all intervals there are
instance (p : HistoryListParams) (s : QueueModelHistoryList) (r : UInt64 × UInt64) : Decidable (Fits p s r) :=
  @instDecidableAnd _ _ inferInstance
    (@instDecidableForall _ _ inferInstance (Option.decidableForallMem (s.freeIntervals.find? (stops r))))

structure WellFormed (l : List Interval) : Prop where
  sorted : l.Pairwise fun i j => i.2.toNat ≤ j.1.toNat
  ordered : ∀ i ∈ l, i.1.toNat ≤ i.2.toNat

def Apart (i j : Interval) : Prop := i.2.toNat ≤ j.1.toNat ∨ j.2.toNat ≤ i.1.toNat

def Within (i j : Interval) : Prop := j.1.toNat ≤ i.1.toNat ∧ i.1.toNat ≤ i.2.toNat ∧ i.2.toNat ≤ j.2.toNat

variable {p : HistoryListParams} {pktTime processingTime delay : UInt64} {l l' : List Interval}

/-- What placing a request does: nothing is free that was not, and the granted interval no longer is. -/
structure Placed (l l' : List Interval) (grant : Interval) : Prop where
  wellFormed : WellFormed l'
  within : ∀ i ∈ l', ∃ j ∈ l, Within i j
  apart : ∀ i ∈ l', Apart grant i
  free : ∃ j ∈ l, Within grant j

theorem WellFormed.sublist (h : WellFormed l) (hsub : l'.Sublist l) : WellFormed l' :=
  ⟨h.sorted.sublist hsub, fun i hi => h.ordered i (hsub.subset hi)⟩

theorem keep_sublist (p : HistoryListParams) (i : Interval) (length : UInt64) :
    (keep p i length).Sublist [i] := by
  unfold keep
  split
  · exact .refl _
  · exact nil_sublist _

variable {i grant : Interval} {rest pieces : List Interval}

theorem Placed.of_first (hwf : WellFormed (i :: rest)) (hgrant : Within grant i) (hpieces : WellFormed pieces)
    (hwithin : ∀ j ∈ pieces, Within j i ∧ Apart grant j) (hsub : l'.Sublist pieces) :
    Placed (i :: rest) (l' ++ rest) grant := by
  obtain ⟨hfirst, hrest⟩ := pairwise_cons.mp hwf.sorted
  have hpieces := hpieces.sublist hsub
  refine ⟨⟨pairwise_append.mpr ⟨hpieces.sorted, hrest, ?_⟩, ?_⟩, ?_, ?_, i, mem_cons_self, hgrant⟩
  · intro a ha b hb
    exact (hwithin a (hsub.subset ha)).1.2.2.trans (hfirst b hb)
  · exact forall_mem_append.mpr ⟨hpieces.ordered, fun b hb => hwf.ordered b (mem_cons_of_mem _ hb)⟩
  · refine forall_mem_append.mpr ⟨fun a ha => ⟨i, mem_cons_self, (hwithin a (hsub.subset ha)).1⟩,
      fun b hb => ⟨b, mem_cons_of_mem _ hb, le_rfl, ?_, le_rfl⟩⟩
    exact hwf.ordered b (mem_cons_of_mem _ hb)
  · exact forall_mem_append.mpr ⟨fun a ha => (hwithin a (hsub.subset ha)).2,
      fun b hb => .inl (hgrant.2.2.trans (hfirst b hb))⟩

theorem Placed.cons (hwf : WellFormed (i :: rest)) (h : Placed rest l' grant) :
    Placed (i :: rest) (i :: l') grant := by
  obtain ⟨hfirst, -⟩ := pairwise_cons.mp hwf.sorted
  have hi := hwf.ordered i mem_cons_self
  obtain ⟨j, hj, hgrant⟩ := h.free
  refine ⟨⟨pairwise_cons.mpr ⟨fun b hb => ?_, h.wellFormed.sorted⟩, ?_⟩, ?_, ?_, ?_⟩
  · obtain ⟨j, hj, hwithin⟩ := h.within b hb
    exact (hfirst j hj).trans hwithin.1
  · exact forall_mem_cons.mpr ⟨hi, h.wellFormed.ordered⟩
  · refine forall_mem_cons.mpr ⟨⟨i, mem_cons_self, le_rfl, hi, le_rfl⟩, fun b hb => ?_⟩
    obtain ⟨j, hj, hwithin⟩ := h.within b hb
    exact ⟨j, mem_cons_of_mem _ hj, hwithin⟩
  · exact forall_mem_cons.mpr ⟨.inr ((hfirst j hj).trans hgrant.1), h.apart⟩
  · exact ⟨j, mem_cons_of_mem _ hj, hgrant⟩

theorem place_placed (hwf : WellFormed l) (hend : ∀ i ∈ l, i.2.toNat ≤ 2 ^ 63) (hpkt : pktTime.toNat < 2 ^ 62)
    (hproc : processingTime.toNat < 2 ^ 62)
    (hfits : ∀ i ∈ l.find? (stops (pktTime, processingTime)), pktTime < i.1 →
      i.1.toNat + processingTime.toNat ≤ i.2.toNat)
    (h : place p pktTime processingTime l = some (delay, l')) :
    Placed l l' (pktTime + delay, pktTime + delay + processingTime) := by
  induction l generalizing l' with
  | nil => cases h
  | cons i rest ih =>
    have hi := hend i mem_cons_self
    unfold place at h
    split at h
    · rename_i hin
      cases h
      rw [UInt64.le_iff_toNat_le, UInt64.le_iff_toNat_le] at hin
      have hadd : (pktTime + processingTime).toNat = pktTime.toNat + processingTime.toNat := by
        rw [UInt64.toNat_add]
        omega
      refine Placed.of_first hwf ?_ ?_ ?_ ((keep_sublist ..).append (keep_sublist ..))
      · simp [Within]
        omega
      · constructor <;> simp <;> omega
      · simp [Within, Apart]
        omega
    · rename_i hnot
      split at h
      · rename_i hbefore
        cases h
        have hlong := hfits i (by simp [stops, hbefore]) hbefore
        have hstart : pktTime + (i.1 - pktTime) = i.1 := by
          rw [UInt64.add_comm, UInt64.sub_add_cancel]
        have hadd : (i.1 + processingTime).toNat = i.1.toNat + processingTime.toNat := by
          rw [UInt64.toNat_add]
          omega
        rw [hstart]
        refine Placed.of_first hwf ?_ ?_ ?_ (keep_sublist ..)
        · simp [Within]
          omega
        · constructor <;> simp
          omega
        · simp [Within, Apart]
          omega
      · rename_i hafter
        obtain ⟨⟨delay', rest'⟩, hplace, heq⟩ := Option.map_eq_some_iff.mp h
        cases heq
        have hskip : stops (pktTime, processingTime) i = false := by simp [stops, hnot, hafter]
        rw [find?_cons_of_neg (by simp [hskip])] at hfits
        obtain ⟨hsorted, hordered⟩ := hwf
        exact .cons ⟨hsorted, hordered⟩ (ih ⟨hsorted.tail, fun j hj => hordered j (mem_cons_of_mem _ hj)⟩
          (fun j hj => hend j (mem_cons_of_mem _ hj)) hfits hplace)

structure Consistent (s : QueueModelHistoryList) : Prop where
  wellFormed : WellFormed s.freeIntervals
  bounded : ∀ i ∈ s.freeIntervals, i.2.toNat ≤ 2 ^ 63
  apart : ∀ grant ∈ s.granted, ∀ i ∈ s.freeIntervals, Apart grant i

theorem Consistent.step {s s' : QueueModelHistoryList} (h : s.Consistent) {r : UInt64 × UInt64}
    (hfits : Fits p s r) (hstep : s.computeQueueDelay p r.1 r.2 = some s') : s'.Consistent := by
  unfold computeQueueDelay at hstep
  split at hstep
  · cases hstep
  split at hstep
  · cases hstep
    exact h
  rename_i husesNot
  unfold computeUsingHistoryList at hstep
  split at hstep
  · obtain ⟨⟨delay, l'⟩, hfilter, rfl⟩ := Option.map_eq_some_iff.mp hstep
    have hplace := (Option.filter_eq_some_iff.mp hfilter).1
    have hplaced := place_placed h.wellFormed h.bounded hfits.1.1 hfits.1.2
      (hfits.2 (by simpa using husesNot)) hplace
    -- the oldest interval may be dropped
    have hsub : (if p.maxFreeIntervalListSize < l'.length then l'.tail else l').Sublist l' := by
      split
      · exact tail_sublist l'
      · exact .refl l'
    refine ⟨hplaced.wellFormed.sublist hsub, fun i hi => ?_, forall_mem_cons.mpr ⟨?_, ?_⟩⟩
    · obtain ⟨j, hj, hwithin⟩ := hplaced.within i (hsub.subset hi)
      exact hwithin.2.2.trans (h.bounded j hj)
    · exact fun i hi => hplaced.apart i (hsub.subset hi)
    · intro grant hgrant i hi
      obtain ⟨j, hj, hwithin⟩ := hplaced.within i (hsub.subset hi)
      exact (h.apart grant hgrant j hj).imp (·.trans hwithin.1) hwithin.2.2.trans
  · cases hstep

/-- **The free list is well formed and has nothing of what was granted**, as long as every request fits in
the interval that it gets. -/
theorem free_list_well_formed (p : HistoryListParams) {s : QueueModelHistoryList}
    (h : (machine p).ReachableWhen (Fits p) s) :
    WellFormed s.freeIntervals ∧ ∀ grant ∈ s.granted, ∀ i ∈ s.freeIntervals, Apart grant i := by
  have hinv : s.Consistent := by
    refine h.invariant (P := Consistent) ?_ fun s r s' hs hfits hstep => hs.step hfits hstep
    refine ⟨⟨pairwise_singleton .., ?_⟩, ?_, ?_⟩ <;> simp [machine]
  exact ⟨hinv.wellFormed, hinv.apart⟩

/-- A third request comes before the second of three free intervals and gets its start. -/
theorem third_request_fits_in_gap : ∃ s, (machine ⟨1, 100, false⟩).ReachableWhen (Fits ⟨1, 100, false⟩) s ∧
    s.freeIntervals = [(0, 10), (18, 20), (25, 0x8000000000000000)] ∧
    s.granted = [(15, 18), (20, 25), (10, 15)] ∧ WellFormed s.freeIntervals := by
  obtain ⟨s, hs, hfree, hgranted⟩ := (machine ⟨1, 100, false⟩).exists_reachableWhen
    (fun s r => decide (Fits ⟨1, 100, false⟩ s r)) (fun _ _ => of_decide_eq_true)
    (P := fun s => s.freeIntervals = [(0, 10), (18, 20), (25, 0x8000000000000000)] ∧
      s.granted = [(15, 18), (20, 25), (10, 15)])
    [(10, 5), (20, 5), (12, 3)] (by decide +kernel) (by decide +kernel)
  exact ⟨s, hs, hfree, hgranted, (free_list_well_formed _ hs).1⟩

/-- **A request that does not fit leaves an interval that ends before it begins**: a third one, for 8 from
12 on, is put at 15, where only 5 are free. -/
theorem request_too_long_breaks_list : ∃ s, (machine ⟨1, 100, false⟩).Reachable s ∧
    s.freeIntervals = [(0, 10), (23, 20), (25, 0x8000000000000000)] ∧
    s.granted = [(15, 23), (20, 25), (10, 15)] :=
  (machine ⟨1, 100, false⟩).exists_reachable [(10, 5), (20, 5), (12, 8)] (by decide)

end QueueModelHistoryList

end MultiCoreMemory
