import Mathlib.Data.UInt
import MultiCoreMemory.Lib.FCFSQueue

/-!
# The contention model (`performance_model/contention_model.cc`)

A number of units, each with the time at which it is free again.  A request takes the first unit that is
free when it starts, or else the one that is free first; a free unit need not be the one that has been
free longest.

The tags and the statistics are left out.
-/

namespace MultiCoreMemory

open FCFSQueue List

/-- `ContentionModel`: when each unit is free again, and the start of the last request.  A time is a
`SubsecondTime`, an unsigned 64-bit number of femtoseconds. -/
structure ContentionModel where
  time : List UInt64
  tLast : UInt64 := 0

namespace ContentionModel

section

variable (s : ContentionModel) (tStart tDelay : UInt64)

/-- `m_num_outstanding`, the number of units. -/
def numOutstanding : ℕ := s.time.length

/-- `m_time[i].first`. -/
def freeAt (i : ℕ) : UInt64 := s.time.getD i 0

/-- "Find first free entry": the loop over the units that are left. -/
def findUnit : List ℕ → ℕ → ℕ
  | [], unit => unit
  | i :: rest, unit =>
    if s.freeAt i ≤ tStart then i
    else if s.freeAt i < s.freeAt unit then findUnit rest i
    else findUnit rest unit

/-- The unit that a request takes. -/
def unit : ℕ := s.findUnit tStart (List.range s.numOutstanding) 0

/-- `getCompletionTime`: the end of the service, and the model after it. -/
def getCompletionTime : UInt64 × ContentionModel :=
  if s.numOutstanding = 0 then (tStart + tDelay, s)
  else if tStart = 0 then (tDelay, s)
  else if tStart < s.tLast then (tStart + tDelay, s)
  else
    let unit := s.unit tStart
    let tBegin := if tStart < s.freeAt unit then s.freeAt unit else tStart
    let tEnd := tBegin + tDelay
    (tEnd, { time := s.time.set unit tEnd, tLast := tStart })

/-- `getStartTime`; the return in its loop is for a unit that is free. -/
def getStartTime : UInt64 :=
  if s.numOutstanding = 0 then tStart
  else if tStart < s.tLast then tStart
  else
    let unit := s.unit tStart
    if tStart < s.freeAt unit then s.freeAt unit else tStart

end

/-- The constructor. -/
def create (numOutstanding : ℕ) : ContentionModel := { time := List.replicate numOutstanding 0 }

/-- For each request, a start and a delay: what `getStartTime` and `getCompletionTime` return. -/
def calls (s : ContentionModel) : List (UInt64 × UInt64) → List (UInt64 × UInt64)
  | [] => []
  | (tStart, tDelay) :: requests =>
    let result := s.getCompletionTime tStart tDelay
    (s.getStartTime tStart, result.1) :: result.2.calls requests

/-- Pairs of times as natural numbers. -/
def exact (l : List (UInt64 × UInt64)) : List (ℕ × ℕ) := l.map fun r => (r.1.toNat, r.2.toNat)

/-- From the last start on, the units show how many requests are unfinished, up to their number. -/
structure Tracks (m : ℕ) (s : ContentionModel) (served : List (ℕ × ℕ)) : Prop where
  length : s.time.length = m
  busy : ∀ t, s.tLast.toNat ≤ t → s.time.countP (t < ·.toNat) = min m (unfinished served t)

variable {m : ℕ} {tStart : UInt64} {s : ContentionModel} {served : List (ℕ × ℕ)}

theorem findUnit_spec (s : ContentionModel) (tStart : UInt64) (rest : List ℕ) (unit : ℕ) :
    s.findUnit tStart rest unit ∈ unit :: rest ∧
      (s.freeAt (s.findUnit tStart rest unit) ≤ tStart ∨
        ∀ i ∈ unit :: rest, s.freeAt (s.findUnit tStart rest unit) ≤ s.freeAt i) := by
  fun_induction findUnit s tStart rest unit with
  | case1 unit => simp
  | case2 i rest unit hfree => exact ⟨by simp, .inl hfree⟩
  | case3 i rest unit hbusy hlt ih =>
    refine ⟨mem_cons_of_mem _ ih.1, ih.2.imp_right fun hle => ?_⟩
    rw [forall_mem_cons]
    exact ⟨UInt64.le_trans (hle i mem_cons_self) (UInt64.le_of_lt hlt), hle⟩
  | case4 i rest unit hbusy hge ih =>
    obtain ⟨hmem, hle⟩ := ih
    refine ⟨?_, hle.imp_right fun hle => ?_⟩
    · simp only [mem_cons] at hmem ⊢
      exact hmem.imp_right .inr
    simp only [forall_mem_cons] at hle ⊢
    exact ⟨hle.1, UInt64.le_trans hle.1 (UInt64.not_lt.mp hge), hle.2⟩

/-- The unit that a request takes is free when it starts, or none is free before it. -/
theorem Tracks.unit_spec (h : Tracks m s served) (hm : 0 < m) (tStart : UInt64) :
    ∃ hlt : s.unit tStart < s.time.length, s.freeAt (s.unit tStart) = s.time[s.unit tStart] ∧
      (s.freeAt (s.unit tStart) ≤ tStart ∨ ∀ t ∈ s.time, s.freeAt (s.unit tStart) ≤ t) := by
  have hlen : 0 < s.time.length := h.length ▸ hm
  obtain ⟨hmem, hfree⟩ := s.findUnit_spec tStart (range s.numOutstanding) 0
  have hlt : s.unit tStart < s.time.length := by
    rcases mem_cons.mp hmem with hzero | hmem
    · exact hzero.trans_lt hlen
    · exact mem_range.mp hmem
  refine ⟨hlt, by simp [freeAt, hlt], hfree.imp_right fun hle t ht => ?_⟩
  obtain ⟨i, hi, rfl⟩ := getElem_of_mem ht
  have hle := hle i (mem_cons_of_mem _ (mem_range.mpr hi))
  simpa [freeAt.eq_def s i, hi, unit] using hle

/-- A unit is free at a time if and only if fewer requests are unfinished than there are units. -/
theorem Tracks.free_iff (h : Tracks m s served) {t : ℕ} (ht : s.tLast.toNat ≤ t) :
    unfinished served t < m ↔ ∃ free ∈ s.time, free.toNat ≤ t := by
  have hbusy := h.busy t ht
  have hall : s.time.countP (t < ·.toNat) = m ↔ ∀ free ∈ s.time, t < free.toNat := by
    rw [← h.length, countP_eq_length]
    simp
  have hfree : (∃ free ∈ s.time, free.toNat ≤ t) ↔ ¬∀ free ∈ s.time, t < free.toNat := by simp
  rw [hfree, ← hall, hbusy]
  simp

/-- **One request** begins when it should, and ends so and is tracked if its end fits in 64 bits. -/
theorem Tracks.call (h : Tracks m s served) (hm : 0 < m) (hpos : 0 < tStart) (hlast : s.tLast ≤ tStart)
    (tDelay : UInt64) : IsBegin m served tStart.toNat (s.getStartTime tStart).toNat ∧
      ((s.getStartTime tStart).toNat + tDelay.toNat < 2 ^ 64 →
        (s.getCompletionTime tStart tDelay).1.toNat = (s.getStartTime tStart).toNat + tDelay.toNat ∧
        (s.getCompletionTime tStart tDelay).2.tLast = tStart ∧
        Tracks m (s.getCompletionTime tStart tDelay).2
          (((s.getStartTime tStart).toNat, (s.getCompletionTime tStart tDelay).1.toNat) :: served)) := by
  obtain ⟨hlt, hat, hfree⟩ := h.unit_spec hm tStart
  have hnum : s.numOutstanding ≠ 0 := by
    rw [numOutstanding, h.length]
    omega
  have hne : tStart ≠ 0 := by
    rintro rfl
    exact UInt64.lt_irrefl _ hpos
  simp only [getCompletionTime, getStartTime, hnum, hne, UInt64.not_lt.mpr hlast, if_false]
  generalize s.freeAt (s.unit tStart) = free at *
  have hmem : free ∈ s.time := hat ▸ getElem_mem hlt
  generalize hbegin : (if tStart < free then free else tStart) = tBegin
  simp only [UInt64.le_iff_toNat_le] at hlast hfree
  have hmax : tBegin.toNat = max tStart.toNat free.toNat := by
    rw [← hbegin, apply_ite UInt64.toNat]
    simp only [UInt64.lt_iff_toNat_lt]
    split <;> omega
  refine ⟨⟨⟨by omega, (h.free_iff (by omega)).mpr ⟨free, hmem, by omega⟩⟩, ?_⟩, fun hfits => ?_⟩
  · rintro t ⟨ht, hidle⟩
    obtain ⟨free', hmem', hfree'⟩ := (h.free_iff (hlast.trans ht)).mp hidle
    rcases hfree with hfree | hfree
    · omega
    · have := hfree free' hmem'
      omega
  have hend : (tBegin + tDelay).toNat = tBegin.toNat + tDelay.toNat := by
    rw [UInt64.toNat_add, Nat.mod_eq_of_lt hfits]
  refine ⟨hend, trivial, by simpa using h.length, ?_⟩
  intro t (ht : tStart.toNat ≤ t)
  have hbusy := h.busy t (hlast.trans ht)
  have hset := countP_set (p := fun x => decide (t < x.toNat)) hlt (a := tBegin + tDelay)
  rw [← hat] at hset
  by_cases hbefore : t < free.toNat
  · -- the units were all busy, and still are
    have hfull : ¬unfinished served t < m := by
      rw [h.free_iff (hlast.trans ht)]
      rintro ⟨free', hmem', hle'⟩
      rcases hfree with hfree | hfree
      · omega
      · exact absurd (hfree free' hmem') (by omega)
    simp only [unfinished, countP_cons, hset, decide_eq_true_eq, if_pos hbefore, hend] at hbusy hfull ⊢
    rw [if_pos (by omega)]
    omega
  · have hidle := (h.free_iff (hlast.trans ht)).mpr ⟨free, hmem, not_lt.mp hbefore⟩
    simp only [unfinished, countP_cons, hset, decide_eq_true_eq, if_neg hbefore, Nat.sub_zero,
      hend] at hbusy hidle ⊢
    split <;> omega

/-- **Where the schedule fits in 64 bits, it is followed.** -/
theorem Tracks.calls (hm : 0 < m) {requests : List (UInt64 × UInt64)} {intervals : List (ℕ × ℕ)}
    (h : Tracks m s served) (hpos : ∀ r ∈ requests, 0 < r.1)
    (horder : requests.Pairwise fun r r' => r.1 ≤ r'.1) (hlast : ∀ r ∈ requests, s.tLast ≤ r.1)
    (hserves : Serves m served (exact requests) intervals) (hfits : ∀ i ∈ intervals, i.2 < 2 ^ 64) :
    exact (s.calls requests) = intervals := by
  induction requests generalizing s served intervals with
  | nil => exact hserves.symm
  | cons r requests ih =>
    cases intervals with
    | nil => cases hserves
    | cons i intervals =>
      obtain ⟨hbegin, hend, hrest⟩ := hserves
      obtain ⟨hi, hfits⟩ := forall_mem_cons.mp hfits
      obtain ⟨hr, hpos⟩ := forall_mem_cons.mp hpos
      obtain ⟨hle, horder⟩ := pairwise_cons.mp horder
      obtain ⟨hbegin', hcall⟩ := h.call hm hr (hlast r mem_cons_self) r.2
      have hstart := hbegin.unique hbegin'
      obtain ⟨hend', htLast, htracks⟩ := hcall (by rw [← hstart, ← hend]; exact hi)
      have heq : i = ((s.getStartTime r.1).toNat, (s.getCompletionTime r.1 r.2).1.toNat) :=
        Prod.ext hstart (by rw [hend, hend', hstart])
      rw [heq] at hrest
      rw [heq, ← ih htracks hpos horder (htLast.symm ▸ hle) hrest hfits]
      rfl

/-- **The requests are served first come, first served**, with `getStartTime` as their begin, if and
only if the times of that schedule fit in 64 bits. -/
theorem completion_times_fcfs_iff (m : ℕ) (hm : 1 ≤ m) (requests : List (UInt64 × UInt64))
    (hpos : ∀ r ∈ requests, 0 < r.1) (horder : requests.Pairwise fun r r' => r.1 ≤ r'.1) :
    (Serves m [] (exact requests) (exact ((create m).calls requests)) ↔
      ∃ intervals, Serves m [] (exact requests) intervals ∧ ∀ i ∈ intervals, i.2 < 2 ^ 64) ∧
    (Serves m [] (exact requests) (exact ((create m).calls requests)) →
      ∀ t, inService (exact ((create m).calls requests)) t ≤ m) := by
  refine ⟨⟨fun h => ⟨_, h, ?_⟩, ?_⟩, fun h t => ?_⟩
  · intro i hi
    obtain ⟨r, -, rfl⟩ := mem_map.mp hi
    exact r.2.toNat_lt
  · rintro ⟨intervals, hserves, hfits⟩
    have hinit : Tracks m (create m) [] := by
      refine ⟨by simp [create], fun t _ => ?_⟩
      simp [create, unfinished]
    rwa [hinit.calls hm hpos horder (fun _ _ => UInt64.zero_le) hserves hfits]
  · simpa [inService] using h.inService_add_le (by simp [inService]) t

/-- Three requests to two units: the third one begins when the second one ends. -/
theorem third_waits_for_second :
    exact ((create 2).calls [(1, 10), (2, 3), (3, 4)]) = [(1, 11), (2, 5), (5, 9)] ∧
      Serves 2 [] [(1, 10), (2, 3), (3, 4)] [(1, 11), (2, 5), (5, 9)] := by
  have hserves : Serves 2 [] [(1, 10), (2, 3), (3, 4)] [(1, 11), (2, 5), (5, 9)] := by
    have hsecond : IsBegin 2 [(1, 11)] 2 2 := ⟨⟨le_rfl, by decide⟩, fun t ht => ht.1⟩
    have hthird : IsBegin 2 [(2, 5), (1, 11)] 3 5 := by
      refine ⟨⟨by decide, by decide⟩, fun t ⟨ht, hidle⟩ => not_lt.mp fun hlt => ?_⟩
      simp [unfinished, hlt, show t < 11 by omega] at hidle
    exact ⟨⟨⟨le_rfl, by decide⟩, fun t ht => ht.1⟩, rfl, hsecond, rfl, hthird, rfl, rfl⟩
  have hiff := completion_times_fcfs_iff 2 (by decide) [(1, 10), (2, 3), (3, 4)] (by simp) (by simp)
  exact ⟨by decide, hiff.1.mpr ⟨_, hserves, by decide⟩⟩

/-- One unit: a delay of `2 ^ 64 - 1` ends, modulo `2 ^ 64`, at time 0, and the next request is served
at once. -/
theorem long_delay_wraps : exact ((create 1).calls [(1, 0xffffffffffffffff), (2, 1)]) = [(1, 0), (2, 3)] ∧
    ¬ Serves 1 [] [(1, 2 ^ 64 - 1), (2, 1)] [(1, 0), (2, 3)] := by
  refine ⟨by decide, fun h => ?_⟩
  cases h.2.1

end ContentionModel

end MultiCoreMemory
