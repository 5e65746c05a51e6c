import MultiCoreMemory.Lib.EventLog
import MultiCoreMemory.Lib.Machine
import MultiCoreMemory.Lib.RingBuffer
import MultiCoreMemory.Lib.UnorderedMap

/-!
# The row history of BlockHammer (`plugin/blockhammer/blockhammer_util.h`, `HistoryBuffer`)

A ring of the last inserted rows and a counter for each row in it.  A tick without an insert leaves
the slot of that tick as it is, and `update` takes the row of the slot that comes round out of the
counters without a look at the time stamp it stores.
-/

namespace MultiCoreMemory

open EventLog List Option

structure HistoryEntry where
  entry : ℤ
  timestamp : ℕ
  deriving DecidableEq, Repr

structure HistoryBuffer where
  tick : ℕ := 0
  size : ℕ
  maxFreq : ℕ
  history : List HistoryEntry
  elemCounter : UnorderedMap ℤ ℕ := ∅

namespace HistoryBuffer

def emptyEntry : HistoryEntry := ⟨-1, 2 ^ 64 - 1⟩

def new (size maxFreq : ℕ) : HistoryBuffer where
  size := size
  maxFreq := maxFreq
  history := List.replicate size emptyEntry

variable (b : HistoryBuffer) (elem : ℤ)

def search : Bool :=
  match b.elemCounter.lookup elem with
  | none => false
  | some count => count ≥ b.maxFreq

/-- `insert`; with an empty ring the index is a remainder by zero. -/
def insert : Option HistoryBuffer :=
  if b.size = 0 then none
  else some { b with
    history := b.history.set (b.tick % b.size) ⟨elem, b.tick⟩
    elemCounter := b.elemCounter.insert elem ((b.elemCounter.lookup elem).getD 0 + 1) }

def rowAt (tick : ℕ) : ℤ :=
  (b.history.getD (tick % b.size) emptyEntry).entry

/-- `if (--elem_counter[elem] == 0) elem_counter.erase(elem)`, for a row that has a counter. -/
def decrement (counters : UnorderedMap ℤ ℕ) (elem : ℤ) : UnorderedMap ℤ ℕ :=
  match counters.lookup elem with
  | none => counters
  | some count => if count - 1 = 0 then counters.erase elem else counters.insert elem (count - 1)

def update : Option HistoryBuffer :=
  if b.size = 0 then none
  else some { b with
    tick := b.tick + 1
    elemCounter := decrement b.elemCounter (b.rowAt (b.tick + 1)) }

def count : ℕ := (b.elemCounter.lookup elem).getD 0

end HistoryBuffer

inductive HistoryCall where
  | insert (elem : ℤ)
  | update
  deriving DecidableEq, Repr

structure HistoryRun where
  buffer : HistoryBuffer
  log : List (ℕ × ℤ) := []

namespace HistoryRun

variable (s : HistoryRun)

/-- The number of inserts of a row in the last `size` ticks, the current one included. -/
def windowCount (elem : ℤ) : ℕ :=
  countSince s.log (s.buffer.tick + 1 - s.buffer.size) elem

def machine (size maxFreq : ℕ) : Machine HistoryRun HistoryCall where
  init := { buffer := .new size maxFreq }
  step s
    | .insert elem =>
      if s.buffer.tick ∈ s.log.map Prod.fst then none
      else (s.buffer.insert elem).map fun b => ⟨b, (s.buffer.tick, elem) :: s.log⟩
    | .update => s.buffer.update.map fun b => ⟨b, s.log⟩

/-- The counters are those of the window, and `search` answers from them. -/
def Exact : Prop :=
  ∀ elem, s.buffer.count elem = s.windowCount elem ∧
    (s.buffer.search elem = true ↔ s.buffer.maxFreq ≤ s.windowCount elem)

/-- The slot that comes round was written exactly `size` ticks ago, or its row has no counter. -/
def RoundIsDue : Prop :=
  s.buffer.elemCounter.lookup (s.buffer.rowAt (s.buffer.tick + 1)) ≠ none →
    s.buffer.size ≤ s.buffer.tick + 1 ∧ s.buffer.tick + 1 - s.buffer.size ∈ s.log.map Prod.fst

def Meets : HistoryCall → Prop
  | .insert _ => True
  | .update => s.RoundIsDue

/-! ## The ring -/

/-- The ring and the log: one insert a tick, and what is in the window is in its slot. -/
structure Aligned (s : HistoryRun) : Prop where
  length : s.buffer.history.length = s.buffer.size
  time_le : ∀ x ∈ s.log, x.1 ≤ s.buffer.tick
  nodup : (s.log.map Prod.fst).Nodup
  slot : ∀ x ∈ s.log, s.buffer.tick < x.1 + s.buffer.size → s.buffer.rowAt x.1 = x.2
  pos : ∀ elem, s.buffer.elemCounter.lookup elem ≠ some 0

variable {s s' : HistoryRun} {elem e : ℤ}

def inserted (s : HistoryRun) (elem : ℤ) : HistoryRun :=
  ⟨{ s.buffer with
    history := s.buffer.history.set (s.buffer.tick % s.buffer.size) ⟨elem, s.buffer.tick⟩
    elemCounter := s.buffer.elemCounter.insert elem (s.buffer.count elem + 1) },
    (s.buffer.tick, elem) :: s.log⟩

def ticked (s : HistoryRun) : HistoryRun :=
  ⟨{ s.buffer with
    tick := s.buffer.tick + 1
    elemCounter := HistoryBuffer.decrement s.buffer.elemCounter
      (s.buffer.rowAt (s.buffer.tick + 1)) }, s.log⟩

variable {size maxFreq : ℕ} {call : HistoryCall}

theorem step_cases (h : (machine size maxFreq).step s call = some s') : s.buffer.size ≠ 0 ∧
    ((∃ elem, call = .insert elem ∧ s.buffer.tick ∉ s.log.map Prod.fst ∧ s' = s.inserted elem) ∨
      (call = .update ∧ s' = s.ticked)) := by
  cases call with
  | insert elem =>
    simp only [machine, HistoryBuffer.insert] at h
    split at h
    · cases h
    · rename_i hnew
      split at h
      · cases h
      · rename_i hsize
        exact ⟨hsize, .inl ⟨elem, rfl, hnew, (some.inj h).symm⟩⟩
  | update =>
    simp only [machine, HistoryBuffer.update] at h
    split at h
    · cases h
    · rename_i hsize
      exact ⟨hsize, .inr ⟨rfl, (some.inj h).symm⟩⟩

theorem lookup_decrement (counters : UnorderedMap ℤ ℕ) (elem e : ℤ) :
    ((HistoryBuffer.decrement counters elem).lookup e).getD 0 =
      (counters.lookup e).getD 0 - if e = elem then 1 else 0 := by
  unfold HistoryBuffer.decrement
  by_cases he : e = elem
  · subst he
    cases hcount : counters.lookup e with
    | none => simp [hcount]
    | some count =>
      simp only [if_true, getD_some]
      split
      · rename_i hzero
        simp [AList.lookup_erase, hzero]
      · simp [AList.lookup_insert]
  · cases counters.lookup elem with
    | none => simp [he]
    | some count =>
      simp only [he, if_false]
      split
      · simp [AList.lookup_erase_ne he]
      · simp [AList.lookup_insert_ne he]

theorem decrement_pos {counters : UnorderedMap ℤ ℕ} (hpos : ∀ e, counters.lookup e ≠ some 0)
    (elem e : ℤ) : (HistoryBuffer.decrement counters elem).lookup e ≠ some 0 := by
  unfold HistoryBuffer.decrement
  cases counters.lookup elem with
  | none => exact hpos e
  | some count =>
    intro h
    dsimp only at h
    split at h
    · exact hpos e (UnorderedMap.lookup_erase_iff.mp h).2
    · obtain ⟨-, hzero⟩ | ⟨-, hold⟩ := UnorderedMap.lookup_insert_iff.mp h
      · contradiction
      · exact hpos e hold

theorem slot_ne {t t' : ℕ} (hlt : t < t') (h : t' < t + size) : t % size ≠ t' % size := by
  have hne : (t + 0) % size ≠ (t + (t' - t)) % size :=
    RingBuffer.slot_ne (by omega) (by omega)
  rwa [Nat.add_zero, Nat.add_sub_cancel' hlt.le] at hne

theorem rowAt_inserted (hs : s.buffer.history.length = s.buffer.size) (hsize : s.buffer.size ≠ 0)
    (t : ℕ) : (s.inserted elem).buffer.rowAt t =
      if s.buffer.tick % s.buffer.size = t % s.buffer.size then elem else s.buffer.rowAt t := by
  have hslot : s.buffer.tick % s.buffer.size < s.buffer.history.length := by
    rw [hs]
    exact Nat.mod_lt _ (Nat.pos_of_ne_zero hsize)
  simp only [inserted, HistoryBuffer.rowAt, getD_eq_getElem?_getD, getElem?_set]
  split <;> simp_all

theorem aligned_init (size maxFreq : ℕ) : (machine size maxFreq).init.Aligned where
  length := length_replicate
  time_le := nofun
  nodup := nodup_nil
  slot := nofun
  pos := nofun

theorem aligned_of_step (hs : s.Aligned) (h : (machine size maxFreq).step s call = some s') :
    s'.Aligned := by
  obtain ⟨hsize, ⟨elem, -, hnew, rfl⟩ | ⟨-, rfl⟩⟩ := step_cases h
  · refine ⟨by simpa [inserted] using hs.length, ?_, ?_, ?_, ?_⟩
    · rintro x (_ | ⟨_, hx⟩)
      · exact le_rfl
      · exact hs.time_le x hx
    · exact nodup_cons.mpr ⟨hnew, hs.nodup⟩
    · rintro x (_ | ⟨_, hx⟩) hwindow
      · rw [rowAt_inserted hs.length hsize, if_pos rfl]
      · -- an older insert of the window is in another slot
        have hne : x.1 ≠ s.buffer.tick := fun h => hnew (h ▸ List.mem_map_of_mem hx)
        have hother : x.1 % s.buffer.size ≠ s.buffer.tick % s.buffer.size :=
          slot_ne (lt_of_le_of_ne (hs.time_le x hx) hne) hwindow
        rw [rowAt_inserted hs.length hsize, if_neg hother.symm]
        exact hs.slot x hx hwindow
    · intro e h
      obtain ⟨-, hzero⟩ | ⟨-, hold⟩ := UnorderedMap.lookup_insert_iff.mp h
      · cases hzero
      · exact hs.pos e hold
  · exact ⟨hs.length, fun x hx => (hs.time_le x hx).trans (Nat.le_succ _), hs.nodup,
      fun x hx hwindow => hs.slot x hx ((Nat.lt_succ_self _).trans hwindow), decrement_pos hs.pos _⟩

theorem aligned_of_reachable (h : (machine size maxFreq).Reachable s) : s.Aligned :=
  h.invariant (P := Aligned) (aligned_init size maxFreq) fun _ _ _ hs _ hst => aligned_of_step hs hst

/-! ## The counters -/

theorem search_iff {b : HistoryBuffer} (hfreq : 1 ≤ b.maxFreq) :
    b.search elem = true ↔ b.maxFreq ≤ b.count elem := by
  unfold HistoryBuffer.search HistoryBuffer.count
  cases b.elemCounter.lookup elem with
  | none => simp; omega
  | some count => simp

theorem exact_iff (hfreq : 1 ≤ s.buffer.maxFreq) :
    s.Exact ↔ ∀ elem, s.buffer.count elem = s.windowCount elem := by
  constructor
  · exact fun h elem => (h elem).1
  · intro h elem
    exact ⟨h elem, by rw [search_iff hfreq, h elem]⟩

/-- The insert of the row that leaves the window with the next tick. -/
def Leaves (s : HistoryRun) (elem : ℤ) : Prop :=
  s.buffer.size ≤ s.buffer.tick + 1 ∧ (s.buffer.tick + 1 - s.buffer.size, elem) ∈ s.log
  deriving Decidable

theorem windowCount_eq (hs : s.Aligned) (elem : ℤ) :
    s.windowCount elem =
      countSince s.log (s.buffer.tick + 1 + 1 - s.buffer.size) elem +
        if s.Leaves elem then 1 else 0 := by
  by_cases hfull : s.buffer.size ≤ s.buffer.tick + 1
  · have hleaves : s.Leaves elem ↔ (s.buffer.tick + 1 - s.buffer.size, elem) ∈ s.log :=
      and_iff_right hfull
    rw [windowCount, countSince_succ hs.nodup, Nat.succ_sub hfull]
    simp only [hleaves]
  · rw [if_neg fun h : s.Leaves elem => hfull h.1, Nat.add_zero, windowCount]
    congr 1
    omega

/-- What leaves the window stands in the slot that comes round. -/
theorem rowAt_of_leaves (hs : s.Aligned) (h : s.Leaves elem) :
    s.buffer.rowAt (s.buffer.tick + 1) = elem := by
  obtain ⟨hfull, hmem⟩ := h
  have hrow : s.buffer.rowAt (s.buffer.tick + 1 - s.buffer.size) = elem :=
    hs.slot _ hmem (by dsimp only; omega)
  rw [← hrow, HistoryBuffer.rowAt, HistoryBuffer.rowAt, Nat.mod_eq_sub_mod hfull]

theorem count_ne_zero_iff (hs : s.Aligned) :
    s.buffer.elemCounter.lookup elem ≠ none ↔ s.buffer.count elem ≠ 0 := by
  have hpos := hs.pos elem
  unfold HistoryBuffer.count
  cases hcount : s.buffer.elemCounter.lookup elem with
  | none => simp
  | some count =>
    rw [hcount] at hpos
    simpa using hpos

/-- The slot that comes round is due if and only if its row leaves the window or has no counter. -/
theorem roundIsDue_iff (hs : s.Aligned) :
    s.RoundIsDue ↔ s.buffer.count (s.buffer.rowAt (s.buffer.tick + 1)) ≠ 0 →
      s.Leaves (s.buffer.rowAt (s.buffer.tick + 1)) := by
  unfold RoundIsDue
  rw [count_ne_zero_iff hs]
  refine imp_congr_right fun _ => ?_
  constructor
  · rintro ⟨hfull, hmem⟩
    obtain ⟨⟨t, elem⟩, hmem, rfl⟩ := List.mem_map.mp hmem
    have hleaves : s.Leaves elem := ⟨hfull, hmem⟩
    rwa [rowAt_of_leaves hs hleaves]
  · rintro ⟨hfull, hmem⟩
    exact ⟨hfull, List.mem_map_of_mem hmem⟩

theorem count_inserted (s : HistoryRun) (elem e : ℤ) : (s.inserted elem).buffer.count e =
    s.buffer.count e + if e = elem then 1 else 0 := by
  by_cases he : e = elem
  · subst he
    simp [inserted, HistoryBuffer.count]
  · simp [inserted, HistoryBuffer.count, AList.lookup_insert_ne he, he]

theorem windowCount_inserted (hsize : s.buffer.size ≠ 0) (elem e : ℤ) :
    (s.inserted elem).windowCount e = s.windowCount e + if e = elem then 1 else 0 := by
  by_cases he : e = elem
  · subst he
    rw [if_pos rfl]
    exact countSince_cons_self (by dsimp only [inserted]; omega)
  · rw [if_neg he]
    exact countSince_cons_of_ne (Ne.symm he)

theorem count_ticked (s : HistoryRun) (e : ℤ) : s.ticked.buffer.count e =
    s.buffer.count e - if e = s.buffer.rowAt (s.buffer.tick + 1) then 1 else 0 :=
  lookup_decrement _ _ _

theorem exact_ticked_iff (hs : s.Aligned) (hfreq : 1 ≤ s.buffer.maxFreq) (hexact : s.Exact) :
    s.ticked.Exact ↔ s.RoundIsDue := by
  have hcount := (exact_iff hfreq).mp hexact
  have hwindow : ∀ e, s.windowCount e = s.ticked.windowCount e + if s.Leaves e then 1 else 0 :=
    windowCount_eq hs
  have hfreq' : 1 ≤ s.ticked.buffer.maxFreq := hfreq
  rw [exact_iff hfreq', roundIsDue_iff hs]
  simp only [count_ticked]
  set row := s.buffer.rowAt (s.buffer.tick + 1) with hrow
  constructor
  · intro hnext hne
    by_contra hleaves
    have hbefore := hcount row
    have hafter := hnext row
    rw [hwindow, if_neg hleaves] at hbefore
    rw [if_pos rfl] at hafter
    omega
  · intro hdue e
    rw [hcount, hwindow]
    by_cases hleaves : s.Leaves e
    · have he : e = row := (rowAt_of_leaves hs hleaves).symm
      rw [if_pos hleaves, if_pos he, Nat.add_sub_cancel]
    · rw [if_neg hleaves, Nat.add_zero]
      split
      · -- the row of the slot has no counter, so the window has none of it
        rename_i he
        subst he
        have hzero : s.buffer.count row = 0 := by
          by_contra hne
          exact hleaves (hdue hne)
        rw [hcount, hwindow, if_neg hleaves] at hzero
        omega
      · rw [Nat.sub_zero]

theorem maxFreq_of_reachable (h : (machine size maxFreq).Reachable s) :
    s.buffer.maxFreq = maxFreq := by
  refine h.invariant (P := fun s => s.buffer.maxFreq = maxFreq) rfl ?_
  intro s call s' hs _ hst
  obtain ⟨-, ⟨_, -, -, rfl⟩ | ⟨-, rfl⟩⟩ := step_cases hst <;> exact hs

/-- A call keeps the counters exact if and only if it meets the condition. -/
theorem exact_step_iff (hs : s.Aligned) (hfreq : 1 ≤ s.buffer.maxFreq) (hexact : s.Exact)
    (h : (machine size maxFreq).step s call = some s') : s'.Exact ↔ s.Meets call := by
  obtain ⟨hsize, ⟨elem, rfl, -, rfl⟩ | ⟨rfl, rfl⟩⟩ := step_cases h
  · refine iff_of_true ?_ trivial
    have hfreq' : 1 ≤ (s.inserted elem).buffer.maxFreq := hfreq
    refine (exact_iff hfreq').mpr fun e => ?_
    rw [count_inserted, windowCount_inserted hsize, (exact_iff hfreq).mp hexact]
  · exact exact_ticked_iff hs hfreq hexact

/-- **The row history is exact as long as every slot that comes round is due**, and no longer. -/
theorem history_exact_iff (size maxFreq : ℕ) (hfreq : 1 ≤ maxFreq) {s : HistoryRun}
    (h : (machine size maxFreq).ReachableWhen Meets s) :
    s.Exact ∧ ∀ call s', (machine size maxFreq).step s call = some s' →
      (s'.Exact ↔ s.Meets call) := by
  have hfreqs : ∀ {s}, (machine size maxFreq).Reachable s → 1 ≤ s.buffer.maxFreq :=
    fun hs => (maxFreq_of_reachable hs).symm ▸ hfreq
  have hexact : s.Exact := by
    induction h with
    | start => exact (exact_iff hfreq).mpr fun elem => rfl
    | next hs hmeets hst ih =>
      exact (exact_step_iff (aligned_of_reachable hs.reachable) (hfreqs hs.reachable) ih hst).mpr
        hmeets
  refine ⟨hexact, fun call s' hst => ?_⟩
  exact exact_step_iff (aligned_of_reachable h.reachable) (hfreqs h.reachable) hexact hst

/-- A row inserted again after the ring went round once: the slot of its first insert is still there
when it comes round a second time. -/
theorem stale_slot_decrements_again :
    ∃ s, (machine 2 1).Reachable s ∧ s.buffer.count 7 = 0 ∧ s.windowCount 7 = 1 ∧
      s.buffer.search 7 = false :=
  Machine.exists_reachable [.insert 7, .update, .update, .update, .insert 7, .update]
    (by decide +kernel)

def meetsB (s : HistoryRun) : HistoryCall → Bool
  | .insert _ => true
  | .update =>
    (s.buffer.elemCounter.lookup (s.buffer.rowAt (s.buffer.tick + 1))).isNone ||
      (s.buffer.size ≤ s.buffer.tick + 1 &&
        (s.log.map Prod.fst).contains (s.buffer.tick + 1 - s.buffer.size))

theorem meets_of_meetsB (s : HistoryRun) (call : HistoryCall) (h : s.meetsB call = true) :
    s.Meets call := by
  cases call with
  | insert elem => trivial
  | update =>
    intro hne
    simp only [meetsB, Bool.or_eq_true, isNone_iff_eq_none, Bool.and_eq_true,
      decide_eq_true_eq, contains_iff_mem] at h
    exact h.resolve_left hne

/-- An insert on every tick: the counter of a row follows the window as the ring goes round. -/
theorem busy_history_exact :
    ∃ s, (machine 2 1).ReachableWhen Meets s ∧ s.Exact ∧ s.buffer.count 7 = 1 := by
  obtain ⟨s, hs, heq⟩ := Machine.exists_reachableWhen (m := machine 2 1) meetsB meets_of_meetsB
    (P := fun s => s.buffer.count 7 = 1) [.insert 7, .update, .insert 7, .update, .insert 8]
    (by decide +kernel) (by decide +kernel)
  exact ⟨s, hs, (history_exact_iff 2 1 le_rfl hs).1, heq⟩

end HistoryRun

end MultiCoreMemory
