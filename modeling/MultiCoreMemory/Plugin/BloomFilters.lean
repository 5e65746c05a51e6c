import MultiCoreMemory.Lib.EventLog
import MultiCoreMemory.Lib.Machine
import Mathlib.Data.UInt

/-!
# The Bloom filters of BlockHammer (`plugin/blockhammer/blockhammer_util.h`)

Several counting filters take every insert; one of them is tested.  At the end of an epoch the tested
one is cleared and the next one, which has seen the epochs before, takes its place.
-/

namespace MultiCoreMemory

open EventLog List Function Nat UInt16

structure BloomConfig where
  numFilters : ℕ
  lenEpoch : ℕ
  numCounters : ℕ
  ctrThresh : ℕ
  hashFunctions : List (UInt32 → UInt32)
  two_le_numFilters : 2 ≤ numFilters
  two_le_numCounters : 2 ≤ numCounters
  ctrThresh_pos : 1 ≤ ctrThresh
  ctrThresh_le : ctrThresh ≤ 65535

variable {cfg : BloomConfig}

/-- 16-bit counters. The constructor assigns `m_saturate` to itself, so the flag is what the memory
of the object held before and not the parameter. -/
structure CountingBloomFilter (cfg : BloomConfig) where
  saturate : Bool
  counters : Fin cfg.numCounters → UInt16

namespace CountingBloomFilter

variable (f : CountingBloomFilter cfg)

def reset : CountingBloomFilter cfg :=
  { f with counters := fun _ => 0 }

/-- The constructor: `this->m_saturate = m_saturate` reads the member, not the parameter. -/
def new (cfg : BloomConfig) (member _saturate : Bool) : CountingBloomFilter cfg :=
  reset { saturate := member, counters := fun _ => 0 }

def index (cfg : BloomConfig) (elem : Int32) (hash : UInt32 → UInt32) : Fin cfg.numCounters :=
  ⟨(hash elem.toUInt32).toNat % cfg.numCounters,
    mod_lt _ (zero_lt_of_lt cfg.two_le_numCounters)⟩

def bump (idx : Fin cfg.numCounters) : CountingBloomFilter cfg :=
  if !f.saturate || (f.counters idx).toNat < cfg.ctrThresh then
    { f with counters := Function.update f.counters idx (f.counters idx + 1) }
  else f

def insert (elem : Int32) : CountingBloomFilter cfg :=
  cfg.hashFunctions.foldl (fun f hash => f.bump (index cfg elem hash)) f

def test (elem : Int32) : Bool :=
  cfg.hashFunctions.all fun hash => cfg.ctrThresh ≤ (f.counters (index cfg elem hash)).toNat

end CountingBloomFilter

/-- The filters, one of which is active in turn. -/
structure UnifiedBloomFilter (cfg : BloomConfig) where
  filters : Fin cfg.numFilters → CountingBloomFilter cfg
  tick : ℕ := 0
  testIdx : Fin cfg.numFilters

namespace UnifiedBloomFilter

def after (i : Fin cfg.numFilters) (d : ℕ) : Fin cfg.numFilters :=
  ⟨(i + d) % cfg.numFilters, mod_lt _ (zero_lt_of_lt cfg.two_le_numFilters)⟩

/-- The filters of a bank as `setup` builds them; `members` is what `m_saturate` holds before. -/
def new (cfg : BloomConfig) (members : Fin cfg.numFilters → Bool) (saturate : Bool) :
    UnifiedBloomFilter cfg where
  filters i := .new cfg (members i) saturate
  testIdx := ⟨0, zero_lt_of_lt cfg.two_le_numFilters⟩

variable (u : UnifiedBloomFilter cfg) (elem : Int32)

def update : UnifiedBloomFilter cfg :=
  if u.tick + 1 ≥ cfg.lenEpoch then
    { filters := Function.update u.filters u.testIdx (u.filters u.testIdx).reset
      tick := 0
      testIdx := after u.testIdx 1 }
  else { u with tick := u.tick + 1 }

def insert : UnifiedBloomFilter cfg :=
  { u with filters := fun i => (u.filters i).insert elem }

def test : Bool := (u.filters u.testIdx).test elem

end UnifiedBloomFilter

/-! ## A counting filter -/

namespace CountingBloomFilter

variable {f : CountingBloomFilter cfg} {elem e : Int32} {log : List (ℕ × Int32)} {since time : ℕ}

/-- The number of hash functions that send the element to a counter. -/
def hits (cfg : BloomConfig) (elem : Int32) (j : Fin cfg.numCounters) : ℕ :=
  cfg.hashFunctions.countP fun hash => index cfg elem hash = j

def HasRoom (f : CountingBloomFilter cfg) (elem : Int32) : Prop :=
  f.saturate = true ∨ ∀ j, (f.counters j).toNat + hits cfg elem j ≤ 65535

@[simp] theorem bump_saturate (f : CountingBloomFilter cfg) (idx : Fin cfg.numCounters) :
    (f.bump idx).saturate = f.saturate := by
  unfold bump
  split <;> rfl

theorem toNat_add_one {c : UInt16} (h : c.toNat < 65535) : (c + 1).toNat = c.toNat + 1 := by
  rw [UInt16.toNat_add, UInt16.toNat_one, mod_eq_of_lt (by omega)]

theorem bump_spec {idx : Fin cfg.numCounters}
    (hroom : f.saturate = true ∨ (f.counters idx).toNat < 65535) :
    (∀ j, j ≠ idx → (f.bump idx).counters j = f.counters j) ∧
      (f.counters idx).toNat ≤ ((f.bump idx).counters idx).toNat ∧
      ((f.bump idx).counters idx).toNat ≤ (f.counters idx).toNat + 1 ∧
      min cfg.ctrThresh ((f.counters idx).toNat + 1) ≤ ((f.bump idx).counters idx).toNat := by
  have hle := cfg.ctrThresh_le
  unfold bump
  split
  · rename_i hcond
    have hlt : (f.counters idx).toNat < 65535 := by
      rcases hroom with hsat | hlt
      · simp only [hsat, Bool.not_true, Bool.false_or, decide_eq_true_eq] at hcond
        omega
      · exact hlt
    refine ⟨fun j hj => update_of_ne hj _ _, ?_⟩
    simp only [update_self, toNat_add_one hlt]
    omega
  · rename_i hcond
    simp only [Bool.or_eq_true, Bool.not_eq_true', decide_eq_true_eq, not_or] at hcond
    exact ⟨fun _ _ => rfl, by omega⟩

theorem foldl_bump (elem : Int32) (hashes : List (UInt32 → UInt32)) (f : CountingBloomFilter cfg)
    (hroom : f.saturate = true ∨ ∀ j, (f.counters j).toNat +
      hashes.countP (fun hash => index cfg elem hash = j) ≤ 65535) :
    (∀ j, (f.counters j).toNat ≤
      ((hashes.foldl (fun f hash => f.bump (index cfg elem hash)) f).counters j).toNat) ∧
    ∀ hash ∈ hashes, min cfg.ctrThresh ((f.counters (index cfg elem hash)).toNat + 1) ≤
      ((hashes.foldl (fun f hash => f.bump (index cfg elem hash)) f).counters
        (index cfg elem hash)).toNat := by
  induction hashes generalizing f with
  | nil => exact ⟨fun _ => le_rfl, nofun⟩
  | cons hash hashes ih =>
    have hone : f.saturate = true ∨ (f.counters (index cfg elem hash)).toNat < 65535 := by
      refine hroom.imp_right fun h => ?_
      have hj := h (index cfg elem hash)
      simp only [countP_cons, decide_true, if_true] at hj
      omega
    obtain ⟨hother, hup, hby, hmin⟩ := bump_spec hone
    have hmono : ∀ j, (f.counters j).toNat ≤ ((f.bump (index cfg elem hash)).counters j).toNat := by
      intro j
      by_cases hj : j = index cfg elem hash
      · exact hj ▸ hup
      · rw [hother j hj]
    have hrest := ih (f.bump (index cfg elem hash)) <| by
      refine hroom.imp (fun h => (bump_saturate f _).trans h) fun h j => ?_
      have hj := h j
      rw [countP_cons] at hj
      by_cases hidx : j = index cfg elem hash
      · subst hidx
        simp only [decide_true, if_true] at hj
        omega
      · rw [hother j hidx]
        omega
    refine ⟨fun j => (hmono j).trans (hrest.1 j), ?_⟩
    rintro hash' (_ | ⟨_, hmem⟩)
    · exact hmin.trans (hrest.1 _)
    · refine le_trans ?_ (hrest.2 hash' hmem)
      have := hmono (index cfg elem hash')
      omega

/-- Since a time, the filter has counted every element as often as it was inserted, up to the
threshold. -/
def Covers (f : CountingBloomFilter cfg) (log : List (ℕ × Int32)) (since : ℕ) : Prop :=
  ∀ elem, ∀ hash ∈ cfg.hashFunctions,
    min cfg.ctrThresh (countSince log since elem) ≤ (f.counters (index cfg elem hash)).toNat

theorem Covers.insert (h : f.Covers log since) (hroom : f.HasRoom elem) (time : ℕ) :
    (f.insert elem).Covers ((time, elem) :: log) since := by
  intro e hash hmem
  obtain ⟨hmono, hup⟩ := foldl_bump elem cfg.hashFunctions f hroom
  have hold := h e hash hmem
  by_cases he : elem = e
  · subst he
    have hnew := hup hash hmem
    have hcount : countSince ((time, elem) :: log) since elem ≤ countSince log since elem + 1 := by
      unfold countSince
      rw [countP_cons]
      split <;> omega
    refine le_trans ?_ hnew
    omega
  · rw [countSince_cons_of_ne he]
    exact hold.trans (hmono _)

theorem covers_of_lt (f : CountingBloomFilter cfg) (h : ∀ x ∈ log, x.1 < since) :
    f.Covers log since := by
  intro e hash _
  rw [countSince_eq_zero h, Nat.min_zero]
  exact Nat.zero_le _

theorem Covers.test (h : f.Covers log since) (hoften : cfg.ctrThresh ≤ countSince log since elem) :
    f.test elem = true := by
  refine List.all_eq_true.mpr fun hash hmem => ?_
  have hcovered := h elem hash hmem
  rw [min_eq_left hoften] at hcovered
  exact decide_eq_true hcovered

end CountingBloomFilter

/-! ## The rotation -/

namespace UnifiedBloomFilter

theorem after_one_after (i : Fin cfg.numFilters) (d : ℕ) : after (after i 1) d = after i (d + 1) := by
  ext
  simp only [after, mod_add_mod, Nat.add_assoc, add_comm 1 d]

theorem after_zero (i : Fin cfg.numFilters) : after i 0 = i := by
  ext
  simp [after, mod_eq_of_lt i.isLt]

theorem after_ne {i : Fin cfg.numFilters} {d : ℕ} (h0 : 0 < d) (hd : d < cfg.numFilters) :
    after i d ≠ i := by
  intro h
  have hval : (i + d) % cfg.numFilters = (i + 0) % cfg.numFilters := by
    rw [add_zero, mod_eq_of_lt i.isLt]
    exact congrArg Fin.val h
  have hmod : d ≡ 0 [MOD cfg.numFilters] := Nat.ModEq.add_left_cancel' i.val hval
  have hzero := hmod.eq_of_lt_of_lt hd (by omega)
  omega

end UnifiedBloomFilter

inductive BloomCall where
  | insert (elem : Int32)
  | update

/-- The filters of a bank, the ticks they have seen and the inserts with their times. -/
structure BloomRun (cfg : BloomConfig) where
  unified : UnifiedBloomFilter cfg
  time : ℕ := 0
  log : List (ℕ × Int32) := []

namespace BloomRun

open UnifiedBloomFilter CountingBloomFilter

variable {s s' : BloomRun cfg}

def machine (cfg : BloomConfig) (members : Fin cfg.numFilters → Bool) (saturate : Bool) :
    Machine (BloomRun cfg) BloomCall where
  init := { unified := .new cfg members saturate }
  step s
    | .insert elem =>
      some { s with unified := s.unified.insert elem, log := (s.time, elem) :: s.log }
    | .update => some { s with unified := s.unified.update, time := s.time + 1 }

/-- The condition on a call: an insert finds room in every filter that does not saturate. -/
def Meets (s : BloomRun cfg) : BloomCall → Prop
  | .insert elem => ∀ i, (s.unified.filters i).HasRoom elem
  | .update => True

/-- How often an element was inserted in the last `(F - 1) * len_epoch` ticks. -/
def windowCount (s : BloomRun cfg) (elem : Int32) : ℕ :=
  countSince s.log (s.time - (cfg.numFilters - 1) * cfg.lenEpoch) elem

def epoch (cfg : BloomConfig) : ℕ := max cfg.lenEpoch 1

/-- The filter `d` places after the tested one covers the last `F - 1 - d` epochs and the current
one. -/
structure Rotating (s : BloomRun cfg) : Prop where
  tick_lt : s.unified.tick < epoch cfg
  time_le : ∀ x ∈ s.log, x.1 ≤ s.time
  covers : ∀ d < cfg.numFilters, (s.unified.filters (after s.unified.testIdx d)).Covers s.log
    (s.time - ((cfg.numFilters - 1 - d) * epoch cfg + s.unified.tick))

theorem Rotating.insert (hs : s.Rotating) {elem : Int32} (hmeets : s.Meets (.insert elem)) :
    Rotating { s with unified := s.unified.insert elem, log := (s.time, elem) :: s.log } where
  tick_lt := hs.tick_lt
  time_le := by
    rintro x (_ | ⟨_, hx⟩)
    · exact le_rfl
    · exact hs.time_le x hx
  covers d hd := (hs.covers d hd).insert (hmeets _) s.time

theorem Rotating.tick (hs : s.Rotating) (h : s.unified.tick + 1 < cfg.lenEpoch) :
    Rotating { s with unified := { s.unified with tick := s.unified.tick + 1 }, time := s.time + 1 } where
  tick_lt := lt_max_of_lt_left h
  time_le x hx := (hs.time_le x hx).trans (le_succ _)
  covers d hd := by
    have hage : s.time + 1 - ((cfg.numFilters - 1 - d) * epoch cfg + (s.unified.tick + 1)) =
        s.time - ((cfg.numFilters - 1 - d) * epoch cfg + s.unified.tick) := by
      rw [← Nat.add_assoc, Nat.add_sub_add_right]
    exact hage ▸ hs.covers d hd

/-- At the end of an epoch every filter moves one place, the tested one is cleared and comes last. -/
theorem Rotating.rotate (hs : s.Rotating) (h : cfg.lenEpoch ≤ s.unified.tick + 1) :
    Rotating { s with
      unified :=
        { filters := update s.unified.filters s.unified.testIdx
            (s.unified.filters s.unified.testIdx).reset
          tick := 0
          testIdx := after s.unified.testIdx 1 }
      time := s.time + 1 } where
  tick_lt := lt_max_of_lt_right one_pos
  time_le x hx := (hs.time_le x hx).trans (le_succ _)
  covers d hd := by
    have htick : s.unified.tick + 1 = epoch cfg := by
      have hlt := hs.tick_lt
      unfold epoch at hlt ⊢
      omega
    dsimp only
    rw [after_one_after, add_zero]
    by_cases hlast : d + 1 = cfg.numFilters
    · refine covers_of_lt _ fun x hx => ?_
      have hle := hs.time_le x hx
      rw [show cfg.numFilters - 1 - d = 0 by omega]
      omega
    · rw [update_of_ne (after_ne (succ_pos d) (by omega))]
      have hage : s.time + 1 - (cfg.numFilters - 1 - d) * epoch cfg =
          s.time - ((cfg.numFilters - 1 - (d + 1)) * epoch cfg + s.unified.tick) := by
        rw [show cfg.numFilters - 1 - d = cfg.numFilters - 1 - (d + 1) + 1 by omega, Nat.add_mul,
          Nat.one_mul, ← htick, ← Nat.add_assoc, Nat.add_sub_add_right]
      exact hage ▸ hs.covers (d + 1) (by omega)

theorem Rotating.step {members : Fin cfg.numFilters → Bool} {saturate : Bool} {call : BloomCall}
    (hs : s.Rotating) (hmeets : s.Meets call)
    (h : (machine cfg members saturate).step s call = some s') : s'.Rotating := by
  cases call with
  | insert elem =>
    cases h
    exact hs.insert hmeets
  | update =>
    cases h
    unfold UnifiedBloomFilter.update
    split
    · exact hs.rotate ‹_›
    · exact hs.tick (by omega)

theorem Rotating.test (hs : s.Rotating) {elem : Int32}
    (hoften : cfg.ctrThresh ≤ s.windowCount elem) : s.unified.test elem = true := by
  have hpos : 0 < cfg.numFilters := zero_lt_of_lt cfg.two_le_numFilters
  have hcovers := hs.covers 0 hpos
  rw [after_zero] at hcovers
  refine hcovers.test (hoften.trans (countSince_anti ?_))
  have hle : (cfg.numFilters - 1) * cfg.lenEpoch ≤ (cfg.numFilters - 1) * epoch cfg :=
    Nat.mul_le_mul_left _ (le_max_left _ _)
  rw [Nat.sub_zero]
  omega

/-- **A row inserted at least `m_ctr_thresh` times in the last `F - 1` epochs is found**, in every run
whose inserts take no counter past 65535. -/
theorem no_false_negative (cfg : BloomConfig) (members : Fin cfg.numFilters → Bool) (saturate : Bool)
    {s : BloomRun cfg} (h : (machine cfg members saturate).ReachableWhen Meets s) (elem : Int32)
    (hoften : cfg.ctrThresh ≤ s.windowCount elem) : s.unified.test elem = true := by
  have hrotating : s.Rotating := by
    refine h.invariant (P := Rotating) ⟨?_, ?_, ?_⟩ fun _ _ _ hs hmeets hst => hs.step hmeets hst
    · exact lt_max_of_lt_right one_pos
    · exact fun x hx => absurd hx not_mem_nil
    · intro d _ e hash _
      exact (Nat.min_zero _).le.trans (Nat.zero_le _)
  exact hrotating.test hoften

/-! ## Counters that wrap round -/

theorem bump_of_not_saturate {f : CountingBloomFilter cfg} (h : f.saturate = false)
    (idx j : Fin cfg.numCounters) :
    (f.bump idx).counters j = f.counters j + ofNat (if idx = j then 1 else 0) := by
  simp only [bump, h, Bool.not_false, Bool.true_or, if_true]
  by_cases hj : j = idx
  · subst hj
    simp
  · simp [update_of_ne hj, Ne.symm hj]

theorem foldl_bump_of_not_saturate (elem : Int32) (hashes : List (UInt32 → UInt32))
    {f : CountingBloomFilter cfg} (h : f.saturate = false) (j : Fin cfg.numCounters) :
    (hashes.foldl (fun f hash => f.bump (index cfg elem hash)) f).saturate = false ∧
    (hashes.foldl (fun f hash => f.bump (index cfg elem hash)) f).counters j =
      f.counters j + ofNat (hashes.countP fun hash => index cfg elem hash = j) := by
  induction hashes generalizing f with
  | nil => simp [h]
  | cons hash hashes ih =>
    have hbump := ih (f := f.bump (index cfg elem hash)) ((bump_saturate f _).trans h)
    refine ⟨hbump.1, ?_⟩
    rw [foldl_cons, hbump.2, bump_of_not_saturate h, countP_cons, ofNat_add]
    simp only [decide_eq_true_eq]
    rw [add_right_comm, add_assoc]

theorem exists_repeated (cfg : BloomConfig) (saturate : Bool) (elem : Int32) :
    ∀ n < cfg.lenEpoch, ∃ s, (machine cfg (fun _ => false) saturate).Reachable s ∧
      s.time = n ∧ s.unified.tick = n ∧ countSince s.log 0 elem = n ∧
      ∀ i, (s.unified.filters i).saturate = false ∧
        ∀ j, (s.unified.filters i).counters j = ofNat n * ofNat (hits cfg elem j) := by
  intro n
  induction n with
  | zero =>
    intro _
    refine ⟨_, .start, rfl, rfl, rfl, fun i => ⟨rfl, fun j => ?_⟩⟩
    exact (zero_mul _).symm
  | succ n ih =>
    intro hn
    obtain ⟨s, hs, htime, htick, hlog, hfilters⟩ := ih (by omega)
    refine ⟨_, .next (.next hs trivial (i := .insert elem) rfl) trivial (i := .update) rfl, ?_⟩
    have hupdate : (s.unified.insert elem).update =
        { s.unified.insert elem with tick := s.unified.tick + 1 } := by
      have hcond : ¬ s.unified.tick + 1 ≥ cfg.lenEpoch := by omega
      exact if_neg hcond
    rw [hupdate]
    refine ⟨by rw [htime], by rw [htick], ?_, fun i => ?_⟩
    · rw [countSince_cons_self (Nat.zero_le _), hlog]
    · obtain ⟨hsat, hcounters⟩ := hfilters i
      have hinsert := foldl_bump_of_not_saturate elem cfg.hashFunctions hsat
      refine ⟨(hinsert ⟨0, by have := cfg.two_le_numCounters; omega⟩).1, fun j => ?_⟩
      refine (hinsert j).2.trans ?_
      rw [hcounters j, ofNat_add, add_mul]
      simp [hits]

def bloomHash (size i : ℕ) (key : UInt32) : UInt32 :=
  key * 2654435761 + UInt32.ofNat (i * (key.toNat * 2246822519 % (size - 1) + 1))

def defaultBloom : BloomConfig where
  numFilters := 2
  lenEpoch := 102400000
  numCounters := 1024
  ctrThresh := 128
  hashFunctions := (List.range 4).map (bloomHash 1024)
  two_le_numFilters := by decide
  two_le_numCounters := by decide
  ctrThresh_pos := by decide
  ctrThresh_le := by decide

/-- Row 0 activated on each of 65536 clock cycles is not found: its counters have wrapped round. -/
theorem wrapped_counter_not_found :
    ∃ s, (machine defaultBloom (fun _ => false) false).Reachable s ∧ s.windowCount 0 = 65536 ∧
      defaultBloom.ctrThresh ≤ 65536 ∧ s.unified.test 0 = false := by
  obtain ⟨s, hs, htime, -, hlog, hfilters⟩ :=
    exists_repeated defaultBloom false 0 65536 (by decide)
  refine ⟨s, hs, ?_, by decide, ?_⟩
  · rw [windowCount, htime]
    exact hlog
  · have hzero : ∀ j, (s.unified.filters s.unified.testIdx).counters j = 0 := by
      intro j
      rw [(hfilters _).2 j, show ofNat 65536 = 0 from rfl, zero_mul]
    rw [UnifiedBloomFilter.test, CountingBloomFilter.test, List.all_eq_false]
    refine ⟨bloomHash 1024 0, List.mem_map_of_mem (by decide), ?_⟩
    rw [hzero]
    decide

instance (s : BloomRun cfg) : DecidablePred s.Meets
  | .insert _ => inferInstanceAs (Decidable (∀ _, _ ∨ ∀ _, _))
  | .update => inferInstanceAs (Decidable True)

def smallBloom : BloomConfig where
  numFilters := 2
  lenEpoch := 2
  numCounters := 4
  ctrThresh := 2
  hashFunctions := (List.range 2).map (bloomHash 4)
  two_le_numFilters := by decide
  two_le_numCounters := by decide
  ctrThresh_pos := by decide
  ctrThresh_le := by decide

/-- Two inserts on both sides of a rotation are found in the filter that has seen both epochs. -/
theorem repeated_row_found :
    ∃ s, (machine smallBloom (fun _ => false) false).ReachableWhen Meets s ∧
      smallBloom.ctrThresh ≤ s.windowCount 5 ∧ s.unified.test 5 = true := by
  obtain ⟨s, hs, hoften⟩ := Machine.exists_reachableWhen (m := machine smallBloom (fun _ => false) false)
    (fun s call => decide (s.Meets call)) (fun _ _ => of_decide_eq_true)
    (P := fun s => smallBloom.ctrThresh ≤ s.windowCount 5)
    [.update, .insert 5, .update, .insert 5, .update] (by decide +kernel) (by decide +kernel)
  exact ⟨s, hs, hoften, no_false_negative smallBloom (fun _ => false) false hs 5 hoften⟩

end BloomRun

end MultiCoreMemory
