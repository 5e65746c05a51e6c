import Mathlib.Data.Nat.Find
import MultiCoreMemory.Lib.FirstLeast
import MultiCoreMemory.Lib.Machine
import MultiCoreMemory.Lib.Recency
import MultiCoreMemory.Sniper.Cache

/-!
# The LRU cache set (`cache/cache_set_lru.cc`)

A set with one attempt at a victim.  `m_lru_bits` gives every way its rank by recency, 0 for the way
used last.
-/

namespace MultiCoreMemory.Sniper

open FirstLeast Recency List Option Function OrderDual

variable {D : Type*}

/-- The lines of a set, the ranks, and the histogram of the ranks accessed. -/
structure CacheSetLRU (D : Type*) where
  lines : List (CacheLine D)
  lruBits : ℕ → UInt8
  /-- `m_access` of the set info -/
  access : ℕ → ℕ := fun _ => 0

namespace CacheSetLRU

def create (associativity : ℕ) (fresh : D) : CacheSetLRU D where
  lines := List.replicate associativity { data := fresh }
  lruBits := fun way => UInt8.ofNat way

variable (s : CacheSetLRU D)

def associativity : ℕ := s.lines.length

def isValid (way : ℕ) : Bool := s.lines[way]?.any CacheLine.isValid

def isValidReplacement (way : ℕ) : Bool :=
  s.lines[way]?.any fun line => line.cstate ≠ .SHARED_UPGRADING

variable (accessed tag : ℕ)

def agesLoop (lruBits : ℕ → UInt8) (ways : List ℕ) : ℕ → UInt8 :=
  ways.foldl (fun bits way =>
    if bits way < bits accessed then Function.update bits way (bits way + 1) else bits) lruBits

def moveToMRU : CacheSetLRU D :=
  { s with
    lruBits := Function.update (agesLoop accessed s.lruBits (List.range s.associativity)) accessed 0 }

/-- The loop for the victim: the way, and `max_bits`. -/
def victim : ℕ × UInt8 :=
  (List.range s.associativity).foldl (fun best way =>
    if best.2 < s.lruBits way && s.isValidReplacement way then (way, s.lruBits way) else best) (0, 0)

/-- `getReplacementIndex` with one attempt: the first invalid way, or the victim. -/
def getReplacementIndex : Option (ℕ × CacheSetLRU D) :=
  match (List.range s.associativity).find? fun way => !s.isValid way with
  | some way => some (way, s.moveToMRU way)
  | none =>
    let index := s.victim.1
    if index < s.associativity then some (index, s.moveToMRU index) else none

/-- `updateReplacementIndex`; the set info asserts that the rank is in its histogram. -/
def updateReplacementIndex : Option (CacheSetLRU D) :=
  let rank := (s.lruBits accessed).toNat
  if rank < s.associativity then
    some ({ s with access := Function.update s.access rank (s.access rank + 1) }.moveToMRU accessed)
  else none

/-- `read_line` and `write_line` of the line that `find` finds, with the way if it counts as a use. -/
def accessLine (updateReplacement : Bool) : Option (Option ℕ × CacheSetLRU D) :=
  match findWay tag s.lines with
  | some way =>
    if updateReplacement then (s.updateReplacementIndex way).map fun s => (some way, s)
    else some (none, s)
  | none => some (none, s)

def insert (line : CacheLine D) : Option (ℕ × CacheSetLRU D) :=
  s.getReplacementIndex.map fun (index, s) => (index, { s with lines := s.lines.set index line })

def modifyLine (f : CacheLine D → CacheLine D) : CacheSetLRU D :=
  match findWay tag s.lines with
  | some way => { s with lines := s.lines.modify way f }
  | none => s

def invalidate : CacheSetLRU D :=
  s.modifyLine tag fun line => { line with tag := invalidTag, cstate := .INVALID }

end CacheSetLRU

/-! ## The loops -/

namespace CacheSetLRU

variable {s : CacheSetLRU D} {accessed : ℕ}

theorem agesLoop_apply (lruBits : ℕ → UInt8) {ways : List ℕ} (hways : ways.Nodup) (way : ℕ) :
    agesLoop accessed lruBits ways way =
      if way ∈ ways ∧ lruBits way < lruBits accessed then lruBits way + 1 else lruBits way := by
  induction ways generalizing lruBits with
  | nil => simp [agesLoop]
  | cons first ways ih =>
    obtain ⟨hfirst, hrest⟩ := nodup_cons.mp hways
    unfold agesLoop at ih ⊢
    rw [foldl_cons]
    by_cases hyounger : lruBits first < lruBits accessed
    · -- the accessed way is not older than itself
      have hne : accessed ≠ first := by
        rintro rfl
        exact UInt8.lt_irrefl _ hyounger
      rw [if_pos hyounger, ih _ hrest, update_of_ne hne]
      by_cases heq : way = first
      · subst heq
        simp [hfirst, hyounger]
      · simp [heq]
    · rw [if_neg hyounger, ih _ hrest]
      by_cases heq : way = first
      · subst heq
        simp [hyounger]
      · simp [heq]

theorem lruBits_moveToMRU (s : CacheSetLRU D) {way : ℕ} (h : way < s.associativity) :
    (s.moveToMRU accessed).lruBits way =
      if way = accessed then 0
      else if s.lruBits way < s.lruBits accessed then s.lruBits way + 1 else s.lruBits way := by
  unfold moveToMRU
  by_cases heq : way = accessed
  · subst heq
    rw [if_pos rfl]
    exact update_self ..
  · rw [if_neg heq]
    show update _ accessed 0 way = _
    rw [update_of_ne heq, agesLoop_apply _ nodup_range]
    simp [h]

/-- The highest rank of a way that may be replaced, or the start if no such rank is above 0. -/
theorem victim_spec (s : CacheSetLRU D) :
    (∀ way < s.associativity, s.isValidReplacement way = true →
        (s.lruBits way).toNat ≤ s.victim.2.toNat) ∧
      (s.victim = (0, 0) ∨ 0 < s.victim.2.toNat ∧ s.victim.1 < s.associativity ∧
        s.isValidReplacement s.victim.1 = true ∧ s.victim.2 = s.lruBits s.victim.1) := by
  let value : ℕ × UInt8 → ℕ × ℕᵒᵈ := fun best => (best.1, toDual best.2.toNat)
  have hloop : value s.victim = ((range s.associativity).filter s.isValidReplacement).foldl
      (fun best way => if toDual (s.lruBits way).toNat < best.2 then
        (way, toDual (s.lruBits way).toNat) else best) (0, toDual 0) := by
    rw [foldl_filter]
    refine (foldl_hom value ?_).symm
    intro best way
    cases hreplace : s.isValidReplacement way with
    | false => simp
    | true =>
      by_cases hlt : best.2 < s.lruBits way
      · have hnat := UInt8.lt_iff_toNat_lt.mp hlt
        simp [value, hlt, hnat]
      · have hnat : ¬ best.2.toNat < (s.lruBits way).toNat := fun h => hlt (UInt8.lt_iff_toNat_lt.mpr h)
        simp [value, hlt, hnat]
  obtain ⟨hall, hfrom⟩ := foldl_keep_least (fun way => toDual (s.lruBits way).toNat)
    ((range s.associativity).filter s.isValidReplacement) (0, toDual 0)
  rw [← hloop] at hall hfrom
  refine ⟨fun way hlt hreplace => ?_, ?_⟩
  · exact hall way (mem_filter.mpr ⟨mem_range.mpr hlt, hreplace⟩)
  · rcases hfrom with hinit | ⟨hpos, hmem, hval⟩
    · obtain ⟨hway, hbits⟩ := Prod.ext_iff.mp hinit
      exact .inl (Prod.ext hway (UInt8.toNat_inj.mp hbits))
    · obtain ⟨hlt, hreplace⟩ := mem_filter.mp hmem
      exact .inr ⟨hpos, mem_range.mp hlt, hreplace, UInt8.toNat_inj.mp hval.symm⟩

end CacheSetLRU

/-! ## The ranks -/

namespace CacheSetLRU

variable {s : CacheSetLRU D} {order : List ℕ} {accessed way : ℕ}

structure RankedBy (s : CacheSetLRU D) (order : List ℕ) : Prop where
  ways : order.Perm (List.range s.associativity)
  rank : ∀ way < s.associativity, (s.lruBits way).toNat = order.idxOf way

variable (h : s.RankedBy order)

include h

theorem RankedBy.mem_iff : way ∈ order ↔ way < s.associativity := by
  rw [h.ways.mem_iff, mem_range]

theorem RankedBy.rank_lt (hlt : way < s.associativity) :
    (s.lruBits way).toNat < s.associativity := by
  have hplace := idxOf_lt_length_of_mem (h.mem_iff.mpr hlt)
  rwa [← h.rank way hlt, h.ways.length_eq, length_range] at hplace

omit h in
theorem RankedBy.create {n : ℕ} (h : n ≤ 256) (fresh : D) :
    (create n fresh).RankedBy (List.range n) where
  ways := by rw [CacheSetLRU.create, associativity, length_replicate]
  rank := by
    intro way hlt
    rw [CacheSetLRU.create, associativity, length_replicate] at hlt
    have hplace : (range n).idxOf way = way := by
      have hget := nodup_range.idxOf_getElem way (by simpa using hlt : way < (range n).length)
      rwa [getElem_range] at hget
    rw [hplace]
    exact Nat.mod_eq_of_lt (by omega)

theorem RankedBy.moveToMRU (hlt : accessed < s.associativity) :
    (s.moveToMRU accessed).RankedBy (moveToFront order accessed) where
  ways := (moveToFront_perm (h.mem_iff.mpr hlt)).trans h.ways
  rank := by
    intro way hway
    rw [lruBits_moveToMRU s hway]
    by_cases heq : way = accessed
    · subst heq
      rw [if_pos rfl, idxOf_moveToFront_self]
      rfl
    · rw [if_neg heq, idxOf_moveToFront (h.mem_iff.mpr hlt) (h.mem_iff.mpr hway) heq, ← h.rank way hway,
        ← h.rank accessed hlt]
      by_cases hyounger : s.lruBits way < s.lruBits accessed
      · -- the rank does not overflow: the accessed way has a higher one
        have hnat := UInt8.lt_iff_toNat_lt.mp hyounger
        have hbound := (s.lruBits accessed).toNat_lt
        rw [if_pos hyounger, if_pos hnat, UInt8.toNat_add]
        show ((s.lruBits way).toNat + 1) % 2 ^ 8 = _
        omega
      · rw [if_neg hyounger, if_neg fun hnat => hyounger (UInt8.lt_iff_toNat_lt.mpr hnat)]

theorem RankedBy.congr {s' : CacheSetLRU D} (hways : s'.associativity = s.associativity)
    (hbits : s'.lruBits = s.lruBits) : s'.RankedBy order where
  ways := hways ▸ h.ways
  rank := by
    rw [hways, hbits]
    exact h.rank

end CacheSetLRU

/-! ## Runs -/

structure LRURun (D : Type*) where
  set : CacheSetLRU D
  uses : List ℕ := []

inductive LRUCall (D : Type*) where
  /-- `read_line` or `write_line` of the line with this tag -/
  | access (tag : ℕ) (updateReplacement : Bool)
  | insert (line : CacheLine D)
  | invalidate (tag : ℕ)
  /-- `setCState` on the line with this tag -/
  | setCState (tag : ℕ) (cstate : CState)

namespace LRURun

open CacheSetLRU

def step (s : LRURun D) : LRUCall D → Option (LRURun D)
  | .access tag updateReplacement =>
    (s.set.accessLine tag updateReplacement).map fun (used, set) =>
      { set := set, uses := used.toList ++ s.uses }
  | .insert line =>
    (s.set.insert line).map fun (way, set) => { set := set, uses := way :: s.uses }
  | .invalidate tag => some { s with set := s.set.invalidate tag }
  | .setCState tag cstate =>
    some { s with set := s.set.modifyLine tag fun line => { line with cstate := cstate } }

def machine (n : ℕ) (fresh : D) : Machine (LRURun D) (LRUCall D) where
  init := { set := create n fresh }
  step := step

/-- The ways by recency of use; those not used yet come in the order of their numbers. -/
def order (s : LRURun D) : List ℕ := recency (List.range s.set.associativity) s.uses

end LRURun

namespace CacheSetLRU

variable {s s' : CacheSetLRU D} {index : ℕ}

theorem getReplacementIndex_eq_some (h : s.getReplacementIndex = some (index, s')) :
    index < s.associativity ∧ s' = s.moveToMRU index := by
  unfold getReplacementIndex at h
  split at h
  · rename_i way hfind
    obtain ⟨rfl, rfl⟩ := Prod.mk.inj (some.inj h)
    exact ⟨mem_range.mp (mem_of_find?_eq_some hfind), rfl⟩
  · dsimp only at h
    split at h
    · rename_i hlt
      obtain ⟨rfl, rfl⟩ := Prod.mk.inj (some.inj h)
      exact ⟨hlt, rfl⟩
    · cases h

theorem modifyLine_keeps (s : CacheSetLRU D) (tag : ℕ) (f : CacheLine D → CacheLine D) :
    (s.modifyLine tag f).associativity = s.associativity ∧
      (s.modifyLine tag f).lruBits = s.lruBits := by
  unfold modifyLine
  split
  · exact ⟨length_modify .., rfl⟩
  · exact ⟨rfl, rfl⟩

end CacheSetLRU

namespace LRURun

variable {n : ℕ} {fresh : D} {s s' : LRURun D} {call : LRUCall D}

/-- **What a call does to the ranks**: it uses a way, or it leaves them. -/
theorem step_cases (h : s.step call = some s') :
    s'.set.associativity = s.set.associativity ∧
      ((∃ way < s.set.associativity, s'.uses = way :: s.uses ∧
          s'.set.lruBits = (s.set.moveToMRU way).lruBits) ∨
        s'.uses = s.uses ∧ s'.set.lruBits = s.set.lruBits) := by
  cases call with
  | access tag updateReplacement =>
    obtain ⟨⟨used, set⟩, hline, rfl⟩ := map_eq_some_iff.mp h
    unfold CacheSetLRU.accessLine at hline
    split at hline
    · rename_i way hfind
      split at hline
      · obtain ⟨set', hupdate, hset⟩ := map_eq_some_iff.mp hline
        obtain ⟨rfl, rfl⟩ := Prod.mk.inj hset
        obtain ⟨line, hway, -⟩ := findWay_eq_some hfind
        have hlt := (List.getElem?_eq_some_iff.mp hway).1
        unfold CacheSetLRU.updateReplacementIndex at hupdate
        simp only [ite_none_right_eq_some, some.injEq] at hupdate
        obtain ⟨-, rfl⟩ := hupdate
        exact ⟨rfl, .inl ⟨way, hlt, rfl, rfl⟩⟩
      · obtain ⟨rfl, rfl⟩ := Prod.mk.inj (some.inj hline)
        exact ⟨rfl, .inr ⟨rfl, rfl⟩⟩
    · obtain ⟨rfl, rfl⟩ := Prod.mk.inj (some.inj hline)
      exact ⟨rfl, .inr ⟨rfl, rfl⟩⟩
  | insert line =>
    obtain ⟨⟨way, set⟩, hinsert, rfl⟩ := map_eq_some_iff.mp h
    obtain ⟨⟨index, set'⟩, hindex, hset⟩ := map_eq_some_iff.mp hinsert
    obtain ⟨rfl, rfl⟩ := Prod.mk.inj hset
    obtain ⟨hlt, rfl⟩ := CacheSetLRU.getReplacementIndex_eq_some hindex
    exact ⟨length_set, .inl ⟨index, hlt, rfl, rfl⟩⟩
  | invalidate tag =>
    cases h
    obtain ⟨hways, hbits⟩ := s.set.modifyLine_keeps tag _
    exact ⟨hways, .inr ⟨rfl, hbits⟩⟩
  | setCState tag cstate =>
    cases h
    obtain ⟨hways, hbits⟩ := s.set.modifyLine_keeps tag _
    exact ⟨hways, .inr ⟨rfl, hbits⟩⟩

structure Ranked (n : ℕ) (s : LRURun D) : Prop where
  ways : s.set.associativity = n
  used : ∀ way ∈ s.uses, way < n
  ranked : s.set.RankedBy s.order

theorem Ranked.step (h : Ranked n s) (hstep : s.step call = some s') : Ranked n s' := by
  obtain ⟨hways, ⟨way, hlt, huses, hbits⟩ | ⟨huses, hbits⟩⟩ := step_cases hstep
  · refine ⟨hways.trans h.ways, ?_, ?_⟩
    · rw [huses]
      exact forall_mem_cons.mpr ⟨h.ways ▸ hlt, h.used⟩
    · have hmoved := h.ranked.moveToMRU hlt
      rw [order, hways, huses, recency_cons]
      exact hmoved.congr hways hbits
  · refine ⟨hways.trans h.ways, huses ▸ h.used, ?_⟩
    rw [order, hways, huses]
    exact h.ranked.congr hways hbits

theorem ranked_of_reachable (hn : n ≤ 256) (h : (machine n fresh).Reachable s) : Ranked n s := by
  refine h.invariant (P := Ranked n) ?_ fun s call s' hs _ hstep => hs.step hstep
  have hways : (machine n fresh).init.set.associativity = n := length_replicate
  refine ⟨hways, (fun _ hway => by cases hway), ?_⟩
  rw [order, hways]
  exact CacheSetLRU.RankedBy.create hn fresh

theorem Ranked.lt_iff (h : Ranked n s) {i j : ℕ} (hi : i ∈ s.uses) (hj : j < n) (hne : j ≠ i) :
    s.set.lruBits i < s.set.lruBits j ↔ s.uses.idxOf i < s.uses.idxOf j := by
  have hways := h.ways
  have hmem : ∀ way ∈ s.uses, way ∈ range s.set.associativity := by
    intro way hway
    rw [hways]
    exact mem_range.mpr (h.used way hway)
  rw [UInt8.lt_iff_toNat_lt, h.ranked.rank i (hways ▸ h.used i hi), h.ranked.rank j (hways ▸ hj)]
  exact idxOf_recency_lt_iff hmem hi (mem_range.mpr (hways ▸ hj)) hne

end LRURun

/-! ## The way that is replaced -/

namespace CacheSetLRU

variable {s : CacheSetLRU D} {order : List ℕ} {way : ℕ}

def FirstInvalid (s : CacheSetLRU D) (way : ℕ) : Prop :=
  way < s.associativity ∧ s.isValid way = false ∧ ∀ earlier < way, s.isValid earlier = true

def LeastRecent (s : CacheSetLRU D) (order : List ℕ) (way : ℕ) : Prop :=
  way < s.associativity ∧ s.isValidReplacement way = true ∧
    ∀ other < s.associativity, s.isValidReplacement other = true →
      order.idxOf other ≤ order.idxOf way

/-- The replaced way: the first invalid one, or the least recently used that is not being upgraded. -/
def ReplacesRightWay (s : CacheSetLRU D) (order : List ℕ) : Prop :=
  ∃ index s', s.getReplacementIndex = some (index, s') ∧
    (∀ way, s.FirstInvalid way → index = way) ∧
    ((∀ way < s.associativity, s.isValid way = true) →
      (∃ way < s.associativity, s.isValidReplacement way = true) → s.LeastRecent order index)

theorem exists_firstInvalid (h : ∃ way < s.associativity, s.isValid way = false) :
    ∃ way, s.FirstInvalid way := by
  obtain ⟨hlt, hinvalid⟩ := Nat.find_spec h
  refine ⟨Nat.find h, hlt, hinvalid, fun earlier hearlier => ?_⟩
  have hmin := Nat.find_min h hearlier
  rw [not_and, Bool.not_eq_false] at hmin
  exact hmin (hearlier.trans hlt)

theorem getReplacementIndex_of_firstInvalid (h : s.FirstInvalid way) :
    s.getReplacementIndex = some (way, s.moveToMRU way) := by
  obtain ⟨hlt, hinvalid, hearlier⟩ := h
  have hfind : (range s.associativity).find? (fun way => !s.isValid way) = some way := by
    rw [find?_range_eq_some]
    refine ⟨by simp [hinvalid], mem_range.mpr hlt, ?_⟩
    intro earlier hlt
    simp [hearlier earlier hlt]
  rw [getReplacementIndex, hfind]

theorem getReplacementIndex_of_valid (hall : ∀ way < s.associativity, s.isValid way = true)
    (hpos : 0 < s.associativity) :
    s.getReplacementIndex = some (s.victim.1, s.moveToMRU s.victim.1) := by
  have hfind : (range s.associativity).find? (fun way => !s.isValid way) = none := by
    rw [find?_range_eq_none]
    intro way hlt
    simp [hall way hlt]
  have hlt : s.victim.1 < s.associativity := by
    obtain ⟨-, hstart | ⟨-, hlt, -⟩⟩ := s.victim_spec
    · rw [hstart]
      exact hpos
    · exact hlt
  rw [getReplacementIndex, hfind]
  exact if_pos hlt

/-- **The search misses a way of rank 0**, unless it is way 0. -/
theorem RankedBy.leastRecent_victim_iff (h : s.RankedBy order) (hpos : 0 < s.associativity) :
    s.LeastRecent order s.victim.1 ↔
      s.isValidReplacement 0 = true ∨
        ∃ way < s.associativity, s.isValidReplacement way = true ∧ order.idxOf way ≠ 0 := by
  obtain ⟨hmax, hstart | ⟨hrank, hlt, hreplace, hbits⟩⟩ := s.victim_spec
  · -- no way that may be replaced has a rank above 0
    rw [hstart] at hmax ⊢
    have hzero : ∀ way < s.associativity, s.isValidReplacement way = true → order.idxOf way = 0 := by
      intro way hlt hreplace
      have hle := hmax way hlt hreplace
      rw [h.rank way hlt] at hle
      exact Nat.le_zero.mp hle
    constructor
    · intro hleast
      exact .inl hleast.2.1
    · rintro (hreplace | ⟨way, hlt, hreplace, hplace⟩)
      · refine ⟨hpos, hreplace, fun other hother hmay => ?_⟩
        rw [hzero other hother hmay]
        exact Nat.zero_le _
      · exact absurd (hzero way hlt hreplace) hplace
  · rw [hbits] at hmax hrank
    rw [h.rank _ hlt] at hmax hrank
    constructor
    · intro _
      exact .inr ⟨_, hlt, hreplace, Nat.ne_of_gt hrank⟩
    · intro _
      refine ⟨hlt, hreplace, fun other hother hmay => ?_⟩
      have hle := hmax other hother hmay
      rwa [h.rank other hother] at hle

theorem RankedBy.replacesRightWay_iff (h : s.RankedBy order) (hpos : 0 < s.associativity) :
    s.ReplacesRightWay order ↔
      (∃ way < s.associativity, s.isValid way = false) ∨
        (∀ way < s.associativity, s.isValidReplacement way = false) ∨
        s.isValidReplacement 0 = true ∨
        ∃ way < s.associativity, s.isValidReplacement way = true ∧ order.idxOf way ≠ 0 := by
  by_cases hall : ∀ way < s.associativity, s.isValid way = true
  · have hindex := getReplacementIndex_of_valid hall hpos
    have hnone : ¬ ∃ way < s.associativity, s.isValid way = false := by
      rintro ⟨way, hlt, hinvalid⟩
      rw [hall way hlt] at hinvalid
      cases hinvalid
    have hnofirst : ∀ way, ¬ s.FirstInvalid way := fun way hfirst =>
      hnone ⟨way, hfirst.1, hfirst.2.1⟩
    rw [← h.leastRecent_victim_iff hpos]
    constructor
    · rintro ⟨index, s', hget, -, hleast⟩
      rw [hindex] at hget
      obtain ⟨rfl, rfl⟩ := Prod.mk.inj (some.inj hget)
      by_cases hmay : ∃ way < s.associativity, s.isValidReplacement way = true
      · exact .inr (.inr (hleast hall hmay))
      · refine .inr (.inl fun way hlt => ?_)
        rw [← Bool.not_eq_true]
        exact fun hreplace => hmay ⟨way, hlt, hreplace⟩
    · intro hcond
      refine ⟨_, _, hindex, fun way hfirst => absurd hfirst (hnofirst way), fun _ hmay => ?_⟩
      rcases hcond with hinvalid | hstuck | hleast
      · exact absurd hinvalid hnone
      · obtain ⟨way, hlt, hreplace⟩ := hmay
        rw [hstuck way hlt] at hreplace
        cases hreplace
      · exact hleast
  · -- the first invalid way is found
    have hsome : ∃ way < s.associativity, s.isValid way = false := by
      simpa using hall
    obtain ⟨first, hfirst⟩ := exists_firstInvalid hsome
    refine iff_of_true ⟨_, _, getReplacementIndex_of_firstInvalid hfirst, ?_, fun h => absurd h hall⟩
      (.inl hsome)
    intro way hway
    have hsame := getReplacementIndex_of_firstInvalid hfirst
    rw [getReplacementIndex_of_firstInvalid hway] at hsame
    exact (Prod.mk.inj (some.inj hsame)).1.symm

end CacheSetLRU

namespace LRURun

open CacheSetLRU

variable {n : ℕ} {fresh : D} {s : LRURun D}

theorem Ranked.step_returns (h : Ranked n s) (hpos : 1 ≤ n) (call : LRUCall D) :
    ∃ s', s.step call = some s' := by
  have hways : 0 < s.set.associativity := h.ways ▸ hpos
  cases call with
  | access tag updateReplacement =>
    simp only [LRURun.step, CacheSetLRU.accessLine]
    split
    · rename_i way hfind
      obtain ⟨line, hway, -⟩ := findWay_eq_some hfind
      have hrank := h.ranked.rank_lt (List.getElem?_eq_some_iff.mp hway).1
      cases updateReplacement <;> simp [CacheSetLRU.updateReplacementIndex, hrank]
    · simp
  | insert line =>
    have hindex : ∃ index set, s.set.getReplacementIndex = some (index, set) := by
      by_cases hall : ∀ way < s.set.associativity, s.set.isValid way = true
      · exact ⟨_, _, getReplacementIndex_of_valid hall hways⟩
      · obtain ⟨first, hfirst⟩ := exists_firstInvalid (by simpa using hall)
        exact ⟨_, _, getReplacementIndex_of_firstInvalid hfirst⟩
    obtain ⟨index, set, hindex⟩ := hindex
    simp [LRURun.step, CacheSetLRU.insert, hindex]
  | invalidate tag => exact ⟨_, rfl⟩
  | setCState tag cstate => exact ⟨_, rfl⟩

/-- **Every LRU set ranks its ways by recency, and replaces the right way except in one case**: all ways
are valid, and the only one that is not being upgraded is the way used last, and not way 0. -/
theorem lru_replaces_right_way_iff (hpos : 1 ≤ n) (hn : n ≤ 256)
    (h : (machine n fresh).Reachable s) :
    (∀ call, ∃ s', s.step call = some s') ∧
      s.order.Perm (List.range n) ∧
      (∀ way < n, (s.set.lruBits way).toNat = s.order.idxOf way) ∧
      (∀ i ∈ s.uses, ∀ j < n, j ≠ i →
        (s.set.lruBits i < s.set.lruBits j ↔ s.uses.idxOf i < s.uses.idxOf j)) ∧
      (s.set.ReplacesRightWay s.order ↔
        (∃ way < n, s.set.isValid way = false) ∨
          (∀ way < n, s.set.isValidReplacement way = false) ∨
          s.set.isValidReplacement 0 = true ∨
          ∃ way < n, s.set.isValidReplacement way = true ∧ s.order.idxOf way ≠ 0) := by
  have hranked := ranked_of_reachable hn h
  have hiff := hranked.ranked.replacesRightWay_iff (hranked.ways ▸ hpos)
  have hways := hranked.ranked.ways
  have hrank := hranked.ranked.rank
  rw [hranked.ways] at hiff hways hrank
  exact ⟨hranked.step_returns hpos, hways, hrank, fun i hi j hj hne => hranked.lt_iff hi hj hne, hiff⟩

/-- In a set of two ways the first line is accessed, then upgraded: the other one is replaced. -/
theorem upgrading_line_is_kept : ∃ s : LRURun Unit, (machine 2 ()).Reachable s ∧
    s.set.getReplacementIndex.map Prod.fst = some 1 ∧ s.set.ReplacesRightWay s.order := by
  obtain ⟨s, hs, hindex, hreplace, hplace⟩ := Machine.exists_reachable (m := machine 2 ())
    (P := fun s => s.set.getReplacementIndex.map Prod.fst = some 1 ∧
      s.set.isValidReplacement 1 = true ∧ s.order.idxOf 1 ≠ 0)
    [.insert { tag := 5, cstate := .SHARED, data := () },
      .insert { tag := 6, cstate := .SHARED, data := () },
      .access 5 true, .setCState 5 .SHARED_UPGRADING] (by decide +kernel)
  have hiff := (lru_replaces_right_way_iff (by decide) (by decide) hs).2.2.2.2
  exact ⟨s, hs, hindex, hiff.mpr (.inr (.inr (.inr ⟨1, by decide, hreplace, hplace⟩)))⟩

/-- Two lines are inserted in a set of two ways, and the first one is upgraded: it is replaced all the
same, although the other way could be. -/
theorem upgrading_line_is_replaced : ∃ s : LRURun Unit, (machine 2 ()).Reachable s ∧
    s.set.isValid 0 = true ∧ s.set.isValid 1 = true ∧ s.set.isValidReplacement 0 = false ∧
    s.set.isValidReplacement 1 = true ∧ s.set.getReplacementIndex.map Prod.fst = some 0 ∧
    ¬ s.set.ReplacesRightWay s.order := by
  obtain ⟨s, hs, hvalid, hvalid0, hvalid1, hreplace0, hreplace1, hindex⟩ :=
    Machine.exists_reachable (m := machine 2 ())
    (P := fun s => (∀ way < s.set.associativity, s.set.isValid way = true) ∧
      s.set.isValid 0 = true ∧ s.set.isValid 1 = true ∧ s.set.isValidReplacement 0 = false ∧
      (1 < s.set.associativity ∧ s.set.isValidReplacement 1 = true) ∧
      s.set.getReplacementIndex.map Prod.fst = some 0)
    [.insert { tag := 5, cstate := .SHARED, data := () },
      .insert { tag := 6, cstate := .SHARED, data := () },
      .setCState 5 .SHARED_UPGRADING] (by decide +kernel)
  refine ⟨s, hs, hvalid0, hvalid1, hreplace0, hreplace1.2, hindex, ?_⟩
  rintro ⟨index, set, hget, -, hleast⟩
  rw [hget] at hindex
  obtain rfl := some.inj hindex
  obtain ⟨-, hreplace, -⟩ := hleast hvalid ⟨1, hreplace1⟩
  rw [hreplace0] at hreplace
  cases hreplace

end LRURun

end MultiCoreMemory.Sniper
