import Mathlib.Data.Bool.Count
import MultiCoreMemory.Lib.Machine
import MultiCoreMemory.Sniper.Cache

/-!
# The NRU cache set (`cache/cache_set_nru.cc`)

Every touch sets the bit of a way and adds 1 to `m_num_bits_set`, also where the bit was set; when the
counter, a `UInt8`, gets to the associativity, all bits are cleared.
-/

namespace MultiCoreMemory.Sniper

open List

/-- `m_lru_bits`, which are 0 or 1, and `m_num_bits_set`. -/
structure NRUBits where
  lruBits : List Bool
  numBitsSet : UInt8 := 0
  deriving DecidableEq

namespace NRUBits

def touch (b : NRUBits) (accessed : ℕ) : NRUBits :=
  let marked : NRUBits := ⟨b.lruBits.set accessed true, b.numBitsSet + 1⟩
  if marked.numBitsSet.toNat = b.lruBits.length then ⟨replicate b.lruBits.length false, 0⟩
  else marked

structure Counted (b : NRUBits) : Prop where
  few : b.lruBits.length ≤ 255
  count : b.numBitsSet.toNat = b.lruBits.count true

variable {b : NRUBits} {way : ℕ}

@[simp]
theorem length_touch (b : NRUBits) (way : ℕ) : (b.touch way).lruBits.length = b.lruBits.length := by
  simp only [touch]
  split <;> simp

/-- A touch of a way whose bit is 0 keeps the count, and clears the bits if no other one is 0. -/
theorem touch_unmarked (h : b.Counted) (hbit : b.lruBits[way]? = some false) :
    (b.touch way).Counted ∧ ((b.touch way).lruBits = replicate b.lruBits.length false ↔
      b.lruBits.count false = 1) := by
  obtain ⟨hlt, hget⟩ := List.getElem?_eq_some_iff.mp hbit
  have hset : (b.lruBits.set way true).count true = b.lruBits.count true + 1 := by
    simp [List.count_set hlt, hget]
  have hsum := count_false_add_count_true b.lruBits
  have hzero : 0 < b.lruBits.count false := count_pos_iff.mpr (mem_of_getElem? hbit)
  have hsucc : (b.numBitsSet + 1).toNat = b.lruBits.count true + 1 := by
    have hfew := h.few
    rw [UInt8.toNat_add, h.count]
    exact Nat.mod_eq_of_lt (by omega : b.lruBits.count true + 1 < 2 ^ 8)
  by_cases hlast : (b.numBitsSet + 1).toNat = b.lruBits.length
  · simp only [touch, hlast, if_true, true_iff]
    exact ⟨⟨by simpa using h.few, by simp [count_replicate]⟩, by omega⟩
  · simp only [touch, hlast, if_false]
    refine ⟨⟨by simpa using h.few, hsucc.trans hset.symm⟩, ?_, fun hone => by omega⟩
    intro hcleared
    rw [hcleared] at hset
    simp [count_replicate] at hset

end NRUBits

/-! ## The set -/

structure CacheSetNRU (D : Type*) extends NRUBits where
  lines : List (CacheLine D)
  replacementPointer : UInt8 := 0
  deriving DecidableEq

namespace CacheSetNRU

variable {D : Type*}

section

variable (s : CacheSetNRU D)

def associativity : ℕ := s.lruBits.length

def isValidReplacement (way : ℕ) : Bool :=
  s.lines[way]?.any fun line => line.cstate ≠ .SHARED_UPGRADING

def updateReplacementIndex (accessed : ℕ) : CacheSetNRU D :=
  { s with toNRUBits := s.toNRUBits.touch accessed }

/-- `m_replacement_pointer = (m_replacement_pointer + 1) % m_associativity`. -/
def advance : CacheSetNRU D :=
  { s with replacementPointer := UInt8.ofNat ((s.replacementPointer.toNat + 1) % s.associativity) }

/-- The second loop of `getReplacementIndex`, for so many rounds; then the error. -/
def searchVictim (haveZeroBit : Bool) : ℕ → CacheSetNRU D → Option (ℕ × CacheSetNRU D)
  | 0, _ => none
  | rounds + 1, s =>
    let index := s.replacementPointer.toNat
    if (s.lruBits[index]? = some false || !haveZeroBit) && s.isValidReplacement index then
      some (index, s.advance.updateReplacementIndex index)
    else searchVictim haveZeroBit rounds s.advance

/-- The first invalid way. -/
def emptyWay : Option ℕ := (range s.associativity).find? fun way => !s.lines[way]?.any CacheLine.isValid

/-- `have_zero_bit`: a line that may be replaced has its bit 0. -/
def haveZeroBit : Bool :=
  (range s.associativity).any fun way => s.lruBits[way]? = some false && s.isValidReplacement way

/-- `getReplacementIndex`: the first invalid way, or the victim. -/
def getReplacementIndex : Option (ℕ × CacheSetNRU D) :=
  match s.emptyWay with
  | some way => some (way, s.updateReplacementIndex way)
  | none => searchVictim s.haveZeroBit s.associativity s

end

/-- `read_line` or `write_line` of the line with this tag, and `insert`. -/
inductive Call (D : Type*) where
  | access (tag : ℕ)
  | insert (line : CacheLine D)

/-- The way that a call touches, and the set after it; an access that misses touches none. -/
def call (s : CacheSetNRU D) : Call D → Option (ℕ × CacheSetNRU D)
  | .access tag => (findWay tag s.lines).map fun way => (way, s.updateReplacementIndex way)
  | .insert line =>
    s.getReplacementIndex.map fun (way, s) => (way, { s with lines := s.lines.set way line })

def machine (n : ℕ) (fresh : D) : Machine (CacheSetNRU D) (Call D) where
  init :=
    { lines := replicate n { data := fresh }, lruBits := replicate n false }
  step s c := (s.call c).map Prod.snd

/-- The bit is 0 of the way that is accessed, or of the first invalid way before an insertion, or of a
line that may be replaced if the set is full. -/
def TouchesUnmarked (s : CacheSetNRU D) : Call D → Prop
  | .access tag => ∀ way ∈ findWay tag s.lines, s.lruBits[way]? = some false
  | .insert _ => (∀ way ∈ s.emptyWay, s.lruBits[way]? = some false) ∧ (s.emptyWay = none → s.haveZeroBit)

variable {way : ℕ} {s s' : CacheSetNRU D}

theorem searchVictim_bits {haveZeroBit : Bool} {rounds : ℕ}
    (h : searchVictim haveZeroBit rounds s = some (way, s')) :
    s'.toNRUBits = s.toNRUBits.touch way ∧ (haveZeroBit → s.lruBits[way]? = some false) := by
  induction rounds generalizing s with
  | zero => cases h
  | succ rounds ih =>
    simp only [searchVictim] at h
    split at h
    · rename_i hvictim
      cases h
      refine ⟨rfl, fun hzero => ?_⟩
      simp only [hzero, Bool.not_true, Bool.or_false, Bool.and_eq_true, decide_eq_true_eq] at hvictim
      exact hvictim.1
    · exact (ih h :)

/-- **A call touches one way.** -/
theorem call_bits {c : Call D} (h : s.call c = some (way, s')) :
    s'.toNRUBits = s.toNRUBits.touch way ∧ (TouchesUnmarked s c → s.lruBits[way]? = some false) := by
  cases c with
  | access tag =>
    obtain ⟨w, hfind, heq⟩ := Option.map_eq_some_iff.mp h
    cases heq
    exact ⟨rfl, fun hunmarked => hunmarked way hfind⟩
  | insert line =>
    obtain ⟨⟨w, s₁⟩, hindex, heq⟩ := Option.map_eq_some_iff.mp h
    cases heq
    unfold getReplacementIndex at hindex
    split at hindex
    · rename_i way hempty
      cases hindex
      exact ⟨rfl, fun hunmarked => hunmarked.1 way hempty⟩
    · rename_i hfull
      obtain ⟨hbits, hzero⟩ := searchVictim_bits hindex
      exact ⟨hbits, fun hunmarked => hzero (hunmarked.2 hfull)⟩

/-- **The reference bits are counted and cleared correctly** in a set of at most 255 ways, as long as no
call touches a way whose bit is set. -/
theorem nru_bits_counted (n : ℕ) (hn : n ≤ 255) (fresh : D) (s : CacheSetNRU D)
    (h : (machine n fresh).ReachableWhen TouchesUnmarked s) :
    s.numBitsSet.toNat = s.lruBits.count true ∧ ∀ way, s.lruBits[way]? = some false →
      ((s.updateReplacementIndex way).lruBits = replicate n false ↔
        s.lruBits.count false = 1) := by
  have hinv : s.Counted ∧ s.lruBits.length = n := by
    refine h.invariant (P := fun s => s.Counted ∧ s.lruBits.length = n) ?_ ?_
    · refine ⟨⟨?_, ?_⟩, ?_⟩ <;> simp [machine, count_replicate, hn]
    · rintro s c s' ⟨hs, hlen⟩ hunmarked hstep
      obtain ⟨⟨way, s₁⟩, hcall, rfl⟩ := Option.map_eq_some_iff.mp hstep
      obtain ⟨hbits, hbit⟩ := call_bits hcall
      rw [hbits]
      exact ⟨(NRUBits.touch_unmarked hs (hbit hunmarked)).1, by simpa using hlen⟩
  exact ⟨hinv.1.count, fun way hbit => hinv.2 ▸ (NRUBits.touch_unmarked hinv.1 hbit).2⟩

def lineOf (tag : ℕ) : CacheLine Unit := { tag := tag, data := () }

instance (s : CacheSetNRU Unit) : DecidablePred (TouchesUnmarked s)
  | .access _ => inferInstanceAs (Decidable (∀ _ ∈ _, _))
  | .insert _ => inferInstanceAs (Decidable (_ ∧ _))

/-- Three lines fill a set of three ways and clear its bits; the fourth replaces the first one, and the
second is accessed. -/
theorem two_touches_counted : ∃ s, (machine 3 ()).ReachableWhen TouchesUnmarked s ∧
    s.lruBits = [true, true, false] ∧ s.numBitsSet.toNat = 2 := by
  obtain ⟨s, hs, hbits⟩ := Machine.exists_reachableWhen (m := machine 3 ()) (P := fun s =>
      s.lruBits = [true, true, false])
    (fun s c => decide (TouchesUnmarked s c)) (fun s c => of_decide_eq_true)
    [.insert (lineOf 1), .insert (lineOf 2), .insert (lineOf 3), .insert (lineOf 4), .access 2]
    (by decide) (by decide)
  refine ⟨s, hs, hbits, (nru_bits_counted 3 (by decide) () s hs).1.trans ?_⟩
  rw [hbits]
  rfl

/-- **A second touch of a way is counted again**, and a third clears the bits with two of them 0. -/
theorem second_touch_counted_again : ∃ s, (machine 3 ()).Reachable s ∧ s.numBitsSet = 2 ∧
    s.lruBits = [true, false, false] ∧ (s.updateReplacementIndex 0).lruBits = [false, false, false] :=
  Machine.exists_reachable [.insert (lineOf 1), .access 1] (by decide)

end CacheSetNRU

end MultiCoreMemory.Sniper
