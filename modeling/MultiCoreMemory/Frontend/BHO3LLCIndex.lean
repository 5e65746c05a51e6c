import MultiCoreMemory.Base.Utils
import MultiCoreMemory.Frontend.BHO3LLC
import MultiCoreMemory.Lib.MaskShift

/-!
# Index and tag of the BHO3 cache (`bhO3/bhllc.cpp`, `bhO3/bhllc.h`)

The constructor derives the index mask from the number of sets by subtraction and the tag shift from it
by a truncated logarithm.
-/

namespace MultiCoreMemory

open MaskShift BitVec Nat

/-- The sizes given to the constructor: the capacity is multiplied by the number of cores, and the line
size is a power of two.  All sizes are `int`s. -/
structure LLCGeometry where
  capacityPerCore : ℕ
  numCores : ℕ
  lineBits : ℕ
  associativity : ℕ
  fits : capacityPerCore * numCores < 2 ^ 31
  oneSet : 1 ≤ capacityPerCore * numCores / (2 ^ lineBits * associativity)

namespace LLCGeometry

variable (g : LLCGeometry)

def sizeBytes : ℕ := g.capacityPerCore * g.numCores

def linesizeBytes : ℕ := 2 ^ g.lineBits

def setSize : ℕ := g.sizeBytes / (g.linesizeBytes * g.associativity)

def indexMask : BitVec 64 := BitVec.ofNat 64 (g.setSize - 1)

def indexOffset : ℕ := calcLog2 g.linesizeBytes

def tagOffset : ℕ := calcLog2 g.setSize + g.indexOffset

variable (addr a : BitVec 64) {i : ℕ}

def getIndex : BitVec 32 :=
  (addr.sshiftRight g.indexOffset &&& g.indexMask).setWidth 32

def getTag : BitVec 64 := addr.sshiftRight g.tagOffset

def SameLine (b : BitVec 64) : Prop := a.toNat / g.linesizeBytes = b.toNat / g.linesizeBytes

/-! ## The number of a line -/

def lineOf : BitVec 64 := addr.sshiftRight g.lineBits

theorem indexOffset_eq : g.indexOffset = g.lineBits := calcLog2_two_pow g.lineBits

theorem setSize_pos : 0 < g.setSize := g.oneSet

theorem setSize_mul_le : g.setSize * 2 ^ g.lineBits < 2 ^ 31 := by
  have hassoc : g.associativity ≠ 0 := by
    intro hzero
    have hone := g.oneSet
    rw [hzero, Nat.mul_zero, Nat.div_zero] at hone
    omega
  calc g.setSize * 2 ^ g.lineBits
      ≤ g.setSize * (2 ^ g.lineBits * g.associativity) :=
        Nat.mul_le_mul_left _ (Nat.le_mul_of_pos_right _ (Nat.pos_of_ne_zero hassoc))
    _ ≤ g.sizeBytes := Nat.div_mul_le_self _ _
    _ < 2 ^ 31 := g.fits

theorem setSize_lt : g.setSize < 2 ^ 31 :=
  lt_of_le_of_lt (Nat.le_mul_of_pos_right _ (Nat.two_pow_pos _)) g.setSize_mul_le

theorem log_add_lineBits_lt : log 2 g.setSize + g.lineBits < 31 := by
  have hpow : 2 ^ (log 2 g.setSize + g.lineBits) < 2 ^ 31 := by
    rw [pow_add]
    calc 2 ^ log 2 g.setSize * 2 ^ g.lineBits
        ≤ g.setSize * 2 ^ g.lineBits :=
          mul_le_mul_right _ (pow_log_le_self 2 g.setSize_pos.ne')
      _ < 2 ^ 31 := g.setSize_mul_le
  exact (Nat.pow_lt_pow_iff_right (by omega)).mp hpow

theorem sameLine_iff (b : BitVec 64) : g.SameLine a b ↔ g.lineOf a = g.lineOf b := by
  have hlt := g.log_add_lineBits_lt
  unfold SameLine lineOf linesizeBytes
  rw [← shiftRight_eq_div_pow, ← shiftRight_eq_div_pow, ← toNat_ushiftRight,
    ← toNat_ushiftRight, toNat_inj, ushiftRight_eq_iff, sshiftRight_eq_iff (by omega)]

theorem getLsbD_indexMask (h : i < 64) : g.indexMask.getLsbD i = (g.setSize - 1).testBit i := by
  rw [indexMask, BitVec.getLsbD_ofNat, decide_eq_true h, Bool.true_and]

theorem getIndex_eq_iff (b : BitVec 64) :
    g.getIndex a = g.getIndex b ↔ g.lineOf a &&& g.indexMask = g.lineOf b &&& g.indexMask := by
  have hmask : g.indexMask.toNat < 2 ^ 32 := by
    have hlt := g.setSize_lt
    rw [indexMask, BitVec.toNat_ofNat, mod_eq_of_lt (by omega)]
    omega
  have htrunc : ∀ x : BitVec 64,
      ((x &&& g.indexMask).setWidth 32).toNat = (x &&& g.indexMask).toNat := by
    intro x
    rw [BitVec.toNat_setWidth, BitVec.toNat_and]
    exact mod_eq_of_lt (lt_of_le_of_lt and_le_right hmask)
  unfold getIndex lineOf
  rw [indexOffset_eq, ← toNat_inj, htrunc, htrunc, toNat_inj]

theorem getTag_eq : g.getTag a = (g.lineOf a).sshiftRight (log 2 g.setSize) := by
  rw [getTag, lineOf, tagOffset, indexOffset_eq, calcLog2_eq_log, add_comm, sshiftRight_add]

/-! ## Two lines with one index and one tag -/

theorem sshiftRight_twoPow {n : ℕ} (h : i < 63) :
    (twoPow 64 i).sshiftRight n = twoPow 64 i >>> n := by
  refine sshiftRight_eq_of_msb_false ?_
  rw [msb_eq_getLsbD_last, getLsbD_twoPow, Bool.and_eq_false_imp]
  intro _
  exact decide_eq_false (by omega)

theorem lineOf_twoPow (h : g.lineBits + i < 63) :
    g.lineOf (twoPow 64 (g.lineBits + i)) = twoPow 64 i := by
  rw [lineOf, sshiftRight_twoPow h]
  refine eq_of_getLsbD_eq fun j hj => ?_
  have hbit : g.lineBits + i = g.lineBits + j ↔ i = j := by omega
  have hsum : g.lineBits + i < 64 := by omega
  have hi : i < 64 := by omega
  simp only [getLsbD_ushiftRight, getLsbD_twoPow, hsum, hi, hbit]

theorem lineOf_zero : g.lineOf 0 = 0 := zero_sshiftRight

/-- Index and tag of a line do not show a bit below the tag that the mask lacks. -/
theorem gap_confuses_lines (hi : i < log 2 g.setSize) (hgap : (g.setSize - 1).testBit i = false) :
    g.getIndex (twoPow 64 (g.lineBits + i)) = g.getIndex 0 ∧
      g.getTag (twoPow 64 (g.lineBits + i)) = g.getTag 0 ∧
      ¬ g.SameLine (twoPow 64 (g.lineBits + i)) 0 := by
  have hlt := g.log_add_lineBits_lt
  rw [getIndex_eq_iff, getTag_eq, getTag_eq, sameLine_iff, lineOf_zero, lineOf_twoPow g (by omega)]
  refine ⟨?_, ?_, ?_⟩
  · refine eq_of_getLsbD_eq fun j hj => ?_
    rw [getLsbD_and, getLsbD_and, getLsbD_twoPow, getLsbD_indexMask g hj]
    by_cases hij : i = j
    · rw [← hij, hgap, Bool.and_false, Bool.and_false]
    · simp [hij]
  · refine (sshiftRight_eq_iff (by omega)).mpr fun j hj _ => ?_
    rw [getLsbD_twoPow]
    have hij : i ≠ j := by omega
    simp [hij]
  · intro hzero
    have hbit := congrArg (fun z => getLsbD z i) hzero
    have hi64 : i < 64 := by omega
    simp [hi64] at hbit

/-- **Index and tag tell lines apart exactly when the number of sets is a power of two.** -/
theorem lines_told_apart_iff (g : LLCGeometry) :
    (∀ a b : BitVec 64, g.getIndex a = g.getIndex b ∧ g.getTag a = g.getTag b ↔ g.SameLine a b) ↔
      ∃ k, g.setSize = 2 ^ k := by
  constructor
  · intro h
    by_contra hpow
    obtain ⟨i, hi, hgap⟩ := (gap_iff g.setSize_pos.ne').mpr hpow
    obtain ⟨hindex, htag, hline⟩ := g.gap_confuses_lines hi hgap
    exact hline ((h _ _).mp ⟨hindex, htag⟩)
  · rintro ⟨k, hk⟩ a b
    have hlog : log 2 g.setSize = k := by rw [hk, log_pow (by omega)]
    have hlt := g.log_add_lineBits_lt
    rw [sameLine_iff, getIndex_eq_iff, getTag_eq, getTag_eq, hlog]
    constructor
    · rintro ⟨hindex, htag⟩
      refine eq_of_mask_of_shift (by omega) (fun i hi => ?_) hindex htag
      rw [getLsbD_indexMask g (by omega), hk, testBit_two_pow_sub_one]
      exact decide_eq_true hi
    · intro hline
      rw [hline]
      exact ⟨rfl, rfl⟩

/-! ## The cache with a power of two of sets -/

/-- The parameters of the cache model, for a number of sets that is a power of two. -/
def toParams (latency numMshrs numBlockingCores : ℕ) : BHO3Params where
  latency := latency
  indexBits := log 2 g.setSize
  offsetBits := g.lineBits
  associativity := g.associativity
  numMshrs := numMshrs
  numBlockingCores := numBlockingCores

theorem toNat_sshiftRight_ofNat {addr n : ℕ} (h : addr < 2 ^ 63) :
    ((BitVec.ofNat 64 addr).sshiftRight n).toNat = addr >>> n := by
  have hsmall : addr % 2 ^ 64 = addr := mod_eq_of_lt (by omega)
  have hmsb : (BitVec.ofNat 64 addr).msb = false := by
    rw [BitVec.msb_eq_false_iff_two_mul_lt, BitVec.toNat_ofNat, hsmall]
    omega
  rw [sshiftRight_eq_of_msb_false hmsb, toNat_ushiftRight, BitVec.toNat_ofNat, hsmall]

/-- **With a power of two of sets the machine arithmetic is that of the cache model**: shift, mask and
truncation lose nothing of an address that is not negative. -/
theorem getIndex_toParams (hpow : ∃ k, g.setSize = 2 ^ k) (latency numMshrs numBlockingCores : ℕ)
    {addr : ℕ} (haddr : addr < 2 ^ 63) :
    (g.getIndex (BitVec.ofNat 64 addr)).toNat =
        (g.toParams latency numMshrs numBlockingCores).getIndex addr ∧
      (g.getTag (BitVec.ofNat 64 addr)).toNat =
        (g.toParams latency numMshrs numBlockingCores).getTag addr := by
  obtain ⟨k, hk⟩ := hpow
  have hlog : log 2 g.setSize = k := by rw [hk, log_pow (by omega)]
  have hlt := g.setSize_lt
  constructor
  · rw [getIndex, indexOffset_eq, BitVec.toNat_setWidth, BitVec.toNat_and, indexMask,
      toNat_sshiftRight_ofNat haddr, BitVec.toNat_ofNat, mod_eq_of_lt (by omega : _ < 2 ^ 64),
      BHO3Params.getIndex]
    show _ = addr >>> g.lineBits &&& (2 ^ log 2 g.setSize - 1)
    rw [hlog, hk]
    refine mod_eq_of_lt (lt_of_le_of_lt and_le_right ?_)
    rw [← hk]
    omega
  · rw [getTag, toNat_sshiftRight_ofNat haddr, tagOffset, indexOffset_eq, calcLog2_eq_log]
    rfl

/-- Two cores with 32 sets: the index and the tag of the address `0x12345`. -/
theorem getIndex_toParams_two_cores :
    let g : LLCGeometry := ⟨4096, 2, 6, 4, by decide, by decide⟩
    (∃ k, g.setSize = 2 ^ k) ∧ (g.getIndex 0x12345).toNat = (g.toParams 1 1 1).getIndex 0x12345 ∧
      (g.getTag 0x12345).toNat = (g.toParams 1 1 1).getTag 0x12345 :=
  ⟨⟨5, by decide⟩, getIndex_toParams _ ⟨5, by decide⟩ 1 1 1 (by decide)⟩

/-! ## Three cores -/

/-- The default sizes, 2 MB a core with lines of 64 bytes in sets of eight, for three cores. -/
def threeCores : LLCGeometry where
  capacityPerCore := 2 * 2 ^ 20
  numCores := 3
  lineBits := 6
  associativity := 8
  fits := by decide
  oneSet := by decide

/-- **With three cores two lines are taken for one**: there are 12288 sets, and bit 12 of the line number
is neither in the mask `0x2fff` nor in the tag. -/
theorem three_cores_confuse_lines :
    threeCores.getIndex 0x40000 = threeCores.getIndex 0 ∧
      threeCores.getTag 0x40000 = threeCores.getTag 0 ∧ ¬ threeCores.SameLine 0x40000 0 := by
  have hsets : threeCores.setSize = 12288 := by decide
  have hlog : 12 < log 2 threeCores.setSize := by
    rw [hsets]
    exact le_log_of_pow_le (by decide) (by decide)
  have hgap : (threeCores.setSize - 1).testBit 12 = false := by
    rw [hsets]
    decide
  have haddr : (0x40000 : BitVec 64) = twoPow 64 (threeCores.lineBits + 12) := by decide
  rw [haddr]
  exact threeCores.gap_confuses_lines hlog hgap

end LLCGeometry

end MultiCoreMemory
