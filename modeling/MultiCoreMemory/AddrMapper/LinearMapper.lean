import Mathlib.Data.Int.Bitwise
import MultiCoreMemory.Base.Request
import MultiCoreMemory.Base.Utils

/-!
# The linear address mappers (`addr_mapper/impl/linear_mappers.cpp`)

Three mappers slice the address into the levels of the organisation, in different orders.
-/

namespace MultiCoreMemory

open AddrVec

structure LinearMapper where
  addrBits : List ℕ
  txOffset : ℕ
  deriving DecidableEq, Repr

def LinearMapper.setup (count : List ℕ) (internalPrefetchSize channelWidth : ℕ) : LinearMapper where
  addrBits := (count.map calcLog2).modify (count.length - 1) (· - calcLog2 internalPrefetchSize)
  txOffset := calcLog2 (internalPrefetchSize * channelWidth / 8)

/-- The slicing loop from the last level to the first: the components and the rest. -/
def sliceAll : List ℕ → ℤ → List ℤ × ℤ
  | [], addr => ([], addr)
  | b :: bits, addr =>
    let r := sliceAll bits addr
    let slice := sliceLowerBits r.2 b
    (slice.1 :: r.1, slice.2)

variable (bits : List ℕ) {C : Type} (m : LinearMapper) (rowBitsIdx : ℕ) (req : Request C)

def ChRaBaRoCo.apply : Request C :=
  { req with addrVec := (sliceAll m.addrBits (req.addr / 2 ^ m.txOffset)).1 }

def AddrVec.resize (v : AddrVec) (n : ℕ) : AddrVec := v.take n ++ List.replicate (n - v.length) (-1)

/-- `req.addr_vec[i] = slice_lower_bits(addr, m_addr_bits[i])`: the vector and what is left. -/
def assignSlice (st : AddrVec × ℤ) (i : ℕ) : AddrVec × ℤ :=
  let slice := sliceLowerBits st.2 (bits.getD i 0)
  (st.1.set i slice.1, slice.2)

def RoBaRaCoCh.apply : Request C :=
  let n := m.addrBits.length
  let channel := assignSlice m.addrBits (resize req.addrVec n, req.addr / 2 ^ m.txOffset) 0
  let column := assignSlice m.addrBits channel (n - 1)
  { req with addrVec := ((List.range' 1 rowBitsIdx).foldl (assignSlice m.addrBits) column).1 }

/-- One round of the last loop of `MOP4CLXOR::apply`: the vector and `row_xor_index`. -/
def xorLevel (colBitsIdx : ℕ) (st : AddrVec × ℕ) (lvl : ℕ) : AddrVec × ℕ :=
  if 0 < bits.getD lvl 0 then
    let mask := level st.1 colBitsIdx / 2 ^ st.2 % 2 ^ bits.getD lvl 0
    (st.1.set lvl (Int.xor (level st.1 lvl) mask), st.2 + bits.getD lvl 0)
  else st

/-- `MOP4CLXOR::apply`; the row is what is left of the address, in an `int`. -/
def MOP4CLXOR.apply : Request C :=
  let n := m.addrBits.length
  let colBitsIdx := n - 1
  let low := sliceLowerBits (req.addr / 2 ^ m.txOffset) 2
  let levels := (List.range rowBitsIdx).foldl (assignSlice m.addrBits)
    ((resize req.addrVec n).set colBitsIdx low.1, low.2)
  let high := sliceLowerBits levels.2 (m.addrBits.getD colBitsIdx 0 - 2)
  let column := level levels.1 colBitsIdx + high.1 * 2 ^ 2
  let vec := (levels.1.set colBitsIdx column).set rowBitsIdx (high.2.bmod (2 ^ 32))
  { req with addrVec := ((List.range colBitsIdx).foldl (xorLevel m.addrBits colBitsIdx) (vec, 0)).1 }

theorem sliceAll_snd (addr : ℤ) : (sliceAll bits addr).2 = addr / 2 ^ bits.sum := by
  induction bits with
  | nil => simp [sliceAll]
  | cons b bits ih =>
    simp only [sliceAll, sliceLowerBits, ih, List.sum_cons]
    rw [Int.ediv_ediv_of_nonneg (by positivity), ← pow_add, add_comm]

theorem sliceAll_level_zero (b : ℕ) (bits : List ℕ) (addr : ℤ) :
    level (sliceAll (b :: bits) addr).1 0 = addr / 2 ^ bits.sum % 2 ^ b := by
  simp [sliceAll, sliceLowerBits, sliceAll_snd, level]

end MultiCoreMemory
