import Mathlib.Algebra.Order.Group.Nat
import Mathlib.Data.UInt

/-!
# Byte streams

Values are written as bytes, least significant first, and read back from the front of a stream.
-/

namespace MultiCoreMemory

def leBytes : ℕ → ℕ → List UInt8
  | 0, _ => []
  | n + 1, v => UInt8.ofNat v :: leBytes n (v / 256)

def ofLE : List UInt8 → ℕ
  | [] => 0
  | b :: bs => b.toNat + 256 * ofLE bs

/-- Two bytes, the low one first. -/
def le16 (v : UInt16) : List UInt8 := leBytes 2 v.toNat

def le32 (v : UInt32) : List UInt8 := leBytes 4 v.toNat

def le64 (v : UInt64) : List UInt8 := leBytes 8 v.toNat

@[simp] theorem length_leBytes (n v : ℕ) : (leBytes n v).length = n := by
  induction n generalizing v with
  | zero => rfl
  | succ n ih => rw [leBytes, List.length_cons, ih]

theorem ofLE_leBytes {n v : ℕ} (h : v < 256 ^ n) : ofLE (leBytes n v) = v := by
  induction n generalizing v with
  | zero =>
    rw [leBytes, ofLE]
    omega
  | succ n ih =>
    have hdiv : v / 256 < 256 ^ n := Nat.div_lt_of_lt_mul (by rwa [pow_succ, mul_comm] at h)
    rw [leBytes, ofLE, ih hdiv, UInt8.toNat_ofNat']
    omega

/-- A reader takes bytes from the front and may fail. -/
abbrev ByteReader := StateT (List UInt8) Option

namespace ByteReader

def peek : ByteReader UInt8 := fun bytes => bytes.head?.map fun b => (b, bytes)

def take (n : ℕ) : ByteReader (List UInt8) := fun bytes =>
  if n ≤ bytes.length then some (bytes.take n, bytes.drop n) else none

def u8 : ByteReader UInt8 := do
  let bytes ← take 1
  return UInt8.ofNat (ofLE bytes)

def u16 : ByteReader UInt16 := do
  let bytes ← take 2
  return UInt16.ofNat (ofLE bytes)

def u32 : ByteReader UInt32 := do
  let bytes ← take 4
  return UInt32.ofNat (ofLE bytes)

def u64 : ByteReader UInt64 := do
  let bytes ← take 8
  return UInt64.ofNat (ofLE bytes)

def u64s : ℕ → ByteReader (List UInt64)
  | 0 => return []
  | n + 1 => do
    let v ← u64
    let vs ← u64s n
    return v :: vs

def check (p : Prop) [Decidable p] : ByteReader Unit := fun bytes =>
  if p then some ((), bytes) else none

variable {bs rest : List UInt8}

@[simp] theorem run_peek (b : UInt8) (rest : List UInt8) :
    peek.run (b :: rest) = some (b, b :: rest) := rfl

theorem run_take {n : ℕ} (h : bs.length = n) : (take n).run (bs ++ rest) = some (bs, rest) := by
  subst h
  simp [take, StateT.run]

theorem run_take_all {n : ℕ} (h : bs.length = n) : (take n).run bs = some (bs, []) := by
  subst h
  simp [take, StateT.run]

/-- A reader run on an encoding followed by anything returns the value and leaves what follows. -/
@[simp] theorem run_u8 (v : UInt8) (rest : List UInt8) : u8.run (v :: rest) = some (v, rest) := by
  have h : (take 1).run ([v] ++ rest) = some ([v], rest) := run_take rfl
  rw [List.singleton_append] at h
  simp [u8, h, ofLE]

@[simp] theorem run_u16 (v : UInt16) (rest : List UInt8) :
    u16.run (le16 v ++ rest) = some (v, rest) := by
  have h : (take 2).run (le16 v ++ rest) = some (le16 v, rest) := run_take (length_leBytes _ _)
  have hv : ofLE (le16 v) = v.toNat := ofLE_leBytes v.toNat_lt
  simp [u16, h, hv]

@[simp] theorem run_u32 (v : UInt32) (rest : List UInt8) :
    u32.run (le32 v ++ rest) = some (v, rest) := by
  have h : (take 4).run (le32 v ++ rest) = some (le32 v, rest) := run_take (length_leBytes _ _)
  have hv : ofLE (le32 v) = v.toNat := ofLE_leBytes v.toNat_lt
  simp [u32, h, hv]

@[simp] theorem run_u64 (v : UInt64) (rest : List UInt8) :
    u64.run (le64 v ++ rest) = some (v, rest) := by
  have h : (take 8).run (le64 v ++ rest) = some (le64 v, rest) := run_take (length_leBytes _ _)
  have hv : ofLE (le64 v) = v.toNat := ofLE_leBytes v.toNat_lt
  simp [u64, h, hv]

theorem run_u64s (vs : List UInt64) (rest : List UInt8) :
    (u64s vs.length).run (vs.flatMap le64 ++ rest) = some (vs, rest) := by
  induction vs with
  | nil => rfl
  | cons v vs ih => simp [u64s, ih]

@[simp] theorem run_check_of_true {p : Prop} [Decidable p] (h : p) (bytes : List UInt8) :
    (check p).run bytes = some ((), bytes) := if_pos h

@[simp] theorem run_check_of_false {p : Prop} [Decidable p] (h : ¬ p) (bytes : List UInt8) :
    (check p).run bytes = none := if_neg h

end ByteReader

end MultiCoreMemory
