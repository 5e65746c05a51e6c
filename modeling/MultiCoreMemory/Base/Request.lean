import Mathlib.Data.List.Basic
import Mathlib.Data.Int.Basic

/-!
# Memory requests and request buffers (`base/request.h`)

`Request C` is parametrised by the device's command type; `none` is the source's `-1` in the two
command fields.  Every other field keeps the source's default `-1`.

The callback is a closure the controller only tests and calls; the model keeps whether it is set.
`tag` has no counterpart in the source: it names the request object, so that a statement can
follow one request through copies between queues.  No modelled function reads it.
-/

namespace MultiCoreMemory

/-- Device address vector: one component a level, `-1` for "every node of that level". -/
abbrev AddrVec := List ℤ

/-- `addr_vec[level]` (reads inside the vector in every call of the source). -/
def AddrVec.level (v : AddrVec) (i : ℕ) : ℤ := v.getD i (-1)

theorem AddrVec.level_set_self {v : AddrVec} {i : ℕ} {x : ℤ} (h : i < v.length) :
    AddrVec.level (v.set i x) i = x := by
  simp [AddrVec.level, List.getD, h]

theorem AddrVec.level_set_ne {v : AddrVec} {i j : ℕ} {x : ℤ} (h : i ≠ j) :
    AddrVec.level (v.set i x) j = v.level j := by
  simp [AddrVec.level, List.getD, h]

abbrev typeRead : ℕ := 0

abbrev typeWrite : ℕ := 1

structure Request (C : Type) where
  addr : ℤ := -1
  addrVec : AddrVec := []
  vpage : ℤ := -1
  vAddr : ℤ := -1
  typeId : ℕ
  sourceId : ℤ := -1
  command : Option C := none
  finalCommand : Option C := none
  isStatUpdated : Bool := false
  arrive : ℤ := -1
  depart : ℤ := -1
  callback : Bool := false
  tag : ℕ := 0
  deriving DecidableEq, Repr

structure ReqBuffer (C : Type) where
  buffer : List (Request C) := []
  maxSize : ℕ := 32
  deriving DecidableEq, Repr

namespace ReqBuffer

variable {C : Type}

variable (b : ReqBuffer C) (rs : List (Request C))

def size : ℕ := b.buffer.length

/-- `enqueue`: accepted while the size is **at most** `max_size`. -/
def enqueue (r : Request C) : Bool × ReqBuffer C :=
  if b.size ≤ b.maxSize then (true, { b with buffer := b.buffer ++ [r] }) else (false, b)

def remove (i : ℕ) : ReqBuffer C := { b with buffer := b.buffer.eraseIdx i }

theorem enqueue_of_le {b : ReqBuffer C} (h : b.size ≤ b.maxSize) (r : Request C) :
    b.enqueue r = (true, { b with buffer := b.buffer ++ [r] }) := by
  simp [enqueue, h]

theorem enqueue_of_lt {b : ReqBuffer C} (h : b.maxSize < b.size) (r : Request C) :
    b.enqueue r = (false, b) := by
  simp [enqueue, Nat.not_le.mpr h]

def enqueueAll : ReqBuffer C :=
  rs.foldl (fun b r => (b.enqueue r).2) b

theorem maxSize_enqueueAll : (b.enqueueAll rs).maxSize = b.maxSize := by
  induction rs generalizing b with
  | nil => rfl
  | cons r rs ih =>
    rw [enqueueAll, List.foldl_cons, ← enqueueAll, ih]
    unfold enqueue
    split <;> rfl

theorem buffer_enqueueAll :
    (b.enqueueAll rs).buffer = b.buffer ++ rs.take (b.maxSize + 1 - b.size) := by
  induction rs generalizing b with
  | nil => simp [enqueueAll]
  | cons r rs ih =>
    rw [enqueueAll, List.foldl_cons, ← enqueueAll, ih]
    by_cases h : b.size ≤ b.maxSize
    · have hroom : b.maxSize + 1 - b.size = (b.maxSize - b.size) + 1 := by omega
      have hsize : (b.buffer ++ [r]).length = b.size + 1 := by simp [size]
      rw [enqueue_of_le h, hroom, List.take_succ_cons]
      simp [size] at hsize ⊢
    · have hroom : b.maxSize + 1 - b.size = 0 := by omega
      rw [enqueue_of_lt (by omega), hroom, List.take_zero, List.take_zero]

end ReqBuffer

end MultiCoreMemory
