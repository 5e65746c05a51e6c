import MultiCoreMemory.Lib.ByteStream

/-!
# The trace format (`sift/sift_format.h`, `sift.h`)
-/

namespace MultiCoreMemory.Sift

inductive RecOtherType where
  | Icache
  | Output
  | SyscallRequest
  | SyscallResponse
  | NewThread
  | NewThreadResponse
  | MemoryRequest
  | MemoryResponse
  | Join
  | JoinResponse
  | EndResponse
  | IcacheVariable
  | Sync
  | SyncResponse
  | Logical2Physical
  | MagicInstruction
  | MagicInstructionResponse
  | RoutineChange
  | RoutineAnnounce
  | Emu
  | EmuResponse
  | Fork
  | ForkResponse
  | InstructionCount
  | CacheOnly
  | ISAChange
  | Shutdown
  | End
  deriving DecidableEq, Repr

/-- The enumerators in the order of their declaration; all but the last are numbered from 0. -/
def RecOtherType.all : List RecOtherType :=
  [.Icache, .Output, .SyscallRequest, .SyscallResponse, .NewThread, .NewThreadResponse,
    .MemoryRequest, .MemoryResponse, .Join, .JoinResponse, .EndResponse, .IcacheVariable, .Sync,
    .SyncResponse, .Logical2Physical, .MagicInstruction, .MagicInstructionResponse, .RoutineChange,
    .RoutineAnnounce, .Emu, .EmuResponse, .Fork, .ForkResponse, .InstructionCount, .CacheOnly,
    .ISAChange, .Shutdown, .End]

def RecOtherType.code (t : RecOtherType) : UInt8 :=
  if t = .End then 0xff else UInt8.ofNat (all.idxOf t)

def RecOtherType.ofCode (b : UInt8) : Option RecOtherType := all.find? fun t => t.code = b

@[simp] theorem RecOtherType.ofCode_code (t : RecOtherType) : ofCode t.code = some t := by
  cases t <;> decide

inductive CacheOnlyType where
  | BranchTaken
  | BranchNotTaken
  | MemRead
  | MemWrite
  | MemIcache
  deriving DecidableEq, Repr

def CacheOnlyType.all : List CacheOnlyType :=
  [.BranchTaken, .BranchNotTaken, .MemRead, .MemWrite, .MemIcache]

def CacheOnlyType.code (t : CacheOnlyType) : UInt8 := UInt8.ofNat (all.idxOf t)

def CacheOnlyType.ofCode (b : UInt8) : Option CacheOnlyType := all.find? fun t => t.code = b

@[simp] theorem CacheOnlyType.ofCode_code (t : CacheOnlyType) : ofCode t.code = some t := by
  cases t <;> decide

inductive RoutineOpType where
  | RoutineEnter
  | RoutineExit
  | RoutineAssert
  deriving DecidableEq, Repr

def RoutineOpType.all : List RoutineOpType := [.RoutineEnter, .RoutineExit, .RoutineAssert]

def RoutineOpType.code (t : RoutineOpType) : UInt8 := UInt8.ofNat (all.idxOf t)

def RoutineOpType.ofCode (b : UInt8) : Option RoutineOpType := all.find? fun t => t.code = b

@[simp] theorem RoutineOpType.ofCode_code (t : RoutineOpType) : ofCode t.code = some t := by
  cases t <;> decide

inductive MemoryLockType where
  | MemInvalidLock
  | MemNoLock
  | MemLock
  | MemUnlock
  deriving DecidableEq, Repr

def MemoryLockType.all : List MemoryLockType := [.MemInvalidLock, .MemNoLock, .MemLock, .MemUnlock]

def MemoryLockType.code (t : MemoryLockType) : UInt32 := UInt32.ofNat (all.idxOf t)

def MemoryLockType.ofCode (v : UInt32) : Option MemoryLockType := all.find? fun t => t.code = v

@[simp] theorem MemoryLockType.ofCode_code (t : MemoryLockType) : ofCode t.code = some t := by
  cases t <;> decide

inductive MemoryOpType where
  | MemInvalidOp
  | MemRead
  | MemWrite
  deriving DecidableEq, Repr

def MemoryOpType.all : List MemoryOpType := [.MemInvalidOp, .MemRead, .MemWrite]

def MemoryOpType.code (t : MemoryOpType) : UInt32 := UInt32.ofNat (all.idxOf t)

def MemoryOpType.ofCode (v : UInt32) : Option MemoryOpType := all.find? fun t => t.code = v

@[simp] theorem MemoryOpType.ofCode_code (t : MemoryOpType) : ofCode t.code = some t := by
  cases t <;> decide

def otherHeader (type : RecOtherType) (size : UInt32) : List UInt8 :=
  0 :: type.code :: le32 size

/-! ## Instruction headers -/

def MAX_DYNAMIC_ADDRESSES : ℕ := 2

def flagBit (place : UInt8) (b : Bool) : UInt8 := if b then place else 0

/-- `Record::Instruction`: `size:4`, `num_addresses:2`, `is_branch:1`, `taken:1`. -/
def packSimple (size numAddresses : UInt8) (isBranch taken : Bool) : UInt8 :=
  (size &&& 0xf : UInt8) ||| ((numAddresses &&& 3 : UInt8) <<< (4 : UInt8)) ||| flagBit 0x40 isBranch |||
    flagBit 0x80 taken

/-- The first byte of `Record::InstructionExt`: `type:4`, which is 0, and `size:4`. -/
def packExtSize (size : UInt8) : UInt8 := (size &&& 0xf) <<< 4

/-- The second byte: `num_addresses:2`, `is_branch:1`, `taken:1`, `is_predicate:1`,
`executed:1`. -/
def packExtFlags (numAddresses : UInt8) (isBranch taken isPredicate executed : Bool) : UInt8 :=
  (numAddresses &&& 3) ||| flagBit 0x04 isBranch ||| flagBit 0x08 taken |||
    flagBit 0x10 isPredicate ||| flagBit 0x20 executed

section

-- a byte in range is one of finitely many, and the fields are read back from each
theorem simple_fields {size num : UInt8} (hsize : size.toNat < 16) (hnum : num.toNat ≤ 2)
    (isBranch taken : Bool) :
    packSimple size num isBranch taken &&& 0xf = size ∧
      (packSimple size num isBranch taken >>> 4) &&& 3 = num ∧
      (packSimple size num isBranch taken &&& 0x40 != 0) = isBranch ∧
      (packSimple size num isBranch taken &&& 0x80 != 0) = taken := by
  have hall : ∀ (s : Fin 16) (n : Fin 3) (b t : Bool),
      packSimple (UInt8.ofNat s) (UInt8.ofNat n) b t &&& 0xf = UInt8.ofNat s ∧
        (packSimple (UInt8.ofNat s) (UInt8.ofNat n) b t >>> 4) &&& 3 = UInt8.ofNat n ∧
        (packSimple (UInt8.ofNat s) (UInt8.ofNat n) b t &&& 0x40 != 0) = b ∧
        (packSimple (UInt8.ofNat s) (UInt8.ofNat n) b t &&& 0x80 != 0) = t := by
    decide +kernel
  simpa using hall ⟨size.toNat, hsize⟩ ⟨num.toNat, by omega⟩ isBranch taken

theorem extSize_fields {size : UInt8} (hsize : size.toNat < 16) :
    packExtSize size &&& 0xf = 0 ∧ packExtSize size >>> 4 = size := by
  have hall : ∀ s : Fin 16, packExtSize (UInt8.ofNat s) &&& 0xf = 0 ∧
      packExtSize (UInt8.ofNat s) >>> 4 = UInt8.ofNat s := by
    decide +kernel
  simpa using hall ⟨size.toNat, hsize⟩

theorem extFlags_fields {num : UInt8} (hnum : num.toNat ≤ 2)
    (isBranch taken isPredicate executed : Bool) :
    let flags := packExtFlags num isBranch taken isPredicate executed
    flags &&& 3 = num ∧ (flags &&& 0x04 != 0) = isBranch ∧ (flags &&& 0x08 != 0) = taken ∧
      (flags &&& 0x10 != 0) = isPredicate ∧ (flags &&& 0x20 != 0) = executed := by
  have hall : ∀ (n : Fin 3) (b t p e : Bool),
      let flags := packExtFlags (UInt8.ofNat n) b t p e
      flags &&& 3 = UInt8.ofNat n ∧ (flags &&& 0x04 != 0) = b ∧ (flags &&& 0x08 != 0) = t ∧
        (flags &&& 0x10 != 0) = p ∧ (flags &&& 0x20 != 0) = e := by
    decide +kernel
  simpa using hall ⟨num.toNat, by omega⟩ isBranch taken isPredicate executed

end

/-! ## Code pages -/

def ICACHE_SIZE : ℕ := 0x1000

variable (code : UInt64 → UInt8) (addr : UInt64)

def pageOf : UInt64 := addr &&& 0xfffffffffffff000

def offsetOf : ℕ := (addr &&& 0xfff).toNat

def codeBytes (size : ℕ) : List UInt8 :=
  (List.range size).map fun k => code (addr + UInt64.ofNat k)

@[simp] theorem length_codeBytes (size : ℕ) :
    (codeBytes code addr size).length = size := by simp [codeBytes]

end MultiCoreMemory.Sift
