import Mathlib.Logic.Function.Basic
import MultiCoreMemory.Sift.Format

/-!
# The trace reader (`sift/sift_reader.cc`)

A pointer to a static instruction is its address, under which `scache` has it.  The handlers are
registered, and what they return goes back to the writer; a code page that a variable record
allocates holds anything (`fresh`).
-/

namespace MultiCoreMemory.Sift

open ByteReader

/-- A call of a handler; a string is the buffer that is handed over, and `isaChange` is the
assignment of `m_isa`. -/
inductive Handled where
  | instructionCount (icount : UInt32)
  | cacheOnly (icount : UInt8) (type : CacheOnlyType) (eip address : UInt64)
  | output (fd : UInt8) (data : List UInt8)
  | syscall (number : UInt16) (data : List UInt8)
  | newThread
  | join (thread : UInt32)
  | fork
  | magic (a b c : UInt64)
  | emu (type : UInt16) (req : List UInt8)
  | routineChange (event : RoutineOpType) (eip esp callEip : UInt64)
  | routineAnnounce (eip : UInt64) (name imgname : List UInt8) (offset : UInt64)
      (line column : UInt32) (filename : List UInt8)
  | isaChange (newIsa : UInt32)
  deriving DecidableEq, Repr

structure StaticInstruction where
  addr : UInt64
  size : UInt8
  data : List UInt8
  deriving DecidableEq, Repr

structure Instruction where
  sinst : StaticInstruction
  numAddresses : UInt8
  addresses : List UInt64
  isBranch : Bool
  taken : Bool
  isPredicate : Bool
  executed : Bool
  isa : UInt32
  deriving DecidableEq, Repr

/-- The state of the reader, and the handler calls so far, newest first. -/
structure Reader where
  lastAddress : UInt64 := 0
  icache : UInt64 → Option (ℕ → UInt8) := fun _ => none
  scache : UInt64 → Option StaticInstruction := fun _ => none
  next : UInt64 → Option UInt64 := fun _ => none
  vcache : UInt64 → Option UInt64 := fun _ => none
  lastSinst : Option UInt64 := none
  isa : UInt32 := 0
  handled : List Handled := []

inductive Outcome where
  | next
  | instruction (inst : Instruction)
  | ended
  deriving DecidableEq, Repr

namespace Reader

variable (fresh : ℕ → UInt8)

variable (r : Reader) (addr : UInt64) (size : UInt8)

def handle (h : Handled) : Reader := { r with handled := h :: r.handled }

def writePage (page : ℕ → UInt8) (offset : ℕ) (bytes : List UInt8) : ℕ → UInt8 := fun k =>
  if offset ≤ k then bytes.getD (k - offset) (page k) else page k

/-- The loop of `RecOtherIcacheVariable`, which splits the bytes at page boundaries. -/
def readCode (r : Reader) : ℕ → UInt64 → ℕ → ByteReader Reader
  | _, _, 0 => return r
  | 0, _, _ + 1 => fun _ => none
  | rounds + 1, address, left + 1 => do
    let base := pageOf address
    let offset := offsetOf address
    let amount := min (left + 1) (ICACHE_SIZE - offset)
    let bytes ← take amount
    let page := writePage ((r.icache base).getD fresh) offset bytes
    { r with icache := Function.update r.icache base (some page) }.readCode rounds
      (base + 4096) (left + 1 - amount)

def readString : ByteReader (List UInt8) := do
  let len ← u16
  take len.toNat

def readOther (type : Option RecOtherType) (size : UInt32) : ByteReader (Outcome × Reader) :=
  match type with
  | some .End => do
    check (size = 0)
    return (.ended, r)
  | some .Icache => do
    check (size.toNat = 8 + ICACHE_SIZE)
    let address ← u64
    let bytes ← take ICACHE_SIZE
    return (.next, { r with
      icache := Function.update r.icache address (some fun k => bytes.getD k 0) })
  | some .IcacheVariable => do
    let address ← u64
    let r ← r.readCode fresh (size.toNat - 8) address (size.toNat - 8)
    return (.next, r)
  | some .Logical2Physical => do
    check (size = 16)
    let vp ← u64
    let pp ← u64
    return (.next, { r with vcache := Function.update r.vcache vp (some pp) })
  | some .InstructionCount => do
    check (size = 4)
    let icount ← u32
    return (.next, r.handle (.instructionCount icount))
  | some .CacheOnly => do
    check (size = 18)
    let icount ← u8
    let type ← u8
    let eip ← u64
    let address ← u64
    -- the writer sends enumerators only
    let type ← StateT.lift (CacheOnlyType.ofCode type)
    return (.next, r.handle (.cacheOnly icount type eip address))
  | some .Output => do
    check (1 < size)
    let fd ← u8
    let bytes ← take (size - 1).toNat
    return (.next, r.handle (.output fd bytes))
  | some .SyscallRequest => do
    check (2 < size)
    let number ← u16
    let bytes ← take (size - 2).toNat
    return (.next, r.handle (.syscall number bytes))
  | some .NewThread => do
    check (size = 0)
    return (.next, r.handle .newThread)
  | some .Join => do
    check (size = 4)
    let thread ← u32
    return (.next, r.handle (.join thread))
  | some .Sync => do
    check (size = 0)
    return (.next, r.handle (.instructionCount 0))
  | some .Fork => do
    check (size = 0)
    return (.next, r.handle .fork)
  | some .MagicInstruction => do
    check (size = 24)
    let a ← u64
    let b ← u64
    let c ← u64
    return (.next, r.handle (.magic a b c))
  | some .Emu => do
    check (size ≤ 10)
    let type ← u16
    let req ← take (size - 2).toNat
    return (.next, r.handle (.emu type req))
  | some .RoutineChange => do
    check (size = 25)
    let event ← u8
    let eip ← u64
    let esp ← u64
    let callEip ← u64
    let event ← StateT.lift (RoutineOpType.ofCode event)
    return (.next, r.handle (.routineChange event eip esp callEip))
  | some .RoutineAnnounce => do
    let eip ← u64
    let name ← readString
    let imgname ← readString
    let offset ← u64
    let line ← u32
    let column ← u32
    let filename ← readString
    return (.next, r.handle (.routineAnnounce eip name imgname offset line column filename))
  | some .ISAChange => do
    check (size = 4)
    let newIsa ← u32
    return (.next, { r with isa := newIsa }.handle (.isaChange newIsa))
  | _ => do
    let _ ← take size.toNat
    return (.next, r)

def copyCode (r : Reader) : ℕ → UInt64 → ℕ → ℕ → Option (List UInt8)
  | _, _, _, 0 => some []
  | 0, _, _, _ + 1 => none
  | rounds + 1, base, offset, size + 1 => do
    let amount := min (size + 1) (ICACHE_SIZE - offset)
    let page ← r.icache base
    let others ← r.copyCode rounds (base + 4096) 0 (size + 1 - amount)
    return (List.range amount).map (fun k => page (offset + k)) ++ others

def staticInfoInstruction :
    Option StaticInstruction := do
  let data ← r.copyCode size.toNat (pageOf addr) (offsetOf addr) size.toNat
  return { addr, size, data }

def findStaticInstruction : Option (StaticInstruction × Reader) :=
  if r.lastSinst.bind r.next = some addr then (r.scache addr).map fun sinst => (sinst, r)
  else match r.scache addr with
    | some sinst => if sinst.size = size then some (sinst, r) else none
    | none => do
      let sinst ← r.staticInfoInstruction addr size
      return (sinst, { r with scache := Function.update r.scache addr (some sinst) })

/-- The `next` pointers after `addr` followed the last instruction: the first to follow is kept. -/
def linkNext : UInt64 → Option UInt64 :=
  match r.lastSinst with
  | some last => if r.next last = none then Function.update r.next last (some addr) else r.next
  | none => r.next

def getStaticInstruction :
    Option (StaticInstruction × Reader) := do
  let (sinst, r) ← r.findStaticInstruction addr size
  return (sinst, { r with next := r.linkNext addr, lastSinst := some addr })

def finishInstruction (numAddresses : UInt8) (isBranch taken isPredicate executed : Bool) :
    ByteReader (Outcome × Reader) := do
  let addresses ← u64s numAddresses.toNat
  let (sinst, r) ← StateT.lift
    ({ r with lastAddress := addr + size.toUInt64 }.getStaticInstruction addr size)
  return (.instruction
    { isa := r.isa, sinst, numAddresses, addresses, isBranch, taken, isPredicate, executed }, r)

def readInstruction (byte : UInt8) : ByteReader (Outcome × Reader) :=
  if byte &&& 0xf ≠ 0 then do
    let b ← u8
    r.finishInstruction r.lastAddress (b &&& 0xf) ((b >>> 4) &&& 3) (b &&& 0x40 != 0)
      (b &&& 0x80 != 0) false true
  else do
    let b ← u8
    let flags ← u8
    let addr ← u64
    r.finishInstruction addr (b >>> 4) (flags &&& 3) (flags &&& 0x04 != 0) (flags &&& 0x08 != 0)
      (flags &&& 0x10 != 0) (flags &&& 0x20 != 0)

def readRecord : ByteReader (Outcome × Reader) := do
  let byte ← peek
  if byte = 0 then
    let _ ← u8
    let type ← u8
    let size ← u32
    r.readOther fresh (RecOtherType.ofCode type) size
  else r.readInstruction byte

/-- `Read`, with a bound on the rounds: an instruction, or nothing when the end was read. -/
def read (r : Reader) : ℕ → ByteReader (Option Instruction × Reader)
  | 0 => fun _ => none
  | rounds + 1 => do
    let (outcome, r) ← r.readRecord fresh
    match outcome with
    | .next => r.read rounds
    | .instruction inst => return (some inst, r)
    | .ended => return (none, r)

/-- The instructions that calls of `Read` return until it returns false. -/
def replay (r : Reader) (rounds : ℕ) : ℕ → ByteReader (List Instruction)
  | 0 => fun _ => none
  | calls + 1 => do
    let (inst, r) ← r.read fresh rounds
    match inst with
    | some inst => do
      let others ← r.replay rounds calls
      return inst :: others
    | none => return []

end Reader

end MultiCoreMemory.Sift
