import Mathlib.Logic.Function.Basic
import MultiCoreMemory.Sift.Format

/-!
# The trace writer (`sift/sift_writer.cc`)

The stream is open, and a call that waits for a response gets one; what `va2pa_lookup` finds at the
time of a call is a parameter of the call.  The answers to the memory requests of a handler
(`handleMemoryRequest`) are read by that handler and are left out.
-/

namespace MultiCoreMemory.Sift

structure CString where
  bytes : List UInt8
  noNul : 0 ∉ bytes
  deriving DecidableEq, Repr

/-- The calls that are not instructions, and the record each writes. -/
inductive SideCall where
  | instructionCount (icount : UInt32)
  | cacheOnly (icount : UInt8) (type : CacheOnlyType) (eip address : UInt64)
  | output (fd : UInt8) (data : List UInt8)
  | newThread
  | syscall (number : UInt16) (data : List UInt8)
  | join (thread : UInt32)
  | sync
  | fork
  | magic (a b c : UInt64)
  | emulate (type : UInt16) (req : UInt64)
  | routineChange (event : RoutineOpType) (eip esp callEip : UInt64)
  | routineAnnounce (eip : UInt64) (name imgname : CString) (offset : UInt64)
      (line column : UInt32) (filename : CString)
  | isaChange (newIsa : UInt32)
  deriving DecidableEq, Repr

/-- `strlen(s) + 1`, in the 16 bits it is kept in. -/
def CString.len (s : CString) : UInt16 := UInt16.ofNat (s.bytes.length + 1)

def CString.field (s : CString) : List UInt8 :=
  le16 s.len ++ (s.bytes ++ [0]).take s.len.toNat

def SideCall.record : SideCall → List UInt8
  | .instructionCount icount => otherHeader .InstructionCount 4 ++ le32 icount
  | .cacheOnly icount type eip address =>
    otherHeader .CacheOnly 18 ++ icount :: type.code :: (le64 eip ++ le64 address)
  | .output fd data => otherHeader .Output (UInt32.ofNat (1 + data.length)) ++ fd :: data
  | .newThread => otherHeader .NewThread 0
  | .syscall number data =>
    otherHeader .SyscallRequest (UInt32.ofNat (2 + data.length)) ++ le16 number ++ data
  | .join thread => otherHeader .Join 4 ++ le32 thread
  | .sync => otherHeader .Sync 0
  | .fork => otherHeader .Fork 0
  | .magic a b c => otherHeader .MagicInstruction 24 ++ le64 a ++ le64 b ++ le64 c
  | .emulate type req => otherHeader .Emu 10 ++ le16 type ++ le64 req
  | .routineChange event eip esp callEip =>
    otherHeader .RoutineChange 25 ++ event.code :: (le64 eip ++ le64 esp ++ le64 callEip)
  | .routineAnnounce eip name imgname offset line column filename =>
    otherHeader .RoutineAnnounce (UInt32.ofNat (8 + 2 + name.len.toNat + 2 + imgname.len.toNat +
        8 + 4 + 4 + 2 + filename.len.toNat)) ++
      le64 eip ++ name.field ++ imgname.field ++ le64 offset ++ le32 line ++ le32 column ++
      filename.field
  | .isaChange newIsa => otherHeader .ISAChange 4 ++ le32 newIsa

def syscallArgument (data : List UInt8) (k : ℕ) : UInt64 :=
  UInt64.ofNat (ofLE ((data.drop (8 * k)).take 8))

/-- The addresses whose mapping a call sends before its record; 202 is `SYS_futex` and 1 is
`SYS_write`. -/
def SideCall.translated : SideCall → List UInt64
  | .cacheOnly _ _ eip address => [eip, address]
  | .syscall number data =>
    if number = 202 then [syscallArgument data 0]
    else if number = 1 then [syscallArgument data 1]
    else []
  | _ => []

structure Inst where
  addr : UInt64
  size : UInt8
  addresses : List UInt64
  isBranch : Bool
  taken : Bool
  isPredicate : Bool
  executed : Bool
  deriving DecidableEq, Repr

def Inst.numAddresses (i : Inst) : UInt8 := UInt8.ofNat i.addresses.length

/-- `m_requires_icache_per_insn`, `m_send_va2pa_mapping`, and the memory `getCodeFunc` reads. -/
structure WriterConfig where
  requiresIcachePerInsn : Bool
  sendVa2paMapping : Bool
  code : UInt64 → UInt8

structure Writer where
  lastAddress : UInt64 := 0
  icache : UInt64 → Bool := fun _ => false
  va2pa : UInt64 → Bool := fun _ => false

namespace Writer

variable (cfg : WriterConfig) (pagemap : UInt64 → UInt64)

variable (w : Writer) (addr : UInt64) (size : UInt8)

def sendVa2pa (va : UInt64) : List (List UInt8) × Writer :=
  let vp := va / 4096
  if cfg.sendVa2paMapping && !w.va2pa vp then
    let pp := pagemap vp
    if pp = 0 then ([], w)
    else ([otherHeader .Logical2Physical 16 ++ le64 vp ++ le64 pp],
      { w with va2pa := Function.update w.va2pa vp true })
  else ([], w)

def sendVa2pas (w : Writer) : List UInt64 → List (List UInt8) × Writer
  | [] => ([], w)
  | va :: vas =>
    let (first, w) := w.sendVa2pa cfg pagemap va
    let (others, w) := w.sendVa2pas vas
    (first ++ others, w)

/-- The code of one instruction, unless it was sent before. -/
def sendInstructionCode : List (List UInt8) × Writer :=
  if w.icache addr then ([], w)
  else ([otherHeader .IcacheVariable (UInt32.ofNat (8 + size.toNat)) ++ le64 addr ++
      codeBytes cfg.code addr size.toNat],
    { w with icache := Function.update w.icache addr true })

/-- The record of the code page at `base`. -/
def pageRecord (base : UInt64) : List UInt8 :=
  otherHeader .Icache (UInt32.ofNat (8 + ICACHE_SIZE)) ++ le64 base ++
    codeBytes cfg.code base ICACHE_SIZE

/-- The pages from `base` to `last` that were not sent before. When the loop goes on after two pages,
`base` has wrapped around, and it never ends. -/
def sendPages (w : Writer) (last : UInt64) : ℕ → UInt64 → Option (List (List UInt8) × Writer)
  | 0, _ => none
  | rounds + 1, base =>
    if base ≤ last then
      if w.icache base then w.sendPages last rounds (base + 4096)
      else do
        let (others, w) ← { w with icache := Function.update w.icache base true }.sendPages last
          rounds (base + 4096)
        return (pageRecord cfg base :: others, w)
    else some ([], w)

def sendCode : Option (List (List UInt8) × Writer) :=
  if cfg.requiresIcachePerInsn then some (w.sendInstructionCode cfg addr size)
  else w.sendPages cfg (pageOf (addr + size.toUInt64 - 1)) 3 (pageOf addr)

def sendInstruction (i : Inst) : List UInt8 × Writer :=
  if i.addr = w.lastAddress ∧ ¬ i.isPredicate then
    (packSimple i.size i.numAddresses i.isBranch i.taken :: i.addresses.flatMap le64,
      { w with lastAddress := w.lastAddress + i.size.toUInt64 })
  else
    (packExtSize i.size ::
        packExtFlags i.numAddresses i.isBranch i.taken i.isPredicate i.executed ::
        (le64 i.addr ++ i.addresses.flatMap le64),
      { w with lastAddress := i.addr + i.size.toUInt64 })

def instruction (i : Inst) : Option (List (List UInt8) × Writer) :=
  if i.size < 16 ∧ i.addresses.length ≤ MAX_DYNAMIC_ADDRESSES then do
    let (pages, w) ← w.sendCode cfg i.addr i.size
    let (mappings, w) := w.sendVa2pas cfg pagemap (i.addr :: i.addresses)
    let (record, w) := w.sendInstruction i
    return (pages ++ mappings ++ [record], w)
  else none

def side (c : SideCall) : List (List UInt8) × Writer :=
  let (mappings, w) := w.sendVa2pas cfg pagemap c.translated
  (mappings ++ [c.record], w)

def endRecord : List UInt8 := otherHeader .End 0

end Writer

inductive WriterCall where
  | instruction (i : Inst)
  | side (c : SideCall)
  deriving DecidableEq, Repr

def Writer.call (cfg : WriterConfig) (pagemap : UInt64 → UInt64) (w : Writer) :
    WriterCall → Option (List (List UInt8) × Writer)
  | .instruction i => w.instruction cfg pagemap i
  | .side c => some (w.side cfg pagemap c)

end MultiCoreMemory.Sift
