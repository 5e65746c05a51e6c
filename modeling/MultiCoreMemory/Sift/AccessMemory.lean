import MultiCoreMemory.Lib.Machine
import MultiCoreMemory.Sift.Format
import Mathlib.Tactic

/-!
# Memory requests (`Reader::AccessMemory`, `Writer::handleMemoryRequest`)

While the writer waits for the response to a record, the handler of that record may read and write the
memory of the application: a request goes to the writer on the response stream, and its answer comes back
on the trace stream.

The record that the wait is for has been read.  What the handler of the writer does to the memory of the
application is a parameter.
-/

namespace MultiCoreMemory.Sift

open ByteReader Option

/-! ## The reader -/

structure MemoryAccess where
  lockSignal : MemoryLockType
  memOp : MemoryOpType
  addr : UInt64
  dataBuffer : List UInt8
  dataSize : UInt32
  length_dataBuffer : dataBuffer.length = dataSize.toNat
  deriving DecidableEq

namespace MemoryAccess

variable (a : MemoryAccess)

def payload : List UInt8 := if a.memOp = .MemWrite then a.dataBuffer else []

def requestSize : UInt32 :=
  let size : UInt32 := 8 + 4 + 4 + 4
  if a.memOp = .MemWrite then size + a.dataSize else size

def request : List UInt8 :=
  otherHeader .MemoryRequest a.requestSize ++ (le64 a.addr ++ (le32 a.dataSize ++
    (le32 a.lockSignal.code ++ (le32 a.memOp.code ++ a.payload))))

/-- What `AccessMemory` does with the answer: the buffer when it returns true. -/
def readResponse : ByteReader (Option (List UInt8)) := do
  let _zero ← u8
  let recType ← u8
  let recSize ← u32
  if RecOtherType.ofCode recType ≠ some .MemoryResponse then return none
  else
    let addr ← u64
    let _type ← u32
    if addr ≠ a.addr then return none
    else
      let payloadSize := recSize - 8 - 4
      match a.memOp with
      | .MemRead =>
        if a.dataSize ≠ payloadSize then return none
        else
          let data ← take a.dataSize.toNat
          return some data
      | .MemWrite => if payloadSize ≠ 0 then return none else return some a.dataBuffer
      | .MemInvalidOp => return none

end MemoryAccess

/-! ## The writer -/

structure AccessMemoryFunc (μ : Type) where
  run : μ → MemoryLockType → MemoryOpType → UInt64 → List UInt8 → μ × List UInt8
  length_run : ∀ memory lock op addr data, (run memory lock op addr data).2.length = data.length

/-- `handleAccessMemory` of the recorder, without its lock: it copies to and from the memory. -/
def handleAccessMemory : AccessMemoryFunc (UInt64 → UInt8) where
  run memory _ op addr data :=
    match op with
    | .MemRead => (memory, codeBytes memory addr data.length)
    | .MemWrite => (fun p => data.getD (p - addr).toNat (memory p), data)
    | .MemInvalidOp => (memory, data)
  length_run memory lock op addr data := by
    cases op with
    | MemRead => exact length_codeBytes memory addr data.length
    | MemWrite | MemInvalidOp => rfl

def memoryResponse (addr : UInt64) (op : MemoryOpType) (size : UInt32) (data : List UInt8) : List UInt8 :=
  otherHeader .MemoryResponse (8 + 4 + size) ++ (le64 addr ++ (le32 op.code ++ data))

/-- `handleMemoryRequest`: the memory afterwards and the bytes it writes. -/
def handleMemoryRequest {μ : Type} (access : Option (AccessMemoryFunc μ)) (memory : μ)
    (recSize : UInt32) : ByteReader (μ × List UInt8) :=
  if recSize < 8 + 4 + 4 + 4 then return (memory, [])
  else do
    let addr ← u64
    let size ← u32
    let lock ← u32
    let type ← u32
    let lock := (MemoryLockType.ofCode lock).getD .MemInvalidLock
    let payloadSize := recSize - (8 + 4 + 4 + 4)
    match access, MemoryOpType.ofCode type with
    | some access, some .MemRead =>
      if payloadSize ≠ 0 then return (memory, [])
      else if size ≤ 0 then return (memory, [])
      else
        let (memory, data) := access.run memory lock .MemRead addr (List.replicate size.toNat 0)
        return (memory, memoryResponse addr .MemRead size data)
    | some access, some .MemWrite =>
      if payloadSize ≤ 0 then return (memory, [])
      else if payloadSize ≠ size then return (memory, [])
      else
        let payload ← take payloadSize.toNat
        return ((access.run memory lock .MemWrite addr payload).1, memoryResponse addr .MemWrite 0 [])
    | _, _ => return (memory, [])

inductive Wait where
  | InstructionCount
  | NewThread
  | Syscall
  | Join
  | Sync
  | Fork
  | Magic
  | Emulate
  deriving DecidableEq, Repr

/-- How a round of a waiting loop ends; `gaveUp` is a return of an error or a failed assertion, and
`stopped` is `frontEndStop`. -/
inductive WaitOutcome where
  | again
  | returned (value : List UInt8)
  | gaveUp
  | stopped
  deriving DecidableEq, Repr

namespace Wait

def responseType : Wait → RecOtherType
  | .InstructionCount | .Sync => .SyncResponse
  | .NewThread => .NewThreadResponse
  | .Syscall => .SyscallResponse
  | .Join => .JoinResponse
  | .Fork => .ForkResponse
  | .Magic => .MagicInstructionResponse
  | .Emulate => .EmuResponse

def responseSize : Wait → ℕ
  | .InstructionCount | .Sync | .NewThread | .Join | .Fork => 4
  | .Syscall | .Magic => 8
  | .Emulate => 1 + 48

def handlesRequests : Wait → Bool
  | .Syscall | .Sync | .Magic | .Emulate => true
  | .InstructionCount | .NewThread | .Join | .Fork => false

/-- `sendSimpleResponse`, `sendSyscallResponse` and `sendEmuResponse`. -/
def response (w : Wait) (value : List UInt8) : List UInt8 :=
  otherHeader w.responseType (UInt32.ofNat value.length) ++ value

def readValue (w : Wait) (size : UInt32) : ByteReader WaitOutcome :=
  match w with
  | .Emulate =>
    if size.toNat ≤ w.responseSize then do
      let result ← u8
      -- a reply may be smaller than that of this version
      let reply ← take (size.toUInt64 - 1).toNat
      return .returned (result :: reply)
    else return .gaveUp
  | _ =>
    if size.toNat = w.responseSize then do
      let value ← take size.toNat
      return .returned value
    else return .gaveUp

variable {μ : Type}

/-- One round of the loop: the record that is read, the memory afterwards and the bytes written. -/
def round (w : Wait) (access : Option (AccessMemoryFunc μ)) (memory : μ) :
    ByteReader (WaitOutcome × μ × List UInt8) := do
  let zero ← u8
  let type ← u8
  let size ← u32
  if zero ≠ 0 then return (.gaveUp, memory, [])
  else
    let type := RecOtherType.ofCode type
    if type = some w.responseType then
      let outcome ← w.readValue size
      return (outcome, memory, [])
    else if type = some .MemoryRequest ∧ w.handlesRequests then
      let (memory, reply) ← handleMemoryRequest access memory size
      return (.again, memory, reply)
    else if type = some .Shutdown then return (.stopped, memory, [])
    -- the loop of `Syscall` has no default
    else if w = .Syscall then return (.again, memory, [])
    else return (.gaveUp, memory, [])

end Wait

/-! ## Both parties -/

/-- The reader runs the handler, waits in a call of `AccessMemory`, or has sent the response. -/
inductive ReaderState where
  | handling
  | awaiting (a : MemoryAccess)
  | responded
  deriving DecidableEq

/-- The two parties, the bytes on their way, and the results of the calls, newest first. -/
structure Session (μ : Type) where
  memory : μ
  requests : List UInt8 := []
  responses : List UInt8 := []
  writer : WaitOutcome := .again
  reader : ReaderState := .handling
  results : List (MemoryAccess × Option (List UInt8)) := []

/-- A call of `AccessMemory` begins, the writer has a round, the call returns, or the handler is done. -/
inductive SessionEvent where
  | call (a : MemoryAccess)
  | round
  | receive
  | respond (value : List UInt8)

namespace Session

variable {μ : Type}

def call (s : Session μ) (a : MemoryAccess) : Option (Session μ) :=
  if s.reader = .handling then
    some { s with requests := s.requests ++ a.request, reader := .awaiting a }
  else none

def round (w : Wait) (access : Option (AccessMemoryFunc μ)) (s : Session μ) : Option (Session μ) :=
  if s.writer = .again then
    match (w.round access s.memory).run s.requests with
    | none => none
    | some ((writer, memory, reply), requests) =>
      some { s with memory, requests, writer, responses := s.responses ++ reply }
  else none

def receive (s : Session μ) : Option (Session μ) :=
  match s.reader with
  | .awaiting a =>
    match a.readResponse.run s.responses with
    | none => none
    | some (result, responses) =>
      some { s with responses, reader := .handling, results := (a, result) :: s.results }
  | _ => none

def respond (w : Wait) (s : Session μ) (value : List UInt8) : Option (Session μ) :=
  if s.reader = .handling ∧ value.length = w.responseSize then
    some { s with requests := s.requests ++ w.response value, reader := .responded }
  else none

def machine (w : Wait) (access : Option (AccessMemoryFunc μ)) (memory : μ) :
    Machine (Session μ) SessionEvent where
  init := { memory }
  step s
    | .call a => s.call a
    | .round => s.round w access
    | .receive => s.receive
    | .respond value => s.respond w value

end Session

/-! ## What a request comes to -/

/-- The requests that are answered.  The size of the record of a write fits in 32 bits. -/
structure Served {μ : Type} (w : Wait) (access : Option (AccessMemoryFunc μ)) (a : MemoryAccess) :
    Prop where
  handles : w.handlesRequests = true
  registered : access.isSome = true
  valid : a.memOp ≠ .MemInvalidOp
  nonempty : 0 < a.dataSize.toNat
  fits : a.memOp = .MemWrite → 20 + a.dataSize.toNat < 2 ^ 32

/-- What an access is for: the memory afterwards, and the buffer of the caller. -/
def MemoryAccess.perform {μ : Type} (access : Option (AccessMemoryFunc μ)) (memory : μ)
    (a : MemoryAccess) : μ × List UInt8 :=
  match access, a.memOp with
  | some access, .MemRead =>
    access.run memory a.lockSignal .MemRead a.addr (List.replicate a.dataSize.toNat 0)
  | some access, .MemWrite =>
    ((access.run memory a.lockSignal .MemWrite a.addr a.dataBuffer).1, a.dataBuffer)
  | _, _ => (memory, a.dataBuffer)

def MemoryAccess.answer {μ : Type} (access : Option (AccessMemoryFunc μ)) (memory : μ)
    (a : MemoryAccess) : List UInt8 :=
  if a.memOp = .MemRead then memoryResponse a.addr .MemRead a.dataSize (a.perform access memory).2
  else memoryResponse a.addr .MemWrite 0 []

section

variable {μ : Type} {w : Wait} {access : Option (AccessMemoryFunc μ)} {memory : μ} {a : MemoryAccess}

theorem Wait.run_round (type : RecOtherType) (size : UInt32) (rest : List UInt8) :
    (w.round access memory).run (otherHeader type size ++ rest) =
      (if type = w.responseType then do
        let (outcome, rest) ← (w.readValue size).run rest
        return ((outcome, memory, []), rest)
      else if type = .MemoryRequest ∧ w.handlesRequests then do
        let ((memory, reply), rest) ← (handleMemoryRequest access memory size).run rest
        return ((.again, memory, reply), rest)
      else if type = .Shutdown then return ((.stopped, memory, []), rest)
      else if w = .Syscall then return ((.again, memory, []), rest)
      else return ((.gaveUp, memory, []), rest) : Option _) := by
  simp only [Wait.round, otherHeader, List.cons_append, StateT.run_bind, run_u8, run_u32,
    bind_eq_bind, bind_some, RecOtherType.ofCode_code, some.injEq]
  rw [if_neg (not_not.mpr rfl)]
  split_ifs <;> rfl

theorem Wait.responseType_ne (w : Wait) : RecOtherType.MemoryRequest ≠ w.responseType := by
  cases w <;> decide

theorem run_handleMemoryRequest (hsize : ¬ a.requestSize < 8 + 4 + 4 + 4) (rest : List UInt8) :
    (handleMemoryRequest access memory a.requestSize).run (le64 a.addr ++ (le32 a.dataSize ++
      (le32 a.lockSignal.code ++ (le32 a.memOp.code ++ rest)))) =
      match access, a.memOp with
      | some _, .MemRead =>
        if a.dataSize ≤ 0 then some ((memory, []), rest)
        else some (((a.perform access memory).1, a.answer access memory), rest)
      | some f, .MemWrite => if a.dataSize ≤ 0 then some ((memory, []), rest)
        else do
          let (payload, rest) ← (take a.dataSize.toNat).run rest
          return (((f.run memory a.lockSignal .MemWrite a.addr payload).1,
            memoryResponse a.addr .MemWrite 0 []), rest)
      | _, _ => some ((memory, []), rest) := by
  unfold handleMemoryRequest
  rw [if_neg hsize]
  simp only [StateT.run_bind, run_u64, run_u32, bind_eq_bind, bind_some,
    MemoryLockType.ofCode_code, MemoryOpType.ofCode_code, getD_some]
  cases access with
  | none => rfl
  | some f =>
    cases hop : a.memOp with
    | MemInvalidOp => rfl
    | MemRead =>
      have hpayload : a.requestSize - (8 + 4 + 4 + 4) = 0 := by simp [MemoryAccess.requestSize, hop]
      simp only [hpayload]
      rw [if_neg (not_not.mpr rfl)]
      simp only [MemoryAccess.perform, MemoryAccess.answer, hop]
      split_ifs <;> rfl
    | MemWrite =>
      have hpayload : a.requestSize - (8 + 4 + 4 + 4) = a.dataSize := by
        simp [MemoryAccess.requestSize, hop]
      simp only [hpayload]
      rw [if_neg (not_not.mpr rfl)]
      split_ifs <;> rfl

theorem MemoryAccess.requestSize_lt_iff (a : MemoryAccess) :
    a.requestSize < 8 + 4 + 4 + 4 ↔ a.memOp = .MemWrite ∧ 2 ^ 32 ≤ 20 + a.dataSize.toNat := by
  have hlt := a.dataSize.toNat_lt
  unfold MemoryAccess.requestSize
  split
  · rename_i hop
    rw [UInt32.lt_iff_toNat_lt, UInt32.toNat_add]
    have h20 : (8 + 4 + 4 + 4 : UInt32).toNat = 20 := by decide
    rw [h20]
    simp only [hop, true_and]
    omega
  · rename_i hop
    simp [hop]

theorem le_zero_iff_toNat {v : UInt32} : v ≤ 0 ↔ ¬ 0 < v.toNat := by
  rw [UInt32.le_iff_toNat_le, UInt32.toNat_zero]
  omega

/-- A request that is served is consumed exactly, and its answer is written. -/
theorem Served.run_round (h : Served w access a) (memory : μ) :
    (w.round access memory).run a.request =
      some ((.again, (a.perform access memory).1, a.answer access memory), []) := by
  obtain ⟨f, rfl⟩ := isSome_iff_exists.mp h.registered
  have hsize : ¬ a.requestSize < 8 + 4 + 4 + 4 := by
    rintro hlt
    obtain ⟨hop, hle⟩ := a.requestSize_lt_iff.mp hlt
    exact absurd (h.fits hop) (Nat.not_lt.mpr hle)
  have hpositive : ¬ a.dataSize ≤ 0 := fun hle => le_zero_iff_toNat.mp hle h.nonempty
  unfold MemoryAccess.request
  rw [Wait.run_round, if_neg w.responseType_ne, if_pos ⟨rfl, h.handles⟩, run_handleMemoryRequest hsize]
  cases hop : a.memOp with
  | MemInvalidOp => exact absurd hop h.valid
  | MemRead =>
    simp only [if_neg hpositive, MemoryAccess.payload, hop]
    rfl
  | MemWrite =>
    have htake := run_take_all a.length_dataBuffer
    simp only [if_neg hpositive, MemoryAccess.payload, hop, if_true, htake, MemoryAccess.perform,
      MemoryAccess.answer]
    rfl

theorem run_round_of_not_served (h : ¬ Served w access a)
    {outcome : WaitOutcome} {memory' : μ} {reply rest : List UInt8}
    (hround : (w.round access memory).run a.request = some ((outcome, memory', reply), rest)) :
    reply = [] := by
  unfold MemoryAccess.request at hround
  rw [Wait.run_round, if_neg w.responseType_ne] at hround
  by_cases hhandles : w.handlesRequests = true
  · rw [if_pos ⟨rfl, hhandles⟩] at hround
    by_cases hsize : a.requestSize < 8 + 4 + 4 + 4
    · simp only [handleMemoryRequest, if_pos hsize] at hround
      cases hround
      rfl
    rw [run_handleMemoryRequest hsize] at hround
    cases access with
    | none =>
      cases hround
      rfl
    | some f =>
      -- what is left is an operation or a size that the writer turns away
      have hfits : a.memOp = .MemWrite → 20 + a.dataSize.toNat < 2 ^ 32 := fun hop =>
        Nat.lt_of_not_le fun hle => hsize (a.requestSize_lt_iff.mpr ⟨hop, hle⟩)
      have hempty : a.memOp ≠ .MemInvalidOp → a.dataSize ≤ 0 := fun hvalid =>
        le_zero_iff_toNat.mpr fun hpositive => h ⟨hhandles, rfl, hvalid, hpositive, hfits⟩
      cases hop : a.memOp with
      | MemInvalidOp =>
        simp only [hop] at hround
        cases hround
        rfl
      | MemRead | MemWrite =>
        simp only [hop, if_pos (hempty (by rw [hop]; decide))] at hround
        cases hround
        rfl
  · rw [if_neg (fun hand => hhandles hand.2), if_neg (by decide)] at hround
    split_ifs at hround <;> (cases hround; rfl)

theorem Served.run_readResponse (h : Served w access a) (memory : μ) :
    a.readResponse.run (a.answer access memory) =
      some (some (a.perform access memory).2, []) := by
  obtain ⟨f, rfl⟩ := isSome_iff_exists.mp h.registered
  cases hop : a.memOp with
  | MemInvalidOp => exact absurd hop h.valid
  | MemRead =>
    have hlength : (a.perform (some f) memory).2.length = a.dataSize.toNat := by
      simp [MemoryAccess.perform, hop, f.length_run]
    have htake := run_take_all hlength
    have hpayload : 12 + a.dataSize - 8 - 4 = a.dataSize := by grind
    simp [MemoryAccess.readResponse, MemoryAccess.answer, memoryResponse, otherHeader, hop, hpayload,
      htake]
  | MemWrite =>
    have htype := run_u32 MemoryOpType.MemWrite.code []
    rw [List.append_nil] at htype
    simp [MemoryAccess.readResponse, MemoryAccess.answer, memoryResponse, otherHeader, hop, htype,
      MemoryAccess.perform]

theorem Wait.run_readValue {size : UInt32} {value : List UInt8} (hsize : size.toNat = w.responseSize)
    (hvalue : value.length = w.responseSize) :
    (w.readValue size).run value = some (.returned value, []) := by
  by_cases hemulate : w = .Emulate
  · subst hemulate
    obtain rfl : size = 49 := UInt32.toNat_inj.mp hsize
    obtain ⟨result, reply, rfl⟩ := List.exists_cons_of_length_eq_add_one hvalue
    have hreply : reply.length = ((49 : UInt32).toUInt64 - 1).toNat := Nat.succ.inj hvalue
    have htake := run_take_all hreply
    simp only [Wait.readValue, if_pos hsize.le, StateT.run_bind, run_u8, bind_eq_bind,
      bind_some, htake]
    rfl
  · have htake := run_take_all (hvalue.trans hsize.symm)
    cases w <;>
      first
      | exact absurd rfl hemulate
      | simp only [Wait.readValue, if_pos hsize, StateT.run_bind, htake]; rfl

theorem Wait.run_round_response {value : List UInt8} (hvalue : value.length = w.responseSize) :
    (w.round access memory).run (w.response value) = some ((.returned value, memory, []), []) := by
  have hsize : (UInt32.ofNat value.length).toNat = w.responseSize := by
    rw [hvalue]
    cases w <;> rfl
  unfold Wait.response
  rw [Wait.run_round, if_pos rfl, Wait.run_readValue hsize hvalue]
  rfl

end

namespace Session

variable {μ : Type} {w : Wait} {access : Option (AccessMemoryFunc μ)} {memory₀ : μ} {s s' : Session μ}

def history (access : Option (AccessMemoryFunc μ)) (memory : μ) :
    List MemoryAccess → μ × List (MemoryAccess × Option (List UInt8))
  | [] => (memory, [])
  | a :: earlier =>
    let (memory, results) := history access memory earlier
    ((a.perform access memory).1, (a, some (a.perform access memory).2) :: results)

variable {memory : μ} {results : List (MemoryAccess × Option (List UInt8))}

theorem history_cons {calls : List MemoryAccess}
    (h : history access memory₀ calls = (memory, results)) (a : MemoryAccess) :
    history access memory₀ (a :: calls) =
      ((a.perform access memory).1, (a, some (a.perform access memory).2) :: results) := by
  simp only [history, h]

inductive InStep (w : Wait) (access : Option (AccessMemoryFunc μ)) (memory₀ : μ) : Session μ → Prop
  | handling {memory : μ} {results} {calls : List MemoryAccess}
      (h : history access memory₀ calls = (memory, results)) :
      InStep w access memory₀ { memory, results }
  | requested {memory : μ} {results} {calls : List MemoryAccess} {a : MemoryAccess}
      (h : history access memory₀ calls = (memory, results)) (hserved : Served w access a) :
      InStep w access memory₀ { memory, results, requests := a.request, reader := .awaiting a }
  | answered {memory : μ} {results} {calls : List MemoryAccess} {a : MemoryAccess}
      (h : history access memory₀ calls = (memory, results)) (hserved : Served w access a) :
      InStep w access memory₀ {
        memory := (a.perform access memory).1
        results := results
        responses := a.answer access memory
        reader := .awaiting a }
  | responded {memory : μ} {results} {calls : List MemoryAccess} {value : List UInt8}
      (h : history access memory₀ calls = (memory, results)) (hvalue : value.length = w.responseSize) :
      InStep w access memory₀ { memory, results, requests := w.response value, reader := .responded }
  | returned {memory : μ} {results} {calls : List MemoryAccess} {value : List UInt8}
      (h : history access memory₀ calls = (memory, results)) :
      InStep w access memory₀ { memory, results, writer := .returned value, reader := .responded }

section

variable {memory : μ} {results : List (MemoryAccess × Option (List UInt8))} {a : MemoryAccess}

theorem round_requested (h : Served w access a) :
    round w access { memory, results, requests := a.request, reader := .awaiting a } = some {
      memory := (a.perform access memory).1
      results := results
      responses := a.answer access memory
      reader := .awaiting a } := by
  simp only [round, if_true, h.run_round, List.nil_append]

theorem receive_answered (h : Served w access a) :
    receive {
      memory := (a.perform access memory).1
      results := results
      responses := a.answer access memory
      reader := .awaiting a } = some {
      memory := (a.perform access memory).1
      results := (a, some (a.perform access memory).2) :: results } := by
  simp only [receive, h.run_readResponse]

end

def Answerable (w : Wait) (access : Option (AccessMemoryFunc μ)) (_ : Session μ) : SessionEvent → Prop
  | .call a => Served w access a
  | _ => True

theorem InStep.step (h : InStep w access memory₀ s) {event : SessionEvent}
    (hanswerable : s.Answerable w access event)
    (hstep : (machine w access memory₀).step s event = some s') : InStep w access memory₀ s' := by
  cases h with
  | handling h =>
    cases event with
    | call a =>
      cases hstep
      exact .requested h hanswerable
    | round => cases hstep
    | receive => cases hstep
    | respond value =>
      simp only [machine, respond, true_and] at hstep
      split_ifs at hstep with hvalue
      cases hstep
      exact .responded h hvalue
  | requested h hserved =>
    cases event with
    | call a => cases hstep
    | round =>
      cases (round_requested hserved).symm.trans hstep
      exact .answered h hserved
    | receive => cases hstep
    | respond value => simp [machine, respond] at hstep
  | answered h hserved =>
    cases event with
    | call a => cases hstep
    | round => cases hstep
    | receive =>
      cases (receive_answered hserved).symm.trans hstep
      exact .handling (history_cons h _)
    | respond value => simp [machine, respond] at hstep
  | responded h hvalue =>
    cases event with
    | call a => cases hstep
    | round =>
      simp only [machine, round, if_true, Wait.run_round_response hvalue] at hstep
      cases hstep
      exact .returned h
    | receive => cases hstep
    | respond value => simp [machine, respond] at hstep
  | returned h =>
    cases event with
    | call a => cases hstep
    | round => cases hstep
    | receive => cases hstep
    | respond value => simp [machine, respond] at hstep

theorem inStep_of_reachable (h : (machine w access memory₀).ReachableWhen (Answerable w access) s) :
    InStep w access memory₀ s := by
  refine h.invariant (P := InStep w access memory₀) ?_ ?_
  · exact .handling (show history access memory₀ [] = _ from rfl)
  · intro s event s' hs hanswerable hstep
    exact hs.step hanswerable hstep

theorem calls_eq {calls : List MemoryAccess} (h : history access memory₀ calls = (memory, results)) :
    results.map Prod.fst = calls := by
  induction calls generalizing memory results with
  | nil =>
    cases h
    rfl
  | cons a calls ih =>
    simp only [history, Prod.mk.injEq] at h
    rw [← h.2, List.map_cons, ih rfl]

/-- A call, the writer's round, and the return with the data; both streams are between records. -/
def Completes (w : Wait) (access : Option (AccessMemoryFunc μ)) (s : Session μ) (a : MemoryAccess) :
    Prop :=
  ∃ s₁ s₂ s₃, s.call a = some s₁ ∧ s₁.round w access = some s₂ ∧ s₂.receive = some s₃ ∧
    s₃.results = (a, some (a.perform access s.memory).2) :: s.results ∧
    s₃.memory = (a.perform access s.memory).1 ∧ s₃.requests = [] ∧ s₃.responses = []

theorem completes_iff {a : MemoryAccess} :
    Completes w access { memory, results } a ↔ Served w access a := by
  constructor
  · rintro ⟨s₁, s₂, s₃, hcall, hround, hreceive, -⟩
    by_contra hserved
    cases hcall
    simp only [round, if_true, List.nil_append] at hround
    split at hround
    · cases hround
    · rename_i hrun
      cases hround
      rw [run_round_of_not_served hserved hrun] at hreceive
      cases hreceive
  · intro hserved
    exact ⟨_, _, _, rfl, round_requested hserved, receive_answered hserved, rfl, rfl, rfl, rfl⟩

/-- **The two parties stay in step** as long as the writer serves the requests: between two calls the
streams are empty, every access was done once and returned its data, and a call that waits has its
request or its answer on the way. -/
theorem access_memory_in_step (h : (machine w access memory₀).ReachableWhen (Answerable w access) s) :
    (s.reader = .handling → s.requests = [] ∧ s.responses = [] ∧ s.writer = .again ∧
      history access memory₀ (s.results.map Prod.fst) = (s.memory, s.results)) ∧
    (∀ a, s.reader = .awaiting a → (history access memory₀ (s.results.map Prod.fst)).2 = s.results ∧
      ∃ s', s.round w access = some s' ∨ s.receive = some s') ∧
    (∀ value, s.writer = .returned value → s.requests = [] ∧ s.responses = []) ∧
    (s.reader = .handling → ∀ a, s.Completes w access a ↔ Served w access a) := by
  cases inStep_of_reachable h with
  | handling hdone =>
    refine ⟨fun _ => ⟨rfl, rfl, rfl, ?_⟩, nofun, nofun, fun _ a => completes_iff⟩
    rw [calls_eq hdone, hdone]
  | requested hdone hserved =>
    refine ⟨nofun, fun a _ => ⟨?_, _, .inl (round_requested hserved)⟩, nofun, nofun⟩
    rw [calls_eq hdone, hdone]
  | answered hdone hserved =>
    refine ⟨nofun, fun a _ => ⟨?_, _, .inr (receive_answered hserved)⟩, nofun, nofun⟩
    rw [calls_eq hdone, hdone]
  | responded hdone hvalue => exact ⟨nofun, nofun, nofun, nofun⟩
  | returned hdone => exact ⟨nofun, nofun, fun _ _ => ⟨rfl, rfl⟩, nofun⟩

instance (a : MemoryAccess) : Decidable (Served w access a) :=
  decidable_of_iff (w.handlesRequests = true ∧ access.isSome = true ∧ a.memOp ≠ .MemInvalidOp ∧
      0 < a.dataSize.toNat ∧ (a.memOp = .MemWrite → 20 + a.dataSize.toNat < 2 ^ 32))
    ⟨fun ⟨h₁, h₂, h₃, h₄, h₅⟩ => ⟨h₁, h₂, h₃, h₄, h₅⟩,
      fun h => ⟨h.handles, h.registered, h.valid, h.nonempty, h.fits⟩⟩

instance (event : SessionEvent) : Decidable (s.Answerable w access event) :=
  match event with
  | .call a => inferInstanceAs (Decidable (Served w access a))
  | .round | .receive | .respond _ => inferInstanceAs (Decidable True)

/-- A byte is written under a lock and read back. -/
theorem written_byte_read_back :
    ∃ s : Session (UInt64 → UInt8), (machine .Sync (some handleAccessMemory) fun _ => 0).ReachableWhen
        (Answerable .Sync (some handleAccessMemory)) s ∧
      s.results.map Prod.snd = [some [7], some [7]] ∧ s.requests = [] ∧ s.responses = [] := by
  obtain ⟨s, hs, hresults, hreader⟩ := Machine.exists_reachableWhen
    (m := machine .Sync (some handleAccessMemory) fun _ => 0)
    (fun s event => decide (s.Answerable .Sync (some handleAccessMemory) event))
    (fun _ _ => of_decide_eq_true)
    (P := fun s => s.results.map Prod.snd = [some [7], some [7]] ∧ s.reader = .handling)
    [.call ⟨.MemLock, .MemWrite, 0x1000, [7], 1, rfl⟩, .round, .receive,
      .call ⟨.MemUnlock, .MemRead, 0x1000, [0], 1, rfl⟩, .round, .receive]
    (by decide +kernel) (by decide +kernel)
  obtain ⟨hrequests, hresponses, -⟩ := (access_memory_in_step hs).1 hreader
  exact ⟨s, hs, hresults, hrequests, hresponses⟩

/-- A read of no bytes while the writer waits in `Sync`, and one of a byte while it waits in `Join`: the
call of `AccessMemory` never returns. -/
theorem unserved_reads_hang :
    (∃ s : Session (UInt64 → UInt8),
      (machine .Sync (some handleAccessMemory) fun _ => 0).Reachable s ∧
        s.reader = .awaiting ⟨.MemNoLock, .MemRead, 0x1000, [], 0, rfl⟩ ∧
        ∀ event, (machine .Sync (some handleAccessMemory) fun _ => 0).step s event = none) ∧
    ∃ s : Session (UInt64 → UInt8),
      (machine .Join (some handleAccessMemory) fun _ => 0).Reachable s ∧
        s.reader = .awaiting ⟨.MemNoLock, .MemRead, 0x1000, [0], 1, rfl⟩ ∧
        ∀ event, (machine .Join (some handleAccessMemory) fun _ => 0).step s event = none := by
  constructor
  · have hrun : (machine .Sync (some handleAccessMemory) fun _ => 0).run { memory := fun _ => 0 }
        [.call ⟨.MemNoLock, .MemRead, 0x1000, [], 0, rfl⟩, .round] = some {
          memory := fun _ => 0
          reader := .awaiting ⟨.MemNoLock, .MemRead, 0x1000, [], 0, rfl⟩ } := rfl
    refine ⟨_, Machine.reachable_of_run hrun, rfl, fun event => ?_⟩
    cases event <;> rfl
  · have hrun : (machine .Join (some handleAccessMemory) fun _ => 0).run { memory := fun _ => 0 }
        [.call ⟨.MemNoLock, .MemRead, 0x1000, [0], 1, rfl⟩, .round] = some {
          memory := fun _ => 0
          -- the fields of the request are still there
          requests := [0, 0x10, 0, 0, 0, 0, 0, 0, 1, 0, 0, 0, 1, 0, 0, 0, 1, 0, 0, 0]
          writer := .gaveUp
          reader := .awaiting ⟨.MemNoLock, .MemRead, 0x1000, [0], 1, rfl⟩ } := rfl
    refine ⟨_, Machine.reachable_of_run hrun, rfl, fun event => ?_⟩
    cases event <;> rfl

end Session

end MultiCoreMemory.Sift
