import MultiCoreMemory.Base.Utils
import MultiCoreMemory.Dram.Node
import MultiCoreMemory.Lib.FirstLeast

/-!
# The DRAM controller (`generic_dram_controller.cpp`, `generic_scheduler.cpp`)

The controller talks to a device through `IDRAM`, a record of the functions of the source's
interface over an arbitrary device state `σ`; nothing is assumed about them.

The refresh manager, the row policy and the plugins act on the controller only by
`priority_send`; the requests they send in a cycle are arguments of `tick`.  What a call does to
the outside is returned as a list of effects: accepted requests, issued commands, completions.
A watermark is a rational number in place of a float.
-/

namespace MultiCoreMemory

structure IDRAM (C σ : Type) where
  requestTranslations : ℕ → Option C
  commandMeta : C → CommandMeta
  bankLevel : ℕ
  readLatency : ℤ
  issueCommand : σ → C → AddrVec → σ
  getPreqCommand : σ → C → AddrVec → C
  checkReady : σ → C → AddrVec → Bool
  checkRowbufferHit : σ → C → AddrVec → Bool
  checkNodeOpen : σ → C → AddrVec → Bool

inductive ControllerError where
  /-- A request type the device does not have, from `m_request_translations`. -/
  | outOfRange
  /-- "Invalid request type!" -/
  | invalidRequestType
  /-- "Failed to send refresh!" -/
  | refreshNotSent
  deriving DecidableEq, Repr

structure RowStats where
  hits : ℕ := 0
  misses : ℕ := 0
  conflicts : ℕ := 0

structure ControllerStats where
  row : RowStats := {}
  readRow : RowStats := {}
  writeRow : RowStats := {}
  readRowPerCore : ℤ → RowStats := fun _ => {}
  numReadReqs : ℕ := 0
  numWriteReqs : ℕ := 0
  numOtherReqs : ℕ := 0
  queueLen : ℕ := 0
  readQueueLen : ℕ := 0
  writeQueueLen : ℕ := 0
  priorityQueueLen : ℕ := 0
  readLatency : ℤ := 0

/-- The state of a `GenericDRAMController`. -/
structure Controller (C : Type) where
  clk : ℕ := 0
  pending : List (Request C) := []
  activeBuffer : ReqBuffer C := {}
  priorityBuffer : ReqBuffer C := { maxSize := 512 * 3 + 32 }
  readBuffer : ReqBuffer C := {}
  writeBuffer : ReqBuffer C := {}
  isWriteMode : Bool := false
  stats : ControllerStats := {}

structure ControllerParams where
  wrLowWatermark : ℚ := 1 / 5
  wrHighWatermark : ℚ := 4 / 5
  coreChannelLatency : LatencyMatrix

def ControllerParams.shipped : ControllerParams :=
  { coreChannelLatency := initializeCoreChannelLatency }

/-- `core_channel_latency_matrix[source_id][channel]` (inside the matrix in every use). -/
def ControllerParams.latency (p : ControllerParams) (sourceId channel : ℤ) : ℕ :=
  if h : 0 ≤ sourceId ∧ sourceId < 8 ∧ 0 ≤ channel ∧ channel < 8 then
    p.coreChannelLatency ⟨sourceId.toNat, by omega⟩
      ⟨channel.toNat, by have : numChannels = 8 := rfl; omega⟩
  else 0

inductive BufferId where
  | active
  | priority
  | read
  | write
  deriving DecidableEq, Repr

/-- What a controller's step did. -/
inductive Effect (C : Type) where
  | accepted (req : Request C)
  /-- The read was answered from the write buffer. -/
  | forwarded (req : Request C)
  | issued (command : C) (req : Request C)
  | completed (req : Request C)

variable {C σ : Type}

/-! ## FRFCFS -/

namespace Request

def ready (D : IDRAM C σ) (d : σ) (r : Request C) : Bool :=
  match r.command with
  | some c => D.checkReady d c r.addrVec
  | none => false

/-- `req.command = get_preq_command(req.final_command, req.addr_vec)`. -/
def withPreq (D : IDRAM C σ) (d : σ) (r : Request C) : Request C :=
  { r with command := r.finalCommand.map fun c => D.getPreqCommand d c r.addrVec }

end Request

namespace FRFCFS

def prefers (D : IDRAM C σ) (d : σ) (req1 req2 : Request C) : Bool :=
  let ready1 := req1.ready D d
  let ready2 := req2.ready D d
  if ready1 ^^ ready2 then ready1 else decide (req1.arrive ≤ req2.arrive)

/-- `get_best_request`: the buffer with every command recomputed, and the chosen position. -/
def getBestRequest (D : IDRAM C σ) (d : σ) (b : ReqBuffer C) :
    Option (ℕ × Request C) × ReqBuffer C :=
  match b.buffer.map (Request.withPreq D d) with
  | [] => (none, b)
  | r :: rs => (some (FirstLeast.scan (prefers D d) (0, r) 1 rs), { b with buffer := r :: rs })

end FRFCFS

namespace Controller

/-! ## Entry points -/

def countRequest (s : ControllerStats) (typeId : ℕ) : ControllerStats :=
  if typeId = typeRead then { s with numReadReqs := s.numReadReqs + 1 }
  else if typeId = typeWrite then { s with numWriteReqs := s.numWriteReqs + 1 }
  else { s with numOtherReqs := s.numOtherReqs + 1 }

def send (D : IDRAM C σ) (c : Controller C) (req : Request C) :
    Except ControllerError (Bool × List (Effect C) × Controller C) :=
  match D.requestTranslations req.typeId with
  | none => .error .outOfRange
  | some final =>
    let req := { req with finalCommand := some final }
    let c := { c with stats := countRequest c.stats req.typeId }
    if req.typeId = typeRead ∧ c.writeBuffer.buffer.any (fun w => w.addr = req.addr) then
      -- forward the write to the read
      let req := { req with depart := c.clk + 1 }
      .ok (true, [.forwarded req], { c with pending := c.pending ++ [req] })
    else
      let req := { req with arrive := c.clk }
      if req.typeId = typeRead then
        match c.readBuffer.enqueue req with
        | (true, b) => .ok (true, [.accepted req], { c with readBuffer := b })
        | (false, _) =>
          .ok (false, [],
            { c with stats := { c.stats with numReadReqs := c.stats.numReadReqs - 1 } })
      else if req.typeId = typeWrite then
        match c.writeBuffer.enqueue req with
        | (true, b) => .ok (true, [.accepted req], { c with writeBuffer := b })
        | (false, _) =>
          .ok (false, [],
            { c with stats := { c.stats with numWriteReqs := c.stats.numWriteReqs - 1 } })
      else .error .invalidRequestType

def prioritySend (D : IDRAM C σ) (c : Controller C) (req : Request C) :
    Except ControllerError (Bool × List (Effect C) × Controller C) :=
  match D.requestTranslations req.typeId with
  | none => .error .outOfRange
  | some final =>
    let req := { req with finalCommand := some final }
    match c.priorityBuffer.enqueue req with
    | (true, b) => .ok (true, [.accepted req], { c with priorityBuffer := b })
    | (false, _) => .ok (false, [], c)

/-- A sender that calls `priority_send` for each request; the refresh manager insists. -/
def prioritySendAll (D : IDRAM C σ) (insist : Bool) :
    Controller C → List (Request C) → Except ControllerError (List (Effect C) × Controller C)
  | c, [] => .ok ([], c)
  | c, req :: reqs =>
    match c.prioritySend D req with
    | .error e => .error e
    | .ok (isSuccess, effects, c') =>
      if insist && !isSuccess then .error .refreshNotSent
      else
        match prioritySendAll D insist c' reqs with
        | .error e => .error e
        | .ok (effects', c'') => .ok (effects ++ effects', c'')

/-! ## One cycle -/

variable (c : Controller C)

def countQueues : ControllerStats :=
  { c.stats with
    queueLen := c.stats.queueLen + c.readBuffer.size + c.writeBuffer.size +
      c.priorityBuffer.size + c.pending.length
    readQueueLen := c.stats.readQueueLen + c.readBuffer.size + c.pending.length
    writeQueueLen := c.stats.writeQueueLen + c.writeBuffer.size
    priorityQueueLen := c.stats.priorityQueueLen + c.priorityBuffer.size }

variable (D : IDRAM C σ) (p : ControllerParams) (c : Controller C) (d : σ)

def latencyOf (req : Request C) : ℤ :=
  if req.depart - req.arrive > 1 then
    req.depart - req.arrive + 2 * p.latency req.sourceId (req.addrVec.level 0)
  else 0

/-- `serve_completed_reads`: at most the first pending request. -/
def serveCompletedReads : List (Effect C) × Controller C :=
  match c.pending with
  | [] => ([], c)
  | req :: rest =>
    if req.depart ≤ c.clk then
      ([.completed req],
        { c with
          pending := rest
          stats := { c.stats with readLatency := c.stats.readLatency + latencyOf p req } })
    else ([], c)

def setWriteMode : Bool :=
  if !c.isWriteMode then
    decide ((c.writeBuffer.size : ℚ) > p.wrHighWatermark * c.writeBuffer.maxSize) ||
      c.readBuffer.size == 0
  else
    !(decide ((c.writeBuffer.size : ℚ) < p.wrLowWatermark * c.writeBuffer.maxSize) &&
      c.readBuffer.size != 0)

def buf : BufferId → ReqBuffer C
  | .active => c.activeBuffer
  | .priority => c.priorityBuffer
  | .read => c.readBuffer
  | .write => c.writeBuffer

def setBuf (b : ReqBuffer C) : BufferId → Controller C
  | .active => { c with activeBuffer := b }
  | .priority => { c with priorityBuffer := b }
  | .read => { c with readBuffer := b }
  | .write => { c with writeBuffer := b }

structure Chosen (C : Type) where
  buffer : BufferId
  pos : ℕ
  req : Request C

variable (c : Controller C) (id : BufferId)

def bestOf : Option (Chosen C) × Controller C :=
  let (best, b) := FRFCFS.getBestRequest D d (c.buf id)
  let c := c.setBuf b id
  match best with
  | some (i, r) => (if r.ready D d then some ⟨id, i, r⟩ else none, c)
  | none => (none, c)

/-- Parts 2.1 and 2.2 of `schedule_request`: active, then priority, then read or write. -/
def candidate : Option (Chosen C) × Controller C :=
  match bestOf D d c .active with
  | (some chosen, c) => (some chosen, c)
  | (none, c) =>
    match c.priorityBuffer.buffer with
    | head :: rest =>
      -- the head of the priority buffer is served or nothing is
      let head := head.withPreq D d
      let c := { c with priorityBuffer := { c.priorityBuffer with buffer := head :: rest } }
      (if head.ready D d then some ⟨.priority, 0, head⟩ else none, c)
    | [] =>
      let c := { c with isWriteMode := c.setWriteMode p }
      bestOf D d c (if c.isWriteMode then .write else .read)

/-- Do two addresses agree down to the bank, a `-1` agreeing with everything? -/
def sameBank (bankLevel : ℕ) (a b : AddrVec) : Bool :=
  (List.range (bankLevel + 1)).all fun i =>
    !(a.level i ≠ b.level i && a.level i ≠ -1 && b.level i ≠ -1)

/-- Part 2.3: the command would close a row that an active request needs. -/
def closesActive (r : Request C) : Bool :=
  match r.command with
  | some cmd => (D.commandMeta cmd).isClosing &&
      c.activeBuffer.buffer.any fun a => sameBank D.bankLevel a.addrVec r.addrVec
  | none => false

def scheduleRequest : Option (Chosen C) × Controller C :=
  match candidate D p d c with
  | (some chosen, c) => (if closesActive D c chosen.req then none else some chosen, c)
  | (none, c) => (none, c)

def RowStats.count (s : RowStats) (hit isOpen : Bool) : RowStats :=
  if hit then { s with hits := s.hits + 1 }
  else if isOpen then { s with conflicts := s.conflicts + 1 }
  else { s with misses := s.misses + 1 }

def updateRequestStats (s : ControllerStats) (r : Request C) : ControllerStats :=
  match r.finalCommand with
  | none => s
  | some final =>
    let hit := D.checkRowbufferHit d final r.addrVec
    let isOpen := D.checkNodeOpen d final r.addrVec
    if r.typeId = typeRead then
      { s with
        row := RowStats.count s.row hit isOpen
        readRow := RowStats.count s.readRow hit isOpen
        readRowPerCore :=
          if r.sourceId ≠ -1 then
            Function.update s.readRowPerCore r.sourceId
              (RowStats.count (s.readRowPerCore r.sourceId) hit isOpen)
          else s.readRowPerCore }
    else if r.typeId = typeWrite then
      { s with
        row := RowStats.count s.row hit isOpen
        writeRow := RowStats.count s.writeRow hit isOpen }
    else s

def setReq (pos : ℕ) (r : Request C) : Controller C :=
  c.setBuf { c.buf id with buffer := (c.buf id).buffer.set pos r } id

/-- The first statements of part 4 of `tick`: count the request once. -/
def countServed (chosen : Chosen C) : Request C × Controller C :=
  if chosen.req.isStatUpdated then (chosen.req, c)
  else
    let r := { chosen.req with isStatUpdated := true }
    (r, { c.setReq chosen.buffer chosen.pos r with
      stats := updateRequestStats D d c.stats chosen.req })

def afterIssue [DecidableEq C] (D : IDRAM C σ) (c : Controller C) (chosen : Chosen C)
    (r : Request C) (cmd : C) : Controller C :=
  if r.command = r.finalCommand then
    let c := if r.typeId = typeRead then
        { c with pending := c.pending ++ [{ r with depart := c.clk + D.readLatency }] }
      else c
    c.setBuf ((c.buf chosen.buffer).remove chosen.pos) chosen.buffer
  else if (D.commandMeta cmd).isOpening then
    -- the answer of `enqueue` is not looked at
    let c := { c with activeBuffer := (c.activeBuffer.enqueue r).2 }
    c.setBuf ((c.buf chosen.buffer).remove chosen.pos) chosen.buffer
  else c

def serve [DecidableEq C] (D : IDRAM C σ) (d : σ) (c : Controller C) (chosen : Chosen C) :
    σ × List (Effect C) × Controller C :=
  let (r, c) := countServed D d c chosen
  match r.command with
  | none => (d, [], c)
  | some cmd => (D.issueCommand d cmd r.addrVec, [.issued cmd r], afterIssue D c chosen r cmd)

/-- `tick`: `refreshReqs` are sent by the refresh manager, `policyReqs` by the row policy and the
plugins. -/
def tick [DecidableEq C] (D : IDRAM C σ) (p : ControllerParams) (d : σ) (c : Controller C)
    (refreshReqs policyReqs : List (Request C)) :
    Except ControllerError (σ × List (Effect C) × Controller C) :=
  let c := { c with clk := c.clk + 1, stats := c.countQueues }
  let (served, c) := c.serveCompletedReads p
  match c.prioritySendAll D true refreshReqs with
  | .error e => .error e
  | .ok (refreshed, c) =>
    let (chosen, c) := c.scheduleRequest D p d
    match c.prioritySendAll D false policyReqs with
    | .error e => .error e
    | .ok (sent, c) =>
      match chosen with
      | none => .ok (d, served ++ refreshed ++ sent, c)
      | some chosen =>
        let (d, issued, c) := c.serve D d chosen
        .ok (d, served ++ refreshed ++ sent ++ issued, c)

end Controller

end MultiCoreMemory
