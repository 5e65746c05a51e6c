import MultiCoreMemory.Controller.Generic
import MultiCoreMemory.Plugin.PRAC

/-!
# The PRAC controller (`prac_dram_controller.cpp`, `prac_scheduler.cpp`)

A controller with the PRAC plugin.  Shortly before a recovery it fills a buffer of its own,
`m_prac_buffer`, with the precharges and refreshes of the recovery period.

The refresh manager, the row policy and the other plugins act on the controller only by
`priority_send`, as in `Controller.Generic`; so does every scheduler by its choice alone.
-/

namespace MultiCoreMemory

variable {C σ S : Type}

/-- The parameters of the controller, what it looks up in the device, and those of the plugin. -/
structure PRACControllerParams (C : Type) where
  wrLowWatermark : ℚ := 1 / 5
  wrHighWatermark : ℚ := 4 / 5
  cfg : DeviceConfig C
  prac : PRACParams C
  channelId : ℤ := 0
  channelLevel : ℕ := 0
  /-- `m_levels.size()`. -/
  numLevels : ℕ := 6
  nRP : ℤ
  cmdPrea : C
  /-- Two names of the device's specification have two numbers. -/
  cmdPrea_ne_cmdRfmab : cmdPrea ≠ prac.cmdRfmab
  typeCloseAllBank : ℕ
  typeRfm : ℕ
  /-- `cmd_to_min_cycles`, zero where it has no entry. -/
  cmdToMinCycles : C → ℤ

def PRACControllerParams.minCyclesWithPreall (p : PRACControllerParams C) (r : Request C) : ℤ :=
  match r.command with
  | some c => p.cmdToMinCycles c
  | none => 0

def PRACControllerParams.fits (p : PRACControllerParams C) (clk : ℕ) (prac : PRAC) (r : Request C) :
    Bool :=
  decide ((clk : ℤ) + p.minCyclesWithPreall r < prac.aboRecoveryStart)

/-! ## Schedulers -/

/-- `IBHScheduler`: the buffer as the scheduler leaves it, and its choice. -/
structure IBHScheduler (C σ S : Type) where
  tick : S → S
  getBestRequest : S → PRAC → σ → ReqBuffer C → Option (ℕ × Request C) × ReqBuffer C

namespace PRACScheduler

/-- `compare`; the source keeps the two tests of a request in its scratchpad. -/
def prefers (D : IDRAM C σ) (p : PRACControllerParams C) (clk : ℕ) (prac : PRAC) (d : σ)
    (req1 req2 : Request C) : Bool :=
  let fits1 := p.fits clk prac req1
  let fits2 := p.fits clk prac req2
  if fits1 ^^ fits2 then fits1
  else
    let ready1 := req1.ready D d
    let ready2 := req2.ready D d
    if ready1 ^^ ready2 then ready1 else decide (req1.arrive ≤ req2.arrive)

def getBestRequest (D : IDRAM C σ) (p : PRACControllerParams C) (clk : ℕ) (prac : PRAC) (d : σ)
    (b : ReqBuffer C) : Option (ℕ × Request C) × ReqBuffer C :=
  match b.buffer.map (Request.withPreq D d) with
  | [] => (none, b)
  | r :: rs =>
    (some (FirstLeast.scan (prefers D p clk prac d) (0, r) 1 rs), { b with buffer := r :: rs })

end PRACScheduler

def pracScheduler (D : IDRAM C σ) (p : PRACControllerParams C) : IBHScheduler C σ ℕ where
  tick := fun clk => clk + 1
  getBestRequest := PRACScheduler.getBestRequest D p

/-! ## The controller -/

structure PRACController (C S : Type) where
  clk : ℕ := 0
  scheduler : S
  pending : List (Request C) := []
  activeBuffer : ReqBuffer C := {}
  priorityBuffer : ReqBuffer C := { maxSize := 2 ^ 31 - 1 }
  readBuffer : ReqBuffer C := {}
  writeBuffer : ReqBuffer C := {}
  pracBuffer : ReqBuffer C := {}
  isWriteMode : Bool := false
  row : RowStats := {}
  coreRow : ℤ → RowStats := fun _ => {}

inductive PRACBufferId where
  | active
  | prac
  | priority
  | read
  | write
  deriving DecidableEq, Repr

/-- What ends a run: an exception, or an update of the plugin that is undefined. -/
inductive PRACControllerError where
  | controller (e : ControllerError)
  | undefinedUpdate
  deriving DecidableEq, Repr

namespace PRACController

def send (D : IDRAM C σ) (c : PRACController C S) (req : Request C) :
    Except PRACControllerError (Bool × PRACController C S) :=
  match D.requestTranslations req.typeId with
  | none => .error (.controller .outOfRange)
  | some final =>
    let req := { req with finalCommand := some final }
    if req.typeId = typeRead ∧ c.writeBuffer.buffer.any (fun w => w.addr = req.addr) then
      -- forward the write to the read
      .ok (true, { c with pending := c.pending ++ [{ req with depart := c.clk + 1 }] })
    else
      let req := { req with arrive := c.clk }
      if req.typeId = typeRead then
        let (isSuccess, b) := c.readBuffer.enqueue req
        .ok (isSuccess, { c with readBuffer := b })
      else if req.typeId = typeWrite then
        let (isSuccess, b) := c.writeBuffer.enqueue req
        .ok (isSuccess, { c with writeBuffer := b })
      else .error (.controller .invalidRequestType)

def prioritySend (D : IDRAM C σ) (c : PRACController C S) (req : Request C) :
    Except PRACControllerError (Bool × PRACController C S) :=
  match D.requestTranslations req.typeId with
  | none => .error (.controller .outOfRange)
  | some final =>
    let (isSuccess, b) := c.priorityBuffer.enqueue { req with finalCommand := some final }
    .ok (isSuccess, { c with priorityBuffer := b })

def prioritySendAll (D : IDRAM C σ) (insist : Bool) :
    PRACController C S → List (Request C) → Except PRACControllerError (PRACController C S)
  | c, [] => .ok c
  | c, req :: reqs =>
    match c.prioritySend D req with
    | .error e => .error e
    | .ok (isSuccess, c') =>
      if insist && !isSuccess then .error (.controller .refreshNotSent)
      else prioritySendAll D insist c' reqs

def serveCompletedReads (c : PRACController C S) : PRACController C S :=
  match c.pending with
  | [] => c
  | req :: rest => if req.depart ≤ c.clk then { c with pending := rest } else c

/-! ### The recovery period -/

section

variable (p : PRACControllerParams C)

def allBankAddrVec (rank : ℕ) : AddrVec :=
  ((List.replicate p.numLevels (-1)).set p.channelLevel p.channelId).set p.cfg.rankLevel rank

def preaRequest (rank : ℕ) : Request C :=
  { addrVec := allBankAddrVec p rank
    typeId := p.typeCloseAllBank
    command := some p.cmdPrea
    finalCommand := some p.cmdPrea }

def rfmabRequest (rank : ℕ) : Request C :=
  { addrVec := allBankAddrVec p rank
    typeId := p.typeRfm
    command := some p.prac.cmdRfmab
    finalCommand := some p.prac.cmdRfmab }

def recoveryRequests : List (Request C) :=
  (List.range p.cfg.numRanks).map (preaRequest p) ++
    (List.range p.prac.aboRecoveryRefs).flatMap fun _ =>
      (List.range p.cfg.numRanks).map (rfmabRequest p)

def SetsUp (prac : PRAC) (c : PRACController C S) : Prop :=
  (prac.aboRecoveryStart : ℤ) - c.clk ≤ p.nRP + 5 ∧ c.pracBuffer.size = 0
  deriving Decidable

/-- The set-up of a recovery period; the answers of `enqueue` are not looked at. -/
def setupRecovery (prac : PRAC) (c : PRACController C S) : PRACController C S :=
  if SetsUp p prac c then { c with pracBuffer := c.pracBuffer.enqueueAll (recoveryRequests p) } else c

end

/-! ### Scheduling -/

def setWriteMode (p : PRACControllerParams C) (c : PRACController C S) : Bool :=
  if !c.isWriteMode then
    decide ((c.writeBuffer.size : ℚ) > p.wrHighWatermark * c.writeBuffer.maxSize) ||
      c.readBuffer.size == 0
  else
    !(decide ((c.writeBuffer.size : ℚ) < p.wrLowWatermark * c.writeBuffer.maxSize) &&
      c.readBuffer.size != 0)

def buf (c : PRACController C S) : PRACBufferId → ReqBuffer C
  | .active => c.activeBuffer
  | .prac => c.pracBuffer
  | .priority => c.priorityBuffer
  | .read => c.readBuffer
  | .write => c.writeBuffer

def setBuf (c : PRACController C S) (b : ReqBuffer C) : PRACBufferId → PRACController C S
  | .active => { c with activeBuffer := b }
  | .prac => { c with pracBuffer := b }
  | .priority => { c with priorityBuffer := b }
  | .read => { c with readBuffer := b }
  | .write => { c with writeBuffer := b }

structure Chosen (C : Type) where
  buffer : PRACBufferId
  pos : ℕ
  req : Request C

section

variable (D : IDRAM C σ) (sched : IBHScheduler C σ S) (p : PRACControllerParams C) (d : σ) (prac : PRAC)

/-- The best request of a buffer, if it ends before the recovery and the device is ready for it. -/
def bestOf (c : PRACController C S) (id : PRACBufferId) :
    Option (Chosen C) × PRACController C S :=
  let (best, b) := sched.getBestRequest c.scheduler prac d (c.buf id)
  let c := c.setBuf b id
  match best with
  | some (i, r) => (if p.fits c.clk prac r && r.ready D d then some ⟨id, i, r⟩ else none, c)
  | none => (none, c)

/-- Parts 2.2.2 and 2.2.3: the head of the priority buffer replaces the choice `found`. -/
def candidateRest (c : PRACController C S) (found : Option (Chosen C)) :
    Option (Chosen C) × PRACController C S :=
  match c.priorityBuffer.buffer with
  | head :: rest =>
    let head := head.withPreq D d
    let c := { c with priorityBuffer := { c.priorityBuffer with buffer := head :: rest } }
    (if p.fits c.clk prac head && head.ready D d then some ⟨.priority, 0, head⟩ else none, c)
  | [] =>
    match found with
    | some chosen => (some chosen, c)
    | none =>
      let c := { c with isWriteMode := c.setWriteMode p }
      bestOf D sched p d prac c (if c.isWriteMode then .write else .read)

variable [DecidableEq C]

variable (c : PRACController C S)

def candidate : Option (Chosen C) × PRACController C S :=
  match bestOf D sched p d prac c .active with
  | (some chosen, c) => (some chosen, c)
  | (none, c) =>
    match c.pracBuffer.buffer with
    | head :: rest =>
      let head := head.withPreq D d
      let c := { c with pracBuffer := { c.pracBuffer with buffer := head :: rest } }
      -- no `RFMab` before the recovery starts
      let earlyIssue := head.command == some p.prac.cmdRfmab && prac.state == .preRecovery
      if !earlyIssue && head.ready D d then candidateRest D sched p d prac c (some ⟨.prac, 0, head⟩)
      else (none, c)
    | [] => candidateRest D sched p d prac c none

def closesActive (r : Request C) : Bool :=
  match r.command with
  | some cmd => (D.commandMeta cmd).isClosing &&
      c.activeBuffer.buffer.any fun a => Controller.sameBank D.bankLevel a.addrVec r.addrVec
  | none => false

def countRow (m : CommandMeta) (increment : ℕ) (s : RowStats) : RowStats where
  hits := s.hits + if m.isAccessing then increment else 0
  misses := s.misses + if m.isOpening then increment else 0
  conflicts := s.conflicts + if m.isClosing then increment else 0

def countScheduled (chosen : Chosen C) : PRACController C S :=
  match chosen.req.command with
  | some cmd =>
    if chosen.buffer ≠ .active ∧ (chosen.req.typeId = typeRead ∨ chosen.req.typeId = typeWrite) then
      let m := D.commandMeta cmd
      let sourceId := if 0 ≤ chosen.req.sourceId then chosen.req.sourceId else 0
      let increment := if 0 ≤ chosen.req.sourceId then 1 else 0
      { c with
        row := countRow m 1 c.row
        coreRow := Function.update c.coreRow sourceId (countRow m increment (c.coreRow sourceId)) }
    else c
  | none => c

/-- Active, PRAC and priority buffer, reads or writes; a later stage overwrites the choice. -/
def scheduleRequest : Option (Chosen C) × PRACController C S :=
  match candidate D sched p d prac c with
  | (some chosen, c) =>
    if closesActive D c chosen.req then (none, c) else (some chosen, countScheduled D c chosen)
  | (none, c) => (none, c)

end

/-! ### One cycle -/

variable [DecidableEq C]

variable (D : IDRAM C σ) (sched : IBHScheduler C σ S) (p : PRACControllerParams C) (d : σ)
  (c : PRACController C S)

/-- The end of `tick`: the command is issued, and the request moves on. -/
def serve (chosen : Chosen C) : σ × PRACController C S :=
  match chosen.req.command with
  | none => (d, c)
  | some cmd =>
    let d := D.issueCommand d cmd chosen.req.addrVec
    if chosen.req.command = chosen.req.finalCommand then
      let c := if chosen.req.typeId = typeRead then
          { c with pending := c.pending ++ [{ chosen.req with depart := c.clk + D.readLatency }] }
        else c
      (d, c.setBuf ((c.buf chosen.buffer).remove chosen.pos) chosen.buffer)
    else if (D.commandMeta cmd).isOpening then
      let c := { c with activeBuffer := (c.activeBuffer.enqueue chosen.req).2 }
      (d, c.setBuf ((c.buf chosen.buffer).remove chosen.pos) chosen.buffer)
    else (d, c)

omit [DecidableEq C] in
def beginTick (refreshReqs : List (Request C)) : Except PRACControllerError (PRACController C S) :=
  let c := serveCompletedReads { c with clk := c.clk + 1 }
  match c.prioritySendAll D true refreshReqs with
  | .error e => .error e
  | .ok c => .ok { c with scheduler := sched.tick c.scheduler }

/-- `tick` from there on; `policyReqs` are sent by the row policy and the other plugins. -/
def endTick (prac : PRAC) (c : PRACController C S) (policyReqs : List (Request C))
    (orders : ℤ → List ℤ) : Except PRACControllerError (σ × PRAC × PRACController C S) :=
  let (chosen, c) := scheduleRequest D sched p d prac c
  match c.prioritySendAll D false policyReqs with
  | .error e => .error e
  | .ok c =>
    match prac.update p.cfg p.prac (chosen.map Chosen.req) orders with
    | none => .error .undefinedUpdate
    | some (prac, _) =>
      match chosen with
      | none => .ok (d, prac, c)
      | some chosen =>
        let (d, c) := c.serve D d chosen
        .ok (d, prac, c)

def tick (prac : PRAC) (c : PRACController C S) (refreshReqs policyReqs : List (Request C))
    (orders : ℤ → List ℤ) : Except PRACControllerError (σ × PRAC × PRACController C S) :=
  match beginTick D sched c refreshReqs with
  | .error e => .error e
  | .ok c => endTick D sched p d prac (setupRecovery p prac c) policyReqs orders

end PRACController

/-! ## Runs -/

structure PRACRun (C σ S : Type) where
  ctrl : PRACController C S
  prac : PRAC
  dram : σ

inductive PRACCall (C σ : Type) where
  | send (req : Request C)
  | prioritySend (req : Request C)
  | tick (refreshReqs policyReqs : List (Request C)) (orders : ℤ → List ℤ)
  | device (f : σ → σ)

namespace PRACController

variable [DecidableEq C]

def step (D : IDRAM C σ) (sched : IBHScheduler C σ S) (p : PRACControllerParams C)
    (s : PRACRun C σ S) : PRACCall C σ → Option (PRACRun C σ S)
  | .send req =>
    match s.ctrl.send D req with
    | .error _ => none
    | .ok (_, c) => some { s with ctrl := c }
  | .prioritySend req =>
    match s.ctrl.prioritySend D req with
    | .error _ => none
    | .ok (_, c) => some { s with ctrl := c }
  | .tick refreshReqs policyReqs orders =>
    match s.ctrl.tick D sched p s.dram s.prac refreshReqs policyReqs orders with
    | .error _ => none
    | .ok (d, prac, c) => some ⟨c, prac, d⟩
  | .device f => some { s with dram := f s.dram }

def machine (D : IDRAM C σ) (sched : IBHScheduler C σ S) (p : PRACControllerParams C) (scheduler : S)
    (d : σ) : Machine (PRACRun C σ S) (PRACCall C σ) where
  init := { ctrl := { scheduler := scheduler }, prac := PRAC.setup p.cfg, dram := d }
  step := step D sched p

end PRACController

end MultiCoreMemory
