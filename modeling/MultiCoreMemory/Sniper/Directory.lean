import Mathlib.Data.Fintype.Basic
import Mathlib.Data.Finset.Card
import Mathlib.Data.List.FinRange
import MultiCoreMemory.Lib.Machine
import MultiCoreMemory.Sniper.Cache

/-!
# The directory protocol for one address

`pr_l1_pr_l2_dram_directory_msi/dram_directory_cntlr.cc` and the last-level caches that talk to it
(`parametric_dram_directory_msi/cache_cntlr.cc`), without a NUCA cache and with an entry that is never
replaced.

A full-map directory is one whose `maxHwSharers` is the number of cores.  In the source, a request that
is answered ends with a call of `processNextReqFromL2Cache`; here the handler of a request says
whether it answered, and `serve` goes on with the queue.  `none` stands for a failed `assert`.

Two pieces of memory are read without having been written: the local buffer of `processWbReq`, when
the line is being upgraded, and the buffer of a `FLUSH_REP` that an upgrade keeps a pointer to, after
it was freed.  What they hold is an input of the step, and so is the index that
`getOneSharer` draws.
-/

namespace MultiCoreMemory.Sniper

inductive CoherencyProtocol where
  | MSI
  | MESI
  | MESIF
  deriving DecidableEq, Repr

structure DirectoryConfig where
  protocol : CoherencyProtocol
  maxHwSharers : ℕ
  deriving DecidableEq, Repr

/-- `DirectoryState::dstate_t`, without the state that is never entered. -/
inductive DState where
  | UNCACHED
  | SHARED
  | MODIFIED
  | EXCLUSIVE
  deriving DecidableEq, Repr

inductive Request where
  | EX_REQ
  | SH_REQ
  | UPGRADE_REQ
  deriving DecidableEq, Repr

inductive Revoke where
  | INV_REQ
  | FLUSH_REQ
  | WB_REQ
  deriving DecidableEq, Repr

inductive ToDirectory (D : Type) where
  | request (type : Request)
  | INV_REP
  | FLUSH_REP (data : D)
  | WB_REP (data : D)
  deriving DecidableEq, Repr

inductive ToCache (D : Type) where
  | EX_REP (data : D)
  | SH_REP (data : D)
  | UPGRADE_REP
  | revoke (type : Revoke)
  deriving DecidableEq, Repr

/-- `ShmemReq`. `hasData`: its message points to a data buffer. `displaced` (history): the sharer that
has to go first. `id` counts the requests. -/
structure ShmemReq (n : ℕ) where
  type : Request
  requester : Fin n
  hasData : Bool := false
  waitForData : Bool := false
  forwardingFrom : Option (Fin n) := none
  displaced : Option (Fin n) := none
  id : ℕ
  deriving DecidableEq, Repr

/-- A request becomes the one at the head of the queue, or is answered. -/
inductive DirEvent where
  | started (id : ℕ)
  | replied (id : ℕ)
  deriving DecidableEq, Repr

/-- The entry of the address, the queue of its requests, the channels to the caches and the DRAM. -/
structure Directory (n : ℕ) (D : Type) where
  dstate : DState := .UNCACHED
  sharers : Finset (Fin n) := ∅
  owner : Option (Fin n) := none
  /-- not initialised by the constructor of the entry -/
  forwarder : Option (Fin n)
  queue : List (ShmemReq n) := []
  /-- messages on their way to each cache -/
  down : Fin n → List (ToCache D) := fun _ => []
  dram : D
  /-- replies of the DRAM on their way -/
  dramReads : List D := []
  requests : ℕ := 0
  events : List DirEvent := []

namespace Directory

variable {n : ℕ} {D : Type} (cfg : DirectoryConfig)

/-! ## The entry and the channels -/

variable (d : Directory n D) (r : ShmemReq n) (cached : Option D) (sender : Fin n) (pick : ℕ)
  (i : Fin n) (freed : D) (msg : ToCache D)

def sharersList : List (Fin n) := (List.finRange n).filter (· ∈ d.sharers)

/-- `addSharer`: was there room? -/
def addSharer : Option (Bool × Directory n D) :=
  if i ∈ d.sharers then none
  else if cfg.maxHwSharers ≤ d.sharers.card then some (false, d)
  else some (true, { d with sharers := insert i d.sharers })

def setOwner : Option (Directory n D) :=
  if i ∈ d.sharers then some { d with owner := some i } else none

def getOneSharer : Option (Fin n) :=
  d.sharersList[pick % d.sharersList.length]?

def send : Directory n D :=
  { d with down := Function.update d.down i (d.down i ++ [msg]) }

/-- A loop over the sharers that sends each of them at most one message. -/
def revokeSharers (revoke : Fin n → Option Revoke) : Directory n D :=
  { d with
    down := fun i => d.down i ++ if i ∈ d.sharers then (revoke i).toList.map .revoke else [] }

def setHead : Directory n D :=
  { d with queue := r :: d.queue.tail }

def reply : Directory n D :=
  { d.send r.requester msg with events := d.events ++ [.replied r.id] }

/-- The requester becomes the only sharer and the owner; there must be room. -/
def own (dstate : DState) : Option (Directory n D) := do
  match ← d.addSharer cfg i with
  | (true, d) => return { ← d.setOwner i with dstate }
  | (false, _) => none

/-! ## The request at the head of the queue -/

def forwardFrom : Option (Fin n) :=
  if cfg.protocol = .MESIF ∧ r.forwardingFrom = none ∧ d.dstate = .SHARED then d.forwarder else none

/-- `retrieveDataAndSendToL2Cache`: is the request answered? -/
def retrieveData (msg : D → ToCache D) (cached : Option D) : Directory n D × Bool :=
  match cached with
  | some data => ({ d.reply r (msg data) with forwarder := some r.requester }, true)
  | none =>
    match d.forwardFrom cfg r with
    | some f =>
      ((d.setHead { r with forwardingFrom := some f, displaced := none }).send f (.revoke .WB_REQ),
        false)
    | none =>
      ({ d.setHead { r with waitForData := true, displaced := none } with
          dramReads := d.dramReads ++ [d.dram] }, false)

def revokeOwner (revoke : Revoke) (cached : Option D) : Option (Directory n D × Bool) :=
  if cached.isSome then none else d.owner.map fun o => (d.send o (.revoke revoke), false)

def processExReq : Option (Directory n D × Bool) :=
  match d.dstate with
  | .EXCLUSIVE | .MODIFIED => d.revokeOwner .FLUSH_REQ cached
  | .SHARED => if cached.isSome then none else some (d.revokeSharers fun _ => some .INV_REQ, false)
  | .UNCACHED => do
    let d ← d.own cfg r.requester .MODIFIED
    return d.retrieveData cfg r .EX_REP cached

def processShReq : Option (Directory n D × Bool) :=
  match d.dstate with
  | .EXCLUSIVE => if d.owner = some r.requester then none else d.revokeOwner .WB_REQ cached
  | .MODIFIED => d.revokeOwner .WB_REQ cached
  | .SHARED =>
    if r.requester ∈ d.sharers then some (d.retrieveData cfg r .SH_REP cached)
    else do
      match ← d.addSharer cfg r.requester with
      | (true, d) => return d.retrieveData cfg r .SH_REP cached
      | (false, d) =>
        let v ← d.getOneSharer pick
        return ((d.setHead { r with displaced := some v }).send v (.revoke .INV_REQ), false)
  | .UNCACHED =>
    if cfg.protocol = .MSI then do
      let d ← d.own cfg r.requester .SHARED
      return d.retrieveData cfg r .SH_REP cached
    else do
      let d ← d.own cfg r.requester .EXCLUSIVE
      return d.retrieveData cfg r .EX_REP cached

/-- The message that an upgrade sends to a sharer: one copy is flushed if the requester has none. -/
def upgradeRevoke : Option Revoke :=
  if i = r.requester then none
  else if r.requester ∉ d.sharers ∧ d.sharersList.head? = some i then some .FLUSH_REQ
  else some .INV_REQ

/-- `processUpgradeReqFromL2Cache`; `freed` is what a freed buffer holds. -/
def processUpgradeReq : Option (Directory n D × Bool) :=
  match d.dstate with
  | .EXCLUSIVE | .MODIFIED =>
    match d.sharersList.head? with
    | none => none
    | some first =>
      if first = r.requester then
        if d.owner = some r.requester then
          some ({ d.reply r .UPGRADE_REP with dstate := .MODIFIED }, true)
        else none
      else d.owner.map fun o => (d.send o (.revoke .FLUSH_REQ), false)
  | .SHARED =>
    if d.sharersList = [r.requester] then do
      let d ← d.setOwner r.requester
      return (reply { d with dstate := .MODIFIED } r .UPGRADE_REP, true)
    else some (d.revokeSharers (d.upgradeRevoke r), false)
  | .UNCACHED =>
    if d.sharers = ∅ then do
      let d ← d.own cfg r.requester .MODIFIED
      return d.retrieveData cfg r .EX_REP (cached <|> if r.hasData then some freed else none)
    else none

def processHead : Option (Directory n D × Bool) :=
  match d.queue with
  | [] => none
  | r :: _ =>
    match r.type with
    | .EX_REQ => d.processExReq cfg r cached
    | .SH_REQ => d.processShReq cfg r cached pick
    | .UPGRADE_REQ => d.processUpgradeReq cfg r cached freed

/-- `processNextReqFromL2Cache`, with what is left of the queue. -/
def processNext (pick : ℕ) (freed : D) : List (ShmemReq n) → Directory n D → Option (Directory n D)
  | [], d => some { d with queue := [] }
  | r :: rest, d => do
    let (d, answered) ← processHead cfg
      { d with queue := r :: rest, events := d.events ++ [.started r.id] } none pick freed
    if answered then processNext pick freed rest d else return d

/-- Treat the request at the head of the queue, and go on if it is answered. -/
def serve :
    Option (Directory n D) := do
  let (d, answered) ← d.processHead cfg cached pick freed
  if answered then processNext cfg pick freed d.queue.tail d else return d

/-! ## Messages -/

/-- A request is put in the queue, and treated if it is alone there. -/
def processRequest (type : Request) (pick : ℕ) (freed : D) : Option (Directory n D) :=
  let r : ShmemReq n := { type, requester := sender, id := d.requests }
  let d := { d with queue := d.queue ++ [r], requests := d.requests + 1 }
  if d.queue.length = 1 then
    serve cfg { d with events := d.events ++ [.started r.id] } none pick freed
  else some d

/-- The sharer's copy is gone; the entry is empty if it was the last one. -/
def removeSharer : Directory n D :=
  { d with
    sharers := d.sharers.erase i
    dstate := if d.sharers.erase i = ∅ then .UNCACHED else d.dstate }

/-- The request at the head, when a copy of the line is gone from `sender`. -/
def afterInvRep : Option (Directory n D) :=
  match d.queue with
  | [] => some d
  | r :: _ =>
    match r.type with
    | .EX_REQ => if d.dstate = .UNCACHED then d.serve cfg none pick freed else some d
    | .UPGRADE_REQ =>
      if d.sharers.card = 1 then
        if r.requester ∈ d.sharers then d.serve cfg none pick freed else some d
      else if d.sharers.card = 0 then serve cfg { d with dstate := .UNCACHED } none pick freed
      else some d
    | .SH_REQ =>
      if r.waitForData then some d
      else if r.forwardingFrom ≠ none ∧ r.forwardingFrom ≠ some sender then some d
      else d.serve cfg none pick freed

/-- `processInvRepFromL2Cache`. -/
def processInvRep : Option (Directory n D) :=
  if (d.dstate = .SHARED ∨ d.dstate = .EXCLUSIVE) ∧ sender ∈ d.sharers then
    afterInvRep cfg { d.removeSharer sender with
      forwarder := if d.forwarder = some sender then none else d.forwarder } sender pick freed
  else none

/-- The request at the head, when the data of the line has come back. -/
def afterFlushRep (data : D) (pick : ℕ) (freed : D) : Option (Directory n D) :=
  match d.queue with
  | [] => some { d with dram := data }
  | r :: _ =>
    match r.type with
    | .EX_REQ => d.serve cfg (some data) pick freed
    | .SH_REQ => serve cfg { d with dram := data } (some data) pick freed
    | .UPGRADE_REQ =>
      if d.sharers.card = 0 then serve cfg { d with dstate := .UNCACHED } (some data) pick freed
      else some (d.setHead { r with hasData := true })

/-- `processFlushRepFromL2Cache`. -/
def processFlushRep (data : D) (pick : ℕ) (freed : D) : Option (Directory n D) :=
  if sender ∈ d.sharers ∧ (d.sharers.erase sender = ∅ ∨ d.dstate = .SHARED) then
    afterFlushRep cfg { d.removeSharer sender with forwarder := none, owner := none } data pick freed
  else none

/-- `processWbRepFromL2Cache`. -/
def processWbRep (data : D) (pick : ℕ) (freed : D) : Option (Directory n D) :=
  if sender ∈ d.sharers ∧ d.queue.head?.any (·.type = .SH_REQ) then
    serve cfg { d with owner := none, dstate := .SHARED } (some data) pick freed
  else none

def handleMsg (msg : ToDirectory D) (pick : ℕ) (freed : D) : Option (Directory n D) :=
  match msg with
  | .request type => d.processRequest cfg sender type pick freed
  | .INV_REP => d.processInvRep cfg sender pick freed
  | .FLUSH_REP data => d.processFlushRep cfg sender data pick freed
  | .WB_REP data => d.processWbRep cfg sender data pick freed

/-- The reply to the request at the head, when its data comes from the DRAM. -/
def dramReply (data : D) : Option (ToCache D) :=
  match r.type, d.dstate with
  | .SH_REQ, .EXCLUSIVE => some (.EX_REP data)
  | .SH_REQ, .SHARED => some (.SH_REP data)
  | .SH_REQ, _ => none
  | .EX_REQ, .MODIFIED => some (.EX_REP data)
  | .EX_REQ, _ => none
  | .UPGRADE_REQ, _ => some (.EX_REP data)

def processDRAMReply : Option (Directory n D) :=
  match d.dramReads, d.queue with
  | data :: reads, r :: rest => do
    let msg ← d.dramReply r data
    processNext cfg pick freed rest (reply { d with dramReads := reads } r msg)
  | _, _ => none

end Directory

/-! ## The caches -/

/-- A core's L2 line and the messages it has sent. -/
structure Core (D : Type) where
  cstate : CState := .INVALID
  data : D
  pending : Option Request := none
  up : List (ToDirectory D) := []

namespace Core

variable {D : Type}

variable (c : Core D)

/-- `processExReqToDirectory`, `processShReqToDirectory` and `processUpgradeReqToDirectory`. -/
def request (type : Request) : Option (Core D) :=
  match type, c.cstate, c.pending with
  | .UPGRADE_REQ, .SHARED, none => some { c with
      cstate := .SHARED_UPGRADING, pending := some type, up := c.up ++ [.request type] }
  | .EX_REQ, .INVALID, none | .SH_REQ, .INVALID, none =>
    some { c with pending := some type, up := c.up ++ [.request type] }
  | _, _, _ => none

def evict : Option (Core D) :=
  match c.cstate with
  | .SHARED | .EXCLUSIVE => some { c with cstate := .INVALID, up := c.up ++ [.INV_REP] }
  | .MODIFIED => some { c with cstate := .INVALID, up := c.up ++ [.FLUSH_REP c.data] }
  | _ => none

def write (change : D → D) : Option (Core D) :=
  match c.cstate with
  | .EXCLUSIVE | .MODIFIED => some { c with cstate := .MODIFIED, data := change c.data }
  | _ => none

/-- `processInvReq`, `processFlushReq` and `processWbReq`; `uninit` is what a buffer holds that was
not written. -/
def revoked (revoke : Revoke) (uninit : D) : Option (Core D) :=
  match c.cstate, revoke with
  | .INVALID, _ => some c
  | .MODIFIED, .INV_REQ => none
  | _, .INV_REQ => some { c with cstate := .INVALID, up := c.up ++ [.INV_REP] }
  | _, .FLUSH_REQ => some { c with cstate := .INVALID, up := c.up ++ [.FLUSH_REP c.data] }
  | .SHARED_UPGRADING, .WB_REQ => some { c with up := c.up ++ [.WB_REP uninit] }
  | _, .WB_REQ => some { c with cstate := .SHARED, up := c.up ++ [.WB_REP c.data] }

/-- `handleMsgFromDramDirectory`: the core and whether it writes.  A line that was asked for in order to
be written is written before anything else happens to it. -/
def handleMsg (msg : ToCache D) (change : D → D) (uninit : D) : Option (Core D × Bool) :=
  match msg, c.cstate, c.pending with
  | .EX_REP data, .INVALID, some .SH_REQ =>
    some ({ c with cstate := .EXCLUSIVE, data, pending := none }, false)
  | .EX_REP data, .INVALID, some _ =>
    some ({ c with cstate := .MODIFIED, data := change data, pending := none }, true)
  | .SH_REP data, .INVALID, some .SH_REQ =>
    some ({ c with cstate := .SHARED, data, pending := none }, false)
  | .UPGRADE_REP, .SHARED_UPGRADING, some .UPGRADE_REQ =>
    some ({ c with cstate := .MODIFIED, data := change c.data, pending := none }, true)
  | .revoke type, _, _ => (c.revoked type uninit).map (·, false)
  | _, _, _ => none

end Core

/-! ## The system -/

/-- The directory, and of every core its copy of the line, its request and its channel. -/
structure DirSystem (n : ℕ) (D : Type) where
  dir : Directory n D
  cores : Fin n → Core D
  lastWritten : D

inductive DirCall (n : ℕ) (D : Type) where
  | request (i : Fin n) (type : Request)
  | evict (i : Fin n)
  | write (i : Fin n) (change : D → D)
  | toDirectory (i : Fin n) (pick : ℕ) (freed : D)
  | toCache (i : Fin n) (change : D → D) (uninit : D)
  | dramReply (pick : ℕ) (freed : D)

namespace DirSystem

variable {n : ℕ} {D : Type} (cfg : DirectoryConfig)

variable (s : DirSystem n D) (i : Fin n)

def setCore (c : Core D) : DirSystem n D :=
  { s with cores := Function.update s.cores i c }

def toDirectory (pick : ℕ) (freed : D) : Option (DirSystem n D) :=
  match (s.cores i).up with
  | [] => none
  | msg :: up => do
    let dir ← s.dir.handleMsg cfg i msg pick freed
    return { s.setCore i { s.cores i with up } with dir }

def toCache (change : D → D) (uninit : D) : Option (DirSystem n D) :=
  match s.dir.down i with
  | [] => none
  | msg :: down => do
    let (core, writes) ← (s.cores i).handleMsg msg change uninit
    return { s.setCore i core with
      dir := { s.dir with down := Function.update s.dir.down i down }
      lastWritten := if writes then change s.lastWritten else s.lastWritten }

def step : DirCall n D → Option (DirSystem n D)
  | .request i type => ((s.cores i).request type).map (s.setCore i)
  | .evict i => (s.cores i).evict.map (s.setCore i)
  | .write i change => ((s.cores i).write change).map fun c =>
      { s.setCore i c with lastWritten := change s.lastWritten }
  | .toDirectory i pick freed => s.toDirectory cfg i pick freed
  | .toCache i change uninit => s.toCache i change uninit
  | .dramReply pick freed =>
    (s.dir.processDRAMReply cfg pick freed).map fun dir => { s with dir }

end DirSystem

/-- The cores, the directory and the DRAM, from empty caches and an arbitrary forwarder. -/
def directory (n : ℕ) {D : Type} (cfg : DirectoryConfig) (dram : D) (forwarder : Option (Fin n)) :
    Machine (DirSystem n D) (DirCall n D) where
  init := {
    dir := { dram, forwarder }
    cores := fun _ => { data := dram }
    lastWritten := dram }
  step s call := s.step cfg call

end MultiCoreMemory.Sniper
