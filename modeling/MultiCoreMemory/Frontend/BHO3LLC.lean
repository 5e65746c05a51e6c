import Mathlib.Logic.Function.Basic
import Mathlib.Tactic.Ring
import MultiCoreMemory.Lib.Machine

/-!
# The shared cache of the BHO3 processor (`bhO3/bhllc.h`, `bhO3/bhllc.cpp`, `bhO3/bhO3.cpp`)

A cache set is a `std::list`, and an MSHR entry keeps an iterator to a line of it.  A line is
therefore given the list node it lives in, and an iterator is a set and a node.  `none` stands for
a call that does not return: a failed `assert`, an exception, or the use of an iterator whose node
was erased.

Addresses are not negative.  The memory system is an environment: it answers each request it is
offered, and completes the reads it has accepted in any order.  `touched`, `stores`, `accepted`,
`delivered` and `sent` are history; no modelled function reads them, except that a request
is named by its place in `accepted`.
-/

namespace MultiCoreMemory

inductive AccessType where
  | read
  | write
  deriving DecidableEq, Repr

/-- Sizes of the cache; the numbers of sets and of bytes a line are powers of two. -/
structure BHO3Params where
  latency : ℕ
  indexBits : ℕ
  offsetBits : ℕ
  associativity : ℕ
  numMshrs : ℕ
  numBlockingCores : ℕ
  deriving DecidableEq, Repr

namespace BHO3Params

variable (p : BHO3Params)

def getIndex (addr : ℕ) : ℕ := (addr >>> p.offsetBits) &&& (2 ^ p.indexBits - 1)

def getTag (addr : ℕ) : ℕ := addr >>> (p.indexBits + p.offsetBits)

/-- `align` clears the bits that select a byte of the line. -/
def align (addr : ℕ) : ℕ := (addr >>> p.offsetBits) <<< p.offsetBits

def isAttacker (core : ℕ) : Bool := p.numBlockingCores ≤ core

/-- **A line is known by its set and its tag.** -/
theorem align_eq_iff (a b : ℕ) :
    p.align a = p.align b ↔ p.getIndex a = p.getIndex b ∧ p.getTag a = p.getTag b := by
  have hline : p.align a = p.align b ↔ a / 2 ^ p.offsetBits = b / 2 ^ p.offsetBits := by
    simp only [align, Nat.shiftLeft_eq, Nat.shiftRight_eq_div_pow]
    exact Nat.mul_left_inj (Nat.two_pow_pos _).ne'
  have htag : ∀ x, p.getTag x = x / 2 ^ p.offsetBits / 2 ^ p.indexBits := by
    intro x
    rw [getTag, Nat.shiftRight_eq_div_pow, Nat.div_div_eq_div_mul, ← pow_add, add_comm]
  have hindex : ∀ x, p.getIndex x = x / 2 ^ p.offsetBits % 2 ^ p.indexBits := by
    intro x
    rw [getIndex, Nat.and_two_pow_sub_one_eq_mod, Nat.shiftRight_eq_div_pow]
  rw [hline, htag, htag, hindex, hindex]
  constructor
  · intro h
    rw [h]
    exact ⟨rfl, rfl⟩
  · rintro ⟨hmod, hdiv⟩
    rw [← Nat.mod_add_div (a / 2 ^ p.offsetBits) (2 ^ p.indexBits), hmod, hdiv, Nat.mod_add_div]

end BHO3Params

/-- `Request`, as far as the cache and the cores read it; `source` is `none` for `-1`.  `id` names
the request object. -/
structure LLCRequest where
  addr : ℕ
  type : AccessType
  source : Option ℕ := none
  id : ℕ := 0
  deriving DecidableEq, Repr

namespace BHO3LLC

structure Line where
  addr : ℕ
  tag : ℕ
  dirty : Bool := false
  ready : Bool := false
  node : ℕ
  deriving DecidableEq, Repr

structure Iterator where
  set : ℕ
  node : ℕ
  deriving DecidableEq, Repr

structure MSHREntry where
  addr : ℕ
  line : Iterator
  deriving DecidableEq, Repr

/-- An entry of `m_miss_list`; `seq` counts the entries that were ever put on the list. -/
structure MissEntry where
  due : ℕ
  req : LLCRequest
  seq : ℕ
  deriving DecidableEq, Repr

/-- A write the cache has accepted, or a write-back it has queued, of an aligned address. -/
inductive StoreEvent where
  | wrote (line : ℕ)
  | writeBackQueued (line : ℕ)
  deriving DecidableEq, Repr

end BHO3LLC

open BHO3LLC in
/-- The cache, with the requests that wait for a line; the last two fields are history. -/
structure BHO3LLC where
  clk : ℕ := 0
  sets : ℕ → List Line := fun _ => []
  mshrs : List MSHREntry := []
  receiveRequests : ℕ → List LLCRequest := fun _ => []
  missList : List MissEntry := []
  hitList : List (ℕ × LLCRequest) := []
  allocatedMshrs : ℕ → ℤ := fun _ => 0
  blacklistMaxMshrs : ℕ → ℤ := fun _ => 0
  blacklistStatus : ℕ → Bool := fun _ => false
  nodes : ℕ := 0
  pushed : ℕ := 0
  touched : List ℕ := []
  stores : List StoreEvent := []

namespace BHO3LLC

variable (p : BHO3Params)

/-! ## Lines and MSHR entries -/

variable (s : BHO3LLC) (req : LLCRequest) (set : List Line) (addr : ℕ) (it : Iterator)
  (f : Line → Line) (dirty : Bool)

/-- `check_set_hit`: the first line with the tag, if it is ready. -/
def checkSetHit : Option Line :=
  (set.find? fun l => l.tag = p.getTag addr).filter (·.ready)

def checkMshrHit : Option MSHREntry :=
  s.mshrs.find? fun m => p.align m.addr = p.align addr

def assign : BHO3LLC :=
  { s with
    sets := Function.update s.sets it.set
      ((s.sets it.set).map fun l => if l.node = it.node then f l else l) }

/-- Assign to the line an iterator points at; its node must still be in the list. -/
def modifyLine : Option BHO3LLC :=
  if (s.sets it.set).any fun l => l.node = it.node then some (s.assign it f) else none

def pushBack (set addr : ℕ) (dirty ready : Bool) : BHO3LLC :=
  { s with
    sets := Function.update s.sets set
      (s.sets set ++ [{ addr, tag := p.getTag addr, dirty, ready, node := s.nodes }])
    nodes := s.nodes + 1 }

def erase : BHO3LLC :=
  { s with
    sets := Function.update s.sets it.set ((s.sets it.set).filter fun l => l.node ≠ it.node) }

def pushMiss : BHO3LLC :=
  { s with
    missList := s.missList ++ [{ due := s.clk + p.latency, req, seq := s.pushed }]
    pushed := s.pushed + 1 }

/-- `evict_line`: a dirty line is queued to be written back. -/
def evictLine (set : ℕ) (victim : Line) : BHO3LLC :=
  if victim.dirty then
    { (s.pushMiss p { addr := victim.addr, type := .write }).erase ⟨set, victim.node⟩ with
      stores := .writeBackQueued (p.align victim.addr) :: s.stores }
  else s.erase ⟨set, victim.node⟩

/-- `need_eviction`; a line with the tag fails the `assert`. -/
def needEviction : Option Bool :=
  if set.any fun l => p.getTag addr = l.tag then none else some (!(set.length < p.associativity))

/-- `allocate_line`; the iterator is `none` for `set.end()`. -/
def allocateLine (set addr : ℕ) : Option (BHO3LLC × Option Iterator) := do
  if ← needEviction p (s.sets set) addr then
    match (s.sets set).find? (·.ready) with
    | some victim =>
      let s := s.evictLine p set victim
      return (s.pushBack p set addr false false, some ⟨set, s.nodes⟩)
    | none => return (s, none)
  else return (s.pushBack p set addr false false, some ⟨set, s.nodes⟩)

/-! ## `send`, `receive` and `clflush` -/

/-- The hit of `send`: the line moves to the end of its set. -/
def hit (line : Line) : BHO3LLC :=
  let set := p.getIndex req.addr
  let s := s.pushBack p set req.addr (line.dirty || req.type = .write) true
  { s.erase ⟨set, line.node⟩ with
    hitList := s.hitList ++ [(s.clk + p.latency, req)]
    touched := p.align req.addr :: s.touched }

def joinMiss (m : MSHREntry) : Option BHO3LLC := do
  let s ← s.modifyLine m.line fun l => { l with dirty := dirty || l.dirty }
  return { s with
    receiveRequests := Function.update s.receiveRequests m.addr (s.receiveRequests m.addr ++ [req]) }

/-- May no further line be fetched for the core that sent the request? -/
def isBlacklisted : Bool :=
  match req.source with
  | some core => s.blacklistStatus core && s.blacklistMaxMshrs core ≤ s.allocatedMshrs core
  | none => false

def lineAvailable : Bool := set.length < p.associativity || set.any (·.ready)

/-- `m_allocated_mshrs[source] += n`, for a request that has a source. -/
def addAllocated (n : ℤ) : BHO3LLC :=
  match req.source with
  | some core => { s with
      allocatedMshrs := Function.update s.allocatedMshrs core (s.allocatedMshrs core + n) }
  | none => s

/-- The allocation of `send`, for a line no MSHR entry fetches. -/
def startMiss : Option BHO3LLC := do
  match ← s.allocateLine p (p.getIndex req.addr) req.addr with
  | (s, some newline) =>
    let s ← s.modifyLine newline fun l => { l with dirty := dirty }
    let s : BHO3LLC := { s with
      mshrs := s.mshrs ++ [{ addr := req.addr, line := newline }]
      receiveRequests := Function.update s.receiveRequests req.addr [req]
      touched := p.align req.addr :: s.touched }
    return (s.pushMiss p req).addAllocated req 1
  | (_, none) => none

/-- `send`; the answer says whether the request is accepted. -/
def send : Option (Bool × BHO3LLC) :=
  match checkSetHit p (s.sets (p.getIndex req.addr)) req.addr with
  | some line => some (true, s.hit p req line)
  | none =>
    -- a write that misses becomes a read of the line
    let dirty := decide (req.type = .write)
    let req : LLCRequest := { req with type := .read }
    match s.checkMshrHit p req.addr with
    | some m => (s.joinMiss req dirty m).map (true, ·)
    | none =>
      if s.isBlacklisted req then some (false, s)
      else if s.mshrs.length = p.numMshrs then some (false, s)
      else if !lineAvailable p (s.sets (p.getIndex req.addr)) then some (false, s)
      else (s.startMiss p req dirty).map (true, ·)

def receive : Option BHO3LLC :=
  match s.checkMshrHit p req.addr with
  | some m => do
    let s ← s.modifyLine m.line fun l => { l with ready := true }
    let s : BHO3LLC := { s with mshrs := s.mshrs.erase m }
    return s.addAllocated req (-1)
  | none => some s

def clflush : BHO3LLC :=
  match checkSetHit p (s.sets (p.getIndex addr)) addr with
  | some line => s.evictLine p (p.getIndex addr) line
  | none => s

/-- The history of an accepted request: was it a write? -/
def recordStore (type : AccessType) : BHO3LLC :=
  if type = .write then { s with stores := .wrote (p.align addr) :: s.stores } else s

/-- Is the entry due, and accepted by the memory system? -/
def MissEntry.isTaken (e : MissEntry) (clk : ℕ) (accepts : ℕ → Bool) : Bool :=
  e.due ≤ clk && accepts e.seq

end BHO3LLC

/-! ## The processor -/

open BHO3LLC in
/-- The cache with its cores and the memory system. -/
structure BHO3 where
  llc : BHO3LLC := {}
  inFlight : List LLCRequest := []
  accepted : List LLCRequest := []
  delivered : List LLCRequest := []
  sent : List MissEntry := []

namespace BHO3

variable (p : BHO3Params)

variable (s : BHO3) (accepts : ℕ → Bool) (req : LLCRequest)

def send (core addr : ℕ) (type : AccessType) : Option BHO3 := do
  let req : LLCRequest := { addr, type, source := some core, id := s.accepted.length }
  let (accepted, llc) ← s.llc.send p req
  if accepted then
    return { s with llc := llc.recordStore p addr type, accepted := s.accepted ++ [req] }
  else return { s with llc }

def deliver (r : LLCRequest) : BHO3 :=
  { s with
    llc := if r.source.any p.isAttacker then s.llc.clflush p r.addr else s.llc
    delivered := s.delivered ++ [r] }

def setWaiting (addr : ℕ) (reqs : List LLCRequest) : BHO3 :=
  { s with
    llc := { s.llc with receiveRequests := Function.update s.llc.receiveRequests addr reqs } }

def receive : Option BHO3 := do
  let llc ← s.llc.receive p req
  let s := (llc.receiveRequests req.addr).foldl (deliver p) { s with llc }
  return s.setWaiting req.addr []

/-- The first loop of `BHO3LLC::tick`: due entries are offered to the memory system. -/
def sendMisses : BHO3 :=
  let sent := s.llc.missList.filter (·.isTaken s.llc.clk accepts)
  { s with
    llc := { s.llc with missList := s.llc.missList.filter fun e => !e.isTaken s.llc.clk accepts }
    inFlight := s.inFlight ++ (sent.filter fun e => e.req.type = .read).map (·.req)
    sent := s.sent ++ sent }

def serveHit : Option BHO3 := (s.setWaiting req.addr [req]).receive p req

def setHitList (hits : List (ℕ × LLCRequest)) : BHO3 :=
  { s with llc := { s.llc with hitList := hits } }

/-- The second loop of `BHO3LLC::tick`.  No callback looks at the hit list. -/
def serveHits : Option BHO3 := do
  let due := fun e : ℕ × LLCRequest => decide (e.1 ≤ s.llc.clk)
  let s' ← (s.llc.hitList.filter due).foldlM (fun s e => s.serveHit p e.2) s
  return s'.setHitList (s.llc.hitList.filter fun e => !due e)

def startCycle : BHO3 := { s with llc := { s.llc with clk := s.llc.clk + 1 } }

/-- `BHO3LLC::tick`; `accepts` is what the memory system answers to each entry of the miss list. -/
def tick : Option BHO3 :=
  (s.startCycle.sendMisses accepts).serveHits p

def complete (i : ℕ) : Option BHO3 := do
  let req ← s.inFlight[i]?
  receive p { s with inFlight := s.inFlight.eraseIdx i } req

end BHO3

inductive BHO3Call where
  | send (core addr : ℕ) (type : AccessType)
  | tick (accepts : ℕ → Bool)
  | complete (i : ℕ)
  | clflush (addr : ℕ)
  | setBlacklistMaxMshrs (core : ℕ) (maxMshr : ℤ)
  | addBlacklist (core : ℕ)
  | eraseBlacklist (core : ℕ)

def bho3 (p : BHO3Params) : Machine BHO3 BHO3Call where
  init := {}
  step s
    | .send core addr type => s.send p core addr type
    | .tick accepts => s.tick p accepts
    | .complete i => s.complete p i
    | .clflush addr => some { s with llc := s.llc.clflush p addr }
    | .setBlacklistMaxMshrs core maxMshr => some { s with llc := { s.llc with
        blacklistMaxMshrs := Function.update s.llc.blacklistMaxMshrs core maxMshr } }
    | .addBlacklist core => some { s with llc := { s.llc with
        blacklistStatus := Function.update s.llc.blacklistStatus core true } }
    | .eraseBlacklist core => some { s with llc := { s.llc with
        blacklistStatus := Function.update s.llc.blacklistStatus core false } }

end MultiCoreMemory
