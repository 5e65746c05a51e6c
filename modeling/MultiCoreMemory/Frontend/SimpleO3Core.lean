import MultiCoreMemory.Base.Request

/-!
# The processor core (`simpleO3/core.cpp`, `llc.cpp`)

The last-level cache hands a request on to the memory system unchanged, so the answer of its `send`
is the answer of the memory system; it is an argument of the cycle.  The translation is a function
over an arbitrary state `τ`; it has not returned when it gives `none`.
-/

namespace MultiCoreMemory

/-- A line of a trace: non-memory instructions, a load, and a store or `-1`.  (A negative number of
bubbles would be as good as none.) -/
structure Inst where
  bubbleCount : ℕ := 0
  loadAddr : ℤ := -1
  storeAddr : ℤ := -1
  deriving DecidableEq, Repr

/-! ## The instruction window -/

structure InstWindow where
  ipc : ℕ := 4
  depth : ℕ := 128
  load : ℕ := 0
  headIdx : ℕ := 0
  tailIdx : ℕ := 0
  readyList : List Bool
  addrList : List ℤ
  deriving DecidableEq, Repr

namespace InstWindow

def create (ipc depth : ℕ) : InstWindow where
  ipc := ipc
  depth := depth
  readyList := List.replicate depth false
  addrList := List.replicate depth (-1)

variable (w : InstWindow)

def isFull : Bool := w.load == w.depth

def insert (ready : Bool) (addr : ℤ) : InstWindow :=
  { w with
    readyList := w.readyList.set w.headIdx ready
    addrList := w.addrList.set w.headIdx addr
    headIdx := (w.headIdx + 1) % w.depth
    load := w.load + 1 }

/-- The loop of `retire`, with the number of instructions that may still retire. -/
def retireLoop : ℕ → InstWindow → ℕ × InstWindow
  | 0, w => (0, w)
  | n + 1, w =>
    if 0 < w.load ∧ w.readyList[w.tailIdx]? = some true then
      let r := retireLoop n { w with tailIdx := (w.tailIdx + 1) % w.depth, load := w.load - 1 }
      (r.1 + 1, r.2)
    else (0, w)

def retire : ℕ × InstWindow := retireLoop w.ipc w

def setReadyLoop (addr : ℤ) : ℕ → ℕ → InstWindow → InstWindow
  | 0, _, w => w
  | n + 1, index, w =>
    let w := if w.addrList[index]? = some addr then
        { w with readyList := w.readyList.set index true }
      else w
    setReadyLoop addr n (if index + 1 = w.depth then 0 else index + 1) w

def setReady (addr : ℤ) : InstWindow := setReadyLoop addr w.load w.tailIdx w

end InstWindow

/-! ## The core -/

structure SimpleO3Core where
  id : ℕ
  trace : List Inst
  currTraceIdx : ℕ := 0
  window : InstWindow
  numBubbles : ℕ := 0
  loadAddr : ℤ := -1
  writebackAddr : ℤ := -1
  numExpectedInsts : ℕ := 0
  lastMemCycle : ℤ := 0
  reachedExpectedNumInsts : Bool := false
  instsRetired : ℕ := 0
  cyclesRecorded : ℕ := 0
  memAccessCycles : ℤ := 0
  clk : ℕ := 0
  deriving DecidableEq, Repr

structure Attempt (C : Type) where
  req : Request C
  accepted : Bool

/-- The part of `ITranslation` that a core calls: `translate` on a request. -/
abbrev Translate (C τ : Type) := Request C → τ → Option (Bool × Request C × τ)

namespace SimpleO3Core

variable {C τ : Type}

variable (translate : Translate C τ) (c : SimpleO3Core) (accept : Bool) (req : Request C)

/-- `get_next_inst` and the three assignments after it (a trace is not empty). -/
def nextInst : SimpleO3Core :=
  let inst := c.trace.getD c.currTraceIdx {}
  { c with
    currTraceIdx := (c.currTraceIdx + 1) % c.trace.length
    numBubbles := inst.bubbleCount
    loadAddr := inst.loadAddr
    writebackAddr := inst.storeAddr }

def create (id ipc depth numExpectedInsts : ℕ) (trace : List Inst) : SimpleO3Core :=
  nextInst
    { id := id
      trace := trace
      window := InstWindow.create ipc depth
      numExpectedInsts := numExpectedInsts }

def retire : SimpleO3Core :=
  let clk := c.clk + 1
  let r := c.window.retire
  let instsRetired := c.instsRetired + r.1
  let reached := !c.reachedExpectedNumInsts && decide (c.numExpectedInsts ≤ instsRetired)
  { c with
    clk := clk
    window := r.2
    instsRetired := instsRetired
    reachedExpectedNumInsts := c.reachedExpectedNumInsts || reached
    cyclesRecorded := if reached then clk else c.cyclesRecorded }

/-- The bubble loop: did it end, the bubbles left, the instructions inserted, and the window. -/
def insertBubbles : ℕ → ℕ → InstWindow → Bool × ℕ × ℕ × InstWindow
  | 0, inserted, w => (true, 0, inserted, w)
  | n + 1, inserted, w =>
    if inserted = w.ipc then (false, n + 1, inserted, w)
    else if w.isFull then (false, n + 1, inserted, w)
    else insertBubbles n (inserted + 1) (w.insert true (-1))

def request (addr : ℤ) (typeId : ℕ) : Request C :=
  { addr := addr, typeId := typeId, sourceId := c.id, callback := true }

/-- The second part of `tick`.  After an accepted load without a writeback the third part has nothing
to do and the next line is fetched. -/
def sendLoad (c : SimpleO3Core) (inserted : ℕ) (t : τ) :
    Option (SimpleO3Core × τ × Option (Attempt C)) :=
  if inserted = c.window.ipc then some (c, t, none)
  else if c.window.isFull then some (c, t, none)
  else
    match translate (c.request c.loadAddr typeRead) t with
    | none => none
    | some (false, _, t) => some (c, t, none)
    | some (true, req, t) =>
      if accept then
        let c := { c with window := c.window.insert false req.addr, loadAddr := -1 }
        if c.writebackAddr ≠ -1 then some (c, t, some ⟨req, true⟩)
        else some (c.nextInst, t, some ⟨req, true⟩)
      else some (c, t, some ⟨req, false⟩)

def sendWriteback (c : SimpleO3Core) (t : τ) : Option (SimpleO3Core × τ × Option (Attempt C)) :=
  if c.writebackAddr ≠ -1 then
    match translate (c.request c.writebackAddr typeWrite) t with
    | none => none
    | some (false, _, t) => some (c, t, none)
    | some (true, req, t) =>
      if accept then some (c.nextInst, t, some ⟨req, true⟩)
      else some (c, t, some ⟨req, false⟩)
  else some (c.nextInst, t, none)

/-- `tick`: the core, the translation, and the request that was sent, if one was. -/
def tick (c : SimpleO3Core) (t : τ) : Option (SimpleO3Core × τ × Option (Attempt C)) :=
  let c := c.retire
  match insertBubbles c.numBubbles 0 c.window with
  | (false, bubbles, _, w) => some ({ c with window := w, numBubbles := bubbles }, t, none)
  | (true, bubbles, inserted, w) =>
    let c := { c with window := w, numBubbles := bubbles }
    if c.loadAddr ≠ -1 then sendLoad translate accept c inserted t
    else sendWriteback translate accept c t

def receive : SimpleO3Core :=
  let c := { c with window := c.window.setReady req.addr }
  if req.arrive ≠ -1 ∧ c.lastMemCycle < req.depart ∧ !c.reachedExpectedNumInsts then
    { c with
      memAccessCycles := c.memAccessCycles + (req.depart - max c.lastMemCycle req.arrive)
      lastMemCycle := req.depart }
  else c

def SendsOnce (t t' : τ) (attempt : Option (Attempt C)) : Prop :=
  t' = t ∧ attempt = none ∨
    ∃ (req : Request C) (ok : Bool) (req' : Request C), translate req t = some (ok, req', t') ∧
      attempt = if ok then some ⟨req', accept⟩ else none

/-! ## Outcomes of a cycle -/

def loadSent : SimpleO3Core :=
  let c := { c with window := c.window.insert false req.addr, loadAddr := -1 }
  if c.writebackAddr ≠ -1 then c else c.nextInst

inductive LoadOutcome (translate : Translate C τ) (accept : Bool) (c : SimpleO3Core) (inserted : ℕ)
    (t : τ) : SimpleO3Core → τ → Option (Attempt C) → Prop
  | noRoom : inserted = c.window.ipc ∨ c.window.isFull = true →
      LoadOutcome translate accept c inserted t c t none
  | untranslated {req : Request C} {t' : τ} :
      translate (c.request c.loadAddr typeRead) t = some (false, req, t') →
      LoadOutcome translate accept c inserted t c t' none
  | refused {req : Request C} {t' : τ} :
      translate (c.request c.loadAddr typeRead) t = some (true, req, t') → accept = false →
      LoadOutcome translate accept c inserted t c t' (some ⟨req, false⟩)
  | accepted {req : Request C} {t' : τ} : ¬ c.window.isFull = true →
      translate (c.request c.loadAddr typeRead) t = some (true, req, t') → accept = true →
      LoadOutcome translate accept c inserted t (c.loadSent req) t' (some ⟨req, true⟩)

inductive WritebackOutcome (translate : Translate C τ) (accept : Bool) (c : SimpleO3Core) (t : τ) :
    SimpleO3Core → τ → Option (Attempt C) → Prop
  | noStore : c.writebackAddr = -1 → WritebackOutcome translate accept c t c.nextInst t none
  | untranslated {req : Request C} {t' : τ} : c.writebackAddr ≠ -1 →
      translate (c.request c.writebackAddr typeWrite) t = some (false, req, t') →
      WritebackOutcome translate accept c t c t' none
  | refused {req : Request C} {t' : τ} : c.writebackAddr ≠ -1 →
      translate (c.request c.writebackAddr typeWrite) t = some (true, req, t') → accept = false →
      WritebackOutcome translate accept c t c t' (some ⟨req, false⟩)
  | accepted {req : Request C} {t' : τ} : c.writebackAddr ≠ -1 →
      translate (c.request c.writebackAddr typeWrite) t = some (true, req, t') → accept = true →
      WritebackOutcome translate accept c t c.nextInst t' (some ⟨req, true⟩)

variable {translate : Translate C τ} {accept : Bool} {c c' : SimpleO3Core} {t t' : τ}
  {attempt : Option (Attempt C)}

theorem sendLoad_cases {inserted : ℕ}
    (h : c.sendLoad translate accept inserted t = some (c', t', attempt)) :
    LoadOutcome translate accept c inserted t c' t' attempt := by
  unfold sendLoad at h
  split at h
  · rename_i hinserted
    cases h
    exact .noRoom (.inl hinserted)
  split at h
  · rename_i hfull
    cases h
    exact .noRoom (.inr hfull)
  rename_i hroom
  split at h
  · cases h
  · rename_i req t₁ htranslate
    cases h
    exact .untranslated htranslate
  · rename_i req t₁ htranslate
    split at h
    · rename_i haccept
      have hsent : some (c.loadSent req, t₁, some (⟨req, true⟩ : Attempt C)) = some (c', t', attempt) := by
        rw [← h, loadSent]
        dsimp only
        split <;> rfl
      cases hsent
      exact .accepted hroom htranslate haccept
    · rename_i haccept
      cases h
      exact .refused htranslate (eq_false_of_ne_true haccept)

theorem sendWriteback_cases (h : c.sendWriteback translate accept t = some (c', t', attempt)) :
    WritebackOutcome translate accept c t c' t' attempt := by
  unfold sendWriteback at h
  split at h
  · rename_i hstore
    split at h
    · cases h
    · rename_i req t₁ htranslate
      cases h
      exact .untranslated hstore htranslate
    · rename_i req t₁ htranslate
      split at h
      · rename_i haccept
        cases h
        exact .accepted hstore htranslate haccept
      · rename_i haccept
        cases h
        exact .refused hstore htranslate (eq_false_of_ne_true haccept)
  · rename_i hstore
    cases h
    exact .noStore (not_not.mp hstore)

theorem LoadOutcome.sendsOnce {inserted : ℕ} (h : LoadOutcome translate accept c inserted t c' t' attempt) :
    SendsOnce translate accept t t' attempt := by
  cases h with
  | noRoom => exact .inl ⟨rfl, rfl⟩
  | untranslated htranslate => exact .inr ⟨_, false, _, htranslate, rfl⟩
  | refused htranslate haccept => exact .inr ⟨_, true, _, htranslate, by simp [haccept]⟩
  | accepted _ htranslate haccept => exact .inr ⟨_, true, _, htranslate, by simp [haccept]⟩

theorem WritebackOutcome.sendsOnce (h : WritebackOutcome translate accept c t c' t' attempt) :
    SendsOnce translate accept t t' attempt := by
  cases h with
  | noStore => exact .inl ⟨rfl, rfl⟩
  | untranslated _ htranslate => exact .inr ⟨_, false, _, htranslate, rfl⟩
  | refused _ htranslate haccept => exact .inr ⟨_, true, _, htranslate, by simp [haccept]⟩
  | accepted _ htranslate haccept => exact .inr ⟨_, true, _, htranslate, by simp [haccept]⟩

/-- **A cycle translates nothing, or translates one request and sends it.** -/
theorem tick_cases (h : c.tick translate accept t = some (c', t', attempt)) :
    SendsOnce translate accept t t' attempt := by
  unfold tick at h
  dsimp only at h
  split at h
  · cases h
    exact .inl ⟨rfl, rfl⟩
  · split at h
    · exact (sendLoad_cases h).sendsOnce
    · exact (sendWriteback_cases h).sendsOnce

end SimpleO3Core

end MultiCoreMemory
