import MultiCoreMemory.Lib.Summary
import MultiCoreMemory.Lib.UnorderedMap
import MultiCoreMemory.Base.Request

/-!
# The node tree of a DRAM device (`dram/node.h`, `dram/spec.h`)

A channel is a tree of nodes.  `Node C S n` is a node with `n` levels below it: its own data, and
its children when `n > 0` (the constructor stops above the `row` level).  The recursive methods of
`DRAMNodeBase` are recursions on `n`; the level of a node is the argument the source keeps in
`m_level`, and the id of a child is its position among its siblings.

A prerequisite table entry may answer `none`, the source's `-1`.  Clocks are natural numbers, the
stamps kept in a node are integers because `-1` stands for "never".
-/

namespace MultiCoreMemory

variable {C S : Type}

structure CommandMeta where
  isOpening : Bool := false
  isClosing : Bool := false
  isAccessing : Bool := false
  isRefreshing : Bool := false

structure TimingConsEntry (C : Type) where
  cmd : C
  val : ℤ
  window : ℕ := 1
  sibling : Bool := false
  deriving DecidableEq, Repr

structure TimingConsInitializer (C : Type) where
  level : ℕ
  preceding : List C
  following : List C
  latency : ℤ
  window : ℕ := 1
  isSibling : Bool := false

/-- `populate_timingcons`: the entries of `m_timing_cons[level][p]`, in the order of the table. -/
def populateTimingcons [DecidableEq C] (initializer : List (TimingConsInitializer C))
    (level : ℕ) (p : C) : List (TimingConsEntry C) :=
  initializer.flatMap fun ts =>
    if ts.level = level then
      ts.preceding.flatMap fun pCmd =>
        if pCmd = p then
          ts.following.map fun fCmd => ⟨fCmd, ts.latency, ts.window, ts.isSibling⟩
        else []
    else []

theorem mem_populateTimingcons [DecidableEq C] {initializer : List (TimingConsInitializer C)}
    {level : ℕ} {p : C} {t : TimingConsEntry C} :
    t ∈ populateTimingcons initializer level p ↔
      ∃ ts ∈ initializer, ts.level = level ∧ p ∈ ts.preceding ∧ t.cmd ∈ ts.following ∧
        t.val = ts.latency ∧ t.window = ts.window ∧ t.sibling = ts.isSibling := by
  simp only [populateTimingcons, List.mem_flatMap]
  refine exists_congr fun ts => and_congr_right fun _ => ?_
  by_cases hlevel : ts.level = level
  · simp only [hlevel, if_true, List.mem_flatMap, true_and]
    constructor
    · rintro ⟨pCmd, hp, ht⟩
      split at ht
      · rename_i heq
        obtain ⟨f, hf, rfl⟩ := List.mem_map.mp ht
        exact ⟨heq ▸ hp, hf, rfl, rfl, rfl⟩
      · cases ht
    · rintro ⟨hp, hf, hval, hwindow, hsib⟩
      refine ⟨p, hp, ?_⟩
      rw [if_pos rfl]
      exact List.mem_map.mpr ⟨t.cmd, hf, by rw [← hval, ← hwindow, ← hsib]⟩
  · simp [hlevel]

structure NodeData (C S : Type) where
  nodeId : ℕ
  state : S
  cmdReadyClk : C → ℤ
  cmdHistory : C → List ℤ
  rowState : UnorderedMap ℤ S

abbrev Node (C S : Type) : ℕ → Type
  | 0 => NodeData C S
  | n + 1 => NodeData C S × List (Node C S n)

namespace Node

def data : {n : ℕ} → Node C S n → NodeData C S
  | 0, d => d
  | _ + 1, (d, _) => d

def children {n : ℕ} (t : Node C S (n + 1)) : List (Node C S n) := t.2

def modifyData (f : NodeData C S → NodeData C S) : {n : ℕ} → Node C S n → Node C S n
  | 0, d => f d
  | _ + 1, (d, cs) => (f d, cs)

def childAt {n : ℕ} (cs : List (Node C S n)) : ℤ → Option (Node C S n)
  | .ofNat i => cs[i]?
  | .negSucc _ => none

def modifyChild {n : ℕ} (cs : List (Node C S n)) (f : Node C S n → Node C S n) :
    ℤ → List (Node C S n)
  | .ofNat i => cs.modify i f
  | .negSucc _ => cs

end Node

/-- What a device class supplies to its nodes.  The action of a level rewrites the node it is
called on (and may reach its descendants); a prerequisite reads the node. -/
structure DramSpec (C S : Type) where
  count : ℕ → ℕ
  commandScopes : C → ℕ
  timingCons : ℕ → C → List (TimingConsEntry C)
  initStates : ℕ → S
  actions : ℕ → C → Option (∀ n, Node C S n → ℤ → Node C S n)
  preqs : ℕ → C → Option (∀ n, Node C S n → AddrVec → Option C)
  rowhits : ℕ → C → Option (NodeData C S → ℤ → Bool)
  rowopens : ℕ → C → Option (NodeData C S → ℤ → Bool)

namespace DramSpec

variable (spec : DramSpec C S)

def historyLength (level : ℕ) (cmd : C) : ℕ :=
  (spec.timingCons level cmd).foldl (fun window t => max window t.window) 0

def createData (level id : ℕ) : NodeData C S where
  nodeId := id
  state := spec.initStates level
  cmdReadyClk := fun _ => -1
  cmdHistory := fun cmd => List.replicate (spec.historyLength level cmd) (-1)
  rowState := ∅

def create : (n level id : ℕ) → Node C S n
  | 0, level, id => spec.createData level id
  | n + 1, level, id =>
    (spec.createData level id,
      (List.range (spec.count (level + 1))).map fun i => create n (level + 1) i)

end DramSpec

/-- The test of `update_timing`: the node is the addressed one, or the level is a wildcard. -/
def isTarget (level id : ℕ) (addrVec : AddrVec) : Bool :=
  addrVec.level level = id || addrVec.level level = -1

namespace NodeData

variable [DecidableEq C]

/-- `update_timing` on a node that is not addressed: the sibling constraints. -/
def updateSibling (cons : List (TimingConsEntry C)) (clk : ℕ) (d : NodeData C S) : NodeData C S :=
  { d with
    cmdReadyClk := raiseAll TimingConsEntry.cmd
      (fun t => if t.sibling then some ((clk : ℤ) + t.val) else none) cons d.cmdReadyClk }

def pushHistory (command : C) (clk : ℕ) (d : NodeData C S) : C → List ℤ :=
  if (d.cmdHistory command).length ≠ 0 then
    Function.update d.cmdHistory command ((clk : ℤ) :: (d.cmdHistory command).dropLast)
  else d.cmdHistory

/-- `update_timing` on an addressed node: the history, then the constraints on the node itself. -/
def updateTarget (cons : List (TimingConsEntry C)) (command : C) (clk : ℕ) (d : NodeData C S) :
    NodeData C S :=
  let history := d.pushHistory command clk
  { d with
    cmdHistory := history
    cmdReadyClk := raiseAll TimingConsEntry.cmd
      (fun t =>
        if t.sibling then none
        else
          let past := (history command).getD (t.window - 1) (-1)
          -- not enough history
          if past < 0 then none else some (past + t.val))
      cons d.cmdReadyClk }

def ready (d : NodeData C S) (command : C) (clk : ℕ) : Bool :=
  !(d.cmdReadyClk command ≠ -1 && (clk : ℤ) < d.cmdReadyClk command)

end NodeData

namespace Node

variable [DecidableEq C] (spec : DramSpec C S)

def updateTiming (command : C) (addrVec : AddrVec) (clk : ℕ) :
    {n : ℕ} → (level : ℕ) → Node C S n → Node C S n
  | 0, level, d =>
    if isTarget level (NodeData.nodeId d) addrVec then
      NodeData.updateTarget (spec.timingCons level command) command clk d
    else NodeData.updateSibling (spec.timingCons level command) clk d
  | _ + 1, level, (d, cs) =>
    if isTarget level d.nodeId addrVec then
      (d.updateTarget (spec.timingCons level command) command clk,
        cs.map (updateTiming command addrVec clk (level + 1)))
    else (d.updateSibling (spec.timingCons level command) clk, cs)

def checkReady (command : C) (addrVec : AddrVec) (clk : ℕ) :
    {n : ℕ} → (level : ℕ) → Node C S n → Bool
  | 0, _, d => NodeData.ready d command clk
  | _ + 1, level, (d, cs) =>
    if !d.ready command clk then false
    else if level = spec.commandScopes command then true
    else
      let childId := addrVec.level (level + 1)
      if childId = -1 then cs.all (checkReady command addrVec clk (level + 1))
      else
        match childAt cs childId with
        | some c => checkReady command addrVec clk (level + 1) c
        | none => true

variable (command : C) (addrVec : AddrVec)

def act (level : ℕ) (childId : ℤ) {n : ℕ} (t : Node C S n) : Node C S n :=
  match spec.actions level command with
  | some action => action n t childId
  | none => t

def updateStates (command : C) (addrVec : AddrVec) :
    {n : ℕ} → (level : ℕ) → Node C S n → Node C S n
  | 0, level, d => act (n := 0) spec command level (addrVec.level (level + 1)) d
  | n + 1, level, t =>
    let childId := addrVec.level (level + 1)
    let (d, cs) := act (n := n + 1) spec command level childId t
    if level = spec.commandScopes command then (d, cs)
    else if childId = -1 then (d, cs.map (updateStates command addrVec (level + 1)))
    else (d, modifyChild cs (updateStates command addrVec (level + 1)) childId)

def preqAt (level : ℕ) {n : ℕ} (t : Node C S n) : Option C :=
  match spec.preqs level command with
  | some preq => preq n t addrVec
  | none => none

def getPreqCommand (command : C) (addrVec : AddrVec) :
    {n : ℕ} → (level : ℕ) → Node C S n → C
  | 0, level, d => (preqAt (n := 0) spec command addrVec level d).getD command
  | n + 1, level, t =>
    match preqAt (n := n + 1) spec command addrVec level t with
    | some preqCmd => preqCmd
    | none =>
      match childAt (children t) (addrVec.level (level + 1)) with
      | some c => getPreqCommand command addrVec (level + 1) c
      | none => command

/-- `check_rowbuffer_hit` and `check_node_open`: the first test on the way down, if any. -/
def testOnPath (tests : ℕ → C → Option (NodeData C S → ℤ → Bool)) (command : C)
    (addrVec : AddrVec) : {n : ℕ} → (level : ℕ) → Node C S n → Bool
  | 0, level, d =>
    match tests level command with
    | some test => test d (addrVec.level (level + 1))
    | none => false
  | _ + 1, level, (d, cs) =>
    match tests level command with
    | some test => test d (addrVec.level (level + 1))
    | none =>
      match childAt cs (addrVec.level (level + 1)) with
      | some c => testOnPath tests command addrVec (level + 1) c
      | none => false

def checkRowbufferHit {n : ℕ} (level : ℕ) (t : Node C S n) :
    Bool := testOnPath spec.rowhits command addrVec level t

def checkNodeOpen {n : ℕ} (level : ℕ) (t : Node C S n) : Bool :=
  testOnPath spec.rowopens command addrVec level t

end Node

end MultiCoreMemory
