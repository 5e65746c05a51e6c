import MultiCoreMemory.Dram.Node

/-!
# The DDR4 device (`dram/impl/DDR4.cpp`, `dram/lambdas/`)

The power model, which no state of a node depends on, is in `Dram.Power`.
An address outside the device, an undefined access in the source, is answered by "not ready".
-/

namespace MultiCoreMemory.DDR4

inductive Command where
  | ACT
  | PRE
  | PREA
  | RD
  | WR
  | RDA
  | WRA
  | REFab
  | REFab_end
  deriving DecidableEq, Repr

inductive State where
  | Opened
  | Closed
  | PowerUp
  | NA
  | Refreshing
  deriving DecidableEq, Repr

abbrev channel : ℕ := 0

abbrev rank : ℕ := 1

abbrev bankgroup : ℕ := 2

abbrev bank : ℕ := 3

abbrev row : ℕ := 4

abbrev column : ℕ := 5

def commandScopes : Command → ℕ
  | .ACT => row
  | .PRE => bank
  | .PREA => rank
  | .RD | .WR | .RDA | .WRA => column
  | .REFab | .REFab_end => rank

def commandMeta : Command → CommandMeta
  | .ACT => { isOpening := true }
  | .PRE | .PREA | .REFab_end => { isClosing := true }
  | .RD | .WR => { isAccessing := true }
  | .RDA | .WRA => { isClosing := true, isAccessing := true }
  | .REFab => { isRefreshing := true }

/-- The positions of `m_requests` after `read` and `write`. -/
abbrev typeAllBankRefresh : ℕ := 2

abbrev typeOpenRow : ℕ := 3

abbrev typeCloseRow : ℕ := 4

/-- `m_request_translations`; `none` is the out-of-range exception of the table. -/
def requestTranslations : ℕ → Option Command
  | 0 => some .RD
  | 1 => some .WR
  | 2 => some .REFab
  | 3 => some .ACT
  | 4 => some .PRE
  | _ => none

structure Timings where
  nBL : ℤ
  nCL : ℤ
  nRCD : ℤ
  nRP : ℤ
  nRAS : ℤ
  nRC : ℤ
  nWR : ℤ
  nRTP : ℤ
  nCWL : ℤ
  nCCDS : ℤ
  nCCDL : ℤ
  nRRDS : ℤ
  nRRDL : ℤ
  nWTRS : ℤ
  nWTRL : ℤ
  nFAW : ℤ
  nRFC : ℤ
  nCS : ℤ

/-- `m_organization.count` for the levels that have nodes. -/
structure Organization where
  channel : ℕ
  rank : ℕ
  bankgroup : ℕ
  bank : ℕ

def Organization.count (org : Organization) : ℕ → ℕ
  | 0 => org.channel
  | 1 => org.rank
  | 2 => org.bankgroup
  | 3 => org.bank
  | _ => 0

/-! ## Timing constraints -/

open Command in
def timingInitializer (v : Timings) : List (TimingConsInitializer Command) :=
  [ -- channel: data bus occupancy
    ⟨channel, [RD, RDA], [RD, RDA], v.nBL, 1, false⟩,
    ⟨channel, [WR, WRA], [WR, WRA], v.nBL, 1, false⟩,
    -- rank: CAS <-> CAS
    ⟨rank, [RD, RDA], [RD, RDA], v.nCCDS, 1, false⟩,
    ⟨rank, [WR, WRA], [WR, WRA], v.nCCDS, 1, false⟩,
    ⟨rank, [RD, RDA], [WR, WRA], v.nCL + v.nBL + 2 - v.nCWL, 1, false⟩,
    ⟨rank, [WR, WRA], [RD, RDA], v.nCWL + v.nBL + v.nWTRS, 1, false⟩,
    ⟨rank, [RD, RDA], [RD, RDA, WR, WRA], v.nBL + v.nCS, 1, true⟩,
    ⟨rank, [WR, WRA], [RD, RDA], v.nCL + v.nBL + v.nCS - v.nCWL, 1, true⟩,
    -- rank: CAS <-> PREab
    ⟨rank, [RD], [PREA], v.nRTP, 1, false⟩,
    ⟨rank, [WR], [PREA], v.nCWL + v.nBL + v.nWR, 1, false⟩,
    -- rank: RAS <-> RAS
    ⟨rank, [ACT], [ACT], v.nRRDS, 1, false⟩,
    ⟨rank, [ACT], [ACT], v.nFAW, 4, false⟩,
    ⟨rank, [ACT], [PREA], v.nRAS, 1, false⟩,
    ⟨rank, [PREA], [ACT], v.nRP, 1, false⟩,
    -- rank: RAS <-> REF
    ⟨rank, [ACT], [REFab], v.nRC, 1, false⟩,
    ⟨rank, [PRE, PREA], [REFab], v.nRP, 1, false⟩,
    ⟨rank, [RDA], [REFab], v.nRP + v.nRTP, 1, false⟩,
    ⟨rank, [WRA], [REFab], v.nCWL + v.nBL + v.nWR + v.nRP, 1, false⟩,
    ⟨rank, [REFab], [ACT, PREA], v.nRFC, 1, false⟩,
    -- same bank group
    ⟨bankgroup, [RD, RDA], [RD, RDA], v.nCCDL, 1, false⟩,
    ⟨bankgroup, [WR, WRA], [WR, WRA], v.nCCDL, 1, false⟩,
    ⟨bankgroup, [WR, WRA], [RD, RDA], v.nCWL + v.nBL + v.nWTRL, 1, false⟩,
    ⟨bankgroup, [ACT], [ACT], v.nRRDL, 1, false⟩,
    -- bank
    ⟨bank, [ACT], [ACT], v.nRC, 1, false⟩,
    ⟨bank, [ACT], [RD, RDA, WR, WRA], v.nRCD, 1, false⟩,
    ⟨bank, [ACT], [PRE], v.nRAS, 1, false⟩,
    ⟨bank, [PRE], [ACT], v.nRP, 1, false⟩,
    ⟨bank, [RD], [PRE], v.nRTP, 1, false⟩,
    ⟨bank, [WR], [PRE], v.nCWL + v.nBL + v.nWR, 1, false⟩,
    ⟨bank, [RDA], [ACT], v.nRTP + v.nRP, 1, false⟩,
    ⟨bank, [WRA], [ACT], v.nCWL + v.nBL + v.nWR + v.nRP, 1, false⟩ ]

def timingCons (v : Timings) : ℕ → Command → List (TimingConsEntry Command) :=
  populateTimingcons (timingInitializer v)

/-! ## State machine -/

abbrev BankData := NodeData Command State

def BankData.activate (targetId : ℤ) (b : BankData) : BankData :=
  { b with state := .Opened, rowState := b.rowState.insert targetId .Opened }

variable (b : BankData) (cmd : Command)

def BankData.precharge : BankData := { b with state := .Closed, rowState := ∅ }

def BankData.refresh : BankData := { b with state := .Refreshing }

/-- The body of `Action::Rank::REFab_end`: the rows are not cleared. -/
def BankData.endRefresh : BankData := { b with state := .Closed }

def onBanks (f : BankData → BankData) : (n : ℕ) → Node Command State n → Node Command State n
  | 0, t => t
  | 1, t => t
  | _ + 2, (d, bgs) => (d, bgs.map fun bg => (bg.1, bg.2.map (Node.modifyData f)))

def banksOf : (n : ℕ) → Node Command State n → List BankData
  | 0, _ => []
  | 1, _ => []
  | _ + 2, (_, bgs) => bgs.flatMap fun bg => bg.2.map Node.data

def actions (level : ℕ) (cmd : Command) :
    Option (∀ n, Node Command State n → ℤ → Node Command State n) :=
  if level = rank then
    match cmd with
    | .PREA => some fun n t _ => onBanks BankData.precharge n t
    | .REFab => some fun n t _ => onBanks BankData.refresh n t
    | .REFab_end => some fun n t _ => onBanks BankData.endRefresh n t
    | _ => none
  else if level = bank then
    match cmd with
    | .ACT => some fun _ t targetId => t.modifyData (BankData.activate targetId)
    | .PRE | .RDA | .WRA => some fun _ t _ => t.modifyData BankData.precharge
    | _ => none
  else none

/-- `Preq::Bank::RequireRowOpen`.  The source exits on the other states, which no bank takes. -/
def requireRowOpen (b : BankData) (addrVec : AddrVec) : Option Command :=
  match b.state with
  | .Closed => some .ACT
  | .Opened => if addrVec.level row ∈ b.rowState then some cmd else some .PRE
  | .Refreshing => some .ACT
  | _ => none

def requireBankClosed (b : BankData) : Option Command :=
  match b.state with
  | .Closed => some cmd
  | .Opened => some .PRE
  | .Refreshing => some cmd
  | _ => none

/-- `Preq::Rank::RequireAllBanksClosed`: the first bank that is not closed decides. -/
def requireAllBanksClosed (banks : List BankData) : Command :=
  match banks.find? fun b => b.state ≠ .Closed with
  | none => cmd
  | some b => if b.state = .Refreshing then cmd else .PREA

def preqs (level : ℕ) (cmd : Command) :
    Option (∀ n, Node Command State n → AddrVec → Option Command) :=
  if level = rank then
    match cmd with
    | .REFab => some fun n t _ => some (requireAllBanksClosed cmd (banksOf n t))
    | _ => none
  else if level = bank then
    match cmd with
    | .RD | .WR | .ACT => some fun _ t addrVec => requireRowOpen cmd t.data addrVec
    | .PRE => some fun _ t _ => requireBankClosed cmd t.data
    | _ => none
  else none

def rowHit (targetId : ℤ) : Bool :=
  match b.state with
  | .Opened => decide (targetId ∈ b.rowState)
  | _ => false

def rowOpen (_ : ℤ) : Bool := b.state = .Opened

/-- `set_rowhits` and `set_rowopens`: a test for `RD` and `WR` at the bank level. -/
def bankTest (test : BankData → ℤ → Bool) (level : ℕ) (cmd : Command) :
    Option (BankData → ℤ → Bool) :=
  if level = bank then
    match cmd with
    | .RD | .WR => some test
    | _ => none
  else none

structure Config where
  org : Organization
  timing : Timings

def Config.readLatency (cfg : Config) : ℤ := cfg.timing.nCL + cfg.timing.nBL

def Config.spec (cfg : Config) : DramSpec Command State where
  count := cfg.org.count
  commandScopes := commandScopes
  timingCons := timingCons cfg.timing
  initStates := fun level =>
    if level = rank then .PowerUp
    else if level = bank ∨ level = row then .Closed
    else .NA
  actions := actions
  preqs := preqs
  rowhits := bankTest rowHit
  rowopens := bankTest rowOpen

def Timings.ddr4_2400R : Timings where
  nBL := 4
  nCL := 16
  nRCD := 16
  nRP := 16
  nRAS := 39
  nRC := 55
  nWR := 18
  nRTP := 9
  nCWL := 12
  nCCDS := 4
  nCCDL := 6
  nRRDS := 4
  nRRDL := 6
  nWTRS := 3
  nWTRL := 9
  nFAW := 26
  nRFC := 433
  nCS := 2

def Config.shipped : Config := ⟨⟨8, 2, 4, 4⟩, Timings.ddr4_2400R⟩

/-! ## The device -/

structure FutureAction where
  cmd : Command
  addrVec : AddrVec
  clk : ℤ

abbrev Channel := Node Command State 3

/-- The channels, the clock and the deferred actions. -/
structure Device where
  clk : ℕ := 0
  channels : List Channel
  futureActions : List FutureAction := []

namespace Device

variable (cfg : Config)

def create : Device where
  channels := (List.range cfg.org.channel).map fun i => cfg.spec.create 3 0 i

def handleFutureAction (fa : FutureAction) (channels : List Channel) : List Channel :=
  match fa.cmd with
  | .REFab => Node.modifyChild channels
      (Node.updateStates (n := 3) cfg.spec .REFab_end fa.addrVec 0) (fa.addrVec.level channel)
  | _ => channels

variable (d : Device) (command : Command) (addrVec : AddrVec)

/-- `tick`: the actions due now are handled from the back of the vector and erased. -/
def tick : Device :=
  let clk := d.clk + 1
  { clk
    channels := (d.futureActions.filter fun fa => fa.clk = (clk : ℤ)).foldr (handleFutureAction cfg)
      d.channels
    futureActions := d.futureActions.filter fun fa => fa.clk ≠ (clk : ℤ) }

def checkFutureAction : List FutureAction :=
  match command with
  | .REFab => [⟨command, addrVec, d.clk + cfg.timing.nRFC - 1⟩]
  | _ => []

def issueCommand : Device :=
  { d with
    channels := Node.modifyChild d.channels
      (fun root => Node.updateStates (n := 3) cfg.spec command addrVec 0
        (Node.updateTiming (n := 3) cfg.spec command addrVec d.clk 0 root))
      (addrVec.level channel)
    futureActions := d.futureActions ++ checkFutureAction cfg d command addrVec }

def getPreqCommand : Command :=
  match Node.childAt d.channels (addrVec.level channel) with
  | some root => Node.getPreqCommand (n := 3) cfg.spec command addrVec 0 root
  | none => command

def checkReady : Bool :=
  match Node.childAt d.channels (addrVec.level channel) with
  | some root => Node.checkReady (n := 3) cfg.spec command addrVec d.clk 0 root
  | none => false

def checkRowbufferHit : Bool :=
  match Node.childAt d.channels (addrVec.level channel) with
  | some root => Node.checkRowbufferHit (n := 3) cfg.spec command addrVec 0 root
  | none => false

def checkNodeOpen : Bool :=
  match Node.childAt d.channels (addrVec.level channel) with
  | some root => Node.checkNodeOpen (n := 3) cfg.spec command addrVec 0 root
  | none => false

end Device

end MultiCoreMemory.DDR4
