import MultiCoreMemory.Dram.BankState

/-!
# The power model of the DDR4 device (`lambdas/power.h`, `set_powers` of `DDR4.cpp`)

With power modelling enabled, every rank has a record of its commands and of the cycles it was active
or idle.  The intervals are opened and closed by the commands, from counts of open and refreshing
banks taken before the command changes the state of a bank.

The energies that `finalize` computes from these records are left out.
-/

namespace MultiCoreMemory

/-! ## The walk -/

/-- A function of `m_powers`: the ids of the nodes down to this one, the node, and the records. -/
abbrev PowerFunc (C S P : Type) := ∀ n, List ℕ → Node C S n → ℕ → P → P

namespace Node

variable {C S P : Type}

def powerAt (powers : ℕ → C → Option (PowerFunc C S P)) (command : C) (clk level : ℕ) {n : ℕ}
    (path : List ℕ) (t : Node C S n) (p : P) : P :=
  match powers level command with
  | some power => power n path t clk p
  | none => p

def updatePowers (powers : ℕ → C → Option (PowerFunc C S P)) (commandScopes : C → ℕ) (command : C)
    (addrVec : AddrVec) (clk : ℕ) : {n : ℕ} → (level : ℕ) → List ℕ → Node C S n → P → P
  | 0, level, path, t, p => powerAt (n := 0) powers command clk level path t p
  | n + 1, level, path, t, p =>
    let childId := addrVec.level (level + 1)
    let p := powerAt (n := n + 1) powers command clk level path t p
    if level = commandScopes command then p
    else if childId = -1 then
      (children t).zipIdx.foldl (fun p c =>
        updatePowers powers commandScopes command addrVec clk (level + 1) (path ++ [c.2]) c.1 p) p
    else
      match childAt (children t) childId with
      | some c =>
        updatePowers powers commandScopes command addrVec clk (level + 1) (path ++ [childId.toNat]) c p
      | none => p

end Node

namespace DDR4

/-! ## The record of a rank -/

inductive CmdCounted where
  | ACT
  | PRE
  | RD
  | WR
  | REF
  deriving DecidableEq, Repr

inductive PowerState where
  | IDLE
  | ACTIVE
  | REFRESHING
  deriving DecidableEq, Repr

structure PowerStats where
  curPowerState : PowerState := .IDLE
  cmdCounters : CmdCounted → ℕ := fun _ => 0
  activeCycles : ℤ := 0
  idleCycles : ℤ := 0
  activeStartCycle : ℤ := -1
  idleStartCycle : ℤ := 0

namespace PowerStats

def count (cmd : CmdCounted) (n : ℕ) (st : PowerStats) : PowerStats :=
  { st with cmdCounters := Function.update st.cmdCounters cmd (st.cmdCounters cmd + n) }

variable (clk : ℕ) (st : PowerStats) (openBanks refreshingBanks : ℕ)

def becomeActive : PowerStats :=
  { st with
    idleCycles := st.idleCycles + (clk - st.idleStartCycle)
    activeStartCycle := clk
    curPowerState := .ACTIVE }

def becomeIdle : PowerStats :=
  { st with
    activeCycles := st.activeCycles + (clk - st.activeStartCycle)
    idleStartCycle := clk
    curPowerState := .IDLE }

def actPower (clk : ℕ) (st : PowerStats) : PowerStats :=
  if openBanks = 0 ∧ refreshingBanks = 0 then st.becomeActive clk else st

/-- `Rank::PRE`: the bank it goes to is not looked at. -/
def prePower (clk : ℕ) (st : PowerStats) : PowerStats :=
  if openBanks = 1 ∧ refreshingBanks = 0 then st.becomeIdle clk else st

def preaPower (clk : ℕ) (st : PowerStats) : PowerStats :=
  let st := st.count .PRE openBanks
  if openBanks = 0 ∧ refreshingBanks = 0 then st else st.becomeIdle clk

/-- `Rank::REFab`: the rank is taken to be idle. -/
def refabPower : PowerStats :=
  { st.count .REF 1 with
    idleCycles := st.idleCycles + (clk - st.idleStartCycle)
    curPowerState := .REFRESHING }

def refabEndPower : PowerStats :=
  { st with idleStartCycle := clk, curPowerState := .IDLE }

def finalizeRank : PowerStats :=
  match st.curPowerState with
  | .IDLE => { st with idleCycles := st.idleCycles + (clk - st.idleStartCycle) }
  | .ACTIVE => { st with activeCycles := st.activeCycles + (clk - st.activeStartCycle) }
  | .REFRESHING => st

end PowerStats

/-! ## The table -/

def openBankCount (n : ℕ) (t : Node Command State n) : ℕ :=
  (banksOf n t).countP fun b => b.state = .Opened

def refreshingBankCount (n : ℕ) (t : Node Command State n) : ℕ :=
  (banksOf n t).countP fun b => b.state = .Refreshing

def flatRankId (numRanks : ℕ) : List ℕ → ℕ
  | channelId :: rankId :: _ => channelId * numRanks + rankId
  | _ => 0

/-- `m_power_stats[get_flat_rank_id(node)]` rewritten. -/
def onRankStats (numRanks : ℕ) (f : ∀ n, Node Command State n → ℕ → PowerStats → PowerStats) :
    PowerFunc Command State (List PowerStats) :=
  fun n path t clk stats => stats.modify (flatRankId numRanks path) (f n t clk)

def powers (cfg : Config) (level : ℕ) (cmd : Command) :
    Option (PowerFunc Command State (List PowerStats)) :=
  if level = rank then
    match cmd with
    | .ACT => some (onRankStats cfg.org.rank fun n t clk =>
        PowerStats.actPower (openBankCount n t) (refreshingBankCount n t) clk)
    | .PRE => some (onRankStats cfg.org.rank fun n t clk =>
        PowerStats.prePower (openBankCount n t) (refreshingBankCount n t) clk)
    | .PREA => some (onRankStats cfg.org.rank fun n t clk =>
        PowerStats.preaPower (openBankCount n t) (refreshingBankCount n t) clk)
    | .REFab => some (onRankStats cfg.org.rank fun _ _ clk => PowerStats.refabPower clk)
    | .REFab_end => some (onRankStats cfg.org.rank fun _ _ clk => PowerStats.refabEndPower clk)
    | _ => none
  else if level = bank then
    match cmd with
    | .ACT => some (onRankStats cfg.org.rank fun _ _ _ => PowerStats.count .ACT 1)
    | .PRE => some (onRankStats cfg.org.rank fun _ _ _ => PowerStats.count .PRE 1)
    | .RD => some (onRankStats cfg.org.rank fun _ _ _ => PowerStats.count .RD 1)
    | .WR => some (onRankStats cfg.org.rank fun _ _ _ => PowerStats.count .WR 1)
    | _ => none
  else none

/-! ## The device with its records -/

structure PowerDevice extends Device where
  powerStats : List PowerStats

namespace PowerDevice

variable (cfg : Config)

def create : PowerDevice where
  toDevice := Device.create cfg
  powerStats := List.replicate (cfg.org.channel * cfg.org.rank) {}

variable (d : PowerDevice) (command : Command) (addrVec : AddrVec)

def updatePowers (clk : ℕ) (channels : List Channel) (stats : List PowerStats) : List PowerStats :=
  match Node.childAt channels (addrVec.level channel) with
  | some root => Node.updatePowers (n := 3) (powers cfg) commandScopes command addrVec clk 0
      [(addrVec.level channel).toNat] root stats
  | none => stats

def timed (d : Device) (command : Command) (addrVec : AddrVec) : List Channel :=
  Node.modifyChild d.channels (Node.updateTiming (n := 3) cfg.spec command addrVec d.clk 0)
    (addrVec.level channel)

def issueCommand : PowerDevice where
  toDevice := d.toDevice.issueCommand cfg command addrVec
  powerStats := updatePowers cfg command addrVec d.clk (timed cfg d.toDevice command addrVec) d.powerStats

def handleFutureAction (clk : ℕ) (fa : FutureAction) (s : List Channel × List PowerStats) :
    List Channel × List PowerStats :=
  (Device.handleFutureAction cfg fa s.1,
    match fa.cmd with
    | .REFab => updatePowers cfg .REFab_end fa.addrVec clk s.1 s.2
    | _ => s.2)

def tick : PowerDevice where
  toDevice := d.toDevice.tick cfg
  powerStats := ((d.futureActions.filter fun fa => fa.clk = ((d.clk + 1 : ℕ) : ℤ)).foldr
    (handleFutureAction cfg (d.clk + 1)) (d.channels, d.powerStats)).2

def finalize : List PowerStats := d.powerStats.map (PowerStats.finalizeRank d.clk)

end PowerDevice

theorem fst_handleFutureActions (cfg : Config) (clk : ℕ) (due : List FutureAction)
    (s : List Channel × List PowerStats) :
    (due.foldr (PowerDevice.handleFutureAction cfg clk) s).1 =
      due.foldr (Device.handleFutureAction cfg) s.1 := by
  induction due with
  | nil => rfl
  | cons fa due ih =>
    rw [List.foldr_cons, List.foldr_cons, ← ih]
    rfl

/-! ## Runs -/

def FutureAction.names (fa : FutureAction) (c r : ℕ) : Bool :=
  fa.addrVec.level channel = c && isTarget rank r fa.addrVec

def Device.refreshPending (d : Device) (c r : ℕ) : Bool := d.futureActions.any fun fa => fa.names c r

/-- `refreshCycles` counts per channel and rank. -/
structure PowerRun where
  device : PowerDevice
  refreshCycles : ℕ → ℕ → ℕ := fun _ _ => 0

namespace PowerRun

def step (cfg : Config) (s : PowerRun) : DeviceCall → Option PowerRun
  | .tick => some
    { device := s.device.tick cfg
      refreshCycles := fun c r =>
        s.refreshCycles c r + (s.device.toDevice.refreshPending c r).toNat }
  | .request typeId addrVec =>
    (s.device.toDevice.serve cfg typeId addrVec).map fun command =>
      { s with device := s.device.issueCommand cfg command addrVec }

def machine (cfg : Config) : Machine PowerRun DeviceCall where
  init := { device := PowerDevice.create cfg }
  step := step cfg

end PowerRun

end DDR4

end MultiCoreMemory
