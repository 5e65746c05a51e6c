import MultiCoreMemory.Translation.PagePlacement

/-!
# The policies `Dynamic_migration` and `Local_to_requester`
-/

namespace MultiCoreMemory

namespace DynamicMigration

open Placement

variable (cfg : PlacementConfig)

variable (s : Placement)

variable (cores : ℤ → Equiv.Perm (Fin 8)) (vpn : ℤ) (o : TranslateOracle)

def isCoolingDown : Bool :=
  match s.lastMigrationWindow.lookup vpn with
  | some lastWindow => s.windowCounter - lastWindow < cfg.cooldownWindows
  | none => false

def currentChannel : Fin numChannels :=
  (s.pageToChannelMapping.subscript vpn 0).1

def migrationTarget : Option (Fin numChannels) :=
  if !isHotPage cfg s vpn then none
  else if vpn = 0 then none
  else
    let mostFrequentCore := findMostFrequentCore s (cores vpn) vpn
    let bestChannel := findBestChannel cfg.latency mostFrequentCore
    if bestChannel = currentChannel s vpn then none
    else if isCoolingDown cfg s vpn then none
    else
      let gain := estimateLatencyGain cfg s vpn mostFrequentCore (currentChannel s vpn)
      if gain / 1000 > cfg.cost then some bestChannel else none

/-- The page table entry the loop leaves behind when it reads the mapping of a hot page. -/
def readMapping : Placement :=
  if isHotPage cfg s vpn ∧ vpn ≠ 0 then
    { s with pageToChannelMapping := (s.pageToChannelMapping.subscript vpn 0).2 }
  else s

/-- Enter the new frame of a migrated page.  Neither `reverse_page_table` nor the bitmap of the
    old partition is touched. -/
def moveTo (ch : Fin numChannels) (ppn : ℕ) : Placement :=
  { s with
    globalPageTable := s.globalPageTable.insert vpn ppn
    pageToChannelMapping := s.pageToChannelMapping.insert vpn ch
    lastMigrationWindow := s.lastMigrationWindow.insert vpn s.windowCounter
    migrations := s.migrations + 1 }

def visitEntry (s : Placement) (vpn : ℤ) (draws : List ℕ) : Option (Placement × List ℕ) :=
  match s.globalPageTable.lookup vpn with
  | none => some (s, draws)
  | some _ =>
    match migrationTarget cfg s cores vpn with
    | none => some (readMapping cfg s vpn, draws)
    | some ch =>
      match findRandomFreePage cfg (readMapping cfg s vpn) ch draws with
      | none => none
      | some (ppn, s, draws) => some (moveTo s vpn ch ppn, draws)

/-- The loop of `migrate_pages` over the entries in the order `order`. -/
def migrateLoop (cores : ℤ → Equiv.Perm (Fin 8)) : List ℤ → Placement → List ℕ →
    Option (Placement × List ℕ)
  | [], s, draws => some (s, draws)
  | vpn :: order, s, draws =>
    match visitEntry cfg cores s vpn draws with
    | none => none
    | some (s, draws) => migrateLoop cores order s draws

/-- The loop over the page table at the end of a window. The body is split in the decision
(`migrationTarget`, the chain of `continue`s) and the action (`visitEntry`); an entry that an
eviction has erased before its turn is not visited. -/
def migratePages (s : Placement) : Option (Placement × List ℕ) :=
  match migrateLoop cfg o.cores o.order s o.draws with
  | none => none
  | some (s, draws) =>
    some ({ s with
      windowCounter := s.windowCounter + 1
      pageAccessCountsPerCore := fun _ _ => 0 }, draws)

def endOfWindow (s : Placement) : Option (Placement × List ℕ) :=
  if s.migrationCounter = cfg.stabilityWindow then
    match migratePages cfg o s with
    | none => none
    | some (s, draws) => some ({ s with migrationCounter := 0 }, draws)
  else some (s, o.draws)

/-- The two `translate` functions. The second resets the window counter but its call of
`migrate_pages` is commented out. -/
def translate {C : Type} (o : TranslateOracle) (s : Placement) (req : Request C) :
    Option (Request C × Placement) :=
  let vpn := cfg.vpnOf req.addr
  match endOfWindow cfg o (s.countAccess vpn (coreOf req.sourceId)) with
  | none => none
  | some (s, draws) =>
    match resolvePage cfg s vpn (coreOf req.sourceId) draws with
    | none => none
    | some (ppn, s) => some (req.translated cfg ppn, s)

/-- Runs of `translate` calls.  The iteration order of a call is one of the table's entries. -/
def machine : Machine Placement TranslateCall where
  init := Placement.initial cfg
  step s c :=
    if c.oracle.order.Perm s.globalPageTable.keys then
      (translate cfg c.oracle s c.req).map (·.2)
    else none

/-- `P s ch draws` holds whenever the loop of `migrate_pages` allocates a frame of `ch` in `s`. -/
def LoopMeets (P : Placement → Fin numChannels → List ℕ → Prop)
    (cores : ℤ → Equiv.Perm (Fin 8)) : List ℤ → Placement → List ℕ → Prop
  | [], _, _ => True
  | vpn :: order, s, draws =>
    (∀ ch, s.globalPageTable.lookup vpn ≠ none → migrationTarget cfg s cores vpn = some ch →
      P s ch draws) ∧
    ∀ s' draws', visitEntry cfg cores s vpn draws = some (s', draws') →
      LoopMeets P cores order s' draws'

/-- `onMigrate` holds at every allocation made for a migration, `onTouch` at the first-touch
    allocation of the call. -/
def CallMeets (onMigrate onTouch : Placement → Fin numChannels → List ℕ → Prop)
    (s : Placement) (c : TranslateCall) : Prop :=
  let s₁ := s.countAccess (cfg.vpnOf c.addr) c.sourceId
  (s₁.migrationCounter = cfg.stabilityWindow →
    LoopMeets cfg onMigrate c.oracle.cores c.oracle.order s₁ c.oracle.draws) ∧
  ∀ s₂ draws, endOfWindow cfg c.oracle s₁ = some (s₂, draws) →
    s₂.globalPageTable.lookup (cfg.vpnOf c.addr) = none →
    onTouch s₂ (findBestChannel cfg.latency c.sourceId) draws

end DynamicMigration

namespace LocalToRequester

open Placement

variable (cfg : PlacementConfig)

/-- The window test of `translate`: only the counter is reset. -/
def endOfWindow (s : Placement) : Placement :=
  if s.migrationCounter = cfg.stabilityWindow then { s with migrationCounter := 0 } else s

def translate {C : Type} (o : TranslateOracle) (s : Placement) (req : Request C) :
    Option (Request C × Placement) :=
  let vpn := cfg.vpnOf req.addr
  match resolvePage cfg (endOfWindow cfg (s.countAccess vpn (coreOf req.sourceId))) vpn
      (coreOf req.sourceId) o.draws with
  | none => none
  | some (ppn, s) => some (req.translated cfg ppn, s)

def machine : Machine Placement TranslateCall where
  init := Placement.initial cfg
  step s c := (translate cfg c.oracle s c.req).map (·.2)

end LocalToRequester

inductive Policy where
  | dynamicMigration
  | localToRequester
  deriving DecidableEq, Repr

namespace Policy

def translate {C : Type} (cfg : PlacementConfig) (o : TranslateOracle) (s : Placement)
    (req : Request C) : Policy → Option (Request C × Placement)
  | .dynamicMigration => DynamicMigration.translate cfg o s req
  | .localToRequester => LocalToRequester.translate cfg o s req

def machine (cfg : PlacementConfig) : Policy → Machine Placement TranslateCall
  | .dynamicMigration => DynamicMigration.machine cfg
  | .localToRequester => LocalToRequester.machine cfg

end Policy

end MultiCoreMemory
