import MultiCoreMemory.Plugin.Interface

/-!
# The commands of the DDR5 device with victim-row refresh (`dram/impl/DDR5-VRR.cpp`)

The device of the refresh-management and Rowhammer plugins: its commands with their scopes and
properties, its requests, and the view `deviceConfig` that a plugin has of it.
-/

namespace MultiCoreMemory.DDR5VRR

inductive Command where
  | ACT
  | PRE
  | PREA
  | PREsb
  | RD
  | WR
  | RDA
  | WRA
  | REFab
  | REFsb
  | REFab_end
  | REFsb_end
  | RFMab
  | RFMsb
  | RFMab_end
  | RFMsb_end
  | DRFMab
  | DRFMsb
  | DRFMab_end
  | DRFMsb_end
  | VRR
  | VRR_end
  deriving DecidableEq, Repr

/-- `m_command_scopes` over the levels channel, rank, bankgroup, bank, row, column. -/
def commandScopes : Command → ℕ
  | .ACT => 4
  | .PRE | .PREsb => 3
  | .PREA => 1
  | .RD | .WR | .RDA | .WRA => 5
  | .REFab | .REFab_end | .RFMab | .RFMab_end | .DRFMab | .DRFMab_end => 1
  | .REFsb | .REFsb_end | .RFMsb | .RFMsb_end | .DRFMsb | .DRFMsb_end => 3
  | .VRR | .VRR_end => 3

def commandMeta : Command → CommandMeta
  | .ACT => { isOpening := true }
  | .PRE | .PREA | .PREsb => { isClosing := true }
  | .RD | .WR => { isAccessing := true }
  | .RDA | .WRA => { isClosing := true, isAccessing := true }
  | .REFab | .REFsb | .RFMab | .RFMsb | .DRFMab | .DRFMsb | .VRR => { isRefreshing := true }
  | .REFab_end | .REFsb_end | .RFMab_end | .RFMsb_end | .DRFMab_end | .DRFMsb_end | .VRR_end =>
    { isClosing := true }

/-- The positions of `m_requests` that the plugins ask for. -/
abbrev typeRfm : ℕ := 4

abbrev typeVictimRowRefresh : ℕ := 8

abbrev typeCloseAllBank : ℕ := 11

def requestTranslations : ℕ → Option Command
  | 0 => some .RD
  | 1 => some .WR
  | 2 => some .REFab
  | 3 => some .REFsb
  | 4 => some .RFMab
  | 5 => some .RFMsb
  | 6 => some .DRFMab
  | 7 => some .DRFMsb
  | 8 => some .VRR
  | 9 => some .ACT
  | 10 => some .PRE
  | 11 => some .PREA
  | _ => none

def deviceConfig (ranks bankgroups banks rows columns : ℕ) : DeviceConfig Command where
  commandMeta := commandMeta
  commandScopes := commandScopes
  count := fun level => [1, ranks, bankgroups, banks, rows, columns].getD level 0

def command (cmd : Command) (addrVec : AddrVec) : Request Command :=
  { addrVec := addrVec, typeId := typeRead, command := some cmd }

abbrev oneBank : DeviceConfig Command := deviceConfig 1 1 1 16 64

def activateRow (row : ℤ) : Request Command := command .ACT [0, 0, 0, 0, row, 0]

end MultiCoreMemory.DDR5VRR
