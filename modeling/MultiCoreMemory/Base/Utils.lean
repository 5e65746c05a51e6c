import Mathlib.Data.Nat.Log
import Mathlib.Tactic

/-!
# Bit slicing and the core-to-channel latency matrix (`base/utils.h`, `base/utils.cpp`)
-/

namespace MultiCoreMemory

/-- `calc_log2`: how often the value can be halved before it is zero. -/
def calcLog2 (val : ℕ) : ℕ :=
  if val / 2 = 0 then 0 else calcLog2 (val / 2) + 1
termination_by val
decreasing_by omega

theorem calcLog2_eq_log (val : ℕ) : calcLog2 val = Nat.log 2 val := by
  induction val using calcLog2.induct with
  | case1 val h =>
    rw [calcLog2, if_pos h]
    exact (Nat.log_of_lt (by omega)).symm
  | case2 val h ih =>
    rw [calcLog2, if_neg h, ih, ← Nat.log_of_one_lt_of_le (by omega) (by omega)]

theorem calcLog2_two_pow (n : ℕ) : calcLog2 (2 ^ n) = n := by
  rw [calcLog2_eq_log, Nat.log_pow (by omega)]

/-- `addr & ((1 << n) - 1)` and `addr >> n` of a two's-complement integer. -/
def sliceLowerBits (addr : ℤ) (numBits : ℕ) : ℤ × ℤ := (addr % 2 ^ numBits, addr / 2 ^ numBits)

/-- The number of memory channels, of partitions and of rows of the latency matrix. -/
abbrev numChannels : ℕ := 8

instance : NeZero numChannels := ⟨by decide⟩

abbrev LatencyMatrix := Fin 8 → Fin numChannels → ℕ

def latencyPattern : ℕ → ℕ
  | 0 => 20
  | 1 => 30
  | 2 => 60
  | 3 => 100
  | _ => 130

/-- `initialize_core_channel_latency`: the pattern by distance, mirrored beyond distance 4. -/
def initializeCoreChannelLatency : LatencyMatrix := fun core ch =>
  let offset := (core : ℤ) - (ch : ℤ) |>.natAbs
  if offset < 5 then latencyPattern offset else latencyPattern (8 - offset)

end MultiCoreMemory
