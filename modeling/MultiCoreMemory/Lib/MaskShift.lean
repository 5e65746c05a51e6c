import Mathlib.Data.BitVec
import Mathlib.Data.Nat.Log
import Mathlib.Tactic.Ring

/-!
# A number split by a mask and a shift

A number of sets `n` gives a mask `n - 1` and a shift by the truncated logarithm of `n`.  A word is split
into its bits in the mask and its bits from the shift on.
-/

namespace MultiCoreMemory.MaskShift

/-- A multiple of a power of two and a number below it have no bit in common. -/
theorem xor_eq_add {t q v : ℕ} (hv : v < 2 ^ t) : 2 ^ t * q ^^^ v = 2 ^ t * q + v := by
  have hdiv : (2 ^ t * q ^^^ v) / 2 ^ t = q := by
    rw [Nat.xor_div_two_pow, Nat.mul_div_cancel_left _ (Nat.two_pow_pos t), Nat.div_eq_of_lt hv, Nat.xor_zero]
  have hmod : (2 ^ t * q ^^^ v) % 2 ^ t = v := by
    rw [Nat.xor_mod_two_pow, Nat.mul_mod_right, Nat.mod_eq_of_lt hv, Nat.zero_xor]
  rw [← Nat.div_add_mod (2 ^ t * q ^^^ v) (2 ^ t), hdiv, hmod]

/-- **Residue and quotient leave the numbers below `n`** under exclusive or, unless `n` is a power of two:
for an odd `n` at `n - 1`, for an even one at one of two numbers with neighbouring quotients. -/
theorem exists_le_xor_mod {n : ℕ} (hn : 0 < n) (hpow : n ≠ 2 ^ n.log2) :
    ∃ b < n ^ 2, n ≤ b % n ^^^ (b >>> n.log2) % n := by
  have hle : 2 ^ n.log2 ≤ n := Nat.log2_self_le hn.ne'
  have hlt : n < 2 ^ (n.log2 + 1) := Nat.lt_log2_self
  generalize n.log2 = k at *
  rw [Nat.pow_succ] at hlt
  simp only [Nat.shiftRight_eq_div_pow]
  rcases Nat.even_or_odd' n with ⟨q, rfl | rfl⟩
  · obtain ⟨d, hd⟩ := Nat.exists_eq_add_of_le hle
    -- the number with the residue `2 ^ k` and the quotient `v`
    have hquotient : ∀ v, d ≤ v → v < 2 ^ k → (2 ^ k + v * d) % (2 * q) < 2 ^ k →
        ∃ b < (2 * q) ^ 2, 2 * q ≤ b % (2 * q) ^^^ b / 2 ^ k % (2 * q) := by
      intro v hdv hv hr
      refine ⟨2 ^ k * v + (2 ^ k + v * d) % (2 * q), ?_, ?_⟩
      · have hle := Nat.mul_le_mul (show 2 ^ k ≤ 2 * q by omega) (show v + 1 ≤ 2 * q by omega)
        rw [Nat.mul_succ] at hle
        rw [Nat.pow_two]
        omega
      · rw [Nat.mul_add_div (Nat.two_pow_pos k), Nat.div_eq_of_lt hr, Nat.add_zero,
          Nat.mod_eq_of_lt (a := v) (by omega), Nat.add_mod_mod,
          show 2 ^ k * v + (2 ^ k + v * d) = 2 ^ k + 2 * q * v by rw [hd]; ring,
          Nat.add_mul_mod_self_left, Nat.mod_eq_of_lt (by omega)]
        have hxor := xor_eq_add (q := 1) hv
        rw [Nat.mul_one] at hxor
        omega
    by_cases hr : (2 ^ k + d * d) % (2 * q) < 2 ^ k
    · exact hquotient d le_rfl (by omega) hr
    · obtain ⟨j, rfl⟩ : ∃ j, k = j + 1 := Nat.exists_eq_succ_of_ne_zero fun hk => by
        rw [hk] at hlt
        omega
      have hnext : (2 ^ (j + 1) + (d + 1) * d) % (2 * q) =
          (2 ^ (j + 1) + d * d) % (2 * q) + d - 2 * q := by
        have hres := Nat.mod_lt (2 ^ (j + 1) + d * d) hn
        rw [Nat.succ_mul, ← Nat.add_assoc, ← Nat.mod_add_mod, Nat.mod_eq_sub_mod (by omega),
          Nat.mod_eq_of_lt (by omega)]
      have hres := Nat.mod_lt (2 ^ (j + 1) + d * d) hn
      exact hquotient (d + 1) (by omega) (by omega) (by rw [hnext]; omega)
  · refine ⟨2 * q, (Nat.lt_succ_self _).trans_le (Nat.le_self_pow two_ne_zero _), ?_⟩
    have hone : 2 * q / 2 ^ k = 1 := Nat.div_eq_of_lt_le (by omega) (by omega)
    have hxor := xor_eq_add (t := 1) (q := q) Nat.one_lt_two
    have hpos := Nat.two_pow_pos k
    rw [Nat.pow_one] at hxor
    rw [hone, Nat.mod_eq_of_lt (by omega), Nat.mod_eq_of_lt (by omega)]
    omega

open BitVec

variable {w : ℕ} {x y mask : BitVec w} {n k : ℕ}

/-- A shift keeps exactly the bits from its distance on. -/
theorem sshiftRight_eq_iff (hn : n < w) :
    x.sshiftRight n = y.sshiftRight n ↔ ∀ i, n ≤ i → i < w → x.getLsbD i = y.getLsbD i := by
  constructor
  · intro h i hni hiw
    have hbit := congrArg (fun z => getLsbD z (i - n)) h
    have hlt : ¬ w ≤ i - n := by omega
    have hsum : n + (i - n) = i := by omega
    simpa [getLsbD_sshiftRight, hlt, hsum, hiw] using hbit
  · intro h
    refine eq_of_getLsbD_eq fun i hi => ?_
    have hmsb : x.msb = y.msb := by
      rw [msb_eq_getLsbD_last, msb_eq_getLsbD_last]
      exact h (w - 1) (by omega) (by omega)
    rw [getLsbD_sshiftRight, getLsbD_sshiftRight, hmsb]
    by_cases hlt : n + i < w
    · rw [if_pos hlt, if_pos hlt, h (n + i) (by omega) hlt]
    · rw [if_neg hlt, if_neg hlt]

theorem ushiftRight_eq_iff :
    x >>> n = y >>> n ↔ ∀ i, n ≤ i → i < w → x.getLsbD i = y.getLsbD i := by
  constructor
  · intro h i hni _
    have hbit := congrArg (fun z => getLsbD z (i - n)) h
    have hsum : n + (i - n) = i := by omega
    simpa [getLsbD_ushiftRight, hsum] using hbit
  · intro h
    refine eq_of_getLsbD_eq fun i _ => ?_
    rw [getLsbD_ushiftRight, getLsbD_ushiftRight]
    by_cases hlt : n + i < w
    · exact h (n + i) (by omega) hlt
    · rw [getLsbD_of_ge _ _ (by omega), getLsbD_of_ge _ _ (by omega)]

/-- The two parts determine the word if the mask has every bit below the shift. -/
theorem eq_of_mask_of_shift (hk : k < w) (hmask : ∀ i < k, mask.getLsbD i = true)
    (hand : x &&& mask = y &&& mask) (hshift : x.sshiftRight k = y.sshiftRight k) : x = y := by
  refine eq_of_getLsbD_eq fun i hi => ?_
  by_cases hik : i < k
  · have hbit := congrArg (fun z => getLsbD z i) hand
    simpa [getLsbD_and, hmask i hik] using hbit
  · exact (sshiftRight_eq_iff hk).mp hshift i (by omega) hi

theorem eq_two_pow_log (hn : n ≠ 0) (h : ∀ i < Nat.log 2 n, (n - 1).testBit i = true) :
    n = 2 ^ Nat.log 2 n := by
  have hlow : (n - 1) % 2 ^ Nat.log 2 n = 2 ^ Nat.log 2 n - 1 := by
    refine Nat.eq_of_testBit_eq fun i => ?_
    rw [Nat.testBit_mod_two_pow, Nat.testBit_two_pow_sub_one]
    by_cases hi : i < Nat.log 2 n
    · simp [hi, h i hi]
    · simp [hi]
  have hle : 2 ^ Nat.log 2 n ≤ n := Nat.pow_log_le_self 2 hn
  have hlt : n < 2 ^ Nat.log 2 n * 2 := by
    rw [← pow_succ]
    exact Nat.lt_pow_succ_log_self (by omega) n
  have hpos : 0 < 2 ^ Nat.log 2 n := Nat.two_pow_pos _
  have hdiv := Nat.div_add_mod (n - 1) (2 ^ Nat.log 2 n)
  -- the quotient is zero, as `n - 1` has no room for another full block
  rcases Nat.eq_zero_or_pos ((n - 1) / 2 ^ Nat.log 2 n) with hzero | hquot
  · rw [hzero, hlow] at hdiv
    omega
  · have hone : 2 ^ Nat.log 2 n * 1 ≤ 2 ^ Nat.log 2 n * ((n - 1) / 2 ^ Nat.log 2 n) :=
      Nat.mul_le_mul_left _ hquot
    omega

/-- The mask `n - 1` lacks a bit below the logarithm exactly when `n` is no power of two. -/
theorem gap_iff (hn : n ≠ 0) :
    (∃ i < Nat.log 2 n, (n - 1).testBit i = false) ↔ ¬ ∃ k, n = 2 ^ k := by
  constructor
  · rintro ⟨i, hi, hbit⟩ ⟨k, rfl⟩
    rw [Nat.log_pow (by omega)] at hi
    rw [Nat.testBit_two_pow_sub_one, decide_eq_false_iff_not] at hbit
    exact hbit hi
  · intro hpow
    by_contra hnone
    push Not at hnone
    refine hpow ⟨_, eq_two_pow_log hn fun i hi => ?_⟩
    simpa using hnone i hi

end MultiCoreMemory.MaskShift
