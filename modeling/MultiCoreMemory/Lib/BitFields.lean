import Mathlib.Data.Int.Bitwise
import Mathlib.Data.List.Forall2
import Mathlib.Data.Set.Function
import Mathlib.Tactic

/-!
# Numbers as sequences of bit fields
-/

namespace MultiCoreMemory.BitFields

open List

/-- The fields of given widths, least significant first; `join` puts them together again. -/
def slices : List ℕ → ℤ → List ℤ
  | [], _ => []
  | b :: bits, a => a % 2 ^ b :: slices bits (a / 2 ^ b)

def join : List ℕ → List ℤ → ℤ
  | b :: bits, x :: xs => x + 2 ^ b * join bits xs
  | _, _ => 0

/-- One number for each width, below the power of two that it allows. -/
abbrev InRange (v : List ℤ) (bits : List ℕ) : Prop :=
  List.Forall₂ (fun x b => 0 ≤ x ∧ x < 2 ^ b) v bits

variable {bits bits' : List ℕ} {v w : List ℤ} {a : ℤ}

theorem emod_two_pow_bounds (a : ℤ) (b : ℕ) : 0 ≤ a % 2 ^ b ∧ a % 2 ^ b < 2 ^ b :=
  ⟨Int.emod_nonneg a (by positivity), Int.emod_lt_of_pos a (by positivity)⟩

theorem slices_inRange (bits : List ℕ) (a : ℤ) : InRange (slices bits a) bits := by
  induction bits generalizing a with
  | nil => exact .nil
  | cons b bits ih => exact .cons (emod_two_pow_bounds a b) (ih _)

theorem length_slices (bits : List ℕ) (a : ℤ) : (slices bits a).length = bits.length :=
  (slices_inRange bits a).length_eq

theorem slices_append (bits bits' : List ℕ) (a : ℤ) :
    slices (bits ++ bits') a = slices bits a ++ slices bits' (a / 2 ^ bits.sum) := by
  induction bits generalizing a with
  | nil => simp [slices]
  | cons b bits ih =>
    rw [cons_append, slices, ih, slices, sum_cons, pow_add,
      Int.ediv_ediv_of_nonneg (by positivity), cons_append]

theorem join_bounds (h : InRange v bits) : 0 ≤ join bits v ∧ join bits v < 2 ^ bits.sum := by
  induction h with
  | nil => simp [join]
  | @cons x b v bits hx _ ih =>
    have hpos : (0 : ℤ) < 2 ^ b := by positivity
    rw [join, sum_cons, pow_add]
    constructor
    · have : 0 ≤ (2 : ℤ) ^ b * join bits v := mul_nonneg hpos.le ih.1
      omega
    · have hle : (2 : ℤ) ^ b * (join bits v + 1) ≤ 2 ^ b * 2 ^ bits.sum :=
        mul_le_mul_of_nonneg_left ih.2 hpos.le
      rw [mul_add, mul_one] at hle
      omega

theorem join_slices (h0 : 0 ≤ a) (h : a < 2 ^ bits.sum) : join bits (slices bits a) = a := by
  induction bits generalizing a with
  | nil =>
    simp only [sum_nil, pow_zero] at h
    simp only [join]
    omega
  | cons b bits ih =>
    have hpos : (0 : ℤ) < 2 ^ b := by positivity
    rw [sum_cons, pow_add, mul_comm] at h
    rw [slices, join, ih (Int.ediv_nonneg h0 hpos.le) (Int.ediv_lt_of_lt_mul hpos h)]
    exact Int.emod_add_mul_ediv a (2 ^ b)

theorem slices_join (h : InRange v bits) : slices bits (join bits v) = v := by
  induction h with
  | nil => rfl
  | @cons x b v bits hx _ ih =>
    have hpos : (2 : ℤ) ^ b ≠ 0 := by positivity
    rw [join, slices, Int.add_mul_emod_self_left, Int.emod_eq_of_lt hx.1 hx.2,
      Int.add_mul_ediv_left x _ hpos, Int.ediv_eq_zero_of_lt hx.1 hx.2, zero_add, ih]

/-- The numbers below the product of the powers are the sequences of fields. -/
theorem bijOn_slices (bits : List ℕ) :
    Set.BijOn (slices bits) {a | 0 ≤ a ∧ a < 2 ^ bits.sum} {v | InRange v bits} := by
  have hinv : Set.InvOn (join bits) (slices bits) {a | 0 ≤ a ∧ a < 2 ^ bits.sum}
      {v | InRange v bits} := by
    constructor
    · rintro a ⟨h0, h⟩
      exact join_slices h0 h
    · intro v h
      exact slices_join h
  refine hinv.bijOn ?_ ?_
  · intro a _
    exact slices_inRange bits a
  · intro v h
    exact join_bounds h

theorem inRange_append_iff : InRange v (bits ++ bits') ↔
    ∃ v₁ v₂, v = v₁ ++ v₂ ∧ InRange v₁ bits ∧ InRange v₂ bits' := by
  constructor
  · intro h
    refine ⟨v.take bits.length, v.drop bits.length, (take_append_drop ..).symm, ?_, ?_⟩
    · exact forall₂_take_append v bits bits' h
    · exact forall₂_drop_append v bits bits' h
  · rintro ⟨v₁, v₂, rfl, h₁, h₂⟩
    exact rel_append h₁ h₂

theorem prod_two_pow (bits : List ℕ) : (bits.map (2 ^ ·)).prod = 2 ^ bits.sum := by
  induction bits with
  | nil => rfl
  | cons b bits ih => rw [map_cons, prod_cons, ih, sum_cons, pow_add]

theorem inRange_iff_sizes : InRange v bits ↔
    List.Forall₂ (fun (x : ℤ) (size : ℕ) => 0 ≤ x ∧ x < size) v (bits.map (2 ^ ·)) := by
  rw [forall₂_map_right_iff]
  simp only [Nat.cast_pow, Nat.cast_ofNat]

theorem bijOn_rearranged (bits : List ℕ) {f : ℤ → List ℤ} (g : List ℤ → List ℤ)
    (hf : ∀ a, 0 ≤ a → a < 2 ^ bits.sum → f a = g (slices bits a))
    (hg : Set.BijOn g {v | InRange v bits} {v | InRange v bits'}) (hsum : bits.sum = bits'.sum) :
    Set.BijOn f {a | 0 ≤ a ∧ a < 2 ^ bits'.sum} {v | InRange v bits'} := by
  rw [← hsum]
  refine (hg.comp (bijOn_slices bits)).congr ?_
  rintro a ⟨h0, h⟩
  exact (hf a h0 h).symm

/-! ## Fields xored with a key -/

/-- Each field of positive width is xored with the next bits of the key. -/
def xorWith (key : ℤ) : List ℕ → List ℤ → ℕ → List ℤ
  | b :: bits, x :: xs, i =>
    if 0 < b then Int.xor x (key / 2 ^ i % 2 ^ b) :: xorWith key bits xs (i + b)
    else x :: xorWith key bits xs i
  | _, _, _ => []

theorem xor_inRange {x m : ℤ} {b : ℕ} (hx : 0 ≤ x ∧ x < 2 ^ b) (hm : 0 ≤ m ∧ m < 2 ^ b) :
    0 ≤ Int.xor x m ∧ Int.xor x m < 2 ^ b := by
  obtain ⟨x, rfl⟩ := Int.eq_ofNat_of_zero_le hx.1
  obtain ⟨m, rfl⟩ := Int.eq_ofNat_of_zero_le hm.1
  have hlt : x ^^^ m < 2 ^ b := Nat.xor_lt_two_pow (by exact_mod_cast hx.2) (by exact_mod_cast hm.2)
  refine ⟨Int.natCast_nonneg (x ^^^ m), ?_⟩
  show ((x ^^^ m : ℕ) : ℤ) < 2 ^ b
  exact_mod_cast hlt

theorem xor_xor {x m : ℤ} (hx : 0 ≤ x) (hm : 0 ≤ m) : Int.xor (Int.xor x m) m = x := by
  obtain ⟨x, rfl⟩ := Int.eq_ofNat_of_zero_le hx
  obtain ⟨m, rfl⟩ := Int.eq_ofNat_of_zero_le hm
  show ((x ^^^ m ^^^ m : ℕ) : ℤ) = x
  rw [Nat.xor_assoc, Nat.xor_self, Nat.xor_zero]

theorem xorWith_inRange (key : ℤ) (i : ℕ) (h : InRange v bits) :
    InRange (xorWith key bits v i) bits := by
  induction h generalizing i with
  | nil => exact .nil
  | @cons x b v bits hx _ ih =>
    rw [xorWith]
    split
    · exact .cons (xor_inRange hx (emod_two_pow_bounds _ b)) (ih _)
    · exact .cons hx (ih _)

theorem xorWith_xorWith (key : ℤ) (i : ℕ) (h : InRange v bits) :
    xorWith key bits (xorWith key bits v i) i = v := by
  induction h generalizing i with
  | nil => rfl
  | @cons x b v bits hx _ ih =>
    by_cases hb : 0 < b
    · simp only [xorWith, hb, if_true, xor_xor hx.1 (emod_two_pow_bounds _ b).1, ih]
    · simp only [xorWith, hb, if_false, ih]

end MultiCoreMemory.BitFields
