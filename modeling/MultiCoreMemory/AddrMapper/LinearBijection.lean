import MultiCoreMemory.AddrMapper.LinearMapper
import MultiCoreMemory.Lib.BitFields

/-!
# The linear address mappers are bijections

Each mapper slices the address into fields, in an order of its own, and puts the fields in their levels.
-/

namespace MultiCoreMemory

open BitFields List AddrVec

/-! ## The loops -/

theorem foldl_assignSlice (before mid after : List ℕ) (v₀ w v₁ : List ℤ) (a : ℤ)
    (h₀ : v₀.length = before.length) (hw : w.length = mid.length) :
    (List.range' before.length mid.length).foldl (assignSlice (before ++ mid ++ after))
      (v₀ ++ w ++ v₁, a) = (v₀ ++ slices mid a ++ v₁, a / 2 ^ mid.sum) := by
  induction mid generalizing before v₀ w a with
  | nil =>
    obtain rfl := length_eq_zero_iff.mp hw
    simp [slices]
  | cons b mid ih =>
    obtain ⟨x, w, rfl⟩ := exists_cons_of_length_eq_add_one hw
    have hstep : assignSlice (before ++ b :: mid ++ after) (v₀ ++ x :: w ++ v₁, a) before.length =
        ((v₀ ++ [a % 2 ^ b]) ++ w ++ v₁, a / 2 ^ b) := by
      simp [assignSlice, sliceLowerBits, ← h₀]
    rw [length_cons, range'_succ, foldl_cons, hstep]
    have hbits : before ++ b :: mid ++ after = (before ++ [b]) ++ mid ++ after := by simp
    have hih := ih (before ++ [b]) (v₀ ++ [a % 2 ^ b]) w (a / 2 ^ b) (by simp [h₀]) (by simpa using hw)
    rw [length_append, length_singleton, ← hbits] at hih
    rw [hih, slices, sum_cons, pow_add, Int.ediv_ediv_of_nonneg (by positivity)]
    simp

/-- The last loop of `MOP4CLXOR` xors the levels `mid` with the column. -/
theorem foldl_xorLevel (before mid : List ℕ) (c : ℕ) (v₀ w : List ℤ) (col : ℤ) (i : ℕ)
    (h₀ : v₀.length = before.length) (hw : w.length = mid.length) :
    ((List.range' before.length mid.length).foldl
      (xorLevel (before ++ mid ++ [c]) (before.length + mid.length)) (v₀ ++ w ++ [col], i)).1 =
      v₀ ++ xorWith col mid w i ++ [col] := by
  induction mid generalizing before v₀ w i with
  | nil =>
    obtain rfl := length_eq_zero_iff.mp hw
    simp [xorWith]
  | cons b mid ih =>
    obtain ⟨x, w, rfl⟩ := exists_cons_of_length_eq_add_one hw
    have hcol : level (v₀ ++ x :: w ++ [col]) (before.length + (mid.length + 1)) = col := by
      have hlen : before.length + (mid.length + 1) = (v₀ ++ x :: w).length := by
        simp only [length_append, h₀, hw, length_cons]
      simp [level, hlen]
    have hlvl : level (v₀ ++ x :: w ++ [col]) before.length = x := by
      simp [level, ← h₀]
    have hbit : (before ++ b :: mid ++ [c]).getD before.length 0 = b := by simp
    have hbits : before ++ b :: mid ++ [c] = (before ++ [b]) ++ mid ++ [c] := by simp
    rw [length_cons, range'_succ, foldl_cons]
    by_cases hb : 0 < b
    · have hstep : xorLevel (before ++ b :: mid ++ [c]) (before.length + (mid.length + 1))
          (v₀ ++ x :: w ++ [col], i) before.length =
          ((v₀ ++ [Int.xor x (col / 2 ^ i % 2 ^ b)]) ++ w ++ [col], i + b) := by
        simp only [xorLevel, hbit, hb, if_true, hcol, hlvl]
        simp [← h₀]
      have hih := ih (before ++ [b]) (v₀ ++ [Int.xor x (col / 2 ^ i % 2 ^ b)]) w (i + b) (by simp [h₀])
        (by simpa using hw)
      rw [length_append, length_singleton, ← hbits, Nat.add_assoc,
        Nat.add_comm 1 mid.length] at hih
      rw [hstep, hih]
      simp [xorWith, hb]
    · have hstep : xorLevel (before ++ b :: mid ++ [c]) (before.length + (mid.length + 1))
          (v₀ ++ x :: w ++ [col], i) before.length = ((v₀ ++ [x]) ++ w ++ [col], i) := by
        simp only [xorLevel, hbit, hb, if_false]
        simp
      have hih := ih (before ++ [b]) (v₀ ++ [x]) w i (by simp [h₀]) (by simpa using hw)
      rw [length_append, length_singleton, ← hbits, Nat.add_assoc,
        Nat.add_comm 1 mid.length] at hih
      rw [hstep, hih]
      simp [xorWith, hb]

theorem AddrVec.length_resize (v : AddrVec) (n : ℕ) : (v.resize n).length = n := by
  simp only [resize, length_append, length_take, length_replicate]
  omega

/-! ## The fields in their levels -/

section

variable {C : Type} {m : LinearMapper} {req : Request C}

variable (bits pre : List ℕ) (v : List ℤ)

theorem sliceAll_fst (a : ℤ) : (sliceAll bits a).1 = (slices bits.reverse a).reverse := by
  induction bits with
  | nil => rfl
  | cons b bits ih =>
    rw [reverse_cons, slices_append, reverse_append, ← ih]
    simp [sliceAll, sliceLowerBits, sliceAll_snd, slices]

theorem chRaBaRoCo_bijOn :
    Set.BijOn (fun a => (sliceAll bits a).1) {a | 0 ≤ a ∧ a < 2 ^ bits.sum} {v | InRange v bits} := by
  refine bijOn_rearranged bits.reverse reverse ?_ ?_ bits.sum_reverse
  · intro a _ _
    exact sliceAll_fst bits a
  · have hinv : Set.InvOn reverse reverse {v | InRange v bits.reverse}
        {v | InRange v bits} :=
      ⟨fun v _ => v.reverse_reverse, fun v _ => v.reverse_reverse⟩
    refine hinv.bijOn ?_ ?_
    · intro v hv
      have h := forall₂_reverse_iff.mpr hv
      rwa [reverse_reverse] at h
    · intro v hv
      exact forall₂_reverse_iff.mpr hv

/-- The second of the fields goes to the end. -/
def columnLast : List ℤ → List ℤ
  | x :: y :: ws => x :: (ws ++ [y])
  | v => v

theorem roBaRaCoCh_fields {b c : ℕ} {mid : List ℕ} (hm : m.addrBits = b :: (mid ++ [c])) :
    (RoBaRaCoCh.apply m mid.length req).addrVec =
      columnLast (slices (b :: c :: mid) (req.addr / 2 ^ m.txOffset)) := by
  have hlen := length_resize req.addrVec (mid.length + 2)
  obtain ⟨x, t, ht⟩ := exists_cons_of_length_eq_add_one hlen
  rw [ht, length_cons] at hlen
  obtain ⟨w, y, rfl⟩ : ∃ w y, t = w ++ [y] := by
    obtain rfl | ⟨w, y, h⟩ := eq_nil_or_concat t
    · simp at hlen
    · exact ⟨w, y, by simpa using h⟩
  have hw : w.length = mid.length := by simpa using hlen
  have hchannel : assignSlice (b :: (mid ++ [c])) (x :: (w ++ [y]), req.addr / 2 ^ m.txOffset) 0 =
      (req.addr / 2 ^ m.txOffset % 2 ^ b :: (w ++ [y]), req.addr / 2 ^ m.txOffset / 2 ^ b) := by
    simp [assignSlice, sliceLowerBits]
  have hcolumn : assignSlice (b :: (mid ++ [c]))
      (req.addr / 2 ^ m.txOffset % 2 ^ b :: (w ++ [y]), req.addr / 2 ^ m.txOffset / 2 ^ b)
      (mid.length + 1) =
      ([req.addr / 2 ^ m.txOffset % 2 ^ b] ++ w ++ [req.addr / 2 ^ m.txOffset / 2 ^ b % 2 ^ c],
        req.addr / 2 ^ m.txOffset / 2 ^ b / 2 ^ c) := by
    simp [assignSlice, sliceLowerBits, ← hw]
  have hn : (b :: (mid ++ [c])).length = mid.length + 2 := by simp
  simp only [RoBaRaCoCh.apply, hm, hn, ht, hchannel, Nat.add_one_sub_one, hcolumn]
  have hloop := foldl_assignSlice [b] mid [c] [req.addr / 2 ^ m.txOffset % 2 ^ b] w
    [req.addr / 2 ^ m.txOffset / 2 ^ b % 2 ^ c] (req.addr / 2 ^ m.txOffset / 2 ^ b / 2 ^ c) rfl hw
  rw [length_singleton] at hloop
  rw [show b :: (mid ++ [c]) = [b] ++ mid ++ [c] by simp, hloop]
  rfl

theorem columnLast_bijOn (b c : ℕ) (mid : List ℕ) :
    Set.BijOn columnLast {v | InRange v (b :: c :: mid)} {v | InRange v (b :: (mid ++ [c]))} := by
  refine ⟨?_, ?_, ?_⟩
  · rintro v (_ | ⟨hx, _ | ⟨hy, hws⟩⟩)
    exact .cons hx (inRange_append_iff.mpr ⟨_, _, rfl, hws, .cons hy .nil⟩)
  · rintro v (_ | ⟨-, _ | ⟨-, -⟩⟩) v' (_ | ⟨-, _ | ⟨-, -⟩⟩) h
    simp only [columnLast, cons.injEq] at h
    obtain ⟨hx, htail⟩ := h
    obtain ⟨hws, hlast⟩ := append_inj' htail rfl
    rw [hx, hws, singleton_inj.mp hlast]
  · rintro v (_ | ⟨hx, ht⟩)
    obtain ⟨ws, l, rfl, hws, hl⟩ := inRange_append_iff.mp ht
    obtain _ | ⟨hy, _ | _⟩ := hl
    exact ⟨_, .cons hx (.cons hy hws), rfl⟩

/-- The fields of `MOP4CLXOR`: low column bits, levels before the row, high column bits, row. -/
def columnJoined : List ℤ :=
  (v.drop 1).dropLast.dropLast ++ [v.getLastD 0, v.headD 0 + v.dropLast.getLastD 0 * 2 ^ 2]

theorem columnJoined_eq (lo hi row : ℤ) (ws : List ℤ) :
    columnJoined (lo :: (ws ++ [hi, row])) = ws ++ [row, lo + hi * 2 ^ 2] := by
  have hall : lo :: (ws ++ [hi, row]) = (lo :: (ws ++ [hi])) ++ [row] := by simp
  have hinit : lo :: (ws ++ [hi]) = (lo :: ws) ++ [hi] := by simp
  unfold columnJoined
  rw [hall, dropLast_concat, getLastD_concat, hinit, getLastD_concat]
  simp

theorem exists_of_inRange_mop {v : List ℤ} {pre : List ℕ} {c row : ℕ}
    (h : InRange v (2 :: (pre ++ [c, row]))) : ∃ lo ws hi r, v = lo :: (ws ++ [hi, r]) ∧
      (0 ≤ lo ∧ lo < 2 ^ 2) ∧ InRange ws pre ∧ (0 ≤ hi ∧ hi < 2 ^ c) ∧ (0 ≤ r ∧ r < 2 ^ row) := by
  obtain _ | ⟨hlo, ht⟩ := h
  obtain ⟨ws, l, rfl, hws, hl⟩ := inRange_append_iff.mp ht
  obtain _ | ⟨hhi, _ | ⟨hr, _ | _⟩⟩ := hl
  exact ⟨_, _, _, _, rfl, hlo, hws, hhi, hr⟩

theorem columnJoined_bijOn (c row : ℕ) :
    Set.BijOn columnJoined {v | InRange v (2 :: (pre ++ [c, row]))}
      {v | InRange v (pre ++ [row, c + 2])} := by
  have hpow : (2 : ℤ) ^ (c + 2) = 2 ^ c * 2 ^ 2 := pow_add 2 c 2
  refine ⟨?_, ?_, ?_⟩
  · intro v hv
    obtain ⟨lo, ws, hi, r, rfl, hlo, hws, hhi, hr⟩ := exists_of_inRange_mop hv
    rw [columnJoined_eq]
    refine inRange_append_iff.mpr ⟨ws, _, rfl, hws, .cons hr (.cons ?_ .nil)⟩
    rw [hpow]
    omega
  · intro v hv v' hv' h
    obtain ⟨lo, ws, hi, r, rfl, hlo, hws, -, -⟩ := exists_of_inRange_mop hv
    obtain ⟨lo', ws', hi', r', rfl, hlo', hws', -, -⟩ := exists_of_inRange_mop hv'
    rw [columnJoined_eq, columnJoined_eq] at h
    obtain ⟨hws, hlast⟩ := append_inj' h rfl
    simp only [cons.injEq, and_true] at hlast
    have hloeq : lo = lo' := by omega
    have hhieq : hi = hi' := by omega
    rw [hloeq, hws, hhieq, hlast.1]
  · intro v hv
    obtain ⟨ws, l, rfl, hws, hl⟩ := inRange_append_iff.mp hv
    obtain _ | ⟨hr, _ | ⟨hcol, _ | _⟩⟩ := hl
    rename_i r col
    rw [hpow] at hcol
    refine ⟨col % 2 ^ 2 :: (ws ++ [col / 2 ^ 2, r]), ?_, ?_⟩
    · refine .cons (by omega) (inRange_append_iff.mpr ⟨ws, _, rfl, hws, .cons (by omega) (.cons hr .nil)⟩)
    · rw [columnJoined_eq]
      have hcol' : col % 2 ^ 2 + col / 2 ^ 2 * 2 ^ 2 = col := by omega
      rw [hcol']

/-- Every level but the last is xored with bits of the last. -/
def xoredWithLast : List ℤ :=
  xorWith (v.getLastD 0) bits v.dropLast 0 ++ [v.getLastD 0]

theorem xoredWithLast_eq (w : List ℤ) (col : ℤ) :
    xoredWithLast bits (w ++ [col]) = xorWith col bits w 0 ++ [col] := by
  simp [xoredWithLast, getLastD_eq_getLast?]

theorem xoredWithLast_bijOn (c : ℕ) :
    Set.BijOn (xoredWithLast bits) {v | InRange v (bits ++ [c])} {v | InRange v (bits ++ [c])} := by
  have hmaps : Set.MapsTo (xoredWithLast bits) {v | InRange v (bits ++ [c])}
      {v | InRange v (bits ++ [c])} := by
    intro v hv
    obtain ⟨w, l, rfl, hw, _ | ⟨hcol, _ | _⟩⟩ := inRange_append_iff.mp hv
    rw [xoredWithLast_eq]
    exact inRange_append_iff.mpr ⟨_, _, rfl, xorWith_inRange _ 0 hw, .cons hcol .nil⟩
  have hinv : ∀ v, InRange v (bits ++ [c]) → xoredWithLast bits (xoredWithLast bits v) = v := by
    intro v hv
    obtain ⟨w, l, rfl, hw, _ | ⟨hcol, _ | _⟩⟩ := inRange_append_iff.mp hv
    rw [xoredWithLast_eq, xoredWithLast_eq, xorWith_xorWith _ 0 hw]
  exact Set.InvOn.bijOn ⟨hinv, hinv⟩ hmaps hmaps

theorem row_of_transaction {pre : List ℕ} {c row : ℕ} (hrow : row < 31) {a : ℤ} (h0 : 0 ≤ a)
    (h : a < 2 ^ (2 :: (pre ++ [c, row])).sum) :
    0 ≤ a / 2 ^ 2 / 2 ^ pre.sum / 2 ^ c ∧ a / 2 ^ 2 / 2 ^ pre.sum / 2 ^ c < 2 ^ row ∧
      (a / 2 ^ 2 / 2 ^ pre.sum / 2 ^ c).bmod (2 ^ 32) = a / 2 ^ 2 / 2 ^ pre.sum / 2 ^ c := by
  have hnonneg : 0 ≤ a / 2 ^ 2 / 2 ^ pre.sum / 2 ^ c := by positivity
  have hlt : a / 2 ^ 2 / 2 ^ pre.sum / 2 ^ c < 2 ^ row := by
    have hsum : (2 :: (pre ++ [c, row])).sum = 2 + (pre.sum + c) + row := by
      simp only [sum_cons, sum_append, sum_nil]
      omega
    rw [hsum, pow_add _ (2 + (pre.sum + c)) row, mul_comm] at h
    rw [Int.ediv_ediv_of_nonneg (by positivity), ← pow_add,
      Int.ediv_ediv_of_nonneg (by positivity), ← pow_add]
    exact Int.ediv_lt_of_lt_mul (by positivity) h
  generalize a / 2 ^ 2 / 2 ^ pre.sum / 2 ^ c = r at hnonneg hlt ⊢
  refine ⟨hnonneg, hlt, Int.bmod_eq_of_le ?_ ?_⟩
  · norm_num
    omega
  · have hle : (2 : ℤ) ^ row ≤ 2 ^ 30 := pow_le_pow_right₀ (by norm_num) (by omega)
    norm_num at hle hlt ⊢
    omega

theorem mop4clxor_sliced (c row : ℕ) (v : AddrVec) (a r : ℤ) :
    let levels := (List.range pre.length).foldl (assignSlice (pre ++ [row, c + 2]))
      ((v.resize (pre.length + 2)).set (pre.length + 1) (a % 2 ^ 2), a / 2 ^ 2)
    levels.2 = a / 2 ^ 2 / 2 ^ pre.sum ∧ ∀ hi : ℤ,
      (levels.1.set (pre.length + 1) (level levels.1 (pre.length + 1) + hi * 2 ^ 2)).set
        pre.length r = slices pre (a / 2 ^ 2) ++ [r] ++ [a % 2 ^ 2 + hi * 2 ^ 2] := by
  have hlen := length_resize v (pre.length + 2)
  obtain ⟨w, x, y, hv, hw⟩ : ∃ w x y, v.resize (pre.length + 2) = w ++ [x, y] ∧
      w.length = pre.length := by
    obtain ⟨x, y, hxy⟩ := length_eq_two.mp
      (show ((v.resize (pre.length + 2)).drop pre.length).length = 2 by
        rw [length_drop, hlen]
        omega)
    refine ⟨(v.resize (pre.length + 2)).take pre.length, x, y, ?_, ?_⟩
    · rw [← hxy, take_append_drop]
    · rw [length_take, hlen]
      omega
  have hset : (w ++ [x, y]).set (pre.length + 1) (a % 2 ^ 2) = w ++ [x, a % 2 ^ 2] := by
    simp [← hw]
  have hloop : (range pre.length).foldl (assignSlice (pre ++ [row, c + 2]))
      (w ++ [x, a % 2 ^ 2], a / 2 ^ 2) =
      (slices pre (a / 2 ^ 2) ++ [x, a % 2 ^ 2], a / 2 ^ 2 / 2 ^ pre.sum) := by
    rw [range_eq_range']
    exact foldl_assignSlice [] pre [row, c + 2] [] w [x, a % 2 ^ 2] (a / 2 ^ 2) rfl hw
  intro levels
  have hlevels : levels = (slices pre (a / 2 ^ 2) ++ [x, a % 2 ^ 2], a / 2 ^ 2 / 2 ^ pre.sum) := by
    rw [← hloop, ← hset, ← hv]
  rw [hlevels]
  refine ⟨rfl, fun hi => ?_⟩
  simp [level, ← length_slices pre (a / 2 ^ 2)]

theorem mop4clxor_fields (req : Request C) {pre : List ℕ} {c row : ℕ} (hm : m.addrBits = pre ++ [row, c + 2])
    (hrow : row < 31) (h0 : 0 ≤ req.addr / 2 ^ m.txOffset)
    (h : req.addr / 2 ^ m.txOffset < 2 ^ (2 :: (pre ++ [c, row])).sum) :
    (MOP4CLXOR.apply m pre.length req).addrVec = xoredWithLast (pre ++ [row])
      (columnJoined (slices (2 :: (pre ++ [c, row])) (req.addr / 2 ^ m.txOffset))) := by
  generalize ha : req.addr / 2 ^ m.txOffset = a at h0 h ⊢
  obtain ⟨hnonneg, hlt, hint⟩ := row_of_transaction hrow h0 h
  have hfields : slices (2 :: (pre ++ [c, row])) a = a % 2 ^ 2 ::
      (slices pre (a / 2 ^ 2) ++
        [a / 2 ^ 2 / 2 ^ pre.sum % 2 ^ c, a / 2 ^ 2 / 2 ^ pre.sum / 2 ^ c]) := by
    rw [slices, slices_append, slices, slices, slices, Int.emod_eq_of_lt hnonneg hlt]
  obtain ⟨hleft, hvec⟩ := mop4clxor_sliced pre c row req.addrVec a
    (a / 2 ^ 2 / 2 ^ pre.sum / 2 ^ c)
  have hn : (pre ++ [row, c + 2]).length = pre.length + 2 := by simp
  have hcols : (pre ++ [row, c + 2]).getD (pre.length + 1) 0 - 2 = c := by simp
  rw [hfields, columnJoined_eq]
  simp only [MOP4CLXOR.apply, hm, hn, ha, sliceLowerBits, Nat.add_one_sub_one, hleft, hcols, hint, hvec]
  generalize a % 2 ^ 2 + a / 2 ^ 2 / 2 ^ pre.sum % 2 ^ c * 2 ^ 2 = col
  have hxor := foldl_xorLevel [] (pre ++ [row]) (c + 2) []
    (slices pre (a / 2 ^ 2) ++ [a / 2 ^ 2 / 2 ^ pre.sum / 2 ^ c]) col 0 rfl (by simp [length_slices])
  rw [show slices pre (a / 2 ^ 2) ++ [a / 2 ^ 2 / 2 ^ pre.sum / 2 ^ c, col] =
    (slices pre (a / 2 ^ 2) ++ [a / 2 ^ 2 / 2 ^ pre.sum / 2 ^ c]) ++ [col] by simp, xoredWithLast_eq]
  simpa [range_eq_range'] using hxor

end

/-! ## The bijection -/

inductive LinearMapping where
  | ChRaBaRoCo
  | RoBaRaCoCh
  | MOP4CLXOR
  deriving DecidableEq, Repr

def LinearMapping.apply {C : Type} (m : LinearMapper) (rowBitsIdx : ℕ) (req : Request C) :
    LinearMapping → Request C
  | .ChRaBaRoCo => MultiCoreMemory.ChRaBaRoCo.apply m req
  | .RoBaRaCoCh => MultiCoreMemory.RoBaRaCoCh.apply m rowBitsIdx req
  | .MOP4CLXOR => MultiCoreMemory.MOP4CLXOR.apply m rowBitsIdx req

section

variable {C : Type} {m : LinearMapper}

theorem LinearMapping.apply_congr (impl : LinearMapping) (rowBitsIdx : ℕ) (req : Request C)
    {addr addr' : ℤ} (h : addr / 2 ^ m.txOffset = addr' / 2 ^ m.txOffset) :
    (impl.apply m rowBitsIdx { req with addr }).addrVec =
      (impl.apply m rowBitsIdx { req with addr := addr' }).addrVec := by
  cases impl <;>
    simp only [LinearMapping.apply, MultiCoreMemory.ChRaBaRoCo.apply,
      MultiCoreMemory.RoBaRaCoCh.apply, MultiCoreMemory.MOP4CLXOR.apply, h]

theorem LinearMapping.apply_bijOn (impl : LinearMapping) (req : Request C) {pre : List ℕ}
    {row c : ℕ} (hm : m.addrBits = pre ++ [row, c + 2]) (hrow : row < 31) :
    Set.BijOn (fun tx => (impl.apply m pre.length { req with addr := tx * 2 ^ m.txOffset }).addrVec)
      {tx | 0 ≤ tx ∧ tx < 2 ^ (pre ++ [row, c + 2]).sum} {v | InRange v (pre ++ [row, c + 2])} := by
  have htx : ∀ tx : ℤ, tx * 2 ^ m.txOffset / 2 ^ m.txOffset = tx :=
    fun tx => Int.mul_ediv_cancel tx (by positivity)
  cases impl with
  | ChRaBaRoCo =>
    simp only [LinearMapping.apply, MultiCoreMemory.ChRaBaRoCo.apply, htx, hm]
    exact chRaBaRoCo_bijOn _
  | RoBaRaCoCh =>
    -- the first level is the row if there is no level before it
    obtain ⟨b, mid, hlevels, hlen⟩ : ∃ b mid, pre ++ [row, c + 2] = b :: (mid ++ [c + 2]) ∧
        pre.length = mid.length := by
      cases pre with
      | nil => exact ⟨row, [], rfl, rfl⟩
      | cons b pre => exact ⟨b, pre ++ [row], by simp, by simp⟩
    rw [hlevels] at hm ⊢
    refine bijOn_rearranged (b :: (c + 2) :: mid) columnLast ?_ (columnLast_bijOn b (c + 2) mid) ?_
    · intro tx _ _
      simp only [LinearMapping.apply, hlen, roBaRaCoCh_fields hm, htx]
    · simp only [sum_cons, sum_append, sum_nil]
      omega
  | MOP4CLXOR =>
    have hbij := (xoredWithLast_bijOn (pre ++ [row]) (c + 2)).comp
      (by simpa using columnJoined_bijOn pre c row)
    rw [show pre ++ [row] ++ [c + 2] = pre ++ [row, c + 2] by simp] at hbij
    refine bijOn_rearranged (2 :: (pre ++ [c, row])) _ ?_ hbij ?_
    · intro tx h0 h
      have hfields := mop4clxor_fields { req with addr := tx * 2 ^ m.txOffset } hm hrow
        (by simpa only [htx] using h0) (by simpa only [htx] using h)
      simp only [htx] at hfields
      exact hfields
    · simp only [sum_cons, sum_append, sum_nil]
      omega

end

theorem modify_length_concat {α : Type*} (l : List α) (x : α) (f : α → α) :
    (l ++ [x]).modify l.length f = l ++ [f x] := by
  induction l with
  | nil => rfl
  | cons y l ih => rw [cons_append, length_cons, modify_succ_cons, ih, cons_append]

theorem setup_addrBits (pre : List ℕ) (row col prefetch width : ℕ) :
    (LinearMapper.setup (pre.map (2 ^ ·) ++ [2 ^ row, 2 ^ col]) (2 ^ prefetch) width).addrBits =
      pre ++ [row, col - prefetch] := by
  have hlog : (pre.map (2 ^ ·)).map calcLog2 = pre := by
    rw [List.map_map]
    refine (map_congr_left fun k _ => ?_).trans pre.map_id
    exact calcLog2_two_pow k
  have hlast : (pre.map (2 ^ ·) ++ [2 ^ row, 2 ^ col]).length - 1 = (pre ++ [row]).length := by simp
  simp only [LinearMapper.setup, hlast, map_append, hlog, map_cons, map_nil,
    calcLog2_two_pow]
  rw [show pre ++ [row, col] = (pre ++ [row]) ++ [col] by simp, modify_length_concat]
  simp

/-- **The transactions of the memory are the address vectors of the organisation, under each of the
linear mappings.** -/
theorem linear_mapper_bijective {C : Type} (impl : LinearMapping) (req : Request C) (pre : List ℕ)
    (row col prefetch width : ℕ) (hrow : 2 ^ row < 2 ^ 31) (hcol : 4 * 2 ^ prefetch ≤ 2 ^ col) :
    let m := LinearMapper.setup (pre.map (2 ^ ·) ++ [2 ^ row, 2 ^ col]) (2 ^ prefetch) width
    let sizes := pre.map (2 ^ ·) ++ [2 ^ row, 2 ^ col / 2 ^ prefetch]
    Set.BijOn (fun tx => (impl.apply m pre.length { req with addr := tx * 2 ^ m.txOffset }).addrVec)
      {tx | 0 ≤ tx ∧ tx < (sizes.prod : ℕ)}
      {v | List.Forall₂ (fun (x : ℤ) (size : ℕ) => 0 ≤ x ∧ x < size) v sizes} ∧
    ∀ addr addr' : ℤ, addr / 2 ^ m.txOffset = addr' / 2 ^ m.txOffset →
      (impl.apply m pre.length { req with addr }).addrVec =
        (impl.apply m pre.length { req with addr := addr' }).addrVec := by
  intro m sizes
  refine ⟨?_, fun addr addr' h => impl.apply_congr pre.length req h⟩
  have hle : prefetch + 2 ≤ col := by
    rw [show 4 = 2 ^ 2 by norm_num, ← pow_add, Nat.pow_le_pow_iff_right (by norm_num)] at hcol
    omega
  obtain ⟨c, hc⟩ : ∃ c, col - prefetch = c + 2 := ⟨col - prefetch - 2, by omega⟩
  have hm : m.addrBits = pre ++ [row, c + 2] := by
    rw [← hc]
    exact setup_addrBits pre row col prefetch width
  have hsizes : sizes = (pre ++ [row, c + 2]).map (2 ^ ·) := by
    simp only [sizes, map_append, map_cons, map_nil, ← hc]
    rw [Nat.pow_div (by omega) (by norm_num)]
  have hbij := impl.apply_bijOn req hm ((Nat.pow_lt_pow_iff_right (by norm_num)).mp hrow)
  rw [hsizes, prod_two_pow]
  simp only [← inRange_iff_sizes, Nat.cast_pow, Nat.cast_ofNat]
  exact hbij

/-- Two ranks of `DDR4_8Gb_x8` under `MOP4CLXOR`: 2 * 4 * 4 * 2^16 * 2^7 transactions of 64 bytes. -/
theorem ddr4_mop4clxor_bijective :
    (2 ^ 16 < 2 ^ 31 ∧ 4 * 2 ^ 3 ≤ 2 ^ 10) ∧
    let m := LinearMapper.setup [1, 2, 4, 4, 2 ^ 16, 2 ^ 10] 8 64
    Set.BijOn
      (fun tx => (LinearMapping.MOP4CLXOR.apply m 4
        ({ typeId := 0, addr := tx * 2 ^ m.txOffset } : Request Unit)).addrVec)
      {tx | 0 ≤ tx ∧ tx < ([1, 2, 4, 4, 2 ^ 16, 2 ^ 7].prod : ℕ)}
      {v | List.Forall₂ (fun (x : ℤ) (size : ℕ) => 0 ≤ x ∧ x < size) v [1, 2, 4, 4, 2 ^ 16, 2 ^ 7]} :=
  ⟨⟨by decide, by decide⟩,
    (linear_mapper_bijective .MOP4CLXOR { typeId := 0 } [0, 1, 2, 2] 16 10 3 64 (by decide)
      (by decide)).1⟩

end MultiCoreMemory
