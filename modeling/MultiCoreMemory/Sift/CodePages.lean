import MultiCoreMemory.Sift.Reader
import MultiCoreMemory.Sift.Writer

/-!
# The code that the reader knows

The reader keeps the code in pages, which it is sent whole or in pieces, and copies the bytes of an
instruction out of one page or two.
-/

namespace MultiCoreMemory.Sift

open ByteReader Option Function Nat

/-! ## Addresses and pages -/

variable (a : UInt64)

theorem pageOf_toNat : (pageOf a).toNat = a.toNat / 4096 * 4096 := by
  have hmask : (0xfffffffffffff000 : UInt64).toNat = (2 ^ 52 - 1) <<< 12 := rfl
  have hshift : a.toNat / 4096 * 4096 = (a.toNat >>> 12) <<< 12 := by
    rw [shiftRight_eq_div_pow, shiftLeft_eq]
  rw [pageOf, UInt64.toNat_and, hmask, hshift]
  refine eq_of_testBit_eq fun i => ?_
  simp only [testBit_and, testBit_shiftLeft, testBit_two_pow_sub_one,
    testBit_shiftRight]
  by_cases hi : 12 ≤ i
  · by_cases htop : i - 12 < 52
    · simp [hi, htop]
    · have hbit : a.toNat.testBit i = false :=
        Nat.testBit_lt_two_pow (lt_of_lt_of_le a.toNat_lt (Nat.pow_le_pow_right (by omega) (by omega)))
      simp [hi, htop, hbit]
  · simp [hi]

theorem offsetOf_eq : offsetOf a = a.toNat % 4096 := by
  rw [offsetOf, UInt64.toNat_and]
  exact and_two_pow_sub_one_eq_mod _ 12

theorem offsetOf_lt : offsetOf a < ICACHE_SIZE := by
  rw [offsetOf_eq, ICACHE_SIZE]
  omega

theorem add_ofNat_add (m n : ℕ) :
    a + UInt64.ofNat m + UInt64.ofNat n = a + UInt64.ofNat (m + n) := by
  rw [UInt64.ofNat_add, UInt64.add_assoc]

section

variable {a : UInt64} {k : ℕ}

theorem pageOf_add_offsetOf (a : UInt64) : pageOf a + UInt64.ofNat (offsetOf a) = a := by
  apply UInt64.toNat_inj.mp
  rw [UInt64.toNat_add, pageOf_toNat, UInt64.toNat_ofNat', offsetOf_eq]
  have := a.toNat_lt
  omega

theorem toNat_add_of_offset (h : offsetOf a + k < ICACHE_SIZE) :
    (a + UInt64.ofNat k).toNat = a.toNat + k := by
  rw [offsetOf_eq, ICACHE_SIZE] at h
  rw [UInt64.toNat_add, UInt64.toNat_ofNat']
  have := a.toNat_lt
  omega

theorem pageOf_add (h : offsetOf a + k < ICACHE_SIZE) : pageOf (a + UInt64.ofNat k) = pageOf a := by
  apply UInt64.toNat_inj.mp
  rw [pageOf_toNat, pageOf_toNat, toNat_add_of_offset h]
  rw [offsetOf_eq, ICACHE_SIZE] at h
  omega

theorem offsetOf_add (h : offsetOf a + k < ICACHE_SIZE) :
    offsetOf (a + UInt64.ofNat k) = offsetOf a + k := by
  rw [offsetOf_eq, offsetOf_eq, toNat_add_of_offset h]
  rw [offsetOf_eq, ICACHE_SIZE] at h
  omega

theorem add_offset_sub {x : UInt64} (hpage : pageOf x = pageOf a) (h : offsetOf a ≤ offsetOf x) :
    a + UInt64.ofNat (offsetOf x - offsetOf a) = x := by
  have hnat := congrArg UInt64.toNat hpage
  rw [pageOf_toNat, pageOf_toNat] at hnat
  rw [offsetOf_eq, offsetOf_eq] at h
  apply UInt64.toNat_inj.mp
  rw [UInt64.toNat_add, UInt64.toNat_ofNat', offsetOf_eq, offsetOf_eq]
  have := x.toNat_lt
  omega

theorem pageOf_pageOf (a : UInt64) : pageOf (pageOf a) = pageOf a := by
  apply UInt64.toNat_inj.mp
  rw [pageOf_toNat, pageOf_toNat]
  omega

theorem pageOf_next (a : UInt64) : pageOf (pageOf a + 4096) = pageOf a + 4096 := by
  apply UInt64.toNat_inj.mp
  rw [pageOf_toNat, UInt64.toNat_add, pageOf_toNat]
  simp only [UInt64.reduceToNat]
  omega

theorem offsetOf_next (a : UInt64) : offsetOf (pageOf a + 4096) = 0 := by
  rw [offsetOf_eq, UInt64.toNat_add, pageOf_toNat]
  simp only [UInt64.reduceToNat]
  omega

theorem add_rest_of_page (a : UInt64) :
    a + UInt64.ofNat (ICACHE_SIZE - offsetOf a) = pageOf a + 4096 := by
  apply UInt64.toNat_inj.mp
  rw [UInt64.toNat_add, UInt64.toNat_add, UInt64.toNat_ofNat', pageOf_toNat, offsetOf_eq,
    ICACHE_SIZE]
  simp only [UInt64.reduceToNat]
  omega

end

theorem codeBytes_append (code : UInt64 → UInt8) (a : UInt64) (m n : ℕ) :
    codeBytes code a (m + n) = codeBytes code a m ++ codeBytes code (a + UInt64.ofNat m) n := by
  simp only [codeBytes, List.range_add, List.map_append, List.map_map]
  congr 1
  refine List.map_congr_left fun k _ => ?_
  rw [comp_apply, add_ofNat_add]

theorem codeBytes_getD {code : UInt64 → UInt8} {a : UInt64} {n k : ℕ} (h : k < n) (d : UInt8) :
    (codeBytes code a n).getD k d = code (a + UInt64.ofNat k) := by
  simp [codeBytes, List.getD, h]

/-! ## What the reader knows -/

/-- The reader has the byte of an address as it is in the code memory. -/
def Knows (code : UInt64 → UInt8) (icache : UInt64 → Option (ℕ → UInt8)) (x : UInt64) : Prop :=
  (icache (pageOf x)).map (fun page => page (offsetOf x)) = some (code x)

section

variable {code : UInt64 → UInt8} {icache : UInt64 → Option (ℕ → UInt8)} {a x : UInt64}

theorem Knows.page (h : Knows code icache x) :
    ∃ page, icache (pageOf x) = some page ∧ page (offsetOf x) = code x :=
  map_eq_some_iff.mp h

def codePage (code : UInt64 → UInt8) (base : UInt64) : ℕ → UInt8 := fun k =>
  (codeBytes code base ICACHE_SIZE).getD k 0

theorem knows_of_page {base : UInt64} (h : pageOf x = base ∨ Knows code icache x) :
    Knows code (update icache base (some (codePage code base))) x := by
  unfold Knows
  by_cases hpage : pageOf x = base
  · subst hpage
    rw [update_self, map_some, codePage, codeBytes_getD (offsetOf_lt x),
      pageOf_add_offsetOf]
  · rw [update_of_ne hpage]
    exact h.resolve_left hpage

theorem knows_of_writePage (fresh : ℕ → UInt8) {n : ℕ} (hn : offsetOf a + n ≤ ICACHE_SIZE)
    (h : (∃ k < n, x = a + UInt64.ofNat k) ∨ Knows code icache x) :
    Knows code (update icache (pageOf a) (some
      (Reader.writePage ((icache (pageOf a)).getD fresh) (offsetOf a) (codeBytes code a n)))) x := by
  unfold Knows
  rcases h with ⟨k, hk, rfl⟩ | hknown
  · have hoff : offsetOf a + k < ICACHE_SIZE := by omega
    rw [pageOf_add hoff, update_self, map_some, offsetOf_add hoff,
      Reader.writePage, if_pos (by omega), Nat.add_sub_cancel_left, codeBytes_getD hk]
  · by_cases hpage : pageOf x = pageOf a
    · obtain ⟨page, hold, hbyte⟩ := hknown.page
      rw [hpage, update_self, map_some, ← hpage, hold, getD_some,
        Reader.writePage]
      congr 1
      split
      · rename_i hle
        by_cases hlt : offsetOf x - offsetOf a < n
        · rw [codeBytes_getD hlt, add_offset_sub hpage hle]
        · have hnone : (codeBytes code a n)[offsetOf x - offsetOf a]? = none :=
            List.getElem?_eq_none (by rw [length_codeBytes]; omega)
          rw [List.getD, hnone, getD_none, hbyte]
      · exact hbyte
    · rw [update_of_ne hpage]
      exact hknown

/-! ## The loops over pages -/

theorem codeBytes_split (code : UInt64 → UInt8) (a : UInt64) (size : ℕ) :
    codeBytes code a size = codeBytes code a (min size (ICACHE_SIZE - offsetOf a)) ++
      codeBytes code (pageOf a + 4096) (size - min size (ICACHE_SIZE - offsetOf a)) := by
  rcases le_total size (ICACHE_SIZE - offsetOf a) with hle | hle
  · rw [min_eq_left hle, Nat.sub_self]
    simp [codeBytes]
  · rw [min_eq_right hle, ← add_rest_of_page, ← codeBytes_append, Nat.add_sub_cancel' hle]

/-- **A piece of code is read, and the reader knows its bytes and all it knew before.** -/
theorem readCode_knows (code : UInt64 → UInt8) (fresh : ℕ → UInt8) (rounds : ℕ) (r : Reader)
    (a : UInt64) (left : ℕ) (hrounds : left ≤ rounds) :
    ∃ icache, (∀ rest, (r.readCode fresh rounds a left).run (codeBytes code a left ++ rest) =
        some ({ r with icache }, rest)) ∧
      ∀ x, ((∃ k < left, x = a + UInt64.ofNat k) ∨ Knows code r.icache x) → Knows code icache x := by
  induction rounds generalizing r a left with
  | zero =>
    obtain rfl : left = 0 := by omega
    refine ⟨r.icache, fun _ => rfl, fun x hx => hx.resolve_left ?_⟩
    rintro ⟨k, hk, -⟩
    exact absurd hk (not_lt_zero k)
  | succ rounds ih =>
    cases left with
    | zero =>
      refine ⟨r.icache, fun _ => rfl, fun x hx => hx.resolve_left ?_⟩
      rintro ⟨k, hk, -⟩
      exact absurd hk (not_lt_zero k)
    | succ left =>
      have hoff := offsetOf_lt a
      obtain ⟨amount, hamount⟩ : ∃ n, min (left + 1) (ICACHE_SIZE - offsetOf a) = n := ⟨_, rfl⟩
      have hpos : 0 < amount := by omega
      have htake : ∀ rest, (take amount).run (codeBytes code a amount ++ rest) =
          some (codeBytes code a amount, rest) := fun rest => run_take (length_codeBytes ..)
      obtain ⟨icache, hrun, hknows⟩ := ih
        { r with icache := update r.icache (pageOf a) (some (Reader.writePage
          ((r.icache (pageOf a)).getD fresh) (offsetOf a) (codeBytes code a amount))) }
        (pageOf a + 4096) (left + 1 - amount) (by omega)
      refine ⟨icache, fun rest => ?_, fun x hx => hknows x ?_⟩
      · rw [codeBytes_split, hamount, List.append_assoc]
        simp only [Reader.readCode, hamount, StateT.run_bind, htake, bind_eq_bind,
          bind_some]
        exact hrun rest
      · rcases hx with ⟨k, hk, rfl⟩ | hx
        · by_cases hfirst : k < amount
          · exact .inr (knows_of_writePage fresh (by omega) (.inl ⟨k, hfirst, rfl⟩))
          · -- the byte is in the pages that follow
            refine .inl ⟨k - amount, by omega, ?_⟩
            rw [← add_rest_of_page, add_ofNat_add]
            congr 2
            omega
        · exact .inr (knows_of_writePage fresh (by omega) (.inr hx))

/-- **The bytes of an instruction that are known are copied as they are in the code memory.** -/
theorem copyCode_of_knows (r : Reader) (rounds : ℕ) (a : UInt64) (size : ℕ)
    (hrounds : size ≤ rounds) (hknows : ∀ k < size, Knows code r.icache (a + UInt64.ofNat k)) :
    r.copyCode rounds (pageOf a) (offsetOf a) size = some (codeBytes code a size) := by
  induction rounds generalizing a size with
  | zero =>
    obtain rfl : size = 0 := by omega
    rfl
  | succ rounds ih =>
    cases size with
    | zero => rfl
    | succ size =>
      have hoff := offsetOf_lt a
      obtain ⟨amount, hamount⟩ : ∃ n, min (size + 1) (ICACHE_SIZE - offsetOf a) = n := ⟨_, rfl⟩
      have hpos : 0 < amount := by omega
      -- the part in this page
      have hfirst : ∃ page, r.icache (pageOf a) = some page ∧
          (List.range amount).map (fun k => page (offsetOf a + k)) = codeBytes code a amount := by
        obtain ⟨page, hpage, -⟩ := (hknows 0 (by omega)).page
        rw [pageOf_add (by omega)] at hpage
        refine ⟨page, hpage, List.map_congr_left fun k hk => ?_⟩
        have hk : k < amount := List.mem_range.mp hk
        obtain ⟨page', hpage', hbyte⟩ := (hknows k (by omega)).page
        rw [pageOf_add (by omega), hpage] at hpage'
        cases hpage'
        rw [← hbyte, offsetOf_add (by omega)]
      -- the part in the next page, if any
      have hothers : r.copyCode rounds (pageOf a + 4096) 0 (size + 1 - amount) =
          some (codeBytes code (pageOf a + 4096) (size + 1 - amount)) := by
        have hnext := ih (pageOf a + 4096) (size + 1 - amount) (by omega) ?_
        · rwa [pageOf_next, offsetOf_next] at hnext
        · intro k hk
          have := hknows (amount + k) (by omega)
          rwa [← add_ofNat_add, show amount = ICACHE_SIZE - offsetOf a by omega,
            add_rest_of_page] at this
      obtain ⟨page, hpage, hbytes⟩ := hfirst
      rw [codeBytes_split, hamount]
      simp only [Reader.copyCode, hamount, hpage, hothers, hbytes, bind_eq_bind,
        bind_some, Option.pure_def]

end

end MultiCoreMemory.Sift
