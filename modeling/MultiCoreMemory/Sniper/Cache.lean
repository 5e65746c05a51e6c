import MultiCoreMemory.Lib.MaskShift
import MultiCoreMemory.Lib.WriteBack

/-!
# The set-associative cache of the simulator (`cache/cache_base.cc`, `cache_set.cc`, `cache.cc`)

The way a line is inserted in is a parameter, so that every replacement policy is covered.  The data
array exists when fault injection is configured, which is what is modelled.  An operation that
fails an assertion or leaves the array of sets has no result; the owner and the usage bits of a
line, the statistics and all times are left out.
-/

namespace MultiCoreMemory.Sniper

open List Option Function WriteBack

/-! ## Addresses -/

inductive AddressHash where
  | mask
  | mod
  | rng1Mod
  | rng2Mod
  | primeDis
  | xorMod
  | merMod
  deriving DecidableEq, Repr

def rngSeed (seed : ℕ) : ℕ := ((seed <<< 16) + 0x330E) % 2 ^ 64

/-- The state after `rng_next`, whose result is its upper part. -/
def rngNext (state : ℕ) : ℕ := (0x5DEECE66D * state + 0xB) % 2 ^ 48

/-- The parameters of `CacheBase`; `linearAddress` is `m_ahl->getLinearAddress`. -/
structure Geometry where
  numSets : ℕ
  associativity : ℕ
  blocksize : ℕ
  hash : AddressHash := .mask
  linearAddress : ℕ → ℕ := id

namespace Geometry

variable (g : Geometry)

def logBlocksize : ℕ := g.blocksize.log2

def logNumSets : ℕ := g.numSets.log2

def tag (addr : ℕ) : ℕ := addr >>> g.logBlocksize

def setIndex (addr : ℕ) : ℕ :=
  let blockNum := g.linearAddress addr >>> g.logBlocksize
  match g.hash with
  | .mask => blockNum &&& (g.numSets - 1)
  | .mod => blockNum % g.numSets
  | .rng1Mod => (rngNext (rngSeed blockNum) >>> 16) % g.numSets
  | .rng2Mod => (rngNext (rngNext (rngSeed blockNum)) >>> 16) % g.numSets
  | .primeDis => (3 * (blockNum >>> g.logNumSets) + blockNum % g.numSets) % g.numSets
  | .xorMod => (blockNum % g.numSets) ^^^ ((blockNum >>> g.logNumSets) % g.numSets)
  -- with one set the division by zero ends the run; here no set is found
  | .merMod => if g.numSets = 1 then 1 else blockNum % (g.numSets - 1)

/-- The tag and the set index of `splitAddress`; `none` stands for the division by zero. -/
def splitAddress (addr : ℕ) : Option (ℕ × ℕ) :=
  if g.hash = .merMod ∧ g.numSets = 1 then none else some (g.tag addr, g.setIndex addr)

def Accepted : Prop := g.numSets = 1 <<< g.logNumSets ∨ g.hash ≠ .mask

theorem xor_mod_lt (hpow : g.numSets = 1 <<< g.logNumSets) (x y : ℕ) :
    (x % g.numSets) ^^^ (y % g.numSets) < g.numSets := by
  rw [Nat.one_shiftLeft] at hpow
  have hpos : 0 < g.numSets := hpow ▸ Nat.two_pow_pos _
  have hlt := fun z => hpow ▸ Nat.mod_lt z hpos
  exact hpow ▸ Nat.xor_lt_two_pow (hlt x) (hlt y)

/-- The set index of the address is defined and is that of a set. -/
def Inside (addr : ℕ) : Prop := ∃ t i, g.splitAddress addr = some (t, i) ∧ i < g.numSets

/-- **Every hash stays inside the cache** if and only if the exclusive or has a power of two of sets and
the Mersenne hash more than one; the converse where the first `numSets ^ 2` blocks have 64-bit addresses.
(The sum of the prime displacement may leave 64 bits; its index stays below the number of sets.) -/
theorem inside_iff (hsets : 1 ≤ g.numSets) :
    ((g.hash = .xorMod → g.numSets = 1 <<< g.logNumSets) ∧ (g.hash = .merMod → g.numSets ≠ 1) →
      ∀ addr, g.Inside addr) ∧
    ((∀ b < g.numSets ^ 2, ∃ addr < 2 ^ 64, g.linearAddress addr >>> g.logBlocksize = b) →
      (∀ addr < 2 ^ 64, g.Inside addr) →
      (g.hash = .xorMod → g.numSets = 1 <<< g.logNumSets) ∧ (g.hash = .merMod → g.numSets ≠ 1)) := by
  constructor
  · rintro ⟨hxor, hmersenne⟩ addr
    refine ⟨_, _, if_neg fun h => hmersenne h.1 h.2, ?_⟩
    have hmod : ∀ x, x % g.numSets < g.numSets := fun x => Nat.mod_lt x hsets
    rw [setIndex]
    cases hhash : g.hash with
    | mask => exact Nat.lt_of_le_of_lt Nat.and_le_right (by omega)
    | mod | rng1Mod | rng2Mod | primeDis => exact hmod _
    | xorMod => exact g.xor_mod_lt (hxor hhash) _ _
    | merMod =>
      have hne := hmersenne hhash
      simp only [if_neg hne]
      exact (Nat.mod_lt _ (by omega)).trans (by omega)
  · intro hblocks hinside
    constructor
    · intro hhash
      by_contra hpow
      rw [Nat.one_shiftLeft] at hpow
      obtain ⟨b, hb, hle⟩ := MaskShift.exists_le_xor_mod hsets hpow
      obtain ⟨addr, haddr, rfl⟩ := hblocks b hb
      obtain ⟨t, i, hsplit, hi⟩ := hinside addr haddr
      simp only [splitAddress, hhash, reduceCtorEq, false_and, if_false, setIndex, some.injEq,
        Prod.mk.injEq] at hsplit
      obtain ⟨-, rfl⟩ := hsplit
      exact absurd hi (Nat.not_lt.mpr hle)
    · intro hhash hone
      obtain ⟨t, i, hsplit, -⟩ := hinside 0 (by decide)
      rw [splitAddress, if_pos ⟨hhash, hone⟩] at hsplit
      cases hsplit

/-- Four sets are never left, three sets are. -/
theorem inside_iff_four_and_three :
    (∀ addr, Inside ⟨4, 2, 64, .xorMod, id⟩ addr) ∧
      ¬∀ addr < 2 ^ 64, Inside ⟨3, 2, 64, .xorMod, id⟩ addr := by
  refine ⟨(inside_iff ⟨4, 2, 64, .xorMod, id⟩ (by decide)).1 (by decide), fun hinside => ?_⟩
  have hblocks : ∀ b < 3 ^ 2, ∃ addr < 2 ^ 64, id addr >>> logBlocksize ⟨3, 2, 64, .xorMod, id⟩ = b :=
    fun b hb => ⟨b <<< 6, by rw [Nat.shiftLeft_eq]; omega, Nat.shiftLeft_shiftRight b 6⟩
  have hpow := ((inside_iff ⟨3, 2, 64, .xorMod, id⟩ (by decide)).2 hblocks hinside).1 rfl
  exact absurd hpow (by decide)

/-- The constructor accepts three sets for the exclusive or, which sends the fifth block to a fourth
set, and one set for the Mersenne hash, which divides by zero. -/
theorem accepted_hashes_leave_cache :
    (Accepted ⟨3, 2, 64, .xorMod, id⟩ ∧
      splitAddress ⟨3, 2, 64, .xorMod, id⟩ 0x100 = some (4, 3)) ∧
    Accepted ⟨1, 2, 64, .merMod, id⟩ ∧ splitAddress ⟨1, 2, 64, .merMod, id⟩ 0 = none :=
  ⟨⟨.inr (by decide), by decide⟩, .inr (by decide), by decide⟩

def blockOffset (addr : ℕ) : ℕ := addr &&& (g.blocksize - 1)

def tagToAddress (tag : ℕ) : ℕ := tag <<< g.logBlocksize

theorem tagToAddress_injective {t t' : ℕ} (h : g.tagToAddress t = g.tagToAddress t') : t = t' := by
  simp only [tagToAddress, Nat.shiftLeft_eq] at h
  exact Nat.eq_of_mul_eq_mul_right (Nat.two_pow_pos _) h

end Geometry

/-! ## Lines and sets -/

def invalidTag : ℕ := 2 ^ 64 - 1

inductive CState where
  | INVALID
  | SHARED
  | SHARED_UPGRADING
  | EXCLUSIVE
  | OWNED
  | MODIFIED
  deriving DecidableEq, Repr

structure CacheLine (D : Type*) where
  tag : ℕ := invalidTag
  cstate : CState := .INVALID
  prefetch : Bool := false
  data : D
  deriving DecidableEq, Repr

variable {D : Type*}

def CacheLine.isValid (l : CacheLine D) : Bool := l.tag ≠ invalidTag

/-- `CacheSet::find`: the ways are searched from the last to the first. -/
def findWay (tag : ℕ) (set : List (CacheLine D)) : Option ℕ :=
  (List.range set.length).reverse.find? fun way => set[way]?.any fun l => l.tag = tag

def findLine (tag : ℕ) (set : List (CacheLine D)) : Option (CacheLine D) :=
  (findWay tag set).bind fun way => set[way]?

/-- No two valid lines have one tag. -/
def DistinctTags (set : List (CacheLine D)) : Prop :=
  ∀ (w w' : ℕ) (l l' : CacheLine D), set[w]? = some l → set[w']? = some l' → l.tag = l'.tag →
    l.tag ≠ invalidTag → w = w'

theorem findWay_eq_some {tag way : ℕ} {set : List (CacheLine D)} (h : findWay tag set = some way) :
    ∃ l, set[way]? = some l ∧ l.tag = tag := by
  have hany := find?_some h
  obtain ⟨l, hl, htag⟩ := (Option.any_eq_true _ _).mp hany
  exact ⟨l, hl, of_decide_eq_true htag⟩

theorem findWay_eq_none {tag : ℕ} {set : List (CacheLine D)} (h : findWay tag set = none)
    {way : ℕ} {l : CacheLine D} (hl : set[way]? = some l) : l.tag ≠ tag := by
  intro htag
  obtain ⟨hlt, -⟩ := List.getElem?_eq_some_iff.mp hl
  have hnone := List.find?_eq_none.mp h way (by simpa using hlt)
  simp [hl, htag] at hnone

theorem findWay_modify {f : CacheLine D → CacheLine D} (hf : ∀ l, (f l).tag = l.tag) (tag way : ℕ)
    (set : List (CacheLine D)) : findWay tag (set.modify way f) = findWay tag set := by
  unfold findWay
  rw [length_modify]
  congr 1
  funext w
  rw [getElem?_modify]
  cases set[w]? with
  | none => rfl
  | some l => by_cases hw : way = w <;> simp [hw, hf]

section

variable {ways : List (CacheLine D)} {t way : ℕ} {l old new : CacheLine D}

variable (hd : DistinctTags ways)
include hd

theorem findWay_of_getElem? (hl : ways[way]? = some l) (ht : l.tag = t) (hvalid : t ≠ invalidTag) :
    findWay t ways = some way := by
  cases hfind : findWay t ways with
  | none => exact absurd ht (findWay_eq_none hfind hl)
  | some w =>
    obtain ⟨l', hl', ht'⟩ := findWay_eq_some hfind
    rw [hd w way l' l hl' hl (ht'.trans ht.symm) (ht' ▸ hvalid)]

theorem findLine_eq_some_iff (hvalid : t ≠ invalidTag) :
    findLine t ways = some l ↔ ∃ w : ℕ, ways[w]? = some l ∧ l.tag = t := by
  constructor
  · intro h
    obtain ⟨w, hw, hl⟩ := bind_eq_some_iff.mp h
    obtain ⟨l', hl', ht⟩ := findWay_eq_some hw
    cases hl.symm.trans hl'
    exact ⟨w, hl, ht⟩
  · rintro ⟨w, hl, ht⟩
    rw [findLine, findWay_of_getElem? hd hl ht hvalid, bind_some, hl]

theorem DistinctTags.set (hnew : ∀ (w : ℕ) l, ways[w]? = some l → l.tag = new.tag → w = way) :
    DistinctTags (ways.set way new) := by
  intro w w' l l' hl hl' heq hvalid
  rw [getElem?_set] at hl hl'
  split at hl <;> split at hl'
  · omega
  · split at hl <;> cases hl
    rename_i hw _ _
    rw [hnew w' l' hl' heq.symm, hw]
  · split at hl' <;> cases hl'
    rename_i hw _
    rw [hnew w l hl heq, hw]
  · exact hd w w' l l' hl hl' heq hvalid

theorem findLine_set (hold : ways[way]? = some old)
    (hnew : ∀ (w : ℕ) l, ways[w]? = some l → l.tag = new.tag → w = way) (hvalid : t ≠ invalidTag) :
    findLine t (ways.set way new) =
      if t = new.tag then some new else if t = old.tag then none else findLine t ways := by
  obtain ⟨hlt, -⟩ := List.getElem?_eq_some_iff.mp hold
  have hd' := hd.set hnew
  split
  · rename_i ht
    refine (findLine_eq_some_iff hd' hvalid).mpr ⟨way, ?_, ht.symm⟩
    rw [getElem?_set_self hlt]
  · rename_i hne
    split
    · rename_i hold'
      refine eq_none_iff_forall_ne_some.mpr fun l hl => ?_
      obtain ⟨w, hw, ht⟩ := (findLine_eq_some_iff hd' hvalid).mp hl
      by_cases hway : way = w
      · subst hway
        rw [getElem?_set_self hlt] at hw
        cases hw
        exact hne ht.symm
      · rw [getElem?_set_ne hway] at hw
        exact hway (hd way w old l hold hw (by rw [← hold', ht]) (hold' ▸ hvalid))
    · rename_i hold'
      ext l
      rw [findLine_eq_some_iff hd' hvalid, findLine_eq_some_iff hd hvalid]
      refine exists_congr fun w => and_congr_left fun ht => ?_
      by_cases hway : way = w
      · subst hway
        rw [getElem?_set_self hlt, hold]
        simp only [some.injEq]
        constructor
        · rintro rfl
          exact absurd ht.symm hne
        · rintro rfl
          exact absurd ht.symm hold'
      · rw [getElem?_set_ne hway]

end

/-! ## The cache -/

structure Cache (D : Type*) where
  sets : ℕ → List (CacheLine D)

namespace Cache

variable (g : Geometry)

def create (zero : D) : Cache D where
  sets := fun _ => List.replicate g.associativity { data := zero }

variable (c : Cache D) (addr : ℕ)

def setOf : Option (List (CacheLine D)) :=
  if g.setIndex addr < g.numSets then some (c.sets (g.setIndex addr)) else none

def peekSingleLine : Option (Option (CacheLine D)) :=
  (c.setOf g addr).map (findLine (g.tag addr))

def modifyLine (f : CacheLine D → CacheLine D) : Cache D where
  sets := update c.sets (g.setIndex addr)
    (match findWay (g.tag addr) (c.sets (g.setIndex addr)) with
    | some way => (c.sets (g.setIndex addr)).modify way f
    | none => c.sets (g.setIndex addr))

/-- The assertion of `read_line` and `write_line`, which are asked for a whole block. -/
def wholeBlock : Bool := g.blockOffset addr + g.blocksize ≤ g.blocksize

def loadSingleLine : Option D :=
  if wholeBlock g addr then
    (findLine (g.tag addr) (c.sets (g.setIndex addr))).map CacheLine.data
  else none

def storeSingleLine (data : D) : Option (Cache D) :=
  if wholeBlock g addr then some (c.modifyLine g addr fun l => { l with data }) else none

/-- `insertSingleLine` into the way that `getReplacementIndex` chose: the cache, and the line that
was evicted with its data.  The assertion is `index < m_associativity`. -/
def insertSingleLine (data : D) (way : ℕ) :
    Option (Cache D × Option (CacheLine D)) := do
  let set ← c.setOf g addr
  let old ← set[way]?
  return (⟨update c.sets (g.setIndex addr) (set.set way { tag := g.tag addr, data })⟩,
    if old.isValid then some old else none)

def evictee (way : ℕ) : Option (CacheLine D) :=
  (c.setOf g addr).bind fun set => set[way]?.filter CacheLine.isValid

def held (tag : ℕ) : Option (CacheLine D) :=
  if tag = invalidTag then none else findLine tag (c.sets (g.setIndex (g.tagToAddress tag)))

structure Wf (c : Cache D) : Prop where
  size : ∀ i, (c.sets i).length = g.associativity
  distinct : ∀ i, DistinctTags (c.sets i)
  home : ∀ (i w : ℕ) l, (c.sets i)[w]? = some l → l.tag ≠ invalidTag →
    g.setIndex (g.tagToAddress l.tag) = i

/-- The address of a line: the first byte of a block that has a set, and whose tag does not mean
invalid. -/
structure IsLine (addr : ℕ) : Prop where
  aligned : g.tagToAddress (g.tag addr) = addr
  valid : g.tag addr ≠ invalidTag
  indexed : g.setIndex addr < g.numSets
  whole : wholeBlock g addr

theorem isLine_iff {g : Geometry} {addr : ℕ} : IsLine g addr ↔
    g.tagToAddress (g.tag addr) = addr ∧ g.tag addr ≠ invalidTag ∧
      g.setIndex addr < g.numSets ∧ wholeBlock g addr :=
  ⟨fun h => ⟨h.1, h.2, h.3, h.4⟩, fun h => ⟨h.1, h.2.1, h.2.2.1, h.2.2.2⟩⟩

instance (addr : ℕ) : Decidable (IsLine g addr) := decidable_of_iff _ isLine_iff.symm

variable {g} {c c' : Cache D} {addr way : ℕ} {data : D} {evicted : Option (CacheLine D)}

theorem Wf.create (g : Geometry) (zero : D) : Wf g (create g zero) where
  size := fun i => length_replicate
  distinct := by
    intro i w w' l l' hl _ _ hvalid
    obtain rfl := eq_of_mem_replicate (mem_of_getElem? hl)
    exact absurd rfl hvalid
  home := by
    intro i w l hl hvalid
    obtain rfl := eq_of_mem_replicate (mem_of_getElem? hl)
    exact absurd rfl hvalid

theorem held_create (g : Geometry) (zero : D) (t : ℕ) : (Cache.create g zero).held g t = none := by
  unfold held
  split
  · rfl
  · rename_i ht
    refine eq_none_iff_forall_ne_some.mpr fun l hl => ?_
    obtain ⟨w, hw, htag⟩ := (findLine_eq_some_iff ((Wf.create g zero).distinct _) ht).mp hl
    obtain rfl := eq_of_mem_replicate (mem_of_getElem? hw)
    exact ht htag.symm

variable (haddr : IsLine g addr)

include haddr

theorem findLine_eq_held :
    findLine (g.tag addr) (c.sets (g.setIndex addr)) = c.held g (g.tag addr) := by
  rw [held, if_neg haddr.valid, haddr.aligned]

theorem peekSingleLine_eq_held : c.peekSingleLine g addr = some (c.held g (g.tag addr)) := by
  rw [peekSingleLine, setOf, if_pos haddr.indexed, map_some, findLine_eq_held haddr]

theorem loadSingleLine_eq_held :
    c.loadSingleLine g addr = (c.held g (g.tag addr)).map CacheLine.data := by
  rw [loadSingleLine, if_pos haddr.whole, findLine_eq_held haddr]

theorem storeSingleLine_eq_modifyLine :
    c.storeSingleLine g addr data = some (c.modifyLine g addr fun l => { l with data }) :=
  if_pos haddr.whole

variable {t : ℕ} {l : CacheLine D} {f : CacheLine D → CacheLine D}

omit haddr in
theorem held_eq_some_iff (hwf : Wf g c) :
    c.held g t = some l ↔ t ≠ invalidTag ∧ l.tag = t ∧ ∃ i w : ℕ, (c.sets i)[w]? = some l := by
  unfold held
  split
  · rename_i ht
    simp [ht]
  · rename_i ht
    rw [findLine_eq_some_iff (hwf.distinct _) ht]
    constructor
    · rintro ⟨w, hl, htag⟩
      exact ⟨ht, htag, _, w, hl⟩
    · rintro ⟨-, htag, i, w, hl⟩
      have hi := hwf.home i w l hl (htag ▸ ht)
      rw [htag] at hi
      exact ⟨w, hi ▸ hl, htag⟩

theorem Wf.setLine (hwf : Wf g c) {old new : CacheLine D}
    (hold : (c.sets (g.setIndex addr))[way]? = some old) (htag : new.tag = g.tag addr)
    (hnew : ∀ (w : ℕ) l, (c.sets (g.setIndex addr))[w]? = some l → l.tag = g.tag addr → w = way)
    (hc' : c'.sets = update c.sets (g.setIndex addr) ((c.sets (g.setIndex addr)).set way new)) :
    Wf g c' ∧ ∀ t, c'.held g t =
      if t = g.tag addr then some new else if t = old.tag then none else c.held g t := by
  have hwf' : Wf g c' := by
    refine ⟨fun i => ?_, fun i => ?_, fun i w l hl hvalid => ?_⟩
    · rw [hc']
      by_cases hi : i = g.setIndex addr
      · rw [hi, update_self, length_set, hwf.size]
      · rw [update_of_ne hi, hwf.size]
    · rw [hc']
      by_cases hi : i = g.setIndex addr
      · subst hi
        rw [update_self]
        exact (hwf.distinct _).set (by rw [htag]; exact hnew)
      · rw [update_of_ne hi]
        exact hwf.distinct i
    · rw [hc'] at hl
      by_cases hi : i = g.setIndex addr
      · subst hi
        rw [update_self, getElem?_set] at hl
        split at hl
        · split at hl <;> cases hl
          rw [htag, haddr.aligned]
        · exact hwf.home _ w l hl hvalid
      · rw [update_of_ne hi] at hl
        exact hwf.home i w l hl hvalid
  refine ⟨hwf', fun t => ?_⟩
  by_cases ht : t = invalidTag
  · subst ht
    simp [held, haddr.valid.symm]
  by_cases hi : g.setIndex (g.tagToAddress t) = g.setIndex addr
  · unfold held
    rw [if_neg ht, if_neg ht, hc', hi, update_self,
      findLine_set (hwf.distinct _) hold (by rw [htag]; exact hnew) ht, htag]
  · -- another set: neither line was there
    have hne : t ≠ g.tag addr := by
      rintro rfl
      exact hi (by rw [haddr.aligned])
    rw [if_neg hne]
    have hsame : c'.held g t = c.held g t := by
      unfold held
      rw [if_neg ht, if_neg ht, hc', update_of_ne hi]
    rw [hsame]
    split
    · rename_i htold
      exact absurd (htold ▸ hwf.home _ way old hold (htold ▸ ht)) hi
    · rfl

omit haddr in
theorem modifyLine_modifyLine (c : Cache D) (addr : ℕ) (hf : ∀ l, (f l).tag = l.tag)
    (f' : CacheLine D → CacheLine D) :
    (c.modifyLine g addr f).modifyLine g addr f' = c.modifyLine g addr (f' ∘ f) := by
  simp only [Cache.modifyLine, update_self, update_idem]
  cases h : findWay (g.tag addr) (c.sets (g.setIndex addr)) with
  | none => simp only [h]
  | some way => simp only [findWay_modify hf, h, modify_modify_eq]

theorem Wf.modifyLine (hwf : Wf g c) (hl : c.held g (g.tag addr) = some l) (hf : (f l).tag = l.tag) :
    Wf g (c.modifyLine g addr f) ∧ ∀ t, (c.modifyLine g addr f).held g t =
      if t = g.tag addr then some (f l) else c.held g t := by
  rw [← findLine_eq_held haddr] at hl
  obtain ⟨way, hway, hget⟩ := bind_eq_some_iff.mp hl
  obtain ⟨l', hl', htag⟩ := findWay_eq_some hway
  cases hget.symm.trans hl'
  have hsets : (c.modifyLine g addr f).sets = update c.sets (g.setIndex addr)
      ((c.sets (g.setIndex addr)).set way (f l)) := by
    simp only [Cache.modifyLine, hway, modify_eq_set_getElem?, hget, Option.map_eq_map,
      map_some, getD_some]
  obtain ⟨hwf', hheld⟩ := hwf.setLine haddr hget (hf.trans htag)
    (fun w l' hl' ht => hwf.distinct _ w way l' l hl' hget (ht.trans htag.symm) (ht ▸ haddr.valid)) hsets
  refine ⟨hwf', fun t => (hheld t).trans ?_⟩
  rw [htag]
  split <;> rfl

omit haddr in
theorem evicted_eq_evictee (h : c.insertSingleLine g addr data way = some (c', evicted)) :
    evicted = c.evictee g addr way := by
  simp only [Cache.insertSingleLine, bind_eq_bind, bind_eq_some_iff] at h
  obtain ⟨set, hset, old, hold, heq⟩ := h
  obtain ⟨-, rfl⟩ := Prod.mk.inj (some.inj heq)
  rw [evictee, hset, bind_some, hold, filter_some]

theorem Wf.insertSingleLine_isSome (hwf : Wf g c) (hway : way < g.associativity) (data : D) :
    (c.insertSingleLine g addr data way).isSome := by
  rw [Cache.insertSingleLine, setOf, if_pos haddr.indexed, bind_eq_bind, bind_some,
    getElem?_eq_getElem (by rw [hwf.size]; exact hway)]
  rfl

theorem Wf.insertSingleLine (hwf : Wf g c) (habsent : c.held g (g.tag addr) = none)
    (h : c.insertSingleLine g addr data way = some (c', evicted)) :
    Wf g c' ∧ (∀ l ∈ evicted, c.held g l.tag = some l ∧ l.tag ≠ g.tag addr) ∧
      ∀ t, c'.held g t = if t = g.tag addr then some { tag := g.tag addr, data }
        else if ∃ l ∈ evicted, l.tag = t then none else c.held g t := by
  rw [Cache.insertSingleLine, setOf, if_pos haddr.indexed, bind_eq_bind,
    bind_some] at h
  obtain ⟨old, hold, heq⟩ := bind_eq_some_iff.mp h
  obtain ⟨rfl, rfl⟩ := Prod.mk.inj (some.inj heq)
  have hnone : ∀ (w : ℕ) l, (c.sets (g.setIndex addr))[w]? = some l → l.tag ≠ g.tag addr := by
    intro w l hl ht
    have := (held_eq_some_iff hwf).mpr ⟨haddr.valid, ht, _, w, hl⟩
    rw [habsent] at this
    cases this
  refine (hwf.setLine haddr hold rfl (fun w l hl ht => absurd ht (hnone w l hl)) rfl).imp_right
    fun hheld => ⟨?_, fun t => (hheld t).trans ?_⟩
  · intro l hl
    split at hl
    · rename_i hvalid
      cases hl
      exact ⟨(held_eq_some_iff hwf).mpr ⟨of_decide_eq_true hvalid, rfl, _, way, hold⟩, hnone way _ hold⟩
    · cases hl
  · congr 1
    by_cases hvalid : old.isValid
    · simp [hvalid, eq_comm]
    · -- an invalid line had no tag
      have hinvalid : old.tag = invalidTag := by simpa [CacheLine.isValid] using hvalid
      simp only [hvalid, Bool.false_eq_true, if_false, mem_def, reduceCtorEq, false_and,
        exists_false]
      split
      · rename_i ht
        simp [held, ht, hinvalid]
      · rfl

/-! ## The cache as copies above a memory -/

/-- The data of the lines that are present, and of the memory, by tag. -/
def overlay (g : Geometry) (c : Cache D) (memory : ℕ → D) : WriteBack ℕ D where
  held := fun t => (c.held g t).map CacheLine.data
  mem := fun t => memory (g.tagToAddress t)

def writeBack (g : Geometry) (memory : ℕ → D) (evicted : Option (CacheLine D)) (back : Option D) :
    ℕ → D :=
  match evicted, back with
  | some l, some d => update memory (g.tagToAddress l.tag) d
  | _, _ => memory

variable {memory : ℕ → D}

omit haddr in
theorem view_of_held (h : c.held g t = some l) : (c.overlay g memory).view t = l.data := by
  simp [overlay, view, h]

omit haddr in
theorem view_of_absent (h : c.held g t = none) :
    (c.overlay g memory).view t = memory (g.tagToAddress t) := by
  simp [overlay, view, h]

omit haddr in
theorem writeBack_of_ne (g : Geometry) (memory : ℕ → D) (h : ∀ l ∈ evicted, l.tag ≠ t)
    (back : Option D) :
    writeBack g memory evicted back (g.tagToAddress t) = memory (g.tagToAddress t) := by
  rcases evicted with _ | l <;> rcases back with _ | d
  · rfl
  · rfl
  · rfl
  · exact update_of_ne (fun heq => h l rfl (g.tagToAddress_injective heq).symm) ..

theorem Wf.view_modifyLine (hwf : Wf g c) (hl : c.held g (g.tag addr) = some l)
    (hf : (f l).tag = l.tag) :
    ((c.modifyLine g addr f).overlay g memory).view =
      update (c.overlay g memory).view (g.tag addr) (f l).data := by
  have hput : (c.modifyLine g addr f).overlay g memory =
      (c.overlay g memory).put (g.tag addr) (f l).data := by
    simp only [overlay, WriteBack.put, WriteBack.mk.injEq, and_true]
    funext t
    rw [(hwf.modifyLine haddr hl hf).2, update_apply]
    split <;> rfl
  rw [hput, view_put]

theorem Wf.overlay_insertSingleLine (hwf : Wf g c) (habsent : c.held g (g.tag addr) = none)
    (h : c.insertSingleLine g addr data way = some (c', evicted)) (back : Option D) :
    c'.overlay g (writeBack g memory evicted back) =
      (evicted.elim (c.overlay g memory) fun l => (c.overlay g memory).drop l.tag back).put
        (g.tag addr) data := by
  obtain ⟨-, -, hheld⟩ := hwf.insertSingleLine haddr habsent h
  cases evicted with
  | none =>
    simp only [overlay, WriteBack.put, elim_none, WriteBack.mk.injEq]
    refine ⟨funext fun t => ?_, ?_⟩
    · rw [hheld, update_apply]
      split <;> simp
    · cases back <;> rfl
  | some l =>
    simp only [overlay, WriteBack.put, WriteBack.drop, elim_some, WriteBack.mk.injEq]
    refine ⟨funext fun t => ?_, ?_⟩
    · rw [hheld, update_apply, update_apply]
      split
      · rfl
      · simp only [mem_def, some.injEq, exists_eq_left', eq_comm]
        split <;> rfl
    · cases back with
      | none => rfl
      | some d =>
        funext t
        simp only [writeBack, update_apply]
        exact if_congr ⟨g.tagToAddress_injective, congrArg _⟩ rfl rfl

/-- **An insertion changes only what a reader sees of the line that comes in, if the memory is left
with the value of the one that goes.** -/
theorem Wf.view_insertSingleLine (hwf : Wf g c) (habsent : c.held g (g.tag addr) = none)
    (h : c.insertSingleLine g addr data way = some (c', evicted)) {back : Option D}
    (hback : ∀ l ∈ evicted, back.getD (memory (g.tagToAddress l.tag)) = l.data) :
    (c'.overlay g (writeBack g memory evicted back)).view =
      update (c.overlay g memory).view (g.tag addr) data := by
  rw [hwf.overlay_insertSingleLine haddr habsent h, view_put]
  congr 1
  obtain ⟨-, hevicted, -⟩ := hwf.insertSingleLine haddr habsent h
  cases evicted with
  | none => rfl
  | some l =>
    refine (view_drop_iff ?_ back).mpr (hback l rfl)
    simp [overlay, (hevicted l rfl).1]

theorem lastPut_put {view : ℕ → D} {start : ℕ → D} {log : List (Transfer ℕ D)}
    (hview : ∀ t, view t = lastPut start log (g.tagToAddress t)) (t : ℕ) :
    update view (g.tag addr) data t =
      lastPut start (.put addr data :: log) (g.tagToAddress t) := by
  rw [update_apply, hview, lastPut]
  refine if_congr ⟨?_, fun ht => ?_⟩ rfl rfl
  · rintro rfl
    exact haddr.aligned
  · exact g.tagToAddress_injective (ht.trans haddr.aligned.symm)

end Cache

end MultiCoreMemory.Sniper
