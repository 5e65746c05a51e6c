import MultiCoreMemory.Sniper.CacheSetLRU

/-!
# Two levels of TLB (`parametric_dram_directory_msi/tlb.cc`)

The next level is a victim cache: a page that the first level evicts is inserted there, whether or not it
is there already.  A hit in the next level does not take the page out of it.
-/

namespace MultiCoreMemory.Sniper

open Option Function

structure TLB where
  numSets : ℕ
  associativity : ℕ
  sets : ℕ → CacheSetLRU Unit
  numSets_pos : 0 < numSets

namespace TLB

section

variable (t next : TLB) (addr : ℕ)

def geometry : Geometry := { numSets := t.numSets, associativity := t.associativity, blocksize := 4096 }

def cache : Cache Unit := ⟨fun i => (t.sets i).lines⟩

def setOf : CacheSetLRU Unit := t.sets (t.geometry.setIndex addr)

def updateSet (set : CacheSetLRU Unit) : TLB :=
  { t with sets := Function.update t.sets (t.geometry.setIndex addr) set }

def accessSingleLine : Option (Bool × TLB) :=
  ((t.setOf addr).accessLine (t.geometry.tag addr) true).map fun (used, set) =>
    (used.isSome, t.updateSet addr set)

/-- `insertSingleLine`, with `evict_addr` if there is an eviction. -/
def insertSingleLine : Option (TLB × Option ℕ) :=
  ((t.setOf addr).insert { tag := t.geometry.tag addr, data := () }).map fun (way, set) =>
    (t.updateSet addr set,
      ((t.setOf addr).lines[way]?.filter CacheLine.isValid).map fun l => t.geometry.tagToAddress l.tag)

def allocate : Option (TLB × TLB) :=
  (t.insertSingleLine addr).bind fun r =>
    match r.2 with
    | none => some (r.1, next)
    | some evictAddr => (next.insertSingleLine evictAddr).map fun r' => (r.1, r'.1)

def lookup : Option (Bool × TLB × TLB) :=
  (t.accessSingleLine addr).bind fun r =>
    if r.1 then some (true, r.2, next)
    else (next.accessSingleLine addr).bind fun r' =>
      (r.2.allocate r'.2 addr).map fun levels => (r'.1, levels)

def holds : Bool := (findWay (t.geometry.tag addr) (t.cache.sets (t.geometry.setIndex addr))).isSome

def Unique : Prop :=
  ∀ (i j w w' : ℕ) l l', (t.sets i).lines[w]? = some l → (t.sets j).lines[w']? = some l' →
    l.isValid → l.tag = l'.tag → i = j ∧ w = w'

end

def create (numSets associativity : ℕ) (h : 0 < numSets) : TLB :=
  ⟨numSets, associativity, fun _ => .create associativity (), h⟩

def machine (first next : TLB) : Machine (TLB × TLB) UInt64 where
  init := (first, next)
  step := fun s addr => (s.1.lookup s.2 addr.toNat).map Prod.snd

/-- A page that the first level evicts is not in the next one. -/
def EvictsNew (s : TLB × TLB) (addr : UInt64) : Prop :=
  s.1.holds addr.toNat = false → ∀ r ∈ s.1.insertSingleLine addr.toNat, ∀ evictAddr ∈ r.2,
    s.2.holds evictAddr = false
  deriving Decidable

abbrev Wf (t : TLB) : Prop := t.cache.Wf t.geometry

variable {t t' next : TLB} {addr : ℕ}

@[simp] theorem logBlocksize_eq (t : TLB) : t.geometry.logBlocksize = 12 := by
  simp [Geometry.logBlocksize, geometry, Nat.log2_def]

@[simp] theorem tag_eq (t : TLB) (addr : ℕ) : t.geometry.tag addr = addr >>> 12 := by
  simp [Geometry.tag]

@[simp] theorem setIndex_eq (t : TLB) (addr : ℕ) :
    t.geometry.setIndex addr = addr >>> 12 &&& (t.numSets - 1) := by
  show addr >>> t.geometry.logBlocksize &&& (t.numSets - 1) = _
  rw [logBlocksize_eq]

theorem isLine_page (t : TLB) {page : ℕ} (hvalid : page ≠ invalidTag) :
    Cache.IsLine t.geometry (page <<< 12) where
  aligned := by simp [Geometry.tagToAddress, Nat.shiftLeft_shiftRight]
  valid := by simpa [Nat.shiftLeft_shiftRight] using hvalid
  indexed := by
    have hle : page &&& (t.numSets - 1) ≤ t.numSets - 1 := Nat.and_le_right
    have hpos := t.numSets_pos
    rw [setIndex_eq, Nat.shiftLeft_shiftRight]
    exact hle.trans_lt (Nat.sub_one_lt hpos.ne')
  whole := by
    have hoffset : page <<< 12 &&& 4095 = 0 := by
      rw [Nat.and_two_pow_sub_one_eq_mod _ 12, Nat.shiftLeft_eq, Nat.mul_mod_left]
    simp [Cache.wholeBlock, Geometry.blockOffset, geometry, hoffset]

theorem cache_updateSet (t : TLB) (addr : ℕ) (set : CacheSetLRU Unit) : (t.updateSet addr set).cache.sets =
    Function.update t.cache.sets (t.geometry.setIndex addr) set.lines :=
  funext fun i => apply_update (fun _ s => s.lines) t.sets _ set i

theorem accessSingleLine_spec {hit : Bool} (h : t.accessSingleLine addr = some (hit, t')) :
    t'.cache = t.cache ∧ t'.geometry = t.geometry ∧ hit = t.holds addr ∧ (hit = false → t' = t) := by
  obtain ⟨⟨used, set⟩, haccess, heq⟩ := map_eq_some_iff.mp h
  cases heq
  have hset : set.lines = (t.setOf addr).lines ∧ used.isSome = t.holds addr ∧
      (used = none → set = t.setOf addr) := by
    unfold CacheSetLRU.accessLine at haccess
    unfold holds
    split at haccess
    · rename_i way hfind
      obtain ⟨set', hupdate, heq⟩ := map_eq_some_iff.mp haccess
      cases heq
      unfold CacheSetLRU.updateReplacementIndex at hupdate
      dsimp only at hupdate
      split at hupdate
      · cases hupdate
        refine ⟨rfl, (congrArg isSome hfind).symm, by simp⟩
      · cases hupdate
    · rename_i hfind
      cases haccess
      exact ⟨rfl, (congrArg isSome hfind).symm, fun _ => rfl⟩
  obtain ⟨hlines, hhit, hmiss⟩ := hset
  refine ⟨?_, rfl, hhit, fun hnone => ?_⟩
  · rw [Cache.mk.injEq, cache_updateSet, hlines]
    exact update_eq_self _ _
  · rw [hmiss (by simpa using hnone), updateSet, setOf, update_eq_self]

/-- **An insertion of a page that is not there** keeps the level in order. -/
theorem Wf.insertSingleLine {evicted : Option ℕ} (hwf : t.Wf) (hvalid : addr >>> 12 ≠ invalidTag)
    (habsent : t.holds addr = false) (h : t.insertSingleLine addr = some (t', evicted)) :
    t'.Wf ∧ ∀ evictAddr ∈ evicted, evictAddr >>> 12 ≠ invalidTag := by
  obtain ⟨⟨way, set⟩, hinsert, heq⟩ := map_eq_some_iff.mp h
  cases heq
  obtain ⟨⟨index, s₁⟩, hindex, heq⟩ := map_eq_some_iff.mp hinsert
  obtain ⟨hlt, rfl⟩ := CacheSetLRU.getReplacementIndex_eq_some hindex
  cases heq
  constructor
  · have hpage : t.geometry.setIndex ((addr >>> 12) <<< 12) = t.geometry.setIndex addr := by
      simp [Nat.shiftLeft_shiftRight]
    have hnone : findWay (addr >>> 12) (t.cache.sets (t.geometry.setIndex addr)) = none := by
      simpa [holds] using habsent
    have hold : (t.cache.sets (t.geometry.setIndex ((addr >>> 12) <<< 12)))[way]? =
        some ((t.setOf addr).lines[way]) := hpage.symm ▸ List.getElem?_eq_getElem hlt
    have htag : ({ tag := addr >>> 12, data := () } : CacheLine Unit).tag =
        t.geometry.tag ((addr >>> 12) <<< 12) := by simp [Nat.shiftLeft_shiftRight]
    refine (hwf.setLine (t.isLine_page hvalid) hold htag ?_ ?_).1
    · intro w l hl htag
      rw [hpage] at hl
      exact absurd (htag.trans (by simp [Nat.shiftLeft_shiftRight])) (findWay_eq_none hnone hl)
    · rw [cache_updateSet, hpage]
      simp [CacheSetLRU.moveToMRU, setOf, cache]
  · intro evictAddr hevict
    obtain ⟨line, hline, rfl⟩ := map_eq_some_iff.mp hevict
    have hlinevalid := (filter_eq_some_iff.mp hline).2
    simpa [Geometry.tagToAddress, CacheLine.isValid, Nat.shiftLeft_shiftRight] using hlinevalid

/-- **A lookup keeps both levels in order**, the next one if it gets no page that it has. -/
theorem Wf.lookup {hit : Bool} {levels : TLB × TLB} (hwf : t.Wf) (hvalid : addr >>> 12 ≠ invalidTag)
    (hlookup : t.lookup next addr = some (hit, levels)) : levels.1.Wf ∧
      (next.Wf → (t.holds addr = false → ∀ r ∈ t.insertSingleLine addr, ∀ evictAddr ∈ r.2,
        next.holds evictAddr = false) → levels.2.Wf) := by
  obtain ⟨⟨hit₁, t₁⟩, haccess, hrest⟩ := bind_eq_some_iff.mp hlookup
  obtain ⟨hcache, hgeometry, rfl, hsame⟩ := accessSingleLine_spec haccess
  dsimp only at hrest
  split at hrest
  · cases hrest
    exact ⟨by rwa [Wf, hcache, hgeometry], fun hnext _ => hnext⟩
  · rename_i hmiss
    have habsent : t.holds addr = false := by simpa using hmiss
    obtain rfl := hsame habsent
    obtain ⟨⟨hit₂, next₁⟩, haccess₂, hrest⟩ := bind_eq_some_iff.mp hrest
    obtain ⟨hcache₂, hgeometry₂, -, -⟩ := accessSingleLine_spec haccess₂
    obtain ⟨levels', halloc, heq⟩ := map_eq_some_iff.mp hrest
    cases heq
    obtain ⟨⟨t₂, evicted⟩, hinsert, hrest⟩ := bind_eq_some_iff.mp halloc
    obtain ⟨hwf₂, hevicted⟩ := hwf.insertSingleLine hvalid habsent hinsert
    have hnext₁ : next.Wf → next₁.Wf := fun hnext => by rwa [Wf, hcache₂, hgeometry₂]
    cases evicted with
    | none =>
      cases hrest
      exact ⟨hwf₂, fun hnext _ => hnext₁ hnext⟩
    | some evictAddr =>
      obtain ⟨⟨next₂, evicted₂⟩, hinsert₂, heq⟩ := map_eq_some_iff.mp hrest
      cases heq
      refine ⟨hwf₂, fun hnext hnew => ((hnext₁ hnext).insertSingleLine (hevicted _ rfl) ?_ hinsert₂).1⟩
      have hholds := hnew habsent _ hinsert evictAddr rfl
      rwa [holds, ← hcache₂, ← hgeometry₂] at hholds

theorem Wf.unique (h : t.Wf) : t.Unique := by
  intro i j w w' l l' hl hl' hvalid htag
  have hvalid : l.tag ≠ invalidTag := by simpa [CacheLine.isValid] using hvalid
  have hi := h.home i w l hl hvalid
  have hj := h.home j w' l' hl' (htag ▸ hvalid)
  obtain rfl : i = j := by rw [← hi, ← hj, htag]
  exact ⟨rfl, h.distinct i w w' l l' hl hl' htag hvalid⟩

/-- **No page is twice in the first level**, and none in the next one as long as no page is evicted to it
that it has. -/
theorem tlb_holds_pages_once (numSets associativity numSets' associativity' : ℕ) (h : 0 < numSets)
    (h' : 0 < numSets') :
    (∀ s, (machine (create numSets associativity h) (create numSets' associativity' h')).Reachable s →
      s.1.Unique) ∧
    ∀ s, (machine (create numSets associativity h) (create numSets' associativity' h')).ReachableWhen
      EvictsNew s → s.2.Unique := by
  have hpage : ∀ addr : UInt64, addr.toNat >>> 12 ≠ invalidTag := by
    intro addr
    have := addr.toNat_lt
    rw [Nat.shiftRight_eq_div_pow, invalidTag]
    omega
  constructor
  · intro s hs
    refine Wf.unique (hs.invariant (P := fun s => s.1.Wf) (Cache.Wf.create _ _) ?_)
    rintro s addr s' hwf - hstep
    obtain ⟨r, hlookup, rfl⟩ := map_eq_some_iff.mp hstep
    exact (hwf.lookup (hpage addr) hlookup).1
  · intro s hs
    refine Wf.unique (hs.invariant (P := fun s => s.1.Wf ∧ s.2.Wf)
      ⟨Cache.Wf.create _ _, Cache.Wf.create _ _⟩ ?_).2
    rintro s addr s' ⟨hwf, hwf'⟩ hnew hstep
    obtain ⟨r, hlookup, rfl⟩ := map_eq_some_iff.mp hstep
    exact (hwf.lookup (hpage addr) hlookup).imp_right fun hnext => hnext hwf' hnew

/-- Pages 1 and 2 are looked up in a first level with one entry: page 1 goes to the next level. -/
theorem evicted_page_in_next : ∃ s, (machine (create 1 1 Nat.one_pos) (create 1 4 Nat.one_pos)).ReachableWhen
    EvictsNew s ∧ s.2.holds 0x1000 ∧ s.2.Unique := by
  obtain ⟨s, hs, hholds⟩ := Machine.exists_reachableWhen (P := fun s : TLB × TLB => s.2.holds 0x1000 = true)
    (m := machine (create 1 1 Nat.one_pos) (create 1 4 Nat.one_pos))
    (fun s addr => decide (EvictsNew s addr)) (fun _ _ => of_decide_eq_true)
    [0x1000, 0x2000] (by decide) (by decide)
  exact ⟨s, hs, hholds, (tlb_holds_pages_once 1 1 1 4 Nat.one_pos Nat.one_pos).2 s hs⟩

/-- **A page is twice in the next level**: pages 1 and 2 are looked up in turn, and page 1 is evicted a
second time. -/
theorem evicted_page_twice : ∃ s, (machine (create 1 1 Nat.one_pos) (create 1 4 Nat.one_pos)).Reachable s ∧
    (s.2.sets 0).lines.map CacheLine.tag = [1, 2, 1, invalidTag] :=
  Machine.exists_reachable [0x1000, 0x2000, 0x1000, 0x2000] (by decide +kernel)

end TLB

end MultiCoreMemory.Sniper
