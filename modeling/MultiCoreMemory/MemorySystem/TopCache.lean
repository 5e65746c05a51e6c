import MultiCoreMemory.MemorySystem.CustomDRAMSystem

/-!
# The top cache holds the most accessed pages

Counts grow by one at a time, so a page outside a full cache that overtakes the least accessed cached
page overtakes it by exactly one; replacing that page is then enough.
-/

namespace MultiCoreMemory

open List

variable {C κ : Type}

/-! ## The search for the minimum -/

def IsMin (count : ℤ → ℕ) (vpns : List ℤ) : Option (ℕ × ℕ) → Prop
  | none => vpns = []
  | some (index, minCount) =>
    (∃ v, vpns[index]? = some v ∧ count v = minCount) ∧ ∀ w ∈ vpns, minCount ≤ count w

theorem minLoop_isMin {count : ℤ → ℕ} {best : Option (ℕ × ℕ)} (seen rest : List ℤ)
    (h : IsMin count seen best) : IsMin count (seen ++ rest) (minLoop count seen.length best rest) := by
  induction rest generalizing seen best with
  | nil =>
    rw [append_nil]
    cases best <;> exact h
  | cons v rest ih =>
    have hlast : (seen ++ [v])[seen.length]? = some v := by simp
    have hnext : ∀ best', IsMin count (seen ++ [v]) best' →
        IsMin count (seen ++ v :: rest) (minLoop count (seen.length + 1) best' rest) := by
      intro best' hbest'
      have hrest := ih (seen ++ [v]) hbest'
      rw [length_append, append_assoc] at hrest
      exact hrest
    cases best with
    | none =>
      refine hnext _ ⟨⟨v, hlast, rfl⟩, ?_⟩
      obtain rfl : seen = [] := h
      intro w hw
      rw [mem_singleton.mp hw]
    | some best =>
      obtain ⟨index, minCount⟩ := best
      obtain ⟨⟨u, hu, hcount⟩, hmin⟩ := h
      unfold minLoop
      split
      · rename_i hless
        refine hnext _ ⟨⟨v, hlast, rfl⟩, ?_⟩
        intro w hw
        rcases mem_append.mp hw with hw | hw
        · have := hmin w hw
          omega
        · rw [mem_singleton.mp hw]
      · rename_i hless
        refine hnext _ ⟨⟨u, ?_, hcount⟩, ?_⟩
        · rw [List.getElem?_append_left (List.getElem?_eq_some_iff.mp hu).1]
          exact hu
        · intro w hw
          rcases mem_append.mp hw with hw | hw
          · exact hmin w hw
          · rw [mem_singleton.mp hw]
            omega

/-! ## One access -/

/-- The cache is a set of at most four pages with the largest counts; a page that is not in it has
not been accessed while there is room. -/
structure TopCacheInv (count : ℤ → ℕ) (topCache : List ℤ) : Prop where
  nodup : topCache.Nodup
  length_le : topCache.length ≤ 4
  room : topCache.length < 4 → ∀ v ∉ topCache, count v = 0
  dominated : ∀ v ∉ topCache, ∀ w ∈ topCache, count v ≤ count w

section

variable {count count' : ℤ → ℕ} {topCache : List ℤ} {vpn : ℤ}

variable (h : TopCacheInv count topCache)
  (hcount : ∀ v, count' v = if v = vpn then count vpn + 1 else count v)
include h hcount

theorem TopCacheInv.hit (hvpn : vpn ∈ topCache) : TopCacheInv count' topCache := by
  have hother : ∀ v ∉ topCache, count' v = count v := by
    intro v hv
    rw [hcount, if_neg]
    rintro rfl
    exact hv hvpn
  have hgrows : ∀ w, count w ≤ count' w := by
    intro w
    rw [hcount]
    split
    · rename_i heq
      rw [heq]
      omega
    · exact le_rfl
  refine ⟨h.nodup, h.length_le, ?_, ?_⟩
  · intro hroom v hv
    rw [hother v hv]
    exact h.room hroom v hv
  · intro v hv w hw
    rw [hother v hv]
    exact (h.dominated v hv w hw).trans (hgrows w)

variable (hvpn : vpn ∉ topCache)
include hvpn

theorem TopCacheInv.push (hroom : topCache.length < 4) :
    TopCacheInv count' (topCache ++ [vpn]) := by
  have hzero : ∀ v ∉ topCache ++ [vpn], count' v = 0 := by
    intro v hv
    rw [mem_append, mem_singleton, not_or] at hv
    rw [hcount, if_neg hv.2]
    exact h.room hroom v hv.1
  refine ⟨?_, ?_, fun _ => hzero, ?_⟩
  · rw [← concat_eq_append]
    exact h.nodup.concat hvpn
  · rw [length_append, length_singleton]
    omega
  · intro v hv w _
    rw [hzero v hv]
    exact Nat.zero_le _

theorem TopCacheInv.outside_le_min {index : ℕ} {u v : ℤ} (hu : topCache[index]? = some u)
    (hv : v ∉ topCache.set index vpn) : count' v ≤ count' u := by
  by_cases hcached : v ∈ topCache
  · -- the only page that left is the minimum itself
    obtain ⟨j, hj⟩ := mem_iff_getElem?.mp hcached
    by_cases hji : index = j
    · rw [hji, hj] at hu
      cases hu
      exact le_rfl
    · refine absurd (mem_of_getElem? (i := j) ?_) hv
      rw [getElem?_set_ne hji]
      exact hj
  · have hmem := mem_of_getElem? hu
    have hu' : u ≠ vpn := by
      rintro rfl
      exact hvpn hmem
    have hv' : v ≠ vpn := by
      rintro rfl
      exact hv (List.mem_set (List.getElem?_eq_some_iff.mp hu).1 v)
    rw [hcount, if_neg hv', hcount, if_neg hu']
    exact h.dominated v hcached u hmem

theorem TopCacheInv.replace (hfull : ¬ topCache.length < 4) {index minCount : ℕ}
    (hmin : IsMin count' topCache (some (index, minCount))) (hmore : minCount < count vpn + 1) :
    TopCacheInv count' (topCache.set index vpn) := by
  obtain ⟨⟨u, hu, hu'⟩, hleast⟩ := hmin
  have hinside : ∀ w ∈ topCache.set index vpn, minCount ≤ count' w := by
    intro w hw
    rcases mem_or_eq_of_mem_set hw with hw | rfl
    · exact hleast w hw
    · rw [hcount, if_pos rfl]
      omega
  refine ⟨h.nodup.set hvpn, ?_, ?_, ?_⟩
  · rw [length_set]
    exact h.length_le
  · intro hroom
    rw [length_set] at hroom
    exact absurd hroom hfull
  · intro v hv w hw
    have houtside := h.outside_le_min hcount hvpn hu hv
    exact (houtside.trans hu'.le).trans (hinside w hw)

theorem TopCacheInv.stay (hfull : ¬ topCache.length < 4)
    (hless : ∀ w ∈ topCache, count vpn + 1 ≤ count' w) : TopCacheInv count' topCache := by
  refine ⟨h.nodup, h.length_le, fun hroom => absurd hroom hfull, ?_⟩
  intro v hv w hw
  have hw' : w ≠ vpn := by
    rintro rfl
    exact hvpn hw
  by_cases hvv : v = vpn
  · rw [hcount, if_pos hvv]
    exact hless w hw
  · rw [hcount, if_neg hvv, hcount, if_neg hw']
    exact h.dominated v hv w hw

theorem TopCacheInv.miss :
    TopCacheInv count' (updateTopCache count' topCache vpn (count vpn + 1)) := by
  unfold updateTopCache
  rw [if_neg hvpn]
  split
  · rename_i hroom
    exact h.push hcount hvpn hroom
  · rename_i hfull
    have hmin : IsMin count' topCache (minLoop count' 0 none topCache) :=
      @minLoop_isMin count' none [] topCache rfl
    split
    · rename_i hnone
      rw [hnone] at hmin
      have hnil : topCache = [] := hmin
      rw [hnil] at hfull
      exact absurd (by decide) hfull
    · rename_i index minCount hsome
      rw [hsome] at hmin
      split
      · rename_i hmore
        exact h.replace hcount hvpn hfull hmin hmore
      · rename_i hmore
        refine h.stay hcount hvpn hfull ?_
        intro w hw
        have := hmin.2 w hw
        omega

end

/-! ## Runs -/

theorem TopCacheInv.send {s s' : CustomRun κ} {channels : Channels C κ}
    {mapper : Request C → Request C} {req : Request C} {isSuccess : Bool}
    (h : TopCacheInv s.sys.accessCount s.sys.topCache)
    (hsend : s.send channels mapper req = some (isSuccess, s')) :
    TopCacheInv s'.sys.accessCount s'.sys.topCache := by
  have hcount := s.sys.accessCount_countAccess (CustomDRAMSystem.vpnOf req)
  cases CustomRun.send_cases hsend with
  | cached hcached => exact h.hit hcount hcached
  | uncached huncached hcounts hcache =>
    have hsame : s'.sys.accessCount =
        (s.sys.countAccess (CustomDRAMSystem.vpnOf req)).accessCount := by
      unfold CustomDRAMSystem.accessCount
      rw [hcounts]
    rw [hsame, hcache]
    exact h.miss hcount huncached

/-- **The top cache holds the most accessed pages**: between the calls of every run it has at most
four pages, all distinct, and no page outside it has more accesses than a page in it. -/
theorem top_cache_dominates (channels : Channels C κ) (mapper : Request C → Request C) (k : κ)
    (s : CustomRun κ) (h : (CustomRun.machine channels mapper k).Reachable s) :
    s.sys.topCache.length ≤ 4 ∧ s.sys.topCache.Nodup ∧
      ∀ v ∉ s.sys.topCache, ∀ w ∈ s.sys.topCache, s.sys.accessCount v ≤ s.sys.accessCount w := by
  have hinv : TopCacheInv s.sys.accessCount s.sys.topCache := by
    refine CustomRun.invariant (P := fun s => TopCacheInv s.sys.accessCount s.sys.topCache) ?_
      (fun _ _ hs => hs) (fun _ _ _ _ hs _ hsend => hs.send hsend) h
    exact ⟨nodup_nil, Nat.zero_le _, fun _ _ _ => rfl, fun _ _ _ hw => by cases hw⟩
  exact ⟨hinv.length_le, hinv.nodup, hinv.dominated⟩

def takeAll : Channels Unit Unit where
  send _ _ _ := some (true, ())

def readPages (vpns : List ℤ) : List (CustomCall Unit Unit) :=
  vpns.map fun vpn => .send { vAddr := vpn * 2 ^ 12, typeId := typeRead }

/-- The fifth page replaces the first one when it is read twice. -/
theorem fifth_page_replaces_first :
    ∃ s, (CustomRun.machine takeAll id ()).Reachable s ∧ s.sys.topCache = [5, 2, 3, 4] ∧
      ∀ v ∉ s.sys.topCache, ∀ w ∈ s.sys.topCache, s.sys.accessCount v ≤ s.sys.accessCount w := by
  obtain ⟨s, hreach, hcache⟩ := Machine.exists_reachable (m := CustomRun.machine takeAll id ())
    (P := fun s => s.sys.topCache = [5, 2, 3, 4]) (readPages [1, 2, 3, 4, 5, 5]) (by decide +kernel)
  exact ⟨s, hreach, hcache, (top_cache_dominates takeAll id () s hreach).2.2⟩

end MultiCoreMemory
