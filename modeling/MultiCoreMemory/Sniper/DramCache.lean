import MultiCoreMemory.Lib.Machine
import MultiCoreMemory.Sniper.Cache

/-!
# The DRAM cache (`memory_subsystem/dram/dram_cache.cc`)

Latencies, queues and the `ShmemPerf` accounting are left out.
-/

namespace MultiCoreMemory.Sniper

open Option Function Cache

inductive Access where
  | LOAD
  | STORE
  deriving DecidableEq, Repr

/-- `m_cache`, the DRAM behind it, and the prefetches that are still to be done. -/
structure DramCache (D : Type*) where
  cache : Cache D
  dram : ℕ → D
  prefetchList : List ℕ := []

structure DramCacheConfig where
  geometry : Geometry
  prefetchOnPrefetchHit : Bool := false

namespace DramCache

variable {D : Type*} (cfg : DramCacheConfig)

variable (s : DramCache D) (access : Access) (address : ℕ)

/-- `insertLine`.  The write-back sends the data of the line that comes in. -/
def insertLine (data : D) (way : ℕ) :
    Option (DramCache D) := do
  let (cache, evicted) ← s.cache.insertSingleLine cfg.geometry address data way
  let cache := cache.modifyLine cfg.geometry address fun l =>
    { l with cstate := if access = .STORE then .MODIFIED else .SHARED }
  let dram := match evicted with
    | some l =>
      if l.cstate = .MODIFIED then
        Function.update s.dram (cfg.geometry.tagToAddress l.tag) data
      else s.dram
    | none => s.dram
  return { s with cache, dram }

/-- `doAccess` up to the prefetches: the contents of `data_buf` afterwards. -/
def doAccess (data : D) (way : ℕ) (prefetchList : List ℕ) : Option (DramCache D × D) := do
  match ← s.cache.peekSingleLine cfg.geometry address with
  | some block =>
    let prefetchList := if cfg.prefetchOnPrefetchHit && block.prefetch then prefetchList else []
    let cache := s.cache.modifyLine cfg.geometry address fun l => { l with prefetch := false }
    match access with
    | .LOAD =>
      let data ← cache.loadSingleLine cfg.geometry address
      return ({ s with cache, prefetchList }, data)
    | .STORE =>
      let cache ← cache.storeSingleLine cfg.geometry address data
      let cache := cache.modifyLine cfg.geometry address fun l => { l with cstate := .MODIFIED }
      return ({ s with cache, prefetchList }, data)
  | none =>
    let data := match access with
      | .LOAD => s.dram address
      | .STORE => data
    let s ← s.insertLine cfg access address data way
    return ({ s with prefetchList }, data)

/-- One round of the prefetch loop of an access; the next call is accepted once the list is empty. -/
def prefetchNext (way : ℕ) : Option (DramCache D) :=
  match s.prefetchList with
  | [] => none
  | address :: prefetchList => do
    match ← s.cache.peekSingleLine cfg.geometry address with
    | some _ => return { s with prefetchList }
    | none =>
      let s ← s.insertLine cfg .LOAD address (s.dram address) way
      let cache := s.cache.modifyLine cfg.geometry address fun l => { l with prefetch := true }
      return { s with cache, prefetchList }

end DramCache

/-! ## Runs -/

/-- A call with what the environment decides: the way that is replaced, and what the prefetcher
asks for. -/
inductive AccessCall (D : Type*) where
  | getDataFromDram (address way : ℕ) (prefetchList : List ℕ)
  | putDataToDram (address : ℕ) (data : D) (way : ℕ) (prefetchList : List ℕ)
  | prefetch (way : ℕ)
  deriving DecidableEq, Repr

namespace DramCache

variable {D : Type*} (cfg : DramCacheConfig)

variable (r : LoggedStore (DramCache D) ℕ D) (s : DramCache D)

def step : AccessCall D → Option (LoggedStore (DramCache D) ℕ D)
  | .getDataFromDram address way prefetchList =>
    if r.store.prefetchList = [] then do
      -- the buffer is overwritten, whatever it held
      let (store, data) ←
        r.store.doAccess cfg .LOAD address (r.store.dram address) way prefetchList
      return { store, log := .got address data :: r.log }
    else none
  | .putDataToDram address data way prefetchList =>
    if r.store.prefetchList = [] then do
      let (store, data) ← r.store.doAccess cfg .STORE address data way prefetchList
      return { store, log := .put address data :: r.log }
    else none
  | .prefetch way => do
    let store ← r.store.prefetchNext cfg way
    return { r with store }

def machine (zero : D) (dram : ℕ → D) :
    Machine (LoggedStore (DramCache D) ℕ D) (AccessCall D) where
  init := { store := { cache := create cfg.geometry zero, dram } }
  step := step cfg

/-- If `address` has to be brought in with `data`, no dirty line with different data is evicted
for it. -/
def EvictsSafely (address : ℕ) (data : D) (way : ℕ) : Prop :=
  Cache.IsLine cfg.geometry address ∧
    (s.cache.held cfg.geometry (cfg.geometry.tag address) = none →
      ∀ l ∈ s.cache.evictee cfg.geometry address way, l.cstate = .MODIFIED → l.data = data)

def SafeCall : AccessCall D → Prop
  | .getDataFromDram address way _ =>
    EvictsSafely cfg r.store address (r.store.dram address) way
  | .putDataToDram address data way _ => EvictsSafely cfg r.store address data way
  | .prefetch way =>
    ∀ address ∈ r.store.prefetchList.head?,
      EvictsSafely cfg r.store address (r.store.dram address) way

/-! ## What a reader sees -/

structure Inv (s : DramCache D) : Prop where
  wf : s.cache.Wf cfg.geometry
  clean : ∀ t, ∀ l ∈ s.cache.held cfg.geometry t, l.cstate ≠ .MODIFIED →
    l.data = s.dram (cfg.geometry.tagToAddress t)

def view : ℕ → D := (s.cache.overlay cfg.geometry s.dram).view

variable {cfg} {s s' : DramCache D} {access : Access} {address way : ℕ} {data out : D}
  {prefetchList : List ℕ}

section

variable (hinv : Inv cfg s)
include hinv

theorem Inv.modifyLine (haddr : Cache.IsLine cfg.geometry address) {l : CacheLine D}
    (hl : s.cache.held cfg.geometry (cfg.geometry.tag address) = some l)
    {f : CacheLine D → CacheLine D} (htag : (f l).tag = l.tag)
    (hclean : (f l).cstate ≠ .MODIFIED → (f l).data = s.dram address) (prefetchList : List ℕ) :
    Inv cfg { s with cache := s.cache.modifyLine cfg.geometry address f, prefetchList } := by
  obtain ⟨hwf, hheld⟩ := hinv.wf.modifyLine haddr hl htag
  refine ⟨hwf, fun t l' hl' hne => ?_⟩
  rw [mem_def, hheld] at hl'
  split at hl'
  · rename_i ht
    cases hl'
    rw [hclean hne, ht, haddr.aligned]
  · exact hinv.clean t l' hl' hne

def sentBack (data : D) (l : CacheLine D) : Option D :=
  if l.cstate = .MODIFIED then some data else none

omit hinv in
theorem insertLine_eq_some (h : s.insertLine cfg access address data way = some s') :
    ∃ cache evicted, s.cache.insertSingleLine cfg.geometry address data way =
        some (cache, evicted) ∧
      s' = { s with
        cache := cache.modifyLine cfg.geometry address fun l =>
          { l with cstate := if access = .STORE then .MODIFIED else .SHARED }
        dram := writeBack cfg.geometry s.dram evicted (evicted.bind (sentBack data)) } := by
  simp only [DramCache.insertLine, bind_eq_bind, bind_eq_some_iff, Prod.exists] at h
  obtain ⟨cache, evicted, hinsert, heq⟩ := h
  refine ⟨cache, evicted, hinsert, (some.inj heq).symm.trans ?_⟩
  congr 1
  cases evicted with
  | none => rfl
  | some l =>
    simp only [sentBack, bind_some]
    split <;> rfl

/-- **A line comes in and nothing else changes for a reader.** -/
theorem Inv.insertLine (hsafe : EvictsSafely cfg s address data way)
    (habsent : s.cache.held cfg.geometry (cfg.geometry.tag address) = none)
    (hdata : access = .LOAD → data = s.dram address)
    (h : s.insertLine cfg access address data way = some s') :
    Inv cfg s' ∧ (∃ l, s'.cache.held cfg.geometry (cfg.geometry.tag address) = some l ∧
        l.data = data) ∧
      s'.view cfg = Function.update (s.view cfg) (cfg.geometry.tag address) data := by
  obtain ⟨haddr, hevict⟩ := hsafe
  obtain ⟨cache, evicted, hinsert, rfl⟩ := insertLine_eq_some h
  have hevictee := evicted_eq_evictee hinsert
  obtain ⟨hwf, hevicted, hheld⟩ := hinv.wf.insertSingleLine haddr habsent hinsert
  have hnew := hheld (cfg.geometry.tag address)
  rw [if_pos rfl] at hnew
  obtain ⟨hwf', hheld'⟩ := hwf.modifyLine haddr hnew
    (f := fun l => { l with cstate := if access = .STORE then .MODIFIED else .SHARED }) rfl
  -- the memory keeps the value of the evicted line: it is clean, or what is sent back equals it
  have hback : ∀ l ∈ evicted, (evicted.bind (sentBack data)).getD
      (s.dram (cfg.geometry.tagToAddress l.tag)) = l.data := by
    intro l hl
    cases hl
    rw [bind_some, sentBack]
    split
    · rename_i hmod
      exact (hevict habsent l hevictee.symm hmod).symm
    · rename_i hclean
      exact (hinv.clean l.tag l (hevicted l rfl).1 hclean).symm
  refine ⟨⟨hwf', fun t l hl hne => ?_⟩, ⟨_, (hheld' _).trans (if_pos rfl), rfl⟩, ?_⟩
  · rw [mem_def, hheld'] at hl
    split at hl
    · rename_i ht
      cases hl
      have hload : access = .LOAD := by
        cases access with
        | LOAD => rfl
        | STORE => exact absurd rfl hne
      have hsame := writeBack_of_ne cfg.geometry s.dram
        (fun l hl => (hevicted l hl).2) (evicted.bind (sentBack data))
      rw [haddr.aligned] at hsame
      rw [ht, haddr.aligned]
      exact (hdata hload).trans hsame.symm
    · rename_i ht
      rw [hheld, if_neg ht] at hl
      split at hl
      · cases hl
      · rename_i hother
        exact (hinv.clean t l hl hne).trans
          (writeBack_of_ne _ _ (fun l hl heq => hother ⟨l, hl, heq⟩) _).symm
  · rw [view, hwf.view_modifyLine haddr hnew rfl,
      hinv.wf.view_insertSingleLine haddr habsent hinsert hback, update_idem]
    rfl

def buffer (cfg : DramCacheConfig) (s : DramCache D) (address : ℕ) (data : D) : Access → D
  | .LOAD => s.view cfg (cfg.geometry.tag address)
  | .STORE => data

def incoming (s : DramCache D) (address : ℕ) (data : D) : Access → D
  | .LOAD => s.dram address
  | .STORE => data

theorem Inv.doAccess_hit (haddr : Cache.IsLine cfg.geometry address) {l : CacheLine D}
    (hl : s.cache.held cfg.geometry (cfg.geometry.tag address) = some l) :
    ∃ s', s.doAccess cfg access address data way prefetchList =
        some (s', buffer cfg s address data access) ∧ Inv cfg s' ∧
      s'.view cfg = Function.update (s.view cfg) (cfg.geometry.tag address)
        (buffer cfg s address data access) := by
  have hview : s.view cfg (cfg.geometry.tag address) = l.data := view_of_held hl
  have hclean : l.cstate ≠ .MODIFIED → l.data = s.dram address := by
    intro hne
    rw [hinv.clean _ l hl hne, haddr.aligned]
  cases access with
  | LOAD =>
    have hload : (s.cache.modifyLine cfg.geometry address fun l =>
        { l with prefetch := false }).loadSingleLine cfg.geometry address = some l.data := by
      rw [loadSingleLine_eq_held haddr, (hinv.wf.modifyLine haddr hl rfl).2, if_pos rfl]
      rfl
    simp only [doAccess, peekSingleLine_eq_held haddr, hl, bind_eq_bind,
      bind_some, hload, buffer, hview, Option.pure_def]
    exact ⟨_, rfl, hinv.modifyLine haddr hl rfl hclean _, hinv.wf.view_modifyLine haddr hl rfl⟩
  | STORE =>
    simp only [doAccess, peekSingleLine_eq_held haddr, hl, bind_eq_bind,
      bind_some, storeSingleLine_eq_modifyLine haddr, buffer, Option.pure_def]
    refine ⟨_, rfl, ?_⟩
    rw [modifyLine_modifyLine, modifyLine_modifyLine]
    · exact ⟨hinv.modifyLine haddr hl rfl (fun hne => absurd rfl hne) _,
        hinv.wf.view_modifyLine haddr hl rfl⟩
    · exact fun _ => rfl
    · exact fun _ => rfl

theorem Inv.insertLine_isSome (haddr : Cache.IsLine cfg.geometry address)
    (hway : way < cfg.geometry.associativity) (access : Access) (data : D) :
    (s.insertLine cfg access address data way).isSome := by
  obtain ⟨p, hp⟩ := isSome_iff_exists.mp (hinv.wf.insertSingleLine_isSome haddr hway data)
  simp [DramCache.insertLine, hp]

omit hinv in
theorem doAccess_of_absent (haddr : Cache.IsLine cfg.geometry address)
    (habsent : s.cache.held cfg.geometry (cfg.geometry.tag address) = none) :
    s.doAccess cfg access address data way prefetchList =
      (s.insertLine cfg access address (incoming s address data access) way).map fun s' =>
        ({ s' with prefetchList }, incoming s address data access) := by
  simp only [doAccess, peekSingleLine_eq_held haddr, habsent, bind_eq_bind,
    bind_some, map_eq_bind, incoming]
  rfl

theorem Inv.doAccess_miss (hsafe : EvictsSafely cfg s address (incoming s address data access) way)
    (habsent : s.cache.held cfg.geometry (cfg.geometry.tag address) = none)
    (h : s.doAccess cfg access address data way prefetchList = some (s', out)) :
    out = buffer cfg s address data access ∧ Inv cfg s' ∧
      s'.view cfg = Function.update (s.view cfg) (cfg.geometry.tag address) out := by
  have hview : s.view cfg (cfg.geometry.tag address) = s.dram address := by
    rw [view, view_of_absent habsent, hsafe.1.aligned]
  have hincoming : incoming s address data access = buffer cfg s address data access := by
    cases access with
    | LOAD => exact hview.symm
    | STORE => rfl
  rw [doAccess_of_absent hsafe.1 habsent] at h
  obtain ⟨s₁, hinsert, heq⟩ := map_eq_some_iff.mp h
  obtain ⟨rfl, rfl⟩ := Prod.mk.inj heq
  have hload : access = .LOAD → incoming s address data access = s.dram address := by
    rintro rfl
    rfl
  obtain ⟨hinv₁, -, hview₁⟩ := hinv.insertLine hsafe habsent hload hinsert
  exact ⟨hincoming, ⟨hinv₁.wf, hinv₁.clean⟩, hview₁⟩

/-- **An access returns what a reader sees, and a `STORE` changes it.** -/
theorem Inv.doAccess (h : s.doAccess cfg access address data way prefetchList = some (s', out))
    (hsafe : EvictsSafely cfg s address (incoming s address data access) way) :
    out = buffer cfg s address data access ∧ Inv cfg s' ∧
      s'.view cfg = Function.update (s.view cfg) (cfg.geometry.tag address) out := by
  cases hl : s.cache.held cfg.geometry (cfg.geometry.tag address) with
  | none => exact hinv.doAccess_miss hsafe hl h
  | some l =>
    obtain ⟨s₁, haccess, hinv₁, hview₁⟩ := hinv.doAccess_hit hsafe.1 hl
    obtain ⟨rfl, rfl⟩ := Prod.mk.inj (some.inj (haccess.symm.trans h))
    exact ⟨rfl, hinv₁, hview₁⟩

theorem Inv.doAccess_isSome (haddr : Cache.IsLine cfg.geometry address)
    (hway : way < cfg.geometry.associativity) (access : Access) (data : D) (prefetchList : List ℕ) :
    (s.doAccess cfg access address data way prefetchList).isSome := by
  cases hl : s.cache.held cfg.geometry (cfg.geometry.tag address) with
  | none =>
    obtain ⟨s', hs'⟩ := isSome_iff_exists.mp
      (hinv.insertLine_isSome haddr hway access (incoming s address data access))
    rw [doAccess_of_absent haddr hl, hs']
    rfl
  | some l =>
    obtain ⟨s', hs', -⟩ := hinv.doAccess_hit haddr hl
    rw [hs']
    rfl

theorem Inv.prefetchNext
    (hsafe : ∀ address ∈ s.prefetchList.head?, EvictsSafely cfg s address (s.dram address) way)
    (h : s.prefetchNext cfg way = some s') : Inv cfg s' ∧ s'.view cfg = s.view cfg := by
  unfold DramCache.prefetchNext at h
  split at h
  · cases h
  · rename_i address prefetchList hlist
    rw [hlist] at hsafe
    have haddr := (hsafe address rfl).1
    simp only [peekSingleLine_eq_held haddr, bind_eq_bind, bind_some] at h
    cases hl : s.cache.held cfg.geometry (cfg.geometry.tag address) with
    | some l =>
      simp only [hl, Option.pure_def, some.injEq] at h
      subst h
      exact ⟨⟨hinv.wf, hinv.clean⟩, rfl⟩
    | none =>
      simp only [hl, bind_eq_some_iff, Option.pure_def, some.injEq] at h
      obtain ⟨s₁, hinsert, rfl⟩ := h
      obtain ⟨hinv₁, ⟨l₁, hl₁, hdata₁⟩, hview₁⟩ :=
        hinv.insertLine (hsafe address rfl) hl (fun _ => rfl) hinsert
      have hview : s.view cfg (cfg.geometry.tag address) = s.dram address := by
        rw [view, view_of_absent hl, haddr.aligned]
      have hsame : s₁.view cfg = s.view cfg := by
        rw [hview₁, ← hview, update_eq_self]
      have hself : l₁.data = s.view cfg (cfg.geometry.tag address) := by rw [hdata₁, hview]
      refine ⟨hinv₁.modifyLine haddr hl₁ rfl ?_ _, ?_⟩
      · intro hne
        rw [hinv₁.clean _ l₁ hl₁ hne, haddr.aligned]
      · refine (hinv₁.wf.view_modifyLine haddr hl₁ rfl).trans ?_
        change update (s₁.view cfg) _ l₁.data = _
        rw [hsame, hself, update_eq_self]

end

/-! ## Whole runs -/

structure RunInv (cfg : DramCacheConfig) (start : ℕ → D) (r : LoggedStore (DramCache D) ℕ D) :
    Prop where
  inv : Inv cfg r.store
  view : ∀ t, r.store.view cfg t = lastPut start r.log (cfg.geometry.tagToAddress t)
  transparent : Transparent start r.log

variable {start : ℕ → D} {zero : D} {r r' : LoggedStore (DramCache D) ℕ D}

theorem RunInv.init (cfg : DramCacheConfig) (zero : D) (start : ℕ → D) :
    RunInv cfg start (machine cfg zero start).init where
  inv := ⟨Cache.Wf.create _ _, fun t l hl => by simp [machine, held_create] at hl⟩
  view := fun t => view_of_absent (held_create _ _ _)
  transparent := trivial

theorem RunInv.step (hinv : RunInv cfg start r) (call : AccessCall D) (hsafe : SafeCall cfg r call)
    (h : step cfg r call = some r') : RunInv cfg start r' := by
  cases call with
  | getDataFromDram address way prefetchList =>
    simp only [DramCache.step] at h
    split at h
    · simp only [bind_eq_bind, bind_eq_some_iff, Prod.exists, Option.pure_def,
        some.injEq] at h
      obtain ⟨s', out, haccess, rfl⟩ := h
      obtain ⟨hout, hinv', hview⟩ := hinv.inv.doAccess haccess hsafe
      have hlast : out = lastPut start r.log address := by
        rw [hout, buffer, hinv.view, hsafe.1.aligned]
      refine ⟨hinv', fun t => ?_, hlast, hinv.transparent⟩
      rw [hview, hout, buffer, update_eq_self, hinv.view, lastPut]
    · cases h
  | putDataToDram address data way prefetchList =>
    simp only [DramCache.step] at h
    split at h
    · simp only [bind_eq_bind, bind_eq_some_iff, Prod.exists, Option.pure_def,
        some.injEq] at h
      obtain ⟨s', out, haccess, rfl⟩ := h
      obtain ⟨-, hinv', hview⟩ := hinv.inv.doAccess haccess hsafe
      refine ⟨hinv', fun t => ?_, hinv.transparent⟩
      rw [hview]
      exact lastPut_put hsafe.1 hinv.view t
    · cases h
  | prefetch way =>
    simp only [DramCache.step, bind_eq_bind, bind_eq_some_iff, Option.pure_def,
      some.injEq] at h
    obtain ⟨s', hprefetch, rfl⟩ := h
    obtain ⟨hinv', hview⟩ := hinv.inv.prefetchNext hsafe hprefetch
    exact ⟨hinv', fun t => by rw [hview, hinv.view], hinv.transparent⟩

/-- **The DRAM cache is transparent while no dirty line is evicted by different data**: every read
returned what was last put at its address, and the next read of a line returns. -/
theorem reads_return_last_put (hr : (machine cfg zero start).ReachableWhen (SafeCall cfg) r) :
    Transparent start r.log ∧
      (r.store.prefetchList = [] → ∀ address way prefetchList,
        Cache.IsLine cfg.geometry address → way < cfg.geometry.associativity →
          (step cfg r (.getDataFromDram address way prefetchList)).isSome) := by
  have hinv : RunInv cfg start r :=
    hr.invariant (RunInv.init cfg zero start) fun s call s' hs hsafe h => hs.step call hsafe h
  refine ⟨hinv.transparent, fun hidle address way prefetchList haddr hway => ?_⟩
  obtain ⟨p, hp⟩ := isSome_iff_exists.mp
    (hinv.inv.doAccess_isSome haddr hway .LOAD (r.store.dram address) prefetchList)
  simp [DramCache.step, hidle, hp]

instance [DecidableEq D] (s : DramCache D) (address : ℕ) (data : D) (way : ℕ) :
    Decidable (EvictsSafely cfg s address data way) :=
  inferInstanceAs (Decidable (_ ∧ (_ → _)))

instance [DecidableEq D] (r : LoggedStore (DramCache D) ℕ D) (call : AccessCall D) :
    Decidable (SafeCall cfg r call) := by
  unfold SafeCall
  split <;> infer_instance

def oneSet (associativity : ℕ) : DramCacheConfig where
  geometry := { numSets := 1, associativity, blocksize := 64 }

/-- A line is put, another one with the same data takes its way, and the first is read from DRAM again. -/
theorem dirty_line_read_again :
    let m := machine (oneSet 2) 0 fun _ => 7
    ∃ r, m.ReachableWhen (SafeCall (oneSet 2)) r ∧
      r.log = [.got 0 5, .put 192 5, .got 64 7, .put 0 5] ∧ Transparent (fun _ => 7) r.log := by
  intro m
  obtain ⟨r, hr, hlog⟩ := m.exists_reachableWhen
    (fun r call => decide (SafeCall (oneSet 2) r call)) (fun r call => of_decide_eq_true)
    (P := fun r => r.log = [.got 0 5, .put 192 5, .got 64 7, .put 0 5])
    [.putDataToDram 0 5 0 [], .getDataFromDram 64 1 [128], .prefetch 1, .putDataToDram 192 5 0 [],
      .getDataFromDram 0 1 []]
    (by decide +kernel) (by decide +kernel)
  exact ⟨r, hr, hlog, (reads_return_last_put hr).1⟩

/-- **An evicted dirty line is written back with the data of the line that replaces it**: the line
at 0 was put as 1, and after the line at 64 took its place it is read as 2. -/
theorem dirty_line_evicted_with_other_data :
    let m := machine (oneSet 1) 0 fun _ => 0
    ∃ r, m.Reachable r ∧ r.log = [.got 0 2, .put 64 2, .put 0 1] ∧
      ¬ Transparent (fun _ => 0) r.log := by
  intro m
  obtain ⟨r, hr, hlog⟩ := m.exists_reachable (P := fun r => r.log = [.got 0 2, .put 64 2, .put 0 1])
    [.putDataToDram 0 1 0 [], .putDataToDram 64 2 0 [], .getDataFromDram 0 0 []] (by decide +kernel)
  refine ⟨r, hr, hlog, ?_⟩
  rw [hlog]
  rintro ⟨heq, -⟩
  exact absurd heq (by decide)

end DramCache

end MultiCoreMemory.Sniper
