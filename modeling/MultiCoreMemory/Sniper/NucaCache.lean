import MultiCoreMemory.Lib.Machine
import MultiCoreMemory.Sniper.Cache

/-!
# The NUCA cache of a directory node (`parametric_dram_directory_msi/nuca_cache.cc`)

`sendDataToNUCA` declares the variables that describe an eviction without a value, and `write` sets
them on a miss only; what they happen to hold is an input of the step (`EvictionVars`).
-/

namespace MultiCoreMemory.Sniper

open Option Cache

structure EvictionVars (D : Type*) where
  eviction : Bool
  evictAddress : ℕ
  evictBuf : D
  deriving DecidableEq, Repr

namespace NucaCache

variable {D : Type*} (g : Geometry)

def read (c : Cache D) (address : ℕ) : Option (Option D) := do
  match ← c.peekSingleLine g address with
  | some _ => return some (← c.loadSingleLine g address)
  | none => return none

/-- `write`.  A line that is inserted stays `INVALID`, the state of a new `CacheBlockInfo`. -/
def write (c : Cache D) (address : ℕ) (data : D) (way : ℕ) (vars : EvictionVars D) :
    Option (Cache D × EvictionVars D) := do
  match ← c.peekSingleLine g address with
  | some _ =>
    let c := c.modifyLine g address fun l => { l with cstate := .MODIFIED }
    return (← c.storeSingleLine g address data, vars)
  | none =>
    let (c, evicted) ← c.insertSingleLine g address data way
    match evicted with
    | some l =>
      -- unless the line is dirty, the caller is not to write it back
      return (c, {
        eviction := l.cstate = .MODIFIED
        evictAddress := g.tagToAddress l.tag
        evictBuf := l.data })
    | none => return (c, { vars with eviction := false, evictAddress := g.tagToAddress invalidTag })

end NucaCache

/-- A directory node with its NUCA cache, and the DRAM replies that are on their way. -/
structure NucaNode (D : Type*) where
  cache : Cache D
  dram : ℕ → D
  replies : List (ℕ × D) := []

namespace NucaNode

variable {D : Type*} (g : Geometry)

variable (s : NucaNode D) (address : ℕ)

/-- `sendDataToNUCA`; the write request is served by the DRAM at once. -/
def sendDataToNUCA (data : D) (way : ℕ) (vars : EvictionVars D) :
    Option (NucaNode D) := do
  let (cache, vars) ← NucaCache.write g s.cache address data way vars
  return { s with
    cache
    dram := if vars.eviction then Function.update s.dram vars.evictAddress vars.evictBuf
      else s.dram }

/-- `sendDataToDram`, at a node that has a NUCA cache. -/
def sendDataToDram (data : D) (way : ℕ) (vars : EvictionVars D) : Option (NucaNode D) :=
  s.sendDataToNUCA g address data way vars

/-- `retrieveDataAndSendToL2Cache` without a cache that has the data; on a miss the DRAM is asked. -/
def retrieveData : Option (NucaNode D × D) := do
  match ← NucaCache.read g s.cache address with
  | some data => return (s, data)
  | none => return ({ s with replies := s.replies ++ [(address, s.dram address)] }, s.dram address)

/-- `processDRAMReply`, of one of the replies on their way: a copy is kept in the NUCA cache. -/
def processDRAMReply (i way : ℕ) (vars : EvictionVars D) :
    Option (NucaNode D) := do
  let reply ← s.replies[i]?
  { s with replies := s.replies.eraseIdx i }.sendDataToNUCA g reply.1 reply.2 way vars

end NucaNode

/-! ## Runs -/

inductive NucaCall (D : Type*) where
  | sendDataToDram (address : ℕ) (data : D) (way : ℕ) (vars : EvictionVars D)
  | retrieveData (address : ℕ)
  | processDRAMReply (i way : ℕ) (vars : EvictionVars D)
  deriving DecidableEq, Repr

namespace NucaNode

variable {D : Type*} (g : Geometry)

variable (r : LoggedStore (NucaNode D) ℕ D) (s : NucaNode D)

def step : NucaCall D → Option (LoggedStore (NucaNode D) ℕ D)
  | .sendDataToDram address data way vars => do
    let store ← r.store.sendDataToDram g address data way vars
    return { store, log := .put address data :: r.log }
  | .retrieveData address => do
    let (store, data) ← r.store.retrieveData g address
    return { store, log := .got address data :: r.log }
  | .processDRAMReply i way vars => do
    let store ← r.store.processDRAMReply g i way vars
    return { r with store }

def machine (zero : D) (dram : ℕ → D) :
    Machine (LoggedStore (NucaNode D) ℕ D) (NucaCall D) where
  init := { store := { cache := create g zero, dram } }
  step := step g

/-- A write of a line that is present finds the eviction flag clear; one of a line that is absent
replaces a line that is `MODIFIED`, or that the DRAM has as well. -/
def WritesSafely (address way : ℕ) (vars : EvictionVars D) : Prop :=
  Cache.IsLine g address ∧
    match s.cache.held g (g.tag address) with
    | some _ => vars.eviction = false
    | none => ∀ l ∈ s.cache.evictee g address way,
        l.cstate = .MODIFIED ∨ l.data = s.dram (g.tagToAddress l.tag)

def SafeCall : NucaCall D → Prop
  | .sendDataToDram address _ way vars =>
    WritesSafely g r.store address way vars ∧ ∀ reply ∈ r.store.replies, reply.1 ≠ address
  | .retrieveData address => Cache.IsLine g address
  | .processDRAMReply i way vars =>
    ∀ reply ∈ r.store.replies[i]?, WritesSafely g r.store reply.1 way vars

/-! ## What a reader sees -/

def view : ℕ → D := (s.cache.overlay g s.dram).view

variable {g} {s s' : NucaNode D} {address way : ℕ} {data : D} {vars : EvictionVars D}

def sentBack (l : CacheLine D) : Option D := if l.cstate = .MODIFIED then some l.data else none

theorem sendDataToNUCA_of_absent (haddr : Cache.IsLine g address)
    (habsent : s.cache.held g (g.tag address) = none)
    (h : s.sendDataToNUCA g address data way vars = some s') :
    ∃ cache evicted, s.cache.insertSingleLine g address data way = some (cache, evicted) ∧
      s' = { s with
        cache
        dram := writeBack g s.dram evicted (evicted.bind sentBack) } := by
  simp only [sendDataToNUCA, NucaCache.write, peekSingleLine_eq_held haddr, habsent,
    bind_eq_bind, bind_some, bind_eq_some_iff, Prod.exists] at h
  obtain ⟨_, _, ⟨cache, evicted, hinsert, heq⟩, hs'⟩ := h
  refine ⟨cache, evicted, hinsert, ?_⟩
  cases evicted with
  | none =>
    cases heq
    cases hs'
    rfl
  | some l =>
    cases heq
    cases hs'
    rw [bind_some, sentBack]
    by_cases hmod : l.cstate = .MODIFIED
    · simp only [hmod, decide_true, if_true]
      rfl
    · simp only [hmod, decide_false, Bool.false_eq_true, if_false]
      rfl

/-- **A write changes only what a reader sees of its own line.** -/
theorem sendDataToNUCA_view (h : s.sendDataToNUCA g address data way vars = some s')
    (hwf : s.cache.Wf g) (hsafe : WritesSafely g s address way vars) :
    s'.cache.Wf g ∧ s'.replies = s.replies ∧
      s'.view g = Function.update (s.view g) (g.tag address) data := by
  obtain ⟨haddr, hsafe⟩ := hsafe
  cases hl : s.cache.held g (g.tag address) with
  | some l =>
    simp only [hl] at hsafe
    simp only [sendDataToNUCA, NucaCache.write, peekSingleLine_eq_held haddr, hl,
      bind_eq_bind, bind_some, storeSingleLine_eq_modifyLine haddr,
      Option.pure_def, hsafe, Bool.false_eq_true, if_false, some.injEq] at h
    subst h
    rw [modifyLine_modifyLine]
    · exact ⟨(hwf.modifyLine haddr hl rfl).1, rfl, hwf.view_modifyLine haddr hl rfl⟩
    · exact fun _ => rfl
  | none =>
    simp only [hl] at hsafe
    obtain ⟨cache, evicted, hinsert, rfl⟩ := sendDataToNUCA_of_absent haddr hl h
    refine ⟨(hwf.insertSingleLine haddr hl hinsert).1, rfl,
      hwf.view_insertSingleLine haddr hl hinsert fun l hevicted => ?_⟩
    have hlost := hsafe l (evicted_eq_evictee hinsert ▸ hevicted)
    cases hevicted
    rw [bind_some, sentBack]
    split
    · rfl
    · rename_i hclean
      exact (hlost.resolve_left hclean).symm

theorem retrieveData_eq (haddr : Cache.IsLine g address) :
    ∃ replies, s.retrieveData g address =
        some ({ s with replies }, s.view g (g.tag address)) ∧
      ∀ reply ∈ replies, reply ∈ s.replies ∨ reply = (address, s.view g (g.tag address)) := by
  simp only [retrieveData, NucaCache.read, peekSingleLine_eq_held haddr,
    loadSingleLine_eq_held haddr, bind_eq_bind, bind_some]
  cases hl : s.cache.held g (g.tag address) with
  | some l =>
    have hview : s.view g (g.tag address) = l.data := view_of_held hl
    refine ⟨s.replies, ?_, fun reply => .inl⟩
    rw [hview]
    rfl
  | none =>
    have hview : s.view g (g.tag address) = s.dram address := by
      rw [view, view_of_absent hl, haddr.aligned]
    refine ⟨s.replies ++ [(address, s.dram address)], ?_, fun reply hreply => ?_⟩
    · rw [hview]
      rfl
    · rw [hview]
      simpa using hreply

/-! ## Whole runs -/

/-- The invariant of a run: a reader sees what was last written, and so does who waits for a DRAM
reply. -/
structure RunInv (g : Geometry) (start : ℕ → D) (r : LoggedStore (NucaNode D) ℕ D) : Prop where
  wf : r.store.cache.Wf g
  view : ∀ t, r.store.view g t = lastPut start r.log (g.tagToAddress t)
  replies : ∀ reply ∈ r.store.replies, reply.2 = lastPut start r.log reply.1
  transparent : Transparent start r.log

variable {start : ℕ → D} {zero : D} {r r' : LoggedStore (NucaNode D) ℕ D}

theorem RunInv.init (g : Geometry) (zero : D) (start : ℕ → D) :
    RunInv g start (machine g zero start).init where
  wf := Cache.Wf.create _ _
  view := fun t => view_of_absent (held_create _ _ _)
  replies := fun reply hreply => by cases hreply
  transparent := trivial

theorem RunInv.step (hinv : RunInv g start r) (call : NucaCall D) (hsafe : SafeCall g r call)
    (h : step g r call = some r') : RunInv g start r' := by
  cases call with
  | sendDataToDram address data way vars =>
    simp only [NucaNode.step, sendDataToDram, bind_eq_bind, bind_eq_some_iff,
      Option.pure_def, some.injEq] at h
    obtain ⟨s', hsend, rfl⟩ := h
    obtain ⟨hwf, hreplies, hview⟩ := sendDataToNUCA_view hsend hinv.wf hsafe.1
    refine ⟨hwf, fun t => ?_, fun reply hreply => ?_, hinv.transparent⟩
    · rw [hview]
      exact lastPut_put hsafe.1.1 hinv.view t
    · rw [hreplies] at hreply
      rw [hinv.replies reply hreply, lastPut, if_neg (hsafe.2 reply hreply)]
  | retrieveData address =>
    obtain ⟨replies, hread, hnew⟩ := retrieveData_eq (s := r.store) hsafe
    simp only [NucaNode.step, hread, bind_eq_bind, bind_some, Option.pure_def,
      some.injEq] at h
    subst h
    have hlast : r.store.view g (g.tag address) = lastPut start r.log address := by
      rw [hinv.view, hsafe.aligned]
    refine ⟨hinv.wf, hinv.view, fun reply hreply => ?_, hlast, hinv.transparent⟩
    rcases hnew reply hreply with hold | rfl
    · exact hinv.replies reply hold
    · exact hlast
  | processDRAMReply i way vars =>
    simp only [NucaNode.step, processDRAMReply, bind_eq_bind, bind_eq_some_iff,
      Option.pure_def, some.injEq] at h
    obtain ⟨s', ⟨reply, hreply, hsend⟩, rfl⟩ := h
    have hsafe := hsafe reply hreply
    obtain ⟨hwf, hreplies, hview⟩ := sendDataToNUCA_view hsend hinv.wf hsafe
    -- the copy that is kept is what a reader sees already
    have hcopy : reply.2 = r.store.view g (g.tag reply.1) := by
      rw [hinv.replies reply (List.mem_of_getElem? hreply), hinv.view, hsafe.1.aligned]
    have hsame : s'.view g = r.store.view g := by
      rw [hview, hcopy]
      exact Function.update_eq_self _ _
    refine ⟨hwf, fun t => by rw [hsame, hinv.view], fun reply' hreply' => ?_, hinv.transparent⟩
    rw [hreplies] at hreply'
    exact hinv.replies reply' (List.mem_of_mem_eraseIdx hreply')

/-- **The NUCA cache keeps written data while the lines it gives up are dirty or also in DRAM**:
every read obtained what was last written, and the next read of a line obtains something. -/
theorem written_data_is_read (hr : (machine g zero start).ReachableWhen (SafeCall g) r) :
    Transparent start r.log ∧
      ∀ address, Cache.IsLine g address → (step g r (.retrieveData address)).isSome := by
  have hinv : RunInv g start r :=
    hr.invariant (RunInv.init g zero start) fun s call s' hs hsafe h => hs.step call hsafe h
  refine ⟨hinv.transparent, fun address haddr => ?_⟩
  obtain ⟨replies, hread, -⟩ := retrieveData_eq (s := r.store) haddr
  simp [NucaNode.step, hread]

instance [DecidableEq D] (s : NucaNode D) (address way : ℕ) (vars : EvictionVars D) :
    Decidable (WritesSafely g s address way vars) := by
  unfold WritesSafely
  refine @instDecidableAnd _ _ _ ?_
  split <;> infer_instance

instance [DecidableEq D] (r : LoggedStore (NucaNode D) ℕ D) (call : NucaCall D) :
    Decidable (SafeCall g r call) := by
  unfold SafeCall
  split <;> infer_instance

def oneSet (associativity : ℕ) : Geometry where
  numSets := 1
  associativity
  blocksize := 64

def clearVars : EvictionVars ℕ where
  eviction := false
  evictAddress := 0
  evictBuf := 0

/-- A line is read and kept, written over, and read again after its eviction. -/
theorem dirty_line_survives_eviction :
    let m := machine (oneSet 1) 0 fun _ => 7
    ∃ r, m.ReachableWhen (SafeCall (oneSet 1)) r ∧
      r.log = [.got 0 5, .got 64 7, .put 0 5, .got 0 7] ∧ Transparent (fun _ => 7) r.log := by
  intro m
  obtain ⟨r, hr, hlog⟩ := m.exists_reachableWhen
    (fun r call => decide (SafeCall (oneSet 1) r call)) (fun r call => of_decide_eq_true)
    (P := fun r => r.log = [.got 0 5, .got 64 7, .put 0 5, .got 0 7])
    [.retrieveData 0, .processDRAMReply 0 0 clearVars, .sendDataToDram 0 5 0 clearVars,
      .retrieveData 64, .processDRAMReply 0 0 clearVars, .retrieveData 0]
    (by decide +kernel) (by decide +kernel)
  exact ⟨r, hr, hlog, (written_data_is_read hr).1⟩

/-- **A line that a write inserts is not marked `MODIFIED`, and its eviction loses it**: the line at
0 was written as 1, and after the line at 64 took its place the DRAM still has 0. -/
theorem inserted_line_lost_by_eviction :
    let m := machine (oneSet 1) 0 fun _ => 0
    ∃ r, m.Reachable r ∧ r.log = [.got 0 0, .put 64 2, .put 0 1] ∧
      ¬ Transparent (fun _ => 0) r.log := by
  intro m
  obtain ⟨r, hr, hlog⟩ := m.exists_reachable (P := fun r => r.log = [.got 0 0, .put 64 2, .put 0 1])
    [.sendDataToDram 0 1 0 clearVars, .sendDataToDram 64 2 0 clearVars, .retrieveData 0]
    (by decide +kernel)
  refine ⟨r, hr, hlog, ?_⟩
  rw [hlog]
  rintro ⟨heq, -⟩
  exact absurd heq (by decide)

end NucaNode

end MultiCoreMemory.Sniper
