import MultiCoreMemory.Controller.ReadLatency
import MultiCoreMemory.Frontend.SimpleO3Core
import MultiCoreMemory.MemorySystem.CustomDRAMSystem

/-!
# What the request counters of `CustomDRAMSystem` count

A request to a cached page is counted and answered `false`.  A core takes `false` for a refusal and
sends the request again in the next cycle; it is counted again, and never accepted.
-/

namespace MultiCoreMemory

variable {C τ κ : Type}

/-! ## The memory system -/

/-- Before the call the page of a request that is sent is not in the top cache. -/
def SendsUncached (s : CustomRun κ) (call : CustomCall C κ) : Prop :=
  ∀ req, call = .send req → CustomDRAMSystem.vpnOf req ∉ s.sys.topCache

theorem sendsUncached_controllers (s : CustomRun κ) (f : κ → κ) :
    SendsUncached (C := C) s (.controllers f) := by
  intro req heq
  cases heq

section

variable {channels : Channels C κ} {mapper : Request C → Request C} {k : κ} {s s' : CustomRun κ}

theorem total_send {req : Request C} {isSuccess : Bool}
    (h : s.sys.numRequests.total = s.accepted + s.sys.totalCacheReq)
    (hsend : s.send channels mapper req = some (isSuccess, s')) :
    s'.sys.numRequests.total = s'.accepted + s'.sys.totalCacheReq := by
  cases CustomRun.send_cases hsend with
  | cached =>
    show (s.sys.numRequests.count req.typeId).total = s.accepted + (s.sys.totalCacheReq + 1)
    rw [RequestCounts.total_count]
    omega
  | uncached _ _ _ hcached htotal haccepted => omega

theorem total_eq_accepted_add_cached (h : (CustomRun.machine channels mapper k).Reachable s) :
    s.sys.numRequests.total = s.accepted + s.sys.totalCacheReq :=
  CustomRun.invariant (P := fun s => s.sys.numRequests.total = s.accepted + s.sys.totalCacheReq) rfl
    (fun _ _ hs => hs) (fun _ _ _ _ hs _ hsend => total_send hs hsend) h

theorem no_cached_request (h : (CustomRun.machine channels mapper k).ReachableWhen SendsUncached s) :
    s.sys.totalCacheReq = 0 := by
  refine CustomRun.invariant (P := fun s => s.sys.totalCacheReq = 0) rfl (fun _ _ hs => hs) ?_ h
  intro s s' req isSuccess hs huncached hsend
  cases CustomRun.send_cases hsend with
  | cached hcached => exact absurd hcached (huncached req rfl)
  | uncached _ _ _ hsame => exact hsame.trans hs

end

/-! ## Cores over the memory system -/

/-- Cores, the translation they share, the memory system, and the loads and stores issued. -/
structure CoreRun (τ κ : Type) where
  cores : List SimpleO3Core
  translation : τ
  memory : CustomRun κ
  issued : ℕ := 0

/-- A cycle of a core, told `accept` if it sends; a served request; other steps of the controllers. -/
inductive CoreCall (C τ κ : Type) where
  | tick (core : ℕ) (translate : Translate C τ) (accept : Bool)
  | receive (core : ℕ) (req : Request C)
  | controllers (f : κ → κ)

namespace CoreRun

variable (channels : Channels C κ) (mapper : Request C → Request C) (s : CoreRun τ κ)

def sendAttempt (memory : CustomRun κ) :
    Option (Attempt C) → Option (CustomRun κ × ℕ)
  | none => some (memory, 0)
  | some attempt =>
    match memory.send channels mapper attempt.req with
    | none => none
    | some (isSuccess, memory') =>
      if isSuccess = attempt.accepted then some (memory', isSuccess.toNat) else none

def step :
    CoreCall C τ κ → Option (CoreRun τ κ)
  | .tick i translate accept =>
    match s.cores[i]? with
    | none => none
    | some c =>
      match c.tick translate accept s.translation with
      | none => none
      | some (c', t, attempt) =>
        (sendAttempt channels mapper s.memory attempt).map fun r =>
          ⟨s.cores.set i c', t, r.1, s.issued + r.2⟩
  | .receive i req =>
    match s.cores[i]? with
    | none => none
    | some c => some { s with cores := s.cores.set i (c.receive req) }
  | .controllers f =>
    (s.memory.step channels mapper (.controllers f)).map fun memory => { s with memory := memory }

def machine (cores : List SimpleO3Core) (t : τ) (k : κ) :
    Machine (CoreRun τ κ) (CoreCall C τ κ) where
  init := { cores := cores, translation := t, memory := { sys := { controllers := k } } }
  step := step channels mapper

/-- Before the cycle the page of the request that a core sends is not in the top cache. -/
def CoreSendsUncached (call : CoreCall C τ κ) : Prop :=
  ∀ i translate accept c c' t attempt, call = .tick i translate accept → s.cores[i]? = some c →
    c.tick translate accept s.translation = some (c', t, some attempt) →
    CustomDRAMSystem.vpnOf attempt.req ∉ s.memory.sys.topCache

variable {channels : Channels C κ} {mapper : Request C → Request C} {cores : List SimpleO3Core}
  {t : τ} {k : κ} {s : CoreRun τ κ}

theorem CoreSendsUncached.send {i : ℕ} {translate : Translate C τ} {accept : Bool}
    {c c' : SimpleO3Core} {attempt : Attempt C}
    (h : CoreSendsUncached s (.tick i translate accept : CoreCall C τ κ)) (hc : s.cores[i]? = some c)
    (htick : c.tick translate accept s.translation = some (c', t, some attempt)) :
    SendsUncached s.memory (.send attempt.req) := by
  intro req heq
  cases heq
  exact h i translate accept c c' t attempt rfl hc htick

theorem sendAttempt_cases {memory memory' : CustomRun κ} {attempt : Option (Attempt C)} {n : ℕ}
    (h : sendAttempt channels mapper memory attempt = some (memory', n)) :
    memory' = memory ∧ n = 0 ∨
      ∃ a, attempt = some a ∧ memory.step channels mapper (.send a.req) = some memory' ∧
        memory'.accepted = memory.accepted + n := by
  unfold sendAttempt at h
  split at h
  · cases h
    exact .inl ⟨rfl, rfl⟩
  rename_i a
  split at h
  · cases h
  rename_i isSuccess memory₁ hanswer
  split at h
  · cases h
    refine .inr ⟨a, rfl, ?_, ?_⟩
    · show (memory.send channels mapper a.req).map Prod.snd = some memory'
      rw [hanswer]
      rfl
    · obtain ⟨r, -, heq⟩ := Option.map_eq_some_iff.mp hanswer
      cases heq
      rfl
  · cases h

/-- **A run of the cores is a run of the memory system**, which accepted what the cores have issued. -/
theorem memory_reachable (ok : CustomRun κ → CustomCall C κ → Prop)
    {coreOk : CoreRun τ κ → CoreCall C τ κ → Prop}
    (hsend : ∀ s i translate accept c c' t attempt, coreOk s (.tick i translate accept) →
      s.cores[i]? = some c → c.tick translate accept s.translation = some (c', t, some attempt) →
      ok s.memory (.send attempt.req))
    (hcontrollers : ∀ s f, ok s (.controllers f))
    (h : (machine channels mapper cores t k).ReachableWhen coreOk s) :
    (CustomRun.machine channels mapper k).ReachableWhen ok s.memory ∧
      s.issued = s.memory.accepted := by
  refine h.invariant (P := fun s => (CustomRun.machine channels mapper k).ReachableWhen ok s.memory ∧
    s.issued = s.memory.accepted) ⟨.start, rfl⟩ ?_
  rintro s call s' ⟨hreach, hissued⟩ hok hstep
  cases call with
  | tick i translate accept =>
    simp only [machine, step] at hstep
    split at hstep
    · cases hstep
    rename_i c hc
    split at hstep
    · cases hstep
    rename_i c' t' attempt htick
    obtain ⟨⟨memory, n⟩, hattempt, rfl⟩ := Option.map_eq_some_iff.mp hstep
    rcases sendAttempt_cases hattempt with ⟨rfl, rfl⟩ | ⟨a, rfl, hmemory, haccepted⟩
    · exact ⟨hreach, hissued⟩
    · refine ⟨.next hreach (hsend _ _ _ _ _ _ _ _ hok hc htick) hmemory, ?_⟩
      show s.issued + n = memory.accepted
      rw [haccepted, hissued]
  | receive i req =>
    simp only [machine, step] at hstep
    split at hstep
    · cases hstep
    · cases hstep
      exact ⟨hreach, hissued⟩
  | controllers f =>
    cases hstep
    exact ⟨.next hreach (hcontrollers _ f) rfl, hissued⟩

end CoreRun

open CoreRun in
/-- **The counters count the accepted requests exactly when no request was sent to a cached page**, in
every run of the memory system and of cores over it. -/
theorem requests_counted_once (channels : Channels C κ) (mapper : Request C → Request C) (k : κ)
    (cores : List SimpleO3Core) (t : τ) :
    (∀ s, (CustomRun.machine channels mapper k).Reachable s →
      (s.sys.numRequests.total = s.accepted ↔ s.sys.totalCacheReq = 0)) ∧
    (∀ s, (CustomRun.machine channels mapper k).ReachableWhen SendsUncached s →
      s.sys.numRequests.total = s.accepted) ∧
    (∀ s, (machine channels mapper cores t k).Reachable s →
      (s.memory.sys.numRequests.total = s.issued ↔ s.memory.sys.totalCacheReq = 0)) ∧
    ∀ s, (machine channels mapper cores t k).ReachableWhen CoreSendsUncached s →
      s.memory.sys.numRequests.total = s.issued := by
  have hmemory : ∀ s, (CustomRun.machine channels mapper k).Reachable s →
      (s.sys.numRequests.total = s.accepted ↔ s.sys.totalCacheReq = 0) := by
    intro s h
    have htotal := total_eq_accepted_add_cached h
    omega
  refine ⟨hmemory, ?_, ?_, ?_⟩
  · intro s h
    exact (hmemory s h.reachable).mpr (no_cached_request h)
  · intro s h
    obtain ⟨hreach, hissued⟩ := memory_reachable (fun _ _ => True)
      (fun _ _ _ _ _ _ _ _ _ _ _ => trivial) (fun _ _ => trivial) h
    rw [hissued]
    exact hmemory s.memory hreach
  · intro s h
    obtain ⟨hreach, hissued⟩ := memory_reachable SendsUncached
      (fun _ _ _ _ _ _ _ _ => CoreSendsUncached.send) sendsUncached_controllers h
    rw [hissued]
    exact (hmemory s.memory hreach.reachable).mpr (no_cached_request hreach)

/-! ## Two runs -/

def oneChannel : Channels DDR4.Command (List (Controller DDR4.Command)) :=
  Channels.generic alwaysReady

def mapToBankZero (req : Request DDR4.Command) : Request DDR4.Command :=
  { req with addrVec := [0, 0, 0, 0, 0, 0] }

def translateSame : Translate DDR4.Command Unit := fun req t =>
  some (true, { req with vAddr := req.addr }, t)

def loadsOf (vpns : List ℤ) : SimpleO3Core :=
  SimpleO3Core.create 0 4 8 100 (vpns.map fun vpn => { loadAddr := vpn * 2 ^ 12 })

def loadingMachine (vpns : List ℤ) :
    Machine (CoreRun Unit (List (Controller DDR4.Command)))
      (CoreCall DDR4.Command Unit (List (Controller DDR4.Command))) :=
  CoreRun.machine oneChannel mapToBankZero [loadsOf vpns] () [{}]

def loadCycles (answers : List Bool) :
    List (CoreCall DDR4.Command Unit (List (Controller DDR4.Command))) :=
  answers.map fun accept => .tick 0 translateSame accept

def checkSendsUncached (s : CoreRun Unit κ) : CoreCall C Unit κ → Bool
  | .tick i translate accept =>
    match s.cores[i]?.bind fun c => c.tick translate accept s.translation with
    | some (_, _, some attempt) =>
      decide (CustomDRAMSystem.vpnOf attempt.req ∉ s.memory.sys.topCache)
    | _ => true
  | _ => true

theorem checkSendsUncached_spec (s : CoreRun Unit κ) (call : CoreCall C Unit κ)
    (h : checkSendsUncached s call = true) : CoreRun.CoreSendsUncached s call := by
  rintro i translate accept c c' t attempt rfl hc htick
  simpa [checkSendsUncached, hc, htick] using h

/-- Loads from two pages are counted once each. -/
theorem uncached_loads_counted_once :
    ∃ s, (loadingMachine [1, 2]).ReachableWhen CoreRun.CoreSendsUncached s ∧ s.issued = 2 ∧
      s.memory.sys.numRequests.total = s.issued := by
  obtain ⟨s, hwhen, hissued⟩ := Machine.exists_reachableWhen (m := loadingMachine [1, 2])
    checkSendsUncached checkSendsUncached_spec (P := fun s => s.issued = 2) (loadCycles [true, true])
    (by decide +kernel) (by decide +kernel)
  exact ⟨s, hwhen, hissued,
    (requests_counted_once oneChannel mapToBankZero [{}] [loadsOf [1, 2]] ()).2.2.2 s hwhen⟩

/-- **A load from a cached page is counted every cycle**: after the first load the page is cached; the
second is counted in each of the next two cycles and is not issued. -/
theorem cached_load_counted_every_cycle :
    ∃ s, (loadingMachine [1]).Reachable s ∧ s.memory.sys.numRequests = { read := 3 } ∧
      s.memory.accepted = 1 ∧ s.issued = 1 :=
  Machine.exists_reachable (loadCycles [true, false, false]) (by decide +kernel)

end MultiCoreMemory
