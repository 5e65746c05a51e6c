import MultiCoreMemory.Controller.Generic
import MultiCoreMemory.Lib.Machine

/-!
# The memory system with a top cache (`custom_DRAM_system.cpp`)

`send` counts the accesses of every virtual page and keeps the four most accessed pages in
`top_cache`.  A request to one of them is counted and answered `false`; any other is handed to the
controller of its channel.

Access counts are natural numbers in place of `size_t`, so the start value `max()` of the search for
the minimum is above every count.
-/

namespace MultiCoreMemory

variable {C κ σ : Type}

/-- `m_controllers[channel_id]->send(req)`: the answer and the controllers, or an exception. -/
structure Channels (C κ : Type) where
  send : κ → ℕ → Request C → Option (Bool × κ)

def Channels.generic (D : IDRAM C σ) : Channels C (List (Controller C)) where
  send controllers channelId req :=
    match controllers[channelId]? with
    | none => none
    | some c =>
      match c.send D req with
      | .error _ => none
      | .ok (isSuccess, _, c') => some (isSuccess, controllers.set channelId c')

/-- `s_num_read_requests`, `s_num_write_requests` and `s_num_other_requests`. -/
structure RequestCounts where
  read : ℕ := 0
  write : ℕ := 0
  other : ℕ := 0
  deriving DecidableEq, Repr

namespace RequestCounts

variable (n : RequestCounts) (typeId : ℕ)

def count : RequestCounts :=
  if typeId = typeRead then { n with read := n.read + 1 }
  else if typeId = typeWrite then { n with write := n.write + 1 }
  else { n with other := n.other + 1 }

def total : ℕ := n.read + n.write + n.other

@[simp] theorem total_count : (n.count typeId).total = n.total + 1 := by
  unfold count
  split
  · show n.read + 1 + n.write + n.other = n.read + n.write + n.other + 1
    omega
  · split
    · show n.read + (n.write + 1) + n.other = n.read + n.write + n.other + 1
      omega
    · rfl

end RequestCounts

/-! ## The top cache -/

/-- The loop of `update_top_cache` from position `index` on: the position and the count of the first
page with the smallest count so far. -/
def minLoop (count : ℤ → ℕ) : ℕ → Option (ℕ × ℕ) → List ℤ → Option (ℕ × ℕ)
  | _, best, [] => best
  | index, none, vpn :: vpns => minLoop count (index + 1) (some (index, count vpn)) vpns
  | index, some (minIndex, minCount), vpn :: vpns =>
    minLoop count (index + 1)
      (if count vpn < minCount then some (index, count vpn) else some (minIndex, minCount)) vpns

def updateTopCache (count : ℤ → ℕ) (topCache : List ℤ) (vpn : ℤ) (vpnTotalCount : ℕ) : List ℤ :=
  if vpn ∈ topCache then topCache
  else if topCache.length < 4 then topCache ++ [vpn]
  else
    match minLoop count 0 none topCache with
    | none => topCache
    | some (minIndex, minCount) =>
      if minCount < vpnTotalCount then topCache.set minIndex vpn else topCache

/-! ## The memory system -/

/-- `CustomDRAMSystem` with the globals `top_cache` and `total_cache_req`. -/
structure CustomDRAMSystem (κ : Type) where
  controllers : κ
  numRequests : RequestCounts := {}
  vpnAccessCounts : UnorderedMap ℤ ℕ := ∅
  topCache : List ℤ := []
  totalCacheReq : ℕ := 0

namespace CustomDRAMSystem

variable (s : CustomDRAMSystem κ) (req : Request C) (vpn : ℤ)

/-- `vpn_access_counts[vpn]`.  (The entry that a read of an absent page would insert is its default;
the pages that `update_top_cache` reads have one.) -/
def accessCount : ℕ := (s.vpnAccessCounts.lookup vpn).getD 0

def countAccess : CustomDRAMSystem κ :=
  { s with vpnAccessCounts := s.vpnAccessCounts.insert vpn (s.accessCount vpn + 1) }

def vpnOf : ℤ := req.vAddr / 2 ^ 12

def serveCached : CustomDRAMSystem κ :=
  { s with
    totalCacheReq := s.totalCacheReq + 1
    numRequests := s.numRequests.count req.typeId }

def send (channels : Channels C κ) (mapper : Request C → Request C) (s : CustomDRAMSystem κ)
    (req : Request C) : Option (Bool × CustomDRAMSystem κ) :=
  let vpn := vpnOf req
  let s := s.countAccess vpn
  if vpn ∈ s.topCache then some (false, s.serveCached req)
  else
    let s := { s with topCache := updateTopCache s.accessCount s.topCache vpn (s.accessCount vpn) }
    let req := mapper req
    match channels.send s.controllers (req.addrVec.level 0).toNat req with
    | none => none
    | some (isSuccess, controllers) =>
      let s := { s with controllers := controllers }
      some (isSuccess,
        if isSuccess then { s with numRequests := s.numRequests.count req.typeId } else s)

theorem accessCount_countAccess (v : ℤ) :
    (s.countAccess vpn).accessCount v =
      if v = vpn then s.accessCount vpn + 1 else s.accessCount v := by
  unfold accessCount countAccess
  dsimp only
  split
  · rename_i h
    rw [h, AList.lookup_insert]
    rfl
  · rename_i h
    rw [AList.lookup_insert_ne h]

end CustomDRAMSystem

/-! ## Runs -/

structure CustomRun (κ : Type) where
  sys : CustomDRAMSystem κ
  accepted : ℕ := 0

inductive CustomCall (C κ : Type) where
  | send (req : Request C)
  | controllers (f : κ → κ)

namespace CustomRun

variable (channels : Channels C κ) (mapper : Request C → Request C)

def send (s : CustomRun κ) (req : Request C) : Option (Bool × CustomRun κ) :=
  (s.sys.send channels mapper req).map fun r => (r.1, ⟨r.2, s.accepted + r.1.toNat⟩)

def step (s : CustomRun κ) : CustomCall C κ → Option (CustomRun κ)
  | .send req => (s.send channels mapper req).map Prod.snd
  | .controllers f => some { s with sys := { s.sys with controllers := f s.sys.controllers } }

def machine (k : κ) : Machine (CustomRun κ) (CustomCall C κ) where
  init := { sys := { controllers := k } }
  step := step channels mapper

/-- **What `send` does**: a request to a cached page is counted and refused; any other updates the
cache and is counted if the controller takes it. -/
inductive SendCases (s : CustomRun κ) (req : Request C) : Bool → CustomRun κ → Prop
  | cached : CustomDRAMSystem.vpnOf req ∈ s.sys.topCache →
      SendCases s req false
        { s with sys := (s.sys.countAccess (CustomDRAMSystem.vpnOf req)).serveCached req }
  | uncached {isSuccess : Bool} {s' : CustomRun κ} :
      CustomDRAMSystem.vpnOf req ∉ s.sys.topCache →
      s'.sys.vpnAccessCounts =
        (s.sys.countAccess (CustomDRAMSystem.vpnOf req)).vpnAccessCounts →
      s'.sys.topCache = updateTopCache
        (s.sys.countAccess (CustomDRAMSystem.vpnOf req)).accessCount s.sys.topCache
        (CustomDRAMSystem.vpnOf req) (s.sys.accessCount (CustomDRAMSystem.vpnOf req) + 1) →
      s'.sys.totalCacheReq = s.sys.totalCacheReq →
      s'.sys.numRequests.total = s.sys.numRequests.total + isSuccess.toNat →
      s'.accepted = s.accepted + isSuccess.toNat →
      SendCases s req isSuccess s'

variable {channels mapper}

theorem send_cases {s s' : CustomRun κ} {req : Request C} {isSuccess : Bool}
    (h : s.send channels mapper req = some (isSuccess, s')) : SendCases s req isSuccess s' := by
  obtain ⟨⟨ok, sys⟩, hsend, heq⟩ := Option.map_eq_some_iff.mp h
  cases heq
  unfold CustomDRAMSystem.send at hsend
  dsimp only at hsend
  split at hsend
  · rename_i hcached
    cases hsend
    exact .cached hcached
  · rename_i huncached
    split at hsend
    · cases hsend
    cases hsend
    have hcount : (s.sys.countAccess (CustomDRAMSystem.vpnOf req)).accessCount
        (CustomDRAMSystem.vpnOf req) = s.sys.accessCount (CustomDRAMSystem.vpnOf req) + 1 := by
      rw [CustomDRAMSystem.accessCount_countAccess, if_pos rfl]
    cases ok with
    | true =>
      refine .uncached huncached rfl ?_ rfl (RequestCounts.total_count ..) rfl
      rw [← hcount]
      rfl
    | false =>
      refine .uncached huncached rfl ?_ rfl rfl rfl
      rw [← hcount]
      rfl

theorem invariant {k : κ} {ok : CustomRun κ → CustomCall C κ → Prop} {P : CustomRun κ → Prop}
    (h0 : P (machine channels mapper k).init)
    (hcontrollers : ∀ s f, P s → P { s with sys := { s.sys with controllers := f } })
    (hsend : ∀ s s' req isSuccess, P s → ok s (.send req) →
      s.send channels mapper req = some (isSuccess, s') → P s')
    {s : CustomRun κ} (h : (machine channels mapper k).ReachableWhen ok s) : P s := by
  refine h.invariant h0 ?_
  intro s call s' hs hok hstep
  cases call with
  | send req =>
    obtain ⟨⟨isSuccess, s₁⟩, hanswer, rfl⟩ := Option.map_eq_some_iff.mp hstep
    exact hsend s s₁ req isSuccess hs hok hanswer
  | controllers f =>
    cases hstep
    exact hcontrollers s _ hs

end CustomRun

end MultiCoreMemory
