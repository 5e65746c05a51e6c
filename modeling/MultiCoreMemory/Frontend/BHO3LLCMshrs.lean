import MultiCoreMemory.Frontend.BHO3LLCDelivery

/-!
# The MSHR counts of the cores (`bhO3/bhllc.cpp`)

A core's count goes up when a miss of the core takes an MSHR entry, and the count of the core of the
completed request goes down when an entry is given back.  A delayed hit is completed by the same
routine as a read.
-/

namespace MultiCoreMemory

open List Option

namespace BHO3LLC

variable {p : BHO3Params} {s s' : BHO3LLC} {owner : ℕ → Option ℕ} {req : LLCRequest} {m : MSHREntry}

def ownedBy (owner : ℕ → Option ℕ) (mshrs : List MSHREntry) (core : ℕ) : ℕ :=
  mshrs.countP fun m => owner m.line.node = some core

def CountsExact (owner : ℕ → Option ℕ) (s : BHO3LLC) : Prop :=
  ∀ core, s.allocatedMshrs core = ownedBy owner s.mshrs core

/-! ## One entry -/

theorem ownedBy_erase (owner : ℕ → Option ℕ) {mshrs : List MSHREntry} (hm : m ∈ mshrs) (core : ℕ) :
    ownedBy owner mshrs core =
      ownedBy owner (mshrs.erase m) core + if owner m.line.node = some core then 1 else 0 := by
  rw [ownedBy, (perm_cons_erase hm).countP_eq, countP_cons, ownedBy]
  simp

theorem filled_spec (s : BHO3LLC) (req : LLCRequest) (m : MSHREntry) :
    (s.filled req m).mshrs = s.mshrs.erase m ∧
      (s.filled req m).queuedReadReqs = s.queuedReadReqs ∧
      ∀ core, (s.filled req m).allocatedMshrs core =
        s.allocatedMshrs core + if req.source = some core then -1 else 0 := by
  rw [filled, addAllocated_eq]
  exact ⟨rfl, rfl, fun _ => rfl⟩

/-- **A completion keeps the counts exact if the entry it gives back belongs to its core**, and only
then. -/
theorem exact_filled_iff (h : CountsExact owner s) (hm : m ∈ s.mshrs) (req : LLCRequest) :
    CountsExact owner (s.filled req m) ↔ owner m.line.node = req.source := by
  obtain ⟨hmshrs, -, hallocated⟩ := filled_spec s req m
  have hcount : ∀ core, (s.filled req m).allocatedMshrs core =
      ownedBy owner (s.filled req m).mshrs core ↔
        (owner m.line.node = some core ↔ req.source = some core) := by
    intro core
    rw [hmshrs, hallocated core, h core, ownedBy_erase owner hm core]
    split_ifs <;> simp_all
  constructor
  · intro hexact
    exact ext fun core => (hcount core).mp (hexact core)
  · intro howner core
    rw [hcount core, howner]

/-! ## A new entry -/

theorem Wf.mshr_node_lt (h : Wf p s) (hm : m ∈ s.mshrs) : m.line.node < s.nodes := by
  obtain ⟨l, hl, hnode, -⟩ := (h.fills m).mp hm
  rw [← hnode]
  exact (h.sets _).fresh l hl

theorem evicted_nodes {i : ℕ} (hev : Evicted p s i s') : s'.nodes = s.nodes := by
  cases hev with
  | none => rfl
  | victim =>
    unfold evictLine
    split <;> rfl

theorem fetch_spec (s : BHO3LLC) (dirty : Bool) (hread : req.type = .read) :
    (s.fetch p req dirty).mshrs =
        s.mshrs ++ [{ addr := req.addr, line := ⟨p.getIndex req.addr, s.nodes⟩ }] ∧
      (s.fetch p req dirty).queuedReadReqs = s.queuedReadReqs ++ [req] ∧
      ∀ core, (s.fetch p req dirty).allocatedMshrs core =
        s.allocatedMshrs core + if req.source = some core then 1 else 0 := by
  rw [fetch, addAllocated_eq]
  refine ⟨rfl, ?_, fun _ => rfl⟩
  simp [queuedReadReqs, queueFetch, pushMiss, hread, pushBack]

theorem send_mshrs_of_isBlacklisted (h : s.isBlacklisted req = true) {ok : Bool}
    (hsend : s.send p req = some (ok, s')) : s'.mshrs = s.mshrs := by
  unfold BHO3LLC.send at hsend
  split at hsend
  · cases hsend
    rfl
  · dsimp only at hsend
    split at hsend
    · obtain ⟨s₁, hjoin, heq⟩ := map_eq_some_iff.mp hsend
      cases heq
      simp only [joinMiss, modifyLine, bind_eq_bind, bind_eq_some_iff,
        ite_none_right_eq_some] at hjoin
      obtain ⟨s₂, ⟨-, heq⟩, hs₁⟩ := hjoin
      cases heq
      cases hs₁
      rfl
    · have hlisted : s.isBlacklisted { req with type := .read } = true := h
      rw [if_pos hlisted] at hsend
      cases hsend
      rfl

end BHO3LLC

namespace BHO3

open BHO3LLC

variable {p : BHO3Params} {s s' : BHO3} {owner owner' : ℕ → Option ℕ} {req : LLCRequest}

structure Accounted (owner : ℕ → Option ℕ) (s : BHO3) : Prop where
  pairs : (s.llc.mshrs.map fun m => (m.addr, owner m.line.node)).Perm
    (s.readReqs.map fun r => (r.addr, r.source))
  exact : CountsExact owner s.llc

namespace Accounted

variable (h : Accounted owner s)
include h

theorem same (hmshrs : s'.llc.mshrs = s.llc.mshrs) (hreads : s'.readReqs = s.readReqs)
    (hallocated : s'.llc.allocatedMshrs = s.llc.allocatedMshrs) : Accounted owner s' where
  pairs := by
    rw [hmshrs, hreads]
    exact h.pairs
  exact := by
    unfold CountsExact
    rw [hmshrs, hallocated]
    exact h.exact

theorem lines (hsame : SameRequests s.llc s'.llc) (hflight : s'.inFlight = s.inFlight) :
    Accounted owner s' :=
  h.same hsame.mshrs (by rw [readReqs, hsame.reads, hflight]; rfl) hsame.allocated

theorem owner_congr (howner : ∀ m ∈ s.llc.mshrs, owner' m.line.node = owner m.line.node) :
    Accounted owner' s where
  pairs := by
    have hmap : (s.llc.mshrs.map fun m => (m.addr, owner' m.line.node)) =
        s.llc.mshrs.map fun m => (m.addr, owner m.line.node) := by
      refine map_congr_left ?_
      intro m hm
      rw [howner m hm]
    rw [hmap]
    exact h.pairs
  exact := by
    intro core
    rw [h.exact core, ownedBy, ownedBy]
    refine congrArg Nat.cast (countP_congr ?_)
    intro m hm
    rw [howner m hm]

theorem fetch (hread : req.type = .read) (dirty : Bool) (hnew : owner s.llc.nodes = req.source) :
    Accounted owner { s with llc := s.llc.fetch p req dirty } := by
  obtain ⟨hmshrs, hreads, hallocated⟩ := fetch_spec (p := p) s.llc dirty hread
  constructor
  · show ((s.llc.fetch p req dirty).mshrs.map fun m => (m.addr, owner m.line.node)).Perm
      (((s.llc.fetch p req dirty).queuedReadReqs ++ s.inFlight).map fun r => (r.addr, r.source))
    have hone : [(req.addr, owner s.llc.nodes)] = [req].map fun r => (r.addr, r.source) := by
      rw [hnew, map_singleton]
    rw [hmshrs, hreads, map_append, append_assoc, map_singleton, hone]
    refine (h.pairs.append_right _).trans ?_
    rw [← map_append, readReqs, append_assoc]
    exact (perm_append_comm.append_left _).map _
  · intro core
    show (s.llc.fetch p req dirty).allocatedMshrs core =
      (ownedBy owner (s.llc.fetch p req dirty).mshrs core : ℕ)
    rw [hallocated core, hmshrs, ownedBy, countP_append, countP_singleton, ← ownedBy,
      h.exact core, hnew]
    by_cases hcore : req.source = some core <;> simp [hcore]

/-- **A send** keeps the account; the list nodes made by it belong to its core. -/
theorem send (hwf : Wf p s.llc) {core addr : ℕ} {type : AccessType}
    (hold : ∀ node < s.llc.nodes, owner' node = owner node) (hnew : owner' s.llc.nodes = some core)
    (hst : s.send p core addr type = some s') : Accounted owner' s' := by
  have h' : Accounted owner' s := h.owner_congr fun m hm => hold _ (hwf.mshr_node_lt hm)
  obtain ⟨ok, llc, hsent, heq⟩ := send_eq hwf core addr type
  cases hst.symm.trans heq
  have hllc : Accounted owner' { s with llc } := by
    cases hsent with
    | hit => exact h'.same rfl rfl rfl
    | join => exact h'.same rfl rfl rfl
    | refuse => exact h'
    | @start s₁ hev =>
      have h₁ : Accounted owner' { s with llc := s₁ } := h'.lines (.evicted hev) rfl
      exact h₁.fetch rfl _ ((evicted_nodes hev).symm ▸ hnew)
  cases ok with
  | false => exact hllc
  | true => exact hllc.lines (.recordStore llc addr type) rfl

theorem sendMisses (accepts : ℕ → Bool) : Accounted owner (s.startCycle.sendMisses accepts) where
  pairs := h.pairs.trans ((s.readReqs_sendMisses accepts).map _)
  exact := h.exact

/-- **A cycle** keeps the account, if no hit falls due while its line is being fetched. -/
theorem tick (hbal : Balanced p (s.llc.hitList.map (·.2)) s) (hsettled : HitsSettled p s)
    {accepts : ℕ → Bool} (hst : s.tick p accepts = some s') : Accounted owner s' := by
  obtain ⟨s₁, rest, heq, -, hsame, hflight⟩ := hbal.tick hsettled accepts
  cases hst.symm.trans heq
  have h₁ : Accounted owner s₁ := (h.sendMisses accepts).lines hsame hflight
  exact h₁.same rfl rfl rfl

/-- **A completed read** gives back an entry of its own core. -/
theorem complete {hits : List LLCRequest} (hbal : Balanced p hits s) {i : ℕ}
    (hst : s.complete p i = some s') :
    Accounted owner s' ∧ ∃ req, s.inFlight[i]? = some req ∧
      ∀ core, req.source ≠ some core → s'.llc.allocatedMshrs core = s.llc.allocatedMshrs core := by
  obtain ⟨req, hget, -⟩ := bind_eq_some_iff.mp hst
  obtain ⟨m, llc, hm, haddr, -, hsame, heq⟩ := hbal.complete_eq hget
  cases hst.symm.trans heq
  have hpairs := h.pairs.trans ((readReqs_perm hget).map fun r => (r.addr, r.source))
  rw [map_cons] at hpairs
  -- the entry has the address and the core of the read
  obtain ⟨m', hm', hpair⟩ := List.mem_map.mp (hpairs.symm.subset mem_cons_self)
  obtain rfl := hbal.wf.mshr_eq hm' hm (by rw [(Prod.mk.inj hpair).1, haddr])
  obtain ⟨hmshrs, hreads, hallocated⟩ := filled_spec s.llc req m'
  have hfilled : Accounted owner { s with
      llc := s.llc.filled req m', inFlight := s.inFlight.eraseIdx i } := by
    refine ⟨?_, (exact_filled_iff h.exact hm req).mpr (Prod.mk.inj hpair).2⟩
    have hback := ((perm_cons_erase hm).map fun m => (m.addr, owner m.line.node)).symm.trans hpairs
    rw [map_cons, hpair] at hback
    show ((s.llc.filled req m').mshrs.map _).Perm
      (((s.llc.filled req m').queuedReadReqs ++ s.inFlight.eraseIdx i).map _)
    rw [hmshrs, hreads]
    exact hback.cons_inv
  have hlines : Accounted owner { s with llc, inFlight := s.inFlight.eraseIdx i } :=
    hfilled.lines hsame rfl
  refine ⟨hlines.same rfl rfl rfl, req, hget, fun core hother => ?_⟩
  show llc.allocatedMshrs core = _
  rw [hsame.allocated, hallocated core, if_neg hother, add_zero]

end Accounted

/-! ## Whole runs -/

def nextOwner (owner : ℕ → Option ℕ) (nodes : ℕ) : BHO3Call → ℕ → Option ℕ
  | .send core _ _, node => if nodes ≤ node then some core else owner node
  | _, node => owner node

/-- **One call** in which no hit falls due while its line is being fetched. -/
theorem Accounted.step (h : Accounted owner s) (hbal : Balanced p (s.llc.hitList.map (·.2)) s)
    {call : BHO3Call} (hok : SettledCall p s call) (hst : (bho3 p).step s call = some s') :
    Accounted (nextOwner owner s.llc.nodes call) s' := by
  cases call with
  | send core addr type =>
    refine h.send hbal.wf (fun node hlt => ?_) ?_ hst
    · exact if_neg (Nat.not_le.mpr hlt)
    · exact if_pos (Nat.le_refl _)
  | tick accepts => exact h.tick hbal hok hst
  | complete i => exact (h.complete hbal hst).1
  | clflush addr =>
    cases hst
    exact h.lines (.clflush _ _) rfl
  | setBlacklistMaxMshrs | addBlacklist | eraseBlacklist =>
    cases hst
    exact h.same rfl rfl rfl

theorem send_mshrs_of_blacklisted {core addr : ℕ} {type : AccessType}
    (hstatus : s.llc.blacklistStatus core = true)
    (hmax : s.llc.blacklistMaxMshrs core ≤ s.llc.allocatedMshrs core)
    (hst : s.send p core addr type = some s') : s'.llc.mshrs = s.llc.mshrs := by
  simp only [BHO3.send, bind_eq_bind, bind_eq_some_iff, Prod.exists] at hst
  obtain ⟨ok, llc, hsend, heq⟩ := hst
  have hmshrs := send_mshrs_of_isBlacklisted (by simp [isBlacklisted, hstatus, hmax]) hsend
  split at heq
  · cases heq
    exact (SameRequests.recordStore llc addr type).mshrs.trans hmshrs
  · cases heq
    exact hmshrs

structure MshrRun where
  sys : BHO3 := {}
  owner : ℕ → Option ℕ := fun _ => none

namespace MshrRun

def owned (s : MshrRun) (core : ℕ) : ℕ := ownedBy s.owner s.sys.llc.mshrs core

def machine (p : BHO3Params) : Machine MshrRun BHO3Call where
  init := {}
  step := fun s call => ((bho3 p).step s.sys call).map fun sys =>
    { sys, owner := nextOwner s.owner s.sys.llc.nodes call }

variable {s s' : MshrRun}

theorem step_eq_some {call : BHO3Call} (h : (machine p).step s call = some s') :
    (bho3 p).step s.sys call = some s'.sys ∧ s'.owner = nextOwner s.owner s.sys.llc.nodes call := by
  obtain ⟨sys, hsys, rfl⟩ := map_eq_some_iff.mp h
  exact ⟨hsys, rfl⟩

theorem accounted_of_reachable
    (hs : (machine p).ReachableWhen (fun s call => SettledCall p s.sys call) s) :
    Balanced p (s.sys.llc.hitList.map (·.2)) s.sys ∧ Accounted s.owner s.sys := by
  refine hs.invariant (P := fun s : MshrRun =>
    Balanced p (s.sys.llc.hitList.map (·.2)) s.sys ∧ Accounted s.owner s.sys) ?_ ?_
  · exact ⟨balanced_init, .nil, fun _ => rfl⟩
  rintro s call s' ⟨hbal, h⟩ hok hst
  obtain ⟨hsys, howner⟩ := step_eq_some hst
  refine ⟨hbal.step hok hsys, ?_⟩
  rw [howner]
  exact h.step hbal hok hsys

/-- **The counts of the cores are exact** in every run in which no hit falls due while its line is being
fetched, a blacklisted core that has its share gets no entry, and a completion keeps the counts exact
just when it gives back an entry of its core. -/
theorem mshr_counts_exact
    (hs : (machine p).ReachableWhen (fun s call => SettledCall p s.sys call) s) :
    (∀ core, s.sys.llc.allocatedMshrs core = s.owned core) ∧
    (∀ core addr type s', s.sys.llc.blacklistStatus core = true →
      s.sys.llc.blacklistMaxMshrs core ≤ s.owned core →
      (machine p).step s (.send core addr type) = some s' → s'.sys.llc.mshrs = s.sys.llc.mshrs) ∧
    (∀ i s', (machine p).step s (.complete i) = some s' →
      ∃ req, s.sys.inFlight[i]? = some req ∧ ∀ core, req.source ≠ some core →
        s'.sys.llc.allocatedMshrs core = s.sys.llc.allocatedMshrs core) ∧
    ∀ req m llc, m ∈ s.sys.llc.mshrs → p.align m.addr = p.align req.addr →
      s.sys.llc.receive p req = some llc →
      (CountsExact s.owner llc ↔ s.owner m.line.node = req.source) := by
  obtain ⟨hbal, h⟩ := accounted_of_reachable hs
  refine ⟨h.exact, ?_, ?_, ?_⟩
  · intro core addr type s' hstatus hmax hst
    obtain ⟨hsys, -⟩ := step_eq_some hst
    rw [owned, ← h.exact core] at hmax
    exact send_mshrs_of_blacklisted hstatus hmax hsys
  · intro i s' hst
    obtain ⟨hsys, -⟩ := step_eq_some hst
    exact (h.complete hbal hsys).2
  · intro req m llc hm hline hreceive
    obtain ⟨llc', hreceive', hrec⟩ := hbal.wf.receive req
    cases hreceive.symm.trans hreceive'
    cases hrec with
    | none hnone => exact absurd hline (hnone m hm)
    | filled hm' hline' =>
      obtain rfl := hbal.wf.mshr_eq hm hm' (hline.trans hline'.symm)
      exact exact_filled_iff h.exact hm req

/-- Two cores miss, the first read is completed, and the other core is blacklisted with one entry. -/
theorem two_cores_counted :
    ∃ s, (machine twoLines).Reachable s ∧ s.sys.llc.blacklistStatus 1 = true ∧
      s.sys.llc.blacklistMaxMshrs 1 = 1 ∧ s.sys.llc.allocatedMshrs 0 = 0 ∧
      s.sys.llc.allocatedMshrs 1 = 1 ∧ s.owned 0 = 0 ∧ s.owned 1 = 1 := by
  obtain ⟨s, hs, hstatus, hmax, hzero, hone⟩ := Machine.exists_reachableWhen (m := machine twoLines)
    (fun s call => decide (SettledCall twoLines s.sys call)) (fun s call => of_decide_eq_true)
    (P := fun s => s.sys.llc.blacklistStatus 1 = true ∧ s.sys.llc.blacklistMaxMshrs 1 = 1 ∧
      s.sys.llc.allocatedMshrs 0 = 0 ∧ s.sys.llc.allocatedMshrs 1 = 1)
    [.send 0 4 .read, .send 1 8 .write, .setBlacklistMaxMshrs 1 1, .addBlacklist 1,
      .tick fun _ => true, .tick fun _ => true, .complete 0] (by decide +kernel) (by decide +kernel)
  have hexact := (mshr_counts_exact hs).1
  have h0 := hexact 0
  have h1 := hexact 1
  exact ⟨s, hs.reachable, hstatus, hmax, hzero, hone, by omega, by omega⟩

/-- The attacker flushes the line of 4 while hits of its own and of core 0 wait, and core 1 misses on
it: the hit of core 0 then gives back the entry of core 1 and lowers the count of core 0. -/
theorem late_hit_gives_back_other_entry :
    ∃ s, (machine oneLine).Reachable s ∧ s.sys.llc.mshrs = [] ∧
      s.sys.llc.allocatedMshrs 0 = -1 ∧ s.owned 0 = 0 ∧
      s.sys.llc.allocatedMshrs 1 = 1 ∧ s.owned 1 = 0 :=
  Machine.exists_reachable
    [.send 0 4 .read, .tick fun _ => true, .tick fun _ => true, .complete 0,
      .send 2 4 .read, .tick fun _ => true, .send 0 4 .read, .tick fun _ => true,
      .send 1 4 .read, .tick fun _ => true] (by decide +kernel)

end MshrRun

end BHO3

end MultiCoreMemory
