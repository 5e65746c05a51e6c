import MultiCoreMemory.Sniper.DirectoryLinks

/-!
# What the directory waits for

The main result is `Settled.serve`: treating the head, and what follows it in the queue, fails no assertion
and ends in a steady state.
-/

namespace MultiCoreMemory.Sniper

open List Option Function Directory

variable {n : ℕ} {D : Type} {cfg : DirectoryConfig}

def Directory.requesters (d : Directory n D) : List (Fin n) := d.queue.map (·.requester)

structure ShmemReq.Fresh (r : ShmemReq n) : Prop where
  wait : r.waitForData = false
  forward : r.forwardingFrom = none

def only (o : Fin n) (k : Revoke) : Fin n → Option Revoke :=
  Function.update (fun _ => none) o (some k)

theorem only_self (o : Fin n) (k : Revoke) : only o k o = some k := update_self ..

theorem only_of_ne {o i : Fin n} {k : Revoke} (h : i ≠ o) : only o k i = none :=
  update_of_ne h ..

theorem of_only_eq_some {o i : Fin n} {k t : Revoke} (h : only o k i = some t) : i = o ∧ k = t := by
  by_cases hi : i = o
  · subst hi
    rw [only_self] at h
    exact ⟨rfl, some.inj h⟩
  · rw [only_of_ne hi] at h
    cases h

theorem update_only_none (o : Fin n) (k : Revoke) :
    Function.update (only o k) o none = fun _ => none := by
  rw [only, update_idem, update_eq_self]

/-! ## The entry and its links -/

/-- One request of a core at a time, and only the one at the head has been treated. -/
structure Queued (queue : List (ShmemReq n)) (cores : Fin n → Core D) : Prop where
  nodup : (queue.map (·.requester)).Nodup
  pending : ∀ r ∈ queue, (cores r.requester).pending = some r.type
  fresh : ∀ r ∈ queue.tail, r.Fresh

theorem Queued.tail {queue : List (ShmemReq n)} {cores : Fin n → Core D} {r : ShmemReq n}
    (h : Queued (r :: queue) cores) : Queued queue cores where
  nodup := (nodup_cons.mp h.nodup).2
  pending x hx := h.pending x (mem_cons_of_mem r hx)
  fresh x hx := h.fresh x (mem_of_mem_tail hx)

/-- The entry is well formed, and every core is linked to the directory. -/
structure Linked (cfg : DirectoryConfig) (d : Directory n D) (cores : Fin n → Core D)
    (w : Fin n → Option Revoke) (granted : Option (Fin n)) : Prop where
  uncached : d.dstate = .UNCACHED ↔ d.sharers = ∅
  owned : d.dstate = .EXCLUSIVE ∨ d.dstate = .MODIFIED →
    ∃ o, d.owner = some o ∧ d.sharers = {o}
  room : d.sharers.card ≤ cfg.maxHwSharers
  queued : Queued d.queue cores
  links : ∀ i, Link d.dstate (i ∈ d.sharers) (i ∈ d.requesters) (granted = some i) (w i)
    (cores i).cstate (cores i).pending (cores i).up (d.down i)
  shared_of_inv : ∀ i, w i = some .INV_REQ → d.dstate = .SHARED

namespace Linked

variable {d d' : Directory n D} {cores : Fin n → Core D} {w : Fin n → Option Revoke}
  {granted : Option (Fin n)} {r : ShmemReq n} {rest : List (ShmemReq n)}

theorem of_eq (h : Linked cfg d cores w granted) (hds : d'.dstate = d.dstate)
    (hsharers : d'.sharers = d.sharers) (howner : d'.owner = d.owner) (hqueue : d'.queue = d.queue)
    (hdown : d'.down = d.down) : Linked cfg d' cores w granted := by
  obtain ⟨ds, sharers, owner, fwd, queue, down, dram, reads, reqs, events⟩ := d
  obtain ⟨ds', sharers', owner', fwd', queue', down', dram', reads', reqs', events'⟩ := d'
  simp only at hds hsharers howner hqueue hdown
  subst hds hsharers howner hqueue hdown
  exact ⟨h.uncached, h.owned, h.room, h.queued, h.links, h.shared_of_inv⟩

theorem setHead (r' : ShmemReq n) (h : Linked cfg d cores w granted) (hq : d.queue = r :: rest)
    (hr : r'.requester = r.requester) (ht : r'.type = r.type) :
    Linked cfg (d.setHead r') cores w granted := by
  have hreq : (d.setHead r').requesters = d.requesters := by
    simp only [Directory.requesters, Directory.setHead, hq, map_cons, tail_cons, hr]
  have hqueued := h.queued
  refine ⟨h.uncached, h.owned, h.room, ⟨?_, ?_, hqueued.fresh⟩, fun i => ?_, h.shared_of_inv⟩
  · rw [← Directory.requesters, hreq]
    exact hqueued.nodup
  · have hp := hqueued.pending
    rw [hq] at hp
    simp only [Directory.setHead, hq, tail_cons, forall_mem_cons, hr, ht] at hp ⊢
    exact hp
  · rw [hreq]
    exact h.links i

theorem revoke (h : Linked cfg d cores (fun _ => none) granted)
    (hw : ∀ i, w i ≠ none → i ∈ d.sharers ∧ granted ≠ some i)
    (hinv : ∀ i, w i = some .INV_REQ → d.dstate = .SHARED) :
    Linked cfg { d with down := fun i => d.down i ++ asked (w i) } cores w granted := by
  refine ⟨h.uncached, h.owned, h.room, h.queued, fun i => ?_, hinv⟩
  have hi := h.links i
  specialize hw i
  simp only
  cases hwi : w i with
  | none =>
    rw [asked, toList_none, map_nil, append_nil]
    exact hi
  | some t =>
    rw [hwi] at hw
    obtain ⟨hs, hg⟩ := hw (some_ne_none t)
    exact hi.revoke hs hg t

theorem grant {i : Fin n} (ds : DState) (owner : Option (Fin n))
    (h : Linked cfg d cores (fun _ => none) none) (hi : i ∉ d.sharers) (hq : i ∈ d.requesters)
    (hds : d.sharers = ∅ ∨ ds = d.dstate) (hne : ds ≠ .UNCACHED)
    (howner : ds = .EXCLUSIVE ∨ ds = .MODIFIED → owner = some i ∧ d.sharers = ∅)
    (hroom : d.sharers.card < cfg.maxHwSharers) :
    Linked cfg { d with sharers := insert i d.sharers, dstate := ds, owner } cores (fun _ => none)
      (some i) := by
  refine ⟨?_, ?_, ?_, h.queued, fun j => ?_, nofun⟩
  · simp only [hne, Finset.insert_ne_empty]
  · intro hown
    obtain ⟨rfl, hempty⟩ := howner hown
    exact ⟨i, rfl, by simp [hempty]⟩
  · simp only [Finset.card_insert_of_notMem hi]
    exact hroom
  · have hj := h.links j
    by_cases hji : j = i
    · subst hji
      exact hj.grant hi hq (Finset.mem_insert_self ..) rfl
    · have hs : j ∈ d.sharers ↔ j ∈ insert i d.sharers := by
        rw [Finset.mem_insert, or_iff_right hji]
      have hg : none = some j ↔ some i = some j := by simp [Ne.symm hji]
      refine Link.congr ?_ hs Iff.rfl hg
      obtain hempty | rfl := hds
      · exact hj.outside (by simp [hempty])
      · exact hj

variable (hq : d.queue = r :: rest)
include hq

theorem mem_requesters {i : Fin n} (hi : i ≠ r.requester) :
    i ∈ d.requesters ↔ i ∈ rest.map (·.requester) := by
  rw [Directory.requesters, hq, map_cons, mem_cons, or_iff_right hi]

theorem head_mem : r.requester ∈ d.requesters := by
  rw [Directory.requesters, hq]
  exact mem_cons_self

theorem not_mem_rest (h : Linked cfg d cores w granted) : r.requester ∉ rest.map (·.requester) := by
  have hnodup := h.queued.nodup
  rw [hq] at hnodup
  exact (nodup_cons.mp hnodup).1

theorem head_pending (h : Linked cfg d cores w granted) :
    (cores r.requester).pending = some r.type :=
  h.queued.pending r (hq ▸ mem_cons_self)

theorem queued_rest (h : Linked cfg d cores w granted) : Queued rest cores :=
  Queued.tail (hq ▸ h.queued)

theorem reply {msg : ToCache D} (h : Linked cfg d cores (fun _ => none) (some r.requester))
    (hmsg : Answers d.dstate r.type msg) :
    Linked cfg { d.reply r msg with queue := rest } cores (fun _ => none) none := by
  refine ⟨h.uncached, h.owned, h.room, h.queued_rest hq, fun i => ?_, nofun⟩
  have hi := h.links i
  by_cases hir : i = r.requester
  · subst hir
    simp only [Directory.reply, Directory.send, update_self]
    rw [h.head_pending hq] at hi ⊢
    exact hi.reply rfl hmsg (h.not_mem_rest hq) nofun
  · simp only [Directory.reply, Directory.send, update_of_ne hir]
    exact hi.congr Iff.rfl (mem_requesters hq hir) (by simp [Ne.symm hir])

theorem upgrade (h : Linked cfg d cores (fun _ => none) none) (hds : d.dstate = .SHARED)
    (hsharers : d.sharers = {r.requester}) :
    Linked cfg { d.reply r .UPGRADE_REP with
      dstate := .MODIFIED, owner := some r.requester, queue := rest } cores (fun _ => none) none := by
  refine ⟨?_, fun _ => ⟨_, rfl, hsharers⟩, h.room, h.queued_rest hq, fun i => ?_, nofun⟩
  · simp [Directory.reply, Directory.send, hsharers]
  · have hi := h.links i
    rw [hds] at hi
    by_cases hir : i = r.requester
    · subst hir
      simp only [Directory.reply, Directory.send, update_self]
      exact hi.upgrade (by simp [hsharers]) (head_mem hq) nofun (h.not_mem_rest hq)
    · simp only [Directory.reply, Directory.send, update_of_ne hir]
      have hout : i ∉ d.sharers := by simp [hsharers, hir]
      exact (hi.outside hout).congr Iff.rfl (mem_requesters hq hir) Iff.rfl

theorem requester (h : Linked cfg d cores (fun _ => none) none) :
    r.requester ∉ d.sharers ∨ d.dstate = .SHARED ∧ r.type = .UPGRADE_REQ := by
  have hp := h.head_pending hq
  obtain hs | ⟨hds, hup⟩ := (h.links r.requester).requester (head_mem hq) nofun
  · exact .inl hs
  · exact .inr ⟨hds, some.inj (hp.symm.trans hup)⟩

end Linked

/-! ## Modes -/

def ForwarderShares (cfg : DirectoryConfig) (d : Directory n D) : Prop :=
  cfg.protocol = .MESIF → cfg.maxHwSharers ≠ 1 → d.dstate = .SHARED →
    ∀ f, d.forwarder = some f → f ∈ d.sharers

inductive Mode (cfg : DirectoryConfig) (d : Directory n D) :
    (Fin n → Option Revoke) → Option (Fin n) → Prop
  | idle (hq : d.queue = []) (hreads : d.dramReads = []) : Mode cfg d (fun _ => none) none
  /-- for the DRAM -/
  | fetching {r : ShmemReq n} {rest : List (ShmemReq n)} (hq : d.queue = r :: rest)
      (hwait : r.waitForData = true) {data : D} (hreads : d.dramReads = [data])
      (hr : r.requester ∈ d.sharers) {msg : ToCache D} (hmsg : Answers d.dstate r.type msg) :
      Mode cfg d (fun _ => none) (some r.requester)
  /-- for the data of another sharer -/
  | forwarding {r : ShmemReq n} {rest : List (ShmemReq n)} (hq : d.queue = r :: rest)
      (hreads : d.dramReads = []) (htype : r.type = .SH_REQ) (hwait : r.waitForData = false)
      {f : Fin n} (hfrom : r.forwardingFrom = some f) (hds : d.dstate = .SHARED)
      (hf : f ∈ d.sharers) (hr : r.requester ∈ d.sharers) :
      Mode cfg d (only f .WB_REQ) (some r.requester)
  /-- for the owner -/
  | revoking {r : ShmemReq n} {rest : List (ShmemReq n)} (hq : d.queue = r :: rest)
      (hreads : d.dramReads = []) (hfresh : r.Fresh)
      (hds : d.dstate = .EXCLUSIVE ∨ d.dstate = .MODIFIED) {o : Fin n} (ho : d.owner = some o)
      (hr : o ≠ r.requester) {k : Revoke} (hk : k = .WB_REQ → r.type = .SH_REQ) :
      Mode cfg d (only o k) none
  /-- for the sharers -/
  | invalidating {r : ShmemReq n} {rest : List (ShmemReq n)} (hq : d.queue = r :: rest)
      (hreads : d.dramReads = []) (hfresh : r.Fresh) (htype : r.type ≠ .SH_REQ)
      (hds : d.dstate = .SHARED) (hothers : ∃ i ∈ d.sharers, i ≠ r.requester)
      (hr : r.type = .EX_REQ → r.requester ∉ d.sharers)
      {w : Fin n → Option Revoke} (hw : ∀ i, w i ≠ none ↔ i ∈ d.sharers ∧ i ≠ r.requester)
      (hk : ∀ i k, w i = some k → k = .INV_REQ ∨
        k = .FLUSH_REQ ∧ r.type = .UPGRADE_REQ ∧ r.requester ∉ d.sharers) : Mode cfg d w none
  /-- for room in the list of sharers -/
  | displacing {r : ShmemReq n} {rest : List (ShmemReq n)} (hq : d.queue = r :: rest)
      (hreads : d.dramReads = []) (hfresh : r.Fresh) (htype : r.type = .SH_REQ)
      (hds : d.dstate = .SHARED) (hr : r.requester ∉ d.sharers)
      (hfull : cfg.maxHwSharers ≤ d.sharers.card) {v : Fin n} (hv : r.displaced = some v) :
      Mode cfg d (only v .INV_REQ) none

theorem Mode.of_eq {d d' : Directory n D} {w : Fin n → Option Revoke} {granted : Option (Fin n)}
    (h : Mode cfg d w granted) (hds : d'.dstate = d.dstate) (hsharers : d'.sharers = d.sharers)
    (howner : d'.owner = d.owner) (hhead : d'.queue.head? = d.queue.head?)
    (hreads : d'.dramReads = d.dramReads) : Mode cfg d' w granted := by
  have hcons : ∀ {r rest}, d.queue = r :: rest → ∃ rest', d'.queue = r :: rest' := fun hq =>
    head?_eq_some_iff.mp (by rw [hhead, hq, head?_cons])
  cases h with
  | idle hq hr =>
    rw [hq] at hhead
    exact .idle (head?_eq_none_iff.mp hhead) (hreads.trans hr)
  | fetching hq hwait hdata hr hmsg =>
    obtain ⟨rest', hq'⟩ := hcons hq
    exact .fetching hq' hwait (hreads.trans hdata) (hsharers ▸ hr) (hds ▸ hmsg)
  | forwarding hq hnone htype hwait hfrom hshared hf hr =>
    obtain ⟨rest', hq'⟩ := hcons hq
    exact .forwarding hq' (hreads.trans hnone) htype hwait hfrom (hds.trans hshared)
      (hsharers ▸ hf) (hsharers ▸ hr)
  | revoking hq hnone hfresh hown ho hr hk =>
    obtain ⟨rest', hq'⟩ := hcons hq
    exact .revoking hq' (hreads.trans hnone) hfresh (hds ▸ hown) (howner.trans ho) hr hk
  | invalidating hq hnone hfresh htype hshared hothers hr hw hk =>
    obtain ⟨rest', hq'⟩ := hcons hq
    exact .invalidating hq' (hreads.trans hnone) hfresh htype (hds.trans hshared)
      (hsharers ▸ hothers) (hsharers ▸ hr) (hsharers ▸ hw) (hsharers ▸ hk)
  | displacing hq hnone hfresh htype hshared hr hfull hv =>
    obtain ⟨rest', hq'⟩ := hcons hq
    exact .displacing hq' (hreads.trans hnone) hfresh htype (hds.trans hshared)
      (hsharers ▸ hr) (hsharers ▸ hfull) hv

def Steady (cfg : DirectoryConfig) (d : Directory n D) (cores : Fin n → Core D) : Prop :=
  ForwarderShares cfg d ∧ ∃ w granted, Linked cfg d cores w granted ∧ Mode cfg d w granted

structure Settled (cfg : DirectoryConfig) (d : Directory n D) (cores : Fin n → Core D) : Prop where
  linked : Linked cfg d cores (fun _ => none) none
  reads : d.dramReads = []

/-- The head of the queue was treated: it is answered, or the directory waits. -/
inductive Served (cfg : DirectoryConfig) (cores : Fin n → Core D) (rest : List (ShmemReq n)) :
    Directory n D × Bool → Prop
  | answered {d : Directory n D} (hq : d.queue.tail = rest) (hfwd : ForwarderShares cfg d)
      (h : Settled cfg { d with queue := rest } cores) : Served cfg cores rest (d, true)
  | waiting {d : Directory n D} (h : Steady cfg d cores) : Served cfg cores rest (d, false)

/-! ## Treating the head of the queue -/

section

variable {d : Directory n D} {cores : Fin n → Core D} {r : ShmemReq n} {rest : List (ShmemReq n)}
  {cached : Option D}

theorem Directory.send_revoke (d : Directory n D) (o : Fin n) (k : Revoke) :
    d.send o (.revoke k) = { d with down := fun i => d.down i ++ asked (only o k i) } := by
  have hdown : update d.down o (d.down o ++ [.revoke k]) =
      fun i => d.down i ++ asked (only o k i) := by
    funext i
    by_cases hi : i = o
    · subst hi
      rw [update_self, only_self]
      rfl
    · rw [update_of_ne hi, only_of_ne hi]
      exact (append_nil _).symm
  rw [Directory.send, hdown]

theorem Directory.revokeSharers_eq (d : Directory n D) (revoke : Fin n → Option Revoke) :
    d.revokeSharers revoke =
      { d with down := fun i => d.down i ++ asked (if i ∈ d.sharers then revoke i else none) } := by
  have hdown : (fun i => d.down i ++ if i ∈ d.sharers then (revoke i).toList.map .revoke else []) =
      fun i => d.down i ++ asked (if i ∈ d.sharers then revoke i else none) := by
    funext i
    split <;> rfl
  rw [revokeSharers, hdown]

theorem Linked.revoke_only {granted : Option (Fin n)} {o : Fin n} {k : Revoke}
    (h : Linked cfg d cores (fun _ => none) granted) (ho : o ∈ d.sharers) (hg : granted ≠ some o)
    (hk : k = .INV_REQ → d.dstate = .SHARED) :
    Linked cfg (d.send o (.revoke k)) cores (only o k) granted := by
  rw [send_revoke]
  refine h.revoke (fun i hi => ?_) fun i hi => ?_
  · obtain ⟨t, ht⟩ := ne_none_iff_exists'.mp hi
    obtain ⟨rfl, -⟩ := of_only_eq_some ht
    exact ⟨ho, hg⟩
  · exact hk (of_only_eq_some hi).2

variable (cached) in
theorem Linked.retrieveData {msg : D → ToCache D}
    (h : Linked cfg d cores (fun _ => none) (some r.requester)) (hq : d.queue = r :: rest)
    (hreads : d.dramReads = []) (hwait : r.waitForData = false) (hr : r.requester ∈ d.sharers)
    (hmsg : ∀ data, Answers d.dstate r.type (msg data))
    (hfwd : cached = none → ForwarderShares cfg d)
    (hfrom : cached = none → ∀ f, d.forwardFrom cfg r = some f →
      r.type = .SH_REQ ∧ f ∈ d.sharers ∧ f ≠ r.requester) :
    Served cfg cores rest (d.retrieveData cfg r msg cached) := by
  unfold Directory.retrieveData
  split
  next data =>
    refine .answered (by simp [Directory.reply, Directory.send, hq]) ?_ ⟨?_, hreads⟩
    · rintro - - - f ⟨⟩
      exact hr
    · exact (h.reply hq (hmsg data)).of_eq rfl rfl rfl rfl rfl
  next =>
    split
    next f hf =>
      obtain ⟨htype, hmem, hne⟩ := hfrom rfl f hf
      have hds : d.dstate = .SHARED := by
        by_contra hds
        simp [forwardFrom, hds] at hf
      refine .waiting ⟨hfwd rfl, only f .WB_REQ, some r.requester, ?_, ?_⟩
      · have hhead := h.setHead { r with forwardingFrom := some f, displaced := none } hq rfl rfl
        exact hhead.revoke_only hmem (by simpa using Ne.symm hne) nofun
      · refine .forwarding (r := { r with forwardingFrom := some f, displaced := none }) rfl ?_ ?_ ?_
          rfl ?_ ?_ ?_
        exacts [hreads, htype, hwait, hds, hmem, hr]
    next =>
      refine .waiting ⟨hfwd rfl, fun _ => none, some r.requester, ?_, ?_⟩
      · have hhead := h.setHead { r with waitForData := true, displaced := none } hq rfl rfl
        exact hhead.of_eq rfl rfl rfl rfl rfl
      · have hreads' : d.dramReads ++ [d.dram] = [d.dram] := by rw [hreads, nil_append]
        refine .fetching (r := { r with waitForData := true, displaced := none }) rfl rfl hreads' ?_
          (hmsg d.dram)
        exact hr

theorem Settled.own (ds : DState) {msg : D → ToCache D} (h : Settled cfg d cores)
    (hmax : 1 ≤ cfg.maxHwSharers) (hq : d.queue = r :: rest) (hfresh : r.Fresh)
    (hempty : d.dstate = .UNCACHED) (hds : ds ≠ .UNCACHED)
    (hfwd : ds = .SHARED → cfg.protocol ≠ .MESIF) (hmsg : ∀ data, Answers ds r.type (msg data)) :
    ∃ result, (do
        let d ← d.own cfg r.requester ds
        return d.retrieveData cfg r msg cached) = some result ∧
      Served cfg cores rest result := by
  have hnone : d.sharers = ∅ := h.linked.uncached.mp hempty
  have hr : r.requester ∉ d.sharers := by simp [hnone]
  have hroom : d.sharers.card < cfg.maxHwSharers := by
    rw [hnone, Finset.card_empty]
    exact hmax
  have hgrant := h.linked.grant ds (some r.requester) hr (Linked.head_mem hq) (.inl hnone) hds
    (fun _ => ⟨rfl, hnone⟩) hroom
  refine ⟨_, ?_, hgrant.retrieveData cached hq h.reads hfresh.wait (Finset.mem_insert_self ..) hmsg
    ?_ ?_⟩
  · simp [Directory.own, Directory.addSharer, Directory.setOwner, hr, Nat.not_le.mpr hroom]
  · rintro - hmesif - hshared
    exact absurd hmesif (hfwd hshared)
  · rintro - f hf
    simp only [forwardFrom, ite_none_right_eq_some] at hf
    exact absurd hf.1.1 (hfwd hf.1.2.2)

theorem Settled.revokeOwner {k : Revoke} (h : Settled cfg d cores) (hq : d.queue = r :: rest)
    (hfresh : r.Fresh) (hds : d.dstate = .EXCLUSIVE ∨ d.dstate = .MODIFIED)
    (hk : k = .WB_REQ → r.type = .SH_REQ) (hinv : k ≠ .INV_REQ) :
    ∃ o, d.owner = some o ∧ o ≠ r.requester ∧ d.sharers = {o} ∧
      Steady cfg (d.send o (.revoke k)) cores := by
  obtain ⟨o, ho, hsharers⟩ := h.linked.owned hds
  have hne : o ≠ r.requester := by
    rintro rfl
    obtain hr | ⟨hshared, -⟩ := h.linked.requester hq
    · simp [hsharers] at hr
    · simp [hshared] at hds
  refine ⟨o, ho, hne, hsharers, fun _ _ hshared => ?_, only o k, none, ?_, ?_⟩
  · have hshared : d.dstate = .SHARED := hshared
    simp [hshared] at hds
  · exact h.linked.revoke_only (by simp [hsharers]) nofun fun hk => absurd hk hinv
  · exact (Mode.revoking hq h.reads hfresh hds ho hne hk).of_eq rfl rfl rfl rfl rfl

theorem Settled.revokeSharers {revoke : Fin n → Option Revoke} (h : Settled cfg d cores)
    (hfwd : ForwarderShares cfg d) (hq : d.queue = r :: rest) (hfresh : r.Fresh)
    (htype : r.type ≠ .SH_REQ) (hds : d.dstate = .SHARED)
    (hothers : ∃ i ∈ d.sharers, i ≠ r.requester)
    (hr : r.type = .EX_REQ → r.requester ∉ d.sharers)
    (hrevoke : ∀ i ∈ d.sharers, revoke i ≠ none ↔ i ≠ r.requester)
    (hk : ∀ i k, revoke i = some k → k = .INV_REQ ∨
      k = .FLUSH_REQ ∧ r.type = .UPGRADE_REQ ∧ r.requester ∉ d.sharers) :
    Steady cfg (d.revokeSharers revoke) cores := by
  have hw : ∀ i, (if i ∈ d.sharers then revoke i else none) ≠ none ↔
      i ∈ d.sharers ∧ i ≠ r.requester := by
    intro i
    by_cases hi : i ∈ d.sharers
    · simp only [hi, true_and]
      exact hrevoke i hi
    · simp [hi]
  rw [revokeSharers_eq]
  refine ⟨hfwd, fun i => if i ∈ d.sharers then revoke i else none, none, ?_, ?_⟩
  · exact h.linked.revoke (fun i hi => ⟨((hw i).mp hi).1, nofun⟩) fun _ _ => hds
  · refine (Mode.invalidating hq h.reads hfresh htype hds hothers hr hw fun i k hi => ?_).of_eq
      rfl rfl rfl rfl rfl
    simp only [ite_none_right_eq_some] at hi
    exact hk i k hi.2

theorem Settled.processExReq (h : Settled cfg d cores) (hmax : 1 ≤ cfg.maxHwSharers)
    (hq : d.queue = r :: rest) (hfresh : r.Fresh) (htype : r.type = .EX_REQ)
    (hfwd : cached = none → ForwarderShares cfg d) (hcached : cached ≠ none → d.dstate = .UNCACHED) :
    ∃ result, d.processExReq cfg r cached = some result ∧ Served cfg cores rest result := by
  have hr : r.requester ∉ d.sharers := by
    obtain hr | ⟨-, hup⟩ := h.linked.requester hq
    · exact hr
    · simp [htype] at hup
  have hnone : d.dstate ≠ .UNCACHED → cached = none := fun hds => by
    by_contra hc
    exact hds (hcached hc)
  have howner : d.dstate = .EXCLUSIVE ∨ d.dstate = .MODIFIED →
      ∃ result, d.revokeOwner .FLUSH_REQ none = some result ∧ Served cfg cores rest result := by
    intro hds
    obtain ⟨o, ho, -, -, hsteady⟩ := h.revokeOwner (k := .FLUSH_REQ) hq hfresh hds nofun nofun
    exact ⟨_, by simp [Directory.revokeOwner, ho], .waiting hsteady⟩
  unfold Directory.processExReq
  cases hds : d.dstate with
  | EXCLUSIVE =>
    obtain rfl := hnone (by simp [hds])
    exact howner (.inl hds)
  | MODIFIED =>
    obtain rfl := hnone (by simp [hds])
    exact howner (.inr hds)
  | SHARED =>
    obtain rfl := hnone (by simp [hds])
    refine ⟨_, rfl, .waiting ?_⟩
    obtain ⟨i, hi⟩ : d.sharers.Nonempty := by
      rw [Finset.nonempty_iff_ne_empty, ne_eq, ← h.linked.uncached, hds]
      exact nofun
    have hne : ∀ j ∈ d.sharers, j ≠ r.requester := by
      rintro j hj rfl
      exact hr hj
    refine h.revokeSharers (hfwd rfl) hq hfresh (by simp [htype]) hds ⟨i, hi, hne i hi⟩
      (fun _ => hr) (fun j hj => by simp [hne j hj]) fun j k hk => .inl ?_
    exact (some.inj hk).symm
  | UNCACHED =>
    refine h.own .MODIFIED hmax hq hfresh hds nofun nofun ?_
    rw [htype]
    exact .modified

theorem Linked.sharers_nonempty {w : Fin n → Option Revoke} {granted : Option (Fin n)}
    (h : Linked cfg d cores w granted) (hds : d.dstate ≠ .UNCACHED) : d.sharers.Nonempty := by
  rw [Finset.nonempty_iff_ne_empty, ne_eq, ← h.uncached]
  exact hds

theorem Directory.mem_sharersList {i : Fin n} : i ∈ d.sharersList ↔ i ∈ d.sharers := by
  simp [sharersList]

theorem Directory.getOneSharer_mem (h : d.sharers.Nonempty) (pick : ℕ) :
    ∃ v ∈ d.sharers, d.getOneSharer pick = some v := by
  obtain ⟨i, hi⟩ := h
  have hpos : 0 < d.sharersList.length := length_pos_of_mem (mem_sharersList.mpr hi)
  have hlt : pick % d.sharersList.length < d.sharersList.length := Nat.mod_lt _ hpos
  refine ⟨d.sharersList[pick % d.sharersList.length], ?_, getElem?_eq_getElem hlt⟩
  exact mem_sharersList.mp (getElem_mem hlt)

theorem Settled.displace (h : Settled cfg d cores) (hfwd : ForwarderShares cfg d)
    (hq : d.queue = r :: rest) (hfresh : r.Fresh) (htype : r.type = .SH_REQ)
    (hds : d.dstate = .SHARED) (hr : r.requester ∉ d.sharers)
    (hfull : cfg.maxHwSharers ≤ d.sharers.card) {v : Fin n} (hv : v ∈ d.sharers) :
    Steady cfg ((d.setHead { r with displaced := some v }).send v (.revoke .INV_REQ)) cores := by
  have hhead := h.linked.setHead { r with displaced := some v } hq rfl rfl
  refine ⟨hfwd, only v .INV_REQ, none, hhead.revoke_only hv nofun fun _ => hds, ?_⟩
  refine .displacing (r := { r with displaced := some v }) rfl ?_ ?_ ?_ ?_ ?_ ?_ rfl
  exacts [h.reads, ⟨hfresh.wait, hfresh.forward⟩, htype, hds, hr, hfull]

theorem Settled.processShReq (h : Settled cfg d cores) (hmax : 1 ≤ cfg.maxHwSharers)
    (hq : d.queue = r :: rest) (hfresh : r.Fresh) (htype : r.type = .SH_REQ)
    (hfwd : cached = none → ForwarderShares cfg d)
    (hcached : cached ≠ none → d.dstate = .UNCACHED ∨ d.dstate = .SHARED ∧ d.sharers.card = 1)
    (pick : ℕ) :
    ∃ result, d.processShReq cfg r cached pick = some result ∧ Served cfg cores rest result := by
  have hr : r.requester ∉ d.sharers := by
    obtain hr | ⟨-, hup⟩ := h.linked.requester hq
    · exact hr
    · simp [htype] at hup
  have howner : d.dstate = .EXCLUSIVE ∨ d.dstate = .MODIFIED →
      d.owner ≠ some r.requester ∧
      ∃ result, d.revokeOwner .WB_REQ cached = some result ∧ Served cfg cores rest result := by
    intro hds
    obtain ⟨o, ho, hne, -, hsteady⟩ := h.revokeOwner (k := .WB_REQ) hq hfresh hds (fun _ => htype) nofun
    have hnone : cached = none := by
      by_contra hc
      obtain hu | ⟨hs, -⟩ := hcached hc
      · simp [hu] at hds
      · simp [hs] at hds
    refine ⟨by rw [ho]; simpa using hne, _, ?_, .waiting hsteady⟩
    simp [Directory.revokeOwner, ho, hnone]
  unfold Directory.processShReq
  cases hds : d.dstate with
  | EXCLUSIVE =>
    obtain ⟨hne, hserved⟩ := howner (.inl hds)
    simpa only [if_neg hne] using hserved
  | MODIFIED => exact (howner (.inr hds)).2
  | SHARED =>
    have hnonempty := h.linked.sharers_nonempty (by simp [hds])
    simp only [if_neg hr, Directory.addSharer]
    by_cases hfull : cfg.maxHwSharers ≤ d.sharers.card
    · obtain ⟨v, hv, hpick⟩ := getOneSharer_mem hnonempty pick
      refine ⟨_, by simp [hfull, hpick], .waiting (h.displace ?_ hq hfresh htype hds hr hfull hv)⟩
      -- data that came with the line means one sharer, so the list has room for one only
      intro hmesif hone
      by_cases hc : cached = none
      · exact hfwd hc hmesif hone
      · obtain hu | ⟨-, hcard⟩ := hcached hc
        · simp [hu] at hds
        · omega
    · have hroom : d.sharers.card < cfg.maxHwSharers := Nat.lt_of_not_le hfull
      have hone : cfg.maxHwSharers ≠ 1 := by
        have hpos := hnonempty.card_pos
        omega
      have hgrant : Linked cfg { d with sharers := insert r.requester d.sharers } cores (fun _ => none)
          (some r.requester) :=
        (h.linked.grant .SHARED d.owner hr (Linked.head_mem hq) (.inr hds.symm) nofun nofun
          hroom).of_eq hds rfl rfl rfl rfl
      have hmsg : ∀ data : D, Answers d.dstate r.type (.SH_REP data) := by
        rw [hds, htype]
        exact .shared
      refine ⟨_, by simp [hfull], hgrant.retrieveData cached hq h.reads hfresh.wait
        (Finset.mem_insert_self ..) hmsg ?_ ?_⟩
      · rintro hc hmesif - - f hf
        exact Finset.mem_insert_of_mem (hfwd hc hmesif hone hds f hf)
      · rintro hc f hf
        simp only [forwardFrom, ite_none_right_eq_some] at hf
        have hmem := hfwd hc hf.1.1 hone hds f hf.2
        refine ⟨htype, Finset.mem_insert_of_mem hmem, ?_⟩
        rintro rfl
        exact hr hmem
  | UNCACHED =>
    by_cases hmsi : cfg.protocol = .MSI
    · simp only [if_pos hmsi]
      refine h.own .SHARED hmax hq hfresh hds nofun (fun _ => by simp [hmsi]) ?_
      rw [htype]
      exact .shared
    · simp only [if_neg hmsi]
      refine h.own .EXCLUSIVE hmax hq hfresh hds nofun nofun ?_
      rw [htype]
      exact .exclusive

theorem Directory.sharersList_eq_singleton {i : Fin n} (h : d.sharers = {i}) :
    d.sharersList = [i] := by
  have hnodup : d.sharersList.Nodup := (nodup_finRange n).filter _
  refine perm_singleton.mp ((perm_ext_iff_of_nodup hnodup (nodup_singleton i)).mpr ?_)
  intro j
  rw [mem_sharersList, h, Finset.mem_singleton, mem_singleton]

theorem Directory.upgradeRevoke_ne_none {i : Fin n} :
    d.upgradeRevoke r i ≠ none ↔ i ≠ r.requester := by
  unfold upgradeRevoke
  split_ifs with hi <;> simp [hi]

theorem Directory.upgradeRevoke_eq_some {i : Fin n} {k : Revoke} (h : d.upgradeRevoke r i = some k) :
    k = .INV_REQ ∨ k = .FLUSH_REQ ∧ r.requester ∉ d.sharers := by
  unfold upgradeRevoke at h
  split_ifs at h with hi hflush
  · exact .inr ⟨(some.inj h).symm, hflush.1⟩
  · exact .inl (some.inj h).symm

variable (hmax : 1 ≤ cfg.maxHwSharers)
include hmax

theorem Settled.processUpgradeReq (h : Settled cfg d cores) (hq : d.queue = r :: rest)
    (hfresh : r.Fresh) (htype : r.type = .UPGRADE_REQ)
    (hfwd : cached = none → ForwarderShares cfg d) (hcached : cached ≠ none → d.dstate = .UNCACHED)
    (freed : D) :
    ∃ result, d.processUpgradeReq cfg r cached freed = some result ∧ Served cfg cores rest result := by
  have howner : d.dstate = .EXCLUSIVE ∨ d.dstate = .MODIFIED →
      ∃ o, d.owner = some o ∧ o ≠ r.requester ∧ d.sharersList = [o] ∧
        Served cfg cores rest (d.send o (.revoke .FLUSH_REQ), false) := by
    intro hds
    obtain ⟨o, ho, hne, hsharers, hsteady⟩ :=
      h.revokeOwner (k := .FLUSH_REQ) hq hfresh hds nofun nofun
    exact ⟨o, ho, hne, Directory.sharersList_eq_singleton hsharers, .waiting hsteady⟩
  unfold Directory.processUpgradeReq
  cases hds : d.dstate with
  | EXCLUSIVE =>
    obtain ⟨o, ho, hne, hlist, hserved⟩ := howner (.inl hds)
    exact ⟨_, by simp [hlist, hne, ho], hserved⟩
  | MODIFIED =>
    obtain ⟨o, ho, hne, hlist, hserved⟩ := howner (.inr hds)
    exact ⟨_, by simp [hlist, hne, ho], hserved⟩
  | SHARED =>
    have hnone : cached = none := by
      by_contra hc
      simpa [hds] using hcached hc
    by_cases hlist : d.sharersList = [r.requester]
    · have hsharers : d.sharers = {r.requester} := by
        ext i
        rw [← mem_sharersList, hlist]
        simp
      have hmem : r.requester ∈ d.sharers := by simp [hsharers]
      refine ⟨(Directory.reply { d with dstate := .MODIFIED, owner := some r.requester } r .UPGRADE_REP,
        true), by simp [hlist, Directory.setOwner, hmem], .answered ?_ ?_ ⟨?_, h.reads⟩⟩
      · simp [Directory.reply, Directory.send, hq]
      · rintro - - ⟨⟩
      · exact (h.linked.upgrade hq hds hsharers).of_eq rfl rfl rfl rfl rfl
    · simp only [if_neg hlist]
      refine ⟨_, rfl, .waiting (h.revokeSharers (hfwd hnone) hq hfresh (by simp [htype]) hds ?_ ?_
        (fun i _ => upgradeRevoke_ne_none) fun i k hk => ?_)⟩
      · by_contra hall
        refine hlist (Directory.sharersList_eq_singleton (Finset.eq_singleton_iff_nonempty_unique_mem.mpr
          ⟨h.linked.sharers_nonempty (by simp [hds]), fun i hi => ?_⟩))
        exact by_contra fun hne => hall ⟨i, hi, hne⟩
      · simp [htype]
      · exact (upgradeRevoke_eq_some hk).imp_right fun ⟨hflush, hr⟩ => ⟨hflush, htype, hr⟩
  | UNCACHED =>
    have hempty := h.linked.uncached.mp hds
    simp only [if_pos hempty]
    refine h.own .MODIFIED hmax hq hfresh hds nofun nofun ?_
    rw [htype]
    exact .upgraded

theorem Settled.processHead (h : Settled cfg d cores) (hq : d.queue = r :: rest) (hfresh : r.Fresh)
    (hfwd : cached = none → ForwarderShares cfg d)
    (hcached : cached ≠ none →
      d.dstate = .UNCACHED ∨ r.type = .SH_REQ ∧ d.dstate = .SHARED ∧ d.sharers.card = 1)
    (pick : ℕ) (freed : D) :
    ∃ result, d.processHead cfg cached pick freed = some result ∧ Served cfg cores rest result := by
  have huncached : r.type ≠ .SH_REQ → cached ≠ none → d.dstate = .UNCACHED := fun htype hc =>
    (hcached hc).resolve_right fun hsh => htype hsh.1
  simp only [Directory.processHead, hq]
  cases htype : r.type with
  | EX_REQ => exact h.processExReq hmax hq hfresh htype hfwd (huncached (by simp [htype]))
  | SH_REQ =>
    exact h.processShReq hmax hq hfresh htype hfwd (fun hc => (hcached hc).imp_right And.right) pick
  | UPGRADE_REQ =>
    exact h.processUpgradeReq hmax hq hfresh htype hfwd (huncached (by simp [htype])) freed

theorem Settled.processNext (hrest : ∀ r ∈ rest, r.Fresh) (hfwd : ForwarderShares cfg d)
    (h : Settled cfg { d with queue := rest } cores) (pick : ℕ) (freed : D) :
    ∃ d', processNext cfg pick freed rest d = some d' ∧ Steady cfg d' cores := by
  induction rest generalizing d with
  | nil => exact ⟨_, rfl, hfwd, _, _, h.linked, .idle rfl h.reads⟩
  | cons r rest ih =>
    have hstarted : Settled cfg
        { d with queue := r :: rest, events := d.events ++ [.started r.id] } cores :=
      ⟨h.linked.of_eq rfl rfl rfl rfl rfl, h.reads⟩
    obtain ⟨⟨d₁, answered⟩, hhead, hserved⟩ :=
      hstarted.processHead hmax rfl (hrest r mem_cons_self) (fun _ => hfwd)
        (fun hc => absurd rfl hc) pick freed
    simp only [processNext, hhead, bind_eq_bind, bind_some]
    cases hserved with
    | waiting hsteady => exact ⟨d₁, rfl, hsteady⟩
    | answered hq hfwd₁ hsettled =>
      exact ih (fun x hx => hrest x (mem_cons_of_mem r hx)) hfwd₁ hsettled

theorem Served.next {answered : Bool} (hrest : ∀ r ∈ rest, r.Fresh)
    (h : Served cfg cores rest (d, answered)) (pick : ℕ) (freed : D) :
    ∃ d', (if answered then processNext cfg pick freed d.queue.tail d else some d) = some d' ∧
      Steady cfg d' cores := by
  cases h with
  | waiting hsteady => exact ⟨d, rfl, hsteady⟩
  | answered hq hfwd hsettled =>
    rw [hq]
    exact hsettled.processNext hmax hrest hfwd pick freed

/-- **The head of the queue and what follows it are treated without a failed assertion.** -/
theorem Settled.serve (h : Settled cfg d cores) (hq : d.queue = r :: rest) (hfresh : r.Fresh)
    (hfwd : cached = none → ForwarderShares cfg d)
    (hcached : cached ≠ none →
      d.dstate = .UNCACHED ∨ r.type = .SH_REQ ∧ d.dstate = .SHARED ∧ d.sharers.card = 1)
    (pick : ℕ) (freed : D) :
    ∃ d', d.serve cfg cached pick freed = some d' ∧ Steady cfg d' cores := by
  obtain ⟨⟨d₁, answered⟩, hhead, hserved⟩ := h.processHead hmax hq hfresh hfwd hcached pick freed
  have hrest : ∀ r ∈ rest, r.Fresh := by simpa [hq] using h.linked.queued.fresh
  simp only [Directory.serve, hhead, bind_eq_bind, bind_some]
  exact hserved.next hmax hrest pick freed

theorem Linked.serveForwarded (h : Linked cfg d cores (fun _ => none) (some r.requester))
    (hq : d.queue = r :: rest) (hreads : d.dramReads = []) (htype : r.type = .SH_REQ)
    (hwait : r.waitForData = false) (hfrom : r.forwardingFrom ≠ none) (hds : d.dstate = .SHARED)
    (hr : r.requester ∈ d.sharers) (hfwd : cached = none → ForwarderShares cfg d) (pick : ℕ)
    (freed : D) : ∃ d', d.serve cfg cached pick freed = some d' ∧ Steady cfg d' cores := by
  have hmsg : ∀ data : D, Answers d.dstate r.type (.SH_REP data) := by
    rw [hds, htype]
    exact .shared
  have hserved := h.retrieveData cached hq hreads hwait hr hmsg hfwd fun _ f hf => by
    simp [forwardFrom, hfrom] at hf
  have hrest : ∀ r ∈ rest, r.Fresh := by simpa [hq] using h.queued.fresh
  have hhead : d.processHead cfg cached pick freed = some (d.retrieveData cfg r .SH_REP cached) := by
    simp only [Directory.processHead, hq, htype, Directory.processShReq, hds, if_pos hr]
  simp only [Directory.serve, hhead, bind_eq_bind, bind_some]
  exact hserved.next hmax hrest pick freed

end

end MultiCoreMemory.Sniper
