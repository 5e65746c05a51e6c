import Mathlib.Data.List.Perm.Basic
import MultiCoreMemory.Frontend.BHO3LLCSets

/-!
# Every accepted request of the BHO3 cache is answered once

A request waits under the address of the request that fetched its line, or on the hit list.  A hit
is answered through the same table: its entry is overwritten with the one request, and whatever
MSHR entry its line has is taken for finished.
-/

namespace MultiCoreMemory

open List Function

namespace BHO3LLC

variable {p : BHO3Params} {s s' s'' : BHO3LLC} {i : ℕ}

def asRead (r : LLCRequest) : LLCRequest := { r with type := .read }

def keys (s : BHO3LLC) : List ℕ := s.mshrs.map (·.addr)

def queuedReadReqs (s : BHO3LLC) : List LLCRequest :=
  (s.missList.filter fun e => e.req.type = .read).map (·.req)

theorem Wf.keys_nodup (h : Wf p s) : s.keys.Nodup :=
  pairwise_map.mpr (h.lines.imp fun hne heq => hne (by rw [heq]))

/-- The lines may differ, but not what is fetched, waits or is counted. -/
structure SameRequests (s s' : BHO3LLC) : Prop where
  mshrs : s'.mshrs = s.mshrs
  receiveRequests : s'.receiveRequests = s.receiveRequests
  reads : s'.queuedReadReqs = s.queuedReadReqs
  hitList : s'.hitList = s.hitList
  allocated : s'.allocatedMshrs = s.allocatedMshrs

namespace SameRequests

theorem refl (s : BHO3LLC) : SameRequests s s := ⟨rfl, rfl, rfl, rfl, rfl⟩

theorem trans (h : SameRequests s s') (h' : SameRequests s' s'') : SameRequests s s'' :=
  ⟨h'.mshrs.trans h.mshrs, h'.receiveRequests.trans h.receiveRequests, h'.reads.trans h.reads,
    h'.hitList.trans h.hitList, h'.allocated.trans h.allocated⟩

theorem keys (h : SameRequests s s') : s'.keys = s.keys := congrArg (map _) h.mshrs

theorem evictLine (s : BHO3LLC) (i : ℕ) (l : Line) : SameRequests s (s.evictLine p i l) := by
  unfold BHO3LLC.evictLine
  split
  · refine ⟨rfl, rfl, ?_, rfl, rfl⟩
    simp [queuedReadReqs, pushMiss, BHO3LLC.erase]
  · exact ⟨rfl, rfl, rfl, rfl, rfl⟩

theorem clflush (s : BHO3LLC) (addr : ℕ) : SameRequests s (s.clflush p addr) := by
  unfold BHO3LLC.clflush
  split
  · exact evictLine s _ _
  · exact refl s

theorem evicted (hev : Evicted p s i s') : SameRequests s s' := by
  cases hev with
  | none => exact refl s
  | victim => exact evictLine s _ _

theorem recordStore (s : BHO3LLC) (addr : ℕ) (type : AccessType) :
    SameRequests s (s.recordStore p addr type) := by
  unfold BHO3LLC.recordStore
  split <;> exact ⟨rfl, rfl, rfl, rfl, rfl⟩

end SameRequests

end BHO3LLC

namespace BHO3

open BHO3LLC

variable {p : BHO3Params} {s s' : BHO3} {hits hits' : List LLCRequest}

/-- The reads on the miss list and in flight. -/
def readReqs (s : BHO3) : List LLCRequest := s.llc.queuedReadReqs ++ s.inFlight

def outstanding (s : BHO3) : List ℕ := s.readReqs.map (·.addr)

def waiting (s : BHO3) : List LLCRequest :=
  s.llc.hitList.map (·.2) ++ s.outstanding.flatMap s.llc.receiveRequests

structure Balanced (p : BHO3Params) (hits : List LLCRequest) (s : BHO3) : Prop where
  wf : Wf p s.llc
  reads : s.llc.keys.Perm s.outstanding
  idle : ∀ a, a ∉ s.llc.keys → s.llc.receiveRequests a = []
  account : (s.accepted.map asRead).Perm
    ((s.delivered ++ hits ++ s.llc.keys.flatMap s.llc.receiveRequests).map asRead)
  ids : s.accepted.map (·.id) = range s.accepted.length

/-! ## The table of waiting requests -/

section

variable {α β γ : Type*} [DecidableEq α] [DecidableEq γ] {keys : List α} {f : α → List β} {k : α}

theorem flatMap_update_of_notMem (hk : k ∉ keys) (v : List β) :
    keys.flatMap (Function.update f k v) = keys.flatMap f := by
  refine flatMap_congr ?_
  intro a ha
  exact update_of_ne (ne_of_mem_of_not_mem ha hk) _ _

theorem count_flatMap_update (g : β → γ) (hkeys : keys.Nodup) (hk : k ∈ keys) (v : List β) (c : γ) :
    ((keys.flatMap (Function.update f k v)).map g).count c + ((f k).map g).count c =
      ((keys.flatMap f).map g).count c + (v.map g).count c := by
  have hperm := perm_cons_erase hk
  have hrest : k ∉ keys.erase k := fun hmem => (hkeys.mem_erase_iff.mp hmem).1 rfl
  rw [((hperm.flatMap_right _).map g).count_eq, ((hperm.flatMap_right f).map g).count_eq,
    flatMap_cons, flatMap_cons, flatMap_update_of_notMem hrest, update_self,
    map_append, map_append, count_append, count_append]
  omega

end

/-! ## Sends -/

variable {llc : BHO3LLC} {req : LLCRequest}

theorem Balanced.lines (h : Balanced p hits s) (hwf : Wf p s'.llc) (hsame : SameRequests s.llc s'.llc)
    (hflight : s'.inFlight = s.inFlight) (haccepted : s'.accepted = s.accepted)
    (hdelivered : s'.delivered ++ hits' = s.delivered ++ hits) : Balanced p hits' s' where
  wf := hwf
  reads := by
    rw [hsame.keys, outstanding, readReqs, hsame.reads, hflight]
    exact h.reads
  idle := by
    rw [hsame.keys, hsame.receiveRequests]
    exact h.idle
  account := by
    rw [hsame.keys, hsame.receiveRequests, haccepted, hdelivered]
    exact h.account
  ids := by
    rw [haccepted]
    exact h.ids

section

variable (h : Balanced p hits s)
include h

theorem Balanced.accept (hwf : Wf p llc)
    (hreads : llc.keys.Perm ((llc.queuedReadReqs ++ s.inFlight).map (·.addr)))
    (hidle : ∀ a, a ∉ llc.keys → llc.receiveRequests a = [])
    (hone : ∀ r, ((hits' ++ llc.keys.flatMap llc.receiveRequests).map asRead).count r =
      ((hits ++ s.llc.keys.flatMap s.llc.receiveRequests).map asRead).count r + [asRead req].count r)
    (hid : req.id = s.accepted.length) :
    Balanced p hits' { s with llc, accepted := s.accepted ++ [req] } where
  wf := hwf
  reads := hreads
  idle := hidle
  account := by
    rw [perm_iff_count]
    intro r
    have hone := hone r
    have hold := h.account.count_eq r
    simp only [map_append, count_append, map_cons, map_nil] at hone hold ⊢
    omega
  ids := by
    rw [map_append, h.ids, length_append, map_singleton, length_singleton,
      range_succ, hid]

theorem Balanced.hit {line : Line} (hwf : Wf p (s.llc.hit p req line))
    (hid : req.id = s.accepted.length) :
    Balanced p (hits ++ [req])
      { s with llc := s.llc.hit p req line, accepted := s.accepted ++ [req] } := by
  refine h.accept hwf h.reads h.idle ?_ hid
  intro r
  change ((hits ++ [req] ++ s.llc.keys.flatMap s.llc.receiveRequests).map asRead).count r = _
  simp only [map_append, count_append, map_cons, map_nil]
  omega

theorem Balanced.join {m : MSHREntry} (hm : m ∈ s.llc.mshrs) (dirty : Bool)
    (hid : req.id = s.accepted.length) :
    Balanced p hits
      { s with llc := s.llc.joined (asRead req) dirty m, accepted := s.accepted ++ [req] } := by
  have hkey : m.addr ∈ s.llc.keys := mem_map_of_mem hm
  refine h.accept (h.wf.joined _ _ _) h.reads ?_ ?_ hid
  · intro a ha
    have hne : a ≠ m.addr := (ne_of_mem_of_not_mem hkey ha).symm
    exact (update_of_ne hne _ _).trans (h.idle a ha)
  · intro r
    have hupdate := count_flatMap_update asRead h.wf.keys_nodup hkey
      (s.llc.receiveRequests m.addr ++ [asRead req]) r (f := s.llc.receiveRequests)
    change ((hits ++ s.llc.keys.flatMap (update s.llc.receiveRequests m.addr
      (s.llc.receiveRequests m.addr ++ [asRead req]))).map asRead).count r = _
    simp only [map_append, count_append, map_cons, map_nil] at hupdate ⊢
    have hread : asRead (asRead req) = asRead req := rfl
    rw [hread] at hupdate
    omega

theorem Balanced.start {dirty : Bool} (hm : ∀ m ∈ s.llc.mshrs, p.align m.addr ≠ p.align req.addr)
    (hwf : Wf p (s.llc.fetch p (asRead req) dirty)) (hid : req.id = s.accepted.length) :
    Balanced p hits
      { s with llc := s.llc.fetch p (asRead req) dirty, accepted := s.accepted ++ [req] } := by
  have hkey : req.addr ∉ s.llc.keys := by
    intro hmem
    obtain ⟨m, hmem, haddr⟩ := mem_map.mp hmem
    exact hm m hmem (by rw [haddr])
  have hkeys : (s.llc.fetch p (asRead req) dirty).keys = s.llc.keys ++ [req.addr] := by
    simp [BHO3LLC.keys, fetch, addAllocated_eq, queueFetch, pushMiss, asRead]
  have hreads : (s.llc.fetch p (asRead req) dirty).queuedReadReqs =
      s.llc.queuedReadReqs ++ [asRead req] := by
    simp [queuedReadReqs, fetch, addAllocated_eq, queueFetch, pushMiss, asRead, pushBack]
  have hwait : (s.llc.fetch p (asRead req) dirty).receiveRequests =
      update s.llc.receiveRequests req.addr [asRead req] := by
    rw [fetch, addAllocated_eq]
    rfl
  refine h.accept hwf ?_ ?_ ?_ hid
  · rw [hkeys, hreads, append_assoc]
    refine (h.reads.append_right [req.addr]).trans ?_
    rw [outstanding, readReqs, map_append, map_append, append_assoc]
    exact perm_append_comm.append_left _
  · intro a ha
    rw [hkeys, mem_append, not_or, mem_singleton] at ha
    rw [hwait, update_of_ne ha.2]
    exact h.idle a ha.1
  · intro r
    rw [hkeys, hwait, flatMap_append, flatMap_update_of_notMem hkey, flatMap_singleton,
      update_self]
    simp only [map_append, count_append, map_cons, map_nil]
    have hread : asRead (asRead req) = asRead req := rfl
    rw [hread]
    omega

end

theorem Balanced.sent (h : Balanced p (s.llc.hitList.map (·.2)) s)
    (hsent : Sent p s.llc req true llc) (hid : req.id = s.accepted.length) :
    Balanced p (llc.hitList.map (·.2)) { s with llc, accepted := s.accepted ++ [req] } := by
  have hwf := hsent.wf h.wf
  cases hsent with
  | hit =>
    have hb := h.hit hwf hid
    simpa [BHO3LLC.hit, BHO3LLC.pushBack, BHO3LLC.erase] using hb
  | join hm => exact h.join hm _ hid
  | @start s₁ hev hnew hm hroom =>
    have hsame := SameRequests.evicted hev
    have h₁ : Balanced p (s.llc.hitList.map (·.2)) { s with llc := s₁ } :=
      h.lines (hev.wf h.wf) hsame rfl rfl rfl
    have hlist : (s₁.fetch p (asRead req) (req.type = .write)).hitList = s.llc.hitList := by
      rw [fetch, addAllocated_eq]
      exact hsame.hitList
    rw [show LLCRequest.mk req.addr .read req.source req.id = asRead req from rfl, hlist]
    refine h₁.start ?_ hwf hid
    rw [hsame.mshrs]
    exact hm

/-- **A send** keeps the balance. -/
theorem Balanced.send (h : Balanced p (s.llc.hitList.map (·.2)) s) (core addr : ℕ)
    (type : AccessType) :
    ∃ s', s.send p core addr type = some s' ∧ Balanced p (s'.llc.hitList.map (·.2)) s' := by
  obtain ⟨ok, llc, hsent, heq⟩ := send_eq h.wf core addr type
  refine ⟨_, heq, ?_⟩
  cases ok with
  | false =>
    cases hsent
    exact h
  | true =>
    have hsame := SameRequests.recordStore (p := p) llc addr type
    have h' := h.sent hsent rfl
    rw [if_pos rfl, hsame.hitList]
    exact h'.lines (h'.wf.recordStore addr type) hsame rfl rfl rfl

/-! ## The answers -/

theorem foldl_deliver (h : Wf p s.llc) (rs : List LLCRequest) :
    ∃ llc, Wf p llc ∧ SameRequests s.llc llc ∧
      rs.foldl (deliver p) s = { s with llc, delivered := s.delivered ++ rs } := by
  induction rs generalizing s with
  | nil => exact ⟨s.llc, h, .refl _, by simp⟩
  | cons r rs ih =>
    have hone : ∃ llc, Wf p llc ∧ SameRequests s.llc llc ∧
        s.deliver p r = { s with llc, delivered := s.delivered ++ [r] } := by
      unfold deliver
      split
      · exact ⟨_, (h.clflush r.addr).wf h, .clflush _ _, rfl⟩
      · exact ⟨_, h, .refl _, rfl⟩
    obtain ⟨llc, hwf, hsame, hdeliver⟩ := hone
    obtain ⟨llc', hwf', hsame', hrest⟩ := ih (s := s.deliver p r) (by rw [hdeliver]; exact hwf)
    rw [hdeliver] at hsame' hrest
    refine ⟨llc', hwf', hsame.trans hsame', ?_⟩
    rw [foldl_cons, hdeliver, hrest, append_assoc]
    rfl

theorem receive_spec (h : Wf p s.llc) (req : LLCRequest) :
    ∃ llc llc', Received p s.llc req llc ∧ Wf p llc' ∧ SameRequests llc llc' ∧
      s.receive p req = some (setWaiting
        { s with llc := llc', delivered := s.delivered ++ llc.receiveRequests req.addr }
        req.addr []) := by
  obtain ⟨llc, hrec, heq⟩ := receive_eq h req
  obtain ⟨llc', hwf, hsame, hfold⟩ := foldl_deliver (s := { s with llc }) (hrec.wf h)
    (llc.receiveRequests req.addr)
  refine ⟨llc, llc', hrec, hwf, hsame, ?_⟩
  rw [heq, hfold]

/-- **The answer to a hit** whose line is not being fetched: no request waits before or after it. -/
theorem Balanced.serveHit (h : Balanced p (req :: hits) s)
    (hm : ∀ m ∈ s.llc.mshrs, p.align m.addr ≠ p.align req.addr) :
    ∃ s', s.serveHit p req = some s' ∧ Balanced p hits s' ∧ SameRequests s.llc s'.llc ∧
      s'.inFlight = s.inFlight := by
  have hwf : Wf p (s.setWaiting req.addr [req]).llc :=
    ⟨h.wf.sets, h.wf.lines, h.wf.fills, h.wf.room⟩
  have hkey : req.addr ∉ s.llc.keys := by
    intro hmem
    obtain ⟨m, hmem, haddr⟩ := mem_map.mp hmem
    exact hm m hmem (by rw [haddr])
  obtain ⟨llc, llc', hrec, hwf', hsame, heq⟩ := receive_spec hwf req
  cases hrec with
  | filled hmem hline => exact absurd hline (hm _ hmem)
  | none =>
    have hwait : update llc'.receiveRequests req.addr [] = s.llc.receiveRequests := by
      rw [hsame.receiveRequests]
      simp only [setWaiting, update_idem]
      rw [← h.idle _ hkey, update_eq_self]
    have hone : (s.setWaiting req.addr [req]).llc.receiveRequests req.addr = [req] := update_self ..
    rw [hone] at heq
    have hsame' : SameRequests s.llc
        { llc' with receiveRequests := update llc'.receiveRequests req.addr [] } :=
      ⟨hsame.mshrs, hwait, hsame.reads, hsame.hitList, hsame.allocated⟩
    refine ⟨_, heq, h.lines ?_ hsame' rfl rfl (append_assoc ..), hsame', rfl⟩
    exact ⟨hwf'.sets, hwf'.lines, hwf'.fills, hwf'.room⟩

theorem readReqs_perm {i : ℕ} (hget : s.inFlight[i]? = some req) :
    s.readReqs.Perm (req :: (s.llc.queuedReadReqs ++ s.inFlight.eraseIdx i)) := by
  obtain ⟨hi, rfl⟩ := List.getElem?_eq_some_iff.mp hget
  exact ((getElem_cons_eraseIdx_perm hi).symm.append_left _).trans perm_middle

/-- **A completed read** has an entry, and gives it back. -/
theorem Balanced.complete_eq (h : Balanced p hits s) {i : ℕ} (hget : s.inFlight[i]? = some req) :
    ∃ m llc, m ∈ s.llc.mshrs ∧ m.addr = req.addr ∧ Wf p llc ∧
      SameRequests (s.llc.filled req m) llc ∧
      s.complete p i = some (setWaiting { s with
        llc, inFlight := s.inFlight.eraseIdx i
        delivered := s.delivered ++ s.llc.receiveRequests req.addr } req.addr []) := by
  have hkeys : s.llc.keys.Perm _ := h.reads.trans ((readReqs_perm hget).map _)
  obtain ⟨m, hm, haddr⟩ := mem_map.mp (hkeys.symm.subset mem_cons_self)
  obtain ⟨llc, llc', hrec, hwf, hsame, heq⟩ :=
    receive_spec (s := { s with inFlight := s.inFlight.eraseIdx i }) h.wf req
  have hllc : llc = s.llc.filled req m := by
    cases hrec with
    | none hnone => exact absurd (by rw [haddr]) (hnone m hm)
    | filled hm' hline => rw [h.wf.mshr_eq hm' hm (by rw [hline, haddr])]
  have hwait : llc.receiveRequests = s.llc.receiveRequests := by
    rw [hllc, filled, addAllocated_eq]
    rfl
  refine ⟨m, llc', hm, haddr, hwf, hllc ▸ hsame, ?_⟩
  rw [BHO3.complete, hget, ← hwait]
  exact heq

/-- It answers everything that waited for it. -/
theorem Balanced.complete (h : Balanced p hits s) {i : ℕ} (hi : i < s.inFlight.length) :
    ∃ s', s.complete p i = some s' ∧ Balanced p hits s' ∧ s'.llc.hitList = s.llc.hitList := by
  obtain ⟨req, hget⟩ : ∃ req, s.inFlight[i]? = some req := ⟨_, getElem?_eq_getElem hi⟩
  obtain ⟨m, llc, hm, haddr, hwf, hsame, heq⟩ := h.complete_eq hget
  have hreads : s.llc.keys.Perm _ := h.reads.trans ((readReqs_perm hget).map _)
  have hfilled := hsame
  rw [filled, addAllocated_eq] at hfilled
  have hwait : llc.receiveRequests = s.llc.receiveRequests := hfilled.receiveRequests
  have hqueued : llc.queuedReadReqs = s.llc.queuedReadReqs := hfilled.reads
  have hkeys : s.llc.keys.Perm (req.addr :: llc.keys) := by
    have hrest : llc.keys = (s.llc.mshrs.erase m).map (·.addr) := hfilled.keys
    rw [hrest, ← haddr]
    exact (perm_cons_erase hm).map (·.addr)
  have hfresh : req.addr ∉ llc.keys := (nodup_cons.mp (hkeys.nodup_iff.mp h.wf.keys_nodup)).1
  refine ⟨_, heq, ⟨⟨hwf.sets, hwf.lines, hwf.fills, hwf.room⟩, ?_, ?_, ?_, h.ids⟩, hfilled.hitList⟩
  · change llc.keys.Perm ((llc.queuedReadReqs ++ s.inFlight.eraseIdx i).map (·.addr))
    rw [hqueued]
    exact (hkeys.symm.trans hreads).cons_inv
  · intro a ha
    change update llc.receiveRequests req.addr [] a = []
    by_cases hne : a = req.addr
    · rw [hne, update_self]
    · rw [update_of_ne hne, hwait]
      refine h.idle a fun hmem => ?_
      rcases mem_cons.mp (hkeys.subset hmem) with heq | hmem
      · exact hne heq
      · exact ha hmem
  · change (s.accepted.map asRead).Perm ((s.delivered ++ s.llc.receiveRequests req.addr ++ hits ++
      llc.keys.flatMap (update llc.receiveRequests req.addr [])).map asRead)
    rw [flatMap_update_of_notMem hfresh, hwait, perm_iff_count]
    intro r
    have hold := h.account.count_eq r
    have hflat := ((hkeys.flatMap_right s.llc.receiveRequests).map asRead).count_eq r
    simp only [flatMap_cons, map_append, count_append] at hold hflat ⊢
    omega

/-! ## Cycles -/

theorem Balanced.hits_perm (h : Balanced p hits s) (hperm : hits.Perm hits') : Balanced p hits' s where
  wf := h.wf
  reads := h.reads
  idle := h.idle
  account := h.account.trans (((hperm.append_left _).append_right _).map _)
  ids := h.ids

/-- A read that the memory system takes goes from the miss list to those in flight. -/
theorem readReqs_sendMisses (s : BHO3) (accepts : ℕ → Bool) :
    s.readReqs.Perm (s.startCycle.sendMisses accepts).readReqs := by
  let taken : MissEntry → Bool := fun e => e.isTaken (s.llc.clk + 1) accepts
  let read : MissEntry → Bool := fun e => e.req.type = .read
  change ((s.llc.missList.filter read).map (·.req) ++ s.inFlight).Perm
    (((s.llc.missList.filter fun e => !taken e).filter read).map (·.req) ++
      (s.inFlight ++ ((s.llc.missList.filter taken).filter read).map (·.req)))
  have hsplit := ((filter_append_perm taken s.llc.missList).filter read).map (·.req)
  rw [perm_iff_count] at hsplit ⊢
  intro r
  have hsplit := hsplit r
  simp only [filter_append, map_append, count_append] at hsplit ⊢
  omega

theorem Balanced.sendMisses (h : Balanced p hits s) (accepts : ℕ → Bool) :
    Balanced p hits (s.startCycle.sendMisses accepts) where
  wf := ⟨h.wf.sets, h.wf.lines, h.wf.fills, h.wf.room⟩
  reads := h.reads.trans ((s.readReqs_sendMisses accepts).map _)
  idle := h.idle
  account := h.account
  ids := h.ids

def HitsSettled (p : BHO3Params) (s : BHO3) : Prop :=
  ∀ e ∈ s.llc.hitList, e.1 ≤ s.llc.clk + 1 → ∀ m ∈ s.llc.mshrs, p.align m.addr ≠ p.align e.2.addr
  deriving Decidable

theorem Balanced.foldlM_serveHit {es : List (ℕ × LLCRequest)}
    (h : Balanced p (es.map (·.2) ++ hits) s)
    (hm : ∀ e ∈ es, ∀ m ∈ s.llc.mshrs, p.align m.addr ≠ p.align e.2.addr) :
    ∃ s', es.foldlM (fun s e => s.serveHit p e.2) s = some s' ∧ Balanced p hits s' ∧
      SameRequests s.llc s'.llc ∧ s'.inFlight = s.inFlight := by
  induction es generalizing s with
  | nil => exact ⟨s, rfl, h, .refl _, rfl⟩
  | cons e es ih =>
    have hhead : Balanced p (e.2 :: (es.map (·.2) ++ hits)) s := h
    obtain ⟨s₁, hserve, h₁, hsame₁, hflight₁⟩ := hhead.serveHit (hm e mem_cons_self)
    obtain ⟨s', hrest, h', hsame, hflight⟩ := ih h₁ (fun e he => by
      rw [hsame₁.mshrs]
      exact hm e (mem_cons_of_mem _ he))
    refine ⟨s', ?_, h', hsame₁.trans hsame, hflight.trans hflight₁⟩
    rw [foldlM_cons, hserve]
    exact hrest

/-- **A cycle** keeps the balance, if no hit falls due while its line is being fetched: after the first
loop only the lines and the hit list change. -/
theorem Balanced.tick (h : Balanced p (s.llc.hitList.map (·.2)) s) (hsettled : HitsSettled p s)
    (accepts : ℕ → Bool) :
    ∃ (s₁ : BHO3) (rest : List (ℕ × LLCRequest)), s.tick p accepts = some (s₁.setHitList rest) ∧
      Balanced p (rest.map (·.2)) (s₁.setHitList rest) ∧
      SameRequests (s.startCycle.sendMisses accepts).llc s₁.llc ∧
      s₁.inFlight = (s.startCycle.sendMisses accepts).inFlight := by
  let due : ℕ × LLCRequest → Bool := fun e => decide (e.1 ≤ s.llc.clk + 1)
  have hsplit : (s.llc.hitList.map (·.2)).Perm
      ((s.llc.hitList.filter due).map (·.2) ++ (s.llc.hitList.filter fun e => !due e).map (·.2)) := by
    rw [← map_append]
    exact (filter_append_perm due s.llc.hitList).symm.map _
  have h₁ := (h.sendMisses accepts).hits_perm hsplit
  obtain ⟨s₁, hloop, h', hsame, hflight⟩ := h₁.foldlM_serveHit (by
    intro e he
    obtain ⟨hmem, hdue⟩ := mem_filter.mp he
    exact hsettled e hmem (of_decide_eq_true hdue))
  exact ⟨s₁, _, serveHits_of_loop hloop, ⟨⟨h'.wf.sets, h'.wf.lines, h'.wf.fills, h'.wf.room⟩, h'.reads,
    h'.idle, h'.account, h'.ids⟩, hsame, hflight⟩

/-! ## Whole runs -/

def SettledCall (p : BHO3Params) (s : BHO3) : BHO3Call → Prop
  | .tick _ => HitsSettled p s
  | _ => True

instance (call : BHO3Call) : Decidable (SettledCall p s call) :=
  match call with
  | .tick _ => inferInstanceAs (Decidable (HitsSettled p s))
  | .send .. | .complete _ | .clflush _ | .setBlacklistMaxMshrs .. | .addBlacklist _
  | .eraseBlacklist _ => inferInstanceAs (Decidable True)

theorem Balanced.step (h : Balanced p (s.llc.hitList.map (·.2)) s) {call : BHO3Call}
    (hok : SettledCall p s call) (hst : (bho3 p).step s call = some s') :
    Balanced p (s'.llc.hitList.map (·.2)) s' := by
  cases call with
  | send core addr type =>
    obtain ⟨s₁, heq, h₁⟩ := h.send core addr type
    cases hst.symm.trans heq
    exact h₁
  | tick accepts =>
    obtain ⟨s₁, rest, heq, h₁, -, -⟩ := h.tick hok accepts
    cases hst.symm.trans heq
    exact h₁
  | complete i =>
    obtain ⟨s₁, heq, h₁, hlist⟩ := h.complete (possible_of_step hst)
    cases hst.symm.trans heq
    rw [hlist]
    exact h₁
  | clflush addr =>
    cases hst
    have hsame := SameRequests.clflush (p := p) s.llc addr
    rw [hsame.hitList]
    exact h.lines ((h.wf.clflush addr).wf h.wf) hsame rfl rfl rfl
  | setBlacklistMaxMshrs | addBlacklist | eraseBlacklist =>
    cases hst
    exact ⟨⟨h.wf.sets, h.wf.lines, h.wf.fills, h.wf.room⟩, h.reads, h.idle, h.account, h.ids⟩

theorem balanced_init : Balanced p [] {} := ⟨.init, .nil, fun _ _ => rfl, .nil, rfl⟩

theorem balanced_of_reachable (hs : (bho3 p).ReachableWhen (SettledCall p) s) :
    Balanced p (s.llc.hitList.map (·.2)) s :=
  hs.invariant (P := fun s : BHO3 => Balanced p (s.llc.hitList.map (·.2)) s) balanced_init
    fun _ _ _ h hok hst => h.step hok hst

theorem Balanced.accepted_perm (h : Balanced p (s.llc.hitList.map (·.2)) s) :
    (s.accepted.map asRead).Perm ((s.delivered ++ s.waiting).map asRead) := by
  refine h.account.trans (List.Perm.map _ ?_)
  rw [waiting, append_assoc]
  exact ((h.reads.flatMap_right _).append_left _).append_left _

/-- **Every accepted request is answered exactly once**, in a run in which no hit falls due while its
line is being fetched; and what is delivered was accepted, with this address and from this core. -/
theorem delivered_exactly_once (p : BHO3Params) {s : BHO3}
    (hs : (bho3 p).ReachableWhen (SettledCall p) s) :
    (∀ r ∈ s.accepted,
      (s.delivered.map (·.id)).count r.id + (s.waiting.map (·.id)).count r.id = 1) ∧
    ∀ d ∈ s.delivered, ∃ r ∈ s.accepted, d.id = r.id ∧ d.addr = r.addr ∧ d.source = r.source := by
  have h := balanced_of_reachable hs
  have hperm := h.accepted_perm
  constructor
  · intro r hr
    have hids : (s.accepted.map (·.id)).Perm ((s.delivered ++ s.waiting).map (·.id)) := by
      have hmap := hperm.map (·.id)
      rw [map_map, map_map] at hmap
      exact hmap
    have hnodup : (s.accepted.map (·.id)).Nodup := by
      rw [h.ids]
      exact nodup_range
    rw [← count_append, ← map_append, ← hids.count_eq]
    exact count_eq_one_of_mem hnodup (mem_map_of_mem hr)
  · intro d hd
    have hmem : asRead d ∈ (s.delivered ++ s.waiting).map asRead :=
      mem_map_of_mem (mem_append_left _ hd)
    obtain ⟨r, hr, heq⟩ := mem_map.mp (hperm.symm.subset hmem)
    have hfields := (LLCRequest.mk.injEq ..).mp heq
    exact ⟨r, hr, hfields.2.2.2.symm, hfields.1.symm, hfields.2.2.1.symm⟩

/-- A core misses and hits; both of its requests are delivered. -/
theorem miss_and_hit_delivered :
    ∃ s, (bho3 oneLine).ReachableWhen (SettledCall oneLine) s ∧
      s.accepted.map (·.id) = [0, 1] ∧ s.waiting = [] ∧
      (s.delivered.map (·.id)).count 0 = 1 ∧ (s.delivered.map (·.id)).count 1 = 1 := by
  obtain ⟨s, hs, hacc, hwait⟩ := Machine.exists_reachableWhen (m := bho3 oneLine)
    (fun s call => decide (SettledCall oneLine s call)) (fun s call => of_decide_eq_true)
    (P := fun s => s.accepted = [{ addr := 4, type := .read, source := some 0, id := 0 },
      { addr := 4, type := .read, source := some 0, id := 1 }] ∧ s.waiting = [])
    [.send 0 4 .read, .tick fun _ => true, .tick fun _ => true, .complete 0, .send 0 4 .read,
      .tick fun _ => true, .tick fun _ => true] (by decide +kernel) (by decide +kernel)
  have honce := (delivered_exactly_once oneLine hs).1
  rw [hacc, hwait] at honce
  refine ⟨s, hs, by rw [hacc]; rfl, hwait, ?_, ?_⟩
  · exact honce _ (mem_of_getElem? (i := 0) rfl)
  · exact honce _ (mem_of_getElem? (i := 1) rfl)

/-- The attacker and a core hit the line of 4 one cycle apart.  The attacker flushes it, another core
misses on it, and then the second hit falls due: the miss is never answered. -/
theorem refetched_line_loses_read :
    ∃ s, (bho3 oneLine).Reachable s ∧ s.llc.hitList = [] ∧ s.outstanding = [] ∧
      ∃ r ∈ s.accepted, r.type = .read ∧ r.id ∉ s.delivered.map (·.id) :=
  Machine.exists_reachable
    [.send 0 4 .read, .tick fun _ => true, .tick fun _ => true, .complete 0,
      .send 2 4 .read, .tick fun _ => true, .send 0 4 .read, .tick fun _ => true,
      .send 1 4 .read, .tick fun _ => true, .tick fun _ => true, .complete 0] (by decide +kernel)

end BHO3

end MultiCoreMemory
