import MultiCoreMemory.Sniper.DirectoryModes

/-!
# Every message leaves the directory steady

What the cores do (`Steady.request`, `Steady.evict`, `Steady.write`, `Steady.toCache`) and what reaches
the directory (`Steady.invRep`, `Steady.flushRep`, `Steady.wbRep`, `Steady.processRequest`,
`Steady.dramReply`) takes a steady state to a steady state, and fails no assertion.

One step needs a condition.  A shared request that finds the list of sharers full has one sharer
invalidated, but takes the `INV_REP` of any other for the answer: `Steady.invRep` asks that it is the
answer.
-/

namespace MultiCoreMemory.Sniper

open List Option Function Directory

variable {n : ℕ} {D : Type} {cfg : DirectoryConfig} {d : Directory n D} {cores : Fin n → Core D}
  {w : Fin n → Option Revoke} {granted : Option (Fin n)} {i : Fin n}

/-! ## Moves of a core -/

theorem Linked.setCore {c : Core D} {down : List (ToCache D)} (h : Linked cfg d cores w granted)
    (hlink : Link d.dstate (i ∈ d.sharers) (i ∈ d.requesters) (granted = some i) (w i) c.cstate
      c.pending c.up down)
    (hpending : i ∈ d.requesters → c.pending = (cores i).pending) :
    Linked cfg { d with down := update d.down i down } (update cores i c) w
      granted := by
  refine ⟨h.uncached, h.owned, h.room, ⟨h.queued.nodup, fun r hr => ?_, h.queued.fresh⟩, fun j => ?_,
    h.shared_of_inv⟩
  · by_cases hri : r.requester = i
    · rw [hri, update_self, hpending (hri ▸ List.mem_map_of_mem hr), ← hri]
      exact h.queued.pending r hr
    · rw [update_of_ne hri]
      exact h.queued.pending r hr
  · by_cases hji : j = i
    · subst hji
      simp only [update_self]
      exact hlink
    · simp only [update_of_ne hji]
      exact h.links j

section

variable (h : Steady cfg d cores)
include h

theorem Steady.setCore {c : Core D}
    (hlink : ∀ ds sharer queued granted w,
      Link ds sharer queued granted w (cores i).cstate (cores i).pending (cores i).up (d.down i) →
        Link ds sharer queued granted w c.cstate c.pending c.up (d.down i))
    (hpending : (cores i).pending ≠ none → c.pending = (cores i).pending) :
    Steady cfg d (update cores i c) := by
  obtain ⟨hfwd, w, granted, hlinked, hmode⟩ := h
  refine ⟨hfwd, w, granted, ?_, hmode⟩
  have hset := hlinked.setCore (hlink _ _ _ _ _ (hlinked.links i)) fun hq => by
    obtain ⟨r, hr, rfl⟩ := List.mem_map.mp hq
    exact hpending (by rw [hlinked.queued.pending r hr]; exact some_ne_none _)
  rwa [update_eq_self] at hset

theorem Steady.request {type : Request} {c : Core D} (hc : (cores i).request type = some c) :
    Steady cfg d (update cores i c) := by
  refine h.setCore (fun _ _ _ _ _ hlink => hlink.request hc) fun hp => absurd ?_ hp
  unfold Core.request at hc
  split at hc <;> first | assumption | cases hc

theorem Steady.evict {c : Core D} (hc : (cores i).evict = some c) :
    Steady cfg d (update cores i c) := by
  refine h.setCore (fun _ _ _ _ _ hlink => hlink.evict hc) fun _ => ?_
  unfold Core.evict at hc
  split at hc <;> cases hc <;> rfl

theorem Steady.write {change : D → D} {c : Core D} (hc : (cores i).write change = some c) :
    Steady cfg d (update cores i c) := by
  refine h.setCore (fun _ _ _ _ _ hlink => hlink.write hc) fun _ => ?_
  unfold Core.write at hc
  split at hc <;> cases hc <;> rfl

theorem Steady.toCache {msg : ToCache D} {down : List (ToCache D)} (hdown : d.down i = msg :: down)
    (change : D → D) (uninit : D) :
    ∃ c writes, (cores i).handleMsg msg change uninit = some (c, writes) ∧
      Steady cfg { d with down := update d.down i down } (update cores i c) := by
  obtain ⟨hfwd, w, granted, hlinked, hmode⟩ := h
  have hlink := hlinked.links i
  rw [hdown] at hlink
  obtain ⟨c, writes, hc, hpending, hlink'⟩ :=
    hlink.handleMsg change uninit (hlinked.shared_of_inv i)
  exact ⟨c, writes, hc, hfwd, w, granted, hlinked.setCore hlink' hpending,
    hmode.of_eq rfl rfl rfl rfl rfl⟩

end

/-! ## Messages to the directory -/

def pop (cores : Fin n → Core D) (i : Fin n) (up : List (ToDirectory D)) : Fin n → Core D :=
  update cores i { cores i with up }

theorem pop_of_ne {up : List (ToDirectory D)} {j : Fin n} (h : j ≠ i) : pop cores i up j = cores j :=
  update_of_ne h ..

@[simp] theorem pop_pending (cores : Fin n → Core D) (i : Fin n) (up : List (ToDirectory D))
    (j : Fin n) : (pop cores i up j).pending = (cores j).pending := by
  by_cases hj : j = i
  · subst hj
    rw [pop, update_self]
  · rw [pop_of_ne hj]

theorem Queued.pop {queue : List (ShmemReq n)} (h : Queued queue cores) (i : Fin n)
    (up : List (ToDirectory D)) : Queued queue (pop cores i up) where
  nodup := h.nodup
  pending r hr := by
    rw [pop_pending]
    exact h.pending r hr
  fresh := h.fresh

theorem Linked.released {msg : ToDirectory D} {up : List (ToDirectory D)}
    (forwarder owner : Option (Fin n)) (h : Linked cfg d cores w granted)
    (hup : (cores i).up = msg :: up) (hreq : ∀ k, msg ≠ .request k)
    (hback : ∀ data, msg ≠ .WB_REP data) :
    Linked cfg { d.removeSharer i with forwarder, owner } (Sniper.pop cores i up)
      (update w i none) granted := by
  have hlink := h.links i
  rw [hup] at hlink
  obtain ⟨hi, -, -, hgone⟩ := hlink.of_released hreq hback
  have hdstate : d.dstate ≠ .UNCACHED := by
    rw [ne_eq, h.uncached]
    exact Finset.ne_empty_of_mem hi
  have hother : ∀ j, j ≠ i → (j ∈ d.sharers ↔ j ∈ d.sharers.erase i) := fun j hj => by
    rw [Finset.mem_erase, and_iff_right hj]
  have hremains : ∀ j, j ≠ i → j ∈ d.sharers → d.sharers.erase i ≠ ∅ := fun j hj hmem =>
    Finset.ne_empty_of_mem ((hother j hj).mp hmem)
  refine ⟨?_, ?_, ?_, h.queued.pop i up, fun j => ?_, fun j hj => ?_⟩
  · simp only [removeSharer]
    split_ifs with hempty
    · simp [hempty]
    · simp [hempty, hdstate]
  · intro hown
    simp only [removeSharer] at hown
    split_ifs at hown with hempty
    · simp at hown
    · -- the only sharer was the owner, and it is the one that goes
      obtain ⟨o, -, hsharers⟩ := h.owned hown
      rw [hsharers, Finset.mem_singleton] at hi
      simp [hsharers, hi] at hempty
  · exact (Finset.card_le_card (Finset.erase_subset i d.sharers)).trans h.room
  · by_cases hj : j = i
    · subst hj
      simp only [Sniper.pop, update_self]
      exact hgone _ _ (Finset.notMem_erase j d.sharers)
    · rw [pop_of_ne hj, update_of_ne hj]
      refine Link.congr ?_ (hother j hj) Iff.rfl Iff.rfl
      by_cases hmem : j ∈ d.sharers
      · simp only [removeSharer, if_neg (hremains j hj hmem)]
        exact h.links j
      · exact (h.links j).outside hmem
  · have hne : j ≠ i := by
      rintro rfl
      simp at hj
    rw [update_of_ne hne] at hj
    have hmem := (h.links j).sharer_of_revoke (by rw [hj]; exact some_ne_none _)
    simp only [removeSharer, if_neg (hremains j hne hmem)]
    exact h.shared_of_inv j hj

theorem update_none (i : Fin n) :
    update (fun _ => none : Fin n → Option Revoke) i none = fun _ => none :=
  update_eq_self i _

theorem Directory.removeSharer_dstate {j : Fin n} (hj : j ∈ d.sharers.erase i) :
    (d.removeSharer i).dstate = d.dstate :=
  if_neg (Finset.ne_empty_of_mem hj)

theorem Linked.removeSharer_of_owned (h : Linked cfg d cores w granted)
    (hds : d.dstate = .EXCLUSIVE ∨ d.dstate = .MODIFIED) (hi : i ∈ d.sharers) :
    d.owner = some i ∧ d.sharers = {i} ∧ (d.removeSharer i).sharers = ∅ ∧
      (d.removeSharer i).dstate = .UNCACHED := by
  obtain ⟨o, ho, hsharers⟩ := h.owned hds
  obtain rfl : i = o := by rwa [hsharers, Finset.mem_singleton] at hi
  have hempty : d.sharers.erase i = ∅ := by simp [hsharers]
  exact ⟨ho, hsharers, hempty, if_pos hempty⟩

theorem Directory.eq_of_uncached (h : d.dstate = .UNCACHED) : { d with dstate := .UNCACHED } = d := by
  rw [← h]

theorem eq_none_of_forall {w : Fin n → Option Revoke} (h : ∀ j, ¬ w j ≠ none) :
    w = fun _ => none := funext fun j => not_not.mp (h j)

/-- `d₁` is `d` without the sharer `i`, and `cores` are the cores without the message that said so. -/
structure Released (cfg : DirectoryConfig) (d d₁ : Directory n D) (cores : Fin n → Core D)
    (w : Fin n → Option Revoke) (granted : Option (Fin n)) (i : Fin n) : Prop where
  queue : d₁.queue = d.queue
  reads : d₁.dramReads = d.dramReads
  sharers : d₁.sharers = d.sharers.erase i
  dstate : d₁.dstate = (d.removeSharer i).dstate
  linked : Linked cfg d₁ cores (update w i none) granted
  forwarder : ForwarderShares cfg d₁

namespace Released

variable {d₁ : Directory n D} {r : ShmemReq n} {rest : List (ShmemReq n)}

theorem setHead (r' : ShmemReq n) (h : Released cfg d d₁ cores w granted i) (hq : d.queue = r :: rest)
    (hr : r'.requester = r.requester) (ht : r'.type = r.type) :
    Released cfg (d.setHead r') (d₁.setHead r') cores w granted i where
  queue := congrArg (r' :: ·) (congrArg tail h.queue)
  reads := h.reads
  sharers := h.sharers
  dstate := h.dstate
  linked := h.linked.setHead r' (h.queue.trans hq) hr ht
  forwarder := h.forwarder

theorem settled_of_owned {o : Fin n} {k : Revoke} {cores₀ : Fin n → Core D}
    (h : Released cfg d d₁ cores (only o k) none i)
    (hlinked : Linked cfg d cores₀ w granted) (hreads : d.dramReads = [])
    (hown : d.dstate = .EXCLUSIVE ∨ d.dstate = .MODIFIED) (ho : d.owner = some o)
    (hi : i ∈ d.sharers) :
    Settled cfg d₁ cores ∧ d₁.dstate = .UNCACHED ∧ d₁.sharers.card = 0 := by
  obtain ⟨hi', -, hempty, huncached⟩ := hlinked.removeSharer_of_owned hown hi
  obtain rfl : o = i := some.inj (ho.symm.trans hi')
  have hlinked₁ := h.linked
  rw [update_only_none] at hlinked₁
  refine ⟨⟨hlinked₁, h.reads.trans hreads⟩, h.dstate.trans huncached, ?_⟩
  rw [h.sharers]
  exact Finset.card_eq_zero.mpr hempty

theorem revoked_iff (h : Released cfg d d₁ cores w granted i)
    (hw : ∀ j, w j ≠ none ↔ j ∈ d.sharers ∧ j ≠ r.requester) (j : Fin n) :
    update w i none j ≠ none ↔ j ∈ d₁.sharers ∧ j ≠ r.requester := by
  rw [h.sharers]
  by_cases hj : j = i
  · subst hj
    simp
  · rw [update_of_ne hj, hw, Finset.mem_erase, and_iff_right hj]

theorem invalidating (h : Released cfg d d₁ cores w none i) (hq : d.queue = r :: rest)
    (hreads : d.dramReads = []) (hfresh : r.Fresh) (htype : r.type ≠ .SH_REQ)
    (hshared : d.dstate = .SHARED) (hr : r.type = .EX_REQ → r.requester ∉ d.sharers)
    (hw : ∀ j, w j ≠ none ↔ j ∈ d.sharers ∧ j ≠ r.requester)
    (hk : ∀ j k, w j = some k → k = .INV_REQ ∨
      k = .FLUSH_REQ ∧ r.type = .UPGRADE_REQ ∧ r.requester ∉ d.sharers)
    (hleft : ∃ j ∈ d₁.sharers, j ≠ r.requester) : Mode cfg d₁ (update w i none) none := by
  have hsub : ∀ j, j ∈ d₁.sharers → j ∈ d.sharers := fun j hj =>
    Finset.mem_of_mem_erase (h.sharers ▸ hj)
  have hdstate : d₁.dstate = d.dstate := by
    obtain ⟨j, hj, -⟩ := hleft
    exact h.dstate.trans (removeSharer_dstate (h.sharers ▸ hj))
  refine .invalidating (h.queue.trans hq) (h.reads.trans hreads) hfresh htype (hdstate.trans hshared)
    hleft (fun hex hmem => hr hex (hsub _ hmem)) (h.revoked_iff hw) fun j k hj => ?_
  have hji : j ≠ i := by
    rintro rfl
    simp at hj
  rw [update_of_ne hji] at hj
  exact (hk j k hj).imp_right fun ⟨hflush, hup, hr⟩ => ⟨hflush, hup, fun hmem => hr (hsub _ hmem)⟩

theorem settled_of_all (h : Released cfg d d₁ cores w none i) (hreads : d.dramReads = [])
    (hw : ∀ j, w j ≠ none ↔ j ∈ d.sharers ∧ j ≠ r.requester)
    (hall : ∀ j ∈ d₁.sharers, j = r.requester) : Settled cfg d₁ cores := by
  have hnone : update w i none = fun _ => none := eq_none_of_forall fun j hj => by
    obtain ⟨hmem, hjr⟩ := (h.revoked_iff hw j).mp hj
    exact hjr (hall j hmem)
  have hlinked := h.linked
  rw [hnone] at hlinked
  exact ⟨hlinked, h.reads.trans hreads⟩

end Released

/-! ### An invalidation is answered, or a clean copy was evicted -/

theorem Directory.of_afterInvRep {d' : Directory n D} {pick : ℕ} {freed : D}
    (h : d.afterInvRep cfg i pick freed = some d') :
    d' = d ∨ ∃ r rest ds, d.queue = r :: rest ∧
      Directory.serve cfg { d with dstate := ds } none pick freed = some d' := by
  have hwait : some d = some d' → d' = d := fun h => (some.inj h).symm
  unfold Directory.afterInvRep at h
  split at h
  · exact .inl (hwait h)
  next r rest hq =>
    split at h
    · split_ifs at h
      · exact .inr ⟨r, rest, d.dstate, hq, h⟩
      · exact .inl (hwait h)
    · split_ifs at h
      · exact .inr ⟨r, rest, d.dstate, hq, h⟩
      · exact .inl (hwait h)
      · exact .inr ⟨r, rest, .UNCACHED, hq, h⟩
      · exact .inl (hwait h)
    · split_ifs at h
      · exact .inl (hwait h)
      · exact .inl (hwait h)
      · exact .inr ⟨r, rest, d.dstate, hq, h⟩

variable (hmax : 1 ≤ cfg.maxHwSharers)
include hmax

section

variable {d₁ : Directory n D} {r : ShmemReq n} {rest : List (ShmemReq n)}

theorem Settled.afterInvRep (h : Settled cfg d cores) (hq : d.queue = r :: rest) (hfresh : r.Fresh)
    (hfwd : ForwarderShares cfg d) (hex : r.type = .EX_REQ → d.dstate = .UNCACHED)
    (hup : r.type = .UPGRADE_REQ → ∀ j ∈ d.sharers, j = r.requester) (pick : ℕ) (freed : D) :
    ∃ d', d.afterInvRep cfg i pick freed = some d' ∧ Steady cfg d' cores := by
  have hserve : ∃ d', d.serve cfg none pick freed = some d' ∧ Steady cfg d' cores :=
    h.serve hmax hq hfresh (fun _ => hfwd) (fun hc => absurd rfl hc) pick freed
  unfold Directory.afterInvRep
  cases htype : r.type with
  | EX_REQ =>
    simp only [hq, htype, hex htype, if_true]
    exact hserve
  | SH_REQ =>
    simp only [hq, htype, hfresh.wait, hfresh.forward, ne_eq, not_true, false_and,
      Bool.false_eq_true, if_false]
    exact hserve
  | UPGRADE_REQ =>
    simp only [hq, htype]
    by_cases hmem : r.requester ∈ d.sharers
    · have hsharers : d.sharers = {r.requester} :=
        Finset.eq_singleton_iff_unique_mem.mpr ⟨hmem, hup htype⟩
      rw [if_pos (by simp [hsharers]), if_pos hmem]
      exact hserve
    · have hempty : d.sharers = ∅ := Finset.eq_empty_of_forall_notMem fun j hj =>
        hmem (hup htype j hj ▸ hj)
      rw [if_neg (by simp [hempty]), if_pos (by simp [hempty]), ← hq,
        eq_of_uncached (h.linked.uncached.mpr hempty)]
      exact hserve

theorem Released.afterInvRep_invalidating (h : Released cfg d d₁ cores w none i)
    (hq : d.queue = r :: rest) (hreads : d.dramReads = []) (hfresh : r.Fresh)
    (htype : r.type ≠ .SH_REQ) (hshared : d.dstate = .SHARED)
    (hr : r.type = .EX_REQ → r.requester ∉ d.sharers)
    (hw : ∀ j, w j ≠ none ↔ j ∈ d.sharers ∧ j ≠ r.requester)
    (hk : ∀ j k, w j = some k →
      k = .INV_REQ ∨ k = .FLUSH_REQ ∧ r.type = .UPGRADE_REQ ∧ r.requester ∉ d.sharers)
    (pick : ℕ) (freed : D) :
    ∃ d', d₁.afterInvRep cfg i pick freed = some d' ∧ Steady cfg d' cores := by
  have hq₁ : d₁.queue = r :: rest := h.queue.trans hq
  have hr₁ : r.type = .EX_REQ → r.requester ∉ d₁.sharers := fun hex hmem =>
    hr hex (Finset.mem_of_mem_erase (h.sharers ▸ hmem))
  by_cases hall : ∀ j ∈ d₁.sharers, j = r.requester
  · have hsettled := h.settled_of_all hreads hw hall
    refine hsettled.afterInvRep hmax hq₁ hfresh h.forwarder (fun hex => ?_) (fun _ => hall) pick freed
    refine h.linked.uncached.mpr (Finset.eq_empty_of_forall_notMem fun j hj => hr₁ hex ?_)
    rw [← hall j hj]
    exact hj
  · obtain ⟨j, hj, hjr⟩ : ∃ j ∈ d₁.sharers, j ≠ r.requester := by
      by_contra hnone
      exact hall fun j hj => by_contra fun hne => hnone ⟨j, hj, hne⟩
    have hsteady : Steady cfg d₁ cores := ⟨h.forwarder, _, _, h.linked,
      h.invalidating hq hreads hfresh htype hshared hr hw hk ⟨j, hj, hjr⟩⟩
    refine ⟨d₁, ?_, hsteady⟩
    unfold Directory.afterInvRep
    cases htype' : r.type with
    | SH_REQ => exact absurd htype' htype
    | EX_REQ =>
      simp only [hq₁, htype']
      rw [if_neg]
      rw [h.linked.uncached]
      exact Finset.ne_empty_of_mem hj
    | UPGRADE_REQ =>
      have hcard : d₁.sharers.card ≠ 0 := Finset.card_ne_zero_of_mem hj
      simp only [hq₁, htype', if_neg hcard]
      by_cases hmem : r.requester ∈ d₁.sharers
      · rw [if_neg]
        intro hone
        obtain ⟨k, hk⟩ := Finset.card_eq_one.mp hone
        rw [hk, Finset.mem_singleton] at hj hmem
        exact hjr (hj.trans hmem.symm)
      · simp only [if_neg hmem, ite_self]

/-- The sharer `i` is the one that has to go, if the request at the head waits for room. -/
def MakesRoom (cfg : DirectoryConfig) (d : Directory n D) (i : Fin n) : Prop :=
  ∀ r v, d.queue.head? = some r → r.displaced = some v → r.requester ∉ d.sharers →
    cfg.maxHwSharers ≤ d.sharers.card → v ∈ d.sharers → i ∈ d.sharers → i = v

theorem Steady.invRep {up : List (ToDirectory D)} (h : Steady cfg d cores)
    (hup : (cores i).up = .INV_REP :: up) (hroom : MakesRoom cfg d i) (pick : ℕ) (freed : D) :
    ∃ d', d.processInvRep cfg i pick freed = some d' ∧ Steady cfg d' (pop cores i up) := by
  obtain ⟨hfwd, w, granted, hlinked, hmode⟩ := h
  have hlink := hlinked.links i
  rw [hup] at hlink
  obtain ⟨hi, hgranted, hmsg, -⟩ := hlink.of_released nofun nofun
  have hds : d.dstate = .SHARED ∨ d.dstate = .EXCLUSIVE := by
    generalize d.dstate = ds, w i = wi at hmsg
    cases hmsg with
    | shared => exact .inl rfl
    | exclusive => exact .inr rfl
  obtain ⟨d₁, hd₁⟩ : ∃ d₁, d₁ = { d.removeSharer i with
    forwarder := if d.forwarder = some i then none else d.forwarder } := ⟨_, rfl⟩
  have hreleased : Released cfg d d₁ (pop cores i up) w granted i := by
    subst hd₁
    refine ⟨rfl, rfl, rfl, rfl, hlinked.released _ d.owner hup nofun nofun, ?_⟩
    intro hmesif hone hshared f hf
    simp only [ite_none_left_eq_some] at hf
    have hne : f ≠ i := by
      rintro rfl
      exact hf.1 hf.2
    have hdstate : d.dstate = .SHARED := by
      simp only [removeSharer] at hshared
      split_ifs at hshared
      exact hshared
    exact Finset.mem_erase.mpr ⟨hne, hfwd hmesif hone hdstate f hf.2⟩
  rw [processInvRep, if_pos ⟨hds, hi⟩, ← hd₁]
  clear hd₁
  have hlinked₁ := hreleased.linked
  have hfwd₁ := hreleased.forwarder
  cases hmode with
  | idle hq hreads =>
    rw [update_none] at hlinked₁
    have hq₁ := hreleased.queue.trans hq
    refine ⟨d₁, ?_, hfwd₁, _, _, hlinked₁, .idle hq₁ (hreleased.reads.trans hreads)⟩
    simp only [Directory.afterInvRep, hq₁]
  | @fetching r rest hq hwait data hreads hr msg hanswer =>
    have hne : r.requester ≠ i := fun heq => hgranted (by rw [heq])
    -- the requester is a sharer too, so the entry is shared
    have hshared : d.dstate = .SHARED := by
      refine hds.resolve_right fun hex => hne ?_
      obtain ⟨-, hsharers, -⟩ := hlinked.removeSharer_of_owned (.inl hex) hi
      rwa [hsharers, Finset.mem_singleton] at hr
    have htype : r.type = .SH_REQ := by
      rw [hshared] at hanswer
      generalize r.type = type at hanswer
      cases hanswer
      rfl
    have hmem : r.requester ∈ d.sharers.erase i := Finset.mem_erase.mpr ⟨hne, hr⟩
    have hdstate : d₁.dstate = d.dstate :=
      hreleased.dstate.trans (removeSharer_dstate hmem)
    have hq₁ := hreleased.queue.trans hq
    rw [update_none] at hlinked₁
    refine ⟨d₁, ?_, hfwd₁, _, _, hlinked₁, .fetching hq₁ hwait (hreleased.reads.trans hreads)
      (hreleased.sharers ▸ hmem) (hdstate ▸ hanswer)⟩
    simp only [Directory.afterInvRep, hq₁, htype, hwait, if_true]
  | @forwarding r rest hq hreads htype hwait f hfrom hshared hf hr =>
    have hne : r.requester ≠ i := fun heq => hgranted (by rw [heq])
    have hmem : r.requester ∈ d.sharers.erase i := Finset.mem_erase.mpr ⟨hne, hr⟩
    have hdstate : d₁.dstate = .SHARED :=
      (hreleased.dstate.trans (removeSharer_dstate hmem)).trans hshared
    have hq₁ := hreleased.queue.trans hq
    have hreads₁ := hreleased.reads.trans hreads
    by_cases hif : i = f
    · -- the sharer that was asked for the data has none any more
      subst hif
      rw [update_only_none] at hlinked₁
      simp only [Directory.afterInvRep, hq₁, htype, hwait, hfrom, ne_eq, not_true, and_false,
        Bool.false_eq_true, if_false]
      exact hlinked₁.serveForwarded hmax hq₁ hreads₁ htype hwait (hfrom ▸ some_ne_none _)
        hdstate (hreleased.sharers ▸ hmem) (fun _ => hfwd₁) pick freed
    · have hw₁ : update (only f .WB_REQ) i none = only f .WB_REQ :=
        update_eq_self_iff.mpr (only_of_ne hif).symm
      have hsome : r.forwardingFrom ≠ none ∧ r.forwardingFrom ≠ some i := by
        rw [hfrom]
        exact ⟨some_ne_none f, fun heq => hif (some.inj heq).symm⟩
      rw [hw₁] at hlinked₁
      refine ⟨d₁, ?_, hfwd₁, _, _, hlinked₁, .forwarding hq₁ hreads₁ htype hwait hfrom hdstate
        (hreleased.sharers ▸ Finset.mem_erase.mpr ⟨Ne.symm hif, hf⟩) (hreleased.sharers ▸ hmem)⟩
      simp only [Directory.afterInvRep, hq₁, htype, hwait, Bool.false_eq_true, if_false, if_pos hsome]
  | @revoking r rest hq hreads hfresh hown o ho hr k hk =>
    obtain ⟨hsettled, huncached, hcard⟩ := hreleased.settled_of_owned hlinked hreads hown ho hi
    refine hsettled.afterInvRep hmax (hreleased.queue.trans hq) hfresh hfwd₁ (fun _ => huncached)
      (fun _ => ?_) pick freed
    simp [Finset.card_eq_zero.mp hcard]
  | @invalidating r rest hq hreads hfresh htype hshared hothers hr w hw hk =>
    exact hreleased.afterInvRep_invalidating hmax hq hreads hfresh htype hshared hr hw hk pick freed
  | @displacing r rest hq hreads hfresh htype hshared hr hfull v hv =>
    have hvmem : v ∈ d.sharers :=
      (hlinked.links v).sharer_of_revoke (by rw [only_self]; exact some_ne_none _)
    obtain rfl := hroom r v (by rw [hq, head?_cons]) hv hr hfull hvmem hi
    rw [update_only_none] at hlinked₁
    have hsettled : Settled cfg d₁ (pop cores i up) := ⟨hlinked₁, hreleased.reads.trans hreads⟩
    exact hsettled.afterInvRep hmax (hreleased.queue.trans hq) hfresh hfwd₁
      (fun hex => absurd (htype.symm.trans hex) nofun)
      (fun hup => absurd (htype.symm.trans hup) nofun) pick freed

end

/-! ### Data comes back with the line -/

section

variable {d₁ : Directory n D} {r : ShmemReq n} {rest : List (ShmemReq n)} {data : D}

theorem Settled.afterFlushRep (h : Settled cfg d cores) (hq : d.queue = r :: rest)
    (hfresh : r.Fresh) (huncached : d.dstate = .UNCACHED) (pick : ℕ) (freed : D) :
    ∃ d', d.afterFlushRep cfg data pick freed = some d' ∧ Steady cfg d' cores := by
  have hserve : ∀ dram, ∃ d', Directory.serve cfg { d with dram } (some data) pick freed = some d' ∧
      Steady cfg d' cores := by
    intro dram
    have hdram : Settled cfg { d with dram } cores :=
      ⟨h.linked.of_eq rfl rfl rfl rfl rfl, h.reads⟩
    exact hdram.serve hmax hq hfresh (fun hc : some data = none => absurd hc nofun)
      (fun _ => .inl huncached) pick freed
  unfold Directory.afterFlushRep
  cases htype : r.type with
  | EX_REQ =>
    simp only [hq, htype]
    exact hserve d.dram
  | SH_REQ =>
    simp only [hq, htype]
    rw [← hq]
    exact hserve data
  | UPGRADE_REQ =>
    have hcard : d.sharers.card = 0 := Finset.card_eq_zero.mpr (h.linked.uncached.mp huncached)
    simp only [hq, htype, hcard, if_true]
    rw [← hq, eq_of_uncached huncached]
    exact hserve d.dram

theorem Steady.flushRep {up : List (ToDirectory D)} (h : Steady cfg d cores)
    (hup : (cores i).up = .FLUSH_REP data :: up) (pick : ℕ) (freed : D) :
    ∃ d', d.processFlushRep cfg i data pick freed = some d' ∧ Steady cfg d' (pop cores i up) := by
  obtain ⟨-, w, granted, hlinked, hmode⟩ := h
  have hlink := hlinked.links i
  rw [hup] at hlink
  obtain ⟨hi, hgranted, hmsg, -⟩ := hlink.of_released nofun nofun
  -- the owner's copy, or the one copy that an upgrade asks for
  have hds : (d.dstate = .EXCLUSIVE ∨ d.dstate = .MODIFIED) ∨
      d.dstate = .SHARED ∧ w i = some .FLUSH_REQ := by
    generalize d.dstate = ds, w i = wi at hmsg
    cases hmsg with
    | written => exact .inl (.inl rfl)
    | modified => exact .inl (.inr rfl)
    | flushed => exact .inr ⟨rfl, rfl⟩
  have hlast : d.sharers.erase i = ∅ ∨ d.dstate = .SHARED :=
    hds.imp (fun hown => (hlinked.removeSharer_of_owned hown hi).2.2.1) And.left
  obtain ⟨d₁, hd₁⟩ : ∃ d₁, d₁ = { d.removeSharer i with forwarder := none, owner := none } :=
    ⟨_, rfl⟩
  have hreleased : Released cfg d d₁ (pop cores i up) w granted i := by
    subst hd₁
    exact ⟨rfl, rfl, rfl, rfl, hlinked.released none none hup nofun nofun, fun _ _ _ => nofun⟩
  have hfwd : d₁.forwarder = none := by rw [hd₁]
  rw [processFlushRep, if_pos ⟨hi, hlast⟩, ← hd₁]
  clear hd₁ hlast
  have hlinked₁ := hreleased.linked
  -- a granted request means another sharer, and no copy of a shared line was asked for
  have hlone : ∀ j ∈ d.sharers, j ≠ i → d.dstate = .SHARED ∧ w i = some .FLUSH_REQ := by
    intro j hj hne
    refine hds.resolve_left fun hown => hne ?_
    obtain ⟨-, hsharers, -⟩ := hlinked.removeSharer_of_owned hown hi
    rwa [hsharers, Finset.mem_singleton] at hj
  cases hmode with
  | idle hq hreads =>
    rw [update_none] at hlinked₁
    have hq₁ := hreleased.queue.trans hq
    refine ⟨{ d₁ with dram := data }, ?_, fun _ _ _ => ?_, _, _, hlinked₁.of_eq rfl rfl rfl rfl rfl,
      .idle hq₁ (hreleased.reads.trans hreads)⟩
    · simp only [Directory.afterFlushRep, hq₁]
    · simp [hfwd]
  | @fetching r rest hq hwait data hreads hr msg hanswer =>
    have hne : r.requester ≠ i := fun heq => hgranted (by rw [heq])
    cases (hlone _ hr hne).2
  | @forwarding r rest hq hreads htype hwait f hfrom hshared hf hr =>
    have hne : r.requester ≠ i := fun heq => hgranted (by rw [heq])
    cases (of_only_eq_some (hlone _ hr hne).2).2
  | @revoking r rest hq hreads hfresh hown o ho hr k hk =>
    obtain ⟨hsettled, huncached, -⟩ := hreleased.settled_of_owned hlinked hreads hown ho hi
    exact hsettled.afterFlushRep hmax (hreleased.queue.trans hq) hfresh huncached pick freed
  | @invalidating r rest hq hreads hfresh htype hshared hothers hr w hw hk =>
    have hflush : w i = some .FLUSH_REQ := by
      obtain hown | ⟨-, hflush⟩ := hds
      · simp [hshared] at hown
      · exact hflush
    obtain ⟨hup, hrmem⟩ : r.type = .UPGRADE_REQ ∧ r.requester ∉ d.sharers := by
      obtain hinv | ⟨-, h⟩ := hk i _ hflush
      · cases hinv
      · exact h
    have hq₁ := hreleased.queue.trans hq
    by_cases hempty : d₁.sharers = ∅
    · have hsettled := hreleased.settled_of_all hreads hw (by simp [hempty])
      exact hsettled.afterFlushRep hmax hq₁ hfresh (hsettled.linked.uncached.mpr hempty) pick freed
    · obtain ⟨j, hj⟩ := Finset.nonempty_iff_ne_empty.mpr hempty
      have hjr : j ≠ r.requester := by
        rintro rfl
        exact hrmem (Finset.mem_of_mem_erase (hreleased.sharers ▸ hj))
      -- the request keeps the data, and waits for the others
      have hkept := hreleased.setHead { r with hasData := true } hq rfl rfl
      have hmode : Mode cfg (d₁.setHead { r with hasData := true }) (update w i none) none :=
        hkept.invalidating (congrArg (_ :: ·) (congrArg tail hq)) hreads
          ⟨hfresh.wait, hfresh.forward⟩ htype hshared hr hw hk ⟨j, hj, hjr⟩
      refine ⟨_, ?_, hkept.forwarder, _, _, hkept.linked, hmode⟩
      simp only [Directory.afterFlushRep, hq₁, hup, if_neg (Finset.card_ne_zero_of_mem hj)]
  | @displacing r rest hq hreads hfresh htype hshared hr hfull v hv =>
    obtain hown | ⟨-, hflush⟩ := hds
    · simp [hshared] at hown
    · cases (of_only_eq_some hflush).2

end

/-! ### Data comes back, and the copy stays -/

section

variable {data : D} {up : List (ToDirectory D)}

omit hmax in
theorem Linked.wroteBack (h : Linked cfg d cores w granted)
    (hup : (cores i).up = .WB_REP data :: up) :
    Linked cfg { d with owner := none, dstate := .SHARED } (Sniper.pop cores i up)
      (update w i none) granted := by
  have hlink := h.links i
  rw [hup] at hlink
  obtain ⟨hi, -, -, hback⟩ := hlink.of_wbRep
  refine ⟨?_, ?_, h.room, h.queued.pop i up, fun j => ?_, fun _ _ => rfl⟩
  · simp [Finset.ne_empty_of_mem hi]
  · simp
  · by_cases hj : j = i
    · subst hj
      simp only [Sniper.pop, update_self]
      exact hback
    · rw [pop_of_ne hj, update_of_ne hj]
      -- another sharer means that the entry was shared
      by_cases hmem : j ∈ d.sharers
      · have hshared : d.dstate = .SHARED := by
          cases hds : d.dstate with
          | SHARED => rfl
          | UNCACHED => exact absurd (h.uncached.mp hds) (Finset.ne_empty_of_mem hi)
          | EXCLUSIVE | MODIFIED =>
            obtain ⟨-, hsharers, -⟩ := h.removeSharer_of_owned (by simp [hds]) hi
            rw [hsharers, Finset.mem_singleton] at hmem
            exact absurd hmem hj
        have hlinkj := h.links j
        rwa [hshared] at hlinkj
      · exact (h.links j).outside hmem

theorem Steady.wbRep (h : Steady cfg d cores) (hup : (cores i).up = .WB_REP data :: up) (pick : ℕ)
    (freed : D) :
    ∃ d', d.processWbRep cfg i data pick freed = some d' ∧ Steady cfg d' (pop cores i up) := by
  obtain ⟨-, w, granted, hlinked, hmode⟩ := h
  have hlink := hlinked.links i
  rw [hup] at hlink
  obtain ⟨hi, -, hw, -⟩ := hlink.of_wbRep
  have hlinked₁ := hlinked.wroteBack hup
  have hsome : ∀ {P : Prop}, some data = none → P := nofun
  cases hmode with
  | idle | fetching => cases hw
  | @forwarding r rest hq hreads htype hwait f hfrom hshared hf hr =>
    obtain ⟨rfl, -⟩ := of_only_eq_some hw
    rw [update_only_none] at hlinked₁
    have hcond : i ∈ d.sharers ∧ d.queue.head?.any (·.type = .SH_REQ) := ⟨hi, by simp [hq, htype]⟩
    rw [processWbRep, if_pos hcond]
    exact hlinked₁.serveForwarded hmax hq hreads htype hwait (hfrom ▸ some_ne_none _) rfl hr
      hsome pick freed
  | @revoking r rest hq hreads hfresh hown o ho hr k hk =>
    obtain ⟨rfl, hback⟩ := of_only_eq_some hw
    obtain ⟨-, hsharers, -⟩ := hlinked.removeSharer_of_owned hown hi
    have htype := hk hback
    rw [update_only_none] at hlinked₁
    have hcond : i ∈ d.sharers ∧ d.queue.head?.any (·.type = .SH_REQ) := ⟨hi, by simp [hq, htype]⟩
    rw [processWbRep, if_pos hcond]
    have hsettled : Settled cfg { d with owner := none, dstate := .SHARED } (pop cores i up) :=
      ⟨hlinked₁, hreads⟩
    exact hsettled.serve hmax hq hfresh hsome
      (fun _ => .inr ⟨htype, rfl, by simp [hsharers]⟩) pick freed
  | @invalidating r rest hq hreads hfresh htype hshared hothers hr w hw' hk =>
    obtain hinv | ⟨hflush, -⟩ := hk i _ hw
    · cases hinv
    · cases hflush
  | displacing => cases (of_only_eq_some hw).2

end

/-! ### Requests, and the data of the DRAM -/

section

variable {type : Request} {up : List (ToDirectory D)} {r : ShmemReq n}

omit hmax in
theorem Queued.append {queue : List (ShmemReq n)} (h : Queued queue cores)
    (hr : r.requester ∉ queue.map (·.requester)) (hp : (cores r.requester).pending = some r.type)
    (hfresh : r.Fresh) : Queued (queue ++ [r]) cores where
  nodup := by
    rw [map_append, nodup_append']
    exact ⟨h.nodup, nodup_singleton _, by simpa using hr⟩
  pending x hx := by
    obtain hx | hx := mem_append.mp hx
    · exact h.pending x hx
    · rw [mem_singleton.mp hx]
      exact hp
  fresh x hx := by
    cases queue with
    | nil => cases hx
    | cons r₀ rest =>
      obtain hx | hx := mem_append.mp hx
      · exact h.fresh x hx
      · rw [mem_singleton.mp hx]
        exact hfresh

omit hmax in
theorem Linked.enqueue (h : Linked cfg d cores w granted) (hup : (cores i).up = .request type :: up) :
    Linked cfg { d with
      queue := d.queue ++ [{ type, requester := i, id := d.requests }]
      requests := d.requests + 1 } (Sniper.pop cores i up) w granted := by
  have hlink := h.links i
  rw [hup] at hlink
  obtain ⟨hi, -, hp, hlink'⟩ := hlink.of_request
  refine ⟨h.uncached, h.owned, h.room, ?_, fun j => ?_, h.shared_of_inv⟩
  · refine (h.queued.pop i up).append hi ?_ ⟨rfl, rfl⟩
    rw [pop_pending]
    exact hp
  · by_cases hj : j = i
    · subst hj
      simp only [Sniper.pop, update_self]
      exact hlink' _ (by simp [requesters])
    · rw [pop_of_ne hj]
      exact (h.links j).congr Iff.rfl (by simp [requesters, hj]) Iff.rfl

theorem Steady.processRequest (h : Steady cfg d cores) (hup : (cores i).up = .request type :: up)
    (pick : ℕ) (freed : D) :
    ∃ d', d.processRequest cfg i type pick freed = some d' ∧ Steady cfg d' (pop cores i up) := by
  obtain ⟨hfwd, w, granted, hlinked, hmode⟩ := h
  have hlinked₁ := hlinked.enqueue hup
  unfold Directory.processRequest
  by_cases hempty : d.queue = []
  · cases hmode with
    | idle _ hreads =>
      have hone : (d.queue ++ [({ type, requester := i, id := d.requests } : ShmemReq n)]).length = 1 := by
        rw [hempty]
        rfl
      have hsettled : Settled cfg { d with
          queue := d.queue ++ [{ type, requester := i, id := d.requests }]
          requests := d.requests + 1
          events := d.events ++ [.started d.requests] } (pop cores i up) :=
        ⟨hlinked₁.of_eq rfl rfl rfl rfl rfl, hreads⟩
      rw [if_pos hone]
      exact hsettled.serve hmax (congrArg (· ++ _) hempty) ⟨rfl, rfl⟩ (fun _ => hfwd)
        (fun hc => absurd rfl hc) pick freed
    | fetching hq | forwarding hq | revoking hq | invalidating hq | displacing hq =>
      cases hempty.symm.trans hq
  · have hlong : (d.queue ++ [({ type, requester := i, id := d.requests } : ShmemReq n)]).length ≠ 1 := by
      have hpos := length_pos_of_ne_nil hempty
      rw [length_append, length_singleton]
      omega
    rw [if_neg hlong]
    exact ⟨_, rfl, hfwd, w, granted, hlinked₁,
      hmode.of_eq rfl rfl rfl (head?_append_of_ne_nil _ hempty) rfl⟩

omit hmax in
theorem Directory.dramReply_eq {msg : ToCache D} (h : Answers d.dstate r.type msg) (data : D) :
    ∃ msg, d.dramReply r data = some msg ∧ Answers d.dstate r.type msg := by
  generalize hds : d.dstate = ds, htype : r.type = type at h
  cases h with
  | modified => exact ⟨_, by simp only [dramReply, hds, htype], .modified data⟩
  | upgraded => exact ⟨_, by simp only [dramReply, hds, htype], .upgraded data⟩
  | exclusive => exact ⟨_, by simp only [dramReply, hds, htype], .exclusive data⟩
  | shared => exact ⟨_, by simp only [dramReply, hds, htype], .shared data⟩

theorem Steady.dramReply {data : D} {reads : List D} (h : Steady cfg d cores)
    (hdata : d.dramReads = data :: reads) (pick : ℕ) (freed : D) :
    ∃ d', d.processDRAMReply cfg pick freed = some d' ∧ Steady cfg d' cores := by
  obtain ⟨hfwd, w, granted, hlinked, hmode⟩ := h
  cases hmode with
  | @fetching r rest hq hwait data' hreads hr msg hmsg =>
    obtain ⟨rfl, rfl⟩ : data' = data ∧ reads = [] := by
      rw [hreads] at hdata
      cases hdata
      exact ⟨rfl, rfl⟩
    obtain ⟨msg, hreply, hanswer⟩ := dramReply_eq hmsg data'
    have hlinked₁ : Linked cfg { d with dramReads := [] } cores (fun _ => none) (some r.requester) :=
      hlinked.of_eq rfl rfl rfl rfl rfl
    have hrest : ∀ x ∈ rest, x.Fresh := by simpa [hq] using hlinked.queued.fresh
    have hfwd₁ : ForwarderShares cfg (reply { d with dramReads := [] } r msg) := hfwd
    simp only [processDRAMReply, hreads, hq, hreply, bind_eq_bind, bind_some]
    rw [← hq]
    exact Settled.processNext hmax hrest hfwd₁ ⟨hlinked₁.reply (by exact hq) hanswer, rfl⟩ pick freed
  | idle _ hreads | forwarding _ hreads | revoking _ hreads | invalidating _ hreads
  | displacing _ hreads => cases hreads.symm.trans hdata

end

end MultiCoreMemory.Sniper
