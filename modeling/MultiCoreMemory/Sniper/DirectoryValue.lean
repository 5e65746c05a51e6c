import MultiCoreMemory.Sniper.DirectoryOrder

/-!
# Where the value of the line is

`Current d cores v`: `v` is the value of the line wherever it is.  The copies, the data in the channels
and the replies of the DRAM hold `v`; the DRAM does, unless the value is on its way to it or with the
owner (`Away`).
-/

namespace MultiCoreMemory.Sniper

open List Option Directory

variable {n : ℕ} {D : Type} {cfg : DirectoryConfig}

def ToDirectory.data? : ToDirectory D → Option D
  | .FLUSH_REP data | .WB_REP data => some data
  | .request _ | .INV_REP => none

def ToCache.data? : ToCache D → Option D
  | .EX_REP data | .SH_REP data => some data
  | .UPGRADE_REP | .revoke _ => none

/-! ## What a link says of the data -/

namespace Link

variable {ds : DState} {sharer queued granted : Prop} {w : Option Revoke} {cs : CState}
  {pending : Option Request} {up : List (ToDirectory D)} {down : List (ToCache D)}

variable {msg : ToCache D}

theorem data_of_asked (h : msg ∈ asked w) : msg.data? = none := by
  cases w with
  | none => cases h
  | some t =>
    obtain rfl := mem_singleton.mp h
    rfl

theorem data_of_stale (hstale : Stale down) (h : msg ∈ down) : msg.data? = none := by
  cases hstale with
  | nil => cases h
  | revoke t =>
    obtain rfl := mem_singleton.mp h
    rfl

theorem data_of_asksAgain {msg : ToDirectory D} (hup : AsksAgain pending up) (h : msg ∈ up) :
    msg.data? = none := by
  cases hup with
  | no => cases h
  | yes hk =>
    obtain rfl := mem_singleton.mp h
    rfl

section

variable (h : Link ds sharer queued granted w cs pending up down)

include h

theorem no_data (hs : ¬sharer) :
    cs = .INVALID ∧ (∀ msg ∈ up, msg.data? = none) ∧ ∀ msg ∈ down, msg.data? = none := by
  cases h with
  | idle _ _ _ _ hup hdown =>
    exact ⟨rfl, fun _ h => data_of_asksAgain hup h, fun _ h => data_of_stale hdown h⟩
  | waiting _ _ _ _ hdown => exact ⟨rfl, nofun, fun _ h => data_of_stale hdown h⟩
  | _ => exact absurd ‹sharer› hs

omit h in
theorem no_data_of_invRep (h : Link ds sharer queued granted w cs pending (.INV_REP :: up) down) :
    cs = .INVALID ∧ ∀ msg ∈ up, msg.data? = none := by
  cases h with
  | idle _ _ _ _ hup => cases hup
  | released _ _ _ _ hup => exact ⟨rfl, fun _ h => data_of_asksAgain hup h⟩
  | upgradeLostQueued => exact ⟨rfl, nofun⟩

theorem of_mem_wbRep {data : D} (hmem : .WB_REP data ∈ up) :
    w = some .WB_REQ ∧ ∀ msg up', up = msg :: up' → .WB_REP data ∈ up' → ∃ k, msg = .request k := by
  have habsurd : ∀ {pending up}, AsksAgain pending up → ToDirectory.WB_REP data ∉ up :=
    fun hup h => absurd (data_of_asksAgain hup h) nofun
  cases h with
  | idle _ _ _ _ hup => exact absurd hmem (habsurd hup)
  | waiting | granted | answered | upgraded | holding | upgradeQueued => cases hmem
  | upgrading => simp at hmem
  | wroteBack _ _ hw hback =>
    refine ⟨hw, fun msg up' hcons hmem' => ?_⟩
    cases hcons
    cases hback with
    | shared | queued => cases hmem'
    | upgrading => simp at hmem'
    | released _ hup => exact absurd ((mem_cons.mp hmem').resolve_left nofun) (habsurd hup)
  | forwarded _ _ _ hw =>
    refine ⟨hw, fun msg up' hcons _ => ?_⟩
    cases hcons
    exact ⟨_, rfl⟩
  | released _ _ _ hmsg hup =>
    obtain rfl | hmem := mem_cons.mp hmem
    · cases hmsg
    · exact absurd hmem (habsurd hup)
  | upgradeLost _ _ _ _ _ hmsg =>
    obtain rfl : ToDirectory.WB_REP data = _ := by simpa using hmem
    cases hmsg
  | upgradeLostQueued _ _ _ _ _ hmsg =>
    obtain rfl := mem_singleton.mp hmem
    cases hmsg

theorem of_writable (hcs : cs = .EXCLUSIVE ∨ cs = .MODIFIED) :
    sharer ∧ ¬granted ∧ (ds = .EXCLUSIVE ∨ ds = .MODIFIED) ∧ up = [] ∧ ∀ msg ∈ down, msg.data? = none := by
  cases h with
  | holding hs hq hg hc hdown =>
    subst hdown
    refine ⟨hs, hg, ?_, rfl, fun _ h => data_of_asked h⟩
    cases hc with
    | shared => simp at hcs
    | exclusive | written => exact .inl rfl
    | modified => exact .inr rfl
  | wroteBack _ _ _ hback => cases hback <;> simp at hcs
  | _ => simp at hcs

end

theorem of_answer (h : Link ds sharer queued granted w cs pending up (msg :: down))
    (hmsg : ∀ t, msg ≠ .revoke t) :
    sharer ∧ ¬granted ∧ up = [] ∧ (∀ msg ∈ down, msg.data? = none) ∧
      ((∃ k, pending = some k ∧ Answers ds k msg) ∨ msg = .UPGRADE_REP ∧ ds = .MODIFIED) := by
  have hasked : msg :: down ≠ asked w := fun hdown => by
    obtain ⟨t, -, ht, -⟩ := asked_eq_cons hdown
    exact hmsg t ht
  have hstale : ¬Stale (msg :: down) := by
    intro hdown
    cases hdown with
    | revoke t => exact hmsg t rfl
  generalize hmsgs : msg :: down = msgs at h
  cases h with
  | idle _ _ _ _ _ hdown | waiting _ _ _ _ hdown | granted _ _ _ _ hdown =>
    exact absurd (hmsgs ▸ hdown) hstale
  | answered hs _ hg hstale hanswer hdown =>
    cases hstale with
    | nil =>
      cases hmsgs.trans hdown
      exact ⟨hs, hg, rfl, fun _ h => data_of_asked h, .inl ⟨_, rfl, hanswer⟩⟩
    | revoke t =>
      cases hmsgs.trans hdown
      exact absurd rfl (hmsg t)
  | upgraded hs _ hg hds hdown =>
    cases hmsgs.trans hdown
    exact ⟨hs, hg, rfl, fun _ h => data_of_asked h, .inr ⟨rfl, hds⟩⟩
  | holding _ _ _ _ hdown | upgrading _ _ _ _ hdown | upgradeQueued _ _ _ _ hdown =>
    exact absurd (hmsgs.trans hdown) hasked
  | released _ _ _ _ _ hdown =>
    obtain hdown | hdown := hdown
    · exact absurd (hmsgs.trans hdown) hasked
    · cases hmsgs.trans hdown
  | wroteBack | forwarded | upgradeLost | upgradeLostQueued => cases hmsgs

theorem shared_of_revoke {t : Revoke}
    (h : Link ds sharer queued granted w .SHARED_UPGRADING pending up (.revoke t :: down)) :
    ds = .SHARED := by
  generalize hmsgs : .revoke t :: down = msgs at h
  cases h with
  | upgraded _ _ _ _ hdown => cases hmsgs.trans hdown
  | holding _ _ _ hc => cases hc
  | upgrading _ _ _ hds | upgradeQueued _ _ _ hds | forwarded _ _ _ _ hds => exact hds
  | wroteBack => cases hmsgs

end Link

/-! ## Where the value is -/

/-- The core is the one that has the value, or has sent it to the directory. -/
def Core.Dirty (c : Core D) : Prop :=
  c.cstate = .MODIFIED ∨ ∃ msg ∈ c.up, msg.data? ≠ none

/-- The value is with a core, or on its way: to an owner that is to write it, or back. -/
def Away (d : Directory n D) (cores : Fin n → Core D) : Prop :=
  d.dstate = .EXCLUSIVE ∧ (∃ i, (cores i).Dirty) ∨
    d.dstate = .MODIFIED ∧ ∃ i, (cores i).Dirty ∨ ∃ data, .EX_REP data ∈ d.down i

/-- What the directory sends is `v`, and it can get it: from the DRAM, or from elsewhere. -/
structure Supplies (d : Directory n D) (cores : Fin n → Core D) (v : D) (elsewhere : Prop) : Prop where
  down : ∀ i, ∀ msg ∈ d.down i, ∀ data, msg.data? = some data → data = v
  reads : ∀ data ∈ d.dramReads, data = v
  memory : d.dram = v ∨ Away d cores ∨ elsewhere

structure Current (d : Directory n D) (cores : Fin n → Core D) (v : D) : Prop where
  copies : ∀ i, (cores i).cstate ≠ .INVALID → (cores i).data = v
  flushed : ∀ i data, .FLUSH_REP data ∈ (cores i).up → data = v
  /-- a buffer that was not written is sent only to a sharer -/
  writtenBack : ∀ i data, .WB_REP data ∈ (cores i).up → data = v ∨ d.dstate = .SHARED
  supplies : Supplies d cores v False

section

variable {d d' : Directory n D} {cores : Fin n → Core D} {v : D} {r : ShmemReq n}
  {rest : List (ShmemReq n)} {cached : Option D} {pick : ℕ} {freed : D}
  {result : Directory n D × Bool}

theorem Away.of_le (h : Away d cores) (hds : d'.dstate = d.dstate)
    (hdown : ∀ i, d.down i ⊆ d'.down i) : Away d' cores := by
  rw [Away, hds]
  refine h.imp_right fun ⟨hm, i, hi⟩ => ⟨hm, i, hi.imp_right ?_⟩
  rintro ⟨data, hdata⟩
  exact ⟨data, hdown i hdata⟩

theorem not_away (h : d.dstate = .UNCACHED ∨ d.dstate = .SHARED) : ¬Away d cores := by
  rintro (⟨hds, -⟩ | ⟨hds, -⟩) <;> simp [hds] at h

/-- The data came with the message that is handled, for a core that is to write. -/
def InHand (d : Directory n D) (r : ShmemReq n) (cached : Option D) : Prop :=
  d.dstate = .UNCACHED ∧ cached ≠ none ∧ r.type ≠ .SH_REQ

theorem Supplies.of_eq {elsewhere : Prop} (h : Supplies d cores v elsewhere)
    (hds : d'.dstate = d.dstate) (hdown : d'.down = d.down) (hreads : d'.dramReads = d.dramReads)
    (hdram : d'.dram = d.dram) : Supplies d' cores v elsewhere where
  down := hdown ▸ h.down
  reads := hreads ▸ h.reads
  memory := by
    rw [hdram]
    exact h.memory.imp_right (Or.imp_left fun haway => haway.of_le hds (hdown ▸ fun i => List.Subset.refl _))

theorem mem_send {i j : Fin n} {msg msg' : ToCache D} (h : msg' ∈ (d.send i msg).down j) :
    msg' ∈ d.down j ∨ msg' = msg := by
  by_cases hj : j = i
  · subst hj
    simpa [send] using h
  · left
    simpa [send, hj] using h

theorem subset_send (i j : Fin n) (msg : ToCache D) : d.down j ⊆ (d.send i msg).down j := by
  by_cases hj : j = i
  · subst hj
    simp [send]
  · simp [send, hj]

/-- Data is sent to the requester, from the message that is handled or later from the DRAM. -/
theorem Supplies.retrieveData {msg : D → ToCache D} {data : Option D}
    (hdown : ∀ i, ∀ msg ∈ d.down i, ∀ x, msg.data? = some x → x = v)
    (hreads : ∀ x ∈ d.dramReads, x = v)
    (hmemory : d.dram = v ∨ data ≠ none ∧ d.dstate = .MODIFIED ∧ msg = .EX_REP)
    (hmsg : msg = .EX_REP ∨ msg = .SH_REP) (hdata : ∀ x, data = some x → x = v) :
    Supplies (d.retrieveData cfg r msg data).1 cores v False := by
  have hsend : ∀ x, (msg x).data? = some x := by
    obtain rfl | rfl := hmsg <;> exact fun _ => rfl
  unfold Directory.retrieveData
  split
  next x =>
    refine ⟨fun j m hm y hy => ?_, hreads, ?_⟩
    · obtain hm | rfl := mem_send (i := r.requester) hm
      · exact hdown j m hm y hy
      · exact hdata y ((hsend x).symm.trans hy)
    · obtain hdram | ⟨-, hm, rfl⟩ := hmemory
      · exact .inl hdram
      · refine .inr (.inl (.inr ⟨hm, r.requester, .inr ⟨x, ?_⟩⟩))
        simp [reply, send]
  next =>
    have hdram : d.dram = v := hmemory.resolve_right fun helse => helse.1 rfl
    split
    next f hf =>
      refine ⟨fun j m hm y hy => ?_, hreads, .inl hdram⟩
      obtain hm | rfl := mem_send (i := f) hm
      · exact hdown j m hm y hy
      · cases hy
    next =>
      refine ⟨hdown, fun y hy => ?_, .inl hdram⟩
      obtain hy | hy := mem_append.mp hy
      · exact hreads y hy
      · rw [mem_singleton.mp hy, hdram]

theorem Outcome.supplies (h : Outcome cfg d r cached freed result)
    (hd : Supplies d cores v (InHand d r cached)) (hcached : ∀ x, cached = some x → x = v)
    (hfreed : r.hasData → freed = v) : Supplies result.1 cores v False := by
  cases h with
  | revoked _ w hds =>
    refine ⟨fun j m hm y hy => ?_, hd.reads, ?_⟩
    · obtain hm | hm := mem_append.mp hm
      · exact hd.down j m hm y hy
      · exact absurd (hy.symm.trans (Link.data_of_asked hm)) nofun
    · obtain hdram | haway | hhand := hd.memory
      · exact .inl hdram
      · exact .inr (.inl (haway.of_le rfl fun i => subset_append_left _ _))
      · exact absurd hhand.1 hds
  | upgraded owner hds =>
    refine ⟨fun j m hm y hy => ?_, hd.reads, ?_⟩
    · obtain hm | rfl := mem_send (i := r.requester) hm
      · exact hd.down j m hm y hy
      · cases hy
    · obtain hdram | haway | hhand := hd.memory
      · exact .inl hdram
      · obtain ⟨-, i, hi⟩ | ⟨-, i, hi | ⟨data, hdata⟩⟩ := haway
        · exact .inr (.inl (.inr ⟨rfl, i, .inl hi⟩))
        · exact .inr (.inl (.inr ⟨rfl, i, .inl hi⟩))
        · exact .inr (.inl (.inr ⟨rfl, i, .inr ⟨data, subset_send r.requester i _ hdata⟩⟩))
      · exact absurd hhand.1 hds
  | @granted sharers owner ds hds msg hmsg data hdata =>
    have haway : ¬Away d cores := not_away (hds.imp_right And.left)
    have hsame : ∀ x, data = some x → x = v := by
      rintro x rfl
      obtain hc | ⟨hr, -, hx⟩ := hdata
      · exact hcached x hc.symm
      · rw [some.inj hx]
        exact hfreed hr
    refine Supplies.retrieveData hd.down hd.reads ?_ (by tauto) hsame
    refine hd.memory.imp_right fun hother => ?_
    -- the data is in hand, and the request is one to write
    obtain ⟨-, hc, htype⟩ := hother.resolve_left haway
    have hm := hmsg.resolve_right fun hsh => htype hsh.1
    refine ⟨?_, hm⟩
    obtain rfl | ⟨-, -, rfl⟩ := hdata
    · exact hc
    · exact some_ne_none freed

theorem Supplies.processNext (h : Supplies d cores v False) (hrest : ∀ r ∈ rest, r.hasData → freed = v)
    (hd : processNext cfg pick freed rest d = some d') : Supplies d' cores v False := by
  induction rest generalizing d with
  | nil =>
    cases hd
    exact h.of_eq rfl rfl rfl rfl
  | cons r rest ih =>
    obtain ⟨⟨d₁, answered⟩, hhead, hnext⟩ := bind_eq_some_iff.mp hd
    have h₁ : Supplies d₁ cores v False := by
      refine (outcome_of_processHead rfl hhead).supplies ?_ nofun
        (hrest r mem_cons_self)
      exact ⟨h.down, h.reads, h.memory.imp_right (Or.imp (·.of_le rfl fun _ => List.Subset.refl _)
        False.elim)⟩
    cases answered with
    | false =>
      cases hnext
      exact h₁
    | true => exact ih h₁ (fun x hx => hrest x (mem_cons_of_mem r hx)) hnext

theorem Supplies.serve (hd : d.serve cfg cached pick freed = some d') (hq : d.queue = r :: rest)
    (h : Supplies d cores v (InHand d r cached)) (hcached : ∀ x, cached = some x → x = v)
    (hfreed : ∀ r ∈ d.queue, r.hasData → freed = v) : Supplies d' cores v False := by
  obtain ⟨⟨d₁, answered⟩, hhead, hnext⟩ := bind_eq_some_iff.mp hd
  have houtcome := outcome_of_processHead hq hhead
  have h₁ : Supplies d₁ cores v False :=
    houtcome.supplies h hcached (hfreed r (hq ▸ mem_cons_self))
  cases answered with
  | false =>
    cases hnext
    exact h₁
  | true =>
    have hqueue : d₁.queue = d.queue := houtcome.queue_of_answered rfl
    refine h₁.processNext (fun x hx => hfreed x ?_) hnext
    rw [← hqueue]
    exact mem_of_mem_tail hx

end

/-! ## Messages to the directory -/

section

variable {d d' : Directory n D} {cores : Fin n → Core D} {w : Fin n → Option Revoke}
  {granted : Option (Fin n)} {v : D} {i j : Fin n} {msg : ToDirectory D} {up : List (ToDirectory D)}
  {pick : ℕ} {freed : D}

theorem pop_self : pop cores i up i = { cores i with up } := Function.update_self ..

theorem pop_cstate (cores : Fin n → Core D) (i : Fin n) (up : List (ToDirectory D)) (j : Fin n) :
    (pop cores i up j).cstate = (cores j).cstate ∧ (pop cores i up j).data = (cores j).data := by
  by_cases hj : j = i
  · subst hj
    rw [pop_self]
    exact ⟨rfl, rfl⟩
  · rw [pop_of_ne hj]
    exact ⟨rfl, rfl⟩

theorem mem_of_mem_pop {m : ToDirectory D} (hup : (cores i).up = msg :: up)
    (h : m ∈ (pop cores i up j).up) : m ∈ (cores j).up := by
  by_cases hj : j = i
  · subst hj
    rw [pop_self] at h
    rw [hup]
    exact mem_cons_of_mem msg h
  · rwa [pop_of_ne hj] at h

theorem Core.Dirty.pop (hup : (cores i).up = msg :: up) (hmsg : msg.data? = none)
    (h : (cores j).Dirty) : (pop cores i up j).Dirty := by
  by_cases hj : j = i
  · subst hj
    rw [pop_self]
    refine h.imp_right fun ⟨m, hm, hdata⟩ => ⟨m, ?_, hdata⟩
    rw [hup] at hm
    refine (mem_cons.mp hm).resolve_left ?_
    rintro rfl
    exact hdata hmsg
  · rwa [pop_of_ne hj]

variable {elsewhere : Prop} {data : D}

theorem Supplies.pop (h : Supplies d cores v elsewhere) (hup : (cores i).up = msg :: up)
    (hmsg : msg.data? = none) : Supplies d (pop cores i up) v elsewhere where
  down := h.down
  reads := h.reads
  memory := h.memory.imp_right <| Or.imp_left <| Or.imp
    (fun ⟨hds, j, hj⟩ => ⟨hds, j, hj.pop hup hmsg⟩)
    fun ⟨hds, j, hj⟩ => ⟨hds, j, hj.imp_left fun hj => hj.pop hup hmsg⟩

theorem Mode.of_wbReq (h : Mode cfg d w granted) (hj : w j = some .WB_REQ) :
    d.queue ≠ [] ∧ (∀ i, w i ≠ none → i = j) ∧
      ((d.dstate = .EXCLUSIVE ∨ d.dstate = .MODIFIED) ∨
        d.dstate = .SHARED ∧ ∃ r rest, d.queue = r :: rest ∧ r.type = .SH_REQ ∧
          r.waitForData = false ∧ r.forwardingFrom = some j ∧ granted = some r.requester ∧
          r.requester ∈ d.sharers) := by
  have honly : ∀ {o k}, only o k j = some .WB_REQ → ∀ i, only o k i ≠ none → i = j := by
    intro o k hj i hi
    obtain ⟨t, ht⟩ := ne_none_iff_exists'.mp hi
    rw [(of_only_eq_some hj).1, (of_only_eq_some ht).1]
  cases h with
  | idle | fetching => cases hj
  | @forwarding r rest hq _ htype hwait f hfrom hds _ hr =>
    obtain ⟨rfl, -⟩ := of_only_eq_some hj
    exact ⟨hq ▸ cons_ne_nil _ _, honly hj,
      .inr ⟨hds, r, rest, hq, htype, hwait, hfrom, rfl, hr⟩⟩
  | revoking hq _ _ hds => exact ⟨hq ▸ cons_ne_nil _ _, honly hj, .inl hds⟩
  | invalidating _ _ _ _ _ _ _ _ hk =>
    obtain hinv | ⟨hflush, -⟩ := hk j _ hj
    · cases hinv
    · cases hflush
  | displacing => cases (of_only_eq_some hj).2

theorem Steady.dstate_of_wbRep (h : Steady cfg d cores) (hup : (cores i).up = msg :: up)
    (hd : d.handleMsg cfg i msg pick freed = some d') (hback : .WB_REP data ∈ (pop cores i up j).up) :
    d'.dstate = d.dstate := by
  obtain ⟨-, w, granted, hlinked, hmode⟩ := h
  obtain ⟨hj, hfirst⟩ := (hlinked.links j).of_mem_wbRep (mem_of_mem_pop hup hback)
  obtain ⟨hqueue, honly, hwaits⟩ := hmode.of_wbReq hj
  -- the message is a request, or comes from another core that was not asked for anything
  have hother : (∀ k, msg ≠ .request k) → i ≠ j := by
    rintro hreq rfl
    rw [pop_self] at hback
    obtain ⟨k, hk⟩ := hfirst msg up hup hback
    exact hreq k hk
  have hlone : d.dstate = .EXCLUSIVE ∨ d.dstate = .MODIFIED → i ∈ d.sharers → i = j := by
    intro hown hi
    obtain ⟨-, hsharers, -⟩ := hlinked.removeSharer_of_owned hown
      ((hlinked.links j).sharer_of_revoke (hj ▸ some_ne_none _))
    rwa [hsharers, Finset.mem_singleton] at hi
  have hlink := hlinked.links i
  rw [hup] at hlink
  cases msg with
  | request type =>
    have hlong : (d.queue ++ [({ type, requester := i, id := d.requests } : ShmemReq n)]).length ≠ 1 := by
      simpa using hqueue
    rw [Directory.handleMsg, Directory.processRequest, if_neg hlong] at hd
    cases hd
    rfl
  | WB_REP x =>
    obtain ⟨-, -, hi, -⟩ := hlink.of_wbRep
    exact absurd (honly i (hi ▸ some_ne_none _)) (hother nofun)
  | FLUSH_REP x =>
    obtain ⟨hi, -, hmsg, -⟩ := hlink.of_released nofun nofun
    obtain hown | ⟨hds, -⟩ := hwaits
    · exact absurd (hlone hown hi) (hother nofun)
    · rw [hds] at hmsg
      generalize hwi : w i = wi at hmsg
      cases hmsg
      exact absurd (honly i (hwi ▸ some_ne_none _)) (hother nofun)
  | INV_REP =>
    obtain ⟨hi, hgranted, -⟩ := hlink.of_released nofun nofun
    obtain hown | ⟨-, r, rest, hq, htype, hwait, hfrom, rfl, hr⟩ := hwaits
    · exact absurd (hlone hown hi) (hother nofun)
    · have hmem : r.requester ∈ d.sharers.erase i :=
        Finset.mem_erase.mpr ⟨fun heq => hgranted (by rw [heq]), hr⟩
      have hsome : r.forwardingFrom ≠ none ∧ r.forwardingFrom ≠ some i := by
        rw [hfrom]
        exact ⟨some_ne_none j, fun heq => hother nofun (some.inj heq).symm⟩
      rw [Directory.handleMsg, Directory.processInvRep, ite_none_right_eq_some] at hd
      have hwaiting := hd.2
      simp only [afterInvRep, removeSharer, hq, htype, hwait, Bool.false_eq_true,
        if_false, if_pos hsome] at hwaiting
      cases hwaiting
      exact removeSharer_dstate hmem

theorem Current.of_supplies (h : Current d cores v) (hsteady : Steady cfg d cores)
    (hup : (cores i).up = msg :: up) (hd : d.handleMsg cfg i msg pick freed = some d')
    (hsupplies : Supplies d' (pop cores i up) v False) : Current d' (pop cores i up) v where
  copies j hj := by
    obtain ⟨hcs, hdata⟩ := pop_cstate cores i up j
    rw [hdata]
    exact h.copies j (hcs ▸ hj)
  flushed j data hdata := h.flushed j data (mem_of_mem_pop hup hdata)
  writtenBack j data hdata := by
    rw [hsteady.dstate_of_wbRep hup hd hdata]
    exact h.writtenBack j data (mem_of_mem_pop hup hdata)
  supplies := hsupplies

theorem Supplies.processRequest {type : Request} (h : Supplies d cores v False)
    (hd : d.processRequest cfg i type pick freed = some d') : Supplies d' cores v False := by
  unfold Directory.processRequest at hd
  dsimp only at hd
  split_ifs at hd with hone
  · have hempty : d.queue = [] := by simpa using hone
    refine Supplies.serve hd (congrArg (· ++ _) hempty) ⟨h.down, h.reads, ?_⟩ nofun (by simp [hempty])
    exact h.memory.imp_right (Or.imp (·.of_le rfl fun _ => List.Subset.refl _) False.elim)
  · cases hd
    exact h.of_eq rfl rfl rfl rfl

theorem Linked.not_away_of_invRep (h : Linked cfg d cores w granted)
    (hup : (cores i).up = .INV_REP :: up) : ¬Away d cores := by
  have hlink := h.links i
  rw [hup] at hlink
  obtain ⟨hi, -, hmsg, -⟩ := hlink.of_released nofun nofun
  obtain ⟨hinvalid, hnone⟩ := hlink.no_data_of_invRep
  rintro (⟨hds, j, hj⟩ | ⟨hds, -⟩)
  · by_cases hji : j = i
    · subst hji
      obtain hm | ⟨m, hm, hdata⟩ := hj
      · simp [hinvalid] at hm
      · rw [hup] at hm
        obtain rfl | hm := mem_cons.mp hm
        · exact hdata rfl
        · exact hdata (hnone m hm)
    · obtain ⟨-, hsharers, -⟩ := h.removeSharer_of_owned (.inl hds) hi
      obtain ⟨hinvalid, hnone, -⟩ := (h.links j).no_data (by simp [hsharers, hji])
      obtain hm | ⟨m, hm, hdata⟩ := hj
      · simp [hinvalid] at hm
      · exact hdata (hnone m hm)
  · rw [hds] at hmsg
    cases hmsg

theorem Supplies.processInvRep (h : Supplies d cores v elsewhere) (hdram : d.dram = v)
    (hfreed : ∀ r ∈ d.queue, r.hasData → freed = v)
    (hd : d.processInvRep cfg i pick freed = some d') : Supplies d' cores v False := by
  rw [Directory.processInvRep, ite_none_right_eq_some] at hd
  obtain rfl | ⟨r, rest, ds, hq, hserve⟩ := of_afterInvRep hd.2
  · exact ⟨h.down, h.reads, .inl hdram⟩
  · exact Supplies.serve hserve hq ⟨h.down, h.reads, .inl hdram⟩ (by simp) hfreed

theorem Supplies.processFlushRep (h : Supplies d cores v elsewhere) (hdata : data = v)
    (hshared : d.dstate = .SHARED → d.dram = v) (hfreed : ∀ r ∈ d.queue, r.hasData → freed = v)
    (hd : d.processFlushRep cfg i data pick freed = some d') : Supplies d' cores v False := by
  rw [Directory.processFlushRep, ite_none_right_eq_some] at hd
  obtain ⟨⟨-, hlast⟩, hd⟩ := hd
  have hcached : ∀ x, some data = some x → x = v := fun x hx => (some.inj hx).symm.trans hdata
  obtain ⟨d₁, hd₁⟩ : ∃ d₁, d₁ = { d.removeSharer i with forwarder := none, owner := none } :=
    ⟨_, rfl⟩
  have hqueue : d₁.queue = d.queue := by rw [hd₁]; rfl
  have hdown : d₁.down = d.down := by rw [hd₁]; rfl
  have hreads : d₁.dramReads = d.dramReads := by rw [hd₁]; rfl
  -- the value is in hand, if it was not in the DRAM
  have hmemory : d₁.dram = v ∨ d₁.dstate = .UNCACHED ∧ d₁.sharers.card = 0 := by
    obtain hempty | hds := hlast
    · right
      rw [hd₁]
      exact ⟨if_pos hempty, Finset.card_eq_zero.mpr hempty⟩
    · left
      rw [hd₁]
      exact hshared hds
  rw [← hd₁] at hd
  clear hd₁
  rw [← hqueue] at hfreed
  have hdown₁ : ∀ j, ∀ msg ∈ d₁.down j, ∀ x, msg.data? = some x → x = v := hdown ▸ h.down
  have hreads₁ : ∀ x ∈ d₁.dramReads, x = v := hreads ▸ h.reads
  unfold afterFlushRep at hd
  split at hd
  · cases hd
    exact ⟨hdown₁, hreads₁, .inl hdata⟩
  next r rest hq =>
    split at hd
    next htype =>
      refine Supplies.serve hd hq ⟨hdown₁, hreads₁, ?_⟩ hcached hfreed
      exact hmemory.imp_right fun hu => .inr ⟨hu.1, some_ne_none data, by simp [htype]⟩
    next htype =>
      exact Supplies.serve hd hq ⟨hdown₁, hreads₁, .inl hdata⟩ hcached hfreed
    next htype =>
      split_ifs at hd with hcard
      · refine Supplies.serve hd hq ⟨hdown₁, hreads₁, .inr (.inr ⟨rfl, ?_, ?_⟩)⟩ hcached hfreed
        · exact some_ne_none data
        · simp [htype]
      · cases hd
        exact ⟨hdown₁, hreads₁, .inl (hmemory.resolve_right fun hu => hcard hu.2)⟩

theorem Supplies.processWbRep (h : Supplies d cores v elsewhere) (hdata : data = v)
    (hdram : d.dram = v) (hfreed : ∀ r ∈ d.queue, r.hasData → freed = v)
    (hd : d.processWbRep cfg i data pick freed = some d') : Supplies d' cores v False := by
  rw [Directory.processWbRep, ite_none_right_eq_some] at hd
  obtain ⟨⟨-, hhead⟩, hd⟩ := hd
  cases hq : d.queue with
  | nil => simp [hq] at hhead
  | cons r rest =>
    exact Supplies.serve hd hq ⟨h.down, h.reads, .inl hdram⟩
      (fun x hx => (some.inj hx).symm.trans hdata) hfreed

theorem Directory.data_of_dramReply {r : ShmemReq n} {msg : ToCache D}
    (h : d.dramReply r data = some msg) : msg.data? = some data := by
  unfold dramReply at h
  split at h <;> cases h <;> rfl

variable (hfreed : ∀ r ∈ d.queue, r.hasData → freed = v)
include hfreed

theorem Supplies.processDRAMReply (h : Supplies d cores v False)
    (hd : d.processDRAMReply cfg pick freed = some d') : Supplies d' cores v False := by
  unfold Directory.processDRAMReply at hd
  split at hd
  next data reads r rest hreads hq =>
    obtain ⟨msg, hmsg, hnext⟩ := bind_eq_some_iff.mp hd
    have hmem : ∀ x ∈ data :: reads, x = v := hreads ▸ h.reads
    refine Supplies.processNext ⟨fun j m hm x hx => ?_, ?_, ?_⟩ (fun x hx => hfreed x ?_) hnext
    · obtain hm | rfl := mem_send (i := r.requester) hm
      · exact h.down j m hm x hx
      · obtain rfl : data = x := some.inj ((data_of_dramReply hmsg).symm.trans hx)
        exact hmem data mem_cons_self
    · exact fun x hx => hmem x (mem_cons_of_mem data hx)
    · exact h.memory.imp_right (Or.imp_left (·.of_le rfl fun j => subset_send r.requester j msg))
    · rw [hq]
      exact mem_cons_of_mem r hx
  · cases hd

/-- **Every message keeps the value**, if a line that is written back is the one in the DRAM. -/
theorem Current.handleMsg (h : Current d cores v) (hsteady : Steady cfg d cores)
    (hup : (cores i).up = msg :: up) (hclean : ∀ data, msg = .WB_REP data → data = d.dram)
    (hd : d.handleMsg cfg i msg pick freed = some d') : Current d' (pop cores i up) v := by
  refine h.of_supplies hsteady hup hd ?_
  have hsent : Supplies d (pop cores i up) v True :=
    ⟨h.supplies.down, h.supplies.reads, .inr (.inr trivial)⟩
  have hdram : ¬Away d cores → d.dram = v := fun haway =>
    h.supplies.memory.resolve_right (by simpa using haway)
  have hmem : msg ∈ (cores i).up := hup ▸ mem_cons_self
  cases msg with
  | request type => exact (h.supplies.pop hup rfl).processRequest hd
  | INV_REP =>
    obtain ⟨-, w, granted, hlinked, -⟩ := hsteady
    exact hsent.processInvRep (hdram (hlinked.not_away_of_invRep hup)) hfreed hd
  | FLUSH_REP data =>
    exact hsent.processFlushRep (h.flushed i data hmem) (fun hds => hdram (not_away (.inr hds)))
      hfreed hd
  | WB_REP data =>
    have hv : d.dram = v := by
      obtain hv | hds := h.writtenBack i data hmem
      · exact (hclean data rfl).symm.trans hv
      · exact hdram (not_away (.inr hds))
    exact hsent.processWbRep ((hclean data rfl).trans hv) hv hfreed hd

theorem Current.processDRAMReply (h : Current d cores v) (hsteady : Steady cfg d cores)
    (hd : d.processDRAMReply cfg pick freed = some d') : Current d' cores v where
  copies := h.copies
  flushed := h.flushed
  writtenBack j data hdata := by
    -- no core was asked for data while the DRAM is
    obtain ⟨-, w, granted, hlinked, hmode⟩ := hsteady
    obtain ⟨hj, -⟩ := (hlinked.links j).of_mem_wbRep hdata
    cases hmode with
    | fetching => cases hj
    | idle _ hreads | forwarding _ hreads | revoking _ hreads | invalidating _ hreads
    | displacing _ hreads => simp [Directory.processDRAMReply, hreads] at hd
  supplies := h.supplies.processDRAMReply hfreed hd

end

end MultiCoreMemory.Sniper
