import MultiCoreMemory.Sniper.Directory

/-!
# What the directory and one cache know of each other

`Link` relates what the directory holds about a core (the state of the entry, whether the core is a
sharer, has a request in the queue, has been granted the line but not answered, and which message it
has not answered) to the core's copy, its request and its two channels.  There is one constructor for
each situation a core can be in; what may stand in the channels is part of it.

A revoke is a message of the directory that asks a cache for its line (`INV_REQ`, `FLUSH_REQ`, `WB_REQ`).
It may cross an eviction.  The directory then takes the eviction for the answer, and the revoke is
left in the channel of a cache that has nothing (`Stale`): it is read before any later answer.
-/

namespace MultiCoreMemory.Sniper

variable {D : Type}

inductive Stale : List (ToCache D) → Prop
  | nil : Stale []
  | revoke (type : Revoke) : Stale [.revoke type]

/-- The revoke that the core has not read. -/
def asked (w : Option Revoke) : List (ToCache D) := w.toList.map .revoke

theorem asked_eq_cons {w : Option Revoke} {msg : ToCache D} {down : List (ToCache D)}
    (h : msg :: down = asked w) : ∃ t, w = some t ∧ msg = .revoke t ∧ down = [] := by
  cases w with
  | none => cases h
  | some t =>
    cases h
    exact ⟨t, rfl, rfl, rfl⟩

inductive Answers : DState → Request → ToCache D → Prop
  | modified (data : D) : Answers .MODIFIED .EX_REQ (.EX_REP data)
  | upgraded (data : D) : Answers .MODIFIED .UPGRADE_REQ (.EX_REP data)
  | exclusive (data : D) : Answers .EXCLUSIVE .SH_REQ (.EX_REP data)
  | shared (data : D) : Answers .SHARED .SH_REQ (.SH_REP data)

/-- The copies that an entry allows; an exclusive one may have been written. -/
inductive Holds : DState → CState → Prop
  | shared : Holds .SHARED .SHARED
  | exclusive : Holds .EXCLUSIVE .EXCLUSIVE
  | written : Holds .EXCLUSIVE .MODIFIED
  | modified : Holds .MODIFIED .MODIFIED

/-- The message with which a core gives up its copy; shared data is only sent when it is asked for. -/
inductive Releases : DState → Option Revoke → ToDirectory D → Prop
  | shared (w : Option Revoke) : Releases .SHARED w .INV_REP
  | exclusive (w : Option Revoke) : Releases .EXCLUSIVE w .INV_REP
  | written (w : Option Revoke) (data : D) : Releases .EXCLUSIVE w (.FLUSH_REP data)
  | modified (w : Option Revoke) (data : D) : Releases .MODIFIED w (.FLUSH_REP data)
  | flushed (data : D) : Releases .SHARED (some .FLUSH_REQ) (.FLUSH_REP data)

inductive AsksAgain : Option Request → List (ToDirectory D) → Prop
  | no : AsksAgain none []
  | yes {k : Request} (hk : k ≠ .UPGRADE_REQ) : AsksAgain (some k) [.request k]

/-- A core that has written its line back, and what it has done since. -/
inductive WroteBack (queued : Prop) : CState → Option Request → List (ToDirectory D) → Prop
  | shared (hq : ¬queued) : WroteBack queued .SHARED none []
  | upgrading (hq : ¬queued) :
      WroteBack queued .SHARED_UPGRADING (some .UPGRADE_REQ) [.request .UPGRADE_REQ]
  | queued (hq : queued) : WroteBack queued .SHARED_UPGRADING (some .UPGRADE_REQ) []
  | released (hq : ¬queued) {pending : Option Request} {up : List (ToDirectory D)}
      (hup : AsksAgain pending up) : WroteBack queued .INVALID pending (.INV_REP :: up)

/-- The link between the directory and a core: `sharer`, `queued`, `granted` and `w` (the open revoke)
are the directory's, the rest is the core's. -/
inductive Link (ds : DState) (sharer queued granted : Prop) (w : Option Revoke) :
    CState → Option Request → List (ToDirectory D) → List (ToCache D) → Prop
  | idle (hs : ¬sharer) (hq : ¬queued) (hg : ¬granted) (hw : w = none)
      {pending : Option Request} {up : List (ToDirectory D)} (hup : AsksAgain pending up)
      {down : List (ToCache D)} (hdown : Stale down) :
      Link ds sharer queued granted w .INVALID pending up down
  | waiting (hs : ¬sharer) (hq : queued) (hg : ¬granted) (hw : w = none) {k : Request}
      {down : List (ToCache D)} (hdown : Stale down) :
      Link ds sharer queued granted w .INVALID (some k) [] down
  | granted (hs : sharer) (hq : queued) (hg : granted) (hw : w = none) {k : Request}
      {down : List (ToCache D)} (hdown : Stale down) :
      Link ds sharer queued granted w .INVALID (some k) [] down
  | answered (hs : sharer) (hq : ¬queued) (hg : ¬granted) {k : Request}
      {stale : List (ToCache D)} (hstale : Stale stale) {msg : ToCache D} (hmsg : Answers ds k msg)
      {down : List (ToCache D)} (hdown : down = stale ++ msg :: asked w) :
      Link ds sharer queued granted w .INVALID (some k) [] down
  | upgraded (hs : sharer) (hq : ¬queued) (hg : ¬granted) (hds : ds = .MODIFIED)
      {down : List (ToCache D)} (hdown : down = .UPGRADE_REP :: asked w) :
      Link ds sharer queued granted w .SHARED_UPGRADING (some .UPGRADE_REQ) [] down
  | holding (hs : sharer) (hq : ¬queued) (hg : ¬granted) {c : CState} (hc : Holds ds c)
      {down : List (ToCache D)} (hdown : down = asked w) :
      Link ds sharer queued granted w c none [] down
  | upgrading (hs : sharer) (hq : ¬queued) (hg : ¬granted) (hds : ds = .SHARED)
      {down : List (ToCache D)} (hdown : down = asked w) :
      Link ds sharer queued granted w .SHARED_UPGRADING (some .UPGRADE_REQ)
        [.request .UPGRADE_REQ] down
  | upgradeQueued (hs : sharer) (hq : queued) (hg : ¬granted) (hds : ds = .SHARED)
      {down : List (ToCache D)} (hdown : down = asked w) :
      Link ds sharer queued granted w .SHARED_UPGRADING (some .UPGRADE_REQ) [] down
  | wroteBack (hs : sharer) (hg : ¬granted) (hw : w = some .WB_REQ) {c : CState}
      {pending : Option Request} {up : List (ToDirectory D)} (hback : WroteBack queued c pending up)
      (data : D) : Link ds sharer queued granted w c pending (.WB_REP data :: up) []
  | forwarded (hs : sharer) (hq : ¬queued) (hg : ¬granted) (hw : w = some .WB_REQ)
      (hds : ds = .SHARED) (data : D) :
      Link ds sharer queued granted w .SHARED_UPGRADING (some .UPGRADE_REQ)
        [.request .UPGRADE_REQ, .WB_REP data] []
  | released (hs : sharer) (hq : ¬queued) (hg : ¬granted) {msg : ToDirectory D}
      (hmsg : Releases ds w msg) {pending : Option Request} {up : List (ToDirectory D)}
      (hup : AsksAgain pending up) {down : List (ToCache D)} (hdown : down = asked w ∨ down = []) :
      Link ds sharer queued granted w .INVALID pending (msg :: up) down
  | upgradeLost (hs : sharer) (hq : ¬queued) (hg : ¬granted) (hw : w ≠ none) (hds : ds = .SHARED)
      {msg : ToDirectory D} (hmsg : Releases ds w msg) :
      Link ds sharer queued granted w .INVALID (some .UPGRADE_REQ) [.request .UPGRADE_REQ, msg] []
  | upgradeLostQueued (hs : sharer) (hq : queued) (hg : ¬granted) (hw : w ≠ none)
      (hds : ds = .SHARED) {msg : ToDirectory D} (hmsg : Releases ds w msg) :
      Link ds sharer queued granted w .INVALID (some .UPGRADE_REQ) [msg] []

namespace Link

variable {ds ds' : DState} {sharer sharer' queued queued' granted granted' : Prop}
  {w : Option Revoke} {cs : CState} {pending : Option Request} {up : List (ToDirectory D)}
  {down : List (ToCache D)}

section

variable (h : Link ds sharer queued granted w cs pending up down)
include h

theorem congr (hs : sharer ↔ sharer') (hq : queued ↔ queued') (hg : granted ↔ granted') :
    Link ds sharer' queued' granted' w cs pending up down := by
  rw [← propext hs, ← propext hq, ← propext hg]
  exact h

theorem outside (hs : ¬sharer) : Link ds' sharer queued granted w cs pending up down := by
  cases h with
  | idle hs hq hg hw hup hdown => exact .idle hs hq hg hw hup hdown
  | waiting hs hq hg hw hdown => exact .waiting hs hq hg hw hdown
  | _ => exact absurd ‹sharer› hs

theorem sharer_of_revoke (hw : w ≠ none) : sharer := by
  cases h with
  | idle _ _ _ hnone | waiting _ _ _ hnone => exact absurd hnone hw
  | _ => assumption

end

/-! ## Moves of the core -/

section

variable {c c' : Core D}

theorem upgrade_sent (h : Link ds sharer queued granted w .SHARED none up down) :
    Link ds sharer queued granted w .SHARED_UPGRADING (some .UPGRADE_REQ)
      (up ++ [.request .UPGRADE_REQ]) down := by
  cases h with
  | holding hs hq hg hc hdown =>
    cases hc
    exact .upgrading hs hq hg rfl hdown
  | wroteBack hs hg hw hback data =>
    cases hback with
    | shared hq => exact .wroteBack hs hg hw (.upgrading hq) data

theorem request_sent {type : Request} (htype : type ≠ .UPGRADE_REQ)
    (h : Link ds sharer queued granted w .INVALID none up down) :
    Link ds sharer queued granted w .INVALID (some type) (up ++ [.request type]) down := by
  cases h with
  | idle hs hq hg hw hup hdown =>
    cases hup
    exact .idle hs hq hg hw (.yes htype) hdown
  | holding _ _ _ hc => cases hc
  | wroteBack hs hg hw hback data =>
    cases hback with
    | released hq hup =>
      cases hup
      exact .wroteBack hs hg hw (.released hq (.yes htype)) data
  | released hs hq hg hmsg hup hdown =>
    cases hup
    exact .released hs hq hg hmsg (.yes htype) hdown

section

variable (h : Link ds sharer queued granted w c.cstate c.pending c.up down)

include h

theorem request {type : Request} (hc : c.request type = some c') :
    Link ds sharer queued granted w c'.cstate c'.pending c'.up down := by
  unfold Core.request at hc
  split at hc
  next hcs hp =>
    rw [hcs, hp] at h
    cases hc
    exact h.upgrade_sent
  next hcs hp =>
    rw [hcs, hp] at h
    cases hc
    rw [hcs]
    exact h.request_sent (by decide)
  next hcs hp =>
    rw [hcs, hp] at h
    cases hc
    rw [hcs]
    exact h.request_sent (by decide)
  · cases hc

omit h in
theorem release {msg : ToDirectory D} (h : Link ds sharer queued granted w cs pending up down)
    (hcs : cs ≠ .INVALID) (hup : cs ≠ .SHARED_UPGRADING) (hmsg : Holds ds cs → Releases ds w msg)
    (hshared : cs = .SHARED → msg = .INV_REP) :
    Link ds sharer queued granted w .INVALID pending (up ++ [msg]) down := by
  cases h with
  | holding hs hq hg hc hdown => exact .released hs hq hg (hmsg hc) .no (.inl hdown)
  | wroteBack hs hg hw hback data =>
    cases hback with
    | shared hq =>
      rw [hshared rfl]
      exact .wroteBack hs hg hw (.released hq .no) data
    | upgrading | queued => exact absurd rfl hup
    | released => exact absurd rfl hcs
  | upgraded | upgrading | upgradeQueued | forwarded => exact absurd rfl hup
  | _ => exact absurd rfl hcs

theorem evict (hc : c.evict = some c') :
    Link ds sharer queued granted w c'.cstate c'.pending c'.up down := by
  unfold Core.evict at hc
  split at hc
  next hcs =>
    cases hc
    rw [hcs] at h
    refine h.release (by decide) (by decide) ?_ fun _ => rfl
    rintro ⟨⟩
    exact .shared _
  next hcs =>
    cases hc
    rw [hcs] at h
    refine h.release (by decide) (by decide) ?_ fun _ => rfl
    rintro ⟨⟩
    exact .exclusive _
  next hcs =>
    cases hc
    rw [hcs] at h
    refine h.release (by decide) (by decide) ?_ nofun
    rintro (_ | _)
    · exact .written _ _
    · exact .modified _ _
  · cases hc

theorem write {change : D → D} (hc : c.write change = some c') :
    Link ds sharer queued granted w c'.cstate c'.pending c'.up down := by
  unfold Core.write at hc
  split at hc
  next hcs =>
    cases hc
    rw [hcs] at h
    generalize c.pending = p, c.up = u at h
    cases h with
    | holding hs hq hg hc hdown =>
      cases hc
      exact .holding hs hq hg .written hdown
    | wroteBack _ _ _ hback => cases hback
  next hcs =>
    cases hc
    rw [hcs] at h
    exact h
  · cases hc

end

theorem handleMsg {msg : ToCache D} (change : D → D) (uninit : D)
    (h : Link ds sharer queued granted w c.cstate c.pending c.up (msg :: down))
    (hinv : w = some .INV_REQ → ds = .SHARED) :
    ∃ c' writes, c.handleMsg msg change uninit = some (c', writes) ∧
      (queued → c'.pending = c.pending) ∧
      Link ds sharer queued granted w c'.cstate c'.pending c'.up down := by
  obtain ⟨cs, data, pending, up⟩ := c
  simp only at h
  generalize hmsgs : msg :: down = msgs at h
  cases h with
  | idle hs hq hg hw hup hdown =>
    cases hdown with
    | nil => cases hmsgs
    | revoke t =>
      cases hmsgs
      exact ⟨_, _, rfl, fun _ => rfl, .idle hs hq hg hw hup .nil⟩
  | waiting hs hq hg hw hdown =>
    cases hdown with
    | nil => cases hmsgs
    | revoke t =>
      cases hmsgs
      exact ⟨_, _, rfl, fun _ => rfl, .waiting hs hq hg hw .nil⟩
  | granted hs hq hg hw hdown =>
    cases hdown with
    | nil => cases hmsgs
    | revoke t =>
      cases hmsgs
      exact ⟨_, _, rfl, fun _ => rfl, .granted hs hq hg hw .nil⟩
  | answered hs hq hg hstale hmsg hdown =>
    subst hdown
    cases hstale with
    | revoke t =>
      cases hmsgs
      exact ⟨_, _, rfl, fun _ => rfl, .answered hs hq hg .nil hmsg rfl⟩
    | nil =>
      cases hmsgs
      cases hmsg with
      | modified => exact ⟨_, _, rfl, fun h => absurd h hq, .holding hs hq hg .modified rfl⟩
      | upgraded => exact ⟨_, _, rfl, fun h => absurd h hq, .holding hs hq hg .modified rfl⟩
      | exclusive => exact ⟨_, _, rfl, fun h => absurd h hq, .holding hs hq hg .exclusive rfl⟩
      | shared => exact ⟨_, _, rfl, fun h => absurd h hq, .holding hs hq hg .shared rfl⟩
  | upgraded hs hq hg hds hdown =>
    subst hdown
    cases hmsgs
    exact ⟨_, _, rfl, fun h => absurd h hq, .holding hs hq hg (hds ▸ .modified) rfl⟩
  | holding hs hq hg hc hdown =>
    obtain ⟨t, rfl, rfl, rfl⟩ := asked_eq_cons (hmsgs.trans hdown)
    cases t with
    | INV_REQ =>
      obtain rfl := hinv rfl
      cases hc
      exact ⟨_, _, rfl, fun _ => rfl, .released hs hq hg (.shared _) .no (.inr rfl)⟩
    | FLUSH_REQ =>
      cases hc with
      | shared => exact ⟨_, _, rfl, fun _ => rfl, .released hs hq hg (.flushed _) .no (.inr rfl)⟩
      | exclusive => exact ⟨_, _, rfl, fun _ => rfl, .released hs hq hg (.written _ _) .no (.inr rfl)⟩
      | written => exact ⟨_, _, rfl, fun _ => rfl, .released hs hq hg (.written _ _) .no (.inr rfl)⟩
      | modified => exact ⟨_, _, rfl, fun _ => rfl, .released hs hq hg (.modified _ _) .no (.inr rfl)⟩
    | WB_REQ => cases hc <;> exact ⟨_, _, rfl, fun _ => rfl, .wroteBack hs hg rfl (.shared hq) _⟩
  | upgrading hs hq hg hds hdown =>
    obtain ⟨t, rfl, rfl, rfl⟩ := asked_eq_cons (hmsgs.trans hdown)
    subst hds
    cases t with
    | INV_REQ =>
      exact ⟨_, _, rfl, fun _ => rfl, .upgradeLost hs hq hg (Option.some_ne_none _) rfl (.shared _)⟩
    | FLUSH_REQ =>
      exact ⟨_, _, rfl, fun _ => rfl, .upgradeLost hs hq hg (Option.some_ne_none _) rfl (.flushed _)⟩
    | WB_REQ => exact ⟨_, _, rfl, fun _ => rfl, .forwarded hs hq hg rfl rfl _⟩
  | upgradeQueued hs hq hg hds hdown =>
    obtain ⟨t, rfl, rfl, rfl⟩ := asked_eq_cons (hmsgs.trans hdown)
    subst hds
    cases t with
    | INV_REQ =>
      exact ⟨_, _, rfl, fun _ => rfl, .upgradeLostQueued hs hq hg (Option.some_ne_none _) rfl (.shared _)⟩
    | FLUSH_REQ =>
      exact ⟨_, _, rfl, fun _ => rfl, .upgradeLostQueued hs hq hg (Option.some_ne_none _) rfl (.flushed _)⟩
    | WB_REQ => exact ⟨_, _, rfl, fun _ => rfl, .wroteBack hs hg rfl (.queued hq) _⟩
  | released hs hq hg hmsg hup hdown =>
    obtain hdown | rfl := hdown
    · obtain ⟨t, rfl, rfl, rfl⟩ := asked_eq_cons (hmsgs.trans hdown)
      exact ⟨_, _, rfl, fun _ => rfl, .released hs hq hg hmsg hup (.inr rfl)⟩
    · cases hmsgs
  | wroteBack | forwarded | upgradeLost | upgradeLostQueued => cases hmsgs

end

/-! ## Messages that reach the directory -/

theorem of_request {k : Request}
    (h : Link ds sharer queued granted w cs pending (.request k :: up) down) :
    ¬queued ∧ ¬granted ∧ pending = some k ∧
      ∀ queued' : Prop, queued' → Link ds sharer queued' granted w cs pending up down := by
  cases h with
  | idle hs hq hg hw hup hdown =>
    cases hup
    exact ⟨hq, hg, rfl, fun _ hq => .waiting hs hq hg hw hdown⟩
  | upgrading hs hq hg hds hdown =>
    exact ⟨hq, hg, rfl, fun _ hq => .upgradeQueued hs hq hg hds hdown⟩
  | forwarded hs hq hg hw hds data =>
    exact ⟨hq, hg, rfl, fun _ hq => .wroteBack hs hg hw (.queued hq) data⟩
  | released _ _ _ hmsg => cases hmsg
  | upgradeLost hs hq hg hw hds hmsg =>
    exact ⟨hq, hg, rfl, fun _ hq => .upgradeLostQueued hs hq hg hw hds hmsg⟩
  | upgradeLostQueued _ _ _ _ _ hmsg => cases hmsg

theorem of_released {msg : ToDirectory D}
    (h : Link ds sharer queued granted w cs pending (msg :: up) down)
    (hreq : ∀ k, msg ≠ .request k) (hback : ∀ data, msg ≠ .WB_REP data) :
    sharer ∧ ¬granted ∧ Releases ds w msg ∧
      ∀ (ds' : DState) (sharer' : Prop), ¬sharer' →
        Link ds' sharer' queued granted none cs pending up down := by
  have stale : down = asked w ∨ down = [] → Stale down := by
    rintro (rfl | rfl)
    · cases w with
      | none => exact .nil
      | some t => exact .revoke t
    · exact .nil
  cases h with
  | idle _ _ _ _ hup =>
    cases hup
    exact absurd rfl (hreq _)
  | upgrading | forwarded | upgradeLost => exact absurd rfl (hreq _)
  | wroteBack => exact absurd rfl (hback _)
  | released hs hq hg hmsg hup hdown =>
    exact ⟨hs, hg, hmsg, fun _ _ hs => .idle hs hq hg rfl hup (stale hdown)⟩
  | upgradeLostQueued hs hq hg hw hds hmsg =>
    exact ⟨hs, hg, hmsg, fun _ _ hs => .waiting hs hq hg rfl .nil⟩

theorem of_wbRep {data : D}
    (h : Link ds sharer queued granted w cs pending (.WB_REP data :: up) down) :
    sharer ∧ ¬granted ∧ w = some .WB_REQ ∧
      Link .SHARED sharer queued granted none cs pending up down := by
  cases h with
  | idle _ _ _ _ hup => cases hup
  | wroteBack hs hg hw hback =>
    refine ⟨hs, hg, hw, ?_⟩
    cases hback with
    | shared hq => exact .holding hs hq hg .shared rfl
    | upgrading hq => exact .upgrading hs hq hg rfl rfl
    | queued hq => exact .upgradeQueued hs hq hg rfl rfl
    | released hq hup => exact .released hs hq hg (.shared _) hup (.inr rfl)
  | released _ _ _ hmsg => cases hmsg
  | upgradeLostQueued _ _ _ _ _ hmsg => cases hmsg

/-! ## Messages of the directory -/

section

variable (h : Link ds sharer queued granted none cs pending up down)
include h

theorem revoke (hs : sharer) (hg : ¬granted) (t : Revoke) :
    Link ds sharer queued granted (some t) cs pending up (down ++ [.revoke t]) := by
  cases h with
  | idle hs' | waiting hs' => exact absurd hs hs'
  | granted _ _ hg' => exact absurd hg' hg
  | answered _ hq _ hstale hmsg hdown =>
    subst hdown
    exact .answered hs hq hg hstale hmsg (List.append_assoc _ _ _)
  | upgraded _ hq _ hds hdown =>
    subst hdown
    exact .upgraded hs hq hg hds rfl
  | holding _ hq _ hc hdown =>
    subst hdown
    exact .holding hs hq hg hc rfl
  | upgrading _ hq _ hds hdown =>
    subst hdown
    exact .upgrading hs hq hg hds rfl
  | upgradeQueued _ hq _ hds hdown =>
    subst hdown
    exact .upgradeQueued hs hq hg hds rfl
  | wroteBack _ _ hw | forwarded _ _ _ hw => cases hw
  | released _ hq _ hmsg hup hdown =>
    obtain rfl : down = [] := by
      obtain h | h := hdown
      · exact h
      · exact h
    refine .released hs hq hg ?_ hup (.inl rfl)
    cases hmsg with
    | shared => exact .shared _
    | exclusive => exact .exclusive _
    | written => exact .written _ _
    | modified => exact .modified _ _
  | upgradeLost _ _ _ hw | upgradeLostQueued _ _ _ hw => exact absurd rfl hw

theorem requester (hq : queued) (hg : ¬granted) :
    ¬sharer ∨ ds = .SHARED ∧ pending = some .UPGRADE_REQ := by
  cases h with
  | waiting hs => exact .inl hs
  | upgradeQueued _ _ _ hds => exact .inr ⟨hds, rfl⟩
  | granted _ _ hg' => exact absurd hg' hg
  | wroteBack _ _ hw => cases hw
  | upgradeLostQueued _ _ _ hw => exact absurd rfl hw
  | _ => exact absurd hq ‹¬queued›

theorem grant (hs : ¬sharer) (hq : queued) (hs' : sharer') (hg' : granted') :
    Link ds' sharer' queued granted' none cs pending up down := by
  cases h with
  | idle _ hq' => exact absurd hq hq'
  | waiting _ _ _ _ hdown => exact .granted hs' hq hg' rfl hdown
  | _ => exact absurd ‹sharer› hs

end

theorem reply {k : Request} {msg : ToCache D}
    (h : Link ds sharer queued granted none cs (some k) up down) (hg : granted)
    (hmsg : Answers ds k msg) (hq' : ¬queued') (hg' : ¬granted') :
    Link ds sharer queued' granted' none cs (some k) up (down ++ [msg]) := by
  generalize hp : some k = p at h
  cases h with
  | granted hs _ _ _ hdown =>
    cases hp
    exact .answered hs hq' hg' hdown hmsg rfl
  | _ => exact absurd hg ‹¬granted›

theorem upgrade (h : Link .SHARED sharer queued granted none cs pending up down) (hs : sharer)
    (hq : queued) (hg : ¬granted) (hq' : ¬queued') :
    Link .MODIFIED sharer queued' granted none cs pending up (down ++ [.UPGRADE_REP]) := by
  cases h with
  | waiting hs' => exact absurd hs hs'
  | granted _ _ hg' => exact absurd hg' hg
  | upgradeQueued _ _ _ _ hdown =>
    subst hdown
    exact .upgraded hs hq' hg rfl rfl
  | wroteBack _ _ hw => cases hw
  | upgradeLostQueued _ _ _ hw => exact absurd rfl hw
  | _ => exact absurd hq ‹¬queued›

end Link

end MultiCoreMemory.Sniper
