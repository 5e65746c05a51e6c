import MultiCoreMemory.Sniper.DirectoryMessages

/-!
# What treating a request does, and in which order requests are answered
-/

namespace MultiCoreMemory.Sniper

open List Option Directory

variable {n : ℕ} {D : Type} {cfg : DirectoryConfig} {d d' : Directory n D} {r : ShmemReq n}
  {rest : List (ShmemReq n)} {cached : Option D} {pick : ℕ} {freed : D}
  {result : Directory n D × Bool}

/-! ## Outcomes -/

inductive Outcome (cfg : DirectoryConfig) (d : Directory n D) (r : ShmemReq n) (cached : Option D)
    (freed : D) : Directory n D × Bool → Prop
  /-- copies are asked for -/
  | revoked {queue : List (ShmemReq n)} (hids : queue.map (·.id) = d.queue.map (·.id))
      (w : Fin n → Option Revoke) (hds : d.dstate ≠ .UNCACHED) :
      Outcome cfg d r cached freed
        ({ d with queue, down := fun i => d.down i ++ asked (w i) }, false)
  /-- the only sharer may write -/
  | upgraded (owner : Option (Fin n)) (hds : d.dstate ≠ .UNCACHED) :
      Outcome cfg d r cached freed
        (reply { d with dstate := .MODIFIED, owner } r .UPGRADE_REP, true)
  /-- the requester becomes a sharer, and is sent the data if it is there -/
  | granted (sharers : Finset (Fin n)) (owner : Option (Fin n)) {ds : DState}
      (hds : d.dstate = .UNCACHED ∨ d.dstate = .SHARED ∧ ds = .SHARED) {msg : D → ToCache D}
      (hmsg : ds = .MODIFIED ∧ msg = .EX_REP ∨
        r.type = .SH_REQ ∧ (msg = .EX_REP ∨ msg = .SH_REP))
      {data : Option D} (hdata : data = cached ∨ r.hasData ∧ cached = none ∧ data = some freed) :
      Outcome cfg d r cached freed
        (Directory.retrieveData cfg { d with sharers, owner, dstate := ds } r msg data)

namespace Outcome

theorem send (o : Fin n) (k : Revoke) (hds : d.dstate ≠ .UNCACHED) :
    Outcome cfg d r cached freed (d.send o (.revoke k), false) := by
  rw [send_revoke]
  exact .revoked rfl (only o k) hds

theorem sharers (w : Fin n → Option Revoke) (hds : d.dstate ≠ .UNCACHED) :
    Outcome cfg d r cached freed (d.revokeSharers w, false) := by
  rw [revokeSharers_eq]
  exact .revoked rfl _ hds

theorem revokeOwner {k : Revoke} (h : d.revokeOwner k cached = some result)
    (hds : d.dstate ≠ .UNCACHED) : Outcome cfg d r cached freed result := by
  unfold Directory.revokeOwner at h
  split at h
  · cases h
  · obtain ⟨o, -, rfl⟩ := map_eq_some_iff.mp h
    exact .send o k hds

theorem own {ds : DState} {msg : D → ToCache D} {data : Option D}
    (h : (do
      let d ← d.own cfg r.requester ds
      return d.retrieveData cfg r msg data) = some result)
    (hds : d.dstate = .UNCACHED)
    (hmsg : ds = .MODIFIED ∧ msg = .EX_REP ∨ r.type = .SH_REQ ∧ (msg = .EX_REP ∨ msg = .SH_REP))
    (hdata : data = cached ∨ r.hasData ∧ cached = none ∧ data = some freed) :
    Outcome cfg d r cached freed result := by
  obtain ⟨d₁, hown, hresult⟩ := bind_eq_some_iff.mp h
  cases hresult
  obtain ⟨⟨added, d₂⟩, hadd, hset⟩ := bind_eq_some_iff.mp hown
  unfold addSharer at hadd
  split_ifs at hadd
  · cases hadd
    cases hset
  · cases hadd
    obtain ⟨d₃, howner, hd₁⟩ := bind_eq_some_iff.mp hset
    unfold setOwner at howner
    split_ifs at howner
    cases howner
    cases hd₁
    exact .granted (insert r.requester d.sharers) (some r.requester) (.inl hds) hmsg hdata

theorem processExReq (h : d.processExReq cfg r cached = some result) :
    Outcome cfg d r cached freed result := by
  unfold Directory.processExReq at h
  split at h
  next hds => exact revokeOwner h (by simp [hds])
  next hds => exact revokeOwner h (by simp [hds])
  next hds =>
    split_ifs at h
    cases h
    exact .sharers _ (by simp [hds])
  next hds => exact own h hds (.inl ⟨rfl, rfl⟩) (.inl rfl)

theorem processShReq (htype : r.type = .SH_REQ) (hq : d.queue = r :: rest)
    (h : d.processShReq cfg r cached pick = some result) : Outcome cfg d r cached freed result := by
  unfold Directory.processShReq at h
  split at h
  next hds =>
    split_ifs at h
    exact revokeOwner h (by simp [hds])
  next hds => exact revokeOwner h (by simp [hds])
  next hds =>
    split_ifs at h
    · cases h
      exact .granted d.sharers d.owner (.inr ⟨hds, hds⟩) (.inr ⟨htype, .inr rfl⟩) (.inl rfl)
    · obtain ⟨⟨added, d₁⟩, hadd, hresult⟩ := bind_eq_some_iff.mp h
      unfold addSharer at hadd
      split_ifs at hadd
      · cases hadd
        obtain ⟨v, -, hresult⟩ := bind_eq_some_iff.mp hresult
        cases hresult
        rw [send_revoke]
        exact .revoked (by simp [setHead, hq]) (only v .INV_REQ) (by simp [hds])
      · cases hadd
        cases hresult
        exact .granted (insert r.requester d.sharers) d.owner (.inr ⟨hds, hds⟩)
          (.inr ⟨htype, .inr rfl⟩) (.inl rfl)
  next hds =>
    split_ifs at h
    · exact own h hds (.inr ⟨htype, .inr rfl⟩) (.inl rfl)
    · exact own h hds (.inr ⟨htype, .inl rfl⟩) (.inl rfl)

theorem upgradeOwned {first : Fin n} (hds : d.dstate ≠ .UNCACHED)
    (h : (if first = r.requester then
        if d.owner = some r.requester then
          some ({ d.reply r .UPGRADE_REP with dstate := .MODIFIED }, true)
        else none
      else d.owner.map fun o => (d.send o (.revoke .FLUSH_REQ), false)) = some result) :
    Outcome cfg d r cached freed result := by
  split_ifs at h
  · cases h
    exact .upgraded d.owner hds
  · obtain ⟨o, -, rfl⟩ := map_eq_some_iff.mp h
    exact .send o .FLUSH_REQ hds

theorem processUpgradeReq (h : d.processUpgradeReq cfg r cached freed = some result) :
    Outcome cfg d r cached freed result := by
  unfold Directory.processUpgradeReq at h
  split at h
  next hds =>
    split at h
    · cases h
    · exact upgradeOwned (by simp [hds]) h
  next hds =>
    split at h
    · cases h
    · exact upgradeOwned (by simp [hds]) h
  next hds =>
    split_ifs at h
    · obtain ⟨d₁, howner, hresult⟩ := bind_eq_some_iff.mp h
      unfold setOwner at howner
      split_ifs at howner
      cases howner
      cases hresult
      exact .upgraded (some r.requester) (by simp [hds])
    · cases h
      exact .sharers _ (by simp [hds])
  next hds =>
    split_ifs at h with _ hdata
    · refine own h hds (.inl ⟨rfl, rfl⟩) ?_
      cases cached with
      | some data => exact .inl rfl
      | none => exact .inr ⟨hdata, rfl, rfl⟩
    · refine own h hds (.inl ⟨rfl, rfl⟩) (.inl ?_)
      cases cached <;> rfl

theorem queue_of_answered (h : Outcome cfg d r cached freed result) (hanswered : result.2 = true) :
    result.1.queue = d.queue := by
  cases h with
  | revoked => cases hanswered
  | upgraded => rfl
  | @granted _ _ _ _ _ _ data =>
    cases data with
    | some data => rfl
    | none =>
      unfold Directory.retrieveData at hanswered
      dsimp only at hanswered
      split at hanswered <;> cases hanswered

end Outcome

theorem Directory.outcome_of_processHead (hq : d.queue = r :: rest)
    (h : d.processHead cfg cached pick freed = some result) : Outcome cfg d r cached freed result := by
  simp only [processHead, hq] at h
  cases htype : r.type with
  | EX_REQ =>
    simp only [htype] at h
    exact .processExReq h
  | SH_REQ =>
    simp only [htype] at h
    exact .processShReq htype hq h
  | UPGRADE_REQ =>
    simp only [htype] at h
    exact .processUpgradeReq h

/-! ## The order of the answers -/

/-- The requests before `k` were started and answered, one after the other. -/
def answeredBefore (k : ℕ) : List DirEvent :=
  (List.range k).flatMap fun id => [.started id, .replied id]

theorem answeredBefore_succ (k : ℕ) :
    answeredBefore (k + 1) = answeredBefore k ++ [.started k] ++ [.replied k] := by
  simp [answeredBefore, range_succ]

theorem count_answeredBefore (k id : ℕ) :
    (answeredBefore k).count (.replied id) = if id < k then 1 else 0 := by
  induction k with
  | zero => rfl
  | succ k ih =>
    rw [answeredBefore_succ, count_append, count_append, ih, count_singleton,
      count_singleton]
    by_cases hk : id = k
    · subst hk
      simp
    · have hne : (DirEvent.replied k == .replied id) = false := by simpa using Ne.symm hk
      have hlt : id < k + 1 ↔ id < k := by omega
      simp [hne, hlt]

/-- `k` requests were answered; the next one was started if it is there. -/
structure OrderedAt (d : Directory n D) (k : ℕ) : Prop where
  ids : d.queue.map (·.id) = List.range' k d.queue.length
  requests : k + d.queue.length = d.requests
  events : d.events = answeredBefore k ++ if d.queue = [] then [] else [.started k]

variable {k : ℕ}

theorem OrderedAt.count_replied_le (h : OrderedAt d k) (id : ℕ) :
    d.events.count (.replied id) ≤ 1 := by
  have hstarted : (if d.queue = [] then [] else [DirEvent.started k]).count (.replied id) = 0 := by
    split <;> simp
  rw [h.events, count_append, hstarted, count_answeredBefore]
  split <;> omega

/-- `k` requests were answered, and `rest` is to be treated. -/
structure AnsweredAt (d : Directory n D) (rest : List (ShmemReq n)) (k : ℕ) : Prop where
  ids : rest.map (·.id) = List.range' k rest.length
  requests : k + rest.length = d.requests
  events : d.events = answeredBefore k

theorem eq_of_ids (h : (r :: rest).map (·.id) = List.range' k (r :: rest).length) :
    r.id = k ∧ rest.map (·.id) = List.range' (k + 1) rest.length := by
  rw [map_cons, length_cons, range'_succ, cons.injEq] at h
  exact h

theorem OrderedAt.of_eq (h : OrderedAt d k) (hids : d'.queue.map (·.id) = d.queue.map (·.id))
    (hrequests : d'.requests = d.requests) (hevents : d'.events = d.events) : OrderedAt d' k := by
  have hlength : d'.queue.length = d.queue.length := by
    rw [← length_map (·.id), hids, length_map]
  have hnil : d'.queue = [] ↔ d.queue = [] := by
    rw [← length_eq_zero_iff, hlength, length_eq_zero_iff]
  refine ⟨?_, ?_, ?_⟩
  · rw [hids, hlength, h.ids]
  · rw [hlength, hrequests, h.requests]
  · simp only [hevents, h.events, hnil]

theorem OrderedAt.answered {rest' : List (ShmemReq n)} (h : OrderedAt d k)
    (hq : d.queue = r :: rest) (hids : rest'.map (·.id) = rest.map (·.id))
    (hrequests : d'.requests = d.requests) (hevents : d'.events = d.events ++ [.replied r.id]) :
    AnsweredAt d' rest' (k + 1) := by
  have hids₀ := h.ids
  have hrequests₀ := h.requests
  have hevents₀ := h.events
  rw [hq] at hids₀ hrequests₀ hevents₀
  obtain ⟨hid, hrest⟩ := eq_of_ids hids₀
  have hlength : rest'.length = rest.length := by
    rw [← length_map (·.id), hids, length_map]
  refine ⟨?_, ?_, ?_⟩
  · rw [hids, hlength, hrest]
  · rw [hlength, hrequests, ← hrequests₀, length_cons]
    omega
  · rw [hevents, hevents₀, hid, answeredBefore_succ]
    rfl

/-- Treating the head of the queue answers it, or leaves the order as it is. -/
structure Treats (d : Directory n D) (r : ShmemReq n) (result : Directory n D × Bool) : Prop where
  ids : result.1.queue.map (·.id) = d.queue.map (·.id)
  requests : result.1.requests = d.requests
  events : result.1.events = d.events ++ if result.2 then [.replied r.id] else []

theorem Treats.retrieveData (cfg : DirectoryConfig) (msg : D → ToCache D) (cached : Option D)
    (hq : d.queue = r :: rest) :
    Treats d r (d.retrieveData cfg r msg cached) := by
  unfold Directory.retrieveData
  split
  · exact ⟨rfl, rfl, rfl⟩
  · split
    · exact ⟨by simp [setHead, send, hq], rfl, (append_nil _).symm⟩
    · exact ⟨by simp [setHead, hq], rfl, (append_nil _).symm⟩

theorem Outcome.treats (h : Outcome cfg d r cached freed result) (hq : d.queue = r :: rest) :
    Treats d r result := by
  cases h with
  | revoked hids => exact ⟨hids, rfl, (append_nil _).symm⟩
  | upgraded => exact ⟨rfl, rfl, rfl⟩
  | @granted sharers owner ds _ msg _ data _ =>
    have hq' : ({ d with sharers, owner, dstate := ds } : Directory n D).queue = r :: rest := hq
    obtain ⟨hids, hrequests, hevents⟩ := Treats.retrieveData cfg msg data hq'
    exact ⟨hids, hrequests, hevents⟩

theorem AnsweredAt.processNext (h : AnsweredAt d rest k)
    (hnext : processNext cfg pick freed rest d = some d') : ∃ k, OrderedAt d' k := by
  induction rest generalizing d k with
  | nil =>
    cases hnext
    exact ⟨k, rfl, h.requests, by simpa using h.events⟩
  | cons r rest ih =>
    obtain ⟨⟨d₁, answered⟩, hhead, hnext⟩ := bind_eq_some_iff.mp hnext
    have hstarted : OrderedAt
        { d with queue := r :: rest, events := d.events ++ [.started r.id] } k := by
      refine ⟨h.ids, h.requests, ?_⟩
      simp only [h.events, (eq_of_ids h.ids).1]
      rfl
    obtain ⟨hids, hrequests, hevents⟩ := (outcome_of_processHead rfl hhead).treats rfl
    cases answered with
    | false =>
      cases hnext
      exact ⟨k, hstarted.of_eq hids hrequests (hevents.trans (append_nil _))⟩
    | true =>
      exact ih (hstarted.answered rfl rfl hrequests hevents) hnext

theorem OrderedAt.serve (h : OrderedAt d k) (hserve : d.serve cfg cached pick freed = some d') :
    ∃ k, OrderedAt d' k := by
  obtain ⟨⟨d₁, answered⟩, hhead, hnext⟩ := bind_eq_some_iff.mp hserve
  cases hq : d.queue with
  | nil => simp [processHead, hq] at hhead
  | cons r rest =>
    obtain ⟨hids, hrequests, hevents⟩ := (outcome_of_processHead hq hhead).treats hq
    cases answered with
    | false =>
      cases hnext
      exact ⟨k, h.of_eq hids hrequests (hevents.trans (append_nil _))⟩
    | true =>
      have hrest : d₁.queue.tail.map (·.id) = rest.map (·.id) := by
        rw [map_tail, hids, hq]
        rfl
      exact (h.answered hq hrest hrequests hevents).processNext hnext

/-! ## Every message keeps the order -/

section

variable {k : ℕ} {sender : Fin n} {data : D}

variable (h : OrderedAt d k)
include h

theorem OrderedAt.enqueue (hid : r.id = d.requests) (hids : d'.queue = d.queue ++ [r])
    (hrequests : d'.requests = d.requests + 1)
    (hevents : d'.events = d.events ++ if d.queue = [] then [.started r.id] else []) :
    OrderedAt d' k := by
  have hlength : d'.queue.length = d.queue.length + 1 := by
    rw [hids, length_append, length_singleton]
  have hne : d'.queue ≠ [] := by simp [hids]
  refine ⟨?_, ?_, ?_⟩
  · rw [hlength, hids, map_append, h.ids, range'_concat, Nat.one_mul, h.requests, ← hid]
    rfl
  · rw [hlength, hrequests, ← h.requests]
    omega
  · rw [hevents, h.events, if_neg hne]
    by_cases hempty : d.queue = []
    · have hk : r.id = k := by rw [hid, ← h.requests, hempty, length_nil, Nat.add_zero]
      simp only [if_pos hempty, append_nil, hk]
    · simp only [if_neg hempty, append_nil]

theorem OrderedAt.processRequest {type : Request}
    (hd : d.processRequest cfg sender type pick freed = some d') : ∃ k, OrderedAt d' k := by
  unfold Directory.processRequest at hd
  dsimp only at hd
  split_ifs at hd with hone
  · have hempty : d.queue = [] := by simpa using hone
    refine OrderedAt.serve (k := k) (h.enqueue rfl rfl rfl ?_) hd
    rw [if_pos hempty]
  · cases hd
    have hne : d.queue ≠ [] := by simpa using hone
    refine ⟨k, h.enqueue rfl rfl rfl ?_⟩
    rw [if_neg hne, append_nil]

theorem OrderedAt.processInvRep (hd : d.processInvRep cfg sender pick freed = some d') :
    ∃ k, OrderedAt d' k := by
  rw [Directory.processInvRep, ite_none_right_eq_some] at hd
  obtain rfl | ⟨r, rest, ds, -, hserve⟩ := of_afterInvRep hd.2
  · exact ⟨k, h.of_eq rfl rfl rfl⟩
  · refine OrderedAt.serve (k := k) ?_ hserve
    exact h.of_eq rfl rfl rfl

theorem OrderedAt.afterFlushRep (hd : d.afterFlushRep cfg data pick freed = some d') :
    ∃ k, OrderedAt d' k := by
  unfold Directory.afterFlushRep at hd
  split at hd
  · cases hd
    exact ⟨k, h.of_eq rfl rfl rfl⟩
  next r rest hq =>
    split at hd
    · exact h.serve hd
    · refine OrderedAt.serve (k := k) ?_ hd
      exact h.of_eq rfl rfl rfl
    · split_ifs at hd
      · refine OrderedAt.serve (k := k) ?_ hd
        exact h.of_eq rfl rfl rfl
      · cases hd
        exact ⟨k, h.of_eq (by simp [setHead, hq]) rfl rfl⟩

theorem OrderedAt.processFlushRep (hd : d.processFlushRep cfg sender data pick freed = some d') :
    ∃ k, OrderedAt d' k := by
  rw [Directory.processFlushRep, ite_none_right_eq_some] at hd
  refine OrderedAt.afterFlushRep (k := k) ?_ hd.2
  exact h.of_eq rfl rfl rfl

theorem OrderedAt.processWbRep (hd : d.processWbRep cfg sender data pick freed = some d') :
    ∃ k, OrderedAt d' k := by
  rw [Directory.processWbRep, ite_none_right_eq_some] at hd
  refine OrderedAt.serve (k := k) ?_ hd.2
  exact h.of_eq rfl rfl rfl

theorem OrderedAt.handleMsg {msg : ToDirectory D}
    (hd : d.handleMsg cfg sender msg pick freed = some d') : ∃ k, OrderedAt d' k := by
  cases msg with
  | request type => exact h.processRequest hd
  | INV_REP => exact h.processInvRep hd
  | FLUSH_REP data => exact h.processFlushRep hd
  | WB_REP data => exact h.processWbRep hd

theorem OrderedAt.processDRAMReply (hd : d.processDRAMReply cfg pick freed = some d') :
    ∃ k, OrderedAt d' k := by
  unfold Directory.processDRAMReply at hd
  split at hd
  next data reads r rest _ hq =>
    obtain ⟨msg, -, hnext⟩ := bind_eq_some_iff.mp hd
    have hanswered : AnsweredAt (reply { d with dramReads := reads } r msg) rest (k + 1) :=
      h.answered hq rfl rfl rfl
    exact hanswered.processNext hnext
  · cases hd

end

end MultiCoreMemory.Sniper
