import MultiCoreMemory.Controller.Run
import MultiCoreMemory.Dram.DDR4

/-!
# No request is lost or served twice

Every request the controller accepts is in one of the five queues, once, until it is done, once:
a read is done when it leaves `pending`, any other request when its final command is issued.
-/

namespace MultiCoreMemory

open List Effect ControllerParams Controller Queues

variable {C σ : Type}

/-! ## Counting -/

def tagCount (l : List (Request C)) (tag : ℕ) : ℕ := l.countP fun r => r.tag = tag

namespace Effect

def entered (tag : ℕ) : Effect C → Bool
  | .accepted r | .forwarded r => r.tag = tag
  | _ => false

def forwardedTag (tag : ℕ) : Effect C → Bool
  | .forwarded r => r.tag = tag
  | _ => false

def final [DecidableEq C] (tag : ℕ) : Effect C → Bool
  | .issued command r => r.tag = tag && r.finalCommand = some command
  | _ => false

def finalRead [DecidableEq C] (tag : ℕ) : Effect C → Bool
  | .issued command r => r.tag = tag && r.finalCommand = some command && r.typeId = typeRead
  | _ => false

def completedTag (tag : ℕ) : Effect C → Bool
  | .completed r => r.tag = tag
  | _ => false

def done [DecidableEq C] (tag : ℕ) : Effect C → Bool
  | .completed r => r.tag = tag
  | .issued command r => r.tag = tag && r.finalCommand = some command && r.typeId ≠ typeRead
  | _ => false

end Effect

namespace Queues

def inBuffers (q : Queues C) (tag : ℕ) : ℕ :=
  tagCount (q.queue .active) tag + tagCount (q.queue .priority) tag +
    tagCount (q.queue .read) tag + tagCount (q.queue .write) tag

structure Accounted [DecidableEq C] (q : Queues C) (tag : ℕ) : Prop where
  fresh : q.next ≤ tag → q.log.countP (entered tag) = 0
  once : q.log.countP (entered tag) ≤ 1
  buffers : q.inBuffers tag + q.log.countP (forwardedTag tag) +
    q.log.countP (final tag) = q.log.countP (entered tag)
  pending : tagCount q.pending tag + q.log.countP (completedTag tag) =
    q.log.countP (forwardedTag tag) + q.log.countP (finalRead tag)

theorem tagCount_append (l l' : List (Request C)) (tag : ℕ) :
    tagCount (l ++ l') tag = tagCount l tag + tagCount l' tag := countP_append

theorem tagCount_eraseIdx {l : List (Request C)} {i : ℕ} {r : Request C} (h : l[i]? = some r)
    (tag : ℕ) : tagCount l tag = tagCount (l.eraseIdx i) tag + tagCount [r] tag := by
  obtain ⟨hlt, rfl⟩ := List.getElem?_eq_some_iff.mp h
  have hperm := List.getElem_cons_eraseIdx_perm hlt
  rw [tagCount, ← hperm.countP_eq, ← List.singleton_append, List.countP_append, Nat.add_comm]
  rfl

theorem inBuffers_setQueue (q : Queues C) (id : BufferId) (l : List (Request C)) (tag : ℕ) :
    (q.setQueue id l).inBuffers tag + tagCount (q.queue id) tag =
      q.inBuffers tag + tagCount l tag := by
  cases id <;> simp [inBuffers, Function.update] <;> omega

theorem inBuffers_eraseIdx {q : Queues C} {id : BufferId} {i : ℕ} {r : Request C}
    (h : (q.queue id)[i]? = some r) (tag : ℕ) :
    q.inBuffers tag =
      (q.setQueue id ((q.queue id).eraseIdx i)).inBuffers tag + tagCount [r] tag := by
  have herase := tagCount_eraseIdx h tag
  have hset := inBuffers_setQueue q id ((q.queue id).eraseIdx i) tag
  omega

theorem inBuffers_activate {q : Queues C} {id : BufferId} {i : ℕ} {r : Request C}
    (h : (q.queue id)[i]? = some r) (tag : ℕ) :
    ((q.setQueue .active (q.queue .active ++ [r])).setQueue id
      (((q.setQueue .active (q.queue .active ++ [r])).queue id).eraseIdx i)).inBuffers tag =
      q.inBuffers tag := by
  have h' : ((q.setQueue .active (q.queue .active ++ [r])).queue id)[i]? = some r := by
    by_cases hid : id = .active
    · subst hid
      have hlt := (List.getElem?_eq_some_iff.mp h).1
      simpa [getElem?_append_left hlt] using h
    · simpa [hid] using h
  have herase := inBuffers_eraseIdx h' tag
  have hset := inBuffers_setQueue q .active (q.queue .active ++ [r]) tag
  rw [tagCount_append] at hset
  omega

/-! ## Every move keeps the balance -/

section

variable [DecidableEq C] {D : IDRAM C σ} {p : ControllerParams} {hazard : Bool} {tag : ℕ}
  {q q' : Queues C}

def weight (f : Effect C → Bool) (e : Effect C) : ℕ := if f e then 1 else 0

theorem Accounted.event (h : q.Accounted tag) {e : Effect C} (hlog : q'.log = e :: q.log)
    (hnext : q.next ≤ q'.next)
    (hentered : e.entered tag = true → q.next = tag ∧ q'.next = q.next + 1)
    (hbuffers : q'.inBuffers tag + weight (forwardedTag tag) e +
      weight (final tag) e = q.inBuffers tag + weight (entered tag) e)
    (hpending : tagCount q'.pending tag + weight (completedTag tag) e =
      tagCount q.pending tag + weight (forwardedTag tag) e +
        weight (finalRead tag) e) : q'.Accounted tag := by
  obtain ⟨hfresh, honce, hbuffers₀, hpending₀⟩ := h
  have hcount : ∀ f : Effect C → Bool, q'.log.countP f = q.log.countP f + weight f e := by
    intro f
    simp [hlog, countP_cons, weight]
  have hweight : weight (entered tag) e = 0 ∨ weight (entered tag) e = 1 ∧
      q.next = tag ∧ q'.next = q.next + 1 := by
    unfold weight
    by_cases he : e.entered tag = true
    · exact .inr ⟨by simp [he], hentered he⟩
    · exact .inl (by simp [he])
  refine ⟨fun hle => ?_, ?_, ?_, ?_⟩
  · have := hfresh (hnext.trans hle)
    rw [hcount]
    omega
  · rw [hcount]
    rcases hweight with hw | ⟨hw, hn, -⟩
    · omega
    · have := hfresh hn.le
      omega
  · rw [hcount, hcount, hcount]
    omega
  · rw [hcount, hcount, hcount]
    omega

omit [DecidableEq C] in
theorem tagCount_singleton (r : Request C) (tag : ℕ) :
    tagCount [r] tag = if r.tag = tag then 1 else 0 := by
  by_cases ht : r.tag = tag <;> simp [tagCount, ht]

/-- **A move that loses nothing keeps the balance.** -/
theorem move_accounted (h : q.Accounted tag) (hmove : Move D p false hazard q q') :
    q'.Accounted tag := by
  cases hmove with
  | clock => exact ⟨h.fresh, h.once, h.buffers, h.pending⟩
  | refuse => exact ⟨fun hle => h.fresh (Nat.le_of_succ_le hle), h.once, h.buffers, h.pending⟩
  | accept id r henters =>
    have hset := inBuffers_setQueue q id (q.queue id ++ [r]) tag
    rw [tagCount_append, tagCount_singleton] at hset
    refine h.event rfl (Nat.le_succ _) ?_ ?_ rfl
    · intro he
      exact ⟨henters.tag ▸ of_decide_eq_true he, rfl⟩
    · change (q.setQueue id (q.queue id ++ [r])).inBuffers tag + _ + _ = _
      simp [weight, entered, forwardedTag, final]
      omega
  | forward r htag _ _ _ =>
    refine h.event rfl (Nat.le_succ _) ?_ rfl ?_
    · intro he
      exact ⟨htag ▸ of_decide_eq_true he, rfl⟩
    · simp [weight, record, tagCount_append, tagCount_singleton, forwardedTag,
        completedTag, finalRead]
  | complete r rest hhead _ =>
    refine h.event rfl (Nat.le_refl _) (fun he => by cases he) rfl ?_
    have hsplit : tagCount q.pending tag = tagCount rest tag + tagCount [r] tag := by
      rw [hhead, ← singleton_append, tagCount_append, Nat.add_comm]
    rw [hsplit, tagCount_singleton]
    simp [weight, record, forwardedTag, completedTag, finalRead]
  | keep id i r command hget hne =>
    refine h.event rfl (Nat.le_refl _) (fun he => by cases he) ?_ ?_ <;>
      simp [weight, record, inBuffers, hne, entered, forwardedTag,
        completedTag, final, finalRead]
  | finishRead id i r command hget hfinal htype _ =>
    have herase := inBuffers_eraseIdx hget tag
    rw [tagCount_singleton] at herase
    refine h.event rfl (Nat.le_refl _) (fun he => by cases he) ?_ ?_
    · change (q.setQueue id ((q.queue id).eraseIdx i)).inBuffers tag + _ + _ = _
      simp [weight, hfinal, entered, forwardedTag, final, herase]
    · simp [weight, record, tagCount_append, tagCount_singleton, hfinal, htype,
        forwardedTag, completedTag, finalRead]
  | finish id i r command hget hfinal htype =>
    have herase := inBuffers_eraseIdx hget tag
    rw [tagCount_singleton] at herase
    refine h.event rfl (Nat.le_refl _) (fun he => by cases he) ?_ ?_
    · change (q.setQueue id ((q.queue id).eraseIdx i)).inBuffers tag + _ + _ = _
      simp [weight, hfinal, entered, forwardedTag, final, herase]
    · simp [weight, record, htype, forwardedTag, completedTag, finalRead]
  | activate id i r command hget hne =>
    have hsame := inBuffers_activate hget tag
    refine h.event rfl (Nat.le_refl _) (fun he => by cases he) ?_ ?_
    · refine Eq.trans ?_ (congrArg (· + 0) hsame)
      simp [weight, hne, forwardedTag, final, record, inBuffers]
    · simp [weight, record, hne, forwardedTag, completedTag, finalRead]
  | lose _ _ _ _ hlossy => cases hlossy

end

end Queues

/-! ## Whole runs -/

namespace Run

variable [DecidableEq C]

variable (s : Run C σ) (tag : ℕ)

def held : ℕ :=
  tagCount s.ctrl.activeBuffer.buffer tag + tagCount s.ctrl.priorityBuffer.buffer tag +
    tagCount s.ctrl.readBuffer.buffer tag + tagCount s.ctrl.writeBuffer.buffer tag +
      tagCount s.ctrl.pending tag

def timesDone : ℕ := s.log.countP (done tag)

/-- A `send` or a `priority_send` answered yes for the request. -/
def Accepted : Prop := ∃ e ∈ s.log, e.entered tag = true

omit [DecidableEq C] in
theorem tagCount_core (l : List (Request C)) (tag : ℕ) :
    tagCount (l.map Request.core) tag = tagCount l tag := by
  rw [tagCount, countP_map]
  rfl

theorem timesDone_add_finalReads (log : List (Effect C)) (tag : ℕ) :
    log.countP (done tag) + log.countP (finalRead tag) =
      log.countP (completedTag tag) + log.countP (final tag) := by
  induction log with
  | nil => rfl
  | cons e log ih =>
    simp only [countP_cons]
    have hevent : weight (done tag) e + weight (finalRead tag) e =
        weight (completedTag tag) e + weight (final tag) e := by
      cases e with
      | issued command r =>
        by_cases ht : r.typeId = typeRead <;>
          simp [weight, done, finalRead, completedTag, final, ht]
      | _ => simp [weight, done, finalRead, completedTag, final]
    unfold weight at hevent
    omega

end Run

/-- **No request is lost or served twice while the active buffer has room**: it stands in one queue,
once, or was done once; and a read gets to `pending` once and leaves it once. -/
theorem requests_conserved [DecidableEq C] (D : IDRAM C σ) (p : ControllerParams) (d : σ)
    (s : Run C σ)
    (h : (machine D p d).ReachableWhen
      (fun s call => (∃ refreshReqs policyReqs, call = .tick refreshReqs policyReqs) →
        s.ActiveHasRoom) s)
    (tag : ℕ) (haccepted : s.Accepted tag) :
    s.held tag + s.timesDone tag = 1 ∧
      tagCount s.ctrl.pending tag + s.log.countP (completedTag tag) =
        s.log.countP (forwardedTag tag) + s.log.countP (finalRead tag) := by
  have hinv : s.queues.Accounted tag := by
    refine Run.queues_invariant false true (P := (·.Accounted tag))
      (fun _ s refreshReqs policyReqs hok => hok ⟨refreshReqs, policyReqs, rfl⟩)
      (fun hh => by cases hh) ?_ (fun q q' => move_accounted) h
    exact ⟨fun _ => rfl, Nat.zero_le _, rfl, rfl⟩
  obtain ⟨-, honce, hbuffers, hpending⟩ := hinv
  have hentered : 0 < s.log.countP (entered tag) := by
    obtain ⟨e, he, htag⟩ := haccepted
    exact countP_pos_iff.mpr ⟨e, he, htag⟩
  have hdone := Run.timesDone_add_finalReads s.log tag
  simp only [Run.queues, toQueues, inBuffers, buf,
    Run.tagCount_core] at honce hbuffers hpending
  refine ⟨?_, hpending⟩
  unfold Run.held Run.timesDone
  omega

/-! ## The loss -/

/-- A device on which a row opens at once and no access is ever ready. -/
def slowRows : IDRAM DDR4.Command (List AddrVec) where
  requestTranslations := DDR4.requestTranslations
  commandMeta := DDR4.commandMeta
  bankLevel := DDR4.bank
  readLatency := 20
  issueCommand := fun opened command addrVec =>
    if command = .ACT then addrVec :: opened else opened
  getPreqCommand := fun opened command addrVec => if addrVec ∈ opened then command else .ACT
  checkReady := fun _ command _ => command = .ACT
  checkRowbufferHit := fun _ _ _ => false
  checkNodeOpen := fun _ _ _ => false

def readOfBank (i : ℕ) : Request DDR4.Command :=
  { addr := i, addrVec := [0, 0, 0, i, 0, 0], typeId := typeRead, sourceId := 0, callback := true }

def openBanks (n : ℕ) : List (Call DDR4.Command (List AddrVec)) :=
  (List.range n).flatMap fun i => [.send (readOfBank i), .tick [] []]

/-- **The 34th activating request is lost**: accepted, in no queue, and never done. -/
theorem request_lost :
    ∃ s, (machine slowRows shipped []).Reachable s ∧ s.Accepted 33 ∧
      s.held 33 = 0 ∧ s.timesDone 33 = 0 := by
  obtain ⟨s, hs, hentered, hvalues⟩ := Machine.exists_reachable
    (m := machine slowRows shipped [])
    (P := fun s => s.log.any (entered 33) = true ∧ s.held 33 = 0 ∧ s.timesDone 33 = 0)
    (openBanks 34) (by decide +kernel)
  exact ⟨s, hs, List.any_eq_true.mp hentered, hvalues⟩

/-- With three banks opening, every request is accounted for. -/
theorem third_bank_conserved :
    ∃ s, ((machine slowRows shipped []).run
        (machine slowRows shipped []).init (openBanks 3)) = some s ∧
      s.Accepted 2 ∧ s.held 2 + s.timesDone 2 = 1 := by
  have hrun : ((machine slowRows shipped []).run
      (machine slowRows shipped []).init (openBanks 3)).map
        (fun s => s.log.any (entered 2)) = some true := by decide +kernel
  obtain ⟨s, hs, hentered⟩ := Option.map_eq_some_iff.mp hrun
  have haccepted : s.Accepted 2 := List.any_eq_true.mp hentered
  refine ⟨s, hs, haccepted, ?_⟩
  refine (requests_conserved slowRows shipped [] s ?_ 2 haccepted).1
  refine Machine.reachableWhen_of_run
    (fun s _ => decide (s.ctrl.activeBuffer.size ≤ s.ctrl.activeBuffer.maxSize))
    (fun s call hc _ => of_decide_eq_true hc) hs (by decide +kernel)

end MultiCoreMemory
