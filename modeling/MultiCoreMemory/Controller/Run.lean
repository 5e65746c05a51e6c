import MultiCoreMemory.Controller.Queues
import MultiCoreMemory.Lib.Machine

/-!
# Runs of the controller, and their queues

The machine numbers the requests in the order of the calls that hand them over (`Request.tag`).
-/

namespace MultiCoreMemory

open List Function Request Controller ReqBuffer

variable {C σ : Type}

def Request.fresh (r : Request C) (tag : ℕ) : Request C :=
  { r with
    command := none
    finalCommand := none
    isStatUpdated := false
    arrive := -1
    depart := -1
    tag := tag }

def freshAll : ℕ → List (Request C) → List (Request C)
  | _, [] => []
  | tag, r :: rs => r.fresh tag :: freshAll (tag + 1) rs

theorem arrive_of_mem_freshAll {tag : ℕ} {rs : List (Request C)} {r : Request C}
    (h : r ∈ freshAll tag rs) : r.arrive = -1 := by
  induction rs generalizing tag with
  | nil => cases h
  | cons r₀ rs ih =>
    rcases mem_cons.mp h with rfl | h
    · rfl
    · exact ih h

structure Run (C σ : Type) where
  ctrl : Controller C
  dram : σ
  next : ℕ := 0
  log : List (Effect C) := []

/-- What the environment may do.  `device f` is whatever else happens to the device: its clock
tick, the commands of the other channels. -/
inductive Call (C σ : Type) where
  | send (req : Request C)
  | prioritySend (req : Request C)
  | tick (refreshReqs policyReqs : List (Request C))
  | device (f : σ → σ)

def recordAll (effects log : List (Effect C)) : List (Effect C) :=
  (effects.map Effect.core).reverse ++ log

theorem recordAll_append (effects effects' log : List (Effect C)) :
    recordAll (effects ++ effects') log = recordAll effects' (recordAll effects log) := by
  simp [recordAll]

namespace Controller

variable [DecidableEq C]

def step (D : IDRAM C σ) (p : ControllerParams) (s : Run C σ) : Call C σ → Option (Run C σ)
  | .send req =>
    match s.ctrl.send D (req.fresh s.next) with
    | .error _ => none
    | .ok (_, effects, c) =>
      some { s with ctrl := c, next := s.next + 1, log := recordAll effects s.log }
  | .prioritySend req =>
    match s.ctrl.prioritySend D (req.fresh s.next) with
    | .error _ => none
    | .ok (_, effects, c) =>
      some { s with ctrl := c, next := s.next + 1, log := recordAll effects s.log }
  | .tick refreshReqs policyReqs =>
    match s.ctrl.tick D p s.dram (freshAll s.next refreshReqs)
        (freshAll (s.next + refreshReqs.length) policyReqs) with
    | .error _ => none
    | .ok (d, effects, c) =>
      some ⟨c, d, s.next + refreshReqs.length + policyReqs.length, recordAll effects s.log⟩
  | .device f => some { s with dram := f s.dram }

def machine (D : IDRAM C σ) (p : ControllerParams) (d : σ) : Machine (Run C σ) (Call C σ) where
  init := { ctrl := {}, dram := d }
  step := step D p

end Controller

/-! ## What a controller looks like from the queues -/

namespace Controller

def toQueues (c : Controller C) (next : ℕ) (log : List (Effect C)) : Queues C where
  clk := c.clk
  pending := c.pending.map core
  queue := fun id => (c.buf id).buffer.map core
  readLatency := c.stats.readLatency
  log := log
  next := next

structure Annotated (c c' : Controller C) : Prop where
  clk : c'.clk = c.clk
  pending : c'.pending = c.pending
  readLatency : c'.stats.readLatency = c.stats.readLatency
  buffers : ∀ id, (c'.buf id).buffer.map core = (c.buf id).buffer.map core
  maxSize : ∀ id, (c'.buf id).maxSize = (c.buf id).maxSize

theorem Annotated.refl (c : Controller C) : Annotated c c :=
  ⟨rfl, rfl, rfl, fun _ => rfl, fun _ => rfl⟩

variable {c c' : Controller C}

theorem Annotated.trans {c'' : Controller C} (h : Annotated c c') (h' : Annotated c' c'') :
    Annotated c c'' :=
  ⟨h'.clk.trans h.clk, h'.pending.trans h.pending, h'.readLatency.trans h.readLatency,
    fun id => (h'.buffers id).trans (h.buffers id), fun id => (h'.maxSize id).trans (h.maxSize id)⟩

theorem Annotated.toQueues_eq (h : Annotated c c') (next : ℕ) (log : List (Effect C)) :
    c'.toQueues next log = c.toQueues next log := by
  simp only [toQueues, h.clk, h.pending, h.readLatency, h.buffers]

theorem Annotated.size_eq (h : Annotated c c') (id : BufferId) :
    (c'.buf id).size = (c.buf id).size := by
  have := congrArg length (h.buffers id)
  simpa [size] using this

@[simp] theorem buf_setBuf (c : Controller C) (b : ReqBuffer C) (id id' : BufferId) :
    (c.setBuf b id).buf id' = if id' = id then b else c.buf id' := by
  cases id <;> cases id' <;> rfl

@[simp] theorem setBuf_clk (c : Controller C) (b : ReqBuffer C) (id : BufferId) :
    (c.setBuf b id).clk = c.clk := by cases id <;> rfl

@[simp] theorem setBuf_pending (c : Controller C) (b : ReqBuffer C) (id : BufferId) :
    (c.setBuf b id).pending = c.pending := by cases id <;> rfl

@[simp] theorem setBuf_stats (c : Controller C) (b : ReqBuffer C) (id : BufferId) :
    (c.setBuf b id).stats = c.stats := by cases id <;> rfl

theorem annotated_setBuf {b : ReqBuffer C} (id : BufferId)
    (hcore : b.buffer.map core = (c.buf id).buffer.map core)
    (hmax : b.maxSize = (c.buf id).maxSize) : Annotated c (c.setBuf b id) := by
  refine ⟨by simp, by simp, by simp, fun id' => ?_, fun id' => ?_⟩ <;>
    by_cases h : id' = id <;> simp_all

end Controller

/-! ## The scheduler -/

section

variable {D : IDRAM C σ} {p : ControllerParams} {d : σ}

theorem Request.core_withPreq (r : Request C) : (r.withPreq D d).core = r.core := rfl

namespace FRFCFS

theorem getBestRequest_spec (b : ReqBuffer C) :
    (getBestRequest D d b).2.maxSize = b.maxSize ∧
      (getBestRequest D d b).2.buffer = b.buffer.map (withPreq D d) ∧
      ∀ i r, (getBestRequest D d b).1 = some (i, r) →
        (getBestRequest D d b).2.buffer[i]? = some r := by
  unfold getBestRequest
  split
  · rename_i hnil
    refine ⟨rfl, ?_, fun i r h => by cases h⟩
    rw [hnil, map_eq_nil_iff.mp hnil]
  · rename_i r rs hcons
    refine ⟨rfl, hcons.symm, fun i r' h => ?_⟩
    have hbest := FirstLeast.scan_getElem? (prefers D d) (0, r) [r] rs rfl
    rw [length_singleton, Option.some.inj h] at hbest
    exact hbest

end FRFCFS

namespace Controller

/-- What is known of a chosen request: it stands in its buffer, its command is the prerequisite
the device names, and the device is ready for it. -/
structure ChosenOk (D : IDRAM C σ) (d : σ) (c : Controller C) (chosen : Chosen C) : Prop where
  pos : (c.buf chosen.buffer).buffer[chosen.pos]? = some chosen.req
  preq : chosen.req.command =
    chosen.req.finalCommand.map fun f => D.getPreqCommand d f chosen.req.addrVec
  ready : chosen.req.ready D d = true

variable (c : Controller C)

theorem bestOf_spec (id : BufferId) :
    Annotated c (bestOf D d c id).2 ∧
      ∀ chosen, (bestOf D d c id).1 = some chosen → ChosenOk D d (bestOf D d c id).2 chosen := by
  obtain ⟨hmax, hbuf, hpos⟩ := FRFCFS.getBestRequest_spec (D := D) (d := d) (c.buf id)
  have hann : Annotated c (c.setBuf (FRFCFS.getBestRequest D d (c.buf id)).2 id) := by
    refine annotated_setBuf _ ?_ hmax
    rw [hbuf, List.map_map]
    rfl
  unfold bestOf
  cases hbest : (FRFCFS.getBestRequest D d (c.buf id)).1 with
  | none => simp only [hbest]; exact ⟨hann, fun _ h => by cases h⟩
  | some best =>
    obtain ⟨i, r⟩ := best
    simp only [hbest]
    refine ⟨hann, fun chosen h => ?_⟩
    split at h
    · rename_i hready
      cases h
      have hget := hpos i r hbest
      refine ⟨by simpa using hget, ?_, hready⟩
      rw [hbuf, getElem?_map] at hget
      obtain ⟨r₀, -, rfl⟩ := Option.map_eq_some_iff.mp hget
      rfl
    · cases h

theorem candidate_spec :
    Annotated c (candidate D p d c).2 ∧
      ∀ chosen, (candidate D p d c).1 = some chosen →
        ChosenOk D d (candidate D p d c).2 chosen := by
  obtain ⟨hann, hok⟩ := bestOf_spec (D := D) (d := d) c .active
  unfold candidate
  split
  · rename_i chosen c' hbest
    rw [hbest] at hann hok
    exact ⟨hann, hok⟩
  · rename_i c' hbest
    rw [hbest] at hann
    split
    · rename_i head rest hpriority
      have hpriorityAnn : Annotated c' { c' with
          priorityBuffer := { c'.priorityBuffer with buffer := head.withPreq D d :: rest } } := by
        refine annotated_setBuf .priority ?_ rfl
        simp [buf, hpriority, core_withPreq]
      refine ⟨hann.trans hpriorityAnn, fun chosen h => ?_⟩
      dsimp only at h
      split at h
      · rename_i hready
        cases h
        exact ⟨rfl, rfl, hready⟩
      · cases h
    · have hmode : Annotated c' { c' with isWriteMode := c'.setWriteMode p } :=
        ⟨rfl, rfl, rfl, fun id => by cases id <;> rfl, fun id => by cases id <;> rfl⟩
      obtain ⟨hann', hok'⟩ := bestOf_spec (D := D) (d := d)
        { c' with isWriteMode := c'.setWriteMode p }
        (if c'.setWriteMode p then .write else .read)
      exact ⟨(hann.trans hmode).trans hann', hok'⟩

/-- **`schedule_request`** rewrites annotations only; a chosen request is ready and closes no row that
an active request needs. -/
theorem scheduleRequest_spec :
    Annotated c (scheduleRequest D p d c).2 ∧
      ∀ chosen, (scheduleRequest D p d c).1 = some chosen →
        ChosenOk D d (scheduleRequest D p d c).2 chosen ∧
          closesActive D (scheduleRequest D p d c).2 chosen.req = false := by
  obtain ⟨hann, hok⟩ := candidate_spec (D := D) (p := p) (d := d) c
  unfold scheduleRequest
  split
  · rename_i chosen₀ c' hcand
    rw [hcand] at hann hok
    refine ⟨hann, fun chosen h => ?_⟩
    split at h
    · cases h
    · rename_i hclose
      cases h
      exact ⟨hok chosen₀ rfl, by simpa using hclose⟩
  · rename_i c' hcand
    rw [hcand] at hann
    exact ⟨hann, fun _ h => by cases h⟩

end Controller

end

/-! ## The other phases of a cycle -/

namespace Controller

variable {D : IDRAM C σ} {p : ControllerParams} {d : σ} {c c' : Controller C}
  {effects : List (Effect C)} {lossy hazard : Bool}

def appendPriority (c : Controller C) (extra : List (Request C)) : Controller C :=
  { c with priorityBuffer :=
      { c.priorityBuffer with buffer := c.priorityBuffer.buffer ++ extra } }

variable {extra : List (Request C)} {id : BufferId} {r : Request C} {ok : Bool} {next : ℕ}
  {log : List (Effect C)}

theorem buf_appendPriority_of_ne (h : id ≠ .priority) :
    (c.appendPriority extra).buf id = c.buf id := by
  cases id <;> first | rfl | exact absurd rfl h

theorem getElem?_appendPriority {i : ℕ} (h : (c.buf id).buffer[i]? = some r) :
    ((c.appendPriority extra).buf id).buffer[i]? = some r := by
  by_cases hid : id = .priority
  · subst hid
    exact List.getElem?_append_left (List.getElem?_eq_some_iff.mp h).1 ▸ h
  · rw [buf_appendPriority_of_ne hid]
    exact h

theorem mem_buf_appendPriority (h : r ∈ ((c.appendPriority extra).buf id).buffer) :
    r ∈ (c.buf id).buffer ∨ r ∈ extra := by
  by_cases hid : id = .priority
  · subst hid
    exact mem_append.mp h
  · rw [buf_appendPriority_of_ne hid] at h
    exact .inl h

theorem ChosenOk.arrived {chosen : Chosen C} {clk : ℕ} (hok : ChosenOk D d c' chosen)
    (hann : Annotated (c.appendPriority extra) c')
    (hbefore : ∀ r ∈ (c.buf chosen.buffer).buffer, r.arrive ≤ clk)
    (hextra : ∀ r ∈ extra, r.arrive = -1) : chosen.req.arrive < ((clk + 1 : ℕ) : ℤ) := by
  have hmem : chosen.req.core ∈
      ((c.appendPriority extra).buf chosen.buffer).buffer.map core := by
    rw [← hann.buffers]
    exact List.mem_map_of_mem (mem_of_getElem? hok.pos)
  obtain ⟨r, hr, hcore⟩ := List.mem_map.mp hmem
  rw [← arrive_eq_of_core_eq hcore]
  push_cast
  rcases mem_buf_appendPriority hr with hr | hr
  · have := hbefore r hr
    omega
  · have := hextra r hr
    omega

/-- **`priority_send`** appends the request, with its final command, or nothing. -/
theorem prioritySend_spec (h : c.prioritySend D r = .ok (ok, effects, c')) :
    ∃ final, D.requestTranslations r.typeId = some final ∧
      (effects = [.accepted { r with finalCommand := some final }] ∧
          c' = c.appendPriority [{ r with finalCommand := some final }] ∨
        effects = [] ∧ c' = c) := by
  unfold prioritySend at h
  split at h
  · cases h
  · rename_i final hfinal
    refine ⟨final, hfinal, ?_⟩
    unfold enqueue at h
    by_cases hroom : c.priorityBuffer.size ≤ c.priorityBuffer.maxSize
    · simp only [hroom, if_true] at h
      cases h
      exact .inl ⟨rfl, rfl⟩
    · simp only [hroom, if_false] at h
      cases h
      exact .inr ⟨rfl, rfl⟩

theorem prioritySendAll_spec {insist : Bool} {reqs : List (Request C)}
    (h : c.prioritySendAll D insist reqs = .ok (effects, c')) :
    ∃ extra, effects = extra.map .accepted ∧ c' = c.appendPriority extra ∧
      ∀ r ∈ extra, ∃ r₀ ∈ reqs, ∃ final, D.requestTranslations r₀.typeId = some final ∧
        r = { r₀ with finalCommand := some final } := by
  induction reqs generalizing c effects with
  | nil =>
    cases h
    exact ⟨[], rfl, by simp [appendPriority], fun _ hr => by cases hr⟩
  | cons r₀ reqs ih =>
    unfold prioritySendAll at h
    split at h
    · cases h
    · rename_i ok effects₁ c₁ hsend
      split at h
      · cases h
      · split at h
        · cases h
        · rename_i effects₂ c₂ hrest
          cases h
          obtain ⟨extra, rfl, rfl, hextra⟩ := ih hrest
          obtain ⟨final, hfinal, ⟨rfl, rfl⟩ | ⟨rfl, rfl⟩⟩ := prioritySend_spec hsend
          · refine ⟨{ r₀ with finalCommand := some final } :: extra, rfl, by simp [appendPriority],
              fun r hr => ?_⟩
            rcases mem_cons.mp hr with rfl | hr
            · exact ⟨r₀, mem_cons_self, final, hfinal, rfl⟩
            · obtain ⟨r₁, hr₁, hrest⟩ := hextra r hr
              exact ⟨r₁, mem_cons_of_mem _ hr₁, hrest⟩
          · refine ⟨extra, rfl, rfl, fun r hr => ?_⟩
            obtain ⟨r₁, hr₁, hrest⟩ := hextra r hr
            exact ⟨r₁, mem_cons_of_mem _ hr₁, hrest⟩

/-! ## Each phase is a sequence of moves -/

theorem clock_moves (c : Controller C) (next : ℕ) (log : List (Effect C)) :
    Queues.Moves D p lossy hazard (c.toQueues next log)
      ({ c with clk := c.clk + 1, stats := c.countQueues }.toQueues next log) :=
  .single (Queues.Move.clock (c.toQueues next log))

theorem serveCompletedReads_moves (c : Controller C) (next : ℕ) (log : List (Effect C)) :
    Queues.Moves D p lossy hazard (c.toQueues next log)
      ((c.serveCompletedReads p).2.toQueues next (recordAll (c.serveCompletedReads p).1 log)) := by
  unfold serveCompletedReads
  split
  · exact .refl
  · rename_i r rest hpending
    split
    · rename_i hdue
      refine .single ?_
      have hmove : Queues.Move D p lossy hazard _ _ := .complete
        (c.toQueues next log) r.core (rest.map core) (by simp [toQueues, hpending]) hdue
      exact hmove
    · exact .refl

theorem serveCompletedReads_frame (c : Controller C) :
    (c.serveCompletedReads p).2.clk = c.clk ∧
      ∀ id, (c.serveCompletedReads p).2.buf id = c.buf id := by
  unfold serveCompletedReads
  split
  · exact ⟨rfl, fun _ => rfl⟩
  · split
    · exact ⟨rfl, fun id => by cases id <;> rfl⟩
    · exact ⟨rfl, fun _ => rfl⟩

theorem prioritySend_moves (h : c.prioritySend D (r.fresh next) = .ok (ok, effects, c')) :
    Queues.Moves D p lossy hazard (c.toQueues next log)
      (c'.toQueues (next + 1) (recordAll effects log)) := by
  obtain ⟨final, -, ⟨rfl, rfl⟩ | ⟨rfl, rfl⟩⟩ := prioritySend_spec h
  · refine .single ?_
    have hmove : Queues.Move D p lossy hazard _ _ := .accept
      (c.toQueues next log) .priority { r.fresh next with finalCommand := some final }
      ⟨rfl, rfl, by decide, fun _ => rfl, by simp, by simp⟩
    convert hmove using 1
    refine Queues.ext rfl rfl ?_ rfl rfl rfl
    funext id
    cases id <;> simp [toQueues, buf, appendPriority, Queues.record, update, core,
      fresh]
  · exact .single (Queues.Move.refuse _)

theorem prioritySendAll_moves {insist : Bool} {reqs : List (Request C)}
    (h : c.prioritySendAll D insist (freshAll next reqs) = .ok (effects, c')) :
    Queues.Moves D p lossy hazard (c.toQueues next log)
      (c'.toQueues (next + reqs.length) (recordAll effects log)) := by
  induction reqs generalizing c effects next log with
  | nil => cases h; exact .refl
  | cons r reqs ih =>
    unfold freshAll prioritySendAll at h
    split at h
    · cases h
    · rename_i ok effects₁ c₁ hsend
      split at h
      · cases h
      · split at h
        · cases h
        · rename_i effects₂ c₂ hrest
          cases h
          rw [recordAll_append, length_cons, Nat.add_comm reqs.length, ← Nat.add_assoc]
          exact (prioritySend_moves hsend).trans (ih hrest)

inductive SendCases (D : IDRAM C σ) (c : Controller C) (r : Request C) :
    List (Effect C) → Controller C → Prop
  | forwarded {final : C} {stats : ControllerStats} :
      stats.readLatency = c.stats.readLatency → D.requestTranslations r.typeId = some final →
      r.typeId = typeRead → (∃ w ∈ c.writeBuffer.buffer, w.addr = r.addr) →
      SendCases D c r [.forwarded { r with finalCommand := some final, depart := c.clk + 1 }]
        { c with
          stats := stats
          pending := c.pending ++ [{ r with finalCommand := some final, depart := c.clk + 1 }] }
  | read {final : C} {stats : ControllerStats} :
      stats.readLatency = c.stats.readLatency → D.requestTranslations r.typeId = some final →
      r.typeId = typeRead → (∀ w ∈ c.writeBuffer.buffer, w.addr ≠ r.addr) →
      SendCases D c r [.accepted { r with finalCommand := some final, arrive := c.clk }]
        { c with
          stats := stats
          readBuffer := { c.readBuffer with
            buffer := c.readBuffer.buffer ++
              [{ r with finalCommand := some final, arrive := c.clk }] } }
  | write {final : C} {stats : ControllerStats} :
      stats.readLatency = c.stats.readLatency → D.requestTranslations r.typeId = some final →
      r.typeId = typeWrite →
      SendCases D c r [.accepted { r with finalCommand := some final, arrive := c.clk }]
        { c with
          stats := stats
          writeBuffer := { c.writeBuffer with
            buffer := c.writeBuffer.buffer ++
              [{ r with finalCommand := some final, arrive := c.clk }] } }
  | refused {stats : ControllerStats} : stats.readLatency = c.stats.readLatency →
      SendCases D c r [] { c with stats := stats }

theorem countRequest_readLatency (s : ControllerStats) (typeId : ℕ) :
    (countRequest s typeId).readLatency = s.readLatency := by
  unfold countRequest
  split
  · rfl
  · split <;> rfl

theorem send_cases (h : c.send D r = .ok (ok, effects, c')) : SendCases D c r effects c' := by
  have hstats := countRequest_readLatency c.stats r.typeId
  unfold send at h
  split at h
  · cases h
  · rename_i final hfinal
    dsimp only at h
    split at h
    · rename_i hforward
      cases h
      obtain ⟨htype, hany⟩ := hforward
      exact .forwarded hstats hfinal htype (by simpa using hany)
    · rename_i hforward
      split at h
      · rename_i htype
        have hnone : ∀ w ∈ c.writeBuffer.buffer, w.addr ≠ r.addr := by
          simpa [htype] using hforward
        unfold enqueue at h
        by_cases hroom : c.readBuffer.size ≤ c.readBuffer.maxSize
        · simp only [hroom, if_true] at h
          cases h
          exact .read hstats hfinal htype hnone
        · simp only [hroom, if_false] at h
          cases h
          exact .refused hstats
      · split at h
        · rename_i htype
          unfold enqueue at h
          by_cases hroom : c.writeBuffer.size ≤ c.writeBuffer.maxSize
          · simp only [hroom, if_true] at h
            cases h
            exact .write hstats hfinal htype
          · simp only [hroom, if_false] at h
            cases h
            exact .refused hstats
        · cases h

/-- A read is not queued behind an active write to its address. -/
def NoHazard (c : Controller C) (r : Request C) : Prop :=
  r.typeId = typeRead → (∀ w ∈ c.writeBuffer.buffer, w.addr ≠ r.addr) →
    ∀ w ∈ c.activeBuffer.buffer, w.typeId = typeWrite → w.addr ≠ r.addr

theorem send_moves (hhazard : hazard = false → c.NoHazard r)
    (h : c.send D (r.fresh next) = .ok (ok, effects, c')) :
    Queues.Moves D p lossy hazard (c.toQueues next log)
      (c'.toQueues (next + 1) (recordAll effects log)) := by
  cases send_cases h with
  | @forwarded final stats hstats _ htype _ =>
    refine .single ?_
    have hmove : Queues.Move D p lossy hazard _ _ := .forward
      (c.toQueues next log) { r.fresh next with finalCommand := some final, depart := c.clk + 1 }
      rfl htype rfl rfl
    convert hmove using 1
    refine Queues.ext rfl ?_ ?_ hstats rfl rfl
    · simp [toQueues, Queues.record, core, fresh]
    · funext id
      cases id <;> rfl
  | @read final stats hstats _ htype hnone =>
    refine .single ?_
    have hmove : Queues.Move D p lossy hazard _ _ := .accept
      (c.toQueues next log) .read { r.fresh next with finalCommand := some final, arrive := c.clk }
      ⟨rfl, rfl, by decide, by simp, fun _ => ⟨htype, rfl, ?_, fun hh => ?_⟩, by simp⟩
    · convert hmove using 1
      refine Queues.ext rfl rfl ?_ hstats rfl rfl
      funext id
      cases id <;> simp [toQueues, buf, Queues.record, update, core,
        fresh]
    · simpa [toQueues, buf, core] using hnone
    · have := hhazard hh htype hnone
      simpa [toQueues, buf, core, fresh] using this
  | @write final stats hstats _ htype =>
    refine .single ?_
    have hmove : Queues.Move D p lossy hazard _ _ := .accept
      (c.toQueues next log) .write { r.fresh next with finalCommand := some final, arrive := c.clk }
      ⟨rfl, rfl, by decide, by simp, by simp, fun _ => ⟨htype, rfl⟩⟩
    convert hmove using 1
    refine Queues.ext rfl rfl ?_ hstats rfl rfl
    funext id
    cases id <;> simp [toQueues, buf, Queues.record, update, core, fresh]
  | refused hstats =>
    refine .single ?_
    have hmove : Queues.Move D p lossy hazard _ _ := .refuse
      (c.toQueues next log)
    convert hmove using 1
    refine Queues.ext rfl rfl ?_ hstats rfl rfl
    funext id
    cases id <;> rfl

theorem updateRequestStats_readLatency (s : ControllerStats) (r : Request C) :
    (updateRequestStats D d s r).readLatency = s.readLatency := by
  unfold updateRequestStats
  split
  · rfl
  · dsimp only
    split
    · rfl
    · split <;> rfl

theorem annotated_setReq {pos : ℕ} {r' : Request C} (h : (c.buf id).buffer[pos]? = some r)
    (hcore : r'.core = r.core) : Annotated c (c.setReq id pos r') := by
  refine annotated_setBuf _ ?_ rfl
  obtain ⟨hlt, hget⟩ := List.getElem?_eq_some_iff.mp h
  have hlt' : pos < ((c.buf id).buffer.map core).length := by simpa using hlt
  have hself : r'.core = ((c.buf id).buffer.map core)[pos] := by
    rw [getElem_map, hget, hcore]
  rw [map_set, hself, set_getElem_self hlt']

theorem annotated_setStats (c : Controller C) (stats : ControllerStats)
    (h : stats.readLatency = c.stats.readLatency) : Annotated c { c with stats := stats } :=
  ⟨rfl, rfl, h, fun id => by cases id <;> rfl, fun id => by cases id <;> rfl⟩

theorem countServed_spec {chosen : Chosen C}
    (h : (c.buf chosen.buffer).buffer[chosen.pos]? = some chosen.req) :
    Annotated c (countServed D d c chosen).2 ∧
      ((countServed D d c chosen).2.buf chosen.buffer).buffer[chosen.pos]? =
        some (countServed D d c chosen).1 ∧
      (countServed D d c chosen).1.core = chosen.req.core ∧
      (countServed D d c chosen).1.command = chosen.req.command := by
  unfold countServed
  split
  · exact ⟨Annotated.refl c, h, rfl, rfl⟩
  · have hset : Annotated c
        (c.setReq chosen.buffer chosen.pos { chosen.req with isStatUpdated := true }) :=
      annotated_setReq h rfl
    have hstats := annotated_setStats
      (c.setReq chosen.buffer chosen.pos { chosen.req with isStatUpdated := true })
      (updateRequestStats D d c.stats chosen.req)
      ((updateRequestStats_readLatency c.stats chosen.req).trans (by simp [setReq]))
    refine ⟨hset.trans hstats, ?_, rfl, rfl⟩
    obtain ⟨hlt, -⟩ := List.getElem?_eq_some_iff.mp h
    have hbuf : ({ c.setReq chosen.buffer chosen.pos { chosen.req with isStatUpdated := true } with
        stats := updateRequestStats D d c.stats chosen.req }.buf chosen.buffer).buffer =
        (c.buf chosen.buffer).buffer.set chosen.pos
          ({ chosen.req with isStatUpdated := true } : Request C) := by
      cases hb : chosen.buffer <;> simp [setReq, setBuf, buf]
    rw [hbuf, getElem?_set_self hlt]

theorem toQueues_setBuf (c : Controller C) (b : ReqBuffer C) (id : BufferId) (next : ℕ)
    (log : List (Effect C)) :
    (c.setBuf b id).toQueues next log =
      (c.toQueues next log).setQueue id (b.buffer.map core) := by
  refine Queues.ext (by simp [toQueues, Queues.setQueue]) (by simp [toQueues, Queues.setQueue]) ?_
    (by simp [toQueues, Queues.setQueue]) rfl rfl
  funext id'
  by_cases h : id' = id
  · subst h; simp [toQueues]
  · simp [toQueues, h]

theorem toQueues_remove (c : Controller C) (id : BufferId) (pos next : ℕ) (log : List (Effect C)) :
    (c.setBuf ((c.buf id).remove pos) id).toQueues next log =
      (c.toQueues next log).setQueue id (((c.toQueues next log).queue id).eraseIdx pos) := by
  rw [toQueues_setBuf]
  simp [remove, toQueues, eraseIdx_map]

section

variable [DecidableEq C]

variable {next : ℕ} {log : List (Effect C)}

variable (hroom : lossy = false → c.activeBuffer.size ≤ c.activeBuffer.maxSize)
include hroom

/-- **Part 4 of `tick`** is one move: the request stays, finishes, becomes active, or is lost. -/
theorem afterIssue_moves {chosen : Chosen C} {r : Request C} {cmd : C}
    (hpos : (c.buf chosen.buffer).buffer[chosen.pos]? = some r) (hcmd : r.command = some cmd)
    (harrive : r.arrive < c.clk) :
    Queues.Moves D p lossy hazard (c.toQueues next log)
      ((afterIssue D c chosen r cmd).toQueues next (recordAll [.issued cmd r] log)) := by
  have hget : ((c.toQueues next log).queue chosen.buffer)[chosen.pos]? = some r.core := by
    simp [toQueues, hpos]
  refine .single ?_
  unfold afterIssue
  split
  · rename_i hfinal
    have hfinal : r.core.finalCommand = some cmd := (hfinal.symm.trans hcmd)
    dsimp only
    split
    · rename_i htype
      have hmove : Queues.Move D p lossy hazard _ _ := .finishRead
        _ _ _ _ _ hget hfinal htype harrive
      convert hmove using 1
      rw [toQueues_remove]
      refine Queues.ext rfl ?_ ?_ rfl rfl rfl
      · simp [toQueues, Queues.record, core]
      · cases chosen.buffer <;> rfl
    · rename_i htype
      have hmove : Queues.Move D p lossy hazard _ _ := .finish
        _ _ _ _ _ hget hfinal htype
      convert hmove using 1
      rw [toQueues_remove]
      rfl
  · rename_i hfinal
    have hfinal : r.core.finalCommand ≠ some cmd := fun h => hfinal (hcmd.trans h.symm)
    split
    · by_cases hfits : c.activeBuffer.size ≤ c.activeBuffer.maxSize
      · have hmove : Queues.Move D p lossy hazard _ _ := .activate
          _ _ _ _ _ hget hfinal
        convert hmove using 1
        rw [enqueue_of_le hfits, toQueues_remove]
        have hactive : ({ c with activeBuffer :=
            { c.activeBuffer with buffer := c.activeBuffer.buffer ++ [r] } } : Controller C).toQueues
              next (recordAll [.issued cmd r] log) =
            ((c.toQueues next log).setQueue .active
              ((c.toQueues next log).queue .active ++ [r.core])).record (.issued cmd r.core) := by
          have := toQueues_setBuf c { c.activeBuffer with buffer := c.activeBuffer.buffer ++ [r] }
            .active next (recordAll [.issued cmd r] log)
          simpa [setBuf, toQueues, buf, Queues.record, Queues.setQueue, recordAll, Effect.core]
            using this
        rw [hactive]
        rfl
      · have hlossy : lossy = true := by
          cases lossy
          · exact absurd (hroom rfl) hfits
          · rfl
        have hmove : Queues.Move D p lossy hazard _ _ := .lose
          _ _ _ _ _ hlossy hget hfinal
        convert hmove using 1
        rw [enqueue_of_lt (Nat.lt_of_not_le hfits), toQueues_remove]
        rfl
    · exact Queues.Move.keep _ _ _ _ _ hget hfinal

omit hroom in
theorem afterIssue_sublist (chosen : Chosen C) (r : Request C) (cmd : C) (id : BufferId) :
    ((afterIssue D c chosen r cmd).buf id).buffer.Sublist ((c.buf id).buffer ++
      if id = .active ∧ r.command ≠ r.finalCommand ∧ (D.commandMeta cmd).isOpening then [r]
      else []) := by
  have hremove : ∀ c : Controller C,
      ((c.setBuf ((c.buf chosen.buffer).remove chosen.pos) chosen.buffer).buf id).buffer.Sublist
        (c.buf id).buffer := by
    intro c
    by_cases hid : id = chosen.buffer
    · subst hid
      simpa [remove] using eraseIdx_sublist ..
    · simp [hid]
  unfold afterIssue
  split
  · refine (hremove _).trans ?_
    split <;> cases id <;> exact sublist_append_left ..
  · rename_i hfinal
    split
    · rename_i hopening
      refine (hremove _).trans ?_
      cases id with
      | active =>
        rw [if_pos ⟨rfl, hfinal, hopening⟩]
        unfold enqueue
        split
        · exact .refl _
        · exact sublist_append_left ..
      | _ => exact sublist_append_left ..
    · exact sublist_append_left ..

theorem serve_moves {chosen : Chosen C}
    (hpos : (c.buf chosen.buffer).buffer[chosen.pos]? = some chosen.req)
    (harrive : chosen.req.arrive < c.clk) :
    Queues.Moves D p lossy hazard (c.toQueues next log)
      ((serve D d c chosen).2.2.toQueues next (recordAll (serve D d c chosen).2.1 log)) := by
  obtain ⟨hann, hpos', hcore, -⟩ := countServed_spec (D := D) (d := d) hpos
  rw [← hann.toQueues_eq next log]
  have hroom' : lossy = false → (countServed D d c chosen).2.activeBuffer.size ≤
      (countServed D d c chosen).2.activeBuffer.maxSize := by
    intro hl
    have hsize : (countServed D d c chosen).2.activeBuffer.size = c.activeBuffer.size :=
      hann.size_eq .active
    have hmax : (countServed D d c chosen).2.activeBuffer.maxSize = c.activeBuffer.maxSize :=
      hann.maxSize .active
    rw [hsize, hmax]
    exact hroom hl
  unfold serve
  cases hcmd : (countServed D d c chosen).1.command with
  | none => simp only [hcmd]; exact .refl
  | some cmd =>
    simp only [hcmd]
    refine afterIssue_moves hroom' hpos' hcmd ?_
    rw [hann.clk, arrive_eq_of_core_eq hcore]
    exact harrive

omit hroom in
/-- Completions, refreshes, a choice, requests of the policies, and the service of the choice. -/
theorem tick_phases {refreshReqs policyReqs : List (Request C)} {d' : σ}
    (h : c.tick D p d refreshReqs policyReqs = .ok (d', effects, c')) :
    ∃ c₁ served refreshed sent c₂ c₃ chosen,
      { c with clk := c.clk + 1, stats := c.countQueues }.serveCompletedReads p = (served, c₁) ∧
      c₁.prioritySendAll D true refreshReqs = .ok (refreshed, c₂) ∧
      (scheduleRequest D p d c₂).1 = chosen ∧
      (scheduleRequest D p d c₂).2.prioritySendAll D false policyReqs = .ok (sent, c₃) ∧
      (chosen = none ∧ d' = d ∧ effects = served ++ refreshed ++ sent ∧ c' = c₃ ∨
        ∃ ch, chosen = some ch ∧ d' = (serve D d c₃ ch).1 ∧
          effects = served ++ refreshed ++ sent ++ (serve D d c₃ ch).2.1 ∧
          c' = (serve D d c₃ ch).2.2) := by
  unfold tick at h
  dsimp only at h
  split at h
  · cases h
  · rename_i refreshed c₂ hrefresh
    split at h
    · cases h
    · rename_i sent c₃ hsent
      refine ⟨_, _, refreshed, sent, c₂, c₃, _, rfl, hrefresh, rfl, hsent, ?_⟩
      split at h
      · rename_i hnone
        cases h
        exact .inl ⟨hnone, rfl, rfl, rfl⟩
      · rename_i ch hsome
        cases h
        exact .inr ⟨ch, hsome, rfl, rfl, rfl⟩

theorem tick_moves {refreshReqs policyReqs : List (Request C)} {d' : σ}
    (harrived : ∀ id, ∀ r ∈ (c.buf id).buffer, r.arrive ≤ c.clk)
    (h : c.tick D p d (freshAll next refreshReqs) (freshAll (next + refreshReqs.length) policyReqs) =
      .ok (d', effects, c')) :
    Queues.Moves D p lossy hazard (c.toQueues next log)
      (c'.toQueues (next + refreshReqs.length + policyReqs.length) (recordAll effects log)) := by
  obtain ⟨c₁, served, refreshed, sent, c₂, c₃, chosen, hserved, hrefresh, hchosen, hsent, hrest⟩ :=
    tick_phases h
  obtain ⟨hann, hok⟩ := scheduleRequest_spec (D := D) (p := p) (d := d) c₂
  have hmoves : Queues.Moves D p lossy hazard (c.toQueues next log)
      (c₃.toQueues (next + refreshReqs.length + policyReqs.length)
        (recordAll (served ++ refreshed ++ sent) log)) := by
    rw [recordAll_append, recordAll_append]
    refine (clock_moves c next log).trans ?_
    have hcompleted : Queues.Moves D p lossy hazard _ _ := serveCompletedReads_moves
      { c with clk := c.clk + 1, stats := c.countQueues } next log
    rw [hserved] at hcompleted
    refine (hcompleted.trans (prioritySendAll_moves hrefresh)).trans ?_
    rw [← hann.toQueues_eq]
    exact prioritySendAll_moves hsent
  rcases hrest with ⟨-, -, rfl, rfl⟩ | ⟨ch, hch, -, rfl, rfl⟩
  · exact hmoves
  · rw [recordAll_append]
    obtain ⟨hchosenOk, -⟩ := hok ch (hchosen.trans hch)
    obtain ⟨extra, -, rfl, -⟩ := prioritySendAll_spec hsent
    obtain ⟨extra', -, rfl, hextra'⟩ := prioritySendAll_spec hrefresh
    have hserved' := serveCompletedReads_frame (p := p)
      { c with clk := c.clk + 1, stats := c.countQueues }
    rw [hserved] at hserved'
    obtain ⟨hclk, hbuf⟩ := hserved'
    refine hmoves.trans (serve_moves (fun hl => ?_) (getElem?_appendPriority hchosenOk.pos) ?_)
    · -- nothing before the service touches the active buffer
      have hsize := hann.size_eq .active
      have hmax := hann.maxSize .active
      rw [buf_appendPriority_of_ne (by decide), hbuf] at hsize hmax
      have := hroom hl
      show (scheduleRequest D p d (c₁.appendPriority extra')).2.activeBuffer.size ≤
        (scheduleRequest D p d (c₁.appendPriority extra')).2.activeBuffer.maxSize
      exact hsize ▸ hmax ▸ this
    · have hclk' : (scheduleRequest D p d (c₁.appendPriority extra')).2.clk = c.clk + 1 :=
        hann.clk.trans hclk
      show ch.req.arrive < ((scheduleRequest D p d (c₁.appendPriority extra')).2.clk : ℤ)
      rw [hclk']
      refine hchosenOk.arrived hann (fun r hr => ?_) fun r hr => ?_
      · rw [hbuf] at hr
        exact harrived ch.buffer r hr
      · obtain ⟨r₀, hr₀, final, -, rfl⟩ := hextra' r hr
        exact (arrive_of_mem_freshAll hr₀ : r₀.arrive = -1)

end

end Controller

/-! ## Each call is a sequence of moves -/

namespace Run

variable [DecidableEq C] {D : IDRAM C σ} {p : ControllerParams}

def queues (s : Run C σ) : Queues C := s.ctrl.toQueues s.next s.log

def ActiveHasRoom (s : Run C σ) : Prop := s.ctrl.activeBuffer.size ≤ s.ctrl.activeBuffer.maxSize

inductive StepCases (D : IDRAM C σ) (p : ControllerParams) (s : Run C σ) :
    Call C σ → Run C σ → Prop
  | send {r : Request C} {ok : Bool} {effects : List (Effect C)} {c : Controller C} :
      s.ctrl.send D (r.fresh s.next) = .ok (ok, effects, c) →
      StepCases D p s (.send r)
        { s with ctrl := c, next := s.next + 1, log := recordAll effects s.log }
  | prioritySend {r : Request C} {ok : Bool} {effects : List (Effect C)} {c : Controller C} :
      s.ctrl.prioritySend D (r.fresh s.next) = .ok (ok, effects, c) →
      StepCases D p s (.prioritySend r)
        { s with ctrl := c, next := s.next + 1, log := recordAll effects s.log }
  | tick {refreshReqs policyReqs : List (Request C)} {d : σ} {effects : List (Effect C)}
      {c : Controller C} :
      s.ctrl.tick D p s.dram (freshAll s.next refreshReqs)
        (freshAll (s.next + refreshReqs.length) policyReqs) = .ok (d, effects, c) →
      StepCases D p s (.tick refreshReqs policyReqs)
        ⟨c, d, s.next + refreshReqs.length + policyReqs.length, recordAll effects s.log⟩
  | device {f : σ → σ} : StepCases D p s (.device f) { s with dram := f s.dram }

variable {s : Run C σ}

/-- Each call is a sequence of moves of the five queues. -/
theorem step_cases {s' : Run C σ} {call : Call C σ} (h : step D p s call = some s') :
    StepCases D p s call s' := by
  cases call with
  | send r =>
    simp only [step] at h
    split at h
    · cases h
    · rename_i hsend
      cases h
      exact .send hsend
  | prioritySend r =>
    simp only [step] at h
    split at h
    · cases h
    · rename_i hsend
      cases h
      exact .prioritySend hsend
  | tick refreshReqs policyReqs =>
    simp only [step] at h
    split at h
    · cases h
    · rename_i htick
      cases h
      exact .tick htick
  | device f =>
    cases h
    exact .device

/-- **The controller refines the five queues.** -/
theorem step_moves {lossy hazard : Bool} {s' : Run C σ} {call : Call C σ}
    (hroom : lossy = false → (∃ refreshReqs policyReqs, call = .tick refreshReqs policyReqs) →
      s.ActiveHasRoom)
    (hhazard : hazard = false → ∀ r, call = .send r → s.ctrl.NoHazard r)
    (harrived : s.queues.ArrivedInPast) (h : step D p s call = some s') :
    Queues.Moves D p lossy hazard s.queues s'.queues := by
  cases step_cases h with
  | send hsend => exact send_moves (fun hh => hhazard hh _ rfl) hsend
  | prioritySend hsend => exact prioritySend_moves hsend
  | tick htick =>
    refine tick_moves (fun hl => hroom hl ⟨_, _, rfl⟩) ?_ htick
    intro id r hr
    exact harrived id r.core (List.mem_map_of_mem hr)
  | device => exact .refl

/-- A property of the queues that every move keeps holds throughout every permitted run. -/
theorem queues_invariant (lossy hazard : Bool) {ok : Run C σ → Call C σ → Prop} {d : σ}
    {P : Queues C → Prop}
    (hroom : lossy = false → ∀ s refreshReqs policyReqs,
      ok s (.tick refreshReqs policyReqs) → s.ActiveHasRoom)
    (hhazard : hazard = false → ∀ s r, ok s (.send r) → s.ctrl.NoHazard r)
    (h0 : P (Run.queues { ctrl := {}, dram := d }))
    (hmove : ∀ q q', P q → Queues.Move D p lossy hazard q q' → P q')
    (h : (machine D p d).ReachableWhen ok s) : P s.queues := by
  have hboth : P s.queues ∧ s.queues.ArrivedInPast := by
    refine h.invariant (P := fun s => P s.queues ∧ s.queues.ArrivedInPast) ⟨h0, ?_⟩ ?_
    · intro id r hr
      cases id <;> cases hr
    intro s call s' hs hok hstep
    refine Queues.Moves.invariant (P := fun q => P q ∧ q.ArrivedInPast)
      (fun q q' hq hqq' => ⟨hmove q q' hq.1 hqq', Queues.move_arrivedInPast hq.2 hqq'⟩)
      (step_moves ?_ ?_ hs.2 hstep) hs
    · rintro hl ⟨refreshReqs, policyReqs, rfl⟩
      exact hroom hl s refreshReqs policyReqs hok
    · rintro hh r rfl
      exact hhazard hh s r hok
  exact hboth.1

end Run

end MultiCoreMemory
