import MultiCoreMemory.Frontend.InstWindow
import MultiCoreMemory.Lib.Machine

/-!
# A core issues its trace

What a core does to the outside is a sequence of events: non-memory instructions enter the window, and
requests are accepted by the memory system.
-/

namespace MultiCoreMemory

open InstWindow SimpleO3Core List Option

variable {C τ : Type}

/-! ## Events -/

/-- A non-memory instruction enters the window, or a request for an address of the trace is accepted. -/
inductive TraceEvent where
  | bubble
  | request (addr : ℤ) (typeId : ℕ)
  deriving DecidableEq, Repr

namespace TraceEvent

def request? : TraceEvent → Option (ℤ × ℕ)
  | .bubble => none
  | .request addr typeId => some (addr, typeId)

end TraceEvent

variable (trace : List Inst) (lines bubbles : ℕ) (loadAddr storeAddr : ℤ)

def lineRequests : List (ℤ × ℕ) :=
  (if loadAddr ≠ -1 then [(loadAddr, typeRead)] else []) ++
    (if storeAddr ≠ -1 then [(storeAddr, typeWrite)] else [])

def lineEvents : List TraceEvent :=
  List.replicate bubbles .bubble ++
    (lineRequests loadAddr storeAddr).map fun r => .request r.1 r.2

def cyclicLine (k : ℕ) : Inst := trace.getD (k % trace.length) {}

def traceEvents : List TraceEvent :=
  (List.range lines).flatMap fun k =>
    lineEvents (cyclicLine trace k).bubbleCount (cyclicLine trace k).loadAddr
      (cyclicLine trace k).storeAddr

def traceRequests : List (ℤ × ℕ) :=
  (List.range lines).flatMap fun k =>
    lineRequests (cyclicLine trace k).loadAddr (cyclicLine trace k).storeAddr

theorem filterMap_lineEvents :
    (lineEvents bubbles loadAddr storeAddr).filterMap TraceEvent.request? =
      lineRequests loadAddr storeAddr := by
  have hbubbles : (replicate bubbles TraceEvent.bubble).filterMap TraceEvent.request? = [] := by
    rw [filterMap_replicate]
    rfl
  rw [lineEvents, filterMap_append, hbubbles, nil_append, filterMap_map]
  exact filterMap_some

theorem filterMap_traceEvents :
    (traceEvents trace lines).filterMap TraceEvent.request? = traceRequests trace lines := by
  rw [traceEvents, filterMap_flatMap]
  simp only [filterMap_lineEvents]
  rfl

theorem traceEvents_succ :
    traceEvents trace (lines + 1) = traceEvents trace lines ++
      lineEvents (cyclicLine trace lines).bubbleCount (cyclicLine trace lines).loadAddr
        (cyclicLine trace lines).storeAddr := by
  rw [traceEvents, range_succ, flatMap_append, ← traceEvents, flatMap_singleton]

/-! ## Recording -/

/-- The translation, keeping the request it was asked for. -/
def recorded (translate : Translate C τ) : Translate C (τ × Option (Request C)) :=
  fun req t => (translate req t.1).map fun r => (r.1, r.2.1, (r.2.2, some req))

namespace SimpleO3Core

variable {translate : Translate C τ} {accept : Bool} {c c' : SimpleO3Core} {t t' : τ}
  {asked : Option (Request C)} {attempt : Option (Attempt C)}

def forget (r : SimpleO3Core × (τ × Option (Request C)) × Option (Attempt C)) :
    SimpleO3Core × τ × Option (Attempt C) := (r.1, r.2.1.1, r.2.2)

theorem sendLoad_recorded (translate : Translate C τ) (accept : Bool) (c : SimpleO3Core) (inserted : ℕ)
    (t : τ) (asked : Option (Request C)) :
    (c.sendLoad (recorded translate) accept inserted (t, asked)).map forget =
      c.sendLoad translate accept inserted t := by
  unfold sendLoad recorded
  split
  · rfl
  split
  · rfl
  cases translate (c.request c.loadAddr typeRead) t with
  | none => rfl
  | some r =>
    obtain ⟨ok, req, t'⟩ := r
    cases ok with
    | false => rfl
    | true =>
      cases accept with
      | false => rfl
      | true =>
        simp only [map_some, if_true]
        split <;> rfl

theorem sendWriteback_recorded (translate : Translate C τ) (accept : Bool) (c : SimpleO3Core) (t : τ)
    (asked : Option (Request C)) :
    (c.sendWriteback (recorded translate) accept (t, asked)).map forget =
      c.sendWriteback translate accept t := by
  unfold sendWriteback recorded
  split
  · cases translate (c.request c.writebackAddr typeWrite) t with
    | none => rfl
    | some r =>
      obtain ⟨ok, req, t'⟩ := r
      cases ok with
      | false => rfl
      | true => cases accept <;> rfl
  · rfl

theorem tick_recorded (translate : Translate C τ) (accept : Bool) (c : SimpleO3Core) (t : τ)
    (asked : Option (Request C)) :
    (c.tick (recorded translate) accept (t, asked)).map forget = c.tick translate accept t := by
  unfold tick
  dsimp only
  split
  · rfl
  · split
    · exact sendLoad_recorded ..
    · exact sendWriteback_recorded ..

theorem asked_of_recorded {req req' : Request C} {ok : Bool} {t₀ : Option (Request C)}
    (h : recorded translate req (t, t₀) = some (ok, req', (t', asked))) : asked = some req := by
  obtain ⟨r, -, heq⟩ := map_eq_some_iff.mp h
  cases heq
  rfl

/-- The event of the request that the cycle has sent, if it was accepted. -/
def acceptedEvents (asked : Option (Request C)) (attempt : Option (Attempt C)) : List TraceEvent :=
  match asked, attempt with
  | some req, some ⟨_, true⟩ => [.request req.addr req.typeId]
  | _, _ => []

/-! ## What is left of a line -/

def pendingEvents (c : SimpleO3Core) : List TraceEvent :=
  lineEvents c.numBubbles c.loadAddr c.writebackAddr

/-- The events are the first of the current line; the next line is fetched if they are all of it. -/
inductive Advances (c c' : SimpleO3Core) (events : List TraceEvent) : Prop
  | within : c'.trace = c.trace → c'.currTraceIdx = c.currTraceIdx →
      events ++ c'.pendingEvents = c.pendingEvents → Advances c c' events
  | next : c'.trace = c.trace → c'.currTraceIdx = (c.currTraceIdx + 1) % c.trace.length →
      c.pendingEvents = events →
      c'.pendingEvents = lineEvents (c.trace.getD c.currTraceIdx {}).bubbleCount
        (c.trace.getD c.currTraceIdx {}).loadAddr (c.trace.getD c.currTraceIdx {}).storeAddr →
      Advances c c' events

theorem advances_nextInst {events : List TraceEvent} (h : c.pendingEvents = events) :
    Advances c c.nextInst events :=
  .next rfl rfl h rfl

theorem Advances.after_bubbles {c₀ : SimpleO3Core} {events : List TraceEvent} {k : ℕ}
    (h : Advances c c' events) (htrace : c.trace = c₀.trace)
    (hidx : c.currTraceIdx = c₀.currTraceIdx)
    (hpending : c₀.pendingEvents = List.replicate k .bubble ++ c.pendingEvents) :
    Advances c₀ c' (List.replicate k .bubble ++ events) := by
  cases h with
  | within htrace' hidx' hevents =>
    refine .within (htrace'.trans htrace) (hidx'.trans hidx) ?_
    rw [append_assoc, hevents, hpending]
  | next htrace' hidx' hevents hnext =>
    rw [htrace, hidx] at hidx' hnext
    refine .next (htrace'.trans htrace) hidx' ?_ hnext
    rw [hpending, hevents]

theorem sendLoad_advances {inserted : ℕ} (hbubbles : c.numBubbles = 0) (hload : c.loadAddr ≠ -1)
    (h : c.sendLoad (recorded translate) accept inserted (t, none) = some (c', (t', asked), attempt)) :
    Advances c c' (acceptedEvents asked attempt) ∧
      c'.window.load = c.window.load + (attempt.any fun a => a.accepted).toNat ∧
      c'.instsRetired = c.instsRetired := by
  cases sendLoad_cases h with
  | noRoom => exact ⟨.within rfl rfl rfl, rfl, rfl⟩
  | untranslated htranslate =>
    obtain rfl := asked_of_recorded htranslate
    exact ⟨.within rfl rfl rfl, rfl, rfl⟩
  | refused htranslate =>
    obtain rfl := asked_of_recorded htranslate
    exact ⟨.within rfl rfl rfl, rfl, rfl⟩
  | @accepted req _ _ htranslate =>
    obtain rfl := asked_of_recorded htranslate
    obtain ⟨hwindow, hretired⟩ := loadSent_window c req
    have hpending : c.pendingEvents =
        .request c.loadAddr typeRead :: lineEvents 0 (-1) c.writebackAddr := by
      simp [pendingEvents, lineEvents, lineRequests, hbubbles, hload]
    refine ⟨?_, by rw [hwindow]; rfl, hretired⟩
    unfold loadSent
    dsimp only
    split
    · -- the writeback is left
      refine .within rfl rfl ?_
      rw [hpending]
      simp [acceptedEvents, request, pendingEvents, hbubbles]
    · rename_i hnone
      refine .next rfl rfl ?_ rfl
      rw [hpending]
      simp only [ne_eq, not_not] at hnone
      simp [acceptedEvents, request, lineEvents, lineRequests, hnone]

theorem sendWriteback_advances (hbubbles : c.numBubbles = 0) (hload : c.loadAddr = -1)
    (h : c.sendWriteback (recorded translate) accept (t, none) = some (c', (t', asked), attempt)) :
    Advances c c' (acceptedEvents asked attempt) ∧ c'.window.load = c.window.load ∧
      c'.instsRetired = c.instsRetired := by
  cases sendWriteback_cases h with
  | noStore hnone =>
    refine ⟨advances_nextInst ?_, rfl, rfl⟩
    simp [pendingEvents, lineEvents, lineRequests, hbubbles, hload, hnone, acceptedEvents]
  | untranslated _ htranslate =>
    obtain rfl := asked_of_recorded htranslate
    exact ⟨.within rfl rfl rfl, rfl, rfl⟩
  | refused _ htranslate =>
    obtain rfl := asked_of_recorded htranslate
    exact ⟨.within rfl rfl rfl, rfl, rfl⟩
  | accepted hstore htranslate =>
    obtain rfl := asked_of_recorded htranslate
    refine ⟨advances_nextInst ?_, rfl, rfl⟩
    simp [pendingEvents, lineEvents, lineRequests, hbubbles, hload, hstore, acceptedEvents, request]

/-- **One cycle**: `k` bubbles and the accepted request are the next events of the line. -/
theorem tick_advances
    (h : c.tick (recorded translate) accept (t, none) = some (c', (t', asked), attempt)) :
    ∃ k, Advances c c' (List.replicate k .bubble ++ acceptedEvents asked attempt) ∧
      c'.window.load + c'.instsRetired =
        c.window.load + c.instsRetired + k + (c.issuesLoad attempt).toNat := by
  have hretire : c.retire.window.load + c.retire.instsRetired = c.window.load + c.instsRetired := by
    have hloop := load_retireLoop c.window.ipc c.window
    show (retireLoop c.window.ipc c.window).2.load +
      (c.instsRetired + (retireLoop c.window.ipc c.window).1) = _
    omega
  obtain ⟨hle, hload, hdone⟩ := insertBubbles_load c.retire.numBubbles 0 c.retire.window
  have hbubbles : c.retire.numBubbles = c.numBubbles := rfl
  unfold tick at h
  dsimp only at h
  obtain ⟨⟨finished, left, inserted, w⟩, hloop⟩ :
      ∃ o, insertBubbles c.retire.numBubbles 0 c.retire.window = o := ⟨_, rfl⟩
  rw [hloop] at h hle hload hdone
  dsimp only at hle hload hdone
  -- what the loop leaves
  have hpending : c.pendingEvents = replicate (c.numBubbles - left) .bubble ++
      lineEvents left c.loadAddr c.writebackAddr := by
    rw [pendingEvents, lineEvents, lineEvents, ← append_assoc, replicate_append_replicate]
    congr 2
    omega
  refine ⟨c.numBubbles - left, ?_⟩
  cases finished with
  | false =>
    cases h
    refine ⟨?_, ?_⟩
    · refine .within rfl rfl ?_
      rw [hpending, show acceptedEvents none (none : Option (Attempt C)) = [] from rfl, append_nil]
      rfl
    · simp only [issuesLoad, any_none, Bool.and_false, Bool.toNat_false]
      omega
  | true =>
    obtain rfl : left = 0 := hdone rfl
    dsimp only at h
    split at h
    · rename_i hloadAddr
      obtain ⟨hadv, hwindow, hretired⟩ := sendLoad_advances
        (c := { c.retire with window := w, numBubbles := 0 }) rfl hloadAddr h
      refine ⟨hadv.after_bubbles rfl rfl hpending, ?_⟩
      have hissues : c.issuesLoad attempt = attempt.any fun a => a.accepted := by
        have hne : c.loadAddr ≠ -1 := hloadAddr
        simp [issuesLoad, hne]
      rw [hissues, hwindow, hretired]
      dsimp only
      omega
    · rename_i hloadAddr
      have hnone : c.loadAddr = -1 := not_not.mp hloadAddr
      obtain ⟨hadv, hwindow, hretired⟩ := sendWriteback_advances
        (c := { c.retire with window := w, numBubbles := 0 }) rfl hnone h
      refine ⟨hadv.after_bubbles rfl rfl hpending, ?_⟩
      rw [hwindow, hretired]
      simp only [issuesLoad, hnone, ne_eq, not_true_eq_false, decide_false, Bool.false_and,
        Bool.toNat_false]
      omega

end SimpleO3Core

/-! ## Runs -/

structure IssueRun (τ : Type) where
  core : SimpleO3Core
  translation : τ
  log : List TraceEvent := []

inductive IssueCall (C τ : Type) where
  | tick (translate : Translate C τ) (accept : Bool)
  | receive (req : Request C)

namespace IssueRun

/-- What a cycle shows: the bubbles that entered the window, and the accepted request. -/
def afterTick (s : IssueRun τ) (c : SimpleO3Core) (t : τ) (asked : Option (Request C))
    (attempt : Option (Attempt C)) : IssueRun τ :=
  let numRetired := c.instsRetired - s.core.instsRetired
  let entered := c.window.slots.drop (s.core.window.load - numRetired)
  { core := c
    translation := t
    log := s.log ++ (List.replicate (entered.count bubble) .bubble ++
      acceptedEvents asked attempt) }

def step (s : IssueRun τ) : IssueCall C τ → Option (IssueRun τ)
  | .tick translate accept =>
    (s.core.tick (recorded translate) accept (s.translation, none)).map fun r =>
      s.afterTick r.1 r.2.1.1 r.2.1.2 r.2.2
  | .receive req => some { s with core := s.core.receive req }

def machine (C : Type) (core : SimpleO3Core) (t : τ) : Machine (IssueRun τ) (IssueCall C τ) where
  init := { core := core, translation := t }
  step := step

/-- The events so far and the rest of the current line are the first lines of the trace. -/
structure Follows (trace : List Inst) (s : IssueRun τ) : Prop where
  window : WellFormed s.core.window
  trace_eq : s.core.trace = trace
  lines : ∃ lines, s.core.currTraceIdx = lines % trace.length ∧
    s.log ++ s.core.pendingEvents = traceEvents trace lines

variable {trace : List Inst} {s : IssueRun τ}

theorem follows_create (id ipc depth numExpectedInsts : ℕ) (trace : List Inst) (t : τ) :
    Follows trace { core := create id ipc depth numExpectedInsts trace, translation := t } where
  window := wellFormed_create ipc depth
  trace_eq := rfl
  lines := by
    refine ⟨1, rfl, ?_⟩
    have hfirst : cyclicLine trace 0 = trace.getD 0 {} := by
      rw [cyclicLine, Nat.zero_mod]
    rw [traceEvents_succ, hfirst]
    rfl

theorem count_entered {translate : Translate C τ} {accept : Bool} {c : SimpleO3Core} {t : τ}
    {asked : Option (Request C)} {attempt : Option (Attempt C)} {k : ℕ} (h : WellFormed s.core.window)
    (htick : s.core.tick (recorded translate) accept (s.translation, none) =
      some (c, (t, asked), attempt))
    (hload : c.window.load + c.instsRetired =
      s.core.window.load + s.core.instsRetired + k + (s.core.issuesLoad attempt).toNat) :
    (c.window.slots.drop (s.core.window.load - (c.instsRetired - s.core.instsRetired))).count
      bubble = k := by
  obtain ⟨-, hretired, k', loads, hslots, hadded⟩ := tick_slots h htick
  have hle := retired_le_length s.core.window.ipc s.core.window.slots
  have hdrop : (s.core.window.slots.drop (retired s.core.window.ipc s.core.window.slots)).length =
      s.core.window.load - (c.instsRetired - s.core.instsRetired) := by
    rw [length_drop, length_slots, hretired, Nat.add_sub_cancel_left]
  have hcount : loads.count bubble = 0 ∧
      loads.length = (s.core.issuesLoad attempt).toNat := by
    cases hadded with
    | none hissues => exact ⟨rfl, by rw [hissues]; rfl⟩
    | load hissues => exact ⟨by simp [bubble], by rw [hissues]; rfl⟩
  have hlength := congrArg length hslots
  rw [length_append, length_append, length_replicate, length_slots, hdrop,
    hcount.2] at hlength
  rw [length_slots] at hle
  rw [hslots, ← hdrop, drop_left, count_append, count_replicate_self, hcount.1]
  omega

/-- **One call.** -/
theorem Follows.step (h : Follows trace s) {call : IssueCall C τ} {s' : IssueRun τ}
    (hstep : s.step call = some s') : Follows trace s' := by
  obtain ⟨lines, hidx, hlog⟩ := h.lines
  cases call with
  | tick translate accept =>
    obtain ⟨⟨c, ⟨t, asked⟩, attempt⟩, htick, rfl⟩ := map_eq_some_iff.mp hstep
    obtain ⟨k, hadv, hload⟩ := tick_advances htick
    have hevents := count_entered h.window htick hload
    have hwindow := (tick_slots h.window htick).1
    cases hadv with
    | within htrace hidx' hpending =>
      refine ⟨hwindow, htrace.trans h.trace_eq, lines, hidx'.trans hidx, ?_⟩
      simp only [afterTick]
      rw [hevents, append_assoc, hpending, hlog]
    | next htrace hidx' hpending hnext =>
      rw [h.trace_eq, hidx, Nat.mod_add_mod] at hidx'
      rw [h.trace_eq, hidx] at hnext
      refine ⟨hwindow, htrace.trans h.trace_eq, lines + 1, hidx', ?_⟩
      simp only [afterTick]
      rw [hevents, ← hpending, hlog, hnext, traceEvents_succ]
      rfl
  | receive req =>
    cases hstep
    have hsame : (s.core.receive req).trace = s.core.trace ∧
        (s.core.receive req).currTraceIdx = s.core.currTraceIdx ∧
        (s.core.receive req).pendingEvents = s.core.pendingEvents ∧
        (s.core.receive req).window = s.core.window.setReady req.addr := by
      unfold receive
      dsimp only
      split <;> exact ⟨rfl, rfl, rfl, rfl⟩
    obtain ⟨htrace, hidx', hpending, hwindow⟩ := hsame
    refine ⟨?_, htrace.trans h.trace_eq, lines, hidx'.trans hidx, ?_⟩
    · rw [hwindow]
      exact h.window.setReady req.addr
    · rw [hpending]
      exact hlog

/-- **A core issues exactly its trace.** The events of a run are a prefix of the lines of the repeated
trace, a line being its non-memory instructions, then its load, then its store; so are the accepted
requests. -/
theorem issues_exactly_its_trace (C : Type) (id ipc depth numExpectedInsts : ℕ) (trace : List Inst)
    (t : τ) (s : IssueRun τ)
    (h : (machine C (create id ipc depth numExpectedInsts trace) t).Reachable s) :
    ∃ lines, s.log <+: traceEvents trace lines ∧
      s.log.filterMap TraceEvent.request? <+: traceRequests trace lines := by
  have hfollows : Follows trace s := by
    refine h.invariant (P := Follows trace)
      (follows_create id ipc depth numExpectedInsts trace t) ?_
    intro s call s' hs _ hstep
    exact hs.step hstep
  obtain ⟨lines, -, hlog⟩ := hfollows.lines
  have hprefix : s.log <+: traceEvents trace lines := ⟨_, hlog⟩
  refine ⟨lines, hprefix, ?_⟩
  rw [← filterMap_traceEvents]
  exact hprefix.filterMap _

/-! ## A run with refusals -/

def twoLines : List Inst :=
  [{ bubbleCount := 2, loadAddr := 0, storeAddr := 64 }, { bubbleCount := 1, loadAddr := 128 }]

def translatePage : Translate Unit Unit := fun req t => some (true, { req with addr := req.addr + 4096 }, t)

/-- A load and a writeback are refused once each, with a window of two instructions. -/
theorem refused_requests_are_issued_later :
    ∃ s, (machine Unit (create 0 4 2 100 twoLines) ()).Reachable s ∧
      s.log = [.bubble, .bubble, .request 0 typeRead, .request 64 typeWrite, .bubble] ∧
      ∃ lines, s.log <+: traceEvents twoLines lines := by
  obtain ⟨s, hs, hlog⟩ := Machine.exists_reachable (m := machine Unit (create 0 4 2 100 twoLines) ())
    (P := fun s => s.log = [.bubble, .bubble, .request 0 typeRead, .request 64 typeWrite, .bubble])
    [.tick translatePage false, .tick translatePage false, .tick translatePage true,
      .tick translatePage false, .receive { addr := 4096, typeId := typeRead },
      .tick translatePage true, .tick translatePage false] (by decide +kernel)
  obtain ⟨lines, hprefix, -⟩ := issues_exactly_its_trace Unit 0 4 2 100 twoLines () s hs
  exact ⟨s, hs, hlog, lines, hprefix⟩

end IssueRun

end MultiCoreMemory
