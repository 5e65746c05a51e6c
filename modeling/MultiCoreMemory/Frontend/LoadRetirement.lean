import Mathlib.Data.List.Nodup
import MultiCoreMemory.Frontend.InstWindow
import MultiCoreMemory.Lib.Machine

/-!
# When loads retire

`receive` makes every instruction in flight ready that has the address of the served request, so one
served read can make several loads ready.
-/

namespace MultiCoreMemory

open InstWindow SimpleO3Core List

variable {C τ : Type}

/-! ## Loads in a queue -/

def waiting (slots : List (Bool × ℤ)) : List ℤ := (slots.filter fun s => !s.1).map Prod.snd

/-- The number of loads that are ready, `kinds` telling which instructions are loads. -/
def readyLoads (kinds : List Bool) (slots : List (Bool × ℤ)) : ℕ :=
  (kinds.zip slots).countP fun s => s.1 && s.2.1

theorem waiting_append (slots slots' : List (Bool × ℤ)) :
    waiting (slots ++ slots') = waiting slots ++ waiting slots' := by
  unfold waiting
  rw [filter_append, map_append]

theorem waiting_replicate_bubble (k : ℕ) : waiting (List.replicate k bubble) = [] := by
  unfold waiting
  rw [filter_replicate]
  rfl

theorem waiting_markReady (addr : ℤ) (slots : List (Bool × ℤ)) :
    waiting (slots.map (markReady addr)) = (waiting slots).filter fun a => a ≠ addr := by
  induction slots with
  | nil => rfl
  | cons s slots ih =>
    obtain ⟨ready, a⟩ := s
    unfold waiting at ih ⊢
    cases ready with
    | true => simpa [markReady] using ih
    | false =>
      by_cases ha : a = addr
      · simpa [markReady, ha] using ih
      · simpa [markReady, ha] using ih

theorem readyLoads_append {kinds : List Bool} {slots : List (Bool × ℤ)}
    (h : kinds.length = slots.length) (kinds' : List Bool) (slots' : List (Bool × ℤ)) :
    readyLoads (kinds ++ kinds') (slots ++ slots') =
      readyLoads kinds slots + readyLoads kinds' slots' := by
  unfold readyLoads
  rw [zip_append h, countP_append]

theorem readyLoads_bubbles (k : ℕ) (slots : List (Bool × ℤ)) :
    readyLoads (List.replicate k false) slots = 0 := by
  unfold readyLoads
  rw [countP_eq_zero]
  rintro ⟨kind, s⟩ hmem
  have hkind := eq_of_mem_replicate (of_mem_zip hmem).1
  simp [hkind]

theorem readyLoads_of_ready {kinds : List Bool} {slots : List (Bool × ℤ)}
    (h : kinds.length = slots.length) (hready : ∀ s ∈ slots, s.1 = true) :
    readyLoads kinds slots = kinds.count true := by
  induction kinds generalizing slots with
  | nil => rfl
  | cons kind kinds ih =>
    cases slots with
    | nil => cases h
    | cons s slots =>
      have hrest := ih (Nat.succ.inj h) fun s hs => hready s (mem_cons_of_mem _ hs)
      have hs := hready s mem_cons_self
      unfold readyLoads at hrest ⊢
      rw [zip_cons_cons, countP_cons, hrest, count_cons]
      cases kind <;> simp [hs]

/-- **`set_ready` makes at most as many loads ready as waited for the address.** -/
theorem readyLoads_markReady_le (addr : ℤ) (kinds : List Bool) (slots : List (Bool × ℤ)) :
    readyLoads kinds (slots.map (markReady addr)) ≤
      readyLoads kinds slots + (waiting slots).count addr := by
  induction slots generalizing kinds with
  | nil => simp [readyLoads]
  | cons s slots ih =>
    cases kinds with
    | nil => simp [readyLoads]
    | cons kind kinds =>
      obtain ⟨ready, a⟩ := s
      have hrest := ih kinds
      unfold readyLoads waiting at hrest ⊢
      rw [map_cons, zip_cons_cons, zip_cons_cons, countP_cons, countP_cons]
      cases ready with
      | true =>
        simp only [markReady, Bool.true_or, filter_cons, Bool.not_true] at hrest ⊢
        simp only [Bool.false_eq_true, if_false]
        omega
      | false =>
        simp only [filter_cons, Bool.not_false, if_true, map_cons, count_cons]
        by_cases ha : a = addr
        · simp only [markReady, ha, decide_true, Bool.or_true, Bool.and_false, Bool.false_eq_true,
            if_false, beq_self_eq_true, if_true]
          split <;> omega
        · simp only [markReady, ha, decide_false, Bool.or_self, Bool.and_false, Bool.false_eq_true,
            if_false]
          omega

/-! ## Runs -/

/-- A core, the kinds of its instructions in flight, oldest first (`true` for a load), the loads it has
retired, and the number of calls of `receive`. -/
structure LoadRun (τ : Type) where
  core : SimpleO3Core
  translation : τ
  inflight : List Bool := []
  retiredLoads : ℕ := 0
  receives : ℕ := 0

inductive LoadCall (C τ : Type) where
  | tick (translate : Translate C τ) (accept : Bool)
  | receive (req : Request C)

namespace LoadRun

/-- What a cycle shows: the instructions it counts as retired leave the front, the others enter, the
last of them being a load if one was issued. -/
def afterTick (s : LoadRun τ) (c : SimpleO3Core) (t : τ) (attempt : Option (Attempt C)) :
    LoadRun τ :=
  let numRetired := c.instsRetired - s.core.instsRetired
  let numInserted := c.window.load + numRetired - s.core.window.load
  let load := s.core.issuesLoad attempt
  { s with
    core := c
    translation := t
    inflight := s.inflight.drop numRetired ++
      (List.replicate (numInserted - load.toNat) false ++ List.replicate load.toNat true)
    retiredLoads := s.retiredLoads + (s.inflight.take numRetired).count true }

def step (s : LoadRun τ) : LoadCall C τ → Option (LoadRun τ)
  | .tick translate accept =>
    (s.core.tick translate accept s.translation).map fun r => s.afterTick r.1 r.2.1 r.2.2
  | .receive req => some { s with core := s.core.receive req, receives := s.receives + 1 }

def machine (C : Type) (core : SimpleO3Core) (t : τ) : Machine (LoadRun τ) (LoadCall C τ) where
  init := { core := core, translation := t }
  step := step

/-- Before the cycle no load waits for the address of a load that is accepted. -/
def LoadsApart (s : LoadRun τ) (call : LoadCall C τ) : Prop :=
  ∀ translate req t, call = .tick translate true → s.core.loadAddr ≠ -1 →
    translate (s.core.request s.core.loadAddr typeRead) s.translation = some (true, req, t) →
    req.addr ∉ waiting s.core.window.slots

/-- The waiting addresses are distinct, and every load that is ready or retired was served. -/
structure Served (s : LoadRun τ) : Prop where
  window : WellFormed s.core.window
  length : s.inflight.length = s.core.window.load
  apart : (waiting s.core.window.slots).Nodup
  served : s.retiredLoads + readyLoads s.inflight s.core.window.slots ≤ s.receives

variable {s s' : LoadRun τ}

theorem afterTick_spec (h : Served s) {translate : Translate C τ} {accept : Bool} {c : SimpleO3Core}
    {t : τ} {attempt : Option (Attempt C)}
    (htick : s.core.tick translate accept s.translation = some (c, t, attempt)) :
    ∃ k loads, c.window.slots = s.core.window.slots.drop (retired s.core.window.ipc
          s.core.window.slots) ++ (List.replicate k bubble ++ loads) ∧
      LoadAdded translate accept s.core s.translation t attempt loads ∧
      (s.afterTick c t attempt).inflight = s.inflight.drop (retired s.core.window.ipc
          s.core.window.slots) ++ (List.replicate k false ++ List.replicate loads.length true) ∧
      (s.afterTick c t attempt).retiredLoads = s.retiredLoads + (s.inflight.take (retired
          s.core.window.ipc s.core.window.slots)).count true := by
  obtain ⟨-, hretired, k, loads, hslots, hadded⟩ := tick_slots h.window htick
  have hnum : c.instsRetired - s.core.instsRetired =
      retired s.core.window.ipc s.core.window.slots := by omega
  have hlen := congrArg length hslots
  rw [length_slots, length_append, length_drop, length_slots, length_append,
    length_replicate] at hlen
  have hloads : (s.core.issuesLoad attempt).toNat = loads.length := by
    cases hadded with
    | none hissues => rw [hissues]; rfl
    | load hissues => rw [hissues]; rfl
  have hle := retired_le_length s.core.window.ipc s.core.window.slots
  rw [length_slots] at hle
  refine ⟨k, loads, hslots, hadded, ?_, ?_⟩
  · simp only [afterTick]
    rw [hnum, hloads]
    congr 3
    omega
  · simp only [afterTick]
    rw [hnum]

theorem served_afterTick (h : Served s) {n k : ℕ} {loads : List (Bool × ℤ)}
    (hready : ∀ x ∈ s.core.window.slots.take n, x.1 = true) (hloads : ∀ x ∈ loads, x.1 = false) :
    s.retiredLoads + (s.inflight.take n).count true +
        readyLoads (s.inflight.drop n ++ (List.replicate k false ++
            List.replicate loads.length true))
          (s.core.window.slots.drop n ++ (List.replicate k bubble ++ loads)) ≤ s.receives := by
  have hlen : s.inflight.length = s.core.window.slots.length := by
    rw [length_slots]
    exact h.length
  have htake : (s.inflight.take n).length = (s.core.window.slots.take n).length := by
    rw [length_take, length_take, hlen]
  have hdrop : (s.inflight.drop n).length = (s.core.window.slots.drop n).length := by
    rw [length_drop, length_drop, hlen]
  have hsplit := readyLoads_append htake (s.inflight.drop n) (s.core.window.slots.drop n)
  rw [take_append_drop, take_append_drop, readyLoads_of_ready htake hready] at hsplit
  have hnone : readyLoads (replicate loads.length true) loads = 0 := by
    unfold readyLoads
    rw [countP_eq_zero]
    rintro ⟨kind, x⟩ hmem
    simp [hloads x (of_mem_zip hmem).2]
  have hsame : (replicate k false).length = (replicate k bubble).length := by
    rw [length_replicate, length_replicate]
  have hserved := h.served
  rw [readyLoads_append hdrop, readyLoads_append hsame, readyLoads_bubbles, hnone]
  omega

theorem Served.tick (h : Served s) {translate : Translate C τ} {accept : Bool}
    (hapart : LoadsApart s (.tick translate accept)) {c : SimpleO3Core} {t : τ}
    {attempt : Option (Attempt C)}
    (htick : s.core.tick translate accept s.translation = some (c, t, attempt)) :
    Served (s.afterTick c t attempt) := by
  obtain ⟨k, loads, hslots, hadded, hinflight, hretired⟩ := afterTick_spec h htick
  have hwindow := (tick_slots h.window htick).1
  have hsub : (waiting (s.core.window.slots.drop (retired s.core.window.ipc
      s.core.window.slots))).Sublist (waiting s.core.window.slots) :=
    ((drop_sublist _ _).filter _).map _
  refine ⟨hwindow, ?_, ?_, ?_⟩
  · show _ = c.window.load
    rw [hinflight, ← length_slots c.window, hslots]
    simp only [length_append, length_replicate, length_drop, length_slots, h.length]
  · show (waiting c.window.slots).Nodup
    rw [hslots, waiting_append, waiting_append, waiting_replicate_bubble, nil_append]
    cases hadded with
    | none =>
      show (_ ++ []).Nodup
      rw [append_nil]
      exact h.apart.sublist hsub
    | @load req _ haccept hload htranslate =>
      have hfresh := hapart translate req t (by rw [haccept]) hload htranslate
      rw [show waiting [(false, req.addr)] = [req.addr] from rfl, ← concat_eq_append]
      exact (h.apart.sublist hsub).concat fun hmem => hfresh (hsub.subset hmem)
  · rw [hinflight, hretired]
    show _ + readyLoads _ c.window.slots ≤ s.receives
    rw [hslots]
    refine served_afterTick h (fun x => ready_of_mem_take_retired) ?_
    cases hadded with
    | none => exact forall_mem_nil _
    | load => exact forall_mem_singleton.mpr rfl

theorem receive_window (c : SimpleO3Core) (req : Request C) :
    (c.receive req).window = c.window.setReady req.addr := by
  unfold SimpleO3Core.receive
  dsimp only
  split <;> rfl

theorem Served.receive (h : Served s) (req : Request C) :
    Served { s with core := s.core.receive req, receives := s.receives + 1 } := by
  have hslots := setReady_slots h.window req.addr
  have hload : (s.core.window.setReady req.addr).load = s.core.window.load := by
    rw [← length_slots, hslots, length_map, length_slots]
  refine ⟨?_, ?_, ?_, ?_⟩
  · show WellFormed (s.core.receive req).window
    rw [receive_window]
    exact h.window.setReady req.addr
  · show s.inflight.length = (s.core.receive req).window.load
    rw [receive_window, hload]
    exact h.length
  · show (waiting (s.core.receive req).window.slots).Nodup
    rw [receive_window, hslots, waiting_markReady]
    exact h.apart.filter _
  · show s.retiredLoads + readyLoads s.inflight (s.core.receive req).window.slots ≤ s.receives + 1
    rw [receive_window, hslots]
    -- at most one load waits for the address
    have hone := nodup_iff_count_le_one.mp h.apart req.addr
    have hmark := readyLoads_markReady_le req.addr s.inflight s.core.window.slots
    have hserved := h.served
    omega

theorem served_create (id ipc depth numExpectedInsts : ℕ) (trace : List Inst) (t : τ) :
    Served { core := create id ipc depth numExpectedInsts trace, translation := t } where
  window := wellFormed_create ipc depth
  length := rfl
  apart := nodup_nil
  served := le_rfl

/-- **A load retires after its read is served, if no other load waits for its address**: the loads that
have retired are then at most as many as the calls of `receive`. -/
theorem loads_retire_after_service (C : Type) (id ipc depth numExpectedInsts : ℕ) (trace : List Inst)
    (t : τ) (s : LoadRun τ)
    (h : (machine C (create id ipc depth numExpectedInsts trace) t).ReachableWhen LoadsApart s) :
    s.retiredLoads ≤ s.receives := by
  have hserved : Served s := by
    refine h.invariant (P := Served) (served_create id ipc depth numExpectedInsts trace t) ?_
    intro s call s' hs hapart hstep
    cases call with
    | tick translate accept =>
      obtain ⟨⟨c, t, attempt⟩, htick, rfl⟩ := Option.map_eq_some_iff.mp hstep
      exact hs.tick hapart htick
    | receive req =>
      cases hstep
      exact hs.receive req
  exact (Nat.le_add_right _ _).trans hserved.served

/-! ## Two runs -/

def translateNothing : Translate Unit Unit := fun req t => some (true, req, t)

def loadCore (addrs : List ℤ) : SimpleO3Core :=
  create 0 4 8 100 (addrs.map fun addr => { loadAddr := addr })

def twoLoads (addr : ℤ) : List (LoadCall Unit Unit) :=
  [.tick translateNothing true, .tick translateNothing true,
    .receive { addr := addr, typeId := typeRead }, .tick translateNothing false]

def checkLoadsApart (s : LoadRun τ) : LoadCall C τ → Bool
  | .tick translate true =>
    match translate (s.core.request s.core.loadAddr typeRead) s.translation with
    | some (true, req, _) => decide (req.addr ∉ waiting s.core.window.slots)
    | _ => true
  | _ => true

theorem checkLoadsApart_spec (s : LoadRun τ) (call : LoadCall C τ)
    (h : checkLoadsApart s call = true) : LoadsApart s call := by
  rintro translate req t rfl - htranslate
  simpa [checkLoadsApart, htranslate] using h

/-- Loads from two addresses: the served one retires. -/
theorem served_load_retires : ∃ s, (machine Unit (loadCore [0, 64]) ()).ReachableWhen LoadsApart s ∧
    s.retiredLoads = 1 ∧ s.retiredLoads ≤ s.receives := by
  obtain ⟨s, hwhen, hretired⟩ := Machine.exists_reachableWhen (m := machine Unit (loadCore [0, 64]) ())
    checkLoadsApart checkLoadsApart_spec (P := fun s => s.retiredLoads = 1) (twoLoads 0)
    (by decide +kernel) (by decide +kernel)
  exact ⟨s, hwhen, hretired, loads_retire_after_service Unit 0 4 8 100 _ () s hwhen⟩

/-- **One served read retires two loads** of its address. -/
theorem one_read_retires_two_loads : ∃ s, (machine Unit (loadCore [0]) ()).Reachable s ∧
    s.receives = 1 ∧ s.retiredLoads = 2 :=
  Machine.exists_reachable (twoLoads 0) (by decide +kernel)

end LoadRun

end MultiCoreMemory
