import MultiCoreMemory.Controller.Generic
import Mathlib.Logic.Relation

/-!
# The controller as five queues

The abstract model of what the controller does with requests: they enter a queue, move from one
queue to another, and leave.  Commands, device state, row statistics and the choice of the
scheduler are gone; a history of effects is kept.

Requests are kept without the fields the scheduler writes (`Request.core`).
-/

namespace MultiCoreMemory

variable {C σ : Type}

def Request.core (r : Request C) : Request C := { r with command := none, isStatUpdated := false }

theorem Request.arrive_eq_of_core_eq {r r' : Request C} (h : r.core = r'.core) :
    r.arrive = r'.arrive := by
  change r.core.arrive = r'.core.arrive
  rw [h]

def Effect.core : Effect C → Effect C
  | .accepted r => .accepted r.core
  | .forwarded r => .forwarded r.core
  | .issued command r => .issued command r.core
  | .completed r => .completed r.core

/-- The requests of a controller, where they are. -/
@[ext]
structure Queues (C : Type) where
  clk : ℕ
  pending : List (Request C)
  queue : BufferId → List (Request C)
  readLatency : ℤ
  log : List (Effect C)
  next : ℕ

namespace Queues

variable (q : Queues C) (id : BufferId) (l : List (Request C)) {D : IDRAM C σ}
  {p : ControllerParams}

def setQueue : Queues C :=
  { q with queue := Function.update q.queue id l }

@[simp] theorem setQueue_pending :
    (q.setQueue id l).pending = q.pending := rfl

@[simp] theorem setQueue_queue :
    (q.setQueue id l).queue = Function.update q.queue id l := rfl

@[simp] theorem setQueue_log :
    (q.setQueue id l).log = q.log := rfl

def record (e : Effect C) : Queues C := { q with log := e :: q.log }

structure Enters (hazard : Bool) (q : Queues C) (id : BufferId) (r : Request C) : Prop where
  tag : r.tag = q.next
  depart : r.depart = -1
  notActive : id ≠ .active
  priority : id = .priority → r.arrive = -1
  read : id = .read → r.typeId = typeRead ∧ r.arrive = q.clk ∧
    (∀ w ∈ q.queue .write, w.addr ≠ r.addr) ∧
    (hazard = false → ∀ w ∈ q.queue .active, w.typeId = typeWrite → w.addr ≠ r.addr)
  write : id = .write → r.typeId = typeWrite ∧ r.arrive = q.clk

/-- The nine things that can happen. `lossy` permits the move in which a request that opens its row
is dropped; `hazard` permits a read to be queued while a write to its address is active. -/
inductive Move (D : IDRAM C σ) (p : ControllerParams) (lossy hazard : Bool) :
    Queues C → Queues C → Prop
  | clock (q : Queues C) : Move D p lossy hazard q { q with clk := q.clk + 1 }
  | refuse (q : Queues C) : Move D p lossy hazard q { q with next := q.next + 1 }
  | accept (q : Queues C) (id : BufferId) (r : Request C) : Enters hazard q id r →
      Move D p lossy hazard q
        ({ q.setQueue id (q.queue id ++ [r]) with next := q.next + 1 }.record (.accepted r))
  | forward (q : Queues C) (r : Request C) : r.tag = q.next → r.typeId = typeRead →
      r.arrive = -1 → r.depart = q.clk + 1 →
      Move D p lossy hazard q
        ({ q with pending := q.pending ++ [r], next := q.next + 1 }.record (.forwarded r))
  | complete (q : Queues C) (r : Request C) (rest : List (Request C)) : q.pending = r :: rest →
      r.depart ≤ q.clk →
      Move D p lossy hazard q
        ({ q with
           pending := rest
           readLatency := q.readLatency + Controller.latencyOf p r }.record (.completed r))
  | keep (q : Queues C) (id : BufferId) (i : ℕ) (r : Request C) (command : C) :
      (q.queue id)[i]? = some r → r.finalCommand ≠ some command →
      Move D p lossy hazard q (q.record (.issued command r))
  | finishRead (q : Queues C) (id : BufferId) (i : ℕ) (r : Request C) (command : C) :
      (q.queue id)[i]? = some r → r.finalCommand = some command → r.typeId = typeRead →
      r.arrive < q.clk →
      Move D p lossy hazard q
        ({ q.setQueue id ((q.queue id).eraseIdx i) with
           pending := q.pending ++ [{ r with depart := q.clk + D.readLatency }] }.record
          (.issued command r))
  | finish (q : Queues C) (id : BufferId) (i : ℕ) (r : Request C) (command : C) :
      (q.queue id)[i]? = some r → r.finalCommand = some command → r.typeId ≠ typeRead →
      Move D p lossy hazard q
        ((q.setQueue id ((q.queue id).eraseIdx i)).record (.issued command r))
  | activate (q : Queues C) (id : BufferId) (i : ℕ) (r : Request C) (command : C) :
      (q.queue id)[i]? = some r → r.finalCommand ≠ some command →
      Move D p lossy hazard q
        (((q.setQueue .active (q.queue .active ++ [r])).setQueue id
          (((q.setQueue .active (q.queue .active ++ [r])).queue id).eraseIdx i)).record
            (.issued command r))
  | lose (q : Queues C) (id : BufferId) (i : ℕ) (r : Request C) (command : C) : lossy = true →
      (q.queue id)[i]? = some r → r.finalCommand ≠ some command →
      Move D p lossy hazard q
        ((q.setQueue id ((q.queue id).eraseIdx i)).record (.issued command r))

def ArrivedInPast : Prop := ∀ id, ∀ r ∈ q.queue id, r.arrive ≤ q.clk

theorem ArrivedInPast.setQueue {q : Queues C} (h : q.ArrivedInPast) (id : BufferId)
    {l : List (Request C)} (hl : ∀ r ∈ l, r.arrive ≤ q.clk) : (q.setQueue id l).ArrivedInPast := by
  intro id' r hr
  by_cases hid : id' = id
  · subst hid
    exact hl r (by simpa using hr)
  · exact h id' r (by simpa [hid] using hr)

theorem ArrivedInPast.eraseIdx {q : Queues C} (h : q.ArrivedInPast) (id : BufferId) (i : ℕ) :
    (q.setQueue id ((q.queue id).eraseIdx i)).ArrivedInPast :=
  h.setQueue _ fun r hr => h id r (List.mem_of_mem_eraseIdx hr)

theorem Enters.arrive_le {hazard : Bool} {q : Queues C} {id : BufferId} {r : Request C}
    (h : Enters hazard q id r) : r.arrive ≤ q.clk := by
  cases id with
  | active => exact absurd rfl h.notActive
  | priority => rw [h.priority rfl]; omega
  | read => exact (h.read rfl).2.1.le
  | write => exact (h.write rfl).2.le

theorem move_arrivedInPast {lossy hazard : Bool} {q q' : Queues C} (h : q.ArrivedInPast)
    (hmove : Move D p lossy hazard q q') : q'.ArrivedInPast := by
  cases hmove with
  | clock => exact fun id r hr => (h id r hr).trans (by simp)
  | refuse => exact h
  | accept id r henters =>
    refine h.setQueue id fun r' hr' => ?_
    rcases List.mem_append.mp hr' with hr' | hr'
    · exact h id r' hr'
    · rw [List.mem_singleton.mp hr']
      exact henters.arrive_le
  | forward => exact h
  | complete => exact h
  | keep => exact h
  | finishRead id i => exact h.eraseIdx id i
  | finish id i => exact h.eraseIdx id i
  | activate id i r command hget =>
    have hactive : (q.setQueue .active (q.queue .active ++ [r])).ArrivedInPast := by
      refine h.setQueue _ fun r' hr' => ?_
      rcases List.mem_append.mp hr' with hr' | hr'
      · exact h .active r' hr'
      · rw [List.mem_singleton.mp hr']
        exact h id r (List.mem_of_getElem? hget)
    exact hactive.eraseIdx id i
  | lose id i => exact h.eraseIdx id i

abbrev Moves (D : IDRAM C σ) (p : ControllerParams) (lossy hazard : Bool) :
    Queues C → Queues C → Prop := Relation.ReflTransGen (Move D p lossy hazard)

theorem Moves.invariant {lossy hazard : Bool} {P : Queues C → Prop}
    (hstep : ∀ q q', P q → Move D p lossy hazard q q' → P q') {q q' : Queues C}
    (h : Moves D p lossy hazard q q') (hq : P q) : P q' := by
  induction h with
  | refl => exact hq
  | tail _ hmove ih => exact hstep _ _ ih hmove

end Queues

end MultiCoreMemory
