import MultiCoreMemory.Frontend.InstWindow

/-!
# The instruction window refines a bounded FIFO
-/

namespace MultiCoreMemory

open Option

/-- The calls of the window and what they return; `insert` is not called when the window is full. -/
inductive WindowCall where
  | isFull
  | insert (ready : Bool) (addr : ℤ)
  | retire
  | setReady (addr : ℤ)
  deriving DecidableEq, Repr

inductive WindowAnswer where
  | done
  | full (answer : Bool)
  | retired (count : ℕ)
  deriving DecidableEq, Repr

/-! ## The queue -/

structure Fifo where
  ipc : ℕ
  depth : ℕ
  queue : List (Bool × ℤ) := []
  deriving DecidableEq, Repr

namespace Fifo

def readyPrefix (q : Fifo) : List (Bool × ℤ) := (q.queue.take q.ipc).takeWhile fun s => s.1

def call (q : Fifo) : WindowCall → Option (WindowAnswer × Fifo)
  | .isFull => some (.full (q.queue.length == q.depth), q)
  | .insert ready addr =>
    if q.queue.length = q.depth then none
    else some (.done, { q with queue := q.queue ++ [(ready, addr)] })
  | .retire =>
    some (.retired q.readyPrefix.length, { q with queue := q.queue.drop q.readyPrefix.length })
  | .setReady addr =>
    some (.done, { q with queue := q.queue.map fun s => if s.2 = addr then (true, addr) else s })

/-- A sequence of calls on a queue of ready bits and addresses. -/
def run (q : Fifo) : List WindowCall → Option (List WindowAnswer × Fifo)
  | [] => some ([], q)
  | c :: calls => do
    let (answer, q) ← q.call c
    let (answers, q) ← q.run calls
    return (answer :: answers, q)

end Fifo

/-! ## The window -/

namespace InstWindow

def call (w : InstWindow) : WindowCall → Option (WindowAnswer × InstWindow)
  | .isFull => some (.full w.isFull, w)
  | .insert ready addr => if w.isFull then none else some (.done, w.insert ready addr)
  | .retire => some (.retired w.retire.1, w.retire.2)
  | .setReady addr => some (.done, w.setReady addr)

/-- The same calls on the circular buffer. -/
def run (w : InstWindow) : List WindowCall → Option (List WindowAnswer × InstWindow)
  | [] => some ([], w)
  | c :: calls => do
    let (answer, w) ← w.call c
    let (answers, w) ← w.run calls
    return (answer :: answers, w)

def toFifo (w : InstWindow) : Fifo := { ipc := w.ipc, depth := w.depth, queue := w.slots }

variable {w w' : InstWindow}

theorem markReady_eq (addr : ℤ) (s : Bool × ℤ) :
    markReady addr s = if s.2 = addr then (true, addr) else s := by
  unfold markReady
  split
  · rename_i heq
    simp [heq]
  · rename_i hne
    simp [hne]

theorem isFull_eq (w : InstWindow) : w.isFull = (w.slots.length == w.depth) := by
  rw [length_slots]
  rfl

theorem depth_retireLoop (n : ℕ) (w : InstWindow) : (retireLoop n w).2.depth = w.depth := by
  induction n generalizing w with
  | zero => rfl
  | succ n ih =>
    unfold retireLoop
    split
    · exact ih _
    · rfl

section

variable (h : WellFormed w)
include h

theorem toFifo_insert (hroom : w.load < w.depth) (ready : Bool) (addr : ℤ) :
    (w.insert ready addr).toFifo = { w.toFifo with queue := w.slots ++ [(ready, addr)] } := by
  rw [toFifo, insert_slots h hroom]
  rfl

theorem toFifo_retire :
    w.retire.2.toFifo = { w.toFifo with queue := w.slots.drop (retired w.ipc w.slots) } := by
  rw [toFifo, retire_slots h]
  have hipc : w.retire.2.ipc = w.ipc := (retireLoop_spec w.ipc h).2.2.2
  have hdepth : w.retire.2.depth = w.depth := depth_retireLoop w.ipc w
  rw [hipc, hdepth]
  rfl

theorem toFifo_setReady (addr : ℤ) :
    (w.setReady addr).toFifo =
      { w.toFifo with queue := w.slots.map fun s => if s.2 = addr then (true, addr) else s } := by
  have hsame : SameButReady w (w.setReady addr) := setReadyLoop_same addr w.load w.tailIdx w
  rw [toFifo, setReady_slots h, hsame.ipc, hsame.depth, funext (markReady_eq addr)]
  rfl

theorem WellFormed.call {c : WindowCall} {answer : WindowAnswer}
    (hcall : w.call c = some (answer, w')) : WellFormed w' := by
  cases c with
  | isFull =>
    cases hcall
    exact h
  | insert ready addr =>
    obtain ⟨hfull, heq⟩ := ite_none_left_eq_some.mp hcall
    cases heq
    exact h.insert (SimpleO3Core.not_isFull h hfull) ready addr
  | retire =>
    cases hcall
    exact h.retire
  | setReady addr =>
    cases hcall
    exact h.setReady addr

theorem call_refines (c : WindowCall) :
    (w.call c).map (fun r => (r.1, r.2.toFifo)) = w.toFifo.call c := by
  cases c with
  | isFull =>
    rw [call, isFull_eq]
    rfl
  | insert ready addr =>
    have hiff : w.isFull = true ↔ w.toFifo.queue.length = w.toFifo.depth := by
      rw [isFull_eq, beq_iff_eq]
      rfl
    unfold call Fifo.call
    dsimp only
    by_cases hfull : w.isFull = true
    · rw [if_pos hfull, if_pos (hiff.mp hfull)]
      rfl
    · rw [if_neg hfull, if_neg (hfull ∘ hiff.mpr), map_some,
        toFifo_insert h (SimpleO3Core.not_isFull h hfull)]
      rfl
  | retire =>
    rw [call, map_some, toFifo_retire h, retire_fst h]
    rfl
  | setReady addr =>
    rw [call, map_some, toFifo_setReady h]
    rfl

/-- **Every sequence of calls**: the answers are those of the queue, and so is the queue at the end. -/
theorem run_refines (calls : List WindowCall) :
    (w.run calls).map (fun r => (r.1, r.2.toFifo)) = w.toFifo.run calls := by
  induction calls generalizing w with
  | nil => rfl
  | cons c calls ih =>
    unfold run Fifo.run
    rw [← call_refines h c]
    cases hcall : w.call c with
    | none => rfl
    | some r =>
      obtain ⟨answer, w'⟩ := r
      have hrest := ih (h.call hcall)
      simp only [map_some, bind_eq_bind, bind_some, ← hrest]
      cases w'.run calls <;> rfl

theorem WellFormed.run {calls : List WindowCall} {answers : List WindowAnswer}
    (hrun : w.run calls = some (answers, w')) : WellFormed w' := by
  induction calls generalizing w answers with
  | nil =>
    cases hrun
    exact h
  | cons c calls ih =>
    simp only [InstWindow.run, bind_eq_bind, bind_eq_some_iff, Prod.exists] at hrun
    obtain ⟨answer, w₁, hcall, answers₁, w₂, hrest, heq⟩ := hrun
    cases heq
    exact ih (h.call hcall) hrest

end

/-! ## Slots outside the queue -/

def occupied (w : InstWindow) (i : ℕ) : Bool :=
  (List.range w.load).any fun j => (w.tailIdx + j) % w.depth == i

def overwriteFree (w : InstWindow) (stale : ℕ → Bool × ℤ) : InstWindow :=
  { w with
    readyList := (List.range w.depth).map fun i =>
      if w.occupied i then w.readyList.getD i false else (stale i).1
    addrList := (List.range w.depth).map fun i =>
      if w.occupied i then w.addrList.getD i (-1) else (stale i).2 }

theorem WellFormed.overwriteFree (h : WellFormed w) (stale : ℕ → Bool × ℤ) :
    WellFormed (w.overwriteFree stale) where
  readyLength := by simp [InstWindow.overwriteFree]
  addrLength := by simp [InstWindow.overwriteFree]
  load_le := h.load_le
  tail := h.tail
  head := h.head

theorem slot_overwriteFree {i : ℕ} (hi : i < w.depth) (hocc : w.occupied i = true)
    (stale : ℕ → Bool × ℤ) : (w.overwriteFree stale).slot i = w.slot i := by
  refine Prod.ext ?_ ?_ <;> simp [slot, overwriteFree, List.getD, hi, hocc]

theorem toFifo_overwriteFree (h : WellFormed w) (stale : ℕ → Bool × ℤ) :
    (w.overwriteFree stale).toFifo = w.toFifo := by
  have hslots : (w.overwriteFree stale).slots = w.slots.map id := by
    refine RingBuffer.contents_map id ?_
    intro j hj
    refine slot_overwriteFree ?_ ?_ stale
    · exact Nat.mod_lt _ (Nat.lt_of_lt_of_le (Nat.zero_lt_of_lt hj) h.load_le)
    · exact List.any_eq_true.mpr ⟨j, List.mem_range.mpr hj, beq_self_eq_true _⟩
  rw [toFifo, hslots, List.map_id]
  rfl

theorem answers_eq (h : WellFormed w) (h' : WellFormed w') (hfifo : w.toFifo = w'.toFifo)
    (calls : List WindowCall) : (w.run calls).map Prod.fst = (w'.run calls).map Prod.fst := by
  have hrun := run_refines h calls
  rw [hfifo, ← run_refines h' calls] at hrun
  have hfst := congrArg (Option.map Prod.fst) hrun
  rwa [Option.map_map, Option.map_map] at hfst

/-- **The instruction window is a bounded FIFO**: it answers as the queue does and stands for it at the
end; and what the slots outside the queue contain changes no later answer. -/
theorem window_is_bounded_fifo (ipc depth : ℕ) (calls later : List WindowCall)
    (stale : ℕ → Bool × ℤ) :
    ((create ipc depth).run calls).map (fun r => (r.1, r.2.toFifo)) =
        Fifo.run { ipc := ipc, depth := depth } calls ∧
      (((create ipc depth).run calls).bind fun r => ((r.2.overwriteFree stale).run later).map Prod.fst) =
        (((create ipc depth).run calls).bind fun r => (r.2.run later).map Prod.fst) := by
  constructor
  · exact run_refines (wellFormed_create ipc depth) calls
  · cases hrun : (create ipc depth).run calls with
    | none => rfl
    | some r =>
      have hwf := (wellFormed_create ipc depth).run hrun
      exact answers_eq (hwf.overwriteFree stale) hwf (toFifo_overwriteFree hwf stale) later

end InstWindow

end MultiCoreMemory
