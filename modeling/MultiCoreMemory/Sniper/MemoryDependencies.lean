import Mathlib.Data.List.Nodup
import Mathlib.Data.Option.Basic
import MultiCoreMemory.Lib.Machine

/-!
# Memory dependences in the reorder buffer (`micro_op/memory_dependencies.cc`)

The stores in flight stand in a queue, cleaned up to the lowest number in flight; the last fence is a
number with a test of its own, which misses a fence that is the oldest in flight.  A load or store with
the barrier flag is handled as an access and never becomes the fence.
-/

namespace MultiCoreMemory.Sniper

open List

def invalidSeqnr : UInt64 := 0xFFFFFFFFFFFFFFFF

inductive UopType where
  | invalid
  | load
  | execute
  | store
  deriving DecidableEq

structure DynamicMicroOp where
  sequenceNumber : UInt64
  uopType : UopType
  memBarrier : Bool := false
  phys : UInt64 := 0
  dependencies : List UInt64 := []
  deriving DecidableEq

structure Producer where
  seqnr : UInt64
  address : UInt64
  deriving DecidableEq

/-- The queue, from its front to its tail, and the last barrier. -/
structure MemoryDependencies where
  producers : List Producer := []
  membar : UInt64 := invalidSeqnr
  deriving DecidableEq

namespace DynamicMicroOp

variable (op : DynamicMicroOp)

def isLoad : Bool := op.uopType = .load

def isStore : Bool := op.uopType = .store

/-- A barrier that is no access itself; the store of an atomic instruction has the flag, and is a
store. -/
def isFence : Bool := !op.isLoad && !op.isStore && op.memBarrier

/-- The micro-ops that a barrier orders. -/
def isOrdered : Bool := op.isLoad || op.isStore || op.memBarrier

/-- A store to the address, in flight. -/
def storesTo (address lowest : UInt64) : Bool :=
  op.isStore && op.phys = address && lowest ≤ op.sequenceNumber

/-- `MAXIMUM_NUMBER_OF_DEPENDENCIES` is 14. -/
def addDependency (sequenceNumber : UInt64) : Option DynamicMicroOp :=
  if sequenceNumber ∈ op.dependencies then some op
  else if op.dependencies.length < 14 then
    some { op with dependencies := op.dependencies ++ [sequenceNumber] }
  else none

def addDependencyIf (cond : Prop) [Decidable cond] (sequenceNumber : UInt64) :
    Option DynamicMicroOp :=
  if cond then op.addDependency sequenceNumber else some op

end DynamicMicroOp

namespace MemoryDependencies

variable (md : MemoryDependencies)

def clean (lowestValid : UInt64) : MemoryDependencies :=
  { md with producers := md.producers.dropWhile fun p => p.seqnr < lowestValid }

def find (address : UInt64) : UInt64 :=
  ((md.producers.reverse.find? fun p => p.address = address).map Producer.seqnr).getD invalidSeqnr

/-- The queue has room for 1024 producers. -/
def add (sequenceNumber address : UInt64) : Option MemoryDependencies :=
  if md.producers.length < 1024 then
    some { md with producers := md.producers ++ [⟨sequenceNumber, address⟩] }
  else none

/-- The test of the barrier, the same for loads, stores and barriers. -/
def addMembar (op : DynamicMicroOp) (lowestValid : UInt64) : Option DynamicMicroOp :=
  op.addDependencyIf (md.membar ≠ invalidSeqnr ∧ md.membar > lowestValid) md.membar

def setDependencies (op : DynamicMicroOp) (lowestValid : UInt64) :
    Option (MemoryDependencies × DynamicMicroOp) :=
  let md := md.clean lowestValid
  if op.isLoad then do
    let producer := md.find op.phys
    let op ← op.addDependencyIf (producer ≠ invalidSeqnr) producer
    let op ← md.addMembar op lowestValid
    some (md, op)
  else if op.isStore then do
    let md ← md.add op.sequenceNumber op.phys
    let op ← md.addMembar op lowestValid
    some (md, op)
  else if op.memBarrier then do
    let op' ← md.addMembar op lowestValid
    some ({ md with membar := op.sequenceNumber }, op')
  else some (md, op)

end MemoryDependencies

open DynamicMicroOp

/-! ## Runs -/

/-- The state, the micro-ops so far and the lowest number in flight at the last of them. -/
structure DependencyRun where
  deps : MemoryDependencies := {}
  earlier : List DynamicMicroOp := []
  lowest : UInt64 := 0
  deriving DecidableEq

/-- The next micro-op has a higher number than those before it, the lowest number in flight does not
go down, and at most 1024 micro-ops are in flight. -/
def DependencyRun.Next (s : DependencyRun) (i : DynamicMicroOp × UInt64) : Prop :=
  (∀ e ∈ s.earlier, e.sequenceNumber < i.1.sequenceNumber) ∧ s.lowest ≤ i.2 ∧
    i.2 ≤ i.1.sequenceNumber ∧
    ((s.earlier ++ [i.1]).filter fun e => i.2 ≤ e.sequenceNumber).length ≤ 1024
  deriving Decidable

def memoryDependencies : Machine DependencyRun (DynamicMicroOp × UInt64) where
  init := {}
  step s i := (s.deps.setDependencies i.1 i.2).map fun r => ⟨r.1, s.earlier ++ [i.1], i.2⟩

/-- The number is that of the latest micro-op with the property. -/
def IsLatest (p : DynamicMicroOp → Bool) (earlier : List DynamicMicroOp) (n : UInt64) : Prop :=
  ∃ e ∈ earlier, p e = true ∧ e.sequenceNumber = n ∧
    ∀ e' ∈ earlier, p e' = true → e'.sequenceNumber ≤ n
  deriving Decidable

/-- A load follows the latest store in flight to its address, and a load, store or barrier the latest
barrier in flight: any micro-op with the flag. -/
def MustFollow (earlier : List DynamicMicroOp) (op : DynamicMicroOp) (lowest d : UInt64) : Prop :=
  op.isLoad = true ∧ IsLatest (·.storesTo op.phys lowest) earlier d ∨
    op.isOrdered = true ∧ IsLatest (fun e => e.memBarrier && lowest ≤ e.sequenceNumber) earlier d

/-- The number of the latest micro-op with the property. -/
def latest (p : DynamicMicroOp → Bool) (earlier : List DynamicMicroOp) : Option UInt64 :=
  (earlier.reverse.find? p).map (·.sequenceNumber)

/-- The store that a load follows, and the latest fence if its number is higher than the lowest in
flight. -/
def producersOf (earlier : List DynamicMicroOp) (op : DynamicMicroOp) (lowest : UInt64) : List UInt64 :=
  (if op.isLoad then latest (·.storesTo op.phys lowest) earlier else none).toList ++
    (if op.isOrdered then (latest isFence earlier).filter (lowest < ·) else none).toList

/-- The dependence array takes those of them that it does not have. -/
def HasRoom (earlier : List DynamicMicroOp) (op : DynamicMicroOp) (lowest : UInt64) : Prop :=
  op.dependencies.length + ((producersOf earlier op lowest).filter (· ∉ op.dependencies)).length ≤ 14
  deriving Decidable

/-- The latest barrier in flight is a dependence already, the store that the load follows, or a fence
above the lowest number in flight; and a fence above it that is not the latest barrier is a dependence
already. -/
def BarriersMet (earlier : List DynamicMicroOp) (op : DynamicMicroOp) (lowest : UInt64) : Prop :=
  op.isOrdered = true →
    (∀ n, IsLatest memBarrier earlier n → lowest ≤ n →
      n ∈ op.dependencies ∨ op.isLoad = true ∧ IsLatest (·.storesTo op.phys lowest) earlier n ∨
        IsLatest isFence earlier n ∧ lowest < n) ∧
    ∀ n, IsLatest isFence earlier n → lowest < n →
      n ∈ op.dependencies ∨ IsLatest memBarrier earlier n

/-! ## The latest micro-op -/

theorem dropWhile_eq_filter {α : Type*} {p : α → Bool} {l : List α}
    (h : l.Pairwise fun a b => p b = true → p a = true) : l.dropWhile p = l.filter fun a => !p a := by
  induction l with
  | nil => rfl
  | cons a l ih =>
    obtain ⟨hall, hl⟩ := pairwise_cons.mp h
    cases ha : p a with
    | true => simp [ha, ih hl]
    | false =>
      have hrest : l.filter (fun b => !p b) = l :=
        filter_eq_self.mpr fun b hb => by simpa [ha] using hall b hb
      simp [ha, hrest]

section

variable {earlier : List DynamicMicroOp} {p : DynamicMicroOp → Bool} {n d : UInt64}

theorem IsLatest.unique (h : IsLatest p earlier n) (h' : IsLatest p earlier d) : n = d := by
  obtain ⟨e, he, hp, rfl, hmax⟩ := h
  obtain ⟨e', he', hp', rfl, hmax'⟩ := h'
  exact UInt64.le_antisymm (hmax' e he hp) (hmax e' he' hp')

theorem isLatest_and_le : IsLatest (fun e => p e && n ≤ e.sequenceNumber) earlier d ↔
    IsLatest p earlier d ∧ n ≤ d := by
  constructor
  · rintro ⟨e, he, hp, rfl, hmax⟩
    obtain ⟨hp, hle⟩ : p e = true ∧ n ≤ e.sequenceNumber := by simpa using hp
    refine ⟨⟨e, he, hp, rfl, fun e' he' hp' => ?_⟩, hle⟩
    by_cases hn : n ≤ e'.sequenceNumber
    · exact hmax e' he' (by simp [hp', hn])
    · grind
  · rintro ⟨⟨e, he, hp, rfl, hmax⟩, hle⟩
    refine ⟨e, he, by simp [hp, hle], rfl, fun e' he' hp' => hmax e' he' ?_⟩
    exact (Bool.and_eq_true_iff.mp hp').1

variable (hsorted : earlier.Pairwise fun e e' => e.sequenceNumber < e'.sequenceNumber)

include hsorted

theorem isLatest_of_find? {e : DynamicMicroOp} (h : earlier.reverse.find? p = some e) :
    IsLatest p earlier e.sequenceNumber := by
  obtain ⟨hp, as, bs, hsplit, hnot⟩ := find?_eq_some_iff_append.mp h
  refine ⟨e, mem_reverse.mp (mem_of_find?_eq_some h), hp, rfl, fun e' he' hp' => ?_⟩
  rw [← mem_reverse, hsplit, mem_append, mem_cons] at he'
  rw [← pairwise_reverse, hsplit, pairwise_append, pairwise_cons] at hsorted
  rcases he' with has | rfl | hbs
  · have hnot := hnot e' has
    rw [hp'] at hnot
    cases hnot
  · exact UInt64.le_refl _
  · exact UInt64.le_of_lt (hsorted.2.1.1 e' hbs)

theorem latest_eq_some_iff : latest p earlier = some d ↔ IsLatest p earlier d := by
  rw [latest]
  cases hfind : earlier.reverse.find? p with
  | none =>
    refine iff_of_false (by simp) ?_
    rintro ⟨e, he, hp, -⟩
    exact find?_eq_none.mp hfind e (mem_reverse.mpr he) hp
  | some e =>
    have hlatest := isLatest_of_find? hsorted hfind
    rw [Option.map_some, Option.some.injEq]
    exact ⟨fun h => h ▸ hlatest, fun h => hlatest.unique h⟩

end

/-! ## One call -/

/-- Different numbers are added in order, those that are there already left out, while there is room. -/
theorem DynamicMicroOp.foldlM_addDependency {numbers : List UInt64} (hnodup : numbers.Nodup)
    (op : DynamicMicroOp) (hlen : op.dependencies.length ≤ 14) :
    numbers.foldlM addDependency op =
      if op.dependencies.length + (numbers.filter (· ∉ op.dependencies)).length ≤ 14 then
        some { op with dependencies := op.dependencies ++ numbers.filter (· ∉ op.dependencies) }
      else none := by
  induction numbers generalizing op with
  | nil => simp [hlen]
  | cons n numbers ih =>
    obtain ⟨hfirst, hrest⟩ := nodup_cons.mp hnodup
    rw [foldlM_cons, addDependency]
    by_cases hmem : n ∈ op.dependencies
    · rw [if_pos hmem, filter_cons_of_neg (by simpa using hmem)]
      exact ih hrest op hlen
    · rw [if_neg hmem, filter_cons_of_pos (by simpa using hmem), length_cons]
      split
      · rename_i hroom
        have hsame : numbers.filter (· ∉ op.dependencies ++ [n]) = numbers.filter (· ∉ op.dependencies) :=
          filter_congr fun d hd => by simp [show d ≠ n from fun heq => hfirst (heq ▸ hd)]
        have hlen' : (op.dependencies ++ [n]).length ≤ 14 := by
          rw [length_append, length_singleton]
          omega
        rw [Option.bind_eq_bind, Option.bind_some, ih hrest _ hlen']
        simp only [hsame, length_append, length_singleton, append_assoc, singleton_append,
          Nat.add_assoc, Nat.add_comm 1]
      · rw [if_neg (by omega)]
        rfl

namespace MemoryDependencies

variable {md : MemoryDependencies} {op : DynamicMicroOp} {lowest : UInt64}

/-- The state after a call that returns. -/
def after (md : MemoryDependencies) (op : DynamicMicroOp) (lowest : UInt64) : MemoryDependencies where
  producers := (md.clean lowest).producers ++
    if op.isStore then [⟨op.sequenceNumber, op.phys⟩] else []
  membar := if op.isFence then op.sequenceNumber else md.membar

/-- The numbers that a call adds. -/
def numbers (md : MemoryDependencies) (op : DynamicMicroOp) (lowest : UInt64) : List UInt64 :=
  (if op.isLoad = true ∧ (md.clean lowest).find op.phys ≠ invalidSeqnr then
      [(md.clean lowest).find op.phys] else []) ++
    if op.isOrdered = true ∧ md.membar ≠ invalidSeqnr ∧ md.membar > lowest then [md.membar] else []

theorem setDependencies_eq (hroom : (md.clean lowest).producers.length < 1024) :
    md.setDependencies op lowest =
      ((md.numbers op lowest).foldlM addDependency op).map fun op' => (md.after op lowest, op') := by
  have hif : ∀ (op : DynamicMicroOp) (cond : Prop) [Decidable cond] (n : UInt64),
      op.addDependencyIf cond n = (if cond then [n] else []).foldlM addDependency op := by
    intro op cond _ n
    rw [addDependencyIf]
    split <;> simp
  have hmembar : (md.clean lowest).membar = md.membar := rfl
  simp only [setDependencies, addMembar, hif, numbers, foldlM_append]
  cases hload : op.isLoad with
  | true =>
    have hstore : op.isStore = false := by simp_all [isLoad, isStore]
    simp [after, isOrdered, isFence, hload, hstore, Option.map_eq_bind, hmembar,
      Option.bind_assoc]
    rfl
  | false =>
    cases hstore : op.isStore with
    | true =>
      simp [after, add, hroom, isOrdered, isFence, hload, hstore, Option.map_eq_bind, hmembar]
    | false =>
      cases hbar : op.memBarrier <;>
        simp [after, isOrdered, isFence, hload, hstore, hbar, Option.map_eq_bind, hmembar]
      all_goals rfl

end MemoryDependencies

/-! ## The run -/

namespace DependencyRun

variable {s s' : DependencyRun} {i : DynamicMicroOp × UInt64}

/-- The stores from the lowest number in flight on. -/
def storesInFlight (earlier : List DynamicMicroOp) (lowest : UInt64) : List Producer :=
  (earlier.filter fun e => e.isStore && lowest ≤ e.sequenceNumber).map
    fun e => ⟨e.sequenceNumber, e.phys⟩

/-- The queue holds the stores in flight, and the barrier is the last fence. -/
structure Tracks (s : DependencyRun) : Prop where
  sorted : s.earlier.Pairwise fun e e' => e.sequenceNumber < e'.sequenceNumber
  producers : s.deps.producers = storesInFlight s.earlier s.lowest
  membar : s.deps.membar = (latest isFence s.earlier).getD invalidSeqnr

namespace Tracks

variable (h : s.Tracks) (hnext : s.Next i)

include h hnext

theorem clean : (s.deps.clean i.2).producers = storesInFlight s.earlier i.2 := by
  have hsorted : s.deps.producers.Pairwise fun a b =>
      decide (b.seqnr < i.2) = true → decide (a.seqnr < i.2) = true := by
    rw [h.producers, storesInFlight, pairwise_map]
    exact (h.sorted.filter _).imp fun hlt => by grind
  show s.deps.producers.dropWhile _ = _
  rw [dropWhile_eq_filter hsorted, h.producers, storesInFlight, filter_map, filter_filter]
  have hlow := hnext.2.1
  refine congrArg (map _) (filter_congr fun e _ => ?_)
  rw [Function.comp_apply]
  grind

theorem find (address : UInt64) :
    (s.deps.clean i.2).find address = (latest (·.storesTo address i.2) s.earlier).getD invalidSeqnr := by
  rw [MemoryDependencies.find, h.clean hnext, storesInFlight, ← map_reverse, find?_map,
    ← filter_reverse, find?_filter, Option.map_map, latest]
  refine congrArg (fun p => Option.getD (Option.map _ (List.find? p _)) _) (funext fun e => ?_)
  rw [Function.comp_apply, storesTo]
  grind

theorem room : (s.deps.clean i.2).producers.length < 1024 := by
  rw [h.clean hnext, storesInFlight, length_map]
  have hfew := hnext.2.2.2
  rw [filter_append, length_append, filter_cons_of_pos (by simpa using hnext.2.2.1)] at hfew
  have hle : (s.earlier.filter fun e => e.isStore && i.2 ≤ e.sequenceNumber).length ≤
      (s.earlier.filter fun e => decide (i.2 ≤ e.sequenceNumber)).length := by
    rw [← countP_eq_length_filter, ← countP_eq_length_filter]
    exact countP_mono_left fun e _ he => (Bool.and_eq_true_iff.mp he).2
  simp only [filter_nil, length_singleton] at hfew
  omega

omit h in
theorem valid : ∀ e ∈ s.earlier, e.sequenceNumber ≠ invalidSeqnr := by
  intro e he heq
  have hlt := hnext.1 e he
  rw [heq, invalidSeqnr] at hlt
  grind

theorem step (hstep : memoryDependencies.step s i = some s') : s'.Tracks := by
  obtain ⟨r, hr, rfl⟩ := Option.map_eq_some_iff.mp hstep
  rw [MemoryDependencies.setDependencies_eq (h.room hnext)] at hr
  obtain ⟨op', -, rfl⟩ := Option.map_eq_some_iff.mp hr
  refine ⟨?_, ?_, ?_⟩
  · exact pairwise_append.mpr ⟨h.sorted, pairwise_singleton _ _, by simpa using hnext.1⟩
  · simp only [MemoryDependencies.after, h.clean hnext, storesInFlight, filter_append, map_append]
    have hle := hnext.2.2.1
    cases hstore : i.1.isStore <;> simp [hstore, hle]
  · simp only [MemoryDependencies.after, latest, reverse_append, reverse_singleton,
      singleton_append, find?_cons]
    cases hbar : i.1.isFence with
    | true => simp
    | false => simpa [latest] using h.membar

end Tracks

theorem tracks_of_reachable (h : memoryDependencies.ReachableWhen Next s) : s.Tracks :=
  h.invariant ⟨.nil, rfl, rfl⟩ fun _ _ _ hs hnext hstep => hs.step hnext hstep

section

variable {op : DynamicMicroOp} {lowest : UInt64}

/-- The store that a load follows is no fence. -/
theorem Tracks.store_ne_fence (h : s.Tracks) {address n : UInt64}
    (hstore : IsLatest (·.storesTo address lowest) s.earlier n) : ¬ IsLatest isFence s.earlier n := by
  rintro ⟨e', he', hfence, rfl, -⟩
  obtain ⟨e, he, hp, heq, -⟩ := hstore
  have hnumbers : (s.earlier.map (·.sequenceNumber)).Nodup :=
    pairwise_map.mpr (h.sorted.imp UInt64.ne_of_lt)
  obtain rfl := inj_on_of_nodup_map hnumbers he he' heq
  simp [isFence, storesTo] at hfence hp
  grind

theorem Tracks.numbers (h : s.Tracks) (hnext : s.Next (op, lowest)) :
    s.deps.numbers op lowest = producersOf s.earlier op lowest := by
  have hvalid : ∀ {p n}, latest p s.earlier = some n → n ≠ invalidSeqnr := by
    intro p n hn
    obtain ⟨e, he, -, rfl, -⟩ := (latest_eq_some_iff h.sorted).mp hn
    exact Tracks.valid hnext e he
  rw [MemoryDependencies.numbers, h.find hnext, h.membar, producersOf]
  congr 1
  · cases hload : op.isLoad <;> cases hn : latest (·.storesTo op.phys lowest) s.earlier
    all_goals simp
    exact hvalid hn
  · cases hord : op.isOrdered <;> cases hn : latest isFence s.earlier
    all_goals simp [Option.filter]
    have := hvalid hn
    split <;> simp_all

theorem Tracks.mem_producersOf (h : s.Tracks) {d : UInt64} : d ∈ producersOf s.earlier op lowest ↔
    op.isLoad = true ∧ IsLatest (·.storesTo op.phys lowest) s.earlier d ∨
      op.isOrdered = true ∧ IsLatest isFence s.earlier d ∧ lowest < d := by
  rw [producersOf, mem_append, Option.mem_toList, Option.mem_toList, ← latest_eq_some_iff h.sorted,
    ← latest_eq_some_iff h.sorted]
  cases op.isLoad <;> cases op.isOrdered <;> simp [Option.filter_eq_some_iff]

theorem Tracks.nodup_producersOf (h : s.Tracks) : (producersOf s.earlier op lowest).Nodup := by
  refine nodup_append'.mpr ⟨Option.toList_nodup _, Option.toList_nodup _, fun n hstore hfence => ?_⟩
  rw [Option.mem_toList] at hstore hfence
  split at hstore
  · split at hfence
    · refine h.store_ne_fence ((latest_eq_some_iff h.sorted).mp hstore) ?_
      exact (latest_eq_some_iff h.sorted).mp (Option.filter_eq_some_iff.mp hfence).1
    · cases hfence
  · cases hstore

/-- What a call returns: it needs room for what it adds. -/
theorem Tracks.setDependencies (h : s.Tracks) (hnext : s.Next (op, lowest))
    (hlen : op.dependencies.length ≤ 14) :
    (s.deps.setDependencies op lowest).map (·.2.dependencies) =
      if HasRoom s.earlier op lowest then
        some (op.dependencies ++ (producersOf s.earlier op lowest).filter (· ∉ op.dependencies))
      else none := by
  rw [MemoryDependencies.setDependencies_eq (h.room hnext), h.numbers hnext,
    foldlM_addDependency h.nodup_producersOf op hlen]
  by_cases hroom : HasRoom s.earlier op lowest
  · rw [if_pos hroom, if_pos (show _ ≤ 14 from hroom)]
    rfl
  · rw [if_neg hroom, if_neg (show ¬ _ ≤ 14 from hroom)]
    rfl

/-- **The dependences of a micro-op are exact if and only if** the array has room for them and no barrier
in flight is passed over: the oldest micro-op in flight, or a load or store with the flag. -/
theorem setDependencies_exact_iff (h : memoryDependencies.ReachableWhen Next s)
    (hnext : s.Next (op, lowest)) (hlen : op.dependencies.length ≤ 14) :
    (∃ r, s.deps.setDependencies op lowest = some r ∧
      ∀ d, d ∈ r.2.dependencies ↔ d ∈ op.dependencies ∨ MustFollow s.earlier op lowest d) ↔
    HasRoom s.earlier op lowest ∧ BarriersMet s.earlier op lowest := by
  have htracks := tracks_of_reachable h
  have hset := htracks.setDependencies hnext hlen
  by_cases hroom : HasRoom s.earlier op lowest
  · rw [if_pos hroom] at hset
    obtain ⟨r, hr, hdeps⟩ := Option.map_eq_some_iff.mp hset
    have hmem : ∀ d, d ∈ r.2.dependencies ↔
        d ∈ op.dependencies ∨ d ∈ producersOf s.earlier op lowest := by
      intro d
      rw [hdeps, mem_append, mem_filter]
      by_cases hold : d ∈ op.dependencies <;> simp [hold]
    rw [and_iff_right hroom]
    simp only [hr, Option.some.injEq, exists_eq_left', hmem, htracks.mem_producersOf, MustFollow,
      isLatest_and_le (p := memBarrier)]
    constructor
    · intro hexact hord
      refine ⟨fun n hlatest hle => ?_, fun n hfence hlt => ?_⟩
      · rcases (hexact n).mpr (.inr (.inr ⟨hord, hlatest, hle⟩)) with hold | hstore | ⟨-, hfence⟩
        · exact .inl hold
        · exact .inr (.inl hstore)
        · exact .inr (.inr hfence)
      · rcases (hexact n).mp (.inr (.inr ⟨hord, hfence, hlt⟩)) with hold | ⟨-, hstore⟩ | ⟨-, hlatest, -⟩
        · exact .inl hold
        · exact absurd hfence (htracks.store_ne_fence hstore)
        · exact .inr hlatest
    · refine fun hmet d => or_congr_right' fun hnew => ⟨?_, ?_⟩
      · rintro (hstore | ⟨hord, hfence, hlt⟩)
        · exact .inl hstore
        · have hlatest := ((hmet hord).2 d hfence hlt).resolve_left hnew
          exact .inr ⟨hord, hlatest, UInt64.le_of_lt hlt⟩
      · rintro (hstore | ⟨hord, hlatest, hle⟩)
        · exact .inl hstore
        · exact (((hmet hord).1 d hlatest hle).resolve_left hnew).imp id fun hfence => ⟨hord, hfence⟩
  · rw [if_neg hroom, Option.map_eq_none_iff] at hset
    simp [hset, hroom]

/-- A load after a store to its address, with the barrier flag, and a fence. -/
theorem setDependencies_exact_iff_after_fence : ∃ s : DependencyRun,
    memoryDependencies.ReachableWhen Next s ∧ s.earlier.length = 2 ∧
      ∃ r, s.deps.setDependencies ⟨3, .load, false, 8, []⟩ 1 = some r ∧ ∀ d,
        d ∈ r.2.dependencies ↔ d ∈ [] ∨ MustFollow s.earlier ⟨3, .load, false, 8, []⟩ 1 d := by
  obtain ⟨s, hs, rfl⟩ := Machine.exists_reachableWhen (m := memoryDependencies)
    (fun s i => decide (s.Next i)) (fun _ _ => of_decide_eq_true) (P := (· = ⟨⟨[⟨1, 8⟩], 2⟩,
      [⟨1, .store, true, 8, []⟩, ⟨2, .execute, true, 0, []⟩], 1⟩))
    [(⟨1, .store, true, 8, []⟩, 1), (⟨2, .execute, true, 0, []⟩, 1)] (by decide) (by decide)
  refine ⟨_, hs, rfl, (setDependencies_exact_iff hs (by decide) (by decide)).mpr ⟨by decide, ?_⟩⟩
  refine fun _ => ⟨fun n hlatest _ => .inr (.inr ?_), fun n hfence _ => .inr ?_⟩
  · obtain rfl := hlatest.unique (d := 2) (by decide)
    decide
  · obtain rfl := hfence.unique (d := 2) (by decide)
    decide

/-- **Barriers that are passed over**: a load does not wait for the fence before it when that is the oldest
micro-op in flight, nor for the store of an atomic instruction, which has the barrier flag. -/
theorem oldest_barrier_is_missed :
    (∃ s, memoryDependencies.ReachableWhen Next s ∧ s.Next (⟨2, .load, false, 8, []⟩, 1) ∧
      IsLatest memBarrier s.earlier 1 ∧
      (s.deps.setDependencies ⟨2, .load, false, 8, []⟩ 1).map (·.2.dependencies) = some []) ∧
    ∃ s, memoryDependencies.ReachableWhen Next s ∧ s.Next (⟨2, .load, false, 16, []⟩, 0) ∧
      IsLatest memBarrier s.earlier 1 ∧
      (s.deps.setDependencies ⟨2, .load, false, 16, []⟩ 0).map (·.2.dependencies) = some [] := by
  refine ⟨Machine.exists_reachableWhen (fun s i => decide (s.Next i)) ?_
      [(⟨1, .execute, true, 0, []⟩, 1)] (by decide) (by decide),
    Machine.exists_reachableWhen (fun s i => decide (s.Next i)) ?_
      [(⟨1, .store, true, 8, []⟩, 0)] (by decide) (by decide)⟩
  all_goals exact fun _ _ => of_decide_eq_true

end

end DependencyRun

end MultiCoreMemory.Sniper
