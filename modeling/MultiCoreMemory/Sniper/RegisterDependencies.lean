import MultiCoreMemory.Sniper.MemoryDependencies

/-!
# Register dependences in the reorder buffer (`micro_op/register_dependencies.cc`)

A table holds the last producer of every register.  A producer that is no longer in flight is cleared when
the register is read, in the entry of the *mapped* register, which on x86 is the register itself.
-/

namespace MultiCoreMemory.Sniper

open List

/-- A micro-op with the registers that it reads and writes. -/
structure RegisterOp where
  op : DynamicMicroOp
  sourceRegisters : List ℕ
  destinationRegisters : List ℕ
  deriving DecidableEq

structure Decoder where
  lastReg : ℕ
  mapRegister : ℕ → ℕ

abbrev RegisterDependencies := ℕ → UInt64

namespace RegisterDependencies

variable (dec : Decoder) (lowestValid : UInt64) (producers : RegisterDependencies)

def addSource (st : RegisterDependencies × DynamicMicroOp) (reg : ℕ) :
    Option (RegisterDependencies × DynamicMicroOp) :=
  if reg < dec.lastReg then
    if st.1 reg ≠ invalidSeqnr then
      if lowestValid ≤ st.1 reg then (st.2.addDependency (st.1 reg)).map fun op => (st.1, op)
      else some (Function.update st.1 (dec.mapRegister reg) invalidSeqnr, st.2)
    else some st
  else none

def addDestination (sequenceNumber : UInt64) (producers : RegisterDependencies) (reg : ℕ) :
    Option RegisterDependencies :=
  if reg < dec.lastReg then some (Function.update producers reg sequenceNumber) else none

def setDependencies (i : RegisterOp) : Option (RegisterDependencies × DynamicMicroOp) := do
  let (producers, op) ← i.sourceRegisters.foldlM (addSource dec lowestValid) (producers, i.op)
  let producers ← i.destinationRegisters.foldlM (addDestination dec i.op.sequenceNumber) producers
  some (producers, op)

/-- `peekProducer`; `none` is `DL_REG_INVALID`. -/
def peekProducer : Option ℕ → UInt64
  | none => invalidSeqnr
  | some reg =>
    if producers reg = invalidSeqnr ∨ producers reg < lowestValid then invalidSeqnr else producers reg

/-- The producer of a register that is in flight. -/
def live (reg : ℕ) : Option UInt64 :=
  if producers reg ≠ invalidSeqnr ∧ lowestValid ≤ producers reg then some (producers reg) else none

end RegisterDependencies

open RegisterDependencies

/-- The table, the micro-ops so far, newest first, and the lowest number in flight at the last of them. -/
structure RegisterRun where
  producers : RegisterDependencies := fun _ => invalidSeqnr
  earlier : List RegisterOp := []
  lowest : UInt64 := 0

def registerDependencies (dec : Decoder) : Machine RegisterRun (RegisterOp × UInt64) where
  init := {}
  step s i := (setDependencies dec i.2 s.producers i.1).map fun r => ⟨r.1, i.1 :: s.earlier, i.2⟩

namespace RegisterRun

/-- A micro-op has a number, registers and room for dependences; the lowest number does not fall. -/
def Next (dec : Decoder) (s : RegisterRun) (i : RegisterOp × UInt64) : Prop :=
  i.1.op.sequenceNumber ≠ invalidSeqnr ∧ s.lowest ≤ i.2 ∧
    (∀ reg ∈ i.1.sourceRegisters, reg < dec.lastReg) ∧
    (∀ reg ∈ i.1.destinationRegisters, reg < dec.lastReg) ∧
    i.1.op.dependencies.length + i.1.sourceRegisters.length ≤ 14
  deriving Decidable

def lastWriter (earlier : List RegisterOp) (reg : ℕ) : Option UInt64 :=
  (earlier.find? fun e => reg ∈ e.destinationRegisters).map fun e => e.op.sequenceNumber

/-- The table shows who wrote a register last, if that micro-op is in flight. -/
def Tracks (s : RegisterRun) : Prop :=
  ∀ lowest, s.lowest ≤ lowest → ∀ reg,
    live lowest s.producers reg = (lastWriter s.earlier reg).filter (lowest ≤ ·)

end RegisterRun

open RegisterRun

/-! ## The loops -/

variable {dec : Decoder} {lowest : UInt64} {p : RegisterDependencies} {op : DynamicMicroOp}

theorem DynamicMicroOp.addDependency_spec (hroom : op.dependencies.length < 14) (n : UInt64) :
    ∃ op', op.addDependency n = some op' ∧ op'.dependencies.length ≤ op.dependencies.length + 1 ∧
      ∀ d, d ∈ op'.dependencies ↔ d ∈ op.dependencies ∨ n = d := by
  unfold addDependency
  rw [if_pos hroom]
  split
  · rename_i hmem
    refine ⟨op, rfl, Nat.le_succ _, fun d => ⟨.inl, ?_⟩⟩
    rintro (hd | rfl)
    · exact hd
    · exact hmem
  · exact ⟨_, rfl, by simp, by simp [eq_comm]⟩

theorem live_update_stale {reg : ℕ} {lowest' : UInt64} (hstale : p reg < lowest) (hle : lowest ≤ lowest') :
    live lowest' (Function.update p reg invalidSeqnr) = live lowest' p := by
  funext r
  unfold live
  by_cases hr : r = reg
  · subst hr
    have hnot : ¬ lowest' ≤ p r := fun h => UInt64.not_le.mpr hstale (UInt64.le_trans hle h)
    simp [hnot]
  · rw [Function.update_of_ne hr]

/-- Reading a register takes nothing from the table that is in flight. -/
theorem addSource_spec (lowest : UInt64) (p : RegisterDependencies) {reg : ℕ}
    (hmap : dec.mapRegister reg = reg) (hreg : reg < dec.lastReg) (hroom : op.dependencies.length < 14) :
    ∃ p' op', addSource dec lowest (p, op) reg = some (p', op') ∧
      op'.dependencies.length ≤ op.dependencies.length + 1 ∧
      (∀ lowest', lowest ≤ lowest' → live lowest' p' = live lowest' p) ∧
      ∀ d, d ∈ op'.dependencies ↔ d ∈ op.dependencies ∨ live lowest p reg = some d := by
  unfold addSource
  rw [if_pos hreg]
  dsimp only
  split
  · rename_i hvalid
    split
    · rename_i hlive
      obtain ⟨op', hadd, hlen, hdeps⟩ := op.addDependency_spec hroom (p reg)
      refine ⟨p, op', by rw [hadd, Option.map_some], hlen, fun _ _ => rfl, ?_⟩
      simpa [live, hvalid, hlive] using hdeps
    · rename_i hstale
      rw [hmap]
      refine ⟨_, op, rfl, Nat.le_succ _, fun _ => live_update_stale (UInt64.not_le.mp hstale), ?_⟩
      simp [live, hstale]
  · rename_i hnone
    exact ⟨p, op, rfl, Nat.le_succ _, fun _ _ => rfl, by simp [live, not_not.mp hnone]⟩

theorem foldlM_addSource_spec (hmap : ∀ reg, dec.mapRegister reg = reg) (lowest : UInt64)
    (p : RegisterDependencies) (regs : List ℕ) (hregs : ∀ reg ∈ regs, reg < dec.lastReg)
    (hroom : op.dependencies.length + regs.length ≤ 14) :
    ∃ p' op', regs.foldlM (addSource dec lowest) (p, op) = some (p', op') ∧
      (∀ lowest', lowest ≤ lowest' → live lowest' p' = live lowest' p) ∧
      ∀ d, d ∈ op'.dependencies ↔ d ∈ op.dependencies ∨ ∃ reg ∈ regs, live lowest p reg = some d := by
  induction regs generalizing p op with
  | nil => exact ⟨p, op, rfl, fun _ _ => rfl, by simp⟩
  | cons reg regs ih =>
    rw [length_cons] at hroom
    have hlt : op.dependencies.length < 14 := by omega
    obtain ⟨p₁, op₁, hfirst, hlen, hlive₁, hdeps₁⟩ :=
      addSource_spec lowest p (hmap reg) (hregs reg mem_cons_self) hlt
    have hroom₁ : op₁.dependencies.length + regs.length ≤ 14 := by omega
    obtain ⟨p₂, op₂, hrest, hlive₂, hdeps₂⟩ := ih p₁ (fun r hr => hregs r (mem_cons_of_mem _ hr)) hroom₁
    refine ⟨p₂, op₂, ?_, fun l hl => (hlive₂ l hl).trans (hlive₁ l hl), fun d => ?_⟩
    · rw [foldlM_cons, hfirst]
      exact hrest
    · rw [hdeps₂, hdeps₁, hlive₁ lowest UInt64.le_rfl, exists_mem_cons_iff, or_assoc]

theorem foldlM_addDestination (n : UInt64) (regs : List ℕ) (hregs : ∀ reg ∈ regs, reg < dec.lastReg) :
    regs.foldlM (addDestination dec n) p = some fun reg => if reg ∈ regs then n else p reg := by
  induction regs generalizing p with
  | nil => simp
  | cons reg regs ih =>
    rw [foldlM_cons, addDestination, if_pos (hregs reg mem_cons_self)]
    refine (ih fun r hr => hregs r (mem_cons_of_mem _ hr)).trans (congrArg some (funext fun r => ?_))
    by_cases hr : r = reg <;> simp [hr]

/-! ## Runs -/

variable {s : RegisterRun} {i : RegisterOp × UInt64}

theorem RegisterRun.Tracks.setDependencies (hs : s.Tracks) (hmap : ∀ reg, dec.mapRegister reg = reg)
    (hnext : Next dec s i) :
    ∃ p' op', setDependencies dec i.2 s.producers i.1 = some (p', op') ∧
      Tracks ⟨p', i.1 :: s.earlier, i.2⟩ ∧
      ∀ d, d ∈ op'.dependencies ↔ d ∈ i.1.op.dependencies ∨
        ∃ reg ∈ i.1.sourceRegisters, lastWriter s.earlier reg = some d ∧ i.2 ≤ d := by
  obtain ⟨hnumber, hlowest, hregs, hdestinations, hroom⟩ := hnext
  obtain ⟨p₁, op₁, hsources, hlive, hdeps⟩ :=
    foldlM_addSource_spec hmap i.2 s.producers i.1.sourceRegisters hregs hroom
  have hset : RegisterDependencies.setDependencies dec i.2 s.producers i.1 = some (fun reg =>
      if reg ∈ i.1.destinationRegisters then i.1.op.sequenceNumber else p₁ reg, op₁) := by
    simp [RegisterDependencies.setDependencies, hsources, foldlM_addDestination _ _ hdestinations]
  refine ⟨_, op₁, hset, fun lowest hle reg => ?_, fun d => ?_⟩
  · have hbefore := (congrFun (hlive lowest hle) reg).trans
      (hs lowest (UInt64.le_trans hlowest hle) reg)
    unfold live lastWriter at *
    by_cases hreg : reg ∈ i.1.destinationRegisters
    · simp [hreg, hnumber, Option.filter]
    · simp [hreg, hbefore]
  · simp [hdeps, hs i.2 hlowest, Option.filter_eq_some_iff]

theorem RegisterRun.tracks_of_reachable (hmap : ∀ reg, dec.mapRegister reg = reg)
    (h : (registerDependencies dec).ReachableWhen (Next dec) s) : s.Tracks := by
  refine h.invariant (P := Tracks) ?_ ?_
  · intro lowest _ reg
    rfl
  · intro s i s' hs hnext hstep
    obtain ⟨p', op', hset, htracks, -⟩ := hs.setDependencies hmap hnext
    simp only [registerDependencies, hset, Option.map_some, Option.some.injEq] at hstep
    exact hstep ▸ htracks

/-- **A micro-op depends on exactly the micro-ops in flight that wrote its source registers last**, where a
register is mapped to itself (x86), and `peekProducer` names them. -/
theorem register_dependencies_exact (dec : Decoder) (hmap : ∀ reg, dec.mapRegister reg = reg)
    (h : (registerDependencies dec).ReachableWhen (Next dec) s) :
    (∀ i, Next dec s i → ∃ p' op', setDependencies dec i.2 s.producers i.1 = some (p', op') ∧
      ∀ d, d ∈ op'.dependencies ↔ d ∈ i.1.op.dependencies ∨
        ∃ reg ∈ i.1.sourceRegisters, lastWriter s.earlier reg = some d ∧ i.2 ≤ d) ∧
    ∀ lowest, s.lowest ≤ lowest → ∀ reg, peekProducer lowest s.producers (some reg) =
      ((lastWriter s.earlier reg).filter (lowest ≤ ·)).getD invalidSeqnr := by
  have htracks := tracks_of_reachable hmap h
  constructor
  · intro i hnext
    obtain ⟨p', op', hset, -, hdeps⟩ := htracks.setDependencies hmap hnext
    exact ⟨p', op', hset, hdeps⟩
  · intro lowest hle reg
    rw [← htracks lowest hle reg, peekProducer, live]
    by_cases hnone : s.producers reg = invalidSeqnr
    · simp [hnone]
    · by_cases hlow : lowest ≤ s.producers reg
      · simp [hnone, hlow, UInt64.not_lt.mpr]
      · simp [hlow, UInt64.not_le.mp]

/-- Register 2 is written twice: the third micro-op depends on the second write. -/
theorem register_dependencies_exact_two_writers :
    ∃ s, (registerDependencies ⟨4, id⟩).Reachable s ∧
      ∃ p' op', setDependencies ⟨4, id⟩ 1 s.producers ⟨⟨3, .execute, false, 0, []⟩, [2], []⟩ =
        some (p', op') ∧ 2 ∈ op'.dependencies ∧ 1 ∉ op'.dependencies := by
  obtain ⟨s, hreach, hnext, hlast⟩ := Machine.exists_reachableWhen (m := registerDependencies ⟨4, id⟩)
    (fun s i => decide (Next ⟨4, id⟩ s i)) (fun _ _ => of_decide_eq_true)
    (P := fun s => Next ⟨4, id⟩ s (⟨⟨3, .execute, false, 0, []⟩, [2], []⟩, 1) ∧
      lastWriter s.earlier 2 = some 2)
    [(⟨⟨1, .load, false, 0, []⟩, [], [2]⟩, 1), (⟨⟨2, .execute, false, 0, []⟩, [3], [2]⟩, 1)]
    (by decide) (by decide)
  obtain ⟨p', op', hset, hdeps⟩ := (register_dependencies_exact ⟨4, id⟩ (fun _ => rfl) hreach).1 _ hnext
  exact ⟨s, hreach.reachable, p', op', hset, by simp [hdeps, hlast], by simp [hdeps, hlast]⟩

end MultiCoreMemory.Sniper
