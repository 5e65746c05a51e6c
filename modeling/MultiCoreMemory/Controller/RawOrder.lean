import MultiCoreMemory.Controller.Conservation
import MultiCoreMemory.MemorySystem.GenericDRAMSystem

/-!
# Read after write

`send` answers a read from the write buffer when a write to its address waits there.  A write whose
row is being opened waits in the active buffer instead, where `send` does not look.
-/

namespace MultiCoreMemory

open List Function

variable {C σ : Type}

namespace Request

def isSentRead (r : Request C) : Bool := r.typeId = typeRead && r.arrive ≠ -1

def isSentWrite (r : Request C) : Bool := r.typeId = typeWrite && r.arrive ≠ -1

end Request

def olderWrites (log : List (Effect C)) (r : Request C) : List (Request C) :=
  log.filterMap fun
    | .accepted w =>
      if w.isSentWrite ∧ w.addr = r.addr ∧ w.tag < r.tag then some w else none
    | _ => none

section

variable [DecidableEq C]

/-- If the event is the `RD` of a read, the older writes are done. -/
def waitsForWrites (e : Effect C) (earlier : List (Effect C)) : Bool :=
  match e with
  | .issued command r =>
    if r.finalCommand = some command ∧ r.isSentRead then
      (olderWrites earlier r).all fun w => earlier.any (Effect.final w.tag)
    else true
  | _ => true

/-- Every `RD` comes after the final commands of the older writes to its address. -/
def rawOrdered : List (Effect C) → Bool
  | [] => true
  | e :: earlier => waitsForWrites e earlier && rawOrdered earlier

theorem waitsForWrites_of_not_final {command : C} {r : Request C} {log : List (Effect C)}
    (h : r.finalCommand ≠ some command) : waitsForWrites (.issued command r) log = true := by
  simp [waitsForWrites, h]

end

/-! ## The invariant -/

namespace Queues

variable {i : ℕ} {r x : Request C} {q q' : Queues C} {id id' : BufferId}

theorem mem_eraseIdx_of_ne {l : List (Request C)} (h : l[i]? = some r) (hx : x ∈ l) (hne : x ≠ r) :
    x ∈ l.eraseIdx i := by
  obtain ⟨j, hj⟩ := mem_iff_getElem?.mp hx
  refine mem_eraseIdx_iff_getElem?.mpr ⟨j, fun hij => ?_, hj⟩
  subst hij
  exact hne (Option.some.inj (hj.symm.trans h))

def activated (q : Queues C) (id : BufferId) (i : ℕ) (r : Request C) : BufferId → List (Request C) :=
  update (update q.queue .active (q.queue .active ++ [r])) id
    ((update q.queue .active (q.queue .active ++ [r]) id).eraseIdx i)

theorem mem_of_mem_activated (hx : x ∈ q.activated id i r id') :
    x ∈ q.queue id' ∨ id' = .active ∧ x = r := by
  have hactive : x ∈ update q.queue .active (q.queue .active ++ [r]) id' →
      x ∈ q.queue id' ∨ id' = .active ∧ x = r := by
    intro hx
    by_cases hid : id' = .active
    · subst hid
      rw [update_self] at hx
      simpa using hx
    · rw [update_of_ne hid] at hx
      exact .inl hx
  unfold activated at hx
  by_cases hid : id' = id
  · subst hid
    rw [update_self] at hx
    exact hactive (mem_of_mem_eraseIdx hx)
  · rw [update_of_ne hid] at hx
    exact hactive hx

theorem exists_mem_activated (hget : (q.queue id)[i]? = some r) (hx : x ∈ q.queue id') :
    ∃ id'', x ∈ q.activated id i r id'' := by
  unfold activated
  by_cases hxr : x = r
  · subst hxr
    refine ⟨.active, ?_⟩
    by_cases hid : id = .active
    · subst hid
      obtain ⟨hlt, -⟩ := List.getElem?_eq_some_iff.mp hget
      simp [List.eraseIdx_append_of_lt_length hlt]
    · simp [update_of_ne (Ne.symm hid)]
  · refine ⟨id', ?_⟩
    by_cases hid : id' = id
    · subst hid
      rw [update_self]
      by_cases hactive : id' = .active
      · subst hactive
        obtain ⟨hlt, -⟩ := List.getElem?_eq_some_iff.mp hget
        rw [update_self, List.eraseIdx_append_of_lt_length hlt]
        exact List.mem_append_left _ (mem_eraseIdx_of_ne hget hx hxr)
      · rw [update_of_ne hactive]
        exact mem_eraseIdx_of_ne hget hx hxr
    · rw [update_of_ne hid]
      by_cases hactive : id' = .active
      · subst hactive
        simp [hx]
      · rwa [update_of_ne hactive]

variable [DecidableEq C]

/-- The invariant of the five queues, kept by every move without a hazard or a loss. -/
structure RawInv (q : Queues C) : Prop where
  tags : ∀ id, ∀ r ∈ q.queue id, r.tag < q.next
  unsent : ∀ r ∈ q.queue .priority, r.arrive = -1
  reads : ∀ r ∈ q.queue .read, r.typeId = typeRead
  /-- no queued read has an older write to its address in a queue -/
  waiting : ∀ id, ∀ r ∈ q.queue id, r.isSentRead → ∀ id', ∀ w ∈ q.queue id', w.isSentWrite →
    w.addr = r.addr → r.tag < w.tag
  logged : ∀ w, .accepted w ∈ q.log → w.isSentWrite →
    (∃ id, w ∈ q.queue id) ∨ q.log.any (Effect.final w.tag) = true
  ordered : rawOrdered q.log = true

theorem RawInv.shrink {e : Effect C} (h : q.RawInv) (hnext : q.next ≤ q'.next)
    (hlog : q'.log = e :: q.log) (hnew : ∀ w, e ≠ .accepted w)
    (hsub : ∀ id, ∀ r ∈ q'.queue id, ∃ id', r ∈ q.queue id')
    (hpriority : ∀ r ∈ q'.queue .priority, r ∈ q.queue .priority)
    (hread : ∀ r ∈ q'.queue .read, r ∈ q.queue .read)
    (hgone : ∀ id, ∀ w ∈ q.queue id, (∃ id', w ∈ q'.queue id') ∨ e.final w.tag = true)
    (hordered : waitsForWrites e q.log = true) : q'.RawInv where
  tags := fun id r hr => by
    obtain ⟨id', hr'⟩ := hsub id r hr
    exact (h.tags id' r hr').trans_le hnext
  unsent := fun r hr => h.unsent r (hpriority r hr)
  reads := fun r hr => h.reads r (hread r hr)
  waiting := fun id r hr hsent id' w hw => by
    obtain ⟨i, hr'⟩ := hsub id r hr
    obtain ⟨j, hw'⟩ := hsub id' w hw
    exact h.waiting i r hr' hsent j w hw'
  logged := fun w hw hsent => by
    rw [hlog] at hw ⊢
    rw [any_cons, Bool.or_eq_true]
    rcases mem_cons.mp hw with heq | hw
    · exact absurd heq.symm (hnew w)
    · rcases h.logged w hw hsent with ⟨id, hid⟩ | hdone
      · exact (hgone id w hid).imp_right .inl
      · exact .inr (.inr hdone)
  ordered := by
    rw [hlog]
    simp [rawOrdered, hordered, h.ordered]

omit [DecidableEq C] in
theorem mem_update_append {queue : BufferId → List (Request C)} {r' : Request C}
    (hr' : r' ∈ update queue id (queue id ++ [r]) id') :
    r' ∈ queue id' ∨ id' = id ∧ r' = r := by
  by_cases hid : id' = id
  · subst hid
    rw [update_self] at hr'
    exact (mem_append.mp hr').imp_right fun h => ⟨rfl, mem_singleton.mp h⟩
  · rw [update_of_ne hid] at hr'
    exact .inl hr'

theorem RawInv.no_write_waits (h : q.RawInv) (henters : Enters false q id r) (hsent : r.isSentRead)
    {w : Request C} (hw : w ∈ q.queue id') (hwrite : w.isSentWrite) : w.addr ≠ r.addr := by
  simp only [Request.isSentRead, Request.isSentWrite, Bool.and_eq_true, decide_eq_true_eq]
    at hsent hwrite
  cases id with
  | active => exact absurd rfl henters.notActive
  | priority => exact absurd (henters.priority rfl) hsent.2
  | write => exact absurd (hsent.1.symm.trans (henters.write rfl).1) (by decide)
  | read =>
    obtain ⟨-, -, hwait, hactive⟩ := henters.read rfl
    cases id' with
    | active => exact hactive rfl w hw hwrite.1
    | priority => exact absurd (h.unsent w hw) hwrite.2
    | read => exact absurd ((h.reads w hw).symm.trans hwrite.1) (by decide)
    | write => exact hwait w hw

theorem RawInv.accept (h : q.RawInv) (henters : Enters false q id r) :
    ({ q.setQueue id (q.queue id ++ [r]) with next := q.next + 1 }.record (.accepted r)).RawInv := by
  refine ⟨fun id' r' hr' => ?_, fun r' hr' => ?_, fun r' hr' => ?_, ?_, ?_, ?_⟩
  · rcases mem_update_append hr' with hr' | ⟨-, rfl⟩
    · exact (h.tags id' r' hr').trans (Nat.lt_succ_self _)
    · exact henters.tag ▸ Nat.lt_succ_self _
  · rcases mem_update_append hr' with hr' | ⟨hid, rfl⟩
    · exact h.unsent r' hr'
    · exact henters.priority hid.symm
  · rcases mem_update_append hr' with hr' | ⟨hid, rfl⟩
    · exact h.reads r' hr'
    · exact (henters.read hid.symm).1
  · intro i r' hr' hsent j w hw hwrite haddr
    rcases mem_update_append hr' with hr₁ | ⟨-, rfl⟩ <;> rcases mem_update_append hw with hw₁ | ⟨-, rfl⟩
    · exact h.waiting i r' hr₁ hsent j w hw₁ hwrite haddr
    · exact henters.tag ▸ h.tags i r' hr₁
    · exact absurd haddr (h.no_write_waits henters hsent hw₁ hwrite)
    · simp only [Request.isSentRead, Request.isSentWrite, Bool.and_eq_true, decide_eq_true_eq]
        at hsent hwrite
      exact absurd (hsent.1.symm.trans hwrite.1) (by decide)
  · intro w hw hsent
    change (∃ i, w ∈ update q.queue id (q.queue id ++ [r]) i) ∨ _
    rcases mem_cons.mp hw with heq | hw
    · cases heq
      exact .inl ⟨id, by simp⟩
    · rcases h.logged w hw hsent with ⟨i, hi⟩ | hdone
      · refine .inl ⟨i, ?_⟩
        by_cases hid : i = id
        · subst hid
          simp [hi]
        · simpa [hid] using hi
      · exact .inr (by simpa [record, Effect.final] using hdone)
  · simpa [record, rawOrdered, waitsForWrites] using h.ordered

theorem RawInv.remove {command : C} (h : q.RawInv) (hget : (q.queue id)[i]? = some r)
    (hfinal : r.finalCommand = some command) (hnext : q.next ≤ q'.next)
    (hlog : q'.log = .issued command r :: q.log)
    (hqueue : q'.queue = update q.queue id ((q.queue id).eraseIdx i)) : q'.RawInv := by
  have hmem : ∀ id', ∀ x ∈ q'.queue id', x ∈ q.queue id' := by
    intro id' x hx
    rw [hqueue] at hx
    by_cases hid : id' = id
    · subst hid
      rw [update_self] at hx
      exact mem_of_mem_eraseIdx hx
    · rwa [update_of_ne hid] at hx
  refine h.shrink hnext hlog (fun _ => by simp) (fun id' x hx => ⟨id', hmem id' x hx⟩)
    (hmem .priority) (hmem .read) (fun id' x hx => ?_) ?_
  · by_cases hxr : x = r
    · exact .inr (by simp [Effect.final, hxr, hfinal])
    · refine .inl ⟨id', ?_⟩
      rw [hqueue]
      by_cases hid : id' = id
      · subst hid
        rw [update_self]
        exact mem_eraseIdx_of_ne hget hx hxr
      · rwa [update_of_ne hid]
  · -- an older write to the address is not in a queue, so it is done
    simp only [waitsForWrites]
    split
    · rename_i hread
      refine List.all_eq_true.mpr fun w hw => ?_
      obtain ⟨e, he, hwe⟩ := mem_filterMap.mp hw
      cases e with
      | accepted w' =>
        simp only [Option.ite_none_right_eq_some] at hwe
        obtain ⟨⟨hsent, haddr, htag⟩, hww⟩ := hwe
        cases hww
        rcases h.logged w he hsent with ⟨id', hw'⟩ | hdone
        · have := h.waiting id r (mem_of_getElem? hget) hread.2 id' w hw' hsent haddr
          omega
        · exact hdone
      | _ => simp at hwe
    · rfl

theorem move_rawInv {D : IDRAM C σ} {p : ControllerParams} (h : q.RawInv)
    (hmove : Move D p false false q q') : q'.RawInv := by
  cases hmove with
  | clock => exact ⟨h.tags, h.unsent, h.reads, h.waiting, h.logged, h.ordered⟩
  | refuse =>
    exact ⟨fun id r hr => (h.tags id r hr).trans (Nat.lt_succ_self _), h.unsent, h.reads, h.waiting,
      h.logged, h.ordered⟩
  | accept id r henters => exact h.accept henters
  | forward r =>
    exact h.shrink (Nat.le_succ _) rfl (fun _ => by simp) (fun id r hr => ⟨id, hr⟩) (fun _ hr => hr)
      (fun _ hr => hr) (fun id w hw => .inl ⟨id, hw⟩) rfl
  | complete r rest hhead hdue =>
    exact h.shrink le_rfl rfl (fun _ => by simp) (fun id r hr => ⟨id, hr⟩) (fun _ hr => hr)
      (fun _ hr => hr) (fun id w hw => .inl ⟨id, hw⟩) rfl
  | keep id i r command hget hfinal =>
    exact h.shrink le_rfl rfl (fun _ => by simp) (fun id r hr => ⟨id, hr⟩) (fun _ hr => hr)
      (fun _ hr => hr) (fun id w hw => .inl ⟨id, hw⟩) (waitsForWrites_of_not_final hfinal)
  | finishRead id i r command hget hfinal => exact h.remove hget hfinal le_rfl rfl rfl
  | finish id i r command hget hfinal => exact h.remove hget hfinal le_rfl rfl rfl
  | activate id i r command hget hfinal =>
    have hsub : ∀ id', ∀ x ∈ q.activated id i r id', x ∈ q.queue id' ∨ id' = .active ∧ x = r :=
      fun _ _ hx => mem_of_mem_activated hx
    refine h.shrink le_rfl rfl (fun _ => by simp) (fun id' x hx => ?_)
      (fun x hx => (hsub .priority x hx).resolve_right fun h => by cases h.1)
      (fun x hx => (hsub .read x hx).resolve_right fun h => by cases h.1)
      (fun id' x hx => .inl (exists_mem_activated hget hx)) (waitsForWrites_of_not_final hfinal)
    rcases hsub id' x hx with hx | ⟨-, rfl⟩
    · exact ⟨id', hx⟩
    · exact ⟨id, mem_of_getElem? hget⟩
  | lose _ _ _ _ hlossy => cases hlossy

end Queues

/-! ## Whole runs -/

/-- What the order needs of a call: no read is queued while a write to its address is active, and a
cycle starts with room in the active buffer. -/
def KeepsOrder (s : Run C σ) : Call C σ → Prop
  | .send r => s.ctrl.NoHazard r
  | .tick _ _ => s.ActiveHasRoom
  | _ => True

instance (s : Run C σ) : (call : Call C σ) → Decidable (KeepsOrder s call)
  | .send r => inferInstanceAs (Decidable (r.typeId = typeRead →
      (∀ w ∈ s.ctrl.writeBuffer.buffer, w.addr ≠ r.addr) →
        ∀ w ∈ s.ctrl.activeBuffer.buffer, w.typeId = typeWrite → w.addr ≠ r.addr))
  | .tick _ _ =>
    inferInstanceAs (Decidable (s.ctrl.activeBuffer.size ≤ s.ctrl.activeBuffer.maxSize))
  | .prioritySend _ | .device _ => inferInstanceAs (Decidable True)

/-- **Read after write**: if every call keeps to `KeepsOrder`, a `RD` comes after the final commands of
the older writes to its address, and no read waits while such a write does. -/
theorem read_after_write_ordered [DecidableEq C] (D : IDRAM C σ) (p : ControllerParams) (d : σ)
    (s : Run C σ) (h : (Controller.machine D p d).ReachableWhen KeepsOrder s) :
    rawOrdered s.log = true ∧
      ∀ id, ∀ r ∈ (s.ctrl.buf id).buffer, r.isSentRead → ∀ id', ∀ w ∈ (s.ctrl.buf id').buffer,
        w.isSentWrite → w.addr = r.addr → r.tag < w.tag := by
  have hinv : s.queues.RawInv := by
    refine Run.queues_invariant false false (P := Queues.RawInv) (fun _ s _ _ hok => hok)
      (fun _ s r hok => hok) ?_ (fun q q' => Queues.move_rawInv) h
    refine ⟨fun id r hr => ?_, fun r hr => (by cases hr), fun r hr => (by cases hr),
      fun id r hr => ?_, fun w hw => (by cases hw), rfl⟩ <;> cases id <;> cases hr
  refine ⟨hinv.ordered, fun id r hr hsent id' w hw hwrite haddr => ?_⟩
  exact hinv.waiting id r.core (List.mem_map_of_mem hr) hsent id' w.core (List.mem_map_of_mem hw)
    hwrite haddr

/-! ## A read that overtakes a write -/

namespace DDR4

def Config.twoBankgroups : Config := ⟨⟨1, 1, 2, 2⟩, Timings.ddr4_2400R⟩

abbrev orderMachine : Machine (Run Command Device) (Call Command Device) :=
  Controller.machine (idram Config.twoBankgroups) ControllerParams.shipped
    (Device.create Config.twoBankgroups)

def cycles (n : ℕ) : List (Call Command Device) :=
  (List.replicate n [.device (Device.tick Config.twoBankgroups), .tick [] []]).flatten

def inBankgroup (typeId : ℕ) (addr bg : ℤ) : Request Command :=
  { addr := addr, addrVec := [0, 0, bg, 0, 0, 0], typeId := typeId, sourceId := 0 }

/-- Bank group 1 is open; a write opens bank group 0; a `RD` to bank group 1 comes before the row is
open; then the address of the write is read. -/
def overtaking : List (Call Command Device) :=
  [.send (inBankgroup typeRead 64 1)] ++ cycles 20 ++ [.send (inBankgroup typeWrite 5 0)] ++
    cycles 15 ++ [.send (inBankgroup typeRead 64 1)] ++ cycles 1 ++
    [.send (inBankgroup typeRead 5 0)] ++ cycles 8

/-- **A read overtakes a write**: the `RD` of request 3 is issued while write 1 to its address is
active. -/
theorem read_overtakes_write :
    ∃ s, orderMachine.Reachable s ∧ s.log.any (Effect.finalRead 3) = true ∧
      s.ctrl.activeBuffer.buffer.map (fun w => (w.tag, w.typeId, w.addr)) = [(1, typeWrite, 5)] ∧
      rawOrdered s.log = false :=
  Machine.exists_reachable overtaking (by decide +kernel)

/-- A read that is sent after the write was issued comes after it. -/
theorem read_follows_write :
    ∃ s, orderMachine.run orderMachine.init ([.send (inBankgroup typeWrite 5 0)] ++ cycles 20 ++
        [.send (inBankgroup typeRead 5 0)] ++ cycles 30) = some s ∧
      s.log.any (Effect.finalRead 1) = true ∧ rawOrdered s.log = true := by
  have hrun : (orderMachine.run orderMachine.init ([.send (inBankgroup typeWrite 5 0)] ++
      cycles 20 ++ [.send (inBankgroup typeRead 5 0)] ++ cycles 30)).map
        (fun s => s.log.any (Effect.finalRead 1)) = some true := by decide +kernel
  obtain ⟨s, hs, hread⟩ := Option.map_eq_some_iff.mp hrun
  have hreach : orderMachine.ReachableWhen KeepsOrder s :=
    Machine.reachableWhen_of_run (fun s call => decide (KeepsOrder s call))
      (fun _ _ h => of_decide_eq_true h) hs (by decide +kernel)
  exact ⟨s, hs, hread, (read_after_write_ordered (idram Config.twoBankgroups)
    ControllerParams.shipped (Device.create Config.twoBankgroups) s hreach).1⟩

end DDR4

end MultiCoreMemory
