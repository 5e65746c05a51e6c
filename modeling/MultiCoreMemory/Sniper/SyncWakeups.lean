import MultiCoreMemory.Sniper.SyncServer

/-!
# No wake-up is lost
-/

namespace MultiCoreMemory

open WaitQueues List Option Function

namespace SyncEvent

variable {T M : Type} [DecidableEq T] [DecidableEq M]

/-- The thread that queues at the mutex, if the event is that. -/
@[simp]
def queuedAt (mux : M) : SyncEvent T M → List T
  | .queued mux' thread => if mux' = mux then [thread] else []
  | _ => []

/-- The thread that is handed the mutex, if the event is that. -/
@[simp]
def handedOverAt (mux : M) : SyncEvent T M → List T
  | .handedOver mux' thread => if mux' = mux then [thread] else []
  | _ => []

/-- What happens to the thread. -/
@[simp]
def ofThread (thread : T) : SyncEvent T M → List WaitEvent
  | .stall thread' _ => if thread' = thread then [.stall] else []
  | .resume thread' _ => if thread' = thread then [.resume] else []
  | _ => []

end SyncEvent

namespace SyncState

variable {T M C : Type} [DecidableEq T] [DecidableEq M]

variable (s : SyncState T M C)

/-- The threads that wait at a mutex or a condition variable. -/
def queueOf : M ⊕ C → List T
  | .inl mux => (s.mutexes mux).waiting
  | .inr cond => (s.conds cond).map Prod.fst

/-- The threads that queued at the mutex, in order. -/
@[simp]
def queuedAt (mux : M) : List T := s.events.flatMap (SyncEvent.queuedAt mux)

/-- The threads that were handed the mutex, in order. -/
@[simp]
def handedOverAt (mux : M) : List T :=
  s.events.flatMap (SyncEvent.handedOverAt mux)

/-- The stalls and resumes of the thread. -/
@[simp]
def waitEvents (thread : T) : List WaitEvent :=
  s.events.flatMap (SyncEvent.ofThread thread)

/-- What holds of one mutex: who waits for it, who has it, and in which order it was handed over. -/
structure MutexOk (s : SyncState T M C) (mux : M) : Prop where
  free : (s.mutexes mux).owner = none → (s.mutexes mux).waiting = []
  pending : ∀ t ∈ (s.mutexes mux).waiting, s.pending t = some mux
  owns : ∀ t, s.stalled t = none → s.pending t = some mux → (s.mutexes mux).owner = some t
  fifo : s.queuedAt mux = s.handedOverAt mux ++ (s.mutexes mux).waiting

/-- The state between two calls. -/
structure Settled (s : SyncState T M C) : Prop where
  placed : Placed s.queueOf fun t => s.stalled t ≠ none
  mutex : ∀ mux, s.MutexOk mux
  cond_pending : ∀ cond, ∀ w ∈ s.conds cond, s.pending w.1 = some w.2
  alternates : ∀ t, Alternating (s.waitEvents t) (s.stalled t).isSome

variable {s s' : SyncState T M C} {t waiter caller : T} {mux mux' : M} {cond : C}

/-! ## What a change leaves -/

omit [DecidableEq T] in
theorem MutexOk.frame (h : s.MutexOk mux') (hm : s'.mutexes mux' = s.mutexes mux')
    (hqueued : s'.queuedAt mux' = s.queuedAt mux')
    (hhanded : s'.handedOverAt mux' = s.handedOverAt mux')
    (hp : ∀ t ∈ (s.mutexes mux').waiting, s'.pending t = s.pending t)
    (ho : ∀ t, s'.stalled t = none → s'.pending t = some mux' →
      s.stalled t = none ∧ s.pending t = some mux') : s'.MutexOk mux' where
  free := by
    rw [hm]
    exact h.free
  pending := by
    rw [hm]
    intro t ht
    rw [hp t ht]
    exact h.pending t ht
  owns := by
    intro t hrun hpending
    rw [hm]
    exact h.owns t (ho t hrun hpending).1 (ho t hrun hpending).2
  fifo := by rw [hqueued, hhanded, hm, h.fifo]

section

variable (h : s.Settled)
include h

theorem Settled.stalled_of_waiting (ht : t ∈ (s.mutexes mux).waiting) : s.stalled t ≠ none :=
  (h.placed.waits_iff t).mpr ⟨.inl mux, ht⟩

theorem Settled.stalled_of_cond {w : T × M} (hw : w ∈ s.conds cond) : s.stalled w.1 ≠ none :=
  (h.placed.waits_iff w.1).mpr ⟨.inr cond, List.mem_map_of_mem hw⟩

theorem Settled.not_returning (hcan : s.CanCall caller) (howned : (s.mutexes mux).owner = some caller)
    (hrun : s.stalled t = none) : s.pending t ≠ some mux := by
  intro hpending
  have howner := (h.mutex mux).owns t hrun hpending
  rw [howned] at howner
  cases howner
  rw [hcan.2] at hpending
  cases hpending

variable [DecidableEq C]

omit h [DecidableEq T] in
theorem queueOf_update_mutex (s s' : SyncState T M C) (mux : M) (m : SimMutex T)
    (hm : s'.mutexes = Function.update s.mutexes mux m) (hc : s'.conds = s.conds) :
    s'.queueOf = Function.update s.queueOf (.inl mux) m.waiting := by
  funext q
  cases q with
  | inl mux' =>
    by_cases h : mux' = mux
    · subst h
      simp [queueOf, hm]
    · simp [queueOf, hm, h]
  | inr cond => simp [queueOf, hc]

omit h [DecidableEq T] in
theorem queueOf_update_cond (s s' : SyncState T M C) (cond : C) (l : List (T × M))
    (hm : s'.mutexes = s.mutexes) (hc : s'.conds = Function.update s.conds cond l) :
    s'.queueOf = Function.update s.queueOf (.inr cond) (l.map Prod.fst) := by
  funext q
  cases q with
  | inl mux => simp [queueOf, hm]
  | inr cond' =>
    by_cases h : cond' = cond
    · subst h
      simp [queueOf, hc]
    · simp [queueOf, hc, h]

omit [DecidableEq C] in
theorem Settled.alternates_stall {reason : StallReason} (hrun : s.stalled t = none)
    (hstalled : s'.stalled = update s.stalled t (some reason))
    (hevents : ∀ t', s'.waitEvents t' = s.waitEvents t' ++ if t = t' then [.stall] else []) (t' : T) :
    Alternating (s'.waitEvents t') (s'.stalled t').isSome := by
  have halt := h.alternates t'
  rw [hevents, hstalled]
  by_cases ht : t' = t
  · subst ht
    rw [hrun] at halt
    simpa using halt.stall
  · simpa [ht, Ne.symm ht] using halt

omit [DecidableEq C] in
theorem Settled.alternates_resume (hwaits : s.stalled t ≠ none)
    (hstalled : s'.stalled = update s.stalled t none)
    (hevents : ∀ t', s'.waitEvents t' = s.waitEvents t' ++ if t = t' then [.resume] else []) (t' : T) :
    Alternating (s'.waitEvents t') (s'.stalled t').isSome := by
  have halt := h.alternates t'
  rw [hevents, hstalled]
  by_cases ht : t' = t
  · subst ht
    rw [isSome_iff_ne_none.mpr hwaits] at halt
    simpa using halt.resume
  · simpa [ht, Ne.symm ht] using halt

/-! ## The caller takes, queues for or gives back a mutex -/

/-- A mutex without waiters changes its owner, and nobody is to return with it. -/
theorem Settled.setOwner (hempty : (s.mutexes mux).waiting = []) (owner : Option T)
    (hreturns : ∀ t, s.stalled t = none → s.pending t ≠ some mux) :
    Settled { s with mutexes := update s.mutexes mux { s.mutexes mux with owner } } := by
  refine ⟨?_, fun mux' => ?_, h.cond_pending, h.alternates⟩
  · have hqueues := queueOf_update_mutex s
      { s with mutexes := update s.mutexes mux { s.mutexes mux with owner } } mux _ rfl rfl
    rw [hqueues]
    exact (update_eq_self (.inl mux) s.queueOf).symm ▸ h.placed
  · by_cases heq : mux' = mux
    · subst heq
      refine ⟨by simp [hempty], by simp [hempty], fun t hrun hpending => ?_, ?_⟩
      · exact absurd hpending (hreturns t hrun)
      · simpa using (h.mutex mux').fifo
    · exact (h.mutex mux').frame (by simp [heq]) rfl rfl (fun _ _ => rfl)
        fun _ hrun hpending => ⟨hrun, hpending⟩

theorem Settled.own (hfree : (s.mutexes mux).owner = none) : (s.own mux t).Settled := by
  refine h.setOwner ((h.mutex mux).free hfree) (some t) fun t' hrun hpending => ?_
  -- a thread that was to return with a free mutex would own it
  have howner := (h.mutex mux).owns t' hrun hpending
  rw [hfree] at howner
  cases howner

theorem Settled.queue (hcan : s.CanCall t) {owner : T} (howned : (s.mutexes mux).owner = some owner) :
    ((s.pushWaiting mux t).stallThread t .mutex mux).Settled := by
  refine ⟨?_, fun mux' => ?_, ?_, fun t' => ?_⟩
  · rw [queueOf_update_mutex s ((s.pushWaiting mux t).stallThread t .mutex mux) mux
      { s.mutexes mux with waiting := (s.mutexes mux).waiting ++ [t] } rfl rfl]
    refine (h.placed.push (a := t) (fun hne => hne hcan.1) (.inl mux)).congr fun t' => ?_
    by_cases ht : t' = t <;> simp [ht]
  · by_cases heq : mux' = mux
    · subst heq
      refine ⟨by simp [howned], fun t' ht' => ?_, fun t' hrun hpending => ?_, ?_⟩
      · simp only [stallThread_mutexes, pushWaiting_mutexes, update_self, mem_append,
          mem_singleton] at ht'
        by_cases ht : t' = t
        · simp [ht]
        · simpa [ht] using (h.mutex mux').pending t' (ht'.resolve_right ht)
      · have ht : t' ≠ t := by
          rintro rfl
          simp at hrun
        simpa using (h.mutex mux').owns t' (by simpa [ht] using hrun) (by simpa [ht] using hpending)
      · have hfifo := (h.mutex mux').fifo
        simp only [queuedAt, handedOverAt] at hfifo
        simp [hfifo]
    · refine (h.mutex mux').frame (by simp [heq]) (by simp [Ne.symm heq]) (by simp) ?_ ?_
      · intro t' ht'
        have ht : t' ≠ t := fun ht => h.stalled_of_waiting ht' (ht ▸ hcan.1)
        simp [ht]
      · intro t' hrun hpending
        have ht : t' ≠ t := by
          rintro rfl
          simp at hrun
        exact ⟨by simpa [ht] using hrun, by simpa [ht] using hpending⟩
  · intro cond w hw
    have ht : w.1 ≠ t := fun ht => h.stalled_of_cond hw (ht ▸ hcan.1)
    simpa [ht] using h.cond_pending cond w hw
  · exact h.alternates_stall hcan.1 rfl (by simp) t'

section

variable (hcan : s.CanCall caller)

include hcan

theorem Settled.release (howned : (s.mutexes mux).owner = some caller)
    (hempty : (s.mutexes mux).waiting = []) : (s.release mux).Settled :=
  h.setOwner hempty none fun _ => h.not_returning hcan howned

theorem Settled.handOver (howned : (s.mutexes mux).owner = some caller) {rest : List T}
    (hwaiting : (s.mutexes mux).waiting = waiter :: rest) :
    ((s.handOver mux waiter rest).resumeThread waiter caller).Settled := by
  have hmem : waiter ∈ (s.mutexes mux).waiting := hwaiting ▸ mem_cons_self
  have hpend := (h.mutex mux).pending waiter hmem
  refine ⟨?_, fun mux' => ?_, h.cond_pending, fun t => ?_⟩
  · rw [queueOf_update_mutex s ((s.handOver mux waiter rest).resumeThread waiter caller) mux
      { owner := some waiter, waiting := rest } rfl rfl]
    have hqueue : s.queueOf (.inl mux) = waiter :: rest := hwaiting
    refine (h.placed.pop hqueue).congr fun t => ?_
    by_cases ht : t = waiter <;> simp [ht]
  · by_cases heq : mux' = mux
    · subst heq
      refine ⟨by simp, fun t ht => ?_, fun t hrun hpending => ?_, ?_⟩
      · simp only [resumeThread_mutexes, handOver_mutexes, update_self] at ht
        exact (h.mutex mux').pending t (hwaiting ▸ mem_cons_of_mem waiter ht)
      · by_cases ht : t = waiter
        · simp [ht]
        · exact absurd hpending (h.not_returning hcan howned (by simpa [ht] using hrun))
      · have hfifo := (h.mutex mux').fifo
        simp only [queuedAt, handedOverAt] at hfifo
        simp [hfifo, hwaiting]
    · refine (h.mutex mux').frame (by simp [heq]) (by simp) (by simp [Ne.symm heq])
        (fun _ _ => rfl) fun t hrun hpending => ?_
      have ht : t ≠ waiter := by
        rintro rfl
        exact heq (some.inj (hpending.symm.trans hpend))
      exact ⟨by simpa [ht] using hrun, hpending⟩
  · exact h.alternates_resume (h.stalled_of_waiting hmem) rfl (by simp) t

theorem Settled.unlock (hunlock : s.unlock caller mux = some s') :
    s'.Settled ∧ s'.CanCall caller := by
  unfold SyncState.unlock at hunlock
  split at hunlock
  · rename_i howned
    split at hunlock
    · rename_i hempty
      cases hunlock
      exact ⟨h.release hcan howned hempty, hcan⟩
    · rename_i waiter rest hwaiting
      cases hunlock
      refine ⟨h.handOver hcan howned hwaiting, ?_, hcan.2⟩
      by_cases ht : caller = waiter
      · simp [ht]
      · simpa [ht] using hcan.1
  · cases hunlock

end

/-! ## Condition variables -/

theorem Settled.park (hcan : s.CanCall t) :
    ((s.setCond cond (s.conds cond ++ [(t, mux)])).stallThread t .cond mux).Settled := by
  have hwaits : ∀ {t'}, s.stalled t' ≠ none → t' ≠ t := by
    rintro _ hne rfl
    exact hne hcan.1
  refine ⟨?_, fun mux' => ?_, ?_, fun t' => ?_⟩
  · rw [queueOf_update_cond s ((s.setCond cond (s.conds cond ++ [(t, mux)])).stallThread t .cond mux)
      cond _ rfl rfl, map_append]
    refine (h.placed.push (a := t) (fun hne => hne hcan.1) (.inr cond)).congr fun t' => ?_
    by_cases ht : t' = t <;> simp [ht]
  · refine (h.mutex mux').frame rfl (by simp) (by simp) ?_ ?_
    · intro t' ht'
      simp [hwaits (h.stalled_of_waiting ht')]
    · intro t' hrun hpending
      have ht : t' ≠ t := by
        rintro rfl
        simp at hrun
      exact ⟨by simpa [ht] using hrun, by simpa [ht] using hpending⟩
  · intro cond' w hw
    have hold : ∀ {cond'}, w ∈ s.conds cond' → w.1 ≠ t := fun hw => hwaits (h.stalled_of_cond hw)
    by_cases hc : cond' = cond
    · subst hc
      simp only [stallThread_conds, setCond_conds, update_self, mem_append,
        mem_singleton] at hw
      obtain hw | rfl := hw
      · simpa [hold hw] using h.cond_pending cond' w hw
      · simp
    · simp only [stallThread_conds, setCond_conds, update_of_ne hc] at hw
      simpa [hold hw] using h.cond_pending cond' w hw
  · exact h.alternates_stall hcan.1 rfl (by simp) t'

variable {rest : List (T × M)}

section

variable (hconds : s.conds cond = (waiter, mux) :: rest)

include hconds

theorem Settled.woken :
    s.stalled waiter ≠ none ∧ s.pending waiter = some mux ∧
      s.queueOf (.inr cond) = waiter :: rest.map Prod.fst ∧
      ∀ cond', ∀ w ∈ (s.setCond cond rest).conds cond', s.pending w.1 = some w.2 := by
  have hmem : (waiter, mux) ∈ s.conds cond := hconds ▸ mem_cons_self
  refine ⟨h.stalled_of_cond hmem, h.cond_pending cond _ hmem, by rw [queueOf, hconds, map_cons],
    fun cond' w hw => ?_⟩
  by_cases hc : cond' = cond
  · subst hc
    rw [setCond_conds, update_self] at hw
    exact h.cond_pending cond' w (hconds ▸ mem_cons_of_mem _ hw)
  · rw [setCond_conds, update_of_ne hc] at hw
    exact h.cond_pending cond' w hw

theorem Settled.wakeOwner (hfree : (s.mutexes mux).owner = none) :
    (((s.setCond cond rest).own mux waiter).resumeThread waiter caller).Settled := by
  obtain ⟨hstalled, hpend, hqueue, hothers⟩ := h.woken hconds
  have hwaiting := (h.mutex mux).free hfree
  refine ⟨?_, fun mux' => ?_, hothers, fun t => ?_⟩
  · have hown := queueOf_update_mutex (s.setCond cond rest)
      (((s.setCond cond rest).own mux waiter).resumeThread waiter caller) mux _ rfl rfl
    rw [hown, show SimMutex.waiting _ = (s.setCond cond rest).queueOf (.inl mux) from rfl,
      update_eq_self, queueOf_update_cond s (s.setCond cond rest) cond rest rfl rfl]
    refine (h.placed.pop hqueue).congr fun t => ?_
    by_cases ht : t = waiter <;> simp [ht]
  · by_cases heq : mux' = mux
    · subst heq
      refine ⟨by simp, by simp [hwaiting], fun t hrun hpending => ?_, ?_⟩
      · by_cases ht : t = waiter
        · simp [ht]
        · have howner := (h.mutex mux').owns t (by simpa [ht] using hrun) hpending
          rw [hfree] at howner
          cases howner
      · simpa using (h.mutex mux').fifo
    · refine (h.mutex mux').frame (by simp [heq]) (by simp) (by simp) (fun _ _ => rfl)
        fun t hrun hpending => ?_
      have ht : t ≠ waiter := by
        rintro rfl
        exact heq (some.inj (hpending.symm.trans hpend))
      exact ⟨by simpa [ht] using hrun, hpending⟩
  · exact h.alternates_resume hstalled rfl (by simp) t

theorem Settled.wakeQueue {owner : T} (howned : (s.mutexes mux).owner = some owner) :
    ((s.setCond cond rest).pushWaiting mux waiter).Settled := by
  obtain ⟨hstalled, hpend, hqueue, hothers⟩ := h.woken hconds
  refine ⟨?_, fun mux' => ?_, hothers, fun t => ?_⟩
  · have hpush := queueOf_update_mutex (s.setCond cond rest)
      ((s.setCond cond rest).pushWaiting mux waiter) mux _ rfl rfl
    rw [hpush, show SimMutex.waiting _ = (s.setCond cond rest).queueOf (.inl mux) ++ [waiter] from rfl,
      queueOf_update_cond s (s.setCond cond rest) cond rest rfl rfl]
    refine ((h.placed.pop hqueue).push (a := waiter) (fun hne => hne.1 rfl) (.inl mux)).congr
      fun t => ?_
    by_cases ht : t = waiter
    · simp [ht, hstalled]
    · simp [ht]
  · by_cases heq : mux' = mux
    · subst heq
      refine ⟨by simp [howned], fun t ht => ?_, fun t hrun hpending => ?_, ?_⟩
      · simp only [pushWaiting_mutexes, setCond_mutexes, update_self, mem_append,
          mem_singleton] at ht
        obtain ht | rfl := ht
        · exact (h.mutex mux').pending t ht
        · exact hpend
      · simpa using (h.mutex mux').owns t hrun hpending
      · have hfifo := (h.mutex mux').fifo
        simp only [queuedAt, handedOverAt] at hfifo
        simp [hfifo]
    · exact (h.mutex mux').frame (by simp [heq]) (by simp [Ne.symm heq]) (by simp) (fun _ _ => rfl)
        fun t hrun hpending => ⟨hrun, hpending⟩
  · simpa using h.alternates t

end

/-! ## The calls -/

theorem Settled.lock (hcan : s.CanCall t) : (s.lock t mux).Settled := by
  unfold SyncState.lock
  split
  · exact h.own ‹_›
  · exact h.queue hcan ‹_›

theorem Settled.signal : (s.signal t cond).Settled := by
  unfold SyncState.signal
  split
  · exact h
  · rename_i waiter mux rest hconds
    unfold lockAsync
    split
    · exact h.wakeOwner hconds ‹_›
    · exact h.wakeQueue hconds ‹_›

theorem Settled.broadcastLoop (rounds : ℕ) : (broadcastLoop t cond rounds s).Settled := by
  induction rounds generalizing s with
  | zero => exact h
  | succ rounds ih =>
    unfold SyncState.broadcastLoop
    split
    · exact h
    · exact ih h.signal

omit [DecidableEq C] in
theorem Settled.returned (hrun : s.stalled t = none) : (s.returned t).Settled := by
  have hwaits : ∀ {t'}, s.stalled t' ≠ none → t' ≠ t := by
    rintro _ hne rfl
    exact hne hrun
  refine ⟨h.placed, fun mux' => ?_, ?_, h.alternates⟩
  · refine (h.mutex mux').frame rfl rfl rfl ?_ ?_
    · intro t' ht'
      simp [hwaits (h.stalled_of_waiting ht')]
    · intro t' hrun' hpending
      have ht : t' ≠ t := by
        rintro rfl
        simp at hpending
      exact ⟨hrun', by simpa [ht] using hpending⟩
  · intro cond w hw
    simpa [hwaits (h.stalled_of_cond hw)] using h.cond_pending cond w hw

theorem Settled.step {call : SyncCall T M C} (hstep : (machine T M C).step s call = some s') :
    s'.Settled := by
  cases call with
  | lock thread mux tryLock =>
    obtain ⟨⟨hcan, -⟩, hlock⟩ := ite_none_right_eq_some.mp hstep
    cases hlock
    unfold mutexLock
    split
    · exact h
    · exact h.lock hcan
  | unlock thread mux =>
    obtain ⟨hcan, hunlock⟩ := ite_none_right_eq_some.mp hstep
    exact (h.unlock hcan hunlock).1
  | wait thread cond mux =>
    obtain ⟨hcan, hwait⟩ := ite_none_right_eq_some.mp hstep
    obtain ⟨s₁, hunlock, rfl⟩ := map_eq_some_iff.mp hwait
    obtain ⟨hsettled, hcan₁⟩ := h.unlock hcan hunlock
    exact hsettled.park hcan₁
  | signal thread cond =>
    obtain ⟨-, hsignal⟩ := ite_none_right_eq_some.mp hstep
    cases hsignal
    exact h.signal
  | broadcast thread cond =>
    obtain ⟨-, hbroadcast⟩ := ite_none_right_eq_some.mp hstep
    cases hbroadcast
    exact h.broadcastLoop _
  | ret thread =>
    obtain ⟨⟨hrun, -⟩, hret⟩ := ite_none_right_eq_some.mp hstep
    cases hret
    exact h.returned hrun

end

variable [DecidableEq C]

theorem settled_init : (machine T M C).init.Settled := by
  have hempty : ∀ q, (machine T M C).init.queueOf q = [] := by
    rintro (mux | cond) <;> rfl
  refine ⟨⟨fun q => ?_, fun {q q' t} hq => ?_, fun t => ?_⟩, fun mux => ?_, ?_, fun t => .nil⟩
  · rw [hempty]
    exact nodup_nil
  · rw [hempty] at hq
    cases hq
  · simp only [hempty, not_mem_nil, exists_false, iff_false]
    exact fun h => h rfl
  · exact ⟨fun _ => rfl, (fun _ h => nomatch h), (fun _ _ h => nomatch h), rfl⟩
  · exact fun _ _ h => nomatch h

theorem settled_of_reachable (h : (machine T M C).Reachable s) : s.Settled :=
  h.invariant (P := Settled) settled_init fun _ _ _ hs _ hstep => hs.step hstep

/-! ## What a call does for the threads that wait -/

/-- The thread has the mutex it waits for and runs, or stands in its queue. -/
def Woken (s : SyncState T M C) (w : T × M) : Prop :=
  ((s.mutexes w.2).owner = some w.1 ∧ s.stalled w.1 = none) ∨ w.1 ∈ (s.mutexes w.2).waiting

/-- The first waiter of the mutex has it and runs; without a waiter it is free. -/
structure HandedOn (s s' : SyncState T M C) (mux : M) : Prop where
  owner : (s'.mutexes mux).owner = (s.mutexes mux).waiting.head?
  waiting : (s'.mutexes mux).waiting = (s.mutexes mux).waiting.tail
  resumed : ∀ w ∈ (s.mutexes mux).waiting.head?, s'.stalled w = none

/-- Every call wakes the threads it should. -/
structure Wakes (s : SyncState T M C) : Prop where
  unlock : ∀ t mux s', (machine T M C).step s (.unlock t mux) = some s' → HandedOn s s' mux
  wait : ∀ t cond mux s', (machine T M C).step s (.wait t cond mux) = some s' →
    HandedOn s s' mux ∧ s'.conds cond = s.conds cond ++ [(t, mux)]
  signal : ∀ t cond s', (machine T M C).step s (.signal t cond) = some s' →
    s'.conds cond = (s.conds cond).tail ∧ ∀ w ∈ (s.conds cond).head?, s'.Woken w
  broadcast : ∀ t cond s', (machine T M C).step s (.broadcast t cond) = some s' →
    s'.conds cond = [] ∧ ∀ w ∈ s.conds cond, s'.Woken w

omit [DecidableEq C] in
theorem handedOn_unlock (h : s.unlock t mux = some s') : HandedOn s s' mux ∧ s'.conds = s.conds := by
  unfold SyncState.unlock at h
  split at h
  · split at h
    · rename_i hempty
      cases h
      exact ⟨⟨by simp [hempty], by simp [hempty], by simp [hempty]⟩, rfl⟩
    · rename_i waiter rest hwaiting
      cases h
      exact ⟨⟨by simp [hwaiting], by simp [hwaiting], by simp [hwaiting]⟩, rfl⟩
  · cases h

/-- **A signal wakes the first waiter**, and no thread that was woken before goes to sleep. -/
theorem Settled.signal_wakes (h : s.Settled) (t : T) (cond : C) :
    (s.signal t cond).conds cond = (s.conds cond).tail ∧
      (∀ w ∈ (s.conds cond).head?, (s.signal t cond).Woken w) ∧
      ∀ w, s.Woken w → (s.signal t cond).Woken w := by
  unfold SyncState.signal
  split
  · rename_i hnone
    simp [hnone]
  rename_i waiter mux rest hconds
  unfold lockAsync
  split
  · rename_i hfree
    refine ⟨by simp [hconds], by simp [hconds, Woken], fun w hw => ?_⟩
    have hmux : w.2 ≠ mux := by
      rintro rfl
      rw [Woken, (h.mutex w.2).free hfree, show (s.mutexes w.2).owner = none from hfree] at hw
      simp at hw
    by_cases hwaiter : w.1 = waiter
    · simpa [Woken, hmux, hwaiter] using hw.imp_left And.left
    · simpa [Woken, hmux, hwaiter] using hw
  · refine ⟨by simp [hconds], by simp [hconds, Woken], fun w hw => ?_⟩
    by_cases hmux : w.2 = mux
    · subst hmux
      exact hw.imp (by simp) (by simp +contextual)
    · simpa [Woken, hmux] using hw

theorem Settled.broadcast_wakes (t : T) (cond : C) (rounds : ℕ) {s : SyncState T M C} (h : s.Settled)
    (hrounds : (s.conds cond).length ≤ rounds) :
    (SyncState.broadcastLoop t cond rounds s).conds cond = [] ∧
      ∀ w, w ∈ s.conds cond ∨ s.Woken w → (SyncState.broadcastLoop t cond rounds s).Woken w := by
  induction rounds generalizing s with
  | zero =>
    have hnil := eq_nil_of_length_eq_zero (Nat.le_zero.mp hrounds)
    simp [SyncState.broadcastLoop, hnil]
  | succ rounds ih =>
    unfold SyncState.broadcastLoop
    split
    · rename_i hnil
      simp [hnil]
    rename_i head rest hconds
    obtain ⟨htail, hhead, hkeep⟩ := h.signal_wakes t cond
    rw [hconds] at htail hhead hrounds
    obtain ⟨hempty, hwoken⟩ := ih (s := s.signal t cond) h.signal (by simpa [htail] using hrounds)
    refine ⟨hempty, fun w hw => hwoken w ?_⟩
    rw [htail]
    obtain hw | hw := hw
    · obtain rfl | hw := mem_cons.mp (hconds ▸ hw)
      · exact .inr (hhead _ rfl)
      · exact .inl hw
    · exact .inr (hkeep w hw)

theorem Settled.wakes (h : s.Settled) : s.Wakes where
  unlock t mux s' hstep := (handedOn_unlock (ite_none_right_eq_some.mp hstep).2).1
  wait t cond mux s' hstep := by
    obtain ⟨hcan, hwait⟩ := ite_none_right_eq_some.mp hstep
    obtain ⟨s₁, hunlock, rfl⟩ := map_eq_some_iff.mp hwait
    obtain ⟨⟨howner, hwaiting, hresumed⟩, hconds⟩ := handedOn_unlock hunlock
    refine ⟨⟨howner, hwaiting, fun w hw => ?_⟩, by simp [hconds]⟩
    -- the caller is not stalled, so it is not the waiter
    have hne : w ≠ t := by
      rintro rfl
      exact h.stalled_of_waiting (mem_of_mem_head? hw) hcan.1
    simpa [hne] using hresumed w hw
  signal t cond s' hstep := by
    obtain ⟨-, hsignal⟩ := ite_none_right_eq_some.mp hstep
    cases hsignal
    exact ⟨(h.signal_wakes t cond).1, (h.signal_wakes t cond).2.1⟩
  broadcast t cond s' hstep := by
    obtain ⟨-, hbroadcast⟩ := ite_none_right_eq_some.mp hstep
    cases hbroadcast
    obtain ⟨hempty, hwoken⟩ := h.broadcast_wakes t cond _ Nat.le.refl
    exact ⟨hempty, fun w hw => hwoken w (.inl hw)⟩

/-- **No wake-up is lost**: a mutex without an owner has no waiters, every stalled thread stands in
exactly one queue, mutexes are handed over in queue order, a thread returns as the owner of its mutex,
every stall has its one resume, and every call wakes the threads it should. -/
theorem sync_loses_no_wakeup (h : (machine T M C).Reachable s) :
    (∀ mux, (s.mutexes mux).owner = none → (s.mutexes mux).waiting = []) ∧
    (∀ t, s.stalled t ≠ none → ∃ q, (s.queueOf q).count t = 1 ∧ ∀ q', q' ≠ q → t ∉ s.queueOf q') ∧
    (∀ mux, s.queuedAt mux = s.handedOverAt mux ++ (s.mutexes mux).waiting) ∧
    (∀ t s', (machine T M C).step s (.ret t) = some s' →
      ∃ mux, s.pending t = some mux ∧ (s.mutexes mux).owner = some t) ∧
    (∀ t, Alternating (s.waitEvents t) (s.stalled t).isSome) ∧ s.Wakes := by
  have hs := settled_of_reachable h
  refine ⟨fun mux => (hs.mutex mux).free, fun t ht => hs.placed.exists_unique ht,
    fun mux => (hs.mutex mux).fifo, fun t s' hret => ?_, hs.alternates, hs.wakes⟩
  obtain ⟨⟨hrun, hpending⟩, -⟩ := ite_none_right_eq_some.mp hret
  obtain ⟨mux, hmux⟩ := ne_none_iff_exists'.mp hpending
  exact ⟨mux, hmux, (hs.mutex mux).owns t hrun hmux⟩

/-- Thread 0 is signalled while thread 1 has the mutex, and gets it after thread 2, which queues. -/
theorem signalled_thread_returns_as_owner :
    ∃ s, (machine (Fin 3) (Fin 1) (Fin 1)).Reachable s ∧ s.handedOverAt 0 = [2, 0] ∧
      ∃ mux, s.pending 0 = some mux ∧ (s.mutexes mux).owner = some 0 := by
  obtain ⟨s, hs, hhanded, hrunning, hpending⟩ := Machine.exists_reachable
    (m := machine (Fin 3) (Fin 1) (Fin 1))
    (P := fun s => s.handedOverAt 0 = [2, 0] ∧ s.stalled 0 = none ∧ s.pending 0 = some 0)
    [.lock 0 0 false, .wait 0 0 0, .lock 1 0 true, .lock 2 0 false, .signal 1 0, .unlock 1 0, .ret 2,
      .unlock 2 0] (by decide +kernel)
  have hret : (machine (Fin 3) (Fin 1) (Fin 1)).step s (.ret 0) = some (s.returned 0) :=
    if_pos ⟨hrunning, hpending ▸ some_ne_none 0⟩
  exact ⟨s, hs, hhanded, (sync_loses_no_wakeup hs).2.2.2.1 0 _ hret⟩

end SyncState

end MultiCoreMemory
