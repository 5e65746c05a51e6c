import MultiCoreMemory.Lib.Matching
import MultiCoreMemory.Sniper.PinnedScheduler

/-!
# Threads and cores in one-to-one correspondence
-/

namespace MultiCoreMemory

open List Option Function

namespace PinnedScheduler

variable {n : ℕ} {s s' : PinnedScheduler n} {t thread : ℕ} {c core : Fin n} {time : UInt64}

/-- The core of a thread in the scheduler's table. -/
def coreOf (s : PinnedScheduler n) (t : ℕ) : Option (Fin n) := (s.threadInfo t).coreRunning

/-- The two tables of the scheduler correspond, and so do the pointers between threads and cores. -/
structure OneToOne (s : PinnedScheduler n) : Prop where
  agree : Matches s.coreOf s.coreThreadRunning
  created : ∀ t, s.coreOf t ≠ none ∨ s.threadsRunnable t = true → t < s.numThreads
  pointer : ∀ t c, s.threadCore t = some c → s.coreOf t = some c
  pointers_agree : Matches s.threadCore s.coreThread
  placed : ∀ p ∈ s.placements, p.mask p.core = true

/-- Threads on cores stay where they are. -/
structure Keeps (s s' : PinnedScheduler n) : Prop where
  core : ∀ t c, s.coreOf t = some c → s'.coreOf t = some c
  pointer : ∀ t c, s.coreOf t = some c → s'.threadCore t = s.threadCore t

theorem Keeps.refl (s : PinnedScheduler n) : s.Keeps s := ⟨fun _ _ h => h, fun _ _ _ => rfl⟩

/-- The call returns, with the correspondence and so many threads. -/
def Returns (num : ℕ) (r : Option (PinnedScheduler n)) : Prop :=
  ∃ s', r = some s' ∧ s'.OneToOne ∧ s'.numThreads = num

theorem OneToOne.of_eq (h : s.OneToOne) (hcore : s'.coreOf = s.coreOf)
    (hrunning : s'.coreThreadRunning = s.coreThreadRunning) (hnum : s'.numThreads = s.numThreads)
    (hrunnable : ∀ t, s'.threadsRunnable t = true → s.threadsRunnable t = true ∨ t < s.numThreads)
    (hthread : s'.threadCore = s.threadCore) (hcoreThread : s'.coreThread = s.coreThread)
    (hplacements : s'.placements = s.placements) : s'.OneToOne where
  agree := by
    rw [hcore, hrunning]
    exact h.agree
  created t ht := by
    rw [hnum]
    rw [hcore] at ht
    rcases ht with ht | ht
    · exact h.created t (.inl ht)
    · exact (hrunnable t ht).elim (fun ht => h.created t (.inr ht)) id
  pointer := by
    rw [hcore, hthread]
    exact h.pointer
  pointers_agree := by
    rw [hcoreThread, hthread]
    exact h.pointers_agree
  placed := by
    rw [hplacements]
    exact h.placed

/-! ## Pointers -/

theorem setCore_none (h : Matches s.threadCore s.coreThread) (thread : ℕ) :
    ∃ coreThread, s.setCore thread none =
        some { s with threadCore := update s.threadCore thread none, coreThread } ∧
      Matches (update s.threadCore thread none) coreThread := by
  cases hcore : s.threadCore thread with
  | none =>
    refine ⟨s.coreThread, by simp only [setCore, hcore], ?_⟩
    rw [← hcore, update_eq_self]
    exact h
  | some old => exact ⟨_, by simp only [setCore, hcore], h.unlink hcore⟩

theorem setCore_some (h : Matches s.threadCore s.coreThread) (hthread : s.threadCore thread = none)
    (hcore : s.coreThread core = none) :
    s.setCore thread (some core) = some { s with
      threadCore := update s.threadCore thread (some core)
      coreThread := update s.coreThread core (some thread) } ∧
    Matches (update s.threadCore thread (some core))
      (update s.coreThread core (some thread)) := by
  refine ⟨?_, h.link hthread hcore⟩
  simp [setCore, hthread, hcore]

theorem OneToOne.setCore_none (h : s.OneToOne) (thread : ℕ) :
    Returns s.numThreads (s.setCore thread none) := by
  obtain ⟨coreThread, heq, hmatch⟩ := PinnedScheduler.setCore_none h.pointers_agree thread
  refine ⟨_, heq, ⟨h.agree, h.created, fun t c ht => ?_, hmatch, h.placed⟩, rfl⟩
  by_cases htt : t = thread
  · simp [htt] at ht
  · exact h.pointer t c (by simpa [htt] using ht)

theorem OneToOne.setCore_some (h : s.OneToOne) (hcore : s.coreOf thread = some core)
    (hthread : s.threadCore thread = none) :
    ∃ s', s.setCore thread (some core) = some s' ∧ s'.OneToOne ∧ s'.numThreads = s.numThreads ∧
      s'.coreOf = s.coreOf ∧ ∀ t, t ≠ thread → s'.threadCore t = s.threadCore t := by
  have hfree : s.coreThread core = none := by
    -- whoever is on the core has it in the tables too, and that is this thread
    cases hc : s.coreThread core with
    | none => rfl
    | some t =>
      have ht := (h.pointers_agree t core).mpr hc
      have hsame := (h.agree t core).mp (h.pointer t core ht)
      rw [(h.agree thread core).mp hcore] at hsame
      rw [← some.inj hsame, hthread] at ht
      cases ht
  obtain ⟨heq, hmatch⟩ := PinnedScheduler.setCore_some h.pointers_agree hthread hfree
  refine ⟨_, heq, ⟨h.agree, h.created, fun t c ht => ?_, hmatch, h.placed⟩, rfl, rfl, fun t ht => ?_⟩
  · by_cases htt : t = thread
    · subst htt
      have hcc : core = c := by simpa using ht
      exact hcc ▸ hcore
    · exact h.pointer t c (by simpa [htt] using ht)
  · simp [ht]

/-! ## The parts of `reschedule` -/

theorem pickThread_candidate (h : s.pickThread time core = some t) : s.isCandidate core t = true := by
  have hfold : ∀ (l : List ℕ) (best : Option ℕ × Int64),
      (∀ t, best.1 = some t → s.isCandidate core t = true) →
      ∀ t, (l.foldl (fun (best : Option ℕ × Int64) thread =>
        if s.isCandidate core thread && best.2 < s.score time thread then
          (some thread, s.score time thread)
        else best) best).1 = some t → s.isCandidate core t = true := by
    intro l
    induction l with
    | nil => exact fun best hbest => hbest
    | cons thread l ih =>
      intro best hbest
      rw [foldl_cons]
      refine ih _ fun t ht => ?_
      split at ht
      · rename_i hcond
        cases ht
        exact (Bool.and_eq_true_iff.mp hcond).1
      · exact hbest t ht
  exact hfold _ (none, Int64.minValue) (by simp) t h

theorem isCandidate_iff : s.isCandidate core t = true ↔
    (s.threadInfo t).coreAffinity core = true ∧ s.threadsRunnable t = true ∧
      (s.coreOf t = none ∨ s.coreOf t = some core) := by
  simp [isCandidate, coreOf, and_assoc]

theorem coreOf_setInfo (s : PinnedScheduler n) (thread : ℕ) (info : ThreadInfo n) :
    (s.setInfo thread info).coreOf = update s.coreOf thread info.coreRunning := by
  funext t
  by_cases ht : t = thread
  · subst ht
    simp [coreOf]
  · simp [coreOf, ht]

theorem OneToOne.vacate (h : s.OneToOne) (hempty : s.coreThreadRunning core = none) :
    (s.setRunning core none).OneToOne := by
  refine h.of_eq rfl ?_ rfl (fun _ ht => .inl ht) rfl rfl rfl
  rw [← hempty]
  exact update_eq_self core s.coreThreadRunning

theorem unschedule_spec (h : s.OneToOne) (time : UInt64) (core : Fin n) :
    ∃ s₁, s.unschedule time core = some s₁ ∧ (s₁.setRunning core none).OneToOne ∧
      s₁.coreThreadRunning = s.coreThreadRunning ∧ s₁.numThreads = s.numThreads ∧
      s₁.threadsRunnable = s.threadsRunnable ∧
      (∀ t, (s₁.threadInfo t).coreAffinity = (s.threadInfo t).coreAffinity) ∧
      (∀ t, s.coreOf t = none → s₁.coreOf t = none) ∧
      (s.coreThreadRunning core = none → s₁ = s) := by
  cases hcurrent : s.coreThreadRunning core with
  | none =>
    refine ⟨s, by simp only [unschedule, hcurrent], ?_, rfl, rfl, rfl, fun _ => rfl, fun _ ht => ht,
      fun _ => rfl⟩
    exact h.vacate hcurrent
  | some current =>
    have hrun := (h.agree current core).mpr hcurrent
    have hlt : current < s.numThreads := h.created current (.inl (hrun ▸ some_ne_none core))
    obtain ⟨info, hinfo⟩ : ∃ info : ThreadInfo n, info = { s.threadInfo current with
      coreRunning := none, lastScheduledOut := time + UInt64.ofNat core * 1000 } := ⟨_, rfl⟩
    have hcoreOf : (s.setInfo current info).coreOf = update s.coreOf current none := by
      rw [coreOf_setInfo, hinfo]
    obtain ⟨coreThread, heq, hmatch⟩ := PinnedScheduler.setCore_none
      (s := s.setInfo current info) h.pointers_agree current
    have hmove : s.unschedule time core = (s.setInfo current info).setCore current none := by
      simp only [unschedule, hcurrent, moveThread, setInfo_numThreads, if_pos hlt, ← hinfo]
    refine ⟨_, hmove.trans heq, ⟨?_, ?_, ?_, hmatch, h.placed⟩, rfl, rfl, rfl, fun t => ?_, fun t ht => ?_,
      fun hnone => nomatch hnone⟩
    · show Matches (s.setInfo current info).coreOf (update s.coreThreadRunning core none)
      rw [hcoreOf]
      exact h.agree.unlink hrun
    · intro t ht
      refine h.created t (ht.imp_left fun hne => ?_)
      change (s.setInfo current info).coreOf t ≠ none at hne
      rw [hcoreOf] at hne
      by_cases htt : t = current
      · simp [htt] at hne
      · simpa [htt] using hne
    · intro t c ht
      show (s.setInfo current info).coreOf t = some c
      rw [hcoreOf]
      change update s.threadCore current none t = some c at ht
      by_cases htt : t = current
      · simp [htt] at ht
      · rw [update_of_ne htt] at ht ⊢
        exact h.pointer t c ht
    · show ((s.setInfo current info).threadInfo t).coreAffinity = _
      by_cases htt : t = current
      · subst htt
        simp [hinfo]
      · simp [htt]
    · show (s.setInfo current info).coreOf t = none
      rw [hcoreOf]
      by_cases htt : t = current
      · simp [htt]
      · simpa [htt] using ht

theorem OneToOne.enter (h : (s.setRunning core none).OneToOne) (hthread : s.coreOf thread = none)
    (hlt : thread < s.numThreads) {mask : Fin n → Bool} (hmask : mask core = true)
    (hcoreOf : s'.coreOf = update s.coreOf thread (some core))
    (hrunning : s'.coreThreadRunning = update s.coreThreadRunning core (some thread))
    (hnum : s'.numThreads = s.numThreads) (hrunnable : s'.threadsRunnable = s.threadsRunnable)
    (hthreadCore : s'.threadCore = s.threadCore) (hcoreThread : s'.coreThread = s.coreThread)
    (hplacements : s'.placements = ⟨thread, core, mask⟩ :: s.placements) : s'.OneToOne where
  agree := by
    have hlink : Matches (update s.coreOf thread (some core))
        (update (update s.coreThreadRunning core none) core (some thread)) :=
      h.agree.link hthread (by simp)
    rw [update_idem] at hlink
    rwa [hcoreOf, hrunning]
  created t ht := by
    rw [hnum]
    rw [hcoreOf, hrunnable] at ht
    by_cases htt : t = thread
    · exact htt ▸ hlt
    · rw [update_of_ne htt] at ht
      exact h.created t ht
  pointer t c ht := by
    rw [hthreadCore] at ht
    rw [hcoreOf]
    have hcore : s.coreOf t = some c := h.pointer t c ht
    have htt : t ≠ thread := by
      rintro rfl
      exact some_ne_none c (hcore.symm.trans hthread)
    rw [update_of_ne htt]
    exact hcore
  pointers_agree := by
    rw [hthreadCore, hcoreThread]
    exact h.pointers_agree
  placed := by
    rw [hplacements]
    rintro p (_ | ⟨_, hp⟩)
    · exact hmask
    · exact h.placed p hp

theorem place_spec (h : (s.setRunning core none).OneToOne) (hthread : s.coreOf thread = none)
    (hlt : thread < s.numThreads) (hmask : (s.threadInfo thread).coreAffinity core = true)
    (time : UInt64) :
    ((s.setRunning core (some thread)).place time core thread).OneToOne ∧
      ((s.setRunning core (some thread)).place time core thread).coreThreadRunning =
        update s.coreThreadRunning core (some thread) ∧
      ((s.setRunning core (some thread)).place time core thread).coreOf =
        update s.coreOf thread (some core) ∧
      ((s.setRunning core (some thread)).place time core thread).threadCore = s.threadCore ∧
      ((s.setRunning core (some thread)).place time core thread).numThreads = s.numThreads := by
  have hleave : (s.setRunning core (some thread)).leaveOldCore thread =
      s.setRunning core (some thread) := by
    unfold leaveOldCore
    rw [show ((s.setRunning core (some thread)).threadInfo thread).coreRunning = none from hthread]
  have hcoreOf : ((s.setRunning core (some thread)).place time core thread).coreOf =
      update s.coreOf thread (some core) := by
    rw [place, coreOf_setInfo, hleave]
    rfl
  rw [place, hleave] at hcoreOf ⊢
  exact ⟨h.enter hthread hlt hmask hcoreOf rfl rfl rfl rfl rfl rfl, rfl, hcoreOf, rfl, rfl⟩

/-- What a call of `reschedule` from the resume hook does: it finds a free core. -/
def Reschedules (resched : PinnedScheduler n → Fin n → Option (PinnedScheduler n))
    (free : ℕ) : Prop :=
  ∀ s core, s.OneToOne → s.coreThreadRunning core = none → freePlaces s.coreThreadRunning ≤ free →
    ∃ s', resched s core = some s' ∧ s'.OneToOne ∧ s'.numThreads = s.numThreads ∧ s.Keeps s'

theorem findFreeCoreForThread_free (h : s.findFreeCoreForThread thread = some core) :
    (s.threadInfo thread).coreAffinity core = true ∧ s.coreThreadRunning core = none := by
  simpa using find?_some h

variable {resched : PinnedScheduler n → Fin n → Option (PinnedScheduler n)} {quantum : UInt64}

section

variable (h : s.OneToOne)
include h

theorem resumeThread_spec (hresched : Reschedules resched (freePlaces s.coreThreadRunning))
    (hlt : thread < s.numThreads) :
    ∃ s', resumeThread resched s thread = some s' ∧ s'.OneToOne ∧ s'.numThreads = s.numThreads ∧
      s.Keeps s' := by
  unfold resumeThread
  rw [if_pos hlt]
  set s₁ : PinnedScheduler n := { s with
    status := update s.status thread .running
    threadsRunnable := update s.threadsRunnable thread true } with hs₁
  have hone : s₁.OneToOne := by
    refine h.of_eq rfl rfl rfl (fun t ht => ?_) rfl rfl rfl
    by_cases htt : t = thread
    · exact .inr (htt ▸ hlt)
    · exact .inl (by simpa [hs₁, htt] using ht)
  dsimp only
  cases hfree : s₁.findFreeCoreForThread thread with
  | none => exact ⟨s₁, rfl, hone, rfl, fun _ _ ht => ht, fun _ _ _ => rfl⟩
  | some core =>
    obtain ⟨s', hs', hone', hnum, hkeeps⟩ :=
      hresched s₁ core hone (findFreeCoreForThread_free hfree).2 le_rfl
    exact ⟨s', hs', hone', hnum, hkeeps.core, hkeeps.pointer⟩

theorem moveThread_spec (hresched : Reschedules resched (freePlaces s.coreThreadRunning))
    (hcore : s.coreOf thread = some core) (hthread : s.threadCore thread = none) :
    ∃ s', s.moveThread (resumeThread resched) thread (some core) = some s' ∧ s'.OneToOne ∧
      s'.numThreads = s.numThreads ∧ (∀ t c, s.coreOf t = some c → s'.coreOf t = some c) ∧
      ∀ t c, t ≠ thread → s.coreOf t = some c → s'.threadCore t = s.threadCore t := by
  have hlt : thread < s.numThreads := h.created thread (.inl (hcore ▸ some_ne_none core))
  obtain ⟨s₁, hresume, hone, hnum, hkeeps⟩ : ∃ s₁,
      (if s.waitsForCore thread then resumeThread resched s thread else some s) = some s₁ ∧
        s₁.OneToOne ∧ s₁.numThreads = s.numThreads ∧ s.Keeps s₁ := by
    split
    · exact resumeThread_spec h hresched hlt
    · exact ⟨s, rfl, h, rfl, .refl s⟩
  obtain ⟨s', hset, hone', hnum', hcores, hpointers⟩ :=
    hone.setCore_some (hkeeps.core _ _ hcore) ((hkeeps.pointer _ _ hcore).trans hthread)
  refine ⟨s', ?_, hone', hnum'.trans hnum, fun t c ht => ?_, fun t c hne ht => ?_⟩
  · simp only [moveThread, if_pos hlt, hresume, hset]
  · rw [hcores]
    exact hkeeps.core t c ht
  · rw [hpointers t hne]
    exact hkeeps.pointer t c ht

theorem OneToOne.refill (core : Fin n) : (s.refill core).OneToOne :=
  h.of_eq rfl rfl rfl (fun _ ht => .inl ht) rfl rfl rfl

/-- **`reschedule` returns and keeps the correspondence.** The induction is on the depth. -/
theorem reschedule_spec (depth : ℕ) (time : UInt64) (core : Fin n)
    (hdepth : (freePlaces s.coreThreadRunning + if s.coreThreadRunning core = none then 0 else 1) < depth) :
    ∃ s', reschedule depth time s core = some s' ∧ s'.OneToOne ∧ s'.numThreads = s.numThreads ∧
      (s.coreThreadRunning core = none → s.Keeps s') := by
  induction depth generalizing s core with
  | zero => exact absurd hdepth (Nat.not_lt_zero _)
  | succ depth ih =>
    unfold reschedule
    by_cases hstarting : s.isStarting core = true
    · exact ⟨s, if_pos hstarting, h, rfl, fun _ => .refl s⟩
    rw [if_neg hstarting]
    by_cases hsame : s.coreThreadRunning core = s.pickThread time core
    · exact ⟨s.refill core, if_pos hsame, h.refill core, rfl, fun _ => ⟨fun _ _ ht => ht, fun _ _ _ => rfl⟩⟩
    dsimp only
    rw [if_neg hsame]
    obtain ⟨s₁, hunschedule, hvacant, hrunning, hnum, hrunnable, hmask, hnone, hfree⟩ :=
      unschedule_spec h time core
    rw [hunschedule]
    dsimp only
    cases hpick : s.pickThread time core with
    | none =>
      refine ⟨_, rfl, hvacant.refill core, hnum, fun hempty => ?_⟩
      exact absurd (hempty.trans hpick.symm) hsame
    | some thread =>
      obtain ⟨haffine, hready, hcores⟩ := isCandidate_iff.mp (pickThread_candidate hpick)
      have hthread : s.coreOf thread = none := by
        -- it is not the thread on this core
        refine hcores.resolve_right fun hhere => hsame ?_
        rw [hpick]
        exact (h.agree thread core).mp hhere
      have hlt : thread < s₁.numThreads := hnum ▸ h.created thread (.inr hready)
      have hpointer : s₁.threadCore thread = none := by
        cases hc : s₁.threadCore thread with
        | none => rfl
        | some c =>
          have hcore : s₁.coreOf thread = some c := hvacant.pointer thread c hc
          rw [hnone thread hthread] at hcore
          cases hcore
      obtain ⟨hplaced, hrun, hcoreOf, hthreadCore, hnumThreads⟩ := place_spec hvacant
        (hnone thread hthread) hlt (by rw [hmask]; exact haffine) time
      dsimp only
      generalize (s₁.setRunning core (some thread)).place time core thread = s₂ at *
      have hnested : Reschedules (n := n) (reschedule depth time)
          (freePlaces s₂.coreThreadRunning) := by
        intro s₃ core₃ hone hempty hle
        have hfill := freePlaces_fill s.coreThreadRunning core thread
        rw [hrun, hrunning] at hle
        obtain ⟨s', hs', hone', hnum', hkeeps⟩ := ih hone core₃ (by rw [if_pos hempty]; omega)
        exact ⟨s', hs', hone', hnum', hkeeps hempty⟩
      obtain ⟨s', hmove, hone, hnum', hcores', hpointers⟩ := moveThread_spec hplaced hnested
        (by rw [hcoreOf, update_self]) (by rw [hthreadCore]; exact hpointer)
      rw [hmove]
      refine ⟨_, rfl, hone.refill core, hnum'.trans (hnumThreads.trans hnum), fun hempty => ?_⟩
      obtain rfl := hfree hempty
      have hne : ∀ {t c}, s₁.coreOf t = some c → t ≠ thread := by
        rintro _ _ ht rfl
        rw [hthread] at ht
        cases ht
      have hold : ∀ {t c}, s₁.coreOf t = some c → s₂.coreOf t = some c := by
        intro t c ht
        rw [hcoreOf, update_of_ne (hne ht)]
        exact ht
      refine ⟨fun t c ht => hcores' t c (hold ht), fun t c ht => ?_⟩
      rw [← hthreadCore]
      exact hpointers t c (hne ht) (hold ht)

variable (time : UInt64)

theorem OneToOne.rescheduleNow (core : Fin n) :
    ∃ s', rescheduleNow time s core = some s' ∧ s'.OneToOne ∧ s'.numThreads = s.numThreads ∧
      (s.coreThreadRunning core = none → s.Keeps s') := by
  refine reschedule_spec h (n + 1) time core ?_
  have hle := freePlaces_le s.coreThreadRunning core
  rw [Fintype.card_fin] at hle
  omega

theorem OneToOne.rescheduled (core : Fin n) :
    Returns s.numThreads (PinnedScheduler.rescheduleNow time s core) := by
  obtain ⟨s', hs', hone, hnum, -⟩ := h.rescheduleNow time core
  exact ⟨s', hs', hone, hnum⟩

theorem OneToOne.rescheduleFreeCore (thread : ℕ) :
    Returns s.numThreads (rescheduleFreeCore time s thread) := by
  unfold PinnedScheduler.rescheduleFreeCore
  cases s.findFreeCoreForThread thread with
  | none => exact ⟨s, rfl, h, rfl⟩
  | some core => exact h.rescheduled time core

theorem OneToOne.rescheduleCoreOf (thread : ℕ) :
    Returns s.numThreads (rescheduleCoreOf time s thread) := by
  unfold PinnedScheduler.rescheduleCoreOf
  cases (s.threadInfo thread).coreRunning with
  | none => exact ⟨s, rfl, h, rfl⟩
  | some core => exact h.rescheduled time core

/-! ## The events -/

theorem OneToOne.setInfo {info : ThreadInfo n} (hinfo : info.coreRunning = s.coreOf thread) :
    (s.setInfo thread info).OneToOne := by
  refine h.of_eq ?_ rfl rfl (fun _ ht => .inl ht) rfl rfl rfl
  rw [coreOf_setInfo, hinfo, update_eq_self]

theorem threadCreate_spec (hthread : s.coreOf thread = none) (hlt : thread < s.numThreads)
    (initial : Fin n → Bool) :
    ∃ s' placed, s.threadCreate thread initial = (s', placed) ∧ s'.OneToOne ∧
      s'.numThreads = s.numThreads ∧ s'.threadCore = s.threadCore ∧
      ∀ core, placed = some core → s'.coreOf thread = some core := by
  unfold threadCreate
  generalize hinfo : (if (s.threadInfo thread).hasAffinity = true then s.threadInfo thread
    else setMask (s.threadInfo thread) initial) = info
  have hcore : info.coreRunning = none := by
    rw [← hinfo]
    split <;> exact hthread
  have hone : (s.setInfo thread info).OneToOne := h.setInfo (hcore.trans hthread.symm)
  have hnone : (s.setInfo thread info).coreOf thread = none := by
    rw [coreOf_setInfo, update_self]
    exact hcore
  dsimp only
  cases hfree : (s.setInfo thread info).findFreeCoreForThread thread with
  | none => exact ⟨_, _, rfl, hone.setInfo hnone.symm, rfl, rfl, nofun⟩
  | some core =>
    obtain ⟨hmask, hempty⟩ := findFreeCoreForThread_free hfree
    have hcoreOf : (((s.setInfo thread info).record thread core).setInfo thread
        { info with coreRunning := some core }).coreOf =
          update (s.setInfo thread info).coreOf thread (some core) :=
      coreOf_setInfo _ _ _
    refine ⟨_, _, rfl, ?_, rfl, rfl, ?_⟩
    · exact (hone.vacate hempty).enter hnone hlt hmask hcoreOf rfl rfl rfl rfl rfl rfl
    · rintro _ ⟨⟩
      show (((s.setInfo thread info).record thread core).setInfo thread
        { info with coreRunning := some core }).coreOf thread = some core
      rw [hcoreOf, update_self]

theorem OneToOne.createThread (initial : Fin n → Bool) :
    Returns (s.numThreads + 1) (s.createThread initial) := by
  have hnone : s.coreOf s.numThreads = none := by
    by_contra hne
    exact Nat.lt_irrefl _ (h.created s.numThreads (.inl hne))
  have hpointer : s.threadCore s.numThreads = none := by
    cases hc : s.threadCore s.numThreads with
    | none => rfl
    | some c => exact absurd (h.pointer _ c hc) (hnone ▸ nofun)
  set s₀ : PinnedScheduler n := { s with
    numThreads := s.numThreads + 1
    status := update s.status s.numThreads .initializing } with hs₀
  have hone : s₀.OneToOne :=
    ⟨h.agree, fun t ht => Nat.lt_succ_of_lt (h.created t ht), h.pointer, h.pointers_agree, h.placed⟩
  obtain ⟨s₁, placed, hcreate, hone₁, hnum, hpointers, hplaced⟩ :=
    threadCreate_spec hone hnone (Nat.lt_succ_self s.numThreads) initial
  simp only [PinnedScheduler.createThread, ← hs₀, hcreate]
  cases placed with
  | none => exact ⟨s₁, rfl, hone₁, hnum⟩
  | some core =>
    obtain ⟨s', hset, hone', hnum', -⟩ := hone₁.setCore_some (hplaced core rfl) (hpointers ▸ hpointer)
    exact ⟨s', hset, hone', hnum'.trans hnum⟩

theorem OneToOne.startThread (hlt : thread < s.numThreads) (time : UInt64) :
    Returns s.numThreads (s.startThread thread time) := by
  have hone : OneToOne (markStarted
      { s with status := update s.status thread .running } thread) := by
    refine h.of_eq rfl rfl rfl (fun t ht => ?_) rfl rfl rfl
    by_cases htt : t = thread
    · exact .inr (htt ▸ hlt)
    · simp only [markStarted, update_of_ne htt] at ht
      split at ht
      · exact .inl (Bool.and_eq_true_iff.mp ht).1
      · exact .inl ht
  obtain ⟨s₁, hs₁, hone₁, hnum⟩ := hone.rescheduleFreeCore time thread
  simp only [PinnedScheduler.startThread, if_pos hlt, hs₁]
  cases s₁.threadCore thread with
  | none => exact ⟨_, rfl, hone₁.of_eq rfl rfl rfl (fun _ ht => .inl ht) rfl rfl rfl, hnum⟩
  | some core => exact ⟨_, rfl, hone₁.of_eq rfl rfl rfl (fun _ ht => .inl ht) rfl rfl rfl, hnum⟩

theorem OneToOne.notRunnable (thread : ℕ) :
    OneToOne { s with threadsRunnable := update s.threadsRunnable thread false } := by
  refine h.of_eq rfl rfl rfl (fun t ht => .inl ?_) rfl rfl rfl
  by_cases htt : t = thread
  · simp [htt] at ht
  · simpa [htt] using ht

theorem OneToOne.stallThread (hlt : thread < s.numThreads) (reason : StallType) (time : UInt64) :
    Returns s.numThreads (s.stallThread thread reason time) := by
  have hone : OneToOne { s with
      status := update s.status thread .stalled
      stalledReason := update s.stalledReason thread reason } :=
    h.of_eq rfl rfl rfl (fun _ ht => .inl ht) rfl rfl rfl
  simp only [PinnedScheduler.stallThread, if_pos hlt]
  split
  · exact (hone.notRunnable thread).rescheduleCoreOf time thread
  · exact ⟨_, rfl, hone, rfl⟩

theorem OneToOne.resumeNow (hlt : thread < s.numThreads) (time : UInt64) :
    Returns s.numThreads (s.resumeNow time thread) := by
  have hresched : Reschedules (n := n) (PinnedScheduler.rescheduleNow time)
      (freePlaces s.coreThreadRunning) := by
    intro s₁ core hone hempty _
    obtain ⟨s', hs', hone', hnum, hkeeps⟩ := hone.rescheduleNow time core
    exact ⟨s', hs', hone', hnum, hkeeps hempty⟩
  obtain ⟨s', hs', hone, hnum, -⟩ := resumeThread_spec h hresched hlt
  exact ⟨s', hs', hone, hnum⟩

theorem OneToOne.exitThread {waiters : List ℕ} (hlt : thread < s.numThreads)
    (hcore : s.threadCore thread ≠ none) (hrun : s.status thread = .running)
    (hwaiters : ∀ w ∈ waiters, w < s.numThreads) (time : UInt64) :
    Returns s.numThreads (s.exitThread thread waiters time) := by
  have hone : OneToOne { s with status := update s.status thread .idle } :=
    h.of_eq rfl rfl rfl (fun _ ht => .inl ht) rfl rfl rfl
  have hresume : ∀ s₁ : PinnedScheduler n, ∀ w ∈ waiters, OneToOne s₁ ∧ s₁.numThreads = s.numThreads →
      Returns s.numThreads (PinnedScheduler.resumeNow time s₁ w) := by
    rintro s₁ w hw ⟨hone₁, hnum₁⟩
    exact hnum₁ ▸ hone₁.resumeNow (hnum₁.symm ▸ hwaiters w hw) time
  obtain ⟨s₁, hresumes, hone₁, hnum₁⟩ := Machine.exists_foldlM hresume ⟨hone, rfl⟩
  obtain ⟨s₂, hset, hone₂, hnum₂⟩ := hone₁.setCore_none thread
  obtain ⟨s', hs', hone', hnum⟩ := (hone₂.notRunnable thread).rescheduleCoreOf time thread
  have hmay : thread < s.numThreads ∧ s.threadCore thread ≠ none ∧ s.status thread = .running :=
    ⟨hlt, hcore, hrun⟩
  refine ⟨s', ?_, hone', hnum.trans (hnum₂.trans hnum₁)⟩
  simp only [PinnedScheduler.exitThread, if_pos hmay, hresumes, hset, hs']

theorem OneToOne.setQuantum (core : Fin n) (left : UInt64) :
    OneToOne { s with quantumLeft := update s.quantumLeft core left } :=
  h.of_eq rfl rfl rfl (fun _ ht => .inl ht) rfl rfl rfl

theorem OneToOne.threadYield (thread : ℕ) (time : UInt64) :
    Returns s.numThreads (s.threadYield thread time) := by
  unfold PinnedScheduler.threadYield
  cases (s.threadInfo thread).coreRunning with
  | none => exact ⟨s, rfl, h, rfl⟩
  | some core =>
    obtain ⟨s₁, hs₁, hone₁, hnum⟩ := (h.setQuantum core 0).rescheduled time core
    dsimp only
    rw [hs₁]
    dsimp only
    split
    · exact hnum ▸ hone₁.rescheduleFreeCore time thread
    · exact ⟨s₁, rfl, hone₁, hnum⟩

theorem OneToOne.threadSetAffinity (caller thread : ℕ) (mask : Option (Fin n → Bool))
    (time : UInt64) :
    Returns s.numThreads (s.threadSetAffinity caller thread mask time) := by
  have hone : (s.setInfo thread (PinnedScheduler.setMask
      { s.threadInfo thread with explicitAffinity := true } (mask.getD fun _ => true))).OneToOne :=
    h.setInfo rfl
  unfold PinnedScheduler.threadSetAffinity
  dsimp only
  split
  · exact ⟨_, rfl, hone, rfl⟩
  split
  · exact hone.threadYield thread time
  split
  · split
    · exact ⟨_, rfl, hone.setQuantum _ 0, rfl⟩
    · exact ⟨_, rfl, hone, rfl⟩
  · split
    · exact hone.rescheduleFreeCore time thread
    · exact ⟨_, rfl, hone, rfl⟩

theorem OneToOne.periodic : Returns s.numThreads (s.periodic time) := by
  have hcore : ∀ s₁ : PinnedScheduler n, ∀ core ∈ finRange n,
      OneToOne s₁ ∧ s₁.numThreads = s.numThreads →
      Returns s.numThreads (PinnedScheduler.periodicCore time (time - s.lastPeriodic) s₁ core) := by
    rintro s₁ core _ ⟨hone, hnum⟩
    unfold periodicCore
    split
    · exact hnum ▸ hone.rescheduled time core
    · exact ⟨_, rfl, hone.setQuantum core _, hnum⟩
  obtain ⟨s₁, hcores, hone, hnum⟩ := Machine.exists_foldlM hcore ⟨h, rfl⟩
  refine ⟨{ s₁ with lastPeriodic := time }, ?_, ?_, hnum⟩
  · simp only [PinnedScheduler.periodic, hcores]
  · exact hone.of_eq rfl rfl rfl (fun _ ht => .inl ht) rfl rfl rfl

end

/-! ## Runs -/

/-- The events that name threads of the simulation; a thread that exits runs on a core. -/
def Possible (s : PinnedScheduler n) : SchedulerEvent n → Prop
  | .start thread _ | .stall thread _ _ | .resume thread _ => thread < s.numThreads
  | .exit thread waiters _ => (thread < s.numThreads ∧ s.threadCore thread ≠ none ∧
      s.status thread = .running) ∧ ∀ w ∈ waiters, w < s.numThreads
  | .create _ | .yield _ _ | .setAffinity _ _ _ _ | .periodic _ => True

theorem OneToOne.step (h : s.OneToOne) {event : SchedulerEvent n} (hpossible : s.Possible event) :
    ∃ num, Returns num ((machine n quantum).step s event) := by
  cases event with
  | create initial => exact ⟨_, h.createThread initial⟩
  | start thread time => exact ⟨_, h.startThread hpossible time⟩
  | stall thread reason time => exact ⟨_, h.stallThread hpossible reason time⟩
  | resume thread time => exact ⟨_, h.resumeNow hpossible time⟩
  | exit thread waiters time =>
    obtain ⟨⟨hlt, hcore, hrun⟩, hwaiters⟩ := hpossible
    exact ⟨_, h.exitThread hlt hcore hrun hwaiters time⟩
  | yield thread time => exact ⟨_, h.threadYield thread time⟩
  | setAffinity caller thread mask time => exact ⟨_, h.threadSetAffinity caller thread mask time⟩
  | periodic time => exact ⟨_, h.periodic time⟩

theorem waiters_created {waiters : List ℕ} (h : s.OneToOne)
    (hresumes : waiters.foldlM (PinnedScheduler.resumeNow time) s = some s') :
    ∀ w ∈ waiters, w < s.numThreads := by
  induction waiters generalizing s with
  | nil => exact fun w hw => absurd hw not_mem_nil
  | cons w ws ih =>
    have hlt : w < s.numThreads := by
      by_contra hnot
      simp [foldlM_cons, PinnedScheduler.resumeNow, resumeThread, hnot] at hresumes
    obtain ⟨s₁, hs₁, hone, hnum⟩ := h.resumeNow hlt time
    rw [foldlM_cons, hs₁] at hresumes
    rintro v (_ | ⟨_, hv⟩)
    · exact hlt
    · exact hnum ▸ ih hone hresumes v hv

theorem possible_of_step (h : s.OneToOne) {event : SchedulerEvent n}
    (hstep : (machine n quantum).step s event = some s') : s.Possible event := by
  cases event with
  | create _ | yield _ _ | setAffinity _ _ _ _ | periodic _ => trivial
  | start thread time | stall thread reason time | resume thread time =>
    by_contra hnot
    simp only [Possible] at hnot
    simp [machine, PinnedScheduler.startThread, PinnedScheduler.stallThread,
      PinnedScheduler.resumeNow, resumeThread, hnot] at hstep
  | exit thread waiters time =>
    simp only [machine, PinnedScheduler.exitThread] at hstep
    split at hstep
    · rename_i hmay
      split at hstep
      · cases hstep
      · rename_i hresumes
        have hone : OneToOne { s with status := update s.status thread .idle } :=
          h.of_eq rfl rfl rfl (fun _ ht => .inl ht) rfl rfl rfl
        have hcreated := waiters_created hone hresumes
        exact ⟨hmay, hcreated⟩
    · cases hstep

theorem oneToOne_of_reachable (h : (machine n quantum).Reachable s) : s.OneToOne := by
  refine h.invariant (P := OneToOne) ?_ ?_
  · exact ⟨fun _ _ => iff_of_false (by simp [machine, coreOf]) (by simp [machine]),
      by simp [machine, coreOf], by simp [machine],
      fun _ _ => iff_of_false (by simp [machine]) (by simp [machine]), by simp [machine]⟩
  · intro s event s' hone _ hstep
    obtain ⟨-, s₁, hs₁, hone₁, -⟩ := hone.step (possible_of_step hone hstep)
    rw [hstep] at hs₁
    exact some.inj hs₁ ▸ hone₁

/-- **Threads and cores are in one-to-one correspondence**: the two tables agree, each thread was put on
cores of its mask only, and every event that names threads of the simulation returns. -/
theorem pinned_one_to_one {quantum : UInt64} (h : (machine n quantum).Reachable s) :
    (∀ t c, (s.threadInfo t).coreRunning = some c ↔ s.coreThreadRunning c = some t) ∧
    (∀ t c c', s.coreThreadRunning c = some t → s.coreThreadRunning c' = some t → c = c') ∧
    (∀ t t' c, (s.threadInfo t).coreRunning = some c → (s.threadInfo t').coreRunning = some c →
      t = t') ∧
    (∀ p ∈ s.placements, p.mask p.core = true) ∧
    ∀ event, s.Possible event → ∃ s', (machine n quantum).step s event = some s' := by
  have hone := oneToOne_of_reachable h
  refine ⟨hone.agree, fun t c c' hc hc' => ?_, fun t t' c ht ht' => ?_, hone.placed,
    fun event hpossible => ?_⟩
  · have hcore := (hone.agree t c).mpr hc
    rw [(hone.agree t c').mpr hc'] at hcore
    exact (some.inj hcore).symm
  · have hrunning := (hone.agree t c).mp ht
    rw [(hone.agree t' c).mp ht'] at hrunning
    exact (some.inj hrunning).symm
  · obtain ⟨-, s', hs', -⟩ := hone.step hpossible
    exact ⟨s', hs'⟩

/-- Thread 2 waits for one of the two cores and gets that of thread 0, which exits. -/
theorem waiting_thread_gets_core : ∃ s, (machine 2 1000).Reachable s ∧
    s.coreThreadRunning 0 = some 2 ∧ (s.threadInfo 2).coreRunning = some 0 := by
  obtain ⟨s, hs, hcore⟩ := Machine.exists_reachable (m := machine 2 1000)
    (P := fun s => s.coreThreadRunning 0 = some 2)
    [.create fun _ => true, .start 0 0, .create fun _ => true, .start 1 0, .create fun _ => true,
      .start 2 0, .exit 0 [] 5000] (by decide +kernel)
  exact ⟨s, hs, hcore, ((pinned_one_to_one hs).1 2 0).mpr hcore⟩

end PinnedScheduler

end MultiCoreMemory
