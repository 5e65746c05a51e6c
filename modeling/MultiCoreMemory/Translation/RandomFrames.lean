import MultiCoreMemory.Translation.RandomTranslation

/-!
# Which frames the random baselines share

`RandomTranslation2` marks the frames it hands out, so frames are exclusive until the last one is
handed out; from then on every new page shares a frame, since the page whose frame it takes over
keeps its entry.  `RandomTranslation` counts the frames it hands out and never marks them, so a frame
can be drawn again while frames remain.
-/

namespace MultiCoreMemory

open List Function UnorderedMap

variable {C : Type} {cfg : RandomConfig}

def smallMemory (pages : ℕ) : RandomConfig := { maxPaddr := pages * 4096 }

def touchPage (vpn : ℤ) (d : ℕ) : RandomCall Unit :=
  .translate { addr := vpn * 4096, typeId := typeRead, sourceId := 0 } [d]

/-! ## One table -/

namespace RandomTranslation2

variable {s s' : RandomTranslation2}

def numMapped (s : RandomTranslation2) : ℕ := s.globalPageTable.values.length

/-- What every call keeps: the counter is what the pages leave, the frames are exclusive as long as there
are no more pages than frames, and with as many pages every frame belongs to one. -/
structure Inv (cfg : RandomConfig) (s : RandomTranslation2) : Prop where
  bounded : ∀ p ∈ s.globalPageTable.values, p < cfg.numPages
  counter : s.numFreePhysicalPages = cfg.numPages - s.numMapped
  exclusive : s.numMapped ≤ cfg.numPages → s.globalPageTable.values.Nodup ∧
    ∀ p ∈ s.globalPageTable.values, s.freePhysicalPages p = false
  marked : ∀ p, s.freePhysicalPages p = false → p ∈ s.globalPageTable.values
  covered : cfg.numPages ≤ s.numMapped → ∀ p < cfg.numPages, p ∈ s.globalPageTable.values

theorem Inv.create (cfg : RandomConfig) : Inv cfg (create cfg) where
  bounded _ hp := by cases hp
  counter := rfl
  exclusive _ := ⟨nodup_nil, fun _ hp => by cases hp⟩
  marked _ hp := by cases hp
  covered h p hp := absurd (Nat.lt_of_lt_of_le hp h) (Nat.not_lt_zero p)

theorem values_of_new_page {vpn : ℤ} {ppn : ℕ} (hl : s.globalPageTable.lookup vpn = none)
    (hs : s'.globalPageTable = s.globalPageTable.insert vpn ppn) :
    s'.globalPageTable.values = ppn :: s.globalPageTable.values ∧
      s'.numMapped = s.numMapped + 1 := by
  have hvalues : s'.globalPageTable.values = ppn :: s.globalPageTable.values := by
    rw [hs]
    exact values_insert_of_lookup_none hl ppn
  refine ⟨hvalues, ?_⟩
  rw [numMapped, hvalues, length_cons, numMapped]

theorem Inv.replace (h : Inv cfg s) {vpn : ℤ} {ppn : ℕ} (hl : s.globalPageTable.lookup vpn = none)
    (h0 : s.numFreePhysicalPages = 0) (hlt : ppn < cfg.numPages) : Inv cfg (s.replace vpn ppn) := by
  have htable : (s.replace vpn ppn).globalPageTable = s.globalPageTable.insert vpn ppn := rfl
  obtain ⟨hvalues, hcount⟩ := values_of_new_page hl htable
  have hcounter := h.counter
  refine ⟨?_, ?_, ?_, ?_, ?_⟩
  · rw [hvalues]
    exact forall_mem_cons.mpr ⟨hlt, h.bounded⟩
  · show s.numFreePhysicalPages = _
    rw [hcount]
    omega
  · -- no frame was left, so there are more pages than frames now
    intro hle
    rw [hcount] at hle
    omega
  · intro p hp
    rw [hvalues]
    exact mem_cons_of_mem _ (h.marked p hp)
  · intro _ p hp
    rw [hvalues]
    exact mem_cons_of_mem _ (h.covered (by omega) p hp)

theorem Inv.assign (h : Inv cfg s) {vpn : ℤ} {ppn : ℕ} (hl : s.globalPageTable.lookup vpn = none)
    (h0 : s.numFreePhysicalPages ≠ 0) (hlt : ppn < cfg.numPages)
    (hfree : s.freePhysicalPages ppn = true) : Inv cfg (s.assign vpn ppn) := by
  have htable : (s.assign vpn ppn).globalPageTable = s.globalPageTable.insert vpn ppn := rfl
  obtain ⟨hvalues, hcount⟩ := values_of_new_page hl htable
  have hcounter := h.counter
  obtain ⟨hnodup, hused⟩ := h.exclusive (by omega)
  have hfresh : ppn ∉ s.globalPageTable.values := by
    intro hp
    have := hused ppn hp
    rw [hfree] at this
    cases this
  refine ⟨?_, ?_, ?_, ?_, ?_⟩
  · rw [hvalues]
    exact forall_mem_cons.mpr ⟨hlt, h.bounded⟩
  · show s.numFreePhysicalPages - 1 = _
    rw [hcount]
    omega
  · intro _
    rw [hvalues]
    refine ⟨nodup_cons.mpr ⟨hfresh, hnodup⟩, ?_⟩
    intro p hp
    show update s.freePhysicalPages ppn false p = false
    rcases mem_cons.mp hp with rfl | hmem
    · rw [update_self]
    · have hne : p ≠ ppn := by
        rintro rfl
        exact hfresh hmem
      rw [update_of_ne hne]
      exact hused p hmem
  · intro p hp
    rw [hvalues]
    by_cases heq : p = ppn
    · exact heq ▸ mem_cons_self
    · have hold : update s.freePhysicalPages ppn false p = false := hp
      rw [update_of_ne heq] at hold
      exact mem_cons_of_mem _ (h.marked p hold)
  · -- the last frame: the pages have as many different frames as there are
    intro hle p hp
    rw [hvalues]
    have hsub : (ppn :: s.globalPageTable.values).toFinset ⊆ Finset.range cfg.numPages := by
      intro q hq
      rw [Finset.mem_range]
      rcases mem_cons.mp (mem_toFinset.mp hq) with rfl | hold
      · exact hlt
      · exact h.bounded q hold
    have hcard : (ppn :: s.globalPageTable.values).toFinset.card = s.numMapped + 1 :=
      toFinset_card_of_nodup (nodup_cons.mpr ⟨hfresh, hnodup⟩)
    have heq := Finset.eq_of_subset_of_card_le hsub (by rw [Finset.card_range]; omega)
    exact mem_toFinset.mp (heq ▸ Finset.mem_range.mpr hp)

theorem Inv.step (h : Inv cfg s) {call : RandomCall C} (hstep : s.step cfg call = some s') :
    Inv cfg s' := by
  cases step_cases hstep with
  | reserve => exact ⟨h.bounded, h.counter, h.exclusive, h.marked, h.covered⟩
  | found => exact h
  | replaced hl h0 hlt => exact h.replace hl h0 hlt
  | assigned hl h0 hlt _ hfree => exact h.assign hl h0 hlt hfree

theorem inv_of_reachable (h : (machine C cfg).Reachable s) : Inv cfg s :=
  h.invariant (P := Inv cfg) (Inv.create cfg) fun _ _ _ hs _ hstep => hs.step hstep

theorem Inv.numMapped_le (h : Inv cfg s) (hnodup : s.globalPageTable.values.Nodup) :
    s.numMapped ≤ cfg.numPages := by
  have hsub : s.globalPageTable.values ⊆ range cfg.numPages := by
    intro p hp
    exact mem_range.mpr (h.bounded p hp)
  have hle := (hnodup.subperm hsub).length_le
  rw [length_range] at hle
  exact hle

/-- Before the call a frame is left for a page that is touched for the first time. -/
def FrameLeft (cfg : RandomConfig) (s : RandomTranslation2) (call : RandomCall C) : Prop :=
  ∀ req draws, call = .translate req draws →
    s.globalPageTable.lookup (cfg.pageOf req.addr) = none → s.numFreePhysicalPages ≠ 0

theorem numMapped_step_le (h : Inv cfg s) (hle : s.numMapped ≤ cfg.numPages) {call : RandomCall C}
    (hleft : FrameLeft cfg s call) (hstep : s.step cfg call = some s') :
    s'.numMapped ≤ cfg.numPages := by
  cases step_cases hstep with
  | reserve => exact hle
  | found => exact hle
  | replaced hl h0 => exact absurd h0 (hleft _ _ rfl hl)
  | assigned hl h0 =>
    have hcounter := h.counter
    rw [(values_of_new_page hl rfl).2]
    omega

/-- **Two pages share a frame exactly when there are more pages than frames**, so in no run whose first
touches all find a frame left. -/
theorem injective_iff_pages_fit (C : Type) (cfg : RandomConfig) :
    (∀ s, (machine C cfg).Reachable s →
      ((∀ v v' p, s.globalPageTable.lookup v = some p → s.globalPageTable.lookup v' = some p →
        v = v') ↔ s.numMapped ≤ cfg.numPages)) ∧
    ∀ s, (machine C cfg).ReachableWhen (FrameLeft cfg) s →
      ∀ v v' p, s.globalPageTable.lookup v = some p → s.globalPageTable.lookup v' = some p →
        v = v' := by
  have hiff : ∀ s, (machine C cfg).Reachable s →
      ((∀ v v' p, s.globalPageTable.lookup v = some p → s.globalPageTable.lookup v' = some p →
        v = v') ↔ s.numMapped ≤ cfg.numPages) := by
    intro s h
    have hinv := inv_of_reachable h
    rw [← values_nodup_iff]
    exact ⟨hinv.numMapped_le, fun hle => (hinv.exclusive hle).1⟩
  refine ⟨hiff, ?_⟩
  intro s h
  refine (hiff s h.reachable).mpr ?_
  have hboth : Inv cfg s ∧ s.numMapped ≤ cfg.numPages := by
    refine h.invariant (P := fun s => Inv cfg s ∧ s.numMapped ≤ cfg.numPages)
      ⟨Inv.create cfg, Nat.zero_le _⟩ ?_
    intro s call s' hs hleft hstep
    exact ⟨hs.1.step hstep, numMapped_step_le hs.1 hs.2 hleft hstep⟩
  exact hboth.2

def checkFrameLeft (cfg : RandomConfig) (s : RandomTranslation2) : RandomCall Unit → Bool
  | .reserve _ => true
  | .translate req _ => (s.globalPageTable.lookup (cfg.pageOf req.addr)).isSome ||
      decide (s.numFreePhysicalPages ≠ 0)

theorem checkFrameLeft_spec (s : RandomTranslation2) (call : RandomCall Unit)
    (h : checkFrameLeft cfg s call = true) : FrameLeft cfg s call := by
  rintro req draws rfl hl
  simpa [checkFrameLeft, hl] using h

/-- Two pages in a memory of two frames keep apart. -/
theorem two_pages_two_frames : ∃ s, (machine Unit (smallMemory 2)).ReachableWhen
      (FrameLeft (smallMemory 2)) s ∧ s.numMapped = 2 ∧
    ∀ v v' p, s.globalPageTable.lookup v = some p → s.globalPageTable.lookup v' = some p →
      v = v' := by
  obtain ⟨s, hwhen, hcount⟩ := Machine.exists_reachableWhen (m := machine Unit (smallMemory 2))
    (checkFrameLeft (smallMemory 2)) checkFrameLeft_spec (P := fun s => s.numMapped = 2)
    [touchPage 0 0, touchPage 1 1] (by decide +kernel) (by decide +kernel)
  exact ⟨s, hwhen, hcount, (injective_iff_pages_fit Unit (smallMemory 2)).2 s hwhen⟩

/-- **A page whose frame is taken over keeps it**: pages 0 and 1 are both mapped to frame 0. -/
theorem replaced_page_keeps_frame : ∃ s, (machine Unit (smallMemory 1)).Reachable s ∧
    s.globalPageTable.lookup 0 = some 0 ∧ s.globalPageTable.lookup 1 = some 0 :=
  Machine.exists_reachable [touchPage 0 0, touchPage 1 0] (by decide +kernel)

end RandomTranslation2

/-! ## One table a core -/

namespace RandomTranslation

variable {s s' : RandomTranslation}

def frameOf (s : RandomTranslation) (core : ℕ) (vpn : ℤ) : Option ℕ :=
  s.translation[core]?.bind fun table => table.lookup vpn

def mappedFrames (s : RandomTranslation) : List ℕ := s.translation.flatMap values

def unmappedFrames (cfg : RandomConfig) (s : RandomTranslation) : Finset ℕ :=
  Finset.range cfg.numPages \ s.mappedFrames.toFinset

def Injective (s : RandomTranslation) : Prop :=
  ∀ core vpn core' vpn' p, s.frameOf core vpn = some p → s.frameOf core' vpn' = some p →
    core = core' ∧ vpn = vpn'

theorem frameOf_eq_some_iff {core : ℕ} {vpn : ℤ} {p : ℕ} : s.frameOf core vpn = some p ↔
    ∃ table, s.translation[core]? = some table ∧ table.lookup vpn = some p :=
  Option.bind_eq_some_iff

theorem injective_iff_nodup : s.Injective ↔ s.mappedFrames.Nodup := by
  rw [mappedFrames, nodup_flatMap, pairwise_iff_getElem]
  constructor
  · intro hinj
    refine ⟨?_, ?_⟩
    · intro table hmem
      obtain ⟨core, hcore⟩ := mem_iff_getElem?.mp hmem
      rw [values_nodup_iff]
      intro v v' p hv hv'
      exact (hinj core v core v' p (frameOf_eq_some_iff.mpr ⟨_, hcore, hv⟩)
        (frameOf_eq_some_iff.mpr ⟨_, hcore, hv'⟩)).2
    · intro i j hi hj hij p hp hp'
      obtain ⟨v, hv⟩ := mem_values_iff.mp hp
      obtain ⟨v', hv'⟩ := mem_values_iff.mp hp'
      have hcore := (hinj i v j v' p
        (frameOf_eq_some_iff.mpr ⟨_, getElem?_eq_getElem hi, hv⟩)
        (frameOf_eq_some_iff.mpr ⟨_, getElem?_eq_getElem hj, hv'⟩)).1
      omega
  · rintro ⟨hnodup, hdisj⟩ core vpn core' vpn' p h h'
    obtain ⟨table, hcore, hl⟩ := frameOf_eq_some_iff.mp h
    obtain ⟨table', hcore', hl'⟩ := frameOf_eq_some_iff.mp h'
    obtain ⟨hi, rfl⟩ := List.getElem?_eq_some_iff.mp hcore
    obtain ⟨hj, rfl⟩ := List.getElem?_eq_some_iff.mp hcore'
    have hp := mem_values_iff.mpr ⟨vpn, hl⟩
    have hp' := mem_values_iff.mpr ⟨vpn', hl'⟩
    rcases Nat.lt_trichotomy core core' with hlt | rfl | hlt
    · exact absurd hp' (hdisj core core' hi hj hlt hp)
    · exact ⟨rfl, values_nodup_iff.mp (hnodup _ (getElem_mem hi)) _ _ p hl hl'⟩
    · exact absurd hp (hdisj core' core hj hi hlt hp')

theorem flatMap_values_set {tables : List (UnorderedMap ℤ ℕ)} {core : ℕ} {table : UnorderedMap ℤ ℕ}
    (hcore : tables[core]? = some table) {vpn : ℤ} (hl : table.lookup vpn = none) (ppn : ℕ) :
    ((tables.set core (table.insert vpn ppn)).flatMap values).Perm
      (ppn :: tables.flatMap values) := by
  induction tables generalizing core with
  | nil => cases hcore
  | cons t ts ih =>
    cases core with
    | zero =>
      obtain rfl : t = table := Option.some.inj hcore
      simp only [set_cons_zero, flatMap_cons]
      rw [values_insert_of_lookup_none hl, cons_append]
    | succ core =>
      simp only [set_cons_succ, flatMap_cons]
      exact ((ih hcore).append_left _).trans perm_middle

theorem mappedFrames_assign {core : ℕ} {table : UnorderedMap ℤ ℕ}
    (hcore : s.translation[core]? = some table) {vpn : ℤ} (hl : table.lookup vpn = none) (ppn : ℕ) :
    (s.assign core table vpn ppn).mappedFrames.Perm (ppn :: s.mappedFrames) :=
  flatMap_values_set hcore hl ppn

/-- What every call keeps while frames are counted as left: the frames are frames of the memory, and
every page has been counted. -/
def Counted (cfg : RandomConfig) (s : RandomTranslation) : Prop :=
  s.numFreePhysicalPages ≠ 0 → (∀ p ∈ s.mappedFrames, p < cfg.numPages) ∧
    s.numFreePhysicalPages + s.mappedFrames.length = cfg.numPages

theorem mappedFrames_create (cfg : RandomConfig) : (create cfg).mappedFrames = [] := by
  unfold mappedFrames
  rw [flatMap_eq_nil_iff]
  intro table hmem
  rw [eq_of_mem_replicate hmem]
  rfl

theorem counted_create (cfg : RandomConfig) : Counted cfg (create cfg) := by
  intro _
  rw [mappedFrames_create]
  exact ⟨forall_mem_nil _, rfl⟩

theorem Counted.step (h : Counted cfg s) {call : RandomCall C} (hstep : s.step cfg call = some s') :
    Counted cfg s' := by
  cases step_cases hstep with
  | reserve => exact h
  | found => exact h
  | replaced _ _ h0 => exact fun h1 => absurd h0 h1
  | @assigned req draws table ppn hcore hl h0 hdraw =>
    intro h1
    have hleft : s.numFreePhysicalPages - 1 ≠ 0 := h1
    have hperm := mappedFrames_assign hcore hl ppn
    obtain ⟨hlt, hsum⟩ := h h0
    refine ⟨?_, ?_⟩
    · intro p hp
      rcases mem_cons.mp (hperm.mem_iff.mp hp) with rfl | hmem
      · exact (drawPage_spec hdraw).1
      · exact hlt p hmem
    · show s.numFreePhysicalPages - 1 + _ = _
      rw [hperm.length_eq, length_cons]
      omega

theorem counted_of_reachable (h : (machine C cfg).Reachable s) : Counted cfg s :=
  h.invariant (P := Counted cfg) (counted_create cfg) fun _ _ _ hs _ hstep => hs.step hstep

theorem Counted.injective_iff_counter (h : Counted cfg s) (h0 : s.numFreePhysicalPages ≠ 0) :
    s.Injective ↔ s.numFreePhysicalPages = (s.unmappedFrames cfg).card := by
  obtain ⟨hlt, hsum⟩ := h h0
  have hsub : s.mappedFrames.toFinset ⊆ Finset.range cfg.numPages := by
    intro p hp
    exact Finset.mem_range.mpr (hlt p (mem_toFinset.mp hp))
  have hcard := Finset.card_sdiff_of_subset hsub
  rw [Finset.card_range] at hcard
  have hle := Finset.card_le_card hsub
  rw [Finset.card_range] at hle
  have hdistinct := s.mappedFrames.toFinset_card_le
  rw [injective_iff_nodup, ← Multiset.coe_nodup, ← Multiset.toFinset_card_eq_card_iff_nodup]
  show s.mappedFrames.toFinset.card = s.mappedFrames.length ↔ _
  unfold unmappedFrames
  omega

/-- Before the call: while more than one frame is counted as left, the frame that is drawn for a new
page is not mapped. -/
def DrawsFresh (cfg : RandomConfig) (s : RandomTranslation) (call : RandomCall C) : Prop :=
  ∀ req draws p, call = .translate req draws →
    s.frameOf req.sourceId.toNat (cfg.pageOf req.addr) = none → 1 < s.numFreePhysicalPages →
    drawPage cfg.numPages (isUnavailable s.reservedPages s.freePhysicalPages) draws = some p →
    p ∉ s.mappedFrames

theorem nodup_step (h : s.numFreePhysicalPages ≠ 0 → s.mappedFrames.Nodup) {call : RandomCall C}
    (hfresh : DrawsFresh cfg s call) (hstep : s.step cfg call = some s')
    (h0 : s'.numFreePhysicalPages ≠ 0) : s'.mappedFrames.Nodup := by
  cases step_cases hstep with
  | reserve => exact h h0
  | found => exact h h0
  | replaced _ _ hzero => exact absurd hzero h0
  | @assigned req draws table ppn hcore hl hleft hdraw =>
    have h1 : s.numFreePhysicalPages - 1 ≠ 0 := h0
    have hnone : s.frameOf req.sourceId.toNat (cfg.pageOf req.addr) = none := by
      rw [frameOf, hcore, Option.bind_some, hl]
    have hnotmem : ppn ∉ s.mappedFrames := hfresh req draws ppn rfl hnone (by omega) hdraw
    rw [(mappedFrames_assign hcore hl ppn).nodup_iff]
    exact nodup_cons.mpr ⟨hnotmem, h hleft⟩

/-- **Frames are unique while frames remain, if they are drawn fresh**: no two pages share a frame, and
the counter is the number of unmapped frames; in every reachable state with a frame left these two hold
together or fail together. -/
theorem frames_unique_while_free (C : Type) (cfg : RandomConfig) :
    (∀ s, (machine C cfg).ReachableWhen (DrawsFresh cfg) s → s.numFreePhysicalPages ≠ 0 →
      s.Injective ∧ s.numFreePhysicalPages = (s.unmappedFrames cfg).card) ∧
    ∀ s, (machine C cfg).Reachable s → s.numFreePhysicalPages ≠ 0 →
      (s.Injective ↔ s.numFreePhysicalPages = (s.unmappedFrames cfg).card) := by
  refine ⟨?_, fun s h h0 => (counted_of_reachable h).injective_iff_counter h0⟩
  intro s h h0
  have hnodup : s.numFreePhysicalPages ≠ 0 → s.mappedFrames.Nodup := by
    refine h.invariant (P := fun s => s.numFreePhysicalPages ≠ 0 → s.mappedFrames.Nodup) ?_ ?_
    · intro _
      show (create cfg).mappedFrames.Nodup
      rw [mappedFrames_create]
      exact nodup_nil
    · intro s call s' hs hfresh hstep h0
      exact nodup_step hs hfresh hstep h0
  have hinj : s.Injective := injective_iff_nodup.mpr (hnodup h0)
  exact ⟨hinj, ((counted_of_reachable h.reachable).injective_iff_counter h0).mp hinj⟩

def checkDrawsFresh (cfg : RandomConfig) (s : RandomTranslation) : RandomCall Unit → Bool
  | .reserve _ => true
  | .translate _ draws =>
    match drawPage cfg.numPages (isUnavailable s.reservedPages s.freePhysicalPages) draws with
    | none => true
    | some p => decide (p ∉ s.mappedFrames)

theorem checkDrawsFresh_spec (s : RandomTranslation) (call : RandomCall Unit)
    (h : checkDrawsFresh cfg s call = true) : DrawsFresh cfg s call := by
  rintro req draws p rfl - - hdraw
  simpa [checkDrawsFresh, hdraw] using h

/-- Two pages that are given different frames of three leave one. -/
theorem fresh_frames_counted : ∃ s, (machine Unit (smallMemory 3)).ReachableWhen
      (DrawsFresh (smallMemory 3)) s ∧ s.numFreePhysicalPages = 1 ∧
    s.Injective ∧ s.numFreePhysicalPages = (s.unmappedFrames (smallMemory 3)).card := by
  obtain ⟨s, hwhen, hfree⟩ := Machine.exists_reachableWhen (m := machine Unit (smallMemory 3))
    (checkDrawsFresh (smallMemory 3)) checkDrawsFresh_spec (P := fun s => s.numFreePhysicalPages = 1)
    [touchPage 0 0, touchPage 1 1] (by decide +kernel) (by decide +kernel)
  have h0 : s.numFreePhysicalPages ≠ 0 := by omega
  exact ⟨s, hwhen, hfree, (frames_unique_while_free Unit (smallMemory 3)).1 s hwhen h0⟩

/-- **A frame is drawn twice while frames remain**: core 0 gets frame 0 for its pages 0 and 1, one
frame is counted as left, and two are not mapped. -/
theorem frame_drawn_twice : ∃ s, (machine Unit (smallMemory 3)).Reachable s ∧
    s.numFreePhysicalPages = 1 ∧ s.frameOf 0 0 = some 0 ∧ s.frameOf 0 1 = some 0 ∧
    (s.unmappedFrames (smallMemory 3)).card = 2 :=
  Machine.exists_reachable [touchPage 0 0, touchPage 1 0] (by decide +kernel)

end RandomTranslation

end MultiCoreMemory
