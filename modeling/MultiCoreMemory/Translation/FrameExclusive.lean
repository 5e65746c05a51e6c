import MultiCoreMemory.Translation.Policies

/-!
# When do two virtual pages share a frame?

`migrate_pages` gives a page a new frame without entering it in `reverse_page_table`, while
`evict_and_replace_page` asks that table whose mapping it has to remove.  An eviction that draws
the frame of a migrated page therefore frees a frame that is still mapped.
-/

namespace MultiCoreMemory

open Placement Option UnorderedMap

variable {cfg : PlacementConfig} {s s' : Placement} {ch ch' : Fin numChannels} {off off' : ℕ}

/-! ## Frames and bitmaps -/

theorem frame_mod (h : off < cfg.pagesPerChannel) : cfg.frame ch off % cfg.pagesPerChannel = off := by
  simp [PlacementConfig.frame, Nat.mod_eq_of_lt h]

theorem frame_div (h : off < cfg.pagesPerChannel) : cfg.frame ch off / cfg.pagesPerChannel = ch := by
  have hp : 0 < cfg.pagesPerChannel := by omega
  rw [PlacementConfig.frame, Nat.add_mul_div_right _ _ hp, Nat.div_eq_of_lt h, Nat.zero_add]

theorem frame_inj (h : off < cfg.pagesPerChannel) (h' : off' < cfg.pagesPerChannel)
    (he : cfg.frame ch off = cfg.frame ch' off') : ch = ch' ∧ off = off' := by
  have hch := congrArg (· / cfg.pagesPerChannel) he
  have hoff := congrArg (· % cfg.pagesPerChannel) he
  simp only [frame_div h, frame_div h', frame_mod h, frame_mod h'] at hch hoff
  exact ⟨Fin.ext hch, hoff⟩

theorem markFrame_apply (s : Placement) (ch ch' : Fin numChannels) (off off' : ℕ) (b : Bool) :
    s.markFrame ch off b ch' off' =
      if ch' = ch ∧ off' = off then b else s.freePhysicalPages2d ch' off' := by
  unfold markFrame
  by_cases hc : ch' = ch
  · subst hc
    by_cases ho : off' = off
    · subst ho; simp
    · simp [ho]
  · simp [hc]

/-! ## What an allocation returns -/

variable {draws ds : List ℕ} {ppn : ℕ}

theorem searchFreePage_spec (h : searchFreePage cfg s ch draws = some (ppn, s', ds)) :
    ∃ d, draws.find? (fun d => s.freePhysicalPages2d ch (d % cfg.pagesPerChannel)) = some d ∧
      ppn = cfg.frame ch (d % cfg.pagesPerChannel) ∧
      s' = s.takeFrame ch (d % cfg.pagesPerChannel) := by
  induction draws with
  | nil => cases h
  | cons d draws ih =>
    have hoff : cfg.frame ch (d % cfg.pagesPerChannel) % cfg.pagesPerChannel =
        d % cfg.pagesPerChannel := by simp [PlacementConfig.frame]
    simp only [searchFreePage, hoff] at h
    split at h
    · rename_i hfree
      cases h
      exact ⟨d, by rw [List.find?_cons, hfree], rfl, rfl⟩
    · rename_i hfree
      rw [List.find?_cons, Bool.not_eq_true _ |>.mp hfree]
      exact ih h

/-- **What an allocation does**: it takes a free frame of the partition, after an eviction if there is
none. -/
theorem findRandomFreePage_spec (h : findRandomFreePage cfg s ch draws = some (ppn, s', ds)) :
    ∃ s₁ d, (s₁ = s ∨ s.numFreePhysicalPagesPerPart ch = 0 ∧
        ∃ v ∈ draws.head?, s₁ = s.evictFrame cfg ch v) ∧
      s₁.freePhysicalPages2d ch (d % cfg.pagesPerChannel) = true ∧
      ppn = cfg.frame ch (d % cfg.pagesPerChannel) ∧
      s' = s₁.takeFrame ch (d % cfg.pagesPerChannel) := by
  unfold findRandomFreePage at h
  split at h
  · rename_i h0
    cases draws with
    | nil => cases h
    | cons v rest =>
      obtain ⟨d, hd, rfl, rfl⟩ := searchFreePage_spec h
      have hfree := List.find?_some hd
      exact ⟨_, d, .inr ⟨h0, v, rfl, rfl⟩, hfree, rfl, rfl⟩
  · obtain ⟨d, hd, rfl, rfl⟩ := searchFreePage_spec h
    have hfree := List.find?_some hd
    exact ⟨s, d, .inl rfl, hfree, rfl, rfl⟩

/-! ## The invariant -/

/-- No frame is mapped twice, and a mapped frame lies in a partition and is not free there. -/
structure Exclusive (cfg : PlacementConfig) (free : Fin numChannels → ℕ → Bool)
    (table : UnorderedMap ℤ ℕ) : Prop where
  inj : ∀ v v' p, table.lookup v = some p → table.lookup v' = some p → v = v'
  used : ∀ v p, table.lookup v = some p →
    ∃ ch off, off < cfg.pagesPerChannel ∧ p = cfg.frame ch off ∧ free ch off = false

theorem Exclusive.initial (cfg : PlacementConfig) :
    Exclusive cfg (Placement.initial cfg).freePhysicalPages2d (Placement.initial cfg).globalPageTable :=
  ⟨fun _ _ _ h => by simp [Placement.initial] at h, fun _ _ h => by simp [Placement.initial] at h⟩

theorem Exclusive.free_unmapped {free : Fin numChannels → ℕ → Bool} {table : UnorderedMap ℤ ℕ}
    (hE : Exclusive cfg free table) (ho : off < cfg.pagesPerChannel) (hf : free ch off = true)
    (v : ℤ) : table.lookup v ≠ some (cfg.frame ch off) := by
  intro hv
  obtain ⟨ch', off', ho', he, hu⟩ := hE.used v _ hv
  obtain ⟨rfl, rfl⟩ := frame_inj ho ho' he
  rw [hf] at hu
  cases hu

theorem Exclusive.take_insert (hE : Exclusive cfg s.freePhysicalPages2d s.globalPageTable)
    (ho : off < cfg.pagesPerChannel) (hf : s.freePhysicalPages2d ch off = true) (vpn : ℤ) :
    Exclusive cfg (s.takeFrame ch off).freePhysicalPages2d
      (s.globalPageTable.insert vpn (cfg.frame ch off)) := by
  have hun := hE.free_unmapped ho hf
  constructor
  · intro v v' p hv hv'
    rw [lookup_insert_iff] at hv hv'
    rcases hv with ⟨rfl, rfl⟩ | ⟨_, hv⟩ <;> rcases hv' with ⟨rfl, hp⟩ | ⟨_, hv'⟩
    · rfl
    · exact absurd hv' (hun v')
    · subst hp; exact absurd hv (hun v)
    · exact hE.inj v v' p hv hv'
  · intro v p hv
    rw [lookup_insert_iff] at hv
    rcases hv with ⟨_, rfl⟩ | ⟨_, hv⟩
    · exact ⟨ch, off, ho, rfl, by simp [takeFrame, markFrame_apply]⟩
    · obtain ⟨ch', off', ho', he, hu⟩ := hE.used v p hv
      refine ⟨ch', off', ho', he, ?_⟩
      simp only [takeFrame, markFrame_apply]
      split
      · rfl
      · exact hu

/-- The condition on an allocation: if it evicts, whatever page is mapped to the drawn frame is the one
`reverse_page_table` names (page 0 where it names none). -/
def VictimRecorded (cfg : PlacementConfig) (s : Placement) (ch : Fin numChannels)
    (draws : List ℕ) : Prop :=
  s.numFreePhysicalPagesPerPart ch = 0 → ∀ d ∈ draws.head?, ∀ v,
    s.globalPageTable.lookup v = some (cfg.frame ch (d % cfg.pagesPerChannel)) →
    v = (s.reversePageTable.lookup (cfg.frame ch (d % cfg.pagesPerChannel))).getD 0

theorem Exclusive.evictFrame (hp : 1 ≤ cfg.pagesPerChannel)
    (hE : Exclusive cfg s.freePhysicalPages2d s.globalPageTable) {d : ℕ}
    (hrec : ∀ v, s.globalPageTable.lookup v = some (cfg.frame ch (d % cfg.pagesPerChannel)) →
      v = (s.reversePageTable.lookup (cfg.frame ch (d % cfg.pagesPerChannel))).getD 0) :
    Exclusive cfg (s.evictFrame cfg ch d).freePhysicalPages2d
      (s.evictFrame cfg ch d).globalPageTable := by
  have hlt : d % cfg.pagesPerChannel < cfg.pagesPerChannel := Nat.mod_lt _ (by omega)
  simp only [Placement.evictFrame, subscript_fst, frame_mod hlt]
  constructor
  · intro v v' p hv hv'
    rw [lookup_erase_iff] at hv hv'
    exact hE.inj v v' p hv.2 hv'.2
  · intro v p hv
    rw [lookup_erase_iff] at hv
    obtain ⟨ch', off', ho', rfl, hu⟩ := hE.used v p hv.2
    refine ⟨ch', off', ho', rfl, ?_⟩
    rw [markFrame_apply, if_neg]
    · exact hu
    · -- the freed frame was mapped by the recorded page only, which is no longer mapped
      rintro ⟨rfl, rfl⟩
      exact hv.1 (hrec v hv.2)

theorem Exclusive.findRandomFreePage (hp : 1 ≤ cfg.pagesPerChannel)
    (hE : Exclusive cfg s.freePhysicalPages2d s.globalPageTable)
    (hrec : VictimRecorded cfg s ch draws)
    (h : Placement.findRandomFreePage cfg s ch draws = some (ppn, s', ds)) (vpn : ℤ) :
    Exclusive cfg s'.freePhysicalPages2d (s'.globalPageTable.insert vpn ppn) := by
  obtain ⟨s₁, d, rfl | ⟨h0, v, hv, rfl⟩, hf, rfl, rfl⟩ := findRandomFreePage_spec h
  · exact hE.take_insert (Nat.mod_lt _ hp) hf vpn
  · exact (hE.evictFrame hp (hrec h0 v hv)).take_insert (Nat.mod_lt _ hp) hf vpn

/-! ## One call of `Dynamic_migration::translate` -/

namespace DynamicMigration

theorem readMapping_cases (cfg : PlacementConfig) (s : Placement) (vpn : ℤ) :
    ∃ m, readMapping cfg s vpn = { s with pageToChannelMapping := m } := by
  unfold readMapping
  split
  · exact ⟨_, rfl⟩
  · exact ⟨s.pageToChannelMapping, rfl⟩

/-- **What one loop iteration can do**: skip an erased entry, leave the page where it is, or
    allocate a frame and move the page. -/
theorem visitEntry_cases {cores : ℤ → Equiv.Perm (Fin 8)} {vpn : ℤ} {draws ds : List ℕ}
    (h : visitEntry cfg cores s vpn draws = some (s', ds)) :
    (s.globalPageTable.lookup vpn = none ∧ s' = s ∧ ds = draws) ∨
    (s.globalPageTable.lookup vpn ≠ none ∧ migrationTarget cfg s cores vpn = none ∧
      s' = readMapping cfg s vpn ∧ ds = draws) ∨
    (s.globalPageTable.lookup vpn ≠ none ∧ ∃ ch ppn s₁, migrationTarget cfg s cores vpn = some ch ∧
      findRandomFreePage cfg (readMapping cfg s vpn) ch draws = some (ppn, s₁, ds) ∧
      s' = moveTo s₁ vpn ch ppn) := by
  unfold visitEntry at h
  split at h
  · rename_i hl
    cases h
    exact Or.inl ⟨hl, rfl, rfl⟩
  · rename_i p hl
    split at h
    · rename_i ht
      cases h
      exact Or.inr (Or.inl ⟨by simp [hl], ht, rfl, rfl⟩)
    · rename_i ch ht
      split at h
      · cases h
      · rename_i ppn s₁ ds₁ hf
        cases h
        exact Or.inr (Or.inr ⟨by simp [hl], ch, ppn, s₁, ht, hf, rfl⟩)

theorem endOfWindow_cases {o : TranslateOracle} {ds : List ℕ}
    (h : endOfWindow cfg o s = some (s', ds)) :
    (s.migrationCounter ≠ cfg.stabilityWindow ∧ s' = s ∧ ds = o.draws) ∨
    (s.migrationCounter = cfg.stabilityWindow ∧
      ∃ s₁, migrateLoop cfg o.cores o.order s o.draws = some (s₁, ds) ∧
        s' = { s₁ with
          windowCounter := s₁.windowCounter + 1
          pageAccessCountsPerCore := fun _ _ => 0
          migrationCounter := 0 }) := by
  unfold endOfWindow at h
  split at h
  · rename_i hw
    unfold migratePages at h
    split at h
    · cases h
    · rename_i s₂ ds₂ hm
      split at hm
      · cases hm
      · rename_i s₃ ds₃ hl
        cases hm
        cases h
        exact Or.inr ⟨hw, s₃, hl, rfl⟩
  · rename_i hw
    cases h
    exact Or.inl ⟨hw, rfl, rfl⟩

theorem translate_cases {C : Type} {o : TranslateOracle} {req req' : Request C}
    (h : translate cfg o s req = some (req', s')) :
    ∃ s₁ ds ppn, endOfWindow cfg o (s.countAccess (cfg.vpnOf req.addr) (coreOf req.sourceId)) =
        some (s₁, ds) ∧
      resolvePage cfg s₁ (cfg.vpnOf req.addr) (coreOf req.sourceId) ds = some (ppn, s') ∧
      req' = req.translated cfg ppn := by
  unfold translate at h
  simp only at h
  split at h
  · cases h
  · rename_i s₁ ds hw
    split at h
    · cases h
    · rename_i ppn s₂ hr
      cases h
      exact ⟨s₁, ds, ppn, hw, hr, rfl⟩

end DynamicMigration

theorem resolvePage_cases {vpn : ℤ} {core : Fin 8}
    (h : resolvePage cfg s vpn core draws = some (ppn, s')) :
    (s.globalPageTable.lookup vpn = some ppn ∧ s' = s) ∨
    (s.globalPageTable.lookup vpn = none ∧
      ∃ s₁ ds, findRandomFreePage cfg s (findBestChannel cfg.latency core) draws =
          some (ppn, s₁, ds) ∧
        s' = { s₁ with
          globalPageTable := s₁.globalPageTable.insert vpn ppn
          reversePageTable := s₁.reversePageTable.insert ppn vpn
          pageToChannelMapping :=
            s₁.pageToChannelMapping.insert vpn (findBestChannel cfg.latency core) }) := by
  unfold resolvePage at h
  split at h
  · rename_i p hl
    cases h
    exact Or.inl ⟨hl, rfl⟩
  · rename_i hl
    rw [assignPage_eq] at h
    obtain ⟨⟨p, s₁, ds⟩, hf, he⟩ := map_eq_some_iff.mp h
    cases he
    exact Or.inr ⟨hl, s₁, ds, hf, rfl⟩

theorem coreOf_fin (i : Fin 8) : coreOf ((i : ℕ) : ℤ) = i := by
  simp [coreOf]

/-! ## Runs -/

namespace DynamicMigration

/-- A property that does not read the counters, and that is kept where the loop allocates under
    `onMigrate` and a first touch allocates under `onTouch`. -/
structure Keeps (cfg : PlacementConfig) (P : Placement → Prop)
    (onMigrate onTouch : Placement → Fin numChannels → List ℕ → Prop) : Prop where
  counters : ∀ s n w counts, P s →
    P { s with migrationCounter := n, windowCounter := w, pageAccessCountsPerCore := counts }
  visit : ∀ cores s vpn draws s' ds, P s →
    (∀ ch, s.globalPageTable.lookup vpn ≠ none → migrationTarget cfg s cores vpn = some ch →
      onMigrate s ch draws) → visitEntry cfg cores s vpn draws = some (s', ds) → P s'
  touch : ∀ s vpn core draws ppn s', P s →
    (s.globalPageTable.lookup vpn = none → onTouch s (findBestChannel cfg.latency core) draws) →
    resolvePage cfg s vpn core draws = some (ppn, s') → P s'

namespace Keeps

variable {P : Placement → Prop} {onMigrate onTouch : Placement → Fin numChannels → List ℕ → Prop}
  {cores : ℤ → Equiv.Perm (Fin 8)} {order : List ℤ} {draws ds : List ℕ} {o : TranslateOracle}

section

variable (hk : Keeps cfg P onMigrate onTouch)
include hk

theorem migrateLoop (h : P s) (hmeets : LoopMeets cfg onMigrate cores order s draws)
    (hm : DynamicMigration.migrateLoop cfg cores order s draws = some (s', ds)) : P s' := by
  induction order generalizing s draws with
  | nil => cases hm; exact h
  | cons vpn order ih =>
    simp only [DynamicMigration.migrateLoop] at hm
    split at hm
    · cases hm
    · rename_i s₁ ds₁ hv
      exact ih (hk.visit _ _ _ _ _ _ h hmeets.1 hv) (hmeets.2 _ _ hv) hm

theorem endOfWindow (h : P s)
    (hmeets : s.migrationCounter = cfg.stabilityWindow → LoopMeets cfg onMigrate o.cores o.order s o.draws)
    (hw : DynamicMigration.endOfWindow cfg o s = some (s', ds)) : P s' := by
  obtain ⟨-, rfl, -⟩ | ⟨hwin, s₁, hl, rfl⟩ := endOfWindow_cases hw
  · exact h
  · exact hk.counters s₁ _ _ _ (hk.migrateLoop h (hmeets hwin) hl)

theorem countAccess (h : P s) (vpn : ℤ) (core : Fin 8) :
    P (s.countAccess vpn core) := hk.counters s _ _ _ h

/-- **One call** whose allocations meet the conditions. -/
theorem step (h : P s) {c : TranslateCall} (hmeets : CallMeets cfg onMigrate onTouch s c)
    (hst : (machine cfg).step s c = some s') : P s' := by
  simp only [machine] at hst
  split at hst
  · obtain ⟨⟨req', s₂⟩, ht, rfl⟩ := map_eq_some_iff.mp hst
    obtain ⟨s₁, ds, ppn, hw, hr, -⟩ := translate_cases ht
    simp only [TranslateCall.req, coreOf_fin] at hw hr
    have h₁ := hk.endOfWindow (hk.countAccess h _ _) hmeets.1 hw
    exact hk.touch _ _ _ _ _ _ h₁ (hmeets.2 s₁ ds hw) hr
  · cases hst

end

variable {A : Placement → Fin numChannels → List ℕ → Prop}

theorem loopMeets (hk : Keeps cfg P (fun _ _ _ => True) fun _ _ _ => True)
    (hA : ∀ s ch draws, P s → A s ch draws) (h : P s) : LoopMeets cfg A cores order s draws := by
  induction order generalizing s draws with
  | nil => trivial
  | cons vpn order ih =>
    exact ⟨fun ch _ _ => hA s ch draws h,
      fun s' draws' hv => ih (hk.visit _ _ _ _ _ _ h (fun _ _ _ => trivial) hv)⟩

theorem callMeets (hk : Keeps cfg P (fun _ _ _ => True) fun _ _ _ => True)
    (hA : ∀ s ch draws, P s → A s ch draws) (h : P s) (c : TranslateCall) : CallMeets cfg A A s c := by
  constructor
  · intro _
    exact hk.loopMeets hA (hk.countAccess h _ _)
  · intro s₂ draws hw _
    refine hA s₂ _ draws (hk.endOfWindow (hk.countAccess h _ _) (fun _ => ?_) hw)
    exact hk.loopMeets (fun _ _ _ _ => trivial) (hk.countAccess h _ _)

end Keeps

theorem exclusive_kept (hp : 1 ≤ cfg.pagesPerChannel) :
    Keeps cfg (fun s => Exclusive cfg s.freePhysicalPages2d s.globalPageTable) (VictimRecorded cfg)
      (VictimRecorded cfg) where
  counters _ _ _ _ hE := hE
  visit cores s vpn draws s' ds hE hrec h := by
    obtain ⟨m, hm⟩ := readMapping_cases cfg s vpn
    obtain ⟨_, rfl, _⟩ | ⟨_, _, rfl, _⟩ | ⟨hl, ch, ppn, s₁, ht, hf, rfl⟩ := visitEntry_cases h
    · exact hE
    · rw [hm]; exact hE
    · have hv := hrec ch hl ht
      rw [hm] at hf
      exact Exclusive.findRandomFreePage hp (s := { s with pageToChannelMapping := m }) hE hv hf vpn
  touch s vpn core draws ppn s' hE hrec h := by
    obtain ⟨_, rfl⟩ | ⟨hnone, s₁, ds, hf, rfl⟩ := resolvePage_cases h
    · exact hE
    · exact hE.findRandomFreePage hp (hrec hnone) hf _

/-- **Frames stay exclusive while every eviction draws a recorded frame**: one whose mapped page, if
any, is the one `reverse_page_table` names. -/
theorem translate_keeps_frames_exclusive (cfg : PlacementConfig) (hp : 1 ≤ cfg.pagesPerChannel)
    {s : Placement}
    (h : (machine cfg).ReachableWhen (CallMeets cfg (VictimRecorded cfg) (VictimRecorded cfg)) s) :
    ∀ v v' p, s.globalPageTable.lookup v = some p → s.globalPageTable.lookup v' = some p →
      v = v' := by
  have hE : Exclusive cfg s.freePhysicalPages2d s.globalPageTable :=
    h.invariant (P := fun s => Exclusive cfg s.freePhysicalPages2d s.globalPageTable)
      (Exclusive.initial cfg)
      (fun _ _ _ hE hrec hst => (exclusive_kept hp).step hE hrec hst)
  exact hE.inj

/-- One frame a partition, every page hot, and a cost that truncates to 0. -/
def tinyConfig : PlacementConfig where
  maxPaddr := 32768
  hotPageThreshold := 1
  stabilityWindow := 3
  cooldownWindows := 0
  bandwidth := 4096
  latency := initializeCoreChannelLatency

def touch (vpn : ℤ) (core : Fin 8) (order : List ℤ) : TranslateCall where
  addr := vpn * 4096
  sourceId := core
  oracle := { draws := [0, 0], order := order }

/-- Page 1 is touched by core 0, then twice by core 1, migrates to channel 1, and the first page
    that core 1 touches next evicts a frame there. -/
def sharingRun : List TranslateCall := [touch 1 0 [], touch 1 1 [1], touch 1 1 [1], touch 2 1 [1]]

theorem evicted_migrated_page_shares_frame :
    1 ≤ tinyConfig.pagesPerChannel ∧
    ∃ s, (machine tinyConfig).Reachable s ∧
      s.globalPageTable.lookup 1 = some 1 ∧ s.globalPageTable.lookup 2 = some 1 :=
  ⟨by decide +kernel, Machine.exists_reachable sharingRun (by decide +kernel)⟩

/-- The window goes on, and `reverse_page_table` names the page of every mapped frame. -/
def victimsRecorded (cfg : PlacementConfig) (s : Placement) : Bool :=
  decide (s.migrationCounter + 1 ≠ cfg.stabilityWindow) &&
    s.globalPageTable.entries.all fun e => s.reversePageTable.lookup e.2 == some e.1

theorem callMeets_of_victimsRecorded {c : TranslateCall} (h : victimsRecorded cfg s = true) :
    CallMeets cfg (VictimRecorded cfg) (VictimRecorded cfg) s c := by
  simp only [victimsRecorded, Bool.and_eq_true, decide_eq_true_eq, List.all_eq_true, beq_iff_eq] at h
  refine ⟨fun hw => absurd hw h.1, ?_⟩
  intro s₂ draws hw _ _ d _ v hv
  obtain ⟨_, rfl, rfl⟩ | ⟨hwin, _⟩ := endOfWindow_cases hw
  · have hr := h.2 _ (AList.mem_lookup_iff.mp hv)
    exact (congrArg (getD · 0) hr).symm
  · exact absurd hwin h.1

theorem recorded_eviction_keeps_frames_exclusive : ∃ s,
    (machine tinyConfig).ReachableWhen
      (CallMeets tinyConfig (VictimRecorded tinyConfig) (VictimRecorded tinyConfig)) s ∧
    s.globalPageTable.lookup 1 = none ∧ s.globalPageTable.lookup 2 = some 0 ∧
    ∀ v v' p, s.globalPageTable.lookup v = some p → s.globalPageTable.lookup v' = some p →
      v = v' := by
  obtain ⟨s, hs, hfirst, hsecond⟩ := Machine.exists_reachableWhen (m := machine tinyConfig)
    (fun s _ => victimsRecorded tinyConfig s) (fun _ _ => callMeets_of_victimsRecorded)
    (P := fun s => s.globalPageTable.lookup 1 = none ∧ s.globalPageTable.lookup 2 = some 0)
    [touch 1 0 [], touch 2 0 [1]] (by decide +kernel) (by decide +kernel)
  exact ⟨s, hs, hfirst, hsecond, translate_keeps_frames_exclusive tinyConfig (by decide +kernel) hs⟩

end DynamicMigration

end MultiCoreMemory
