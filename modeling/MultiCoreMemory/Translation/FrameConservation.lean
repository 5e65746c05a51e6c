import MultiCoreMemory.Translation.TableInvariants

/-!
# Conservation of physical frames

A migrated page keeps its old frame marked as in use, so a partition can hold fewer pages than
frames in use.  Without migrations the four tables stay exact inverses of each other.
-/

namespace MultiCoreMemory

open Placement List Option UnorderedMap

variable {cfg : PlacementConfig} {s s' : Placement} {ch ch' : Fin numChannels} {off off' : ℕ}

def usedFrames (cfg : PlacementConfig) (s : Placement) (ch : Fin numChannels) : ℕ :=
  ((List.range cfg.pagesPerChannel).filter fun off => !s.freePhysicalPages2d ch off).length

def pagesIn (cfg : PlacementConfig) (s : Placement) (ch : Fin numChannels) : ℕ :=
  (s.globalPageTable.entries.filter fun e => e.2 / cfg.pagesPerChannel = ch).length

/-- The page table, its reverse and the bitmaps describe the same assignment of frames. -/
structure Mirrored (cfg : PlacementConfig) (s : Placement) : Prop where
  inverse : ∀ v p, s.reversePageTable.lookup p = some v ↔ s.globalPageTable.lookup v = some p
  occupied : ∀ ch off, off < cfg.pagesPerChannel →
    (s.freePhysicalPages2d ch off = false ↔ ∃ v, s.globalPageTable.lookup v = some (cfg.frame ch off))

theorem Mirrored.initial (cfg : PlacementConfig) : Mirrored cfg (Placement.initial cfg) := by
  constructor <;> simp [Placement.initial]

section

variable (h : Mirrored cfg s)
include h

theorem Mirrored.inj {v v' : ℤ} {p : ℕ} (hv : s.globalPageTable.lookup v = some p)
    (hv' : s.globalPageTable.lookup v' = some p) : v = v' := by
  have h₁ := (h.inverse v p).mpr hv
  have h₂ := (h.inverse v' p).mpr hv'
  exact some.inj (h₁.symm.trans h₂)

theorem Mirrored.evictFrame (hp : 1 ≤ cfg.pagesPerChannel) {d : ℕ}
    (hused : s.freePhysicalPages2d ch (d % cfg.pagesPerChannel) = false) :
    Mirrored cfg (s.evictFrame cfg ch d) := by
  have hlt : d % cfg.pagesPerChannel < cfg.pagesPerChannel := Nat.mod_lt _ (by omega)
  obtain ⟨v₀, hv₀⟩ := (h.occupied ch _ hlt).mp hused
  have hr₀ := (h.inverse v₀ _).mpr hv₀
  simp only [Placement.evictFrame, subscript_of_lookup hr₀, frame_mod hlt]
  constructor
  · intro v p
    simp only [lookup_erase_iff]
    constructor
    · rintro ⟨hne, hr⟩
      refine ⟨?_, (h.inverse v p).mp hr⟩
      rintro rfl
      have hv := (h.inverse v p).mp hr
      rw [hv₀] at hv
      exact hne (some.inj hv).symm
    · rintro ⟨hne, hv⟩
      refine ⟨?_, (h.inverse v p).mpr hv⟩
      rintro rfl
      exact hne (h.inj hv hv₀)
  · intro ch' off' ho'
    simp only [markFrame_apply, lookup_erase_iff]
    by_cases hc : ch' = ch ∧ off' = d % cfg.pagesPerChannel
    · obtain ⟨rfl, rfl⟩ := hc
      simp only [and_self, if_true, Bool.true_eq_false, false_iff, not_exists, not_and]
      intro v hne hv
      exact hne (h.inj hv hv₀)
    · rw [if_neg hc, h.occupied ch' off' ho']
      constructor
      · rintro ⟨v, hv⟩
        refine ⟨v, ?_, hv⟩
        rintro rfl
        rw [hv₀] at hv
        obtain ⟨rfl, rfl⟩ := frame_inj hlt ho' (some.inj hv)
        exact hc ⟨rfl, rfl⟩
      · rintro ⟨v, _, hv⟩
        exact ⟨v, hv⟩

theorem Mirrored.assign (ho : off < cfg.pagesPerChannel) (hf : s.freePhysicalPages2d ch off = true)
    {vpn : ℤ} (hn : s.globalPageTable.lookup vpn = none) (m : UnorderedMap ℤ (Fin numChannels)) :
    Mirrored cfg { s.takeFrame ch off with
      globalPageTable := s.globalPageTable.insert vpn (cfg.frame ch off)
      reversePageTable := s.reversePageTable.insert (cfg.frame ch off) vpn
      pageToChannelMapping := m } := by
  have hfree : ∀ v, s.globalPageTable.lookup v ≠ some (cfg.frame ch off) := by
    intro v hv
    have hu := (h.occupied ch off ho).mpr ⟨v, hv⟩
    rw [hf] at hu
    cases hu
  constructor
  · intro v p
    simp only [lookup_insert_iff]
    constructor
    · rintro (⟨rfl, rfl⟩ | ⟨hne, hr⟩)
      · exact Or.inl ⟨rfl, rfl⟩
      · have hv := (h.inverse v p).mp hr
        refine Or.inr ⟨?_, hv⟩
        rintro rfl
        rw [hn] at hv
        cases hv
    · rintro (⟨rfl, rfl⟩ | ⟨hne, hv⟩)
      · exact Or.inl ⟨rfl, rfl⟩
      · refine Or.inr ⟨?_, (h.inverse v p).mpr hv⟩
        rintro rfl
        exact hfree v hv
  · intro ch' off' ho'
    simp only [Placement.takeFrame, markFrame_apply, lookup_insert_iff]
    by_cases hc : ch' = ch ∧ off' = off
    · obtain ⟨rfl, rfl⟩ := hc
      simp
    · rw [if_neg hc, h.occupied ch' off' ho']
      constructor
      · rintro ⟨v, hv⟩
        refine ⟨v, Or.inr ⟨?_, hv⟩⟩
        rintro rfl
        rw [hn] at hv
        cases hv
      · rintro ⟨v, ⟨_, he⟩ | ⟨_, hv⟩⟩
        · obtain ⟨rfl, rfl⟩ := frame_inj ho ho' he
          exact absurd ⟨rfl, rfl⟩ hc
        · exact ⟨v, hv⟩

theorem Mirrored.resolvePage (hp : 1 ≤ cfg.pagesPerChannel) (hc : Counted cfg s) {vpn : ℤ}
    {core : Fin 8} {draws : List ℕ} {ppn : ℕ}
    (hr : Placement.resolvePage cfg s vpn core draws = some (ppn, s')) : Mirrored cfg s' := by
  obtain ⟨_, rfl⟩ | ⟨hn, s₁, ds, hf, rfl⟩ := resolvePage_cases hr
  · exact h
  · obtain ⟨s₁, d, rfl | ⟨h0, v, -, rfl⟩, hfr, rfl, rfl⟩ := findRandomFreePage_spec hf
    · exact h.assign (Nat.mod_lt _ hp) hfr hn _
    · have hfull := free_of_freeCount_zero ((hc _).symm.trans h0) (Nat.mod_lt v hp)
      refine (h.evictFrame hp hfull).assign (Nat.mod_lt _ hp) hfr ?_ _
      -- the new page had no frame, and an eviction gives none
      cases he : ((s.evictFrame cfg _ v).globalPageTable.lookup vpn) with
      | none => rfl
      | some p =>
        simp only [Placement.evictFrame, lookup_erase_iff] at he
        rw [hn] at he
        cases he.2

/-! ## Counting -/

/-- **The frames in use of a partition are as many as the pages it holds.** -/
theorem Mirrored.used_eq_pages (hpl : Placed cfg s.globalPageTable s.pageToChannelMapping)
    (ch : Fin numChannels) : usedFrames cfg s ch = pagesIn cfg s ch := by
  have hentry : ∀ e ∈ s.globalPageTable.entries, e.2 / cfg.pagesPerChannel = ch →
      e.2 % cfg.pagesPerChannel < cfg.pagesPerChannel ∧
        e.2 = cfg.frame ch (e.2 % cfg.pagesPerChannel) := by
    rintro ⟨v, p⟩ he hch
    have hv : s.globalPageTable.lookup v = some p := AList.mem_lookup_iff.mpr he
    obtain ⟨ch', off, ho, hl, _⟩ := hpl.mapped (by rw [hv]; simp)
    rw [hv] at hl
    obtain rfl : p = cfg.frame ch' off := some.inj hl
    simp only [frame_div ho] at hch
    obtain rfl : ch' = ch := Fin.ext hch
    rw [frame_mod ho]
    exact ⟨ho, rfl⟩
  -- offsets of the pages of the partition, against the offsets marked in the bitmap
  have hperm : ((range cfg.pagesPerChannel).filter fun off => !s.freePhysicalPages2d ch off).Perm
      ((s.globalPageTable.entries.filter fun e => e.2 / cfg.pagesPerChannel = ch).map
        fun e => e.2 % cfg.pagesPerChannel) := by
    rw [perm_ext_iff_of_nodup (nodup_range.filter _)]
    · intro off
      simp only [mem_filter, mem_range, Bool.not_eq_true', List.mem_map, decide_eq_true_eq]
      constructor
      · rintro ⟨ho, hu⟩
        obtain ⟨v, hv⟩ := (h.occupied ch off ho).mp hu
        exact ⟨⟨v, cfg.frame ch off⟩, ⟨AList.mem_lookup_iff.mp hv, frame_div ho⟩, frame_mod ho⟩
      · rintro ⟨⟨v, p⟩, ⟨he, hch⟩, rfl⟩
        obtain ⟨ho, hfr⟩ := hentry _ he hch
        refine ⟨ho, (h.occupied ch _ ho).mpr ⟨v, ?_⟩⟩
        rw [← hfr]
        exact AList.mem_lookup_iff.mpr he
    · refine List.Nodup.map_on ?_ ((List.NodupKeys.nodup s.globalPageTable.nodupKeys).filter _)
      rintro ⟨v, p⟩ he ⟨v', p'⟩ he' hoff
      simp only [mem_filter, decide_eq_true_eq] at he he'
      have h₁ := (hentry _ he.1 he.2).2
      have h₂ := (hentry _ he'.1 he'.2).2
      obtain rfl : p = p' := by
        simp only at h₁ h₂ hoff
        rw [h₁, h₂, hoff]
      obtain rfl : v = v' := h.inj (AList.mem_lookup_iff.mpr he.1) (AList.mem_lookup_iff.mpr he'.1)
      rfl
  have hlen := hperm.length_eq
  rw [length_map] at hlen
  exact hlen

end

/-! ## Runs -/

namespace DynamicMigration

/-- The condition on a call: no page is migrated in it. -/
abbrev NoMigration (cfg : PlacementConfig) : Placement → TranslateCall → Prop :=
  CallMeets cfg (fun _ _ _ => False) (fun _ _ _ => True)

theorem mirrored_kept (hp : 1 ≤ cfg.pagesPerChannel) :
    Keeps cfg (fun s => TablesAgree cfg s ∧ Mirrored cfg s) (fun _ _ _ => False)
      fun _ _ _ => True where
  counters s _ _ _ h := ⟨(tables_kept hp).counters s _ _ _ h.1, h.2.inverse, h.2.occupied⟩
  visit cores s vpn draws s' ds h hno hv := by
    refine ⟨(tables_kept hp).visit _ _ _ _ _ _ h.1 (fun _ _ _ => trivial) hv, ?_⟩
    obtain ⟨m, hread⟩ := readMapping_cases cfg s vpn
    obtain ⟨_, rfl, _⟩ | ⟨_, _, rfl, _⟩ | ⟨hl, ch, ppn, s₂, ht, _, _⟩ := visitEntry_cases hv
    · exact h.2
    · rw [hread]; exact ⟨h.2.inverse, h.2.occupied⟩
    · exact (hno ch hl ht).elim
  touch _ _ _ _ _ _ h _ hr := ⟨h.1.resolvePage hp hr, h.2.resolvePage hp h.1.counted hr⟩

/-- **Frames are conserved while no page migrates.**  In every run of `translate` calls that
    migrates no page, each partition has as many frames marked not free as pages mapped into it. -/
theorem frames_conserved (cfg : PlacementConfig) (hp : 1 ≤ cfg.pagesPerChannel) {s : Placement}
    (h : (machine cfg).ReachableWhen (NoMigration cfg) s) (ch : Fin numChannels) :
    usedFrames cfg s ch = pagesIn cfg s ch := by
  have hboth : TablesAgree cfg s ∧ Mirrored cfg s :=
    h.invariant (P := fun s => TablesAgree cfg s ∧ Mirrored cfg s)
      ⟨TablesAgree.initial cfg, Mirrored.initial cfg⟩
      fun _ _ _ hs hno hst => (mirrored_kept hp).step hs hno hst
  exact hboth.2.used_eq_pages hboth.1.placed ch

/-- The third call of `sharingRun` migrates page 1 from channel 0 to channel 1; the frame it held
    in channel 0 stays marked as in use. -/
theorem migration_leaks_frame : 1 ≤ tinyConfig.pagesPerChannel ∧
    ∃ s, (machine tinyConfig).Reachable s ∧
      usedFrames tinyConfig s 0 = 1 ∧ pagesIn tinyConfig s 0 = 0 :=
  ⟨by decide +kernel, Machine.exists_reachable [touch 1 0 [], touch 1 1 [1], touch 1 1 [1]]
    (by decide +kernel)⟩

/-- Outside the last call of a window nothing is asked of a call. -/
theorem noMigration_of_counter {c : TranslateCall}
    (hne : s.migrationCounter + 1 ≠ cfg.stabilityWindow) : NoMigration cfg s c :=
  ⟨fun hw => absurd hw hne, fun _ _ _ _ => trivial⟩

/-- Two first touches of core 0, the second of which evicts the page of the first. -/
theorem frames_conserved_two_touches : ∃ s,
    (machine tinyConfig).ReachableWhen (NoMigration tinyConfig) s ∧ pagesIn tinyConfig s 0 = 1 ∧
      usedFrames tinyConfig s 0 = pagesIn tinyConfig s 0 := by
  obtain ⟨s, hs, hpages⟩ := Machine.exists_reachableWhen (m := machine tinyConfig)
    (fun s _ => decide (s.migrationCounter + 1 ≠ tinyConfig.stabilityWindow))
    (fun _ _ h => noMigration_of_counter (of_decide_eq_true h)) (P := fun s => pagesIn tinyConfig s 0 = 1)
    [touch 1 0 [], touch 2 0 [1]] (by decide +kernel) (by decide +kernel)
  exact ⟨s, hs, hpages, frames_conserved tinyConfig (by decide +kernel) hs 0⟩

end DynamicMigration

end MultiCoreMemory
