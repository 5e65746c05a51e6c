import MultiCoreMemory.Translation.FrameExclusive

/-!
# What the placement tables always agree on

Two facts survive every call of either policy, migrations included: `Placed` and `Counted`.
`TablesAgree.takeFrame`, `TablesAgree.evictFrame` and `TablesAgree.findRandomFreePage` are the
places where frames change hands; `DynamicMigration.reachable_tables` and
`LocalToRequester.reachable_tables` are the runs.
-/

namespace MultiCoreMemory

open Placement Finset AList

variable {cfg : PlacementConfig} {s s' : Placement} {ch ch' : Fin numChannels} {off off' : ℕ}

/-! ## Counting free frames -/

def freeCount (cfg : PlacementConfig) (free : Fin numChannels → ℕ → Bool) (ch : Fin numChannels) : ℕ :=
  ((range cfg.pagesPerChannel).filter fun off => free ch off = true).card

theorem freeCount_markFrame (ho : off < cfg.pagesPerChannel) (b : Bool)
    (ch ch' : Fin numChannels) : freeCount cfg (s.markFrame ch off b) ch' +
        (if ch' = ch then (s.freePhysicalPages2d ch off).toNat else 0) =
      freeCount cfg s.freePhysicalPages2d ch' + if ch' = ch then b.toNat else 0 := by
  unfold freeCount
  by_cases hc : ch' = ch
  · subst hc
    have hmem : off ∈ range cfg.pagesPerChannel := mem_range.mpr ho
    have hrest : ∑ o ∈ (range cfg.pagesPerChannel).erase off,
        (if s.markFrame ch' off b ch' o = true then 1 else 0) =
        ∑ o ∈ (range cfg.pagesPerChannel).erase off,
          if s.freePhysicalPages2d ch' o = true then 1 else 0 := by
      refine sum_congr rfl fun o ho => ?_
      have hne : o ≠ off := (mem_erase.mp ho).1
      simp [markFrame_apply, hne]
    rw [card_filter, card_filter, ← add_sum_erase _ _ hmem,
      ← add_sum_erase _ (fun o => if s.freePhysicalPages2d ch' o = true then 1 else 0) hmem,
      hrest]
    cases b <;> cases s.freePhysicalPages2d ch' off <;> simp [markFrame_apply, Nat.add_comm]
  · simp [markFrame_apply, hc]

theorem free_of_freeCount_zero {free : Fin numChannels → ℕ → Bool}
    (h : freeCount cfg free ch = 0) (ho : off < cfg.pagesPerChannel) : free ch off = false := by
  rw [freeCount, card_eq_zero, filter_eq_empty_iff] at h
  simpa using h (mem_range.mpr ho)

/-! ## The invariant -/

def Placed (cfg : PlacementConfig) (table : UnorderedMap ℤ ℕ)
    (mapping : UnorderedMap ℤ (Fin numChannels)) : Prop :=
  ∀ v, (table.lookup v = none ∧ mapping.lookup v = none) ∨
    ∃ ch off, off < cfg.pagesPerChannel ∧ table.lookup v = some (cfg.frame ch off) ∧
      mapping.lookup v = some ch

def Counted (cfg : PlacementConfig) (s : Placement) : Prop :=
  ∀ ch, s.numFreePhysicalPagesPerPart ch = freeCount cfg s.freePhysicalPages2d ch

structure TablesAgree (cfg : PlacementConfig) (s : Placement) : Prop where
  placed : Placed cfg s.globalPageTable s.pageToChannelMapping
  counted : Counted cfg s

theorem TablesAgree.initial (cfg : PlacementConfig) : TablesAgree cfg (Placement.initial cfg) where
  placed _ := Or.inl ⟨lookup_empty _, lookup_empty _⟩
  counted ch := by simp [Placement.initial, freeCount]

variable {table : UnorderedMap ℤ ℕ} {mapping : UnorderedMap ℤ (Fin numChannels)} {draws : List ℕ}
  {ppn : ℕ}

theorem Placed.mapped (h : Placed cfg table mapping) {v : ℤ} (hv : table.lookup v ≠ none) :
    ∃ ch off, off < cfg.pagesPerChannel ∧ table.lookup v = some (cfg.frame ch off) ∧
      mapping.lookup v = some ch := by
  rcases h v with ⟨hn, _⟩ | hm
  · exact absurd hn hv
  · exact hm

theorem Placed.insert (h : Placed cfg table mapping) (ho : off < cfg.pagesPerChannel) (vpn : ℤ) :
    Placed cfg (table.insert vpn (cfg.frame ch off)) (mapping.insert vpn ch) := by
  intro v
  by_cases hv : v = vpn
  · subst hv
    exact Or.inr ⟨ch, off, ho, lookup_insert _, lookup_insert _⟩
  · rw [lookup_insert_ne hv, lookup_insert_ne hv]
    exact h v

theorem Placed.erase (h : Placed cfg table mapping) (vpn : ℤ) :
    Placed cfg (table.erase vpn) (mapping.erase vpn) := by
  intro v
  by_cases hv : v = vpn
  · subst hv
    exact Or.inl ⟨lookup_erase _ _, lookup_erase _ _⟩
  · rw [lookup_erase_ne hv, lookup_erase_ne hv]
    exact h v

/-! ## The places where frames change hands -/

theorem Counted.mark (h : Counted cfg s) (ho : off < cfg.pagesPerChannel) (b : Bool)
    (ch ch' : Fin numChannels) :
    Function.update s.numFreePhysicalPagesPerPart ch (s.numFreePhysicalPagesPerPart ch + b.toNat -
        (s.freePhysicalPages2d ch off).toNat) ch' = freeCount cfg (s.markFrame ch off b) ch' := by
  have hmark := freeCount_markFrame (s := s) ho b ch ch'
  rw [← h ch'] at hmark
  rw [Function.update_apply]
  split
  · rename_i hch
    rw [if_pos hch, if_pos hch, hch] at hmark
    rw [hch]
    omega
  · rename_i hch
    rw [if_neg hch, if_neg hch] at hmark
    exact hmark.symm

theorem TablesAgree.takeFrame (h : TablesAgree cfg s) (ho : off < cfg.pagesPerChannel)
    (hf : s.freePhysicalPages2d ch off = true) : TablesAgree cfg (s.takeFrame ch off) where
  placed := h.placed
  counted ch' := by simpa [Placement.takeFrame, hf] using h.counted.mark ho false ch ch'

variable (hp : 1 ≤ cfg.pagesPerChannel)
include hp

theorem TablesAgree.evictFrame (h : TablesAgree cfg s) (h0 : s.numFreePhysicalPagesPerPart ch = 0)
    (d : ℕ) : TablesAgree cfg (s.evictFrame cfg ch d) := by
  have hlt : d % cfg.pagesPerChannel < cfg.pagesPerChannel := Nat.mod_lt _ (by omega)
  have hf : s.freePhysicalPages2d ch (d % cfg.pagesPerChannel) = false :=
    free_of_freeCount_zero ((h.counted ch).symm.trans h0) hlt
  refine ⟨h.placed.erase _, fun ch' => ?_⟩
  simpa [Placement.evictFrame, frame_mod hlt, hf] using h.counted.mark hlt true ch ch'

theorem TablesAgree.findRandomFreePage (h : TablesAgree cfg s) {ds : List ℕ}
    (hf : Placement.findRandomFreePage cfg s ch draws = some (ppn, s', ds)) :
    TablesAgree cfg s' ∧ ∃ off < cfg.pagesPerChannel, ppn = cfg.frame ch off := by
  obtain ⟨s₁, d, rfl | ⟨h0, v, -, rfl⟩, hfr, rfl, rfl⟩ := findRandomFreePage_spec hf
  · exact ⟨h.takeFrame (Nat.mod_lt _ hp) hfr, _, Nat.mod_lt _ hp, rfl⟩
  · exact ⟨(h.evictFrame hp h0 v).takeFrame (Nat.mod_lt _ hp) hfr, _, Nat.mod_lt _ hp, rfl⟩

theorem TablesAgree.resolvePage (h : TablesAgree cfg s) {vpn : ℤ} {core : Fin 8}
    (hr : Placement.resolvePage cfg s vpn core draws = some (ppn, s')) : TablesAgree cfg s' := by
  obtain ⟨_, rfl⟩ | ⟨_, s₁, ds, hf, rfl⟩ := resolvePage_cases hr
  · exact h
  · obtain ⟨h₁, off, ho, rfl⟩ := h.findRandomFreePage hp hf
    exact ⟨h₁.placed.insert ho vpn, h₁.counted⟩

omit hp in
theorem resolvePage_mapped {vpn : ℤ} {core : Fin 8}
    (hr : Placement.resolvePage cfg s vpn core draws = some (ppn, s')) :
    s'.globalPageTable.lookup vpn = some ppn := by
  obtain ⟨hl, rfl⟩ | ⟨_, s₁, ds, hf, rfl⟩ := resolvePage_cases hr
  · exact hl
  · exact lookup_insert _

/-! ## Runs -/

namespace DynamicMigration

omit hp in
theorem readMapping_of_placed (h : TablesAgree cfg s) {vpn : ℤ}
    (hv : s.globalPageTable.lookup vpn ≠ none) : readMapping cfg s vpn = s := by
  obtain ⟨ch, off, _, _, hm⟩ := h.placed.mapped hv
  unfold readMapping
  split
  · rw [UnorderedMap.subscript_of_lookup hm]
  · rfl

theorem tables_kept : Keeps cfg (TablesAgree cfg) (fun _ _ _ => True) fun _ _ _ => True where
  counters _ _ _ _ h := ⟨h.placed, h.counted⟩
  visit cores s vpn draws s' ds h _ hv := by
    obtain ⟨_, rfl, _⟩ | ⟨hl, _, rfl, _⟩ | ⟨hl, ch, ppn, s₁, _, hf, rfl⟩ := visitEntry_cases hv
    · exact h
    · rw [readMapping_of_placed h hl]; exact h
    · rw [readMapping_of_placed h hl] at hf
      obtain ⟨h₁, off, ho, rfl⟩ := h.findRandomFreePage hp hf
      exact ⟨h₁.placed.insert ho vpn, h₁.counted⟩
  touch _ _ _ _ _ _ h _ hr := h.resolvePage hp hr

theorem machine_step_tables (h : TablesAgree cfg s) {c : TranslateCall}
    (hst : (machine cfg).step s c = some s') : TablesAgree cfg s' :=
  (tables_kept hp).step h ((tables_kept hp).callMeets (fun _ _ _ _ => trivial) h c) hst

theorem reachable_tables (h : (machine cfg).Reachable s) : TablesAgree cfg s :=
  h.invariant (P := TablesAgree cfg) (TablesAgree.initial cfg)
    fun _ _ _ hs _ hst => machine_step_tables hp hs hst

end DynamicMigration

namespace LocalToRequester

omit hp in
theorem translate_cases {C : Type} {o : TranslateOracle} {req req' : Request C}
    (h : translate cfg o s req = some (req', s')) :
    ∃ ppn, resolvePage cfg
        (endOfWindow cfg (s.countAccess (cfg.vpnOf req.addr) (coreOf req.sourceId)))
        (cfg.vpnOf req.addr) (coreOf req.sourceId) o.draws = some (ppn, s') ∧
      req' = req.translated cfg ppn := by
  unfold translate at h
  simp only at h
  split at h
  · cases h
  · rename_i ppn s₁ hr
    cases h
    exact ⟨ppn, hr, rfl⟩

omit hp in
theorem endOfWindow_eq (cfg : PlacementConfig) (s : Placement) :
    ∃ n, endOfWindow cfg s = { s with migrationCounter := n } := by
  unfold endOfWindow
  split
  · exact ⟨0, rfl⟩
  · exact ⟨s.migrationCounter, rfl⟩

theorem translate_tables (h : TablesAgree cfg s) {C : Type} {o : TranslateOracle}
    {req req' : Request C} (ht : translate cfg o s req = some (req', s')) : TablesAgree cfg s' := by
  obtain ⟨ppn, hr, _⟩ := translate_cases ht
  obtain ⟨n, hn⟩ := endOfWindow_eq cfg (s.countAccess (cfg.vpnOf req.addr) (coreOf req.sourceId))
  rw [hn] at hr
  refine TablesAgree.resolvePage hp ?_ hr
  exact ⟨h.placed, h.counted⟩

theorem reachable_tables (h : (machine cfg).Reachable s) : TablesAgree cfg s := by
  refine h.invariant (P := TablesAgree cfg) (TablesAgree.initial cfg) ?_
  intro s c s' hs _ hst
  obtain ⟨⟨req', s₂⟩, ht, rfl⟩ := Option.map_eq_some_iff.mp hst
  exact translate_tables hp hs ht

end LocalToRequester

theorem Policy.translate_spec (policy : Policy) (h : (policy.machine cfg).Reachable s) {C : Type}
    {o : TranslateOracle} {req req' : Request C}
    (ht : policy.translate cfg o s req = some (req', s')) :
    TablesAgree cfg s' ∧ ∃ ppn, s'.globalPageTable.lookup (cfg.vpnOf req.addr) = some ppn ∧
      req' = req.translated cfg ppn := by
  cases policy with
  | dynamicMigration =>
    obtain ⟨s₁, ds, ppn, hw, hr, hreq⟩ := DynamicMigration.translate_cases ht
    refine ⟨TablesAgree.resolvePage hp ?_ hr, ppn, resolvePage_mapped hr, hreq⟩
    have hk := DynamicMigration.tables_kept hp
    have hT := hk.countAccess (DynamicMigration.reachable_tables hp h) (cfg.vpnOf req.addr)
      (coreOf req.sourceId)
    exact hk.endOfWindow hT (fun _ => hk.loopMeets (fun _ _ _ _ => trivial) hT) hw
  | localToRequester =>
    obtain ⟨ppn, hr, hreq⟩ := LocalToRequester.translate_cases ht
    exact ⟨LocalToRequester.translate_tables hp (LocalToRequester.reachable_tables hp h) ht, ppn,
      resolvePage_mapped hr, hreq⟩

end MultiCoreMemory
