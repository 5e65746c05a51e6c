import MultiCoreMemory.Translation.RandomFrames

/-!
# Can a random search of `RandomTranslation2` end?

A page that is touched for the first time enters one of two search loops, and the counter of free
frames says which.  The counter starts at the number of frames and goes down with every frame that is
handed out; a frame that is reserved is never handed out, but it is counted.
-/

namespace MultiCoreMemory

open Finset

theorem exists_drawPage_iff {numPages : ℕ} {skip : ℕ → Bool} :
    (∃ draws, (drawPage numPages skip draws).isSome) ↔ ∃ p < numPages, skip p = false := by
  constructor
  · rintro ⟨draws, h⟩
    obtain ⟨p, hp⟩ := Option.isSome_iff_exists.mp h
    exact ⟨p, drawPage_spec hp⟩
  · rintro ⟨p, hlt, hskip⟩
    refine ⟨[p], ?_⟩
    have hpos : numPages ≠ 0 := by omega
    rw [drawPage, if_neg hpos, Nat.mod_eq_of_lt hlt, if_neg (by rw [hskip]; decide)]
    rfl

namespace RandomTranslation2

variable {C : Type} {cfg : RandomConfig} {s s' : RandomTranslation2}

def skips (s : RandomTranslation2) : ℕ → Bool :=
  if s.numFreePhysicalPages = 0 then isReserved s.reservedPages
  else isUnavailable s.reservedPages s.freePhysicalPages

/-- A frame satisfies the exit condition of the loop that a first touch enters. -/
def SearchCanEnd (cfg : RandomConfig) (s : RandomTranslation2) : Prop :=
  ∃ p < cfg.numPages, s.skips p = false

/-! ## The calls of a run -/

/-- The page that a call touches. -/
def pageTouched (cfg : RandomConfig) : RandomCall C → Option ℤ
  | .reserve _ => none
  | .translate req _ => some (cfg.pageOf req.addr)

/-- The page that a call reserves. -/
def pageReserved (cfg : RandomConfig) : RandomCall C → Option ℤ
  | .reserve addr => some (cfg.pageOf addr)
  | .translate _ _ => none

/-- The pages that the calls touch. -/
def pagesTouched (cfg : RandomConfig) (calls : List (RandomCall C)) : Finset ℤ :=
  (calls.filterMap (pageTouched cfg)).toFinset

/-- The frames of the memory that the calls reserve. -/
def framesReserved (cfg : RandomConfig) (calls : List (RandomCall C)) : Finset ℕ :=
  {p ∈ range cfg.numPages | (p : ℤ) ∈ calls.filterMap (pageReserved cfg)}

/-- The state has the reservations of the calls, and an entry for each page that they touch. -/
structure Records (cfg : RandomConfig) (calls : List (RandomCall C)) (s : RandomTranslation2) : Prop where
  reserved : ∀ v, v ∈ s.reservedPages ↔ v ∈ calls.filterMap (pageReserved cfg)
  touched : ∀ v, v ∈ s.globalPageTable ↔ v ∈ calls.filterMap (pageTouched cfg)

section

variable {calls : List (RandomCall C)} {call : RandomCall C}

theorem Records.step (h : Records cfg calls s) (hstep : s.step cfg call = some s') :
    Records cfg (calls ++ [call]) s' := by
  cases step_cases hstep with
  | reserve addr =>
    refine ⟨fun v => ?_, fun v => ?_⟩
    · simp [RandomTranslation2.reserve, pageReserved, h.reserved, or_comm]
    · simp [RandomTranslation2.reserve, pageTouched, h.touched]
  | found hl =>
    refine ⟨fun v => by simp [pageReserved, h.reserved], fun v => ?_⟩
    have hold := (h.touched _).mp (AList.lookup_isSome.mp (Option.isSome_of_eq_some hl))
    rw [h.touched, List.filterMap_append, List.mem_append]
    refine ⟨.inl, fun hv => hv.elim id fun hv => ?_⟩
    rwa [List.mem_singleton.mp hv]
  | replaced =>
    refine ⟨fun v => by simp [RandomTranslation2.replace, pageReserved, h.reserved], fun v => ?_⟩
    simp [RandomTranslation2.replace, pageTouched, h.touched, or_comm]
  | assigned =>
    refine ⟨fun v => by simp [RandomTranslation2.assign, pageReserved, h.reserved], fun v => ?_⟩
    simp [RandomTranslation2.assign, pageTouched, h.touched, or_comm]

theorem Records.run {calls' : List (RandomCall C)} (h : Records cfg calls s)
    (hrun : (machine C cfg).run s calls' = some s') : Records cfg (calls ++ calls') s' := by
  induction calls' generalizing calls s with
  | nil =>
    cases hrun
    rwa [List.append_nil]
  | cons call calls' ih =>
    obtain ⟨s₁, hstep, hrun⟩ := Machine.run_cons hrun
    rw [List.append_cons]
    exact ih (h.step hstep) hrun

theorem records_of_run (hrun : (machine C cfg).run (create cfg) calls = some s) :
    Records cfg calls s := by
  have hinit : Records cfg ([] : List (RandomCall C)) (create cfg) :=
    ⟨fun v => by simp [create], fun v => by simp [create]⟩
  exact hinit.run hrun

theorem Records.numMapped (h : Records cfg calls s) : s.numMapped = (pagesTouched cfg calls).card := by
  have hkeys : s.globalPageTable.keys.toFinset = pagesTouched cfg calls := by
    ext v
    rw [pagesTouched, List.mem_toFinset, List.mem_toFinset, ← AList.mem_keys, h.touched]
  rw [RandomTranslation2.numMapped, UnorderedMap.length_values, ← hkeys,
    List.toFinset_card_of_nodup s.globalPageTable.keys_nodup]

end

/-! ## Can a first touch find a frame? -/

theorem exists_translate_iff {req : Request C}
    (hnew : s.globalPageTable.lookup (cfg.pageOf req.addr) = none) :
    (∃ draws, (s.translate cfg req draws).isSome) ↔ SearchCanEnd cfg s := by
  unfold SearchCanEnd skips translate resolve
  rw [hnew]
  by_cases h0 : s.numFreePhysicalPages = 0
  · simp only [h0, if_true, Option.isSome_map]
    exact exists_drawPage_iff
  · simp only [h0, if_false, Option.isSome_map]
    exact exists_drawPage_iff

/-- The frames that belong to pages. -/
def framesMapped (s : RandomTranslation2) : Finset ℕ := s.globalPageTable.values.toFinset

/-- While a frame is counted as free, the search can end if pages and reservations leave a frame. -/
theorem Inv.searchCanEnd_iff (h : Inv cfg s) (hfit : s.numMapped < cfg.numPages) {reserved : Finset ℕ}
    (hreserved : ∀ p, p ∈ reserved ↔ p < cfg.numPages ∧ (p : ℤ) ∈ s.reservedPages) :
    SearchCanEnd cfg s ↔
      s.numMapped + reserved.card < cfg.numPages + (reserved ∩ s.framesMapped).card := by
  obtain ⟨hnodup, hused⟩ := h.exclusive hfit.le
  have hcounter := h.counter
  have hmapped : s.framesMapped.card = s.numMapped := List.toFinset_card_of_nodup hnodup
  have hsub : reserved ∪ s.framesMapped ⊆ range cfg.numPages := by
    refine union_subset (fun p hp => ?_) fun p hp => ?_
    · exact mem_range.mpr ((hreserved p).mp hp).1
    · exact mem_range.mpr (h.bounded p (List.mem_toFinset.mp hp))
  have hends : SearchCanEnd cfg s ↔ ∃ p ∈ range cfg.numPages, p ∉ reserved ∪ s.framesMapped := by
    have hbit : ∀ p, s.freePhysicalPages p = true ↔ p ∉ s.framesMapped := by
      intro p
      rw [framesMapped, List.mem_toFinset]
      constructor
      · intro hfree hp
        rw [hused p hp] at hfree
        cases hfree
      · intro hp
        by_contra hnot
        exact hp (h.marked p (Bool.eq_false_iff.mpr hnot))
    refine exists_congr fun p => ?_
    rw [mem_range]
    refine and_congr_right fun hlt => ?_
    rw [skips, if_neg (by omega), isUnavailable, isReserved, Bool.or_eq_false_iff,
      decide_eq_false_iff_not, Bool.not_eq_false', hbit, mem_union, not_or, hreserved]
    simp [hlt]
  have hcard := card_union_add_card_inter reserved s.framesMapped
  rw [hends]
  constructor
  · rintro ⟨p, hp, hnot⟩
    have hlt := card_lt_card ((ssubset_iff_of_subset hsub).mpr ⟨p, hp, hnot⟩)
    rw [card_range] at hlt
    omega
  · intro hlt
    refine exists_mem_notMem_of_card_lt_card ?_
    rw [card_range]
    omega

/-- A frame that is handed out after the reservations is not reserved. -/
theorem framesMapped_not_reserved {reserves translates : List (RandomCall C)}
    (hreserves : ∀ call ∈ reserves, pageTouched cfg call = none)
    (htranslates : ∀ call ∈ translates, pageReserved cfg call = none)
    (hrun : (machine C cfg).run (create cfg) (reserves ++ translates) = some s) :
    ∀ p ∈ s.framesMapped, (p : ℤ) ∉ s.reservedPages := by
  obtain ⟨s₁, hfirst, hrest⟩ := Machine.run_append hrun
  have hbefore : ∀ p ∈ s₁.framesMapped, (p : ℤ) ∉ s₁.reservedPages := by
    intro p hp
    obtain ⟨v, hv⟩ := UnorderedMap.mem_values_iff.mp (List.mem_toFinset.mp hp)
    have hmem := ((records_of_run hfirst).touched v).mp (AList.lookup_isSome.mp (Option.isSome_of_eq_some hv))
    rw [List.filterMap_eq_nil_iff.mpr hreserves] at hmem
    cases hmem
  clear hrun hfirst
  induction translates generalizing s₁ with
  | nil =>
    cases hrest
    exact hbefore
  | cons call translates ih =>
    obtain ⟨s₂, hstep, hrest⟩ := Machine.run_cons hrest
    refine ih (fun call h => htranslates call (.tail _ h)) s₂ hrest ?_
    have hnew : ∀ {vpn : ℤ} {ppn : ℕ}, s₁.globalPageTable.lookup vpn = none →
        (ppn : ℤ) ∉ s₁.reservedPages → s₂.globalPageTable = s₁.globalPageTable.insert vpn ppn →
        s₂.reservedPages = s₁.reservedPages → ∀ p ∈ s₂.framesMapped, (p : ℤ) ∉ s₂.reservedPages := by
      intro vpn ppn hl hfree htable hsame p hp
      rw [framesMapped, (values_of_new_page hl htable).1, List.toFinset_cons, mem_insert] at hp
      rw [hsame]
      exact hp.elim (fun heq => heq ▸ hfree) (hbefore p)
    cases step_cases hstep with
    | reserve addr => cases htranslates _ (.head _)
    | found => exact hbefore
    | replaced hl _ _ hfree => exact hnew hl hfree rfl rfl
    | assigned hl _ _ hfree => exact hnew hl hfree rfl rfl

/-- **A first touch finds a frame exactly when the pages touched are as many as the frames, or pages and
reserved frames together are fewer**, counting once a frame that was reserved after a page had it.  Where
the reservations come first, it does exactly when nothing is reserved or both together are fewer. -/
theorem first_touch_can_finish_iff {calls : List (RandomCall C)}
    (hrun : (machine C cfg).run (create cfg) calls = some s)
    (hleft : ∃ p < cfg.numPages, p ∉ framesReserved cfg calls) (req : Request C)
    (hnew : cfg.pageOf req.addr ∉ pagesTouched cfg calls) :
    ((∃ draws, (s.translate cfg req draws).isSome) ↔ SearchCanEnd cfg s) ∧
    (SearchCanEnd cfg s ↔ cfg.numPages ≤ (pagesTouched cfg calls).card ∨
      (pagesTouched cfg calls).card + (framesReserved cfg calls).card <
        cfg.numPages + (framesReserved cfg calls ∩ s.framesMapped).card) ∧
    ∀ reserves translates, calls = reserves ++ translates →
      (∀ call ∈ reserves, pageTouched cfg call = none) →
      (∀ call ∈ translates, pageReserved cfg call = none) →
      (SearchCanEnd cfg s ↔ framesReserved cfg calls = ∅ ∨
        (pagesTouched cfg calls).card + (framesReserved cfg calls).card < cfg.numPages) := by
  have hrecords := records_of_run hrun
  have hinv : Inv cfg s := inv_of_reachable (C := C) (Machine.reachable_of_run hrun)
  have hreserved : ∀ p, p ∈ framesReserved cfg calls ↔ p < cfg.numPages ∧ (p : ℤ) ∈ s.reservedPages := by
    intro p
    rw [framesReserved, mem_filter, mem_range, hrecords.reserved]
  have hnone : s.globalPageTable.lookup (cfg.pageOf req.addr) = none := by
    rw [AList.lookup_eq_none, hrecords.touched]
    exact fun hmem => hnew (List.mem_toFinset.mpr hmem)
  have hcounter := hinv.counter
  rw [← hrecords.numMapped]
  -- with every frame handed out the replacement loop is entered, and any unreserved frame will do
  have hfull : cfg.numPages ≤ s.numMapped → SearchCanEnd cfg s := by
    intro hle
    obtain ⟨p, hlt, hp⟩ := hleft
    refine ⟨p, hlt, ?_⟩
    rw [hreserved] at hp
    simpa [skips, hcounter, hle, isReserved, hlt] using hp
  have hiff : SearchCanEnd cfg s ↔ cfg.numPages ≤ s.numMapped ∨
      s.numMapped + (framesReserved cfg calls).card <
        cfg.numPages + (framesReserved cfg calls ∩ s.framesMapped).card := by
    by_cases hle : cfg.numPages ≤ s.numMapped
    · exact iff_of_true (hfull hle) (.inl hle)
    · rw [or_iff_right hle]
      exact hinv.searchCanEnd_iff (by omega) hreserved
  refine ⟨exists_translate_iff hnone, hiff, ?_⟩
  rintro reserves translates rfl hreserves htranslates
  have hdisjoint : framesReserved cfg (reserves ++ translates) ∩ s.framesMapped = ∅ := by
    rw [← disjoint_iff_inter_eq_empty, disjoint_left]
    intro p hp hmapped
    exact framesMapped_not_reserved hreserves htranslates hrun p hmapped ((hreserved p).mp hp).2
  have hempty : cfg.numPages ≤ s.numMapped → framesReserved cfg (reserves ++ translates) = ∅ := by
    intro hle
    rw [eq_empty_iff_forall_notMem]
    intro p hp
    have hmapped : p ∈ s.framesMapped :=
      List.mem_toFinset.mpr (hinv.covered hle p ((hreserved p).mp hp).1)
    exact (notMem_empty p) (hdisjoint ▸ mem_inter.mpr ⟨hp, hmapped⟩)
  rw [hiff, hdisjoint, card_empty, Nat.add_zero]
  constructor
  · rintro (hle | hlt)
    · exact .inl (hempty hle)
    · exact .inr hlt
  · rintro (hnone | hlt)
    · rw [hnone, card_empty]
      omega
    · exact .inr hlt

/-- Of two frames the second is reserved. -/
def reserveSecond : RandomCall Unit := .reserve 4096

/-- **With the unreserved frame handed out, a second page draws for ever**, for a frame is still counted as
free. -/
theorem reserved_frame_counted_as_free : ∃ s,
    (machine Unit (smallMemory 2)).Reachable s ∧ ((0 : ℕ) : ℤ) ∉ s.reservedPages ∧
    s.globalPageTable.lookup 1 = none ∧ s.numFreePhysicalPages = 1 ∧
    ¬ SearchCanEnd (smallMemory 2) s := by
  obtain ⟨s, hs, hres, hnew, hcount, hskips⟩ := Machine.exists_reachable
    (m := machine Unit (smallMemory 2))
    (P := fun s => ((0 : ℕ) : ℤ) ∉ s.reservedPages ∧ s.globalPageTable.lookup 1 = none ∧
      s.numFreePhysicalPages = 1 ∧ ∀ p < (smallMemory 2).numPages, s.skips p = true)
    [reserveSecond, touchPage 0 0] (by decide +kernel)
  refine ⟨s, hs, hres, hnew, hcount, ?_⟩
  rintro ⟨p, hlt, hp⟩
  rw [hskips p hlt] at hp
  cases hp

/-- With the second of three frames reserved, a second page still finds a frame. -/
theorem second_page_beside_reserved_frame : ∃ s,
    (machine Unit (smallMemory 3)).run (create (smallMemory 3)) [reserveSecond, touchPage 0 0] = some s ∧
    framesReserved (smallMemory 3) [reserveSecond, touchPage 0 0] = {1} ∧
    SearchCanEnd (smallMemory 3) s := by
  obtain ⟨s, hs, -⟩ := (Option.any_eq_true (fun _ => true) _).mp
    (show ((machine Unit (smallMemory 3)).run (create (smallMemory 3))
      [reserveSecond, touchPage 0 0]).any (fun _ => true) = true by decide +kernel)
  have hres : framesReserved (smallMemory 3) [reserveSecond, touchPage 0 0] = {1} := by decide +kernel
  obtain ⟨-, -, hfirst⟩ := first_touch_can_finish_iff hs ⟨0, by decide +kernel, by rw [hres]; decide⟩
    { addr := 4096, typeId := typeRead } (by decide +kernel)
  refine ⟨s, hs, hres, (hfirst [reserveSecond] [touchPage 0 0] rfl ?_ ?_).mpr (.inr ?_)⟩ <;>
    decide +kernel

end RandomTranslation2

end MultiCoreMemory
