import MultiCoreMemory.AddrMapper.ChannelAgreement
import MultiCoreMemory.Translation.PageTable

/-!
# Reserved pages and the placement policies

A controller plugin that keeps its tables in DRAM rows reserves their addresses with `reserve`.
Both placement policies enter the frame in `m_reserved_pages`, and no function of theirs reads it.
-/

namespace MultiCoreMemory

open Placement

variable {cfg : PlacementConfig} {s s' : Placement} {ch ch' : Fin numChannels} {off off' : ℕ}

/-! ## Reserving -/

structure ReservingPolicy where
  placement : Placement
  reservedPages : Finset ℤ := ∅

/-- `reserve`; the purpose it is called with is not looked at. -/
def ReservingPolicy.reserve (cfg : PlacementConfig) (s : ReservingPolicy) (addr : ℤ) :
    ReservingPolicy :=
  { s with reservedPages := insert (cfg.vpnOf addr) s.reservedPages }

/-- `Hydra::reserve_rows_for_rct`: the addresses, one a cache line, whose row holds a part of the
    row-count table. -/
def reserveRowsForRct (mapper : LinearMapper) (rowLevel totalRctRowSize maxAddr : ℕ) : List ℤ :=
  ((List.range ((maxAddr + 63) / 64)).map fun i => ((i * 64 : ℕ) : ℤ)).filter fun addr =>
    (ChRaBaRoCo.apply mapper ({ addr := addr, typeId := typeRead } : Request Unit)).addrVec.level
      rowLevel < totalRctRowSize

def ReservingPolicy.machine (policy : Policy) (cfg : PlacementConfig) (addrs : List ℤ) :
    Machine ReservingPolicy TranslateCall where
  init := addrs.foldl (reserve cfg) { placement := initial cfg }
  step s c := ((policy.machine cfg).step s.placement c).map fun t => { s with placement := t }

theorem ReservingPolicy.foldl_reserve (cfg : PlacementConfig) (addrs : List ℤ)
    (s : ReservingPolicy) : (addrs.foldl (reserve cfg) s).placement = s.placement ∧
      ∀ p, p ∈ (addrs.foldl (reserve cfg) s).reservedPages ↔
        p ∈ s.reservedPages ∨ ∃ a ∈ addrs, cfg.vpnOf a = p := by
  induction addrs generalizing s with
  | nil => simp
  | cons a addrs ih =>
    obtain ⟨hplacement, hpages⟩ := ih (s.reserve cfg a)
    refine ⟨hplacement, ?_⟩
    intro p
    rw [List.foldl_cons, hpages p]
    simp only [reserve, Finset.mem_insert, List.mem_cons, exists_eq_or_imp]
    rw [eq_comm, or_assoc, or_left_comm]

/-! ## The frame an allocation takes -/

/-- The first value is the victim of a full partition; otherwise the first value that finds a free
    frame ends the search. -/
def drawnFrame (cfg : PlacementConfig) (s : Placement) (ch : Fin numChannels) (draws : List ℕ) :
    Option ℕ :=
  (if s.numFreePhysicalPagesPerPart ch = 0 then draws.head?
    else draws.find? fun d => s.freePhysicalPages2d ch (d % cfg.pagesPerChannel)).map
    fun d => cfg.frame ch (d % cfg.pagesPerChannel)

/-! ## What the frames of the page table have in common -/

def FramesIn (Q : ℕ → Prop) (table : UnorderedMap ℤ ℕ) : Prop :=
  ∀ v p, table.lookup v = some p → Q p

theorem FramesIn.insert {Q : ℕ → Prop} {table : UnorderedMap ℤ ℕ} (h : FramesIn Q table) (vpn : ℤ)
    {p : ℕ} (hp : Q p) : FramesIn Q (table.insert vpn p) := by
  intro v p' hv
  rw [UnorderedMap.lookup_insert_iff] at hv
  rcases hv with ⟨-, rfl⟩ | ⟨-, hv⟩
  · exact hp
  · exact h v p' hv

theorem FramesIn.findRandomFreePage {Q : ℕ → Prop} (h : FramesIn Q s.globalPageTable)
    {draws ds : List ℕ} {ppn : ℕ}
    (hf : findRandomFreePage cfg s ch draws = some (ppn, s', ds)) :
    FramesIn Q s'.globalPageTable := by
  obtain ⟨s₁, d, rfl | ⟨-, v, -, rfl⟩, -, -, rfl⟩ := findRandomFreePage_spec hf
  · exact h
  · intro v p hv
    simp only [takeFrame, evictFrame, UnorderedMap.lookup_erase_iff] at hv
    exact h v p hv.2

section

variable (hp : 1 ≤ cfg.pagesPerChannel)
include hp

theorem free_evictFrame (hT : TablesAgree cfg s) (h0 : s.numFreePhysicalPagesPerPart ch = 0) {d : ℕ}
    (ho : off < cfg.pagesPerChannel)
    (hf : (s.evictFrame cfg ch d).freePhysicalPages2d ch off = true) :
    off = d % cfg.pagesPerChannel := by
  have hlt : d % cfg.pagesPerChannel < cfg.pagesPerChannel := Nat.mod_lt _ (by omega)
  have hfull := free_of_freeCount_zero ((hT.counted ch).symm.trans h0) ho
  simp only [evictFrame, frame_mod hlt, markFrame_apply, true_and] at hf
  by_contra hne
  rw [if_neg hne, hfull] at hf
  cases hf

theorem findRandomFreePage_drawn (hT : TablesAgree cfg s) {draws ds : List ℕ} {ppn : ℕ}
    (h : findRandomFreePage cfg s ch draws = some (ppn, s', ds)) :
    drawnFrame cfg s ch draws = some ppn := by
  unfold drawnFrame
  unfold findRandomFreePage at h
  split_ifs at h ⊢ with h0
  · cases draws with
    | nil => cases h
    | cons v rest =>
      obtain ⟨d, hd, rfl, -⟩ := searchFreePage_spec h
      have hfree := List.find?_some hd
      rw [free_evictFrame hp hT h0 (Nat.mod_lt _ hp) hfree]
      rfl
  · obtain ⟨d, hd, rfl, -⟩ := searchFreePage_spec h
    rw [hd, Option.map_some]

section

/-- `Q` holds of every frame that an allocation meeting `P` takes from the partition of a channel
    nearest to a core. -/
def AllocatesIn (cfg : PlacementConfig) (P : Placement → Fin numChannels → List ℕ → Prop)
    (Q : ℕ → Prop) : Prop :=
  ∀ s core draws ppn s' ds, TablesAgree cfg s → P s (findBestChannel cfg.latency core) draws →
    findRandomFreePage cfg s (findBestChannel cfg.latency core) draws = some (ppn, s', ds) → Q ppn

variable {P : Placement → Fin numChannels → List ℕ → Prop} {Q : ℕ → Prop}

omit hp in
theorem FramesIn.resolvePage (hQ : AllocatesIn cfg P Q) (hT : TablesAgree cfg s)
    (h : FramesIn Q s.globalPageTable) {vpn : ℤ} {core : Fin 8} {draws : List ℕ} {ppn : ℕ}
    (hmeets : s.globalPageTable.lookup vpn = none → P s (findBestChannel cfg.latency core) draws)
    (hr : resolvePage cfg s vpn core draws = some (ppn, s')) :
    FramesIn Q s'.globalPageTable := by
  obtain ⟨-, rfl⟩ | ⟨hnone, s₁, ds, hf, rfl⟩ := resolvePage_cases hr
  · exact h
  · exact (h.findRandomFreePage hf).insert vpn (hQ s core draws ppn s₁ ds hT (hmeets hnone) hf)

namespace DynamicMigration

omit hp in
theorem exists_core_of_migrationTarget {cores : ℤ → Equiv.Perm (Fin 8)} {vpn : ℤ}
    (h : migrationTarget cfg s cores vpn = some ch) :
    ∃ core, ch = findBestChannel cfg.latency core := by
  unfold migrationTarget at h
  split at h
  · cases h
  split at h
  · cases h
  dsimp only at h
  split at h
  · cases h
  split at h
  · cases h
  split at h
  · exact ⟨_, (Option.some.inj h).symm⟩
  · cases h

theorem frames_kept (hQ : AllocatesIn cfg P Q) :
    Keeps cfg (fun s => TablesAgree cfg s ∧ FramesIn Q s.globalPageTable) P P where
  counters s _ _ _ h := ⟨(tables_kept hp).counters s _ _ _ h.1, h.2⟩
  visit cores s vpn draws s' ds h hmeets hv := by
    refine ⟨(tables_kept hp).visit _ _ _ _ _ _ h.1 (fun _ _ _ => trivial) hv, ?_⟩
    obtain ⟨-, rfl, -⟩ | ⟨hl, -, rfl, -⟩ | ⟨hl, ch, ppn, s₂, ht, hf, rfl⟩ := visitEntry_cases hv
    · exact h.2
    · rw [readMapping_of_placed h.1 hl]
      exact h.2
    · rw [readMapping_of_placed h.1 hl] at hf
      have hdraws := hmeets _ hl ht
      -- a rewrite, since `subst` would evaluate the loop of `findBestChannel`
      obtain ⟨core, hch⟩ := exists_core_of_migrationTarget ht
      rw [hch] at hf hdraws
      have hppn := hQ s core draws ppn s₂ ds h.1 hdraws hf
      exact (h.2.findRandomFreePage hf).insert vpn hppn
  touch _ _ _ _ _ _ h hmeets hr := ⟨h.1.resolvePage hp hr, h.2.resolvePage hQ h.1 hmeets hr⟩

end DynamicMigration

namespace LocalToRequester

def CallMeets (cfg : PlacementConfig) (onTouch : Placement → Fin numChannels → List ℕ → Prop)
    (s : Placement) (c : TranslateCall) : Prop :=
  s.globalPageTable.lookup (cfg.vpnOf c.addr) = none →
    onTouch (endOfWindow cfg (s.countAccess (cfg.vpnOf c.addr) c.sourceId))
      (findBestChannel cfg.latency c.sourceId) c.oracle.draws

omit hp in
/-- A property of frames that every allocation of a call has is kept by the whole page table. -/
theorem step_frames (hQ : AllocatesIn cfg P Q) (hT : TablesAgree cfg s)
    (h : FramesIn Q s.globalPageTable) {c : TranslateCall} (hmeets : CallMeets cfg P s c)
    (hst : (machine cfg).step s c = some s') : FramesIn Q s'.globalPageTable := by
  obtain ⟨⟨req', s₂⟩, ht, rfl⟩ := Option.map_eq_some_iff.mp hst
  obtain ⟨ppn, hr, -⟩ := translate_cases ht
  simp only [TranslateCall.req, coreOf_fin] at hr
  obtain ⟨n, hn⟩ := endOfWindow_eq cfg (s.countAccess (cfg.vpnOf c.addr) c.sourceId)
  unfold CallMeets at hmeets
  rw [hn] at hr hmeets
  exact FramesIn.resolvePage hQ (s := { s.countAccess _ _ with migrationCounter := n })
    ⟨hT.placed, hT.counted⟩ h hmeets hr

end LocalToRequester

namespace Policy

def CallMeets (cfg : PlacementConfig) (P : Placement → Fin numChannels → List ℕ → Prop)
    (s : Placement) (c : TranslateCall) : Policy → Prop
  | .dynamicMigration => DynamicMigration.CallMeets cfg P P s c
  | .localToRequester => LocalToRequester.CallMeets cfg P s c

/-- **What every allocation of a call has in common, the page table keeps.** -/
theorem step_frames (hQ : AllocatesIn cfg P Q) (policy : Policy) (hT : TablesAgree cfg s)
    (h : FramesIn Q s.globalPageTable) {c : TranslateCall} (hmeets : policy.CallMeets cfg P s c)
    (hst : (policy.machine cfg).step s c = some s') : FramesIn Q s'.globalPageTable := by
  cases policy with
  | dynamicMigration => exact ((DynamicMigration.frames_kept hp hQ).step ⟨hT, h⟩ hmeets hst).2
  | localToRequester => exact LocalToRequester.step_frames hQ hT h hmeets hst

theorem step_tables (policy : Policy) (hT : TablesAgree cfg s) {c : TranslateCall}
    (hst : (policy.machine cfg).step s c = some s') : TablesAgree cfg s' := by
  cases policy with
  | dynamicMigration => exact DynamicMigration.machine_step_tables hp hT hst
  | localToRequester =>
    obtain ⟨⟨req', s₂⟩, ht, rfl⟩ := Option.map_eq_some_iff.mp hst
    exact LocalToRequester.translate_tables hp hT ht

end Policy

end

/-! ## Runs -/

namespace ReservingPolicy

variable {policy : Policy} {addrs : List ℤ}

omit hp in
theorem mem_reserved_init (p : ℤ) :
    p ∈ (machine policy cfg addrs).init.reservedPages ↔ ∃ a ∈ addrs, cfg.vpnOf a = p := by
  have hpages := (foldl_reserve cfg addrs { placement := initial cfg }).2 p
  rw [show (machine policy cfg addrs).init =
    addrs.foldl (reserve cfg) { placement := initial cfg } from rfl, hpages]
  simp

theorem reachable_frames {P : Placement → Fin numChannels → List ℕ → Prop} {Q : ℕ → Prop}
    (hQ : AllocatesIn cfg P Q) {ok : ReservingPolicy → TranslateCall → Prop}
    (hok : ∀ s c, s.reservedPages = (machine policy cfg addrs).init.reservedPages → ok s c →
      policy.CallMeets cfg P s.placement c)
    {s : ReservingPolicy} (h : (machine policy cfg addrs).ReachableWhen ok s) :
    s.reservedPages = (machine policy cfg addrs).init.reservedPages ∧
      FramesIn Q s.placement.globalPageTable := by
  have hinit : (machine policy cfg addrs).init.placement = initial cfg :=
    (foldl_reserve cfg addrs { placement := initial cfg }).1
  have hall : s.reservedPages = (machine policy cfg addrs).init.reservedPages ∧
      TablesAgree cfg s.placement ∧ FramesIn Q s.placement.globalPageTable := by
    refine h.invariant (P := fun s => s.reservedPages = (machine policy cfg addrs).init.reservedPages ∧
      TablesAgree cfg s.placement ∧ FramesIn Q s.placement.globalPageTable) ⟨rfl, ?_, ?_⟩ ?_
    · rw [hinit]
      exact TablesAgree.initial cfg
    · rw [hinit]
      intro v p hv
      simp [initial] at hv
    · rintro s c s' ⟨hreserved, hT, hframes⟩ hmeets hst
      obtain ⟨t, ht, rfl⟩ := Option.map_eq_some_iff.mp hst
      exact ⟨hreserved, policy.step_tables hp hT ht,
        policy.step_frames hp hQ hT hframes (hok s c hreserved hmeets) ht⟩
  exact ⟨hall.1, hall.2.2⟩

def DrawsUnreserved (cfg : PlacementConfig) (reserved : Finset ℤ) (s : Placement)
    (ch : Fin numChannels) (draws : List ℕ) : Prop :=
  ∀ p, drawnFrame cfg s ch draws = some p → (p : ℤ) ∉ reserved

theorem allocatesIn_unreserved (reserved : Finset ℤ) :
    AllocatesIn cfg (DrawsUnreserved cfg reserved) fun p => (p : ℤ) ∉ reserved := by
  intro s core draws ppn s' ds hT hdraws hf
  exact hdraws ppn (findRandomFreePage_drawn hp hT hf)

def InNearestPartition (cfg : PlacementConfig) (p : ℕ) : Prop :=
  ∃ core off, off < cfg.pagesPerChannel ∧ p = cfg.frame (findBestChannel cfg.latency core) off

theorem allocatesIn_nearest : AllocatesIn cfg (fun _ _ _ => True) (InNearestPartition cfg) := by
  intro s core draws ppn s' ds hT _ hf
  obtain ⟨-, off, ho, rfl⟩ := hT.findRandomFreePage hp hf
  exact ⟨core, off, ho, rfl⟩

omit hp in
theorem callMeets_true (policy : Policy) (s : Placement) (c : TranslateCall) :
    policy.CallMeets cfg (fun _ _ _ => True) s c := by
  cases policy with
  | dynamicMigration =>
    have hk : DynamicMigration.Keeps cfg (fun _ => True) (fun _ _ _ => True) fun _ _ _ => True :=
      ⟨fun _ _ _ _ _ => trivial, fun _ _ _ _ _ _ _ _ _ => trivial, fun _ _ _ _ _ _ _ _ _ => trivial⟩
    exact hk.callMeets (fun _ _ _ _ => trivial) trivial c
  | localToRequester => exact fun _ => trivial

end ReservingPolicy

end

/-! ## A first touch -/

def firstTouch (core : Fin 8) (off : ℕ) : TranslateCall where
  addr := 0
  sourceId := core
  oracle := { draws := [off], order := [] }

/-- In a partition whose frames are all free the first draw decides. -/
theorem resolvePage_fresh (ho : off < cfg.pagesPerChannel) {vpn : ℤ} {core : Fin 8}
    (hnone : s.globalPageTable.lookup vpn = none)
    (hcount : 0 < s.numFreePhysicalPagesPerPart (findBestChannel cfg.latency core))
    (hfree : s.freePhysicalPages2d (findBestChannel cfg.latency core) off = true) :
    ∃ s', resolvePage cfg s vpn core [off] =
      some (cfg.frame (findBestChannel cfg.latency core) off, s') := by
  simp only [resolvePage, hnone, assignPage, hcount, if_true, searchFreePage, Nat.mod_eq_of_lt ho,
    frame_mod ho, hfree]
  exact ⟨_, rfl⟩

theorem DynamicMigration.endOfWindow_nil (cfg : PlacementConfig) {o : TranslateOracle}
    (horder : o.order = []) (s : Placement) : ∃ n w counts, endOfWindow cfg o s =
      some ({ s with
        migrationCounter := n, windowCounter := w, pageAccessCountsPerCore := counts }, o.draws) := by
  unfold endOfWindow migratePages
  split
  · rw [horder]
    exact ⟨0, s.windowCounter + 1, _, rfl⟩
  · exact ⟨s.migrationCounter, s.windowCounter, s.pageAccessCountsPerCore, rfl⟩

theorem Policy.step_firstTouch (policy : Policy) (cfg : PlacementConfig) (core : Fin 8)
    (ho : off < cfg.pagesPerChannel) :
    ∃ s', (policy.machine cfg).step (initial cfg) (firstTouch core off) = some s' ∧
      s'.globalPageTable.lookup 0 = some (cfg.frame (findBestChannel cfg.latency core) off) := by
  have hvpn : cfg.vpnOf (firstTouch core off).addr = 0 := by
    simp [firstTouch, PlacementConfig.vpnOf]
  have hresolve : ∀ n w counts, ∃ s', resolvePage cfg
      { (initial cfg).countAccess 0 core with
        migrationCounter := n, windowCounter := w, pageAccessCountsPerCore := counts } 0 core [off] =
      some (cfg.frame (findBestChannel cfg.latency core) off, s') := by
    intro n w counts
    refine resolvePage_fresh ho ?_ ?_ rfl
    · simp [initial, countAccess]
    · show 0 < cfg.pagesPerChannel
      omega
  cases policy with
  | dynamicMigration =>
    obtain ⟨n, w, counts, hwindow⟩ := DynamicMigration.endOfWindow_nil cfg
      (o := (firstTouch core off).oracle) rfl ((initial cfg).countAccess 0 core)
    obtain ⟨s', hs'⟩ := hresolve n w counts
    refine ⟨s', ?_, resolvePage_mapped hs'⟩
    have hperm : (firstTouch core off).oracle.order.Perm
        (initial cfg).globalPageTable.keys := List.Perm.refl _
    simp only [Policy.machine, DynamicMigration.machine, hperm, if_true, DynamicMigration.translate,
      TranslateCall.req, hvpn]
    rw [show coreOf ((firstTouch core off).sourceId : ℕ) = core from coreOf_fin core, hwindow]
    simp only [show (firstTouch core off).oracle.draws = [off] from rfl, hs', Option.map_some]
  | localToRequester =>
    obtain ⟨n, hn⟩ := LocalToRequester.endOfWindow_eq cfg ((initial cfg).countAccess 0 core)
    obtain ⟨s', hs'⟩ := hresolve n 0
      ((initial cfg).countAccess 0 core).pageAccessCountsPerCore
    refine ⟨s', ?_, resolvePage_mapped hs'⟩
    simp only [Policy.machine, LocalToRequester.machine, LocalToRequester.translate,
      TranslateCall.req, hvpn]
    rw [show coreOf ((firstTouch core off).sourceId : ℕ) = core from coreOf_fin core, hn]
    have hs'' : resolvePage cfg { (initial cfg).countAccess 0 core with
        migrationCounter := n } 0 core (firstTouch core off).oracle.draws =
          some (cfg.frame (findBestChannel cfg.latency core) off, s') := hs'
    rw [hs'']
    rfl

namespace Policy

open ReservingPolicy

/-- **When reserved frames are kept from the applications**: if the allocations draw unreserved frames;
and all runs are like that exactly when no reserved frame lies in the partition of a channel nearest to
some core. -/
theorem reserved_frames_kept (policy : Policy) (cfg : PlacementConfig)
    (hp : 1 ≤ cfg.pagesPerChannel) (addrs : List ℤ) :
    (∀ s, (ReservingPolicy.machine policy cfg addrs).ReachableWhen
        (fun s c => policy.CallMeets cfg (DrawsUnreserved cfg s.reservedPages) s.placement c) s →
      ∀ v p, s.placement.globalPageTable.lookup v = some p → (p : ℤ) ∉ s.reservedPages) ∧
    ((∀ s, (ReservingPolicy.machine policy cfg addrs).Reachable s →
        ∀ v p, s.placement.globalPageTable.lookup v = some p → (p : ℤ) ∉ s.reservedPages) ↔
      ∀ a ∈ addrs, ∀ core off, off < cfg.pagesPerChannel →
        cfg.vpnOf a ≠ cfg.frame (findBestChannel cfg.latency core) off) := by
  refine ⟨?_, ?_, ?_⟩
  · intro s h v p hv
    obtain ⟨hreserved, hframes⟩ := reachable_frames hp (allocatesIn_unreserved hp
      (ReservingPolicy.machine policy cfg addrs).init.reservedPages)
      (fun s c hs hmeets => hs ▸ hmeets) h
    rw [hreserved]
    exact hframes v p hv
  · -- a single first touch by that core, with that offset drawn, takes the reserved frame
    intro hkept a ha core off ho heq
    obtain ⟨t, hstep, hlookup⟩ := policy.step_firstTouch cfg core ho
    have hinit : (ReservingPolicy.machine policy cfg addrs).init.placement =
        initial cfg :=
      (foldl_reserve cfg addrs { placement := initial cfg }).1
    have hreach : (ReservingPolicy.machine policy cfg addrs).Reachable
        { (ReservingPolicy.machine policy cfg addrs).init with placement := t } := by
      refine .next .start trivial (i := firstTouch core off) ?_
      show Option.map _ ((policy.machine cfg).step _ _) = _
      rw [hinit, hstep]
      rfl
    apply hkept _ hreach 0 _ hlookup
    exact (mem_reserved_init _).mpr ⟨a, ha, heq⟩
  · intro haway s h v p hv hmem
    obtain ⟨hreserved, hframes⟩ := reachable_frames hp (allocatesIn_nearest hp)
      (fun s c _ _ => callMeets_true policy s.placement c) h
    obtain ⟨core, off, ho, rfl⟩ := hframes v p hv
    rw [hreserved, mem_reserved_init] at hmem
    obtain ⟨a, ha, heq⟩ := hmem
    exact haway a ha core off ho heq

/-- Hydra keeps one row of each bank for its table in a memory of eight frames. -/
def hydraReserved : List ℤ := reserveRowsForRct shippedMapper 4 1 32768

/-- **A reserved frame is given to an application**: Hydra has reserved frame 0, and the first touch
    of core 0 takes it under either policy. -/
theorem reserved_frame_is_mapped :
    (∃ s, (ReservingPolicy.machine .dynamicMigration DynamicMigration.tinyConfig
        hydraReserved).Reachable s ∧
      s.placement.globalPageTable.lookup 1 = some 0 ∧ (0 : ℤ) ∈ s.reservedPages) ∧
    ∃ s, (ReservingPolicy.machine .localToRequester DynamicMigration.tinyConfig
        hydraReserved).Reachable s ∧
      s.placement.globalPageTable.lookup 1 = some 0 ∧ (0 : ℤ) ∈ s.reservedPages :=
  ⟨Machine.exists_reachable [DynamicMigration.touch 1 0 []] (by decide +kernel),
    Machine.exists_reachable [DynamicMigration.touch 1 0 []] (by decide +kernel)⟩

/-- In the same memory the ninth frame belongs to no partition: reserving it is enough. -/
theorem frame_beyond_partitions_kept :
    1 ≤ DynamicMigration.tinyConfig.pagesPerChannel ∧
    ∃ s, (ReservingPolicy.machine .localToRequester DynamicMigration.tinyConfig [32768]).Reachable s ∧
      s.placement.globalPageTable.lookup 1 = some 0 ∧ (8 : ℤ) ∈ s.reservedPages ∧
      ∀ v p, s.placement.globalPageTable.lookup v = some p → (p : ℤ) ∉ s.reservedPages := by
  refine ⟨by decide +kernel, ?_⟩
  obtain ⟨s, hreach, hmapped, hres⟩ := Machine.exists_reachable
    (m := ReservingPolicy.machine .localToRequester DynamicMigration.tinyConfig [32768])
    (P := fun s => s.placement.globalPageTable.lookup 1 = some 0 ∧ (8 : ℤ) ∈ s.reservedPages)
    [DynamicMigration.touch 1 0 []] (by decide +kernel)
  refine ⟨s, hreach, hmapped, hres, (reserved_frames_kept .localToRequester DynamicMigration.tinyConfig
    (by decide +kernel) [32768]).2.mpr ?_ s hreach⟩
  intro a ha core off ho heq
  rw [List.mem_singleton] at ha
  subst ha
  have hvpn : DynamicMigration.tinyConfig.vpnOf 32768 = 8 := by decide +kernel
  have hpages : DynamicMigration.tinyConfig.numPages = 8 := by decide +kernel
  have hlt : DynamicMigration.tinyConfig.frame
      (findBestChannel DynamicMigration.tinyConfig.latency core) off <
      DynamicMigration.tinyConfig.numPages := frame_lt_numPages ho
  rw [hvpn] at heq
  omega

end Policy

end MultiCoreMemory
