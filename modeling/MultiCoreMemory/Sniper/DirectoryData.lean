import MultiCoreMemory.Sniper.DirectoryCoherence
import MultiCoreMemory.Sniper.DirectoryValue

/-!
# No written data is lost, as long as only clean lines are written back
-/

namespace MultiCoreMemory.Sniper

open List Option Function

variable {n : ℕ} {D : Type} {cfg : DirectoryConfig}

/-! ## Moves of the cores -/

section

variable {d : Directory n D} {cores : Fin n → Core D} {v : D} {i : Fin n} {c : Core D}
  {down : List (ToCache D)}

variable (h : Current d cores v)
include h

theorem Current.setCore (hcopy : c.cstate ≠ .INVALID → c.data = v)
    (hflush : ∀ data, .FLUSH_REP data ∈ c.up → data = v)
    (hback : ∀ data, .WB_REP data ∈ c.up → data = v ∨ d.dstate = .SHARED) (hdown : down ⊆ d.down i)
    (hdirty : (cores i).Dirty → c.Dirty)
    (hgrant : d.dstate = .MODIFIED → ∀ data, .EX_REP data ∈ d.down i → .EX_REP data ∈ down) :
    Current { d with down := update d.down i down } (update cores i c) v := by
  refine ⟨?_, ?_, ?_, ?_, h.supplies.reads, ?_⟩
  · exact (forall_update_iff cores fun _ c => c.cstate ≠ .INVALID → c.data = v).mpr
      ⟨hcopy, fun j _ => h.copies j⟩
  · exact (forall_update_iff cores fun _ c => ∀ data, .FLUSH_REP data ∈ c.up → data = v).mpr
      ⟨hflush, fun j _ => h.flushed j⟩
  · exact (forall_update_iff cores fun _ c =>
      ∀ data, .WB_REP data ∈ c.up → data = v ∨ d.dstate = .SHARED).mpr
        ⟨hback, fun j _ => h.writtenBack j⟩
  · exact (forall_update_iff d.down fun _ down =>
      ∀ msg ∈ down, ∀ data, msg.data? = some data → data = v).mpr
        ⟨fun msg hmsg => h.supplies.down i msg (hdown hmsg), fun j _ => h.supplies.down j⟩
  · have hkeeps : ∀ j, (cores j).Dirty → (update cores i c j).Dirty := by
      intro j hj
      by_cases hji : j = i
      · subst hji
        rw [update_self]
        exact hdirty hj
      · rwa [update_of_ne hji]
    refine h.supplies.memory.imp_right (Or.imp_left (Or.imp ?_ ?_))
    · exact fun ⟨hds, j, hj⟩ => ⟨hds, j, hkeeps j hj⟩
    · rintro ⟨hds, j, hj | ⟨data, hdata⟩⟩
      · exact ⟨hds, j, .inl (hkeeps j hj)⟩
      · refine ⟨hds, j, .inr ⟨data, ?_⟩⟩
        by_cases hji : j = i
        · subst hji
          simp only [update_self]
          exact hgrant hds data hdata
        · simp only [update_of_ne hji]
          exact hdata

theorem Current.send {m : ToDirectory D} (hup : c.up = (cores i).up ++ [m])
    (hcopy : c.cstate ≠ .INVALID → c.data = v) (hflush : ∀ data, m = .FLUSH_REP data → data = v)
    (hback : ∀ data, m = .WB_REP data → data = v ∨ d.dstate = .SHARED)
    (hdirty : (cores i).cstate = .MODIFIED → m.data? ≠ none) (hdown : down ⊆ d.down i)
    (hgrant : d.dstate = .MODIFIED → ∀ data, .EX_REP data ∈ d.down i → .EX_REP data ∈ down) :
    Current { d with down := update d.down i down } (update cores i c) v := by
  have hmem : ∀ {msg}, msg ∈ c.up → msg ∈ (cores i).up ∨ m = msg := fun {msg} hmsg => by
    rw [hup, mem_append, mem_singleton] at hmsg
    exact hmsg.imp_right Eq.symm
  refine h.setCore hcopy (fun data hdata => ?_) (fun data hdata => ?_) hdown ?_ hgrant
  · exact (hmem hdata).elim (h.flushed i data) (hflush data)
  · exact (hmem hdata).elim (h.writtenBack i data) (hback data)
  · rintro (hm | ⟨msg, hmsg, hdata⟩)
    · exact .inr ⟨m, hup ▸ mem_append_right _ mem_cons_self, hdirty hm⟩
    · exact .inr ⟨msg, hup ▸ mem_append_left _ hmsg, hdata⟩

theorem Current.request {type : Request} (hc : (cores i).request type = some c) :
    Current d (update cores i c) v := by
  obtain ⟨m, hup, hm, hcs, hdata⟩ : ∃ m, c.up = (cores i).up ++ [m] ∧ m.data? = none ∧
      (c.cstate ≠ .INVALID → (cores i).cstate ≠ .INVALID) ∧ (cores i).cstate ≠ .MODIFIED ∧
        c.data = (cores i).data := by
    unfold Core.request at hc
    split at hc
    next hcs _ =>
      cases hc
      exact ⟨_, rfl, rfl, by simp [hcs], by simp [hcs], rfl⟩
    next hcs _ =>
      cases hc
      exact ⟨_, rfl, rfl, id, by simp [hcs], rfl⟩
    next hcs _ =>
      cases hc
      exact ⟨_, rfl, rfl, id, by simp [hcs], rfl⟩
    · cases hc
  have hset := h.send hup (fun hc => hdata.2.trans (h.copies i (hcs hc))) (by rintro _ rfl; cases hm)
    (by rintro _ rfl; cases hm) (fun hmod => absurd hmod hdata.1) (List.Subset.refl _) fun _ _ => id
  rwa [update_eq_self] at hset

theorem Current.evict (hc : (cores i).evict = some c) :
    Current d (update cores i c) v := by
  have hset : Current { d with down := update d.down i (d.down i) }
      (update cores i c) v := by
    unfold Core.evict at hc
    split at hc
    next hcs =>
      cases hc
      exact h.send (m := .INV_REP) rfl (absurd rfl) nofun nofun (by simp [hcs])
        (List.Subset.refl _) fun _ _ => id
    next hcs =>
      cases hc
      exact h.send (m := .INV_REP) rfl (absurd rfl) nofun nofun (by simp [hcs])
        (List.Subset.refl _) fun _ _ => id
    next hcs =>
      cases hc
      refine h.send (m := .FLUSH_REP (cores i).data) rfl (absurd rfl) ?_ nofun nofun
        (List.Subset.refl _) fun _ _ => id
      rintro _ ⟨⟩
      exact h.copies i (by simp [hcs])
    · cases hc
  rwa [update_eq_self] at hset

omit h in
theorem Core.of_revoked {c c' : Core D} {t : Revoke} {uninit : D} (h : c.revoked t uninit = some c') :
    c' = c ∨ c'.data = c.data ∧ c.cstate ≠ .INVALID ∧ ∃ m, c'.up = c.up ++ [m] ∧
      (m = .INV_REP ∧ c.cstate ≠ .MODIFIED ∨ m = .FLUSH_REP c.data ∨ m = .WB_REP c.data ∨
        m = .WB_REP uninit ∧ c.cstate = .SHARED_UPGRADING) := by
  unfold Core.revoked at h
  split at h
  next hcs =>
    cases h
    exact .inl rfl
  · cases h
  next hvalid hmod =>
    cases h
    refine .inr ⟨rfl, fun hcs => hvalid hcs, _, rfl, .inl ⟨rfl, fun hcs => hmod hcs⟩⟩
  next hvalid =>
    cases h
    exact .inr ⟨rfl, fun hcs => hvalid hcs, _, rfl, .inr (.inl rfl)⟩
  next hcs =>
    cases h
    exact .inr ⟨rfl, by simp [hcs], _, rfl, .inr (.inr (.inr ⟨rfl, hcs⟩))⟩
  next hvalid _ =>
    cases h
    exact .inr ⟨rfl, fun hcs => hvalid hcs, _, rfl, .inr (.inr (.inl rfl))⟩

omit h in
theorem Current.written {change : D → D} {w : Fin n → Option Revoke} {granted : Option (Fin n)}
    (hlinked : Linked cfg d cores w granted) (hmode : Mode cfg d w granted) (hi : i ∈ d.sharers)
    (hgranted : granted ≠ some i) (hds : d.dstate = .EXCLUSIVE ∨ d.dstate = .MODIFIED)
    (hcs : c.cstate = .MODIFIED) (hdata : c.data = change v) (hup : c.up = [])
    (hdown : ∀ msg ∈ down, msg.data? = none) :
    Current { d with down := update d.down i down } (update cores i c)
      (change v) := by
  obtain ⟨-, hsharers, -⟩ := hlinked.removeSharer_of_owned hds hi
  have hother : ∀ j, j ≠ i → (cores j).cstate = .INVALID ∧ (∀ msg ∈ (cores j).up, msg.data? = none) ∧
      ∀ msg ∈ d.down j, msg.data? = none := fun j hj =>
    (hlinked.links j).no_data (by simp [hsharers, hj])
  have hreads : d.dramReads = [] := by
    cases hmode with
    | @fetching r rest _ _ _ _ hr =>
      rw [hsharers, Finset.mem_singleton] at hr
      exact absurd (congrArg some hr) hgranted
    | idle _ hreads | forwarding _ hreads | revoking _ hreads | invalidating _ hreads
    | displacing _ hreads => exact hreads
  refine ⟨?_, ?_, ?_, ?_, ?_, .inr (.inl ?_)⟩
  · exact (forall_update_iff cores fun _ c => c.cstate ≠ .INVALID → c.data = change v).mpr
      ⟨fun _ => hdata, fun j hj hvalid => absurd (hother j hj).1 hvalid⟩
  · refine (forall_update_iff cores fun _ c =>
      ∀ data, .FLUSH_REP data ∈ c.up → data = change v).mpr ⟨?_, fun j hj data hmem => ?_⟩
    · rw [hup]
      exact nofun
    · cases (hother j hj).2.1 _ hmem
  · refine (forall_update_iff cores fun _ c =>
      ∀ data, .WB_REP data ∈ c.up → data = change v ∨ d.dstate = .SHARED).mpr
        ⟨?_, fun j hj data hmem => ?_⟩
    · rw [hup]
      exact nofun
    · cases (hother j hj).2.1 _ hmem
  · refine (forall_update_iff d.down fun _ down =>
      ∀ msg ∈ down, ∀ data, msg.data? = some data → data = change v).mpr ⟨?_, ?_⟩
    · intro msg hmsg data hsome
      cases (hdown msg hmsg).symm.trans hsome
    · intro j hj msg hmsg data hsome
      cases ((hother j hj).2.2 msg hmsg).symm.trans hsome
  · simp [hreads]
  · have hdirty : (update cores i c i).Dirty := by
      rw [update_self]
      exact .inl hcs
    exact hds.imp (fun he => ⟨he, i, hdirty⟩) fun hm => ⟨hm, i, .inl hdirty⟩

theorem Current.write {change : D → D} (hsteady : Steady cfg d cores)
    (hc : (cores i).write change = some c) : Current d (update cores i c) (change v) := by
  obtain ⟨hcs, rfl⟩ : ((cores i).cstate = .EXCLUSIVE ∨ (cores i).cstate = .MODIFIED) ∧
      c = { cores i with cstate := .MODIFIED, data := change (cores i).data } := by
    unfold Core.write at hc
    split at hc
    next hcs =>
      cases hc
      exact ⟨.inl hcs, rfl⟩
    next hcs =>
      cases hc
      exact ⟨.inr hcs, rfl⟩
    · cases hc
  obtain ⟨-, w, granted, hlinked, hmode⟩ := hsteady
  obtain ⟨hi, hgranted, hds, hup, hdown⟩ := (hlinked.links i).of_writable hcs
  have hdata : (cores i).data = v := h.copies i (by rcases hcs with hcs | hcs <;> simp [hcs])
  have hset := Current.written (c := { cores i with cstate := .MODIFIED, data := change (cores i).data })
    hlinked hmode hi hgranted hds rfl (congrArg change hdata) hup hdown
  rwa [update_eq_self] at hset

theorem Current.toCache {msg : ToCache D} {change : D → D} {uninit : D} {writes : Bool}
    (hsteady : Steady cfg d cores) (hdown : d.down i = msg :: down)
    (hc : (cores i).handleMsg msg change uninit = some (c, writes)) :
    Current { d with down := update d.down i down } (update cores i c)
      (if writes then change v else v) := by
  obtain ⟨-, w, granted, hlinked, hmode⟩ := hsteady
  have hlink := hlinked.links i
  have hmem : ∀ data, msg.data? = some data → data = v :=
    h.supplies.down i msg (hdown ▸ mem_cons_self)
  rw [hdown] at hlink
  have hsub : down ⊆ d.down i := hdown ▸ subset_cons_self msg down
  have hkept : (∀ data, msg ≠ .EX_REP data) → ∀ data, .EX_REP data ∈ d.down i → .EX_REP data ∈ down := by
    intro hne data hdata
    rw [hdown] at hdata
    exact (mem_cons.mp hdata).resolve_left fun heq => hne data heq.symm
  have hkeeps : ∀ {c : Core D}, (cores i).cstate = .INVALID → (cores i).Dirty →
      c.cstate = .MODIFIED ∨ ∃ msg ∈ (cores i).up, msg.data? ≠ none := by
    rintro c hcs (hm | hup)
    · simp [hcs] at hm
    · exact .inr hup
  unfold Core.handleMsg at hc
  split at hc
  next data hcs hp =>
    cases hc
    refine h.setCore (fun _ => hmem data rfl) (h.flushed i) (h.writtenBack i) hsub (hkeeps hcs) ?_
    -- the line was asked for to be read, so the entry is not `MODIFIED`
    intro hds
    obtain ⟨-, -, -, -, ⟨k, hk, hanswer⟩ | ⟨hmsg, -⟩⟩ := hlink.of_answer nofun
    · rw [hds, some.inj (hk.symm.trans hp)] at hanswer
      cases hanswer
    · cases hmsg
  next data k hne hcs hp =>
    cases hc
    obtain ⟨hi, hgranted, hup, hrest, ⟨k', hk, hanswer⟩ | ⟨hmsg, -⟩⟩ := hlink.of_answer nofun
    · have hds : d.dstate = .MODIFIED := by
        generalize d.dstate = ds at hanswer
        cases hanswer with
        | modified | upgraded => rfl
        | exclusive => exact absurd (some.inj (hp.symm.trans hk)) hne
      exact Current.written hlinked hmode hi hgranted (.inr hds) rfl
        (congrArg change (hmem data rfl)) hup hrest
    · cases hmsg
  next data hcs hp =>
    cases hc
    exact h.setCore (fun _ => hmem data rfl) (h.flushed i) (h.writtenBack i) hsub (hkeeps hcs)
      fun _ => hkept nofun
  next hcs hp =>
    cases hc
    obtain ⟨hi, hgranted, hup, hrest, ⟨k, -, hanswer⟩ | ⟨-, hds⟩⟩ := hlink.of_answer nofun
    · generalize d.dstate = ds at hanswer
      cases hanswer
    · exact Current.written hlinked hmode hi hgranted (.inr hds) rfl
        (congrArg change (h.copies i (by simp [hcs]))) hup hrest
  next t =>
    obtain ⟨c', hrevoked, hpair⟩ := map_eq_some_iff.mp hc
    cases hpair
    obtain rfl | ⟨hdata, hvalid, m, hup, hm⟩ := Core.of_revoked hrevoked
    · exact h.setCore (h.copies i) (h.flushed i) (h.writtenBack i) hsub id fun _ => hkept nofun
    · have hcopy := h.copies i hvalid
      refine h.send hup (fun _ => hdata.trans hcopy) ?_ ?_ ?_ hsub fun _ => hkept nofun
      · rintro x rfl
        obtain ⟨hm, -⟩ | hm | hm | ⟨hm, -⟩ := hm <;> cases hm
        exact hcopy
      · rintro x rfl
        obtain ⟨hm, -⟩ | hm | hm | ⟨hm, hcs⟩ := hm <;> cases hm
        · exact .inl hcopy
        · rw [hcs] at hlink
          exact .inr hlink.shared_of_revoke
      · intro hmod
        obtain ⟨-, hne⟩ | rfl | rfl | ⟨rfl, -⟩ := hm
        · exact absurd hmod hne
        all_goals exact some_ne_none _
  · cases hc

end

/-! ## Whole runs -/

namespace DirSystem

variable {s s' : DirSystem n D} {call : DirCall n D}

/-- A line that is written back is the one in the DRAM; a buffer that was freed holds the line as long as
a request points to it. -/
def KeepsData (s : DirSystem n D) : DirCall n D → Prop
  | .toDirectory i _ freed =>
    (∀ data, (s.cores i).up.head? = some (.WB_REP data) → data = s.dir.dram) ∧
      ∀ r ∈ s.dir.queue, r.hasData → freed = s.lastWritten
  | .dramReply _ freed => ∀ r ∈ s.dir.queue, r.hasData → freed = s.lastWritten
  | _ => True

/-- The DRAM has what was written last, if no cache and no message has it, and sends nothing else. -/
structure Preserved (s : DirSystem n D) : Prop where
  memory : (∀ i, (s.cores i).cstate ≠ .MODIFIED) → (∀ i, ∀ msg ∈ (s.cores i).up, msg.data? = none) →
    (∀ i, ∀ msg ∈ s.dir.down i, msg.data? = none) → s.dir.dram = s.lastWritten
  reads : ∀ data ∈ s.dir.dramReads, data = s.lastWritten

theorem current_step (h : Current s.dir s.cores s.lastWritten) (hsteady : Steady cfg s.dir s.cores)
    (hok : s.KeepsData call) (hs : s.step cfg call = some s') :
    Current s'.dir s'.cores s'.lastWritten := by
  cases step_cases hs with
  | request hc => exact h.request hc
  | evict hc => exact h.evict hc
  | write hc => exact h.write hsteady hc
  | toDirectory hup hdir =>
    refine h.handleMsg hok.2 hsteady hup (fun data hdata => ?_) hdir
    exact hok.1 data (by rw [hup, hdata, head?_cons])
  | toCache hdown hc => exact h.toCache hsteady hdown hc
  | dramReply hdir => exact h.processDRAMReply hok hsteady hdir

theorem current_init (dram : D) (forwarder : Option (Fin n)) :
    Current (directory n cfg dram forwarder).init.dir (directory n cfg dram forwarder).init.cores
      dram where
  copies _ h := absurd rfl h
  flushed _ _ := nofun
  writtenBack _ _ := nofun
  supplies := ⟨fun _ _ => nofun, nofun, .inl rfl⟩

theorem preserved_of_current (h : Current s.dir s.cores s.lastWritten) : Preserved s := by
  refine ⟨fun hcopies hup hdown => ?_, h.supplies.reads⟩
  have hclean : ∀ i, ¬(s.cores i).Dirty := by
    rintro i (hm | ⟨msg, hmsg, hdata⟩)
    · exact hcopies i hm
    · exact hdata (hup i msg hmsg)
  refine h.supplies.memory.resolve_right ?_
  rintro ((⟨-, i, hi⟩ | ⟨-, i, hi | ⟨data, hdata⟩⟩) | helse)
  · exact hclean i hi
  · exact hclean i hi
  · cases hdown i _ hdata
  · exact helse

end DirSystem

open DirSystem

/-- **No written data is lost** in a run in which only clean lines are written back to the directory. -/
theorem no_written_data_lost {dram : D} {forwarder : Option (Fin n)} (hmax : 1 ≤ cfg.maxHwSharers) :
    (∀ s, (directory n cfg dram forwarder).ReachableWhen
        (fun s call => SafeCall s call ∧ KeepsData s call) s → Preserved s) ∧
      (cfg.maxHwSharers = 1 ∨ n ≤ cfg.maxHwSharers →
        ∀ s, (directory n cfg dram forwarder).ReachableWhen KeepsData s → Preserved s) := by
  have hinit : Steady cfg (directory n cfg dram forwarder).init.dir
      (directory n cfg dram forwarder).init.cores := (invariant_init dram forwarder).1
  refine ⟨fun s hs => ?_, fun hfull s hs => ?_⟩
  · have hinv : Steady cfg s.dir s.cores ∧ Current s.dir s.cores s.lastWritten :=
      hs.invariant (P := fun s => Steady cfg s.dir s.cores ∧ Current s.dir s.cores s.lastWritten)
        ⟨hinit, current_init dram forwarder⟩ fun s call s' h hok hst =>
          ⟨steady_step h.1 hmax (admits_of_safeCall hok.1) hst, current_step h.2 h.1 hok.2 hst⟩
    exact preserved_of_current hinv.2
  · have hinv : Steady cfg s.dir s.cores ∧ Current s.dir s.cores s.lastWritten :=
      hs.invariant (P := fun s => Steady cfg s.dir s.cores ∧ Current s.dir s.cores s.lastWritten)
        ⟨hinit, current_init dram forwarder⟩ fun s call s' h hok hst =>
          ⟨steady_step h.1 hmax (admits_of_full h.1 hfull) hst, current_step h.2 h.1 hok hst⟩
    exact preserved_of_current hinv.2

def keepsDataCheck (s : DirSystem n Bool) : DirCall n Bool → Bool
  | .toDirectory i _ freed =>
    (match (s.cores i).up.head? with
      | some (.WB_REP data) => data == s.dir.dram
      | _ => true) && s.dir.queue.all fun r => !r.hasData || freed == s.lastWritten
  | .dramReply _ freed => s.dir.queue.all fun r => !r.hasData || freed == s.lastWritten
  | _ => true

theorem keepsData_of_check (s : DirSystem n Bool) (call : DirCall n Bool)
    (h : keepsDataCheck s call = true) : KeepsData s call := by
  have hqueue : ∀ {freed}, (s.dir.queue.all fun r => !r.hasData || freed == s.lastWritten) = true →
      ∀ r ∈ s.dir.queue, r.hasData → freed = s.lastWritten := by
    intro freed hall r hr hdata
    simpa [hdata] using List.all_eq_true.mp hall r hr
  cases call with
  | toDirectory i pick freed =>
    rw [keepsDataCheck, Bool.and_eq_true] at h
    refine ⟨fun data hdata => ?_, hqueue h.2⟩
    simpa [hdata] using h.1
  | dramReply pick freed => exact hqueue h
  | _ => trivial

/-- Core 0 writes and evicts the line; core 1 reads it, and writes it back unchanged for core 0. -/
theorem clean_line_written_back : ∃ s, (directory 2 ⟨.MESI, 2⟩ false none).ReachableWhen KeepsData s ∧
    (s.dir.dstate, s.lastWritten) = (.SHARED, true) ∧ Preserved s := by
  obtain ⟨s, hs, hlast⟩ := Machine.exists_reachableWhen (m := directory 2 ⟨.MESI, 2⟩ false none)
    keepsDataCheck keepsData_of_check (P := fun s => (s.dir.dstate, s.lastWritten) = (.SHARED, true))
    [.request 0 .EX_REQ, .toDirectory 0 0 false, .dramReply 0 false, .toCache 0 (fun _ => true) false,
     .evict 0, .toDirectory 0 0 false,
     .request 1 .SH_REQ, .toDirectory 1 0 false, .dramReply 0 false, .toCache 1 id false,
     .request 0 .SH_REQ, .toDirectory 0 0 false, .toCache 1 id false, .toDirectory 1 0 false,
     .toCache 0 id false] (by decide +kernel) (by decide +kernel)
  exact ⟨s, hs, hlast, (no_written_data_lost (by decide)).2 (.inr (by decide)) s hs⟩

def readOfWrittenLine : List (DirCall 2 Bool) :=
  [.request 0 .EX_REQ, .toDirectory 0 0 false, .dramReply 0 false, .toCache 0 (fun _ => true) false,
   .request 1 .SH_REQ, .toDirectory 1 0 false, .toCache 0 id false, .toDirectory 0 0 false,
   .toCache 1 id false, .evict 0, .evict 1, .toDirectory 0 0 false, .toDirectory 1 0 false,
   .request 1 .SH_REQ, .toDirectory 1 0 false]

/-- Nothing but the DRAM has the line, and it sends the value from before the write. -/
theorem written_back_data_lost : ∃ s, (directory 2 ⟨.MSI, 2⟩ false none).Reachable s ∧
    (∀ i, (s.cores i).cstate = .INVALID ∧ (s.cores i).up = [] ∧ s.dir.down i = []) ∧
      s.lastWritten = true ∧ s.dir.dram = false ∧ s.dir.dramReads = [false] :=
  Machine.exists_reachable readOfWrittenLine (by decide +kernel)

end MultiCoreMemory.Sniper
