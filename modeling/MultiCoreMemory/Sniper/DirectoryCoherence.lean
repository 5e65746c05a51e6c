import Mathlib.Data.Fintype.Card
import MultiCoreMemory.Sniper.DirectoryOrder

/-!
# The directory stays coherent with its caches

`Coherent` says of a state that the entry is well formed, that whatever message is there can be
delivered without a failed assertion, and that the requests are answered one after the other.
-/

namespace MultiCoreMemory.Sniper

open Option

variable {n : ℕ} {D : Type} {cfg : DirectoryConfig}

namespace DirSystem

variable {s s' : DirSystem n D} {i : Fin n} {pick : ℕ} {freed : D}

def Delivers (s : DirSystem n D) : DirCall n D → Prop
  | .toDirectory i _ _ => (s.cores i).up ≠ []
  | .toCache i _ _ => s.dir.down i ≠ []
  | .dramReply _ _ => s.dir.dramReads ≠ []
  | _ => False

/-- An `INV_REP` comes from the sharer that has to go, if a shared request waits for room. -/
def SafeCall (s : DirSystem n D) : DirCall n D → Prop
  | .toDirectory i _ _ => (s.cores i).up.head? = some .INV_REP →
      ∀ r v, s.dir.queue.head? = some r → r.displaced = some v → i = v
  | _ => True

/-- The directory is coherent with the caches, and every message that may be delivered can be. -/
structure Coherent (cfg : DirectoryConfig) (ok : DirSystem n D → DirCall n D → Prop)
    (s : DirSystem n D) : Prop where
  uncached : s.dir.dstate = .UNCACHED ↔ s.dir.sharers = ∅
  owned : s.dir.dstate = .EXCLUSIVE ∨ s.dir.dstate = .MODIFIED →
    ∃ o, s.dir.owner = some o ∧ s.dir.sharers = {o}
  shared : s.dir.dstate = .SHARED → s.dir.sharers.Nonempty
  room : s.dir.sharers.card ≤ cfg.maxHwSharers
  handled : ∀ call, s.Delivers call → ok s call → ∃ s', s.step cfg call = some s'
  ordered : ∃ k, OrderedAt s.dir k
  replied_once : ∀ id, s.dir.events.count (.replied id) ≤ 1

/-! ## One step -/

theorem toDirectory_of_cons {msg : ToDirectory D} {up : List (ToDirectory D)}
    (hup : (s.cores i).up = msg :: up) :
    s.toDirectory cfg i pick freed = (s.dir.handleMsg cfg i msg pick freed).map fun dir =>
      { dir, cores := pop s.cores i up, lastWritten := s.lastWritten } := by
  rw [toDirectory]
  split
  next hnil => cases hup.symm.trans hnil
  next hcons =>
    cases hup.symm.trans hcons
    cases s.dir.handleMsg cfg i msg pick freed <;> rfl

theorem toCache_of_cons {msg : ToCache D} {down : List (ToCache D)} (hdown : s.dir.down i = msg :: down)
    (change : D → D) (uninit : D) :
    s.toCache i change uninit = ((s.cores i).handleMsg msg change uninit).map fun result =>
      { dir := { s.dir with down := Function.update s.dir.down i down }
        cores := Function.update s.cores i result.1
        lastWritten := if result.2 then change s.lastWritten else s.lastWritten } := by
  rw [toCache]
  split
  next hnil => cases hdown.symm.trans hnil
  next hcons =>
    cases hdown.symm.trans hcons
    cases (s.cores i).handleMsg msg change uninit <;> rfl

inductive StepCases (cfg : DirectoryConfig) (s : DirSystem n D) :
    DirCall n D → DirSystem n D → Prop
  | request {i : Fin n} {type : Request} {c : Core D} (hc : (s.cores i).request type = some c) :
      StepCases cfg s (.request i type) (s.setCore i c)
  | evict {i : Fin n} {c : Core D} (hc : (s.cores i).evict = some c) :
      StepCases cfg s (.evict i) (s.setCore i c)
  | write {i : Fin n} {change : D → D} {c : Core D} (hc : (s.cores i).write change = some c) :
      StepCases cfg s (.write i change) { s.setCore i c with lastWritten := change s.lastWritten }
  | toDirectory {i : Fin n} {pick : ℕ} {freed : D} {msg : ToDirectory D} {up : List (ToDirectory D)}
      (hup : (s.cores i).up = msg :: up) {dir : Directory n D}
      (hdir : s.dir.handleMsg cfg i msg pick freed = some dir) :
      StepCases cfg s (.toDirectory i pick freed)
        { dir, cores := pop s.cores i up, lastWritten := s.lastWritten }
  | toCache {i : Fin n} {change : D → D} {uninit : D} {msg : ToCache D} {down : List (ToCache D)}
      (hdown : s.dir.down i = msg :: down) {c : Core D} {writes : Bool}
      (hc : (s.cores i).handleMsg msg change uninit = some (c, writes)) :
      StepCases cfg s (.toCache i change uninit)
        { dir := { s.dir with down := Function.update s.dir.down i down }
          cores := Function.update s.cores i c
          lastWritten := if writes then change s.lastWritten else s.lastWritten }
  | dramReply {pick : ℕ} {freed : D} {dir : Directory n D}
      (hdir : s.dir.processDRAMReply cfg pick freed = some dir) :
      StepCases cfg s (.dramReply pick freed) { s with dir }

variable {call : DirCall n D}

theorem step_cases (h : s.step cfg call = some s') : StepCases cfg s call s' := by
  cases call with
  | request i type =>
    obtain ⟨c, hc, rfl⟩ := map_eq_some_iff.mp h
    exact .request hc
  | evict i =>
    obtain ⟨c, hc, rfl⟩ := map_eq_some_iff.mp h
    exact .evict hc
  | write i change =>
    obtain ⟨c, hc, rfl⟩ := map_eq_some_iff.mp h
    exact .write hc
  | toDirectory i pick freed =>
    cases hup : (s.cores i).up with
    | nil => simp [step, toDirectory, hup] at h
    | cons msg up =>
      rw [step, toDirectory_of_cons hup] at h
      obtain ⟨dir, hdir, rfl⟩ := map_eq_some_iff.mp h
      exact .toDirectory hup hdir
  | toCache i change uninit =>
    cases hdown : s.dir.down i with
    | nil => simp [step, toCache, hdown] at h
    | cons msg down =>
      rw [step, toCache_of_cons hdown] at h
      obtain ⟨⟨c, writes⟩, hc, rfl⟩ := map_eq_some_iff.mp h
      exact .toCache hdown hc
  | dramReply pick freed =>
    obtain ⟨dir, hdir, rfl⟩ := map_eq_some_iff.mp h
    exact .dramReply hdir

section

variable (h : Steady cfg s.dir s.cores)
include h

/-- A full list of one sharer, or of all cores, leaves no choice. -/
theorem makesRoom_of_full (hfull : cfg.maxHwSharers = 1 ∨ n ≤ cfg.maxHwSharers) :
    MakesRoom cfg s.dir i := by
  intro r v _ _ hr hmax hv hi
  obtain ⟨-, w, granted, hlinked, -⟩ := h
  obtain hone | hall := hfull
  · have hcard : s.dir.sharers.card ≤ 1 := hone ▸ hlinked.room
    exact Finset.card_le_one.mp hcard i hi v hv
  · have hlt : s.dir.sharers.card < n := by
      have hcard := Finset.card_lt_univ_of_notMem hr
      rwa [Fintype.card_fin] at hcard
    omega

theorem toDirectory_steady (hmax : 1 ≤ cfg.maxHwSharers) (hup : (s.cores i).up ≠ [])
    (hroom : (s.cores i).up.head? = some .INV_REP → MakesRoom cfg s.dir i) (pick : ℕ) (freed : D) :
    ∃ s', s.toDirectory cfg i pick freed = some s' ∧ Steady cfg s'.dir s'.cores := by
  obtain ⟨msg, up, hcons⟩ := List.exists_cons_of_ne_nil hup
  rw [hcons] at hroom
  obtain ⟨dir, hdir, hsteady⟩ : ∃ dir, s.dir.handleMsg cfg i msg pick freed = some dir ∧
      Steady cfg dir (pop s.cores i up) := by
    cases msg with
    | request type => exact h.processRequest hmax hcons pick freed
    | INV_REP => exact h.invRep hmax hcons (hroom rfl) pick freed
    | FLUSH_REP data => exact h.flushRep hmax hcons pick freed
    | WB_REP data => exact h.wbRep hmax hcons pick freed
  refine ⟨{ dir, cores := pop s.cores i up, lastWritten := s.lastWritten }, ?_, hsteady⟩
  rw [toDirectory_of_cons hcons, hdir, map_some]

theorem toCache_steady (hdown : s.dir.down i ≠ []) (change : D → D) (uninit : D) :
    ∃ s', s.toCache i change uninit = some s' ∧ Steady cfg s'.dir s'.cores := by
  obtain ⟨msg, down, hcons⟩ := List.exists_cons_of_ne_nil hdown
  obtain ⟨c, writes, hc, hsteady⟩ := h.toCache hcons change uninit
  exact ⟨_, by rw [toCache_of_cons hcons, hc, map_some], hsteady⟩

theorem dramReply_steady (hmax : 1 ≤ cfg.maxHwSharers) (hreads : s.dir.dramReads ≠ []) (pick : ℕ)
    (freed : D) :
    ∃ s', s.step cfg (.dramReply pick freed) = some s' ∧ Steady cfg s'.dir s'.cores := by
  obtain ⟨data, reads, hcons⟩ := List.exists_cons_of_ne_nil hreads
  obtain ⟨dir, hdir, hsteady⟩ := h.dramReply hmax hcons pick freed
  exact ⟨{ s with dir }, by simp only [step, hdir, map_some], hsteady⟩

end

def Admits (cfg : DirectoryConfig) (s : DirSystem n D) : DirCall n D → Prop
  | .toDirectory i _ _ => (s.cores i).up.head? = some .INV_REP → MakesRoom cfg s.dir i
  | _ => True

theorem admits_of_safeCall (h : s.SafeCall call) : s.Admits cfg call := by
  cases call with
  | toDirectory i pick freed => exact fun hinv r v hr hv _ _ _ _ => h hinv r v hr hv
  | _ => trivial

theorem admits_of_full (h : Steady cfg s.dir s.cores)
    (hfull : cfg.maxHwSharers = 1 ∨ n ≤ cfg.maxHwSharers) : s.Admits cfg call := by
  cases call with
  | toDirectory i pick freed => exact fun _ => makesRoom_of_full h hfull
  | _ => trivial

theorem deliver (h : Steady cfg s.dir s.cores) (hmax : 1 ≤ cfg.maxHwSharers)
    (hcall : s.Delivers call) (hok : s.Admits cfg call) :
    ∃ s', s.step cfg call = some s' ∧ Steady cfg s'.dir s'.cores := by
  cases call with
  | toDirectory i pick freed => exact toDirectory_steady h hmax hcall hok pick freed
  | toCache i change uninit => exact toCache_steady h hcall change uninit
  | dramReply pick freed => exact dramReply_steady h hmax hcall pick freed
  | request | evict | write => exact hcall.elim

theorem steady_step (h : Steady cfg s.dir s.cores) (hmax : 1 ≤ cfg.maxHwSharers)
    (hok : s.Admits cfg call) (hs : s.step cfg call = some s') : Steady cfg s'.dir s'.cores := by
  have hdelivered : s.Delivers call → Steady cfg s'.dir s'.cores := by
    intro hcall
    obtain ⟨s₁, hs₁, hsteady⟩ := deliver h hmax hcall hok
    cases hs.symm.trans hs₁
    exact hsteady
  cases step_cases hs with
  | request hc => exact h.request hc
  | evict hc => exact h.evict hc
  | write hc => exact h.write hc
  | toDirectory hup => exact hdelivered fun hnil => by cases hup.symm.trans hnil
  | toCache hdown => exact hdelivered fun hnil => by cases hdown.symm.trans hnil
  | dramReply hdir =>
    refine hdelivered fun hnil => ?_
    simp [Directory.processDRAMReply, hnil] at hdir

theorem ordered_step {k : ℕ} (h : OrderedAt s.dir k) (hs : s.step cfg call = some s') :
    ∃ k, OrderedAt s'.dir k := by
  cases step_cases hs with
  | request | evict | write => exact ⟨k, h⟩
  | toCache => exact ⟨k, h.of_eq rfl rfl rfl⟩
  | toDirectory hup hdir => exact h.handleMsg hdir
  | dramReply hdir => exact h.processDRAMReply hdir

/-! ## Whole runs -/

def Invariant (cfg : DirectoryConfig) (s : DirSystem n D) : Prop :=
  Steady cfg s.dir s.cores ∧ ∃ k, OrderedAt s.dir k

theorem invariant_init (dram : D) (forwarder : Option (Fin n)) :
    Invariant cfg (directory n cfg dram forwarder).init := by
  refine ⟨⟨nofun, fun _ => none, none, ?_, .idle rfl rfl⟩, 0, rfl, rfl, rfl⟩
  refine ⟨by simp [directory], by simp [directory], by simp [directory], ⟨?_, nofun, nofun⟩, fun i => ?_,
    nofun⟩
  · exact List.nodup_nil
  · exact .idle (by simp [directory]) (by simp [directory, Directory.requesters]) nofun rfl .no .nil

theorem invariant_step (hmax : 1 ≤ cfg.maxHwSharers) (h : Invariant cfg s) (hok : s.Admits cfg call)
    (hs : s.step cfg call = some s') : Invariant cfg s' := by
  obtain ⟨hsteady, k, hordered⟩ := h
  exact ⟨steady_step hsteady hmax hok hs, ordered_step hordered hs⟩

theorem Invariant.coherent {ok : DirSystem n D → DirCall n D → Prop} (h : Invariant cfg s)
    (hmax : 1 ≤ cfg.maxHwSharers) (hok : ∀ call, ok s call → s.Admits cfg call) :
    Coherent cfg ok s := by
  obtain ⟨hsteady, hordered⟩ := h
  have hdeliver : ∀ call, s.Delivers call → ok s call → ∃ s', s.step cfg call = some s' := by
    intro call hcall hcok
    obtain ⟨s', hs', -⟩ := deliver hsteady hmax hcall (hok call hcok)
    exact ⟨s', hs'⟩
  obtain ⟨-, w, granted, hlinked, -⟩ := hsteady
  obtain ⟨k, hk⟩ := hordered
  exact ⟨hlinked.uncached, hlinked.owned, fun hs => hlinked.sharers_nonempty (by simp [hs]),
    hlinked.room, hdeliver, ⟨k, hk⟩, hk.count_replied_le⟩

end DirSystem

open DirSystem

/-- **The directory stays coherent with its caches** if each `INV_REP` that arrives while a shared
request waits for room comes from the sharer that was asked to go; and always if the list of sharers has
room for one core or for all. -/
theorem directory_stays_coherent {dram : D} {forwarder : Option (Fin n)}
    (hmax : 1 ≤ cfg.maxHwSharers) :
    (∀ s, (directory n cfg dram forwarder).ReachableWhen SafeCall s → Coherent cfg SafeCall s) ∧
      (cfg.maxHwSharers = 1 ∨ n ≤ cfg.maxHwSharers →
        ∀ s, (directory n cfg dram forwarder).Reachable s → Coherent cfg (fun _ _ => True) s) := by
  refine ⟨fun s hs => ?_, fun hfull s hs => ?_⟩
  · have hinv : Invariant cfg s := hs.invariant (invariant_init dram forwarder)
      fun s call s' h hok hst => invariant_step hmax h (admits_of_safeCall hok) hst
    exact hinv.coherent hmax fun call hok => admits_of_safeCall hok
  · have hinv : Invariant cfg s := hs.invariant (invariant_init dram forwarder)
      fun s call s' h _ hst => invariant_step hmax h (admits_of_full h.1 hfull) hst
    exact hinv.coherent hmax fun call _ => admits_of_full hinv.1 hfull

def safeCallCheck (s : DirSystem n D) : DirCall n D → Bool
  | .toDirectory i _ _ =>
    match (s.cores i).up.head?, s.dir.queue.head? with
    | some .INV_REP, some r => r.displaced.all (· = i)
    | _, _ => true
  | _ => true

theorem safeCall_of_check (s : DirSystem n D) (call : DirCall n D) (h : safeCallCheck s call = true) :
    SafeCall s call := by
  cases call with
  | toDirectory i pick freed =>
    intro hinv r v hr hv
    simp only [safeCallCheck, hinv, hr, hv, all_some, decide_eq_true_eq] at h
    exact h.symm
  | _ => trivial

/-- A third reader of a line whose list has room for two: core 0 goes. -/
theorem third_reader_displaces_first : ∃ s,
    (directory 3 ⟨.MSI, 2⟩ () none).ReachableWhen SafeCall s ∧
      (s.dir.dstate, s.dir.sharersList) = (.SHARED, [1, 2]) ∧ Coherent ⟨.MSI, 2⟩ SafeCall s := by
  obtain ⟨s, hs, hlast⟩ := Machine.exists_reachableWhen (m := directory 3 ⟨.MSI, 2⟩ () none)
    safeCallCheck safeCall_of_check
    (P := fun s => (s.dir.dstate, s.dir.sharersList) = (.SHARED, [1, 2]))
    [.request 0 .SH_REQ, .toDirectory 0 0 (), .dramReply 0 (), .toCache 0 id (),
     .request 1 .SH_REQ, .toDirectory 1 0 (), .dramReply 0 (), .toCache 1 id (),
     .request 2 .SH_REQ, .toDirectory 2 0 (), .toCache 0 id (), .toDirectory 0 0 (),
     .dramReply 0 (), .toCache 2 id ()] (by decide +kernel) (by decide +kernel)
  exact ⟨s, hs, hlast, (directory_stays_coherent (by decide)).1 s hs⟩

/-- A third core asks for a line while the list has room for two. Core 0 is asked to go, but core 1 is
evicted first. Core 0 upgrades and only then reads the message. -/
def anotherMakesRoom : List (DirCall 3 Unit) :=
  [.request 0 .SH_REQ, .toDirectory 0 0 (), .dramReply 0 (), .toCache 0 id (),
   .request 1 .SH_REQ, .toDirectory 1 0 (), .dramReply 0 (), .toCache 1 id (),
   .request 2 .SH_REQ, .toDirectory 2 0 (), .evict 1, .toDirectory 1 0 (), .dramReply 0 (),
   .toCache 2 id (), .request 0 .UPGRADE_REQ, .toDirectory 0 0 (), .toCache 2 id (),
   .toDirectory 2 0 (), .toCache 0 id ()]

theorem invRep_of_another_fails_assertion :
    ∃ s, (directory 3 ⟨.MSI, 2⟩ () none).Reachable s ∧ s.Delivers (.toDirectory 0 0 ()) ∧
      s.step ⟨.MSI, 2⟩ (.toDirectory 0 0 ()) = none := by
  obtain ⟨s, hs, hup, hstep⟩ := Machine.exists_reachable (m := directory 3 ⟨.MSI, 2⟩ () none)
    (P := fun s => (s.cores 0).up.isEmpty = false ∧ (s.step ⟨.MSI, 2⟩ (.toDirectory 0 0 ())).isNone)
    anotherMakesRoom (by decide +kernel)
  exact ⟨s, hs, by simpa [Delivers] using hup, isNone_iff_eq_none.mp hstep⟩

end MultiCoreMemory.Sniper
