import Mathlib.Algebra.BigOperators.Fin
import MultiCoreMemory.Frontend.SimpleO3Core
import MultiCoreMemory.Translation.FrameExclusive

/-!
# What the hotness counters of `Dynamic_migration` count

A core translates the address of a request before it sends the request, and again in every cycle in
which it sends the request again because the memory system refused it.  `translate` counts each time.
-/

namespace MultiCoreMemory

open Placement List DynamicMigration

variable {cfg : PlacementConfig} {s s' : Placement}

/-! ## The counters after a call of `translate` -/

def SameCounters (s s' : Placement) : Prop :=
  s'.pageAccessCountsPerCore = s.pageAccessCountsPerCore ∧
    s'.migrationCounter = s.migrationCounter

theorem resolvePage_counters {vpn : ℤ} {core : Fin 8} {draws : List ℕ} {ppn : ℕ}
    (h : resolvePage cfg s vpn core draws = some (ppn, s')) : SameCounters s s' := by
  obtain ⟨-, rfl⟩ | ⟨-, s₁, ds, hfind, rfl⟩ := resolvePage_cases h
  · exact ⟨rfl, rfl⟩
  · obtain ⟨s₂, d, rfl | ⟨-, v, -, rfl⟩, -, -, rfl⟩ := findRandomFreePage_spec hfind
    · exact ⟨rfl, rfl⟩
    · exact ⟨rfl, rfl⟩

/-- **The counters after `translate`**: empty, or with one access more. -/
theorem DynamicMigration.translate_counters {C : Type} {o : TranslateOracle} {req req' : Request C}
    (h : translate cfg o s req = some (req', s')) :
    req'.vpage = cfg.vpnOf req.addr ∧ req'.sourceId = req.sourceId ∧
      (s.migrationCounter + 1 = cfg.stabilityWindow ∧
          s'.pageAccessCountsPerCore = (fun _ _ => 0) ∧ s'.migrationCounter = 0 ∨
        s.migrationCounter + 1 ≠ cfg.stabilityWindow ∧
          SameCounters (s.countAccess (cfg.vpnOf req.addr) (coreOf req.sourceId)) s') := by
  obtain ⟨s₁, ds, ppn, hwindow, hresolve, rfl⟩ := translate_cases h
  obtain ⟨hcounts, hcounter⟩ := resolvePage_counters hresolve
  refine ⟨rfl, rfl, ?_⟩
  obtain ⟨hne, rfl, -⟩ | ⟨heq, s₂, -, rfl⟩ := endOfWindow_cases hwindow
  · exact .inr ⟨hne, hcounts, hcounter⟩
  · exact .inl ⟨heq, hcounts, hcounter⟩

/-! ## Cores over a placement -/

/-- The cores, the placement they share, and the sends since the last `migrate_pages`, newest
first; the send whose translation ends a window belongs to that window. -/
structure Frontend (C : Type) where
  cores : List SimpleO3Core
  translation : Placement
  window : List (Attempt C) := []

inductive FrontendCall (C : Type) where
  | tick (core : ℕ) (oracle : TranslateOracle) (accept : Bool)
  | receive (req : Request C)

namespace Frontend

variable {C : Type}

def translateWith (cfg : PlacementConfig) (o : TranslateOracle) : Translate C Placement :=
  fun req t => (translate cfg o t req).map fun r => (true, r.1, r.2)

def recordAttempt (cfg : PlacementConfig) (s : Frontend C) : Option (Attempt C) → List (Attempt C)
  | none => s.window
  | some a =>
    if s.translation.migrationCounter + 1 = cfg.stabilityWindow then [] else a :: s.window

def step (cfg : PlacementConfig) (s : Frontend C) : FrontendCall C → Option (Frontend C)
  | .tick i o accept =>
    match s.cores[i]? with
    | none => none
    | some c =>
      if o.order.Perm s.translation.globalPageTable.keys then
        match c.tick (translateWith cfg o) accept s.translation with
        | none => none
        | some (c', t, attempt) =>
          some ⟨s.cores.set i c', t, s.recordAttempt cfg attempt⟩
      else none
  | .receive req =>
    match s.cores[req.sourceId.toNat]? with
    | none => none
    | some c => some { s with cores := s.cores.set req.sourceId.toNat (c.receive req) }

def machine (C : Type) (cfg : PlacementConfig) (cores : List SimpleO3Core) :
    Machine (Frontend C) (FrontendCall C) where
  init := { cores := cores, translation := Placement.initial cfg }
  step := step cfg

/-! ## The counters count attempts -/

def issuedTo (s : Frontend C) (vpn : ℤ) : ℕ :=
  s.window.countP fun a => a.req.vpage = vpn && a.accepted

def issued (s : Frontend C) : ℕ := s.window.countP (·.accepted)

structure Counted (s : Frontend C) : Prop where
  counts : ∀ vpn core, s.translation.pageAccessCountsPerCore vpn core =
    s.window.countP fun a => a.req.vpage = vpn && coreOf a.req.sourceId = core
  counter : s.translation.migrationCounter = s.window.length

theorem countAccess_counts (t : Placement) (vpn vpn' : ℤ) (core core' : Fin 8) :
    (t.countAccess vpn core).pageAccessCountsPerCore vpn' core' =
      t.pageAccessCountsPerCore vpn' core' + if vpn = vpn' ∧ core = core' then 1 else 0 := by
  simp only [countAccess]
  by_cases hv : vpn' = vpn
  · subst hv
    by_cases hc : core' = core
    · subst hc
      simp
    · simp [hc, Ne.symm hc]
  · simp [hv, Ne.symm hv]

theorem Counted.attempt {s : Frontend C} (h : s.Counted) {o : TranslateOracle}
    {req req' : Request C} {t : Placement}
    (htranslate : translate cfg o s.translation req = some (req', t))
    (cores : List SimpleO3Core) (accept : Bool) :
    Counted ⟨cores, t, s.recordAttempt cfg (some ⟨req', accept⟩)⟩ := by
  obtain ⟨hpage, hsource, hcounters⟩ := translate_counters htranslate
  simp only [recordAttempt]
  obtain ⟨hends, hcounts, hcounter⟩ | ⟨hends, hcounts, hcounter⟩ := hcounters
  · rw [if_pos hends]
    exact ⟨fun vpn core => by simp [hcounts], hcounter⟩
  · rw [if_neg hends]
    refine ⟨fun vpn core => ?_, ?_⟩
    · simp only [hcounts, countAccess_counts, h.counts vpn core, countP_cons, hpage, hsource,
        Bool.and_eq_true, decide_eq_true_eq]
    · simp [hcounter, countAccess, h.counter]

theorem Counted.step {s s' : Frontend C} {call : FrontendCall C} (h : s.Counted)
    (hstep : step cfg s call = some s') : s'.Counted := by
  cases call with
  | receive req =>
    simp only [Frontend.step] at hstep
    split at hstep
    · cases hstep
    · cases hstep
      exact ⟨h.counts, h.counter⟩
  | tick i o accept =>
    simp only [Frontend.step] at hstep
    split at hstep
    · cases hstep
    · split at hstep
      · split at hstep
        · cases hstep
        · rename_i c' t attempt htick
          cases hstep
          obtain ⟨rfl, rfl⟩ | ⟨req, ok, req', hcall, rfl⟩ := SimpleO3Core.tick_cases htick
          · exact ⟨h.counts, h.counter⟩
          · obtain ⟨r, htranslate, heq⟩ := Option.map_eq_some_iff.mp hcall
            cases heq
            exact h.attempt htranslate _ accept
      · cases hstep

theorem counted_of_reachable {cores : List SimpleO3Core} {s : Frontend C}
    (h : (machine C cfg cores).Reachable s) : s.Counted :=
  h.invariant (P := Counted) ⟨fun _ _ => rfl, rfl⟩ fun _ _ _ hs _ hstep => hs.step hstep

theorem sum_countP_core (p : Attempt C → Bool) (l : List (Attempt C)) :
    ∑ core : Fin 8, l.countP (fun a => p a && coreOf a.req.sourceId = core) = l.countP p := by
  induction l with
  | nil => simp
  | cons a l ih =>
    simp only [countP_cons, Finset.sum_add_distrib, ih]
    cases p a <;> simp

/-- **The hotness counters are exact exactly when no send of the window was refused.** -/
theorem hotness_exact_iff (cfg : PlacementConfig) (cores : List SimpleO3Core) (s : Frontend C)
    (h : (machine C cfg cores).Reachable s) :
    ((∀ vpn, ∑ core, s.translation.pageAccessCountsPerCore vpn core = s.issuedTo vpn) ∧
        s.translation.migrationCounter = s.issued) ↔
      ∀ a ∈ s.window, a.accepted = true := by
  obtain ⟨hcounts, hcounter⟩ := counted_of_reachable h
  constructor
  · rintro ⟨-, hissued⟩
    rw [hcounter] at hissued
    exact countP_eq_length.mp hissued.symm
  · intro haccepted
    refine ⟨fun vpn => ?_, ?_⟩
    · simp only [hcounts, sum_countP_core, issuedTo]
      refine countP_congr fun a ha => ?_
      simp [haccepted a ha]
    · rw [hcounter]
      exact (countP_eq_length.mpr haccepted).symm

/-! ## A refused load -/

def oneLoad : List SimpleO3Core := [SimpleO3Core.create 0 4 128 0 [{ loadAddr := 4096 }]]

def wideWindow : PlacementConfig := { tinyConfig with stabilityWindow := 100 }

def refusedLoad (n : ℕ) : List (FrontendCall Unit) :=
  match n with
  | 0 => [.tick 0 ⟨[0], [], fun _ => Equiv.refl _⟩ true]
  | n + 1 => .tick 0 ⟨[0], [], fun _ => Equiv.refl _⟩ false ::
      (List.replicate n (.tick 0 ⟨[0], [1], fun _ => Equiv.refl _⟩ false) ++
        [.tick 0 ⟨[0], [1], fun _ => Equiv.refl _⟩ true])

/-- **A refused load is counted each time**: one load was issued, and its page has four accesses. -/
theorem refused_load_is_counted :
    ∃ s, (machine Unit wideWindow oneLoad).Reachable s ∧ s.issuedTo 1 = 1 ∧
      ∑ core, s.translation.pageAccessCountsPerCore 1 core = 4 ∧ s.issued = 1 ∧
      s.translation.migrationCounter = 4 :=
  Machine.exists_reachable (refusedLoad 3) (by decide +kernel)

/-- A load that is accepted at once is counted once. -/
theorem accepted_load_is_exact :
    ∃ s, (machine Unit wideWindow oneLoad).run (machine Unit wideWindow oneLoad).init
        (refusedLoad 0) = some s ∧ s.issuedTo 1 = 1 ∧
      ∑ core, s.translation.pageAccessCountsPerCore 1 core = s.issuedTo 1 ∧
      s.translation.migrationCounter = s.issued := by
  have hrun : ((machine Unit wideWindow oneLoad).run (machine Unit wideWindow oneLoad).init
      (refusedLoad 0)).map (fun s => (s.issuedTo 1, s.window.all (·.accepted))) =
      some (1, true) := by decide +kernel
  obtain ⟨s, hs, hvalues⟩ := Option.map_eq_some_iff.mp hrun
  simp only [Prod.mk.injEq, List.all_eq_true] at hvalues
  have hexact := (hotness_exact_iff wideWindow oneLoad s (Machine.reachable_of_run hs)).mpr
    hvalues.2
  exact ⟨s, hs, hvalues.1, hexact.1 1, hexact.2⟩

end Frontend

end MultiCoreMemory
