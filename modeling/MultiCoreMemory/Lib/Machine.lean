import Mathlib.Data.List.Basic

/-!
# Machines that read inputs

A simulator component is an initial state and a partial step: `step s i = some s'` when the
call `i` is possible in `s` and returns.  A run is a list of inputs.
-/

namespace MultiCoreMemory

/-- An initial state and a step, which `none` refuses. -/
structure Machine (σ ι : Type*) where
  init : σ
  step : σ → ι → Option σ

namespace Machine

variable {σ ι : Type*} {m : Machine σ ι} {ok ok' : σ → ι → Prop}

/-- The states reached by steps that satisfy `ok`, a condition on the state before and the input. -/
inductive ReachableWhen (m : Machine σ ι) (ok : σ → ι → Prop) : σ → Prop
  | start : ReachableWhen m ok m.init
  | next {s s' : σ} {i : ι} : ReachableWhen m ok s → ok s i → m.step s i = some s' →
      ReachableWhen m ok s'

abbrev Reachable (m : Machine σ ι) : σ → Prop := ReachableWhen m fun _ _ => True

variable {P : σ → Prop}

/-- A property that holds initially and is kept by the permitted steps holds in every state so
reached. -/
theorem ReachableWhen.invariant (h0 : P m.init)
    (hstep : ∀ s i s', P s → ok s i → m.step s i = some s' → P s') {s : σ}
    (h : m.ReachableWhen ok s) : P s := by
  induction h with
  | start => exact h0
  | next _ hok hst ih => exact hstep _ _ _ ih hok hst

theorem ReachableWhen.mono (himp : ∀ s i, ok s i → ok' s i) {s : σ}
    (h : m.ReachableWhen ok s) : m.ReachableWhen ok' s := by
  induction h with
  | start => exact .start
  | next _ hok hst ih => exact .next ih (himp _ _ hok) hst

theorem ReachableWhen.reachable {s : σ} (h : m.ReachableWhen ok s) : m.Reachable s :=
  h.mono fun _ _ _ => trivial

def run (m : Machine σ ι) : σ → List ι → Option σ
  | s, [] => some s
  | s, i :: is =>
    match m.step s i with
    | some s' => m.run s' is
    | none => none

theorem run_cons {s s' : σ} {i : ι} {is : List ι} (h : m.run s (i :: is) = some s') :
    ∃ s₁, m.step s i = some s₁ ∧ m.run s₁ is = some s' := by
  simp only [Machine.run] at h
  split at h
  · exact ⟨_, ‹_›, h⟩
  · cases h

theorem run_append {is js : List ι} {s s' : σ} (h : m.run s (is ++ js) = some s') :
    ∃ s₁, m.run s is = some s₁ ∧ m.run s₁ js = some s' := by
  induction is generalizing s with
  | nil => exact ⟨s, rfl, h⟩
  | cons i is ih =>
    obtain ⟨s₁, hst, h⟩ := run_cons h
    rw [Machine.run, hst]
    exact ih h

theorem run_invariant (hstep : ∀ s i s', P s → m.step s i = some s' → P s') {is : List ι} {s s' : σ}
    (hs : P s) (h : m.run s is = some s') : P s' := by
  induction is generalizing s with
  | nil => cases h; exact hs
  | cons i is ih =>
    obtain ⟨s₁, hst, h⟩ := run_cons h
    exact ih (hstep _ _ _ hs hst) h

theorem run_length_le {measure : σ → ℕ}
    (hstep : ∀ s i s', P s → m.step s i = some s' → P s' ∧ measure s' < measure s) {is : List ι}
    {s s' : σ} (hs : P s) (h : m.run s is = some s') : is.length ≤ measure s := by
  induction is generalizing s with
  | nil => exact Nat.zero_le _
  | cons i is ih =>
    obtain ⟨s₁, hst, h⟩ := run_cons h
    obtain ⟨hs₁, hlt⟩ := hstep _ _ _ hs hst
    exact Nat.lt_of_le_of_lt (ih hs₁ h) hlt

theorem exists_run_of_length (hstep : ∀ s, P s → ∃ i s', m.step s i = some s' ∧ P s') (n : ℕ)
    {s : σ} (hs : P s) : ∃ is s', is.length = n ∧ m.run s is = some s' := by
  induction n generalizing s with
  | zero => exact ⟨[], s, rfl, rfl⟩
  | succ n ih =>
    obtain ⟨i, s₁, hst, hs₁⟩ := hstep s hs
    obtain ⟨is, s', hlen, hrun⟩ := ih hs₁
    refine ⟨i :: is, s', by rw [List.length_cons, hlen], ?_⟩
    rw [Machine.run, hst]
    exact hrun

theorem ReachableWhen.run {is : List ι} {s s' : σ} (hs : m.Reachable s)
    (h : m.run s is = some s') : m.Reachable s' :=
  run_invariant (fun _ _ _ hs hst => .next hs trivial hst) hs h

/-- Does every step of the replay satisfy a decidable condition? -/
def runMeets (m : Machine σ ι) (check : σ → ι → Bool) : σ → List ι → Bool
  | _, [] => true
  | s, i :: is =>
    check s i && match m.step s i with
      | some s' => m.runMeets check s' is
      | none => true

theorem ReachableWhen.runMeets {check : σ → ι → Bool} (hcheck : ∀ s i, check s i = true → ok s i)
    {is : List ι} {s s' : σ} (hs : m.ReachableWhen ok s) (h : m.run s is = some s')
    (hmeets : m.runMeets check s is = true) : m.ReachableWhen ok s' := by
  induction is generalizing s with
  | nil => cases h; exact hs
  | cons i is ih =>
    obtain ⟨s₁, hst, h⟩ := run_cons h
    simp only [Machine.runMeets, Bool.and_eq_true, hst] at hmeets
    exact ih (.next hs (hcheck s i hmeets.1) hst) h hmeets.2

variable (check : σ → ι → Bool)

theorem reachableWhen_of_run (hcheck : ∀ s i, check s i = true → ok s i) {is : List ι} {s : σ}
    (h : m.run m.init is = some s) (hmeets : m.runMeets check m.init is = true) :
    m.ReachableWhen ok s :=
  ReachableWhen.runMeets hcheck .start h hmeets

theorem reachable_of_run {is : List ι} {s : σ} (h : m.run m.init is = some s) : m.Reachable s :=
  ReachableWhen.run .start h

/-- Replaying a concrete list of inputs. -/
theorem exists_reachable [DecidablePred P] (is : List ι)
    (h : (m.run m.init is).any (fun s => decide (P s)) = true) : ∃ s, m.Reachable s ∧ P s := by
  obtain ⟨s, hs, hP⟩ := (Option.any_eq_true _ _).mp h
  exact ⟨s, reachable_of_run hs, of_decide_eq_true hP⟩

theorem exists_reachableWhen (hcheck : ∀ s i, check s i = true → ok s i) {P : σ → Prop}
    [DecidablePred P] (is : List ι) (h : (m.run m.init is).any (fun s => decide (P s)) = true)
    (hmeets : m.runMeets check m.init is = true) : ∃ s, m.ReachableWhen ok s ∧ P s := by
  obtain ⟨s, hs, hP⟩ := (Option.any_eq_true _ _).mp h
  exact ⟨s, reachableWhen_of_run check hcheck hs hmeets, of_decide_eq_true hP⟩

/-- A loop whose body returns and keeps a property returns and keeps it. -/
theorem exists_foldlM {f : σ → ι → Option σ} {is : List ι}
    (hstep : ∀ s, ∀ i ∈ is, P s → ∃ s', f s i = some s' ∧ P s') {s : σ} (hs : P s) :
    ∃ s', is.foldlM f s = some s' ∧ P s' := by
  induction is generalizing s with
  | nil => exact ⟨s, rfl, hs⟩
  | cons i is ih =>
    obtain ⟨s₁, hst, hs₁⟩ := hstep s i List.mem_cons_self hs
    obtain ⟨s', hrun, hs'⟩ := ih (fun s j hj => hstep s j (List.mem_cons_of_mem i hj)) hs₁
    exact ⟨s', by rw [List.foldlM_cons, hst]; exact hrun, hs'⟩

end Machine

end MultiCoreMemory
