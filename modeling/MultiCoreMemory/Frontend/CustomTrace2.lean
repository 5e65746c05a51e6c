import Mathlib.Algebra.Ring.Int.Defs
import MultiCoreMemory.Frontend.SimpleO3Core
import MultiCoreMemory.Lib.Machine
import MultiCoreMemory.Lib.UnorderedMap

/-!
# Replaying a trace with clocks (`memory_trace/new.cpp`)

`tick` is to wait while the next entry lies in the future.  Its test is `t.clk < clk`, which asks
whether the entry lies in the past; so an entry of the future is sent at once.

A cycle after the end of the trace reads outside of it (`none`).  Clocks are natural numbers.
-/

namespace MultiCoreMemory

open List

variable {C τ : Type}

structure TraceEntry where
  clk : ℕ
  isWrite : Bool
  addr : ℤ
  sourceId : ℤ
  deriving DecidableEq, Repr

def TraceEntry.request (e : TraceEntry) : Request C :=
  { addr := e.addr
    typeId := if e.isWrite then typeWrite else typeRead
    sourceId := e.sourceId }

structure CustomTrace2 where
  trace : List TraceEntry
  currTraceIdx : ℕ := 0
  clk : ℕ := 0
  vpnAccessCount : UnorderedMap ℤ ℕ := ∅

namespace CustomTrace2

variable (s : CustomTrace2)

def curr : Option TraceEntry := s.trace[s.currTraceIdx]?

def countAccess (addr : ℤ) : CustomTrace2 :=
  let vpn := addr / 2 ^ 12
  { s with vpnAccessCount :=
      s.vpnAccessCount.insert vpn ((s.vpnAccessCount.lookup vpn).getD 0 + 1) }

def nextEntry : CustomTrace2 := { s with currTraceIdx := s.currTraceIdx + 1 }

/-- The end of `tick`: the clock stands still if the next entry has the same clock. -/
def nextClock : CustomTrace2 :=
  if s.curr.any fun next => next.clk = s.clk then s else { s with clk := s.clk + 1 }

/-- `tick`: the frontend, the translation, and the request that was sent, if one was. -/
def tick (translate : Translate C τ) (accept : Bool) (s : CustomTrace2) (t : τ) :
    Option (CustomTrace2 × τ × Option (Attempt C)) :=
  match s.curr with
  | none => none
  | some e =>
    if e.clk < s.clk then some ({ s with clk := s.clk + 1 }, t, none)
    else
      let s := s.countAccess e.addr
      match translate e.request t with
      | none => none
      | some (false, _, t) => some (s.nextEntry, t, none)
      | some (true, req, t) =>
        if accept then some (s.nextEntry.nextClock, t, some ⟨req, true⟩)
        else some (s, t, some ⟨req, false⟩)

/-- **What a cycle does.** -/
inductive TickCases (translate : Translate C τ) (accept : Bool) (s : CustomTrace2) (t : τ)
    (e : TraceEntry) : CustomTrace2 → τ → Option (Attempt C) → Prop
  | waits : e.clk < s.clk → TickCases translate accept s t e { s with clk := s.clk + 1 } t none
  | skips {req : Request C} {t' : τ} : s.clk ≤ e.clk →
      translate e.request t = some (false, req, t') →
      TickCases translate accept s t e (s.countAccess e.addr).nextEntry t' none
  | accepted {req : Request C} {t' : τ} : s.clk ≤ e.clk → accept = true →
      translate e.request t = some (true, req, t') →
      TickCases translate accept s t e (s.countAccess e.addr).nextEntry.nextClock t'
        (some ⟨req, true⟩)
  | refused {req : Request C} {t' : τ} : s.clk ≤ e.clk → accept = false →
      translate e.request t = some (true, req, t') →
      TickCases translate accept s t e (s.countAccess e.addr) t' (some ⟨req, false⟩)

theorem tick_cases {translate : Translate C τ} {accept : Bool} {s s' : CustomTrace2} {t t' : τ}
    {attempt : Option (Attempt C)} (h : s.tick translate accept t = some (s', t', attempt)) :
    ∃ e, s.curr = some e ∧ TickCases translate accept s t e s' t' attempt := by
  unfold tick at h
  split at h
  · cases h
  rename_i e he
  refine ⟨e, he, ?_⟩
  split at h
  · rename_i hpast
    cases h
    exact .waits hpast
  rename_i hnow
  have hclk : s.clk ≤ e.clk := Nat.le_of_not_lt hnow
  dsimp only at h
  split at h
  · cases h
  · rename_i htranslate
    cases h
    exact .skips hclk htranslate
  · rename_i htranslate
    cases haccept : accept with
    | true =>
      rw [haccept] at h
      cases h
      exact .accepted hclk rfl htranslate
    | false =>
      rw [haccept] at h
      cases h
      exact .refused hclk rfl htranslate

@[simp] theorem nextClock_trace : s.nextClock.trace = s.trace := by
  unfold nextClock
  split <;> rfl

@[simp] theorem nextClock_currTraceIdx : s.nextClock.currTraceIdx = s.currTraceIdx := by
  unfold nextClock
  split <;> rfl

theorem nextClock_clk_of_curr {s : CustomTrace2} {next : TraceEntry} (h : s.curr = some next) :
    s.nextClock.clk = if next.clk = s.clk then s.clk else s.clk + 1 := by
  unfold nextClock
  rw [h]
  by_cases hsame : next.clk = s.clk <;> simp [hsame]

end CustomTrace2

/-! ## Runs -/

/-- The frontend, its translation, and the accepted entries in the order of their acceptance, each
with the clock at which it was accepted. -/
structure TraceRun (τ : Type) where
  front : CustomTrace2
  translation : τ
  accepted : List (TraceEntry × ℕ) := []

namespace TraceRun

def acceptedBy (front : CustomTrace2) : Option (Attempt C) → List (TraceEntry × ℕ)
  | some ⟨_, true⟩ => front.curr.toList.map fun e => (e, front.clk)
  | _ => []

variable (translate : Translate C τ) (entries : List TraceEntry)

def step (s : TraceRun τ) (accept : Bool) : Option (TraceRun τ) :=
  match s.front.tick translate accept s.translation with
  | none => none
  | some (front, t, attempt) => some ⟨front, t, s.accepted ++ acceptedBy s.front attempt⟩

def machine (t : τ) :
    Machine (TraceRun τ) Bool where
  init := { front := { trace := entries }, translation := t }
  step := step translate

/-- The entries were accepted in trace order, none before its clock, and if the next entry is due,
every cycle offers it. -/
structure OnTime (translate : Translate C τ) (entries : List TraceEntry) (s : TraceRun τ) : Prop where
  order : s.accepted.map Prod.fst = entries.take s.front.currTraceIdx
  notBefore : ∀ a ∈ s.accepted, a.1.clk ≤ a.2
  offered : ∀ e, s.front.curr = some e → e.clk ≤ s.front.clk → ∀ accept front t attempt,
    s.front.tick translate accept s.translation = some (front, t, attempt) →
    ∃ req, translate e.request s.translation = some (true, req, t) ∧ attempt = some ⟨req, accept⟩

/-- The trace starts at clock 0 and has an entry for every clock up to its last one. -/
def Dense : Prop :=
  (∀ e, entries[0]? = some e → e.clk = 0) ∧
    ∀ i e e', entries[i]? = some e → entries[i + 1]? = some e' → e'.clk ≤ e.clk + 1

def Succeeds : Prop :=
  ∀ req t, ∃ req' t', translate req t = some (true, req', t')

theorem Succeeds.ne_false {translate : Translate C τ} (h : Succeeds translate) {req req' : Request C}
    {t t' : τ} : translate req t ≠ some (false, req', t') := by
  intro hfalse
  obtain ⟨req'', t'', htrue⟩ := h req t
  rw [hfalse] at htrue
  cases htrue

theorem acceptedBy_accepted {front : CustomTrace2} {e : TraceEntry} (he : front.curr = some e)
    (req : Request C) : acceptedBy front (some ⟨req, true⟩) = [(e, front.clk)] := by
  rw [acceptedBy, he]
  rfl

section

variable {translate : Translate C τ} {entries : List TraceEntry} {t : τ} {s s' : TraceRun τ}

/-- What a run of a dense trace keeps: the next entry has the clock of the frontend. -/
structure InStep (entries : List TraceEntry) (s : TraceRun τ) : Prop where
  trace_eq : s.front.trace = entries
  order : s.accepted.map Prod.fst = entries.take s.front.currTraceIdx
  notBefore : ∀ a ∈ s.accepted, a.1.clk ≤ a.2
  now : ∀ e, s.front.curr = some e → e.clk = s.front.clk

variable (hsorted : entries.Pairwise fun e e' => e.clk ≤ e'.clk)
include hsorted

theorem le_of_sorted {i : ℕ} {e e' : TraceEntry} (he : entries[i]? = some e)
    (he' : entries[i + 1]? = some e') : e.clk ≤ e'.clk := by
  obtain ⟨hi, rfl⟩ := List.getElem?_eq_some_iff.mp he
  obtain ⟨hi', rfl⟩ := List.getElem?_eq_some_iff.mp he'
  exact List.pairwise_iff_getElem.mp hsorted i (i + 1) hi hi' (Nat.lt_succ_self i)

theorem clk_eq_nextClock (hdense : Dense entries) {front : CustomTrace2}
    (htrace : front.trace = entries) {e e' : TraceEntry} (he : front.curr = some e)
    (hnow : e.clk = front.clk) (he' : (front.countAccess e.addr).nextEntry.nextClock.curr = some e') :
    e'.clk = (front.countAccess e.addr).nextEntry.nextClock.clk := by
  have hnext : (front.countAccess e.addr).nextEntry.curr = some e' := by
    unfold CustomTrace2.curr at he' ⊢
    rw [CustomTrace2.nextClock_trace, CustomTrace2.nextClock_currTraceIdx] at he'
    exact he'
  have hget : entries[front.currTraceIdx]? = some e := by
    rw [← htrace]
    exact he
  have hget' : entries[front.currTraceIdx + 1]? = some e' := by
    rw [← htrace]
    exact hnext
  have hle := le_of_sorted hsorted hget hget'
  have hlt := hdense.2 _ e e' hget hget'
  rw [CustomTrace2.nextClock_clk_of_curr hnext]
  show e'.clk = if e'.clk = front.clk then front.clk else front.clk + 1
  split <;> omega

theorem InStep.step (hdense : Dense entries) (hsucceeds : Succeeds translate) (h : InStep entries s)
    {accept : Bool} (hstep : s.step translate accept = some s') : InStep entries s' := by
  unfold TraceRun.step at hstep
  split at hstep
  · cases hstep
  rename_i front t' attempt htick
  cases hstep
  obtain ⟨e, he, hcases⟩ := CustomTrace2.tick_cases htick
  have hnow := h.now e he
  have hget : entries[s.front.currTraceIdx]? = some e := by
    rw [← h.trace_eq]
    exact he
  cases hcases with
  | waits hpast => omega
  | skips _ htranslate => exact absurd htranslate hsucceeds.ne_false
  | refused =>
    refine ⟨h.trace_eq, ?_, ?_, h.now⟩
    · show (s.accepted ++ []).map Prod.fst = _
      rw [append_nil]
      exact h.order
    · show ∀ a ∈ s.accepted ++ [], _
      rw [append_nil]
      exact h.notBefore
  | accepted =>
    rw [acceptedBy_accepted he]
    refine ⟨?_, ?_, ?_, ?_⟩
    · rw [CustomTrace2.nextClock_trace]
      exact h.trace_eq
    · rw [map_append, h.order, CustomTrace2.nextClock_currTraceIdx]
      show _ = entries.take (s.front.currTraceIdx + 1)
      rw [take_add_one, hget]
      rfl
    · intro a ha
      rcases mem_append.mp ha with ha | ha
      · exact h.notBefore a ha
      · rw [mem_singleton.mp ha]
        exact Nat.le_of_eq hnow
    · intro e' he'
      exact clk_eq_nextClock hsorted hdense h.trace_eq he hnow he'

omit hsorted in
theorem InStep.onTime (hsucceeds : Succeeds translate) (h : InStep entries s) :
    OnTime translate entries s := by
  refine ⟨h.order, h.notBefore, ?_⟩
  intro e he _ accept front t attempt htick
  obtain ⟨e', he', hcases⟩ := CustomTrace2.tick_cases htick
  obtain rfl : e = e' := Option.some.inj (he.symm.trans he')
  have hnow := h.now e he
  cases hcases with
  | waits hpast => omega
  | skips _ htranslate => exact absurd htranslate hsucceeds.ne_false
  | accepted _ haccept htranslate =>
    rw [haccept]
    exact ⟨_, htranslate, rfl⟩
  | refused _ haccept htranslate =>
    rw [haccept]
    exact ⟨_, htranslate, rfl⟩

omit hsorted in
theorem accept_now (hsucceeds : Succeeds translate) (h : (machine translate entries t).Reachable s)
    {e : TraceEntry} (he : s.front.curr = some e) (hclk : s.front.clk ≤ e.clk) :
    ∃ s', (machine translate entries t).Reachable s' ∧
      s'.front = (s.front.countAccess e.addr).nextEntry.nextClock ∧
      (e, s.front.clk) ∈ s'.accepted := by
  obtain ⟨req, t', htranslate⟩ := hsucceeds e.request s.translation
  have htick : s.front.tick translate true s.translation =
      some ((s.front.countAccess e.addr).nextEntry.nextClock, t', some ⟨req, true⟩) := by
    unfold CustomTrace2.tick
    rw [he]
    dsimp only
    rw [if_neg (Nat.not_lt.mpr hclk), htranslate]
    rfl
  refine ⟨⟨(s.front.countAccess e.addr).nextEntry.nextClock, t', s.accepted ++ [(e, s.front.clk)]⟩,
    .next (i := true) h trivial ?_, rfl, ?_⟩
  · show s.step translate true = _
    simp only [TraceRun.step, htick, acceptedBy_accepted he]
  · exact mem_append_right _ mem_cons_self

structure AtEntry (entries : List TraceEntry) (i : ℕ) (e : TraceEntry) (front : CustomTrace2) : Prop where
  trace_eq : front.trace = entries
  idx : front.currTraceIdx = i
  curr : front.curr = some e
  now : front.clk = e.clk

variable (hsucceeds : Succeeds translate)
  (hontime : ∀ s, (machine translate entries t).Reachable s → OnTime translate entries s)
include hsucceeds hontime

omit hsorted in
theorem atEntry_zero {e : TraceEntry} (he : entries[0]? = some e) :
    AtEntry entries 0 e (machine translate entries t).init.front := by
  obtain ⟨s', hs', -, hmem⟩ := accept_now (t := t) hsucceeds .start he (Nat.zero_le _)
  have hzero : e.clk ≤ 0 := (hontime s' hs').notBefore _ hmem
  exact ⟨rfl, rfl, he, (Nat.le_zero.mp hzero).symm⟩

theorem AtEntry.next (hs : (machine translate entries t).Reachable s) {i : ℕ} {e e' : TraceEntry}
    (h : AtEntry entries i e s.front) (he' : entries[i + 1]? = some e') :
    e'.clk ≤ e.clk + 1 ∧
      ∃ s', (machine translate entries t).Reachable s' ∧ AtEntry entries (i + 1) e' s'.front := by
  obtain ⟨htrace, rfl, hcurr, hnow⟩ := h
  subst htrace
  obtain ⟨s', hs', hfront, -⟩ := accept_now hsucceeds hs hcurr (Nat.le_of_eq hnow)
  have hcurr' : s'.front.curr = some e' := by
    unfold CustomTrace2.curr
    rw [hfront, CustomTrace2.nextClock_trace, CustomTrace2.nextClock_currTraceIdx]
    exact he'
  have hclk' : s'.front.clk = if e'.clk = s.front.clk then s.front.clk else s.front.clk + 1 := by
    rw [hfront]
    exact CustomTrace2.nextClock_clk_of_curr he'
  have hle := le_of_sorted hsorted hcurr he'
  have hsoon : s'.front.clk ≤ e'.clk := by
    rw [hclk']
    split <;> omega
  obtain ⟨s'', hs'', -, hmem⟩ := accept_now hsucceeds hs' hcurr' hsoon
  have hnot : e'.clk ≤ s'.front.clk := (hontime s'' hs'').notBefore _ hmem
  refine ⟨?_, s', hs', ?_, ?_, hcurr', by omega⟩
  · split at hclk' <;> omega
  · rw [hfront, CustomTrace2.nextClock_trace]
    rfl
  · rw [hfront, CustomTrace2.nextClock_currTraceIdx]
    rfl

theorem reaches_entry (i : ℕ) {e : TraceEntry} (he : entries[i]? = some e) :
    ∃ s, (machine translate entries t).Reachable s ∧ AtEntry entries i e s.front := by
  induction i generalizing e with
  | zero => exact ⟨_, .start, atEntry_zero hsucceeds hontime he⟩
  | succ i ih =>
    obtain ⟨hi, -⟩ := List.getElem?_eq_some_iff.mp he
    have hprev : entries[i]? = some entries[i] := List.getElem?_eq_getElem (by omega)
    obtain ⟨s, hs, hentry⟩ := ih hprev
    exact (hentry.next hsorted hsucceeds hontime hs he).2

end

/-- **A trace is replayed in time exactly when it has no gap**: entries are accepted in order, none
before its clock, and one that is due is offered in every cycle, if and only if the trace starts at
clock 0 and skips no clock. -/
theorem replay_on_time_iff (translate : Translate C τ) (entries : List TraceEntry) (t : τ)
    (hsorted : entries.Pairwise fun e e' => e.clk ≤ e'.clk) (hsucceeds : Succeeds translate) :
    (∀ s, (machine translate entries t).Reachable s → OnTime translate entries s) ↔ Dense entries := by
  constructor
  · intro hontime
    refine ⟨?_, ?_⟩
    · intro e he
      exact (atEntry_zero hsucceeds hontime he).now.symm
    · intro i e e' he he'
      obtain ⟨s, hs, hentry⟩ := reaches_entry hsorted hsucceeds hontime i he
      exact (hentry.next hsorted hsucceeds hontime hs he').1
  · intro hdense s h
    refine InStep.onTime hsucceeds ?_
    refine h.invariant (P := InStep entries) ⟨rfl, rfl, forall_mem_nil _, ?_⟩ ?_
    · intro e he
      exact hdense.1 e he
    · intro s accept s' hs _ hstep
      exact hs.step hsorted hdense hsucceeds hstep

def passThrough : Translate Unit Unit := fun req t => some (true, req, t)

theorem passThrough_succeeds : Succeeds passThrough := fun req t => ⟨req, t, rfl⟩

def readAt (clk : ℕ) : TraceEntry := { clk := clk, isWrite := false, addr := 0, sourceId := 0 }

theorem dense_readAt_zero_one : Dense [readAt 0, readAt 1] := by
  refine ⟨?_, ?_⟩
  · intro e he
    cases he
    rfl
  · intro i e e' he he'
    match i with
    | 0 =>
      cases he
      cases he'
      exact le_rfl
    | i + 1 => cases he'

/-- Entries of clocks 0 and 1 are accepted at their clocks. -/
theorem consecutive_reads_on_time :
    ∃ s, (machine passThrough [readAt 0, readAt 1] ()).Reachable s ∧
      s.accepted = [(readAt 0, 0), (readAt 1, 1)] ∧
      OnTime passThrough [readAt 0, readAt 1] s := by
  obtain ⟨s, hreach, haccepted⟩ := Machine.exists_reachable
    (m := machine passThrough [readAt 0, readAt 1] ())
    (P := fun s => s.accepted = [(readAt 0, 0), (readAt 1, 1)]) [false, true, true] (by decide +kernel)
  exact ⟨s, hreach, haccepted, (replay_on_time_iff passThrough [readAt 0, readAt 1] ()
    (by decide) passThrough_succeeds).mpr dense_readAt_zero_one s hreach⟩

/-- **An entry of the future is accepted at once**: the entry of clock 5 at clock 0. -/
theorem future_entry_accepted_at_once :
    ∃ s, (machine passThrough [readAt 5] ()).Reachable s ∧ s.accepted = [(readAt 5, 0)] :=
  Machine.exists_reachable [true] (by decide +kernel)

end TraceRun

end MultiCoreMemory
