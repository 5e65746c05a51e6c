import MultiCoreMemory.Base.Request
import MultiCoreMemory.Base.Utils
import MultiCoreMemory.Lib.Machine
import MultiCoreMemory.Lib.UnorderedMap

/-!
# The random baselines `RandomTranslation` and `RandomTranslation2`

Both give a page a random frame on its first touch and, once the counter of free frames is zero,
a random frame that was handed out before.  The first keeps one table a core, the second one table.

A call that uses up its list of random values has not returned (`none`), nor has one that draws
from a memory without pages or for a core that does not exist.
-/

namespace MultiCoreMemory

open Option

/-- Configuration read by `init`, and the number of cores of the frontend. -/
structure RandomConfig where
  maxPaddr : ℕ
  pagesizeKB : ℕ := 4
  numCores : ℕ := 1

namespace RandomConfig

variable (cfg : RandomConfig)

def pagesize : ℕ := cfg.pagesizeKB * 2 ^ 10

def offsetbits : ℕ := calcLog2 cfg.pagesize

def numPages : ℕ := cfg.maxPaddr / cfg.pagesize

def pageOf (addr : ℤ) : ℤ := addr / 2 ^ cfg.offsetbits

def physAddr (ppn : ℕ) (addr : ℤ) : ℤ := ppn * 2 ^ cfg.offsetbits + addr % 2 ^ cfg.offsetbits

end RandomConfig

/-- Draw `m_allocator_rng() % m_num_pages` again while the drawn page is to be skipped. -/
def drawPage (numPages : ℕ) (skip : ℕ → Bool) : List ℕ → Option ℕ
  | [] => none
  | d :: ds =>
    if numPages = 0 then none
    else if skip (d % numPages) then drawPage numPages skip ds
    else some (d % numPages)

theorem drawPage_spec {numPages p : ℕ} {skip : ℕ → Bool} {draws : List ℕ}
    (h : drawPage numPages skip draws = some p) : p < numPages ∧ skip p = false := by
  induction draws with
  | nil => cases h
  | cons d ds ih =>
    unfold drawPage at h
    split at h
    · cases h
    rename_i hpos
    split at h
    · exact ih h
    · rename_i hskip
      cases h
      exact ⟨Nat.mod_lt _ (Nat.pos_of_ne_zero hpos), by simpa using hskip⟩

/-- The frames the loop of a replacement skips. -/
def isReserved (reserved : Finset ℤ) (p : ℕ) : Bool := decide ((p : ℤ) ∈ reserved)

/-- The frames the loop of an assignment skips. -/
def isUnavailable (reserved : Finset ℤ) (free : ℕ → Bool) (p : ℕ) : Bool :=
  isReserved reserved p || !free p

inductive RandomCall (C : Type) where
  | reserve (addr : ℤ)
  | translate (req : Request C) (draws : List ℕ)

variable {C : Type}

/-! ## `RandomTranslation` -/

structure RandomTranslation where
  freePhysicalPages : ℕ → Bool := fun _ => true
  numFreePhysicalPages : ℕ
  translation : List (UnorderedMap ℤ ℕ)
  reservedPages : Finset ℤ := ∅

namespace RandomTranslation

variable (cfg : RandomConfig)

def create : RandomTranslation where
  numFreePhysicalPages := cfg.numPages
  translation := List.replicate cfg.numCores ∅

variable (s : RandomTranslation) (core : ℕ) (coreTranslation : UnorderedMap ℤ ℕ) (vpn : ℤ)

def replace (ppn : ℕ) : RandomTranslation :=
  { s with translation := s.translation.set core (coreTranslation.insert vpn ppn) }

/-- The page gets a frame, which is counted as taken; the bitmap is not updated. -/
def assign (ppn : ℕ) : RandomTranslation :=
  { s with
    translation := s.translation.set core (coreTranslation.insert vpn ppn)
    numFreePhysicalPages := s.numFreePhysicalPages - 1 }

def resolve (draws : List ℕ) : Option (ℕ × RandomTranslation) :=
  match s.translation[core]? with
  | none => none
  | some coreTranslation =>
    match coreTranslation.lookup vpn with
    | some ppn => some (ppn, s)
    | none =>
      if s.numFreePhysicalPages = 0 then
        (drawPage cfg.numPages (isReserved s.reservedPages) draws).map
          fun ppn => (ppn, s.replace core coreTranslation vpn ppn)
      else
        (drawPage cfg.numPages (isUnavailable s.reservedPages s.freePhysicalPages) draws).map
          fun ppn => (ppn, s.assign core coreTranslation vpn ppn)

/-- `translate`; the virtual address is not entered in the request. -/
def translate (req : Request C) (draws : List ℕ) : Option (Request C × RandomTranslation) :=
  if req.sourceId < 0 then none
  else
    (s.resolve cfg req.sourceId.toNat (cfg.pageOf req.addr) draws).map fun r =>
      ({ req with addr := cfg.physAddr r.1 req.addr }, r.2)

def reserve (addr : ℤ) : RandomTranslation :=
  { s with reservedPages := insert (cfg.pageOf addr) s.reservedPages }

def step : RandomCall C → Option RandomTranslation
  | .reserve addr => some (s.reserve cfg addr)
  | .translate req draws => (s.translate cfg req draws).map Prod.snd

def machine (C : Type) (cfg : RandomConfig) : Machine RandomTranslation (RandomCall C) where
  init := create cfg
  step := step cfg

/-- **What a call does**: it reserves a page, leaves the tables alone, takes over a frame when none
is left, or assigns the first frame drawn that is not skipped. -/
inductive StepCases (s : RandomTranslation) : RandomCall C → RandomTranslation → Prop
  | reserve (addr : ℤ) : StepCases s (.reserve addr) (s.reserve cfg addr)
  | found {req : Request C} {draws : List ℕ} : StepCases s (.translate req draws) s
  | replaced {req : Request C} {draws : List ℕ} {table : UnorderedMap ℤ ℕ} {ppn : ℕ} :
      s.translation[req.sourceId.toNat]? = some table →
      table.lookup (cfg.pageOf req.addr) = none → s.numFreePhysicalPages = 0 →
      StepCases s (.translate req draws)
        (s.replace req.sourceId.toNat table (cfg.pageOf req.addr) ppn)
  | assigned {req : Request C} {draws : List ℕ} {table : UnorderedMap ℤ ℕ} {ppn : ℕ} :
      s.translation[req.sourceId.toNat]? = some table →
      table.lookup (cfg.pageOf req.addr) = none → s.numFreePhysicalPages ≠ 0 →
      drawPage cfg.numPages (isUnavailable s.reservedPages s.freePhysicalPages) draws = some ppn →
      StepCases s (.translate req draws)
        (s.assign req.sourceId.toNat table (cfg.pageOf req.addr) ppn)

theorem step_cases {cfg : RandomConfig} {s s' : RandomTranslation} {call : RandomCall C}
    (h : s.step cfg call = some s') : StepCases cfg s call s' := by
  cases call with
  | reserve addr =>
    cases h
    exact .reserve addr
  | translate req draws =>
    obtain ⟨⟨req', s₁⟩, ht, rfl⟩ := map_eq_some_iff.mp h
    unfold translate at ht
    split at ht
    · cases ht
    obtain ⟨⟨ppn, s₂⟩, hresolve, heq⟩ := map_eq_some_iff.mp ht
    cases heq
    unfold resolve at hresolve
    split at hresolve
    · cases hresolve
    rename_i table htable
    split at hresolve
    · cases hresolve
      exact .found
    rename_i hl
    split at hresolve
    · rename_i h0
      obtain ⟨p, -, heq⟩ := map_eq_some_iff.mp hresolve
      cases heq
      exact .replaced htable hl h0
    · rename_i h0
      obtain ⟨p, hdraw, heq⟩ := map_eq_some_iff.mp hresolve
      cases heq
      exact .assigned htable hl h0 hdraw

end RandomTranslation

/-! ## `RandomTranslation2` -/

structure RandomTranslation2 where
  freePhysicalPages : ℕ → Bool := fun _ => true
  numFreePhysicalPages : ℕ
  reservedPages : Finset ℤ := ∅
  globalPageTable : UnorderedMap ℤ ℕ := ∅

namespace RandomTranslation2

variable (cfg : RandomConfig)

def create : RandomTranslation2 where
  numFreePhysicalPages := cfg.numPages

variable (s : RandomTranslation2) (vpn : ℤ)

/-- A new page takes over a frame: the page it belonged to keeps its entry. -/
def replace (ppn : ℕ) : RandomTranslation2 :=
  { s with globalPageTable := s.globalPageTable.insert vpn ppn }

def assign (ppn : ℕ) : RandomTranslation2 :=
  { s with
    globalPageTable := s.globalPageTable.insert vpn ppn
    numFreePhysicalPages := s.numFreePhysicalPages - 1
    freePhysicalPages := Function.update s.freePhysicalPages ppn false }

def resolve (draws : List ℕ) : Option (ℕ × RandomTranslation2) :=
  match s.globalPageTable.lookup vpn with
  | some ppn => some (ppn, s)
  | none =>
    if s.numFreePhysicalPages = 0 then
      (drawPage cfg.numPages (isReserved s.reservedPages) draws).map
        fun ppn => (ppn, s.replace vpn ppn)
    else
      (drawPage cfg.numPages (isUnavailable s.reservedPages s.freePhysicalPages) draws).map
        fun ppn => (ppn, s.assign vpn ppn)

/-- It marks the frame; a frame that is taken over stays in the table under its old page. -/
def translate (req : Request C) (draws : List ℕ) : Option (Request C × RandomTranslation2) :=
  (s.resolve cfg (cfg.pageOf req.addr) draws).map fun r =>
    ({ req with
      vAddr := req.addr
      vpage := cfg.pageOf req.addr
      addr := cfg.physAddr r.1 req.addr }, r.2)

def reserve (addr : ℤ) : RandomTranslation2 :=
  { s with reservedPages := insert (cfg.pageOf addr) s.reservedPages }

def step : RandomCall C → Option RandomTranslation2
  | .reserve addr => some (s.reserve cfg addr)
  | .translate req draws => (s.translate cfg req draws).map Prod.snd

def machine (C : Type) (cfg : RandomConfig) : Machine RandomTranslation2 (RandomCall C) where
  init := create cfg
  step := step cfg

/-- **What a call does**: it reserves a page, leaves the table alone, takes over a frame when none is
left, or assigns a free one. -/
inductive StepCases (s : RandomTranslation2) : RandomCall C → RandomTranslation2 → Prop
  | reserve (addr : ℤ) : StepCases s (.reserve addr) (s.reserve cfg addr)
  | found {req : Request C} {draws : List ℕ} {ppn : ℕ} :
      s.globalPageTable.lookup (cfg.pageOf req.addr) = some ppn →
      StepCases s (.translate req draws) s
  | replaced {req : Request C} {draws : List ℕ} {ppn : ℕ} :
      s.globalPageTable.lookup (cfg.pageOf req.addr) = none → s.numFreePhysicalPages = 0 →
      ppn < cfg.numPages → (ppn : ℤ) ∉ s.reservedPages →
      StepCases s (.translate req draws) (s.replace (cfg.pageOf req.addr) ppn)
  | assigned {req : Request C} {draws : List ℕ} {ppn : ℕ} :
      s.globalPageTable.lookup (cfg.pageOf req.addr) = none → s.numFreePhysicalPages ≠ 0 →
      ppn < cfg.numPages → (ppn : ℤ) ∉ s.reservedPages → s.freePhysicalPages ppn = true →
      StepCases s (.translate req draws) (s.assign (cfg.pageOf req.addr) ppn)

theorem step_cases {cfg : RandomConfig} {s s' : RandomTranslation2} {call : RandomCall C}
    (h : s.step cfg call = some s') : StepCases cfg s call s' := by
  cases call with
  | reserve addr =>
    cases h
    exact .reserve addr
  | translate req draws =>
    simp only [step, translate, Option.map_map, map_eq_some_iff] at h
    obtain ⟨⟨ppn, s₁⟩, hresolve, rfl⟩ := h
    unfold resolve at hresolve
    split at hresolve
    · rename_i hl
      cases hresolve
      exact .found hl
    rename_i hl
    split at hresolve
    · rename_i h0
      obtain ⟨p, hdraw, heq⟩ := map_eq_some_iff.mp hresolve
      cases heq
      obtain ⟨hlt, hskip⟩ := drawPage_spec hdraw
      exact .replaced hl h0 hlt (by simpa [isReserved] using hskip)
    · rename_i h0
      obtain ⟨p, hdraw, heq⟩ := map_eq_some_iff.mp hresolve
      cases heq
      obtain ⟨hlt, hskip⟩ := drawPage_spec hdraw
      simp only [isUnavailable, isReserved, Bool.or_eq_false_iff, decide_eq_false_iff_not,
        Bool.not_eq_false'] at hskip
      exact .assigned hl h0 hlt hskip.1 hskip.2

end RandomTranslation2

end MultiCoreMemory
