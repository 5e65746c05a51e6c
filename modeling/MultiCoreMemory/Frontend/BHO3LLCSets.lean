import Mathlib.Data.List.Nodup
import MultiCoreMemory.Frontend.BHO3LLC

/-!
# Sets and MSHR entries of the BHO3 cache
-/

namespace MultiCoreMemory

open List Option Function

namespace BHO3LLC

variable {p : BHO3Params} {s s' : BHO3LLC} {i addr nodes : ℕ} {touched : List ℕ} {set set' : List Line}

/-! ## One set -/

/-- A set of the cache, given the lines touched so far and the number of list nodes handed out. -/
structure SetWf (p : BHO3Params) (touched : List ℕ) (nodes i : ℕ) (set : List Line) : Prop where
  size : set.length ≤ p.associativity
  tags : set.Pairwise fun l l' => l.tag ≠ l'.tag
  home : ∀ l ∈ set, p.getIndex l.addr = i ∧ p.getTag l.addr = l.tag
  fresh : ∀ l ∈ set, l.node < nodes
  apart : set.Pairwise fun l l' => l.node ≠ l'.node
  recent : set.Pairwise fun l l' =>
    touched.idxOf (p.align l'.addr) < touched.idxOf (p.align l.addr)

namespace SetWf

theorem nil : SetWf p touched nodes i [] where
  size := Nat.zero_le _
  tags := .nil
  home := forall_mem_nil _
  fresh := forall_mem_nil _
  apart := .nil
  recent := .nil

variable {l : Line}

section

variable (h : SetWf p touched nodes i set)
include h

theorem align_eq_iff (hl : l ∈ set) :
    p.align l.addr = p.align addr ↔ i = p.getIndex addr ∧ l.tag = p.getTag addr := by
  rw [p.align_eq_iff, (h.home l hl).1, (h.home l hl).2]

theorem eq_of_tag {l' : Line} (hl : l ∈ set) (hl' : l' ∈ set) (htag : l.tag = l'.tag) : l = l' :=
  inj_on_of_nodup_map (pairwise_map.mpr h.tags) hl hl' htag

theorem eq_of_node {l' : Line} (hl : l ∈ set) (hl' : l' ∈ set) (hnode : l.node = l'.node) :
    l = l' :=
  inj_on_of_nodup_map (pairwise_map.mpr h.apart) hl hl' hnode

theorem sublist (hsub : set'.Sublist set) : SetWf p touched nodes i set' where
  size := hsub.length_le.trans h.size
  tags := h.tags.sublist hsub
  home l hl := h.home l (hsub.subset hl)
  fresh l hl := h.fresh l (hsub.subset hl)
  apart := h.apart.sublist hsub
  recent := h.recent.sublist hsub

theorem map {f : Line → Line}
    (hf : ∀ l, (f l).addr = l.addr ∧ (f l).tag = l.tag ∧ (f l).node = l.node) :
    SetWf p touched nodes i (set.map f) where
  size := by simpa using h.size
  tags := by simpa only [pairwise_map, hf] using h.tags
  home := by simpa only [List.forall_mem_map, hf] using h.home
  fresh := by simpa only [List.forall_mem_map, hf] using h.fresh
  apart := by simpa only [pairwise_map, hf] using h.apart
  recent := by simpa only [pairwise_map, hf] using h.recent

theorem touch {a : ℕ} (hother : ∀ l ∈ set, p.align l.addr ≠ a) :
    SetWf p (a :: touched) (nodes + 1) i set where
  size := h.size
  tags := h.tags
  home := h.home
  fresh l hl := (h.fresh l hl).trans (Nat.lt_succ_self _)
  apart := h.apart
  recent := by
    refine h.recent.imp_of_mem ?_
    intro l l' hl hl' hlt
    rw [idxOf_cons_ne _ (hother l hl).symm, idxOf_cons_ne _ (hother l' hl').symm]
    exact Nat.succ_lt_succ hlt

end

theorem pushBack (h : SetWf p touched nodes (p.getIndex addr) set)
    (hnew : ∀ l ∈ set, l.tag ≠ p.getTag addr) (hfree : set.length < p.associativity)
    (dirty ready : Bool) :
    SetWf p (p.align addr :: touched) (nodes + 1) (p.getIndex addr)
      (set ++ [{ addr, tag := p.getTag addr, dirty, ready, node := nodes }]) := by
  have hother : ∀ l ∈ set, p.align l.addr ≠ p.align addr := fun l hl heq =>
    hnew l hl ((h.align_eq_iff hl).mp heq).2
  have ht := h.touch hother
  constructor
  · simpa using Nat.succ_le_of_lt hfree
  · refine pairwise_append.mpr ⟨ht.tags, pairwise_singleton _ _, ?_⟩
    simpa using hnew
  · intro l hl
    rcases mem_append.mp hl with hl | hl
    · exact ht.home l hl
    · rw [mem_singleton.mp hl]
      exact ⟨rfl, rfl⟩
  · intro l hl
    rcases mem_append.mp hl with hl | hl
    · exact ht.fresh l hl
    · rw [mem_singleton.mp hl]
      exact Nat.lt_succ_self _
  · refine pairwise_append.mpr ⟨ht.apart, pairwise_singleton _ _, ?_⟩
    intro l hl l' hl'
    rw [mem_singleton.mp hl']
    exact (h.fresh l hl).ne
  · refine pairwise_append.mpr ⟨ht.recent, pairwise_singleton _ _, ?_⟩
    intro l hl l' hl'
    rw [mem_singleton.mp hl', idxOf_cons_self, idxOf_cons_ne _ (hother l hl).symm]
    exact Nat.succ_pos _

end SetWf

theorem addAllocated_eq (s : BHO3LLC) (req : LLCRequest) (n : ℤ) :
    s.addAllocated req n = { s with
      allocatedMshrs := fun core => s.allocatedMshrs core + if req.source = some core then n else 0 } := by
  unfold addAllocated
  cases hsource : req.source with
  | none => simp
  | some source =>
    simp only [BHO3LLC.mk.injEq, true_and, and_true]
    funext core
    by_cases hcore : core = source
    · simp [hcore]
    · simp [hcore, Ne.symm hcore]

/-! ## The cache -/

def Filling (s : BHO3LLC) (m : MSHREntry) : Prop :=
  ∃ l ∈ s.sets m.line.set, l.node = m.line.node ∧ l.ready = false ∧ l.addr = m.addr

/-- Every set is well-formed, and the MSHR entries are exactly the lines that are being filled. -/
structure Wf (p : BHO3Params) (s : BHO3LLC) : Prop where
  sets : ∀ i, SetWf p s.touched s.nodes i (s.sets i)
  lines : s.mshrs.Pairwise fun m m' => p.align m.addr ≠ p.align m'.addr
  fills : ∀ m, m ∈ s.mshrs ↔ s.Filling m
  room : s.mshrs.length ≤ p.numMshrs

variable {line l : Line} {m : MSHREntry} {req : LLCRequest}

section

variable (h : Wf p s)

include h

theorem checkSetHit_eq_some :
    checkSetHit p (s.sets (p.getIndex addr)) addr = some line ↔
      line ∈ s.sets (p.getIndex addr) ∧ line.tag = p.getTag addr ∧ line.ready = true := by
  simp only [checkSetHit, filter_eq_some_iff]
  constructor
  · rintro ⟨hfind, hready⟩
    exact ⟨mem_of_find?_eq_some hfind, by simpa using find?_some hfind, hready⟩
  · rintro ⟨hmem, htag, hready⟩
    refine ⟨?_, hready⟩
    cases hfind : (s.sets (p.getIndex addr)).find? fun l => l.tag = p.getTag addr with
    | none => exact absurd htag (by simpa using find?_eq_none.mp hfind line hmem)
    | some l =>
      have hl : l.tag = p.getTag addr := by simpa using find?_some hfind
      rw [(h.sets _).eq_of_tag (mem_of_find?_eq_some hfind) hmem (hl.trans htag.symm)]

theorem Wf.mshr_eq {m' : MSHREntry} (hm : m ∈ s.mshrs) (hm' : m' ∈ s.mshrs)
    (hline : p.align m.addr = p.align m'.addr) : m = m' :=
  inj_on_of_nodup_map (f := fun m => p.align m.addr) (pairwise_map.mpr h.lines) hm hm' hline

theorem checkMshrHit_eq_some :
    s.checkMshrHit p addr = some m ↔ m ∈ s.mshrs ∧ p.align m.addr = p.align addr := by
  constructor
  · intro hfind
    exact ⟨mem_of_find?_eq_some hfind, by simpa using find?_some hfind⟩
  · rintro ⟨hmem, hline⟩
    cases hfind : s.checkMshrHit p addr with
    | none => exact absurd hline (by simpa using find?_eq_none.mp hfind m hmem)
    | some m' =>
      have hline' : p.align m'.addr = p.align addr := by simpa using find?_some hfind
      rw [h.mshr_eq (mem_of_find?_eq_some hfind) hmem (hline'.trans hline.symm)]

/-! ## Updates of a well-formed cache -/

omit h in
theorem Wf.init : Wf p {} where
  sets _ := .nil
  lines := .nil
  fills m := by simp [Filling]
  room := Nat.zero_le _

omit h in
theorem filling_assign {it : Iterator} {f : Line → Line}
    (hf : ∀ l, (f l).addr = l.addr ∧ (f l).node = l.node ∧ (f l).ready = l.ready) (m : MSHREntry) :
    (s.assign it f).Filling m ↔ s.Filling m := by
  have hsame : ∀ l : Line, (if l.node = it.node then f l else l).addr = l.addr ∧
      (if l.node = it.node then f l else l).node = l.node ∧
      (if l.node = it.node then f l else l).ready = l.ready := by
    intro l
    split
    · exact hf l
    · exact ⟨rfl, rfl, rfl⟩
  by_cases hset : m.line.set = it.set
  · simp [Filling, assign, hset, hsame]
  · simp only [Filling, assign, update_of_ne hset]

theorem Wf.assign_sets (it : Iterator) {f : Line → Line}
    (hf : ∀ l, (f l).addr = l.addr ∧ (f l).tag = l.tag ∧ (f l).node = l.node) (i : ℕ) :
    SetWf p s.touched s.nodes i ((s.assign it f).sets i) := by
  revert i
  refine (forall_update_iff _ fun i set => SetWf p s.touched s.nodes i set).mpr
    ⟨(h.sets _).map ?_, fun i _ => h.sets i⟩
  intro l
  split
  · exact hf l
  · exact ⟨rfl, rfl, rfl⟩

theorem Wf.erase (hl : l ∈ s.sets i) (hready : l.ready = true) : Wf p (s.erase ⟨i, l.node⟩) where
  sets := (forall_update_iff _ fun i set => SetWf p s.touched s.nodes i set).mpr
    ⟨(h.sets i).sublist filter_sublist, fun i _ => h.sets i⟩
  lines := h.lines
  fills m := by
    rw [show (s.erase ⟨i, l.node⟩).mshrs = s.mshrs from rfl, h.fills m]
    by_cases hset : m.line.set = i
    · simp only [Filling, BHO3LLC.erase, hset, update_self, mem_filter]
      constructor
      · rintro ⟨l', hl', hnode, hfill, haddr⟩
        refine ⟨l', ⟨hl', ?_⟩, hnode, hfill, haddr⟩
        -- the line that goes is ready
        have hne : l'.node ≠ l.node := by
          intro heq
          rw [(h.sets i).eq_of_node hl' hl heq, hready] at hfill
          cases hfill
        simpa using hne
      · rintro ⟨l', ⟨hl', -⟩, hfill⟩
        exact ⟨l', hl', hfill⟩
    · simp only [Filling, BHO3LLC.erase, update_of_ne hset]
  room := h.room

theorem Wf.evictLine (hl : l ∈ s.sets i) (hready : l.ready = true) : Wf p (s.evictLine p i l) := by
  have he := h.erase hl hready
  unfold BHO3LLC.evictLine
  split
  · exact ⟨he.sets, he.lines, he.fills, he.room⟩
  · exact he

theorem Wf.pushBack_sets (hnew : ∀ l ∈ s.sets (p.getIndex addr), l.tag ≠ p.getTag addr)
    (hfree : (s.sets (p.getIndex addr)).length < p.associativity) (dirty ready : Bool) (i : ℕ) :
    SetWf p (p.align addr :: s.touched) (s.nodes + 1) i
      ((s.pushBack p (p.getIndex addr) addr dirty ready).sets i) := by
  revert i
  refine (forall_update_iff _
    fun i set => SetWf p (p.align addr :: s.touched) (s.nodes + 1) i set).mpr
    ⟨(h.sets _).pushBack hnew hfree dirty ready, ?_⟩
  intro i hi
  refine (h.sets i).touch ?_
  intro l hl heq
  exact hi (((h.sets i).align_eq_iff hl).mp heq).1

omit h in
theorem filling_pushBack {dirty ready : Bool} (m : MSHREntry) :
    (s.pushBack p i addr dirty ready).Filling m ↔
      s.Filling m ∨ (ready = false ∧ m = ⟨addr, ⟨i, s.nodes⟩⟩) := by
  obtain ⟨a, j, n⟩ := m
  by_cases hset : j = i
  · subst hset
    simp only [Filling, pushBack, update_self, mem_append, mem_singleton,
      or_and_right, exists_or, exists_eq_left, MSHREntry.mk.injEq, Iterator.mk.injEq, true_and]
    refine or_congr_right ?_
    constructor
    · rintro ⟨hn, hr, ha⟩
      exact ⟨hr, ha.symm, hn.symm⟩
    · rintro ⟨hr, ha, hn⟩
      exact ⟨hn.symm, hr, ha.symm⟩
  · simp [Filling, pushBack, hset]

theorem Wf.recordStore (addr : ℕ) (type : AccessType) : Wf p (s.recordStore p addr type) := by
  unfold BHO3LLC.recordStore
  split
  · exact ⟨h.sets, h.lines, h.fills, h.room⟩
  · exact h

/-! ### A hit -/

omit h in
theorem erase_sets_self (n : ℕ) : (s.erase ⟨i, n⟩).sets i = (s.sets i).filter fun l => l.node ≠ n :=
  update_self ..

omit h in
theorem length_erase_lt (hl : l ∈ s.sets i) :
    ((s.erase ⟨i, l.node⟩).sets i).length < (s.sets i).length := by
  rw [erase_sets_self, length_filter_lt_length_iff_exists]
  exact ⟨l, hl, by simp⟩

/-- Erasing the old line after the new one was added is as good as before. -/
theorem Wf.hit_eq (hline : line ∈ s.sets (p.getIndex req.addr)) :
    s.hit p req line = { (s.erase ⟨p.getIndex req.addr, line.node⟩).pushBack p (p.getIndex req.addr)
        req.addr (line.dirty || req.type = .write) true with
      hitList := s.hitList ++ [(s.clk + p.latency, req)]
      touched := p.align req.addr :: s.touched } := by
  have hne : s.nodes ≠ line.node := ((h.sets _).fresh line hline).ne'
  simp [BHO3LLC.hit, BHO3LLC.erase, BHO3LLC.pushBack, filter_append, hne]

theorem Wf.hit (hline : line ∈ s.sets (p.getIndex req.addr)) (htag : line.tag = p.getTag req.addr)
    (hready : line.ready = true) : Wf p (s.hit p req line) := by
  have he := h.erase hline hready
  have hnew : ∀ l ∈ (s.erase ⟨p.getIndex req.addr, line.node⟩).sets (p.getIndex req.addr),
      l.tag ≠ p.getTag req.addr := by
    intro l hl heq
    simp only [erase_sets_self, mem_filter, decide_eq_true_eq] at hl
    exact hl.2 (congrArg Line.node ((h.sets _).eq_of_tag hl.1 hline (heq.trans htag.symm)))
  have hfree := (length_erase_lt hline).trans_le (h.sets _).size
  rw [h.hit_eq hline]
  refine ⟨he.pushBack_sets hnew hfree _ _, he.lines, ?_, he.room⟩
  intro m
  exact (he.fills m).trans ((filling_pushBack m).trans (by simp)).symm

end

/-! ### A miss -/

/-- A set with room for a line: as it is, or without a ready line. -/
inductive Evicted (p : BHO3Params) (s : BHO3LLC) (i : ℕ) : BHO3LLC → Prop
  | none (hfree : (s.sets i).length < p.associativity) : Evicted p s i s
  | victim {l : Line} (hl : l ∈ s.sets i) (hready : l.ready = true) :
      Evicted p s i (s.evictLine p i l)

@[simp] theorem evictLine_sets (l : Line) :
    (s.evictLine p i l).sets = (s.erase ⟨i, l.node⟩).sets := by
  unfold evictLine
  split <;> rfl

@[simp] theorem evictLine_mshrs (l : Line) : (s.evictLine p i l).mshrs = s.mshrs := by
  unfold evictLine
  split <;> rfl

namespace Evicted

variable (hev : Evicted p s i s')
include hev

theorem wf (h : Wf p s) : Wf p s' := by
  cases hev with
  | none => exact h
  | victim hl hready => exact h.evictLine hl hready

theorem mshrs : s'.mshrs = s.mshrs := by
  cases hev with
  | none => rfl
  | victim => exact evictLine_mshrs _

theorem subset {l : Line} (hl : l ∈ s'.sets i) : l ∈ s.sets i := by
  cases hev with
  | none => exact hl
  | victim =>
    rw [evictLine_sets, erase_sets_self] at hl
    exact mem_of_mem_filter hl

theorem free (h : Wf p s) : (s'.sets i).length < p.associativity := by
  cases hev with
  | none hfree => exact hfree
  | victim hl =>
    rw [evictLine_sets]
    exact (length_erase_lt hl).trans_le (h.sets i).size

end Evicted

/-- A miss with its line, its MSHR entry and its request, before the core's count. -/
def queueFetch (p : BHO3Params) (s : BHO3LLC) (req : LLCRequest) (dirty : Bool) : BHO3LLC :=
  pushMiss p { s.pushBack p (p.getIndex req.addr) req.addr dirty false with
    mshrs := s.mshrs ++ [{ addr := req.addr, line := ⟨p.getIndex req.addr, s.nodes⟩ }]
    receiveRequests := Function.update s.receiveRequests req.addr [req]
    touched := p.align req.addr :: s.touched } req

def fetch (p : BHO3Params) (s : BHO3LLC) (req : LLCRequest) (dirty : Bool) : BHO3LLC :=
  (s.queueFetch p req dirty).addAllocated req 1

variable (h : Wf p s)
include h

variable (req : LLCRequest)

theorem Wf.fetch (hnew : ∀ l ∈ s.sets (p.getIndex req.addr), l.tag ≠ p.getTag req.addr)
    (hm : ∀ m ∈ s.mshrs, p.align m.addr ≠ p.align req.addr)
    (hfree : (s.sets (p.getIndex req.addr)).length < p.associativity)
    (hroom : s.mshrs.length < p.numMshrs) (dirty : Bool) : Wf p (s.fetch p req dirty) := by
  rw [BHO3LLC.fetch, addAllocated_eq]
  refine ⟨h.pushBack_sets hnew hfree dirty false, ?_, ?_, ?_⟩
  · refine pairwise_append.mpr ⟨h.lines, pairwise_singleton _ _, ?_⟩
    simpa using hm
  · intro m
    refine Iff.trans ?_ (filling_pushBack m).symm
    rw [← h.fills m]
    simp [queueFetch, pushMiss]
  · simpa [queueFetch, pushMiss] using Nat.succ_le_of_lt hroom

theorem Wf.modifyLine_pushBack (i addr : ℕ) (d dirty ready : Bool) :
    (s.pushBack p i addr d ready).modifyLine ⟨i, s.nodes⟩ (fun l => { l with dirty := dirty }) =
      some (s.pushBack p i addr dirty ready) := by
  have hsame : (s.sets i).map (fun l => if l.node = s.nodes then { l with dirty := dirty } else l) =
      s.sets i := by
    refine (map_congr_left ?_).trans (List.map_id _)
    intro l hl
    exact if_neg ((h.sets i).fresh l hl).ne
  simp [modifyLine, assign, BHO3LLC.pushBack, hsame]

omit h in
/-- `allocate_line` finds room when the tag is new and a line is available. -/
theorem allocateLine_eq (hnew : ∀ l ∈ s.sets i, l.tag ≠ p.getTag addr)
    (havail : lineAvailable p (s.sets i) = true) :
    ∃ s₁, Evicted p s i s₁ ∧ s.allocateLine p i addr =
      some (s₁.pushBack p i addr false false, some ⟨i, s₁.nodes⟩) := by
  have hnone : (s.sets i).any (fun l => p.getTag addr = l.tag) = false := by
    simp only [List.any_eq_false, decide_eq_true_eq]
    exact fun l hl heq => hnew l hl heq.symm
  by_cases hfree : (s.sets i).length < p.associativity
  · refine ⟨s, .none hfree, ?_⟩
    simp [allocateLine, needEviction, hnone, hfree]
  · have hany : (s.sets i).any (·.ready) = true := by
      simpa [lineAvailable, hfree] using havail
    cases hfind : (s.sets i).find? (·.ready) with
    | none =>
      rw [find?_eq_none] at hfind
      obtain ⟨l, hl, hready⟩ := List.any_eq_true.mp hany
      exact absurd hready (hfind l hl)
    | some victim =>
      refine ⟨_, .victim (mem_of_find?_eq_some hfind) (find?_some hfind), ?_⟩
      simp [allocateLine, needEviction, hnone, hfree, hfind]

theorem Wf.startMiss (hnew : ∀ l ∈ s.sets (p.getIndex req.addr), l.tag ≠ p.getTag req.addr)
    (havail : lineAvailable p (s.sets (p.getIndex req.addr)) = true) (dirty : Bool) :
    ∃ s₁, Evicted p s (p.getIndex req.addr) s₁ ∧
      s.startMiss p req dirty = some (s₁.fetch p req dirty) := by
  obtain ⟨s₁, hev, halloc⟩ := allocateLine_eq hnew havail
  refine ⟨s₁, hev, ?_⟩
  have hmodify := (hev.wf h).modifyLine_pushBack (p.getIndex req.addr) req.addr false dirty false
  simp only [BHO3LLC.startMiss, halloc, hmodify, bind_eq_bind, bind_some]
  rfl

/-! ### A miss on a line that is being fetched, and its arrival -/

theorem Wf.modifyLine (hm : m ∈ s.mshrs) (f : Line → Line) :
    s.modifyLine m.line f = some (s.assign m.line f) := by
  obtain ⟨l, hl, hnode, -⟩ := (h.fills m).mp hm
  exact if_pos (List.any_eq_true.mpr ⟨l, hl, by simpa using hnode⟩)

def joined (s : BHO3LLC) (req : LLCRequest) (dirty : Bool) (m : MSHREntry) : BHO3LLC :=
  { s.assign m.line (fun l => { l with dirty := dirty || l.dirty }) with
    receiveRequests := Function.update s.receiveRequests m.addr (s.receiveRequests m.addr ++ [req]) }

theorem Wf.joinMiss (hm : m ∈ s.mshrs) (req : LLCRequest) (dirty : Bool) :
    s.joinMiss req dirty m = some (s.joined req dirty m) := by
  rw [BHO3LLC.joinMiss, h.modifyLine hm]
  rfl

theorem Wf.joined (dirty : Bool) (m : MSHREntry) :
    Wf p (s.joined req dirty m) where
  sets := h.assign_sets _ fun _ => ⟨rfl, rfl, rfl⟩
  lines := h.lines
  fills m' := (h.fills m').trans
    (filling_assign (f := fun l => { l with dirty := dirty || l.dirty })
      (fun _ => ⟨rfl, rfl, rfl⟩) m').symm
  room := h.room

/-- What `receive` leaves, if the line has an MSHR entry. -/
def filled (s : BHO3LLC) (req : LLCRequest) (m : MSHREntry) : BHO3LLC :=
  addAllocated { s.assign m.line (fun l => { l with ready := true }) with
    mshrs := s.mshrs.erase m } req (-1)

theorem Wf.filling_ready (hm : m ∈ s.mshrs) (m' : MSHREntry) :
    (s.assign m.line (fun l => { l with ready := true })).Filling m' ↔ m' ≠ m ∧ s.Filling m' := by
  obtain ⟨l₀, hl₀, hnode₀, hfill₀, haddr₀⟩ := (h.fills m).mp hm
  by_cases hset : m'.line.set = m.line.set
  · simp only [Filling, assign, hset, update_self, List.mem_map]
    constructor
    · rintro ⟨_, ⟨l, hl, rfl⟩, hnode, hfill, haddr⟩
      by_cases hl_node : l.node = m.line.node
      · simp [hl_node] at hfill
      · rw [if_neg hl_node] at hnode hfill haddr
        refine ⟨?_, l, hl, hnode, hfill, haddr⟩
        rintro rfl
        exact hl_node hnode
    · rintro ⟨hne, l, hl, hnode, hfill, haddr⟩
      have hl_node : l.node ≠ m.line.node := by
        intro heq
        have hline : l = l₀ := (h.sets _).eq_of_node hl hl₀ (heq.trans hnode₀.symm)
        obtain ⟨a, j, n⟩ := m
        obtain ⟨a', j', n'⟩ := m'
        subst hline
        simp only at hset hnode haddr hnode₀ haddr₀
        exact hne (by rw [← haddr, ← haddr₀, hset, ← hnode, ← hnode₀])
      exact ⟨_, ⟨l, hl, rfl⟩, by rw [if_neg hl_node]; exact ⟨hnode, hfill, haddr⟩⟩
  · have hne : m' ≠ m := fun heq => hset (congrArg (·.line.set) heq)
    simp only [Filling, assign, update_of_ne hset, ne_eq, hne, not_false_eq_true, true_and]

theorem Wf.mshrs_nodup : s.mshrs.Nodup :=
  List.Pairwise.imp (fun hne heq => hne (by rw [heq])) h.lines

theorem Wf.mshr_lines_nodup : (s.mshrs.map (·.line)).Nodup := by
  refine h.mshrs_nodup.map_on ?_
  intro m hm m' hm' hline
  obtain ⟨l, hl, hnode, -, haddr⟩ := (h.fills m).mp hm
  obtain ⟨l', hl', hnode', -, haddr'⟩ := (h.fills m').mp hm'
  rw [← hline] at hl' hnode'
  have heq := (h.sets _).eq_of_node hl hl' (hnode.trans hnode'.symm)
  refine h.mshr_eq hm hm' ?_
  rw [← haddr, ← haddr', heq]

theorem Wf.filled (hm : m ∈ s.mshrs) (req : LLCRequest) : Wf p (s.filled req m) := by
  have hsets := h.assign_sets m.line (f := fun l => { l with ready := true })
    fun _ => ⟨rfl, rfl, rfl⟩
  rw [BHO3LLC.filled, addAllocated_eq]
  refine ⟨hsets, h.lines.sublist erase_sublist, ?_, erase_sublist.length_le.trans h.room⟩
  intro m'
  rw [h.mshrs_nodup.mem_erase_iff, h.fills m']
  exact (h.filling_ready hm m').symm

/-! ## `send`, `receive` and `clflush` on a well-formed cache -/

inductive Sent (p : BHO3Params) (s : BHO3LLC) (req : LLCRequest) : Bool → BHO3LLC → Prop
  | hit {line : Line} (hline : line ∈ s.sets (p.getIndex req.addr))
      (htag : line.tag = p.getTag req.addr) (hready : line.ready = true) :
      Sent p s req true (s.hit p req line)
  | join {m : MSHREntry} (hm : m ∈ s.mshrs) (hline : p.align m.addr = p.align req.addr) :
      Sent p s req true (s.joined { req with type := .read } (req.type = .write) m)
  | refuse : Sent p s req false s
  | start {s₁ : BHO3LLC} (hev : Evicted p s (p.getIndex req.addr) s₁)
      (hnew : ∀ l ∈ s.sets (p.getIndex req.addr), l.tag ≠ p.getTag req.addr)
      (hm : ∀ m ∈ s.mshrs, p.align m.addr ≠ p.align req.addr) (hroom : s.mshrs.length < p.numMshrs) :
      Sent p s req true (s₁.fetch p { req with type := .read } (req.type = .write))

theorem Wf.absent (hhit : checkSetHit p (s.sets (p.getIndex addr)) addr = none)
    (hm : ∀ m ∈ s.mshrs, p.align m.addr ≠ p.align addr) :
    ∀ l ∈ s.sets (p.getIndex addr), l.tag ≠ p.getTag addr := by
  intro l hl htag
  cases hready : l.ready with
  | true =>
    rw [(checkSetHit_eq_some h).mpr ⟨hl, htag, hready⟩] at hhit
    cases hhit
  | false =>
    have hfill : (⟨l.addr, ⟨p.getIndex addr, l.node⟩⟩ : MSHREntry) ∈ s.mshrs :=
      (h.fills _).mpr ⟨l, hl, rfl, hready, rfl⟩
    exact hm _ hfill (((h.sets _).align_eq_iff hl).mpr ⟨rfl, htag⟩)

theorem Wf.send : ∃ ok s', s.send p req = some (ok, s') ∧ Sent p s req ok s' := by
  unfold BHO3LLC.send
  cases hhit : checkSetHit p (s.sets (p.getIndex req.addr)) req.addr with
  | some line =>
    obtain ⟨hline, htag, hready⟩ := (checkSetHit_eq_some h).mp hhit
    exact ⟨_, _, rfl, .hit hline htag hready⟩
  | none =>
    cases hmshr : s.checkMshrHit p req.addr with
    | some m =>
      obtain ⟨hm, hline⟩ := (checkMshrHit_eq_some h).mp hmshr
      simp only [hmshr, h.joinMiss hm, map_some]
      exact ⟨_, _, rfl, .join hm hline⟩
    | none =>
      have hm : ∀ m ∈ s.mshrs, p.align m.addr ≠ p.align req.addr := by
        simpa [checkMshrHit] using hmshr
      simp only [hmshr]
      split
      · exact ⟨_, _, rfl, .refuse⟩
      split
      · exact ⟨_, _, rfl, .refuse⟩
      rename_i hfull
      split
      · exact ⟨_, _, rfl, .refuse⟩
      rename_i havail
      have hnew := h.absent hhit hm
      obtain ⟨s₁, hev, hstart⟩ := h.startMiss { req with type := .read } hnew
        (by simpa using havail) (req.type = .write)
      rw [hstart]
      exact ⟨_, _, rfl, .start hev hnew hm (lt_of_le_of_ne h.room hfull)⟩

theorem Sent.wf {ok : Bool} (hsent : Sent p s req ok s') : Wf p s' := by
  cases hsent with
  | hit hline htag hready => exact h.hit hline htag hready
  | join hm hline => exact h.joined _ _ _
  | refuse => exact h
  | start hev hnew hm hroom =>
    refine (hev.wf h).fetch { req with type := .read } (fun l hl => hnew l (hev.subset hl)) ?_
      (hev.free h) ?_ _
    · rw [hev.mshrs]
      exact hm
    · rw [hev.mshrs]
      exact hroom

inductive Received (p : BHO3Params) (s : BHO3LLC) (req : LLCRequest) : BHO3LLC → Prop
  | none (hm : ∀ m ∈ s.mshrs, p.align m.addr ≠ p.align req.addr) : Received p s req s
  | filled {m : MSHREntry} (hm : m ∈ s.mshrs) (hline : p.align m.addr = p.align req.addr) :
      Received p s req (s.filled req m)

theorem Wf.receive : ∃ s', s.receive p req = some s' ∧ Received p s req s' := by
  unfold BHO3LLC.receive
  cases hmshr : s.checkMshrHit p req.addr with
  | none => exact ⟨s, rfl, .none (by simpa [checkMshrHit] using hmshr)⟩
  | some m =>
    obtain ⟨hm, hline⟩ := (checkMshrHit_eq_some h).mp hmshr
    refine ⟨_, ?_, .filled hm hline⟩
    simp only [h.modifyLine hm]
    rfl

theorem Received.wf (hrec : Received p s req s') : Wf p s' := by
  cases hrec with
  | none => exact h
  | filled hm => exact h.filled hm req

inductive Flushed (p : BHO3Params) (s : BHO3LLC) : BHO3LLC → Prop
  | none : Flushed p s s
  | line {i : ℕ} {l : Line} (hl : l ∈ s.sets i) (hready : l.ready = true) :
      Flushed p s (s.evictLine p i l)

theorem Wf.clflush (addr : ℕ) : Flushed p s (s.clflush p addr) := by
  unfold BHO3LLC.clflush
  cases hhit : checkSetHit p (s.sets (p.getIndex addr)) addr with
  | none => exact .none
  | some line =>
    obtain ⟨hline, -, hready⟩ := (checkSetHit_eq_some h).mp hhit
    exact .line hline hready

theorem Flushed.wf (hfl : Flushed p s s') : Wf p s' := by
  cases hfl with
  | none => exact h
  | line hl hready => exact h.evictLine hl hready

end BHO3LLC

/-! ## The processor -/

namespace BHO3

open BHO3LLC

variable {p : BHO3Params} {s s' : BHO3}

theorem receive_eq (h : Wf p s.llc) (req : LLCRequest) :
    ∃ llc, Received p s.llc req llc ∧ s.receive p req = some
      (((llc.receiveRequests req.addr).foldl (deliver p) { s with llc }).setWaiting req.addr []) := by
  obtain ⟨llc, hllc, hrec⟩ := h.receive req
  refine ⟨llc, hrec, ?_⟩
  rw [receive, hllc]
  rfl

theorem serveHits_of_loop
    (hloop : (s.llc.hitList.filter fun e => decide (e.1 ≤ s.llc.clk)).foldlM
      (fun s e => s.serveHit p e.2) s = some s') :
    s.serveHits p = some
      (s'.setHitList (s.llc.hitList.filter fun e => !decide (e.1 ≤ s.llc.clk))) := by
  rw [serveHits, hloop]
  rfl

structure Stable (p : BHO3Params) (P : BHO3LLC → Prop) : Prop where
  evictLine : ∀ {s : BHO3LLC} {i : ℕ} {l : Line}, Wf p s → l ∈ s.sets i → l.ready = true → P s →
    P (s.evictLine p i l)
  filled : ∀ {s : BHO3LLC} {m : MSHREntry} (req : LLCRequest), Wf p s → m ∈ s.mshrs → P s →
    P (s.filled req m)
  waiting : ∀ {s : BHO3LLC} (waiting : ℕ → List LLCRequest), P s →
    P { s with receiveRequests := waiting }
  hits : ∀ {s : BHO3LLC} (hits : List (ℕ × LLCRequest)), P s → P { s with hitList := hits }

namespace Stable

variable {P : BHO3LLC → Prop} {sent : List MissEntry}

/-- The cache is well-formed and has the property, and the memory system was sent these requests. -/
def Holds (p : BHO3Params) (P : BHO3LLC → Prop) (sent : List MissEntry) (s : BHO3) : Prop :=
  Wf p s.llc ∧ P s.llc ∧ s.sent = sent

variable (h : Holds p P sent s) (hP : Stable p P)
include h hP

theorem clflush (addr : ℕ) : Holds p P sent { s with llc := s.llc.clflush p addr } := by
  obtain ⟨hwf, hs, hsent⟩ := h
  refine ⟨(hwf.clflush addr).wf hwf, ?_, hsent⟩
  generalize hllc : s.llc.clflush p addr = llc
  have hfl : Flushed p s.llc llc := hllc ▸ hwf.clflush addr
  cases hfl with
  | none => exact hs
  | line hl hready => exact hP.evictLine hwf hl hready hs

theorem deliver (r : LLCRequest) : Holds p P sent (s.deliver p r) := by
  unfold BHO3.deliver
  split
  · exact hP.clflush h r.addr
  · exact h

theorem setWaiting (addr : ℕ) (reqs : List LLCRequest) :
    Holds p P sent (s.setWaiting addr reqs) := by
  obtain ⟨hwf, hs, hsent⟩ := h
  exact ⟨⟨hwf.sets, hwf.lines, hwf.fills, hwf.room⟩, hP.waiting _ hs, hsent⟩

theorem receive (req : LLCRequest) : ∃ s', s.receive p req = some s' ∧ Holds p P sent s' := by
  obtain ⟨llc, hrec, heq⟩ := receive_eq h.1 req
  have hllc : Holds p P sent { s with llc } := by
    obtain ⟨hwf, hs, hsent⟩ := h
    refine ⟨hrec.wf hwf, ?_, hsent⟩
    cases hrec with
    | none => exact hs
    | filled hm => exact hP.filled req hwf hm hs
  refine ⟨_, heq, hP.setWaiting ?_ _ _⟩
  exact foldlRecOn (motive := Holds p P sent) _ _ hllc fun s hs r _ => hP.deliver hs r

theorem serveHits : ∃ s', s.serveHits p = some s' ∧ Holds p P sent s' := by
  obtain ⟨s', hloop, hwf, hs', hsent⟩ := Machine.exists_foldlM
    (P := Holds p P sent) (f := fun (s : BHO3) (e : ℕ × LLCRequest) => s.serveHit p e.2)
    (fun s e _ hs => hP.receive (hP.setWaiting hs e.2.addr [e.2]) e.2) h
  exact ⟨_, serveHits_of_loop hloop, ⟨hwf.sets, hwf.lines, hwf.fills, hwf.room⟩, hP.hits _ hs', hsent⟩

theorem complete {i : ℕ} (hi : i < s.inFlight.length) :
    ∃ s', s.complete p i = some s' ∧ Holds p P sent s' := by
  have hreq : s.inFlight[i]? = some s.inFlight[i] := getElem?_eq_getElem hi
  obtain ⟨s', heq, hs'⟩ :=
    hP.receive (s := { s with inFlight := s.inFlight.eraseIdx i }) h s.inFlight[i]
  refine ⟨s', ?_, hs'⟩
  rw [BHO3.complete, hreq]
  exact heq

end Stable

theorem send_eq (h : Wf p s.llc) (core addr : ℕ) (type : AccessType) :
    ∃ ok llc, Sent p s.llc { addr, type, source := some core, id := s.accepted.length } ok llc ∧
      s.send p core addr type = some (if ok then
        { s with
          llc := llc.recordStore p addr type
          accepted := s.accepted ++ [{ addr, type, source := some core, id := s.accepted.length }] }
        else { s with llc }) := by
  obtain ⟨ok, llc, hllc, hsent⟩ :=
    h.send { addr, type, source := some core, id := s.accepted.length }
  refine ⟨ok, llc, hsent, ?_⟩
  rw [send, hllc]
  cases ok <;> rfl

theorem wf_send (h : Wf p s.llc) (core addr : ℕ) (type : AccessType) :
    ∃ s', s.send p core addr type = some s' ∧ Wf p s'.llc := by
  obtain ⟨ok, llc, hsent, heq⟩ := send_eq h core addr type
  refine ⟨_, heq, ?_⟩
  cases ok with
  | false => exact hsent.wf h
  | true => exact (hsent.wf h).recordStore addr type

end BHO3

/-- Only a read that is in flight can be completed. -/
def BHO3Call.Possible (s : BHO3) : BHO3Call → Prop
  | .complete i => i < s.inFlight.length
  | _ => True

namespace BHO3

open BHO3LLC

variable {p : BHO3Params} {s s' : BHO3}

theorem stable_true : Stable p fun _ => True :=
  ⟨fun _ _ _ _ => trivial, fun _ _ _ _ => trivial, fun _ _ => trivial, fun _ _ => trivial⟩

/-- **One call of a well-formed cache** returns, and leaves it well-formed. -/
theorem wf_step (h : Wf p s.llc) (call : BHO3Call) (hcall : call.Possible s) :
    ∃ s', (bho3 p).step s call = some s' ∧ Wf p s'.llc := by
  cases call with
  | send core addr type => exact wf_send h core addr type
  | tick accepts =>
    obtain ⟨s', heq, hwf, -⟩ := stable_true.serveHits (s := s.startCycle.sendMisses accepts)
      ⟨⟨h.sets, h.lines, h.fills, h.room⟩, trivial, rfl⟩
    exact ⟨s', heq, hwf⟩
  | complete i =>
    obtain ⟨s', heq, hwf, -⟩ := stable_true.complete ⟨h, trivial, rfl⟩ hcall
    exact ⟨s', heq, hwf⟩
  | clflush addr => exact ⟨_, rfl, (h.clflush addr).wf h⟩
  | setBlacklistMaxMshrs | addBlacklist | eraseBlacklist =>
    exact ⟨_, rfl, h.sets, h.lines, h.fills, h.room⟩

theorem possible_of_step {call : BHO3Call} (hst : (bho3 p).step s call = some s') :
    call.Possible s := by
  cases call with
  | complete i =>
    simp only [bho3, complete, bind_eq_bind, bind_eq_some_iff] at hst
    obtain ⟨req, hreq, -⟩ := hst
    exact (List.getElem?_eq_some_iff.mp hreq).1
  | _ => exact trivial

theorem wf_of_reachable (hs : (bho3 p).Reachable s) : Wf p s.llc := by
  refine hs.invariant (P := fun s => Wf p s.llc) .init ?_
  intro s call s' h _ hst
  obtain ⟨s₁, hst₁, hwf⟩ := wf_step h call (possible_of_step hst)
  rw [hst₁] at hst
  cases hst
  exact hwf

/-- **The cache is set-associative, its MSHR entries are its unfinished lines, and no call fails**: a
set has at most `associativity` lines, of different tags, at home, least recently touched first. -/
theorem cache_well_formed (p : BHO3Params) {s : BHO3} (hs : (bho3 p).Reachable s) :
    (∀ i, (s.llc.sets i).length ≤ p.associativity ∧
      (s.llc.sets i).Pairwise (fun l l' => l.tag ≠ l'.tag) ∧
      (∀ l ∈ s.llc.sets i, p.getIndex l.addr = i ∧ p.getTag l.addr = l.tag) ∧
      (∀ l ∈ s.llc.sets i, l.ready = false →
        (s.llc.mshrs.map (·.line)).count ⟨i, l.node⟩ = 1) ∧
      (s.llc.sets i).Pairwise fun l l' =>
        s.llc.touched.idxOf (p.align l'.addr) < s.llc.touched.idxOf (p.align l.addr)) ∧
    (∀ m ∈ s.llc.mshrs, ∃ l ∈ s.llc.sets m.line.set,
      l.node = m.line.node ∧ l.ready = false ∧ l.addr = m.addr) ∧
    s.llc.mshrs.length ≤ p.numMshrs ∧
    ∀ call : BHO3Call, call.Possible s → ((bho3 p).step s call).isSome := by
  have h := wf_of_reachable hs
  refine ⟨fun i => ⟨(h.sets i).size, (h.sets i).tags, (h.sets i).home, ?_, (h.sets i).recent⟩,
    fun m hm => (h.fills m).mp hm, h.room, ?_⟩
  · intro l hl hready
    have hmem : (⟨l.addr, ⟨i, l.node⟩⟩ : MSHREntry) ∈ s.llc.mshrs :=
      (h.fills _).mpr ⟨l, hl, rfl, hready, rfl⟩
    exact count_eq_one_of_mem h.mshr_lines_nodup (List.mem_map_of_mem hmem)
  · intro call hcall
    obtain ⟨s', hst, -⟩ := wf_step h call hcall
    rw [hst]
    rfl

/-- One set of two ways, for two cores and any number of attackers. -/
def twoLines : BHO3Params where
  latency := 2
  indexBits := 0
  offsetBits := 2
  associativity := 2
  numMshrs := 4
  numBlockingCores := 2

def oneLine : BHO3Params := { twoLines with associativity := 1 }

/-- The lines of 4 and 8 are fetched, 4 is hit, and a miss on 12 evicts the line of 8: the line of 4
comes first, and the line of 12 is being filled. -/
theorem hit_line_survives_miss :
    ∃ s, (bho3 twoLines).Reachable s ∧
      (s.llc.sets 0).map (fun l => (l.addr, l.ready)) = [(4, true), (12, false)] ∧
      (∀ l ∈ s.llc.sets 0, l.ready = false → (s.llc.mshrs.map (·.line)).count ⟨0, l.node⟩ = 1) ∧
      ((bho3 twoLines).step s (.send 0 12 .write)).isSome := by
  obtain ⟨s, hs, hset⟩ := Machine.exists_reachable (m := bho3 twoLines)
    (P := fun s => (s.llc.sets 0).map (fun l => (l.addr, l.ready)) = [(4, true), (12, false)])
    [.send 0 4 .read, .send 0 8 .write, .tick fun _ => true, .tick fun _ => true, .complete 0,
      .complete 0, .send 1 4 .read, .send 1 12 .read] (by decide +kernel)
  obtain ⟨hsets, -, -, hreturns⟩ := cache_well_formed twoLines hs
  obtain ⟨-, -, -, hfill, -⟩ := hsets 0
  exact ⟨s, hs, hset, hfill, hreturns _ trivial⟩

end BHO3

end MultiCoreMemory
