import Mathlib.Tactic.Common
import MultiCoreMemory.Frontend.BHO3LLCSets

/-!
# Write-backs of the BHO3 cache

Write-backs and misses share one list.  It is offered to the memory system entry by entry, and a
refused entry stays while later ones may go.
-/

namespace MultiCoreMemory

open List Function

namespace BHO3LLC

variable {p : BHO3Params} {s s' : BHO3LLC} {i a addr : ℕ} {sent : List MissEntry}

/-! ## The order of the miss list -/

def MissEntry.WritesBackFor (p : BHO3Params) (w r : MissEntry) : Prop :=
  w.req.type = .write ∧ r.req.type = .read ∧ p.align w.req.addr = p.align r.req.addr
  deriving Decidable

structure MissQueue (p : BHO3Params) (sent : List MissEntry) (s : BHO3LLC) : Prop where
  seqs : s.missList.Pairwise fun e e' => e.seq < e'.seq
  dues : s.missList.Pairwise fun e e' => e.due ≤ e'.due
  due_le : ∀ e ∈ s.missList, e.due ≤ s.clk + p.latency
  seq_lt : ∀ e ∈ sent ++ s.missList, e.seq < s.pushed
  first : ∀ w ∈ sent ++ s.missList, ∀ r ∈ sent, w.WritesBackFor p r → w.seq < r.seq →
    [w, r].Sublist sent

namespace MissQueue

section

variable (h : MissQueue p sent s)
include h

theorem congr (hclk : s'.clk = s.clk) (hmiss : s'.missList = s.missList)
    (hpushed : s'.pushed = s.pushed) : MissQueue p sent s' := by
  obtain ⟨hseqs, hdues, hdue_le, hseq_lt, hfirst⟩ := h
  constructor <;> rw [hmiss]
  · exact hseqs
  · exact hdues
  · rw [hclk]
    exact hdue_le
  · rw [hpushed]
    exact hseq_lt
  · exact hfirst

theorem pushMiss (req : LLCRequest) : MissQueue p sent (s.pushMiss p req) := by
  have hlast : ∀ {e : MissEntry}, e ∈ s.missList → e ∈ sent ++ s.missList := fun he =>
    mem_append_right _ he
  constructor <;> simp only [BHO3LLC.pushMiss]
  · refine pairwise_append.mpr ⟨h.seqs, pairwise_singleton _ _, ?_⟩
    intro e he e' he'
    rw [mem_singleton.mp he']
    exact h.seq_lt e (hlast he)
  · refine pairwise_append.mpr ⟨h.dues, pairwise_singleton _ _, ?_⟩
    intro e he e' he'
    rw [mem_singleton.mp he']
    exact h.due_le e he
  · intro e he
    rcases mem_append.mp he with he | he
    · exact h.due_le e he
    · rw [mem_singleton.mp he]
  · intro e he
    rw [← append_assoc] at he
    rcases mem_append.mp he with he | he
    · exact (h.seq_lt e he).trans (Nat.lt_succ_self _)
    · rw [mem_singleton.mp he]
      exact Nat.lt_succ_self _
  · intro w hw r hr hwr hlt
    rw [← append_assoc] at hw
    rcases mem_append.mp hw with hw | hw
    · exact h.first w hw r hr hwr hlt
    · -- a request already sent was queued before the new one
      rw [mem_singleton.mp hw] at hlt
      exact absurd hlt (Nat.lt_asymm (h.seq_lt r (mem_append_left _ hr)))

theorem evictLine (l : Line) : MissQueue p sent (s.evictLine p i l) := by
  unfold BHO3LLC.evictLine
  split
  · exact (h.pushMiss { addr := l.addr, type := .write }).congr rfl rfl rfl
  · exact h.congr rfl rfl rfl

theorem recordStore (addr : ℕ) (type : AccessType) :
    MissQueue p sent (s.recordStore p addr type) := by
  unfold BHO3LLC.recordStore
  split
  · exact h.congr rfl rfl rfl
  · exact h

end

theorem stable : BHO3.Stable p (MissQueue p sent) where
  evictLine _ _ _ h := h.evictLine _
  filled req _ _ h := by
    rw [filled, addAllocated_eq]
    exact h.congr rfl rfl rfl
  waiting _ h := h.congr rfl rfl rfl
  hits _ h := h.congr rfl rfl rfl

theorem send (h : MissQueue p sent s) {req : LLCRequest} {ok : Bool} (hsent : Sent p s req ok s') :
    MissQueue p sent s' := by
  cases hsent with
  | hit | join => exact h.congr rfl rfl rfl
  | refuse => exact h
  | @start s₁ hev =>
    have h₁ : MissQueue p sent s₁ := by
      cases hev with
      | none => exact h
      | victim => exact h.evictLine _
    rw [fetch, addAllocated_eq]
    exact (h₁.pushMiss { req with type := .read }).congr rfl rfl rfl

theorem pair_sublist {l : List MissEntry} (h : l.Pairwise fun e e' => e.seq < e'.seq)
    {w r : MissEntry} (hw : w ∈ l) (hr : r ∈ l) (hlt : w.seq < r.seq) : [w, r].Sublist l := by
  induction l with
  | nil => cases hw
  | cons e l ih =>
    rw [pairwise_cons] at h
    rcases mem_cons.mp hr with rfl | hr'
    · rcases mem_cons.mp hw with rfl | hw'
      · exact absurd hlt (Nat.lt_irrefl _)
      · exact absurd hlt (Nat.lt_asymm (h.1 w hw'))
    · rcases mem_cons.mp hw with rfl | hw'
      · exact (singleton_sublist.mpr hr').cons_cons w
      · exact (ih h.2 hw' hr').cons e

end MissQueue

end BHO3LLC

namespace BHO3

open BHO3LLC

variable {p : BHO3Params} {s s' : BHO3}

/-- No entry that is due and accepted in the coming cycle reads a line whose write-back was queued
earlier and is refused in this cycle. -/
def SafeAnswers (p : BHO3Params) (s : BHO3) (accepts : ℕ → Bool) : Prop :=
  s.llc.missList.Pairwise fun w r => w.WritesBackFor p r → r.due ≤ s.llc.clk + 1 →
    accepts r.seq = true → accepts w.seq = true
  deriving Decidable

def SafeCall (p : BHO3Params) (s : BHO3) : BHO3Call → Prop
  | .tick accepts => SafeAnswers p s accepts
  | _ => True

instance (call : BHO3Call) : Decidable (SafeCall p s call) :=
  match call with
  | .tick accepts => inferInstanceAs (Decidable (SafeAnswers p s accepts))
  | .send .. | .complete _ | .clflush _ | .setBlacklistMaxMshrs .. | .addBlacklist _
  | .eraseBlacklist _ => inferInstanceAs (Decidable True)

/-- **One cycle of the miss list** whose answers are safe. -/
theorem missQueue_sendMisses (h : MissQueue p s.sent s.llc) {accepts : ℕ → Bool}
    (hsafe : SafeAnswers p s accepts) :
    MissQueue p (s.startCycle.sendMisses accepts).sent (s.startCycle.sendMisses accepts).llc := by
  have hsent : (s.startCycle.sendMisses accepts).sent =
      s.sent ++ s.llc.missList.filter (·.isTaken (s.llc.clk + 1) accepts) := rfl
  have hkept : (s.startCycle.sendMisses accepts).llc.missList =
      s.llc.missList.filter fun e => !e.isTaken (s.llc.clk + 1) accepts := rfl
  have hsub : (s.startCycle.sendMisses accepts).llc.missList.Sublist s.llc.missList :=
    hkept ▸ filter_sublist
  have hold : ∀ e ∈ (s.startCycle.sendMisses accepts).sent ++
      (s.startCycle.sendMisses accepts).llc.missList, e ∈ s.sent ++ s.llc.missList := by
    intro e he
    rw [hsent, hkept] at he
    simp only [mem_append, mem_filter] at he ⊢
    tauto
  refine ⟨h.seqs.sublist hsub, h.dues.sublist hsub, ?_, fun e he => h.seq_lt e (hold e he), ?_⟩
  · intro e he
    exact (h.due_le e (hsub.subset he)).trans (Nat.add_le_add_right (Nat.le_succ _) _)
  · intro w hw r hr hwr hlt
    rw [hsent] at hr ⊢
    rcases mem_append.mp hr with hr | hr
    · exact (h.first w (hold w hw) r hr hwr hlt).trans (sublist_append_left _ _)
    rcases mem_append.mp (hold w hw) with hw | hw
    · exact (singleton_sublist.mpr hw).append (singleton_sublist.mpr hr)
    -- both are on the list, the write-back first: it is due, and it is not refused
    obtain ⟨hr_mem, hr_taken⟩ := mem_filter.mp hr
    have hpair := MissQueue.pair_sublist h.seqs hw hr_mem hlt
    have hdue : w.due ≤ r.due := pairwise_iff_forall_sublist.mp h.dues hpair
    have hr_due : r.due ≤ s.llc.clk + 1 ∧ accepts r.seq = true := by
      simpa [MissEntry.isTaken] using hr_taken
    have hw_taken : w.isTaken (s.llc.clk + 1) accepts = true := by
      have hacc := pairwise_iff_forall_sublist.mp hsafe hpair hwr hr_due.1 hr_due.2
      simpa [MissEntry.isTaken] using ⟨hdue.trans hr_due.1, hacc⟩
    have hfilter := hpair.filter (·.isTaken (s.llc.clk + 1) accepts)
    simp only [filter_cons, hw_taken, hr_taken, if_true, filter_nil] at hfilter
    exact hfilter.trans (sublist_append_right _ _)

/-- **A stable property of the cache and of what the memory system was sent holds in every run**, if
sends, the first loop of a cycle and the blacklist keep it. -/
theorem Stable.of_reachable {ok : BHO3 → BHO3Call → Prop} {P : List MissEntry → BHO3LLC → Prop}
    (hP : ∀ sent, Stable p (P sent)) (hinit : P [] {})
    (hsend : ∀ {sent s req accepted s'}, Wf p s → P sent s → Sent p s req accepted s' →
      P sent (if accepted then s'.recordStore p req.addr req.type else s'))
    (htick : ∀ {s accepts}, P s.sent s.llc → ok s (.tick accepts) →
      P (s.startCycle.sendMisses accepts).sent (s.startCycle.sendMisses accepts).llc)
    (hblacklist : ∀ {sent s} blacklistStatus blacklistMaxMshrs, P sent s →
      P sent { s with blacklistStatus, blacklistMaxMshrs }) (hs : (bho3 p).ReachableWhen ok s) :
    P s.sent s.llc := by
  refine (hs.invariant (P := fun s => Wf p s.llc ∧ P s.sent s.llc) ⟨.init, hinit⟩ ?_).2
  intro s call s' ⟨hwf, h⟩ hok hst
  have hholds : Stable.Holds p (P s.sent) s.sent s := ⟨hwf, h, rfl⟩
  have hend : ∀ {sent}, Stable.Holds p (P sent) sent s' → Wf p s'.llc ∧ P s'.sent s'.llc := by
    rintro sent ⟨hwf', h', rfl⟩
    exact ⟨hwf', h'⟩
  cases call with
  | send core addr type =>
    obtain ⟨accepted, llc, hsent, heq⟩ := send_eq hwf core addr type
    have hllc := hsend hwf h hsent
    cases hst.symm.trans heq
    cases accepted with
    | false => exact ⟨hsent.wf hwf, hllc⟩
    | true => exact ⟨(hsent.wf hwf).recordStore addr type, hllc⟩
  | tick accepts =>
    obtain ⟨s₁, heq, hs₁⟩ := (hP _).serveHits (s := s.startCycle.sendMisses accepts)
      ⟨⟨hwf.sets, hwf.lines, hwf.fills, hwf.room⟩, htick h hok, rfl⟩
    cases hst.symm.trans heq
    exact hend hs₁
  | complete i =>
    obtain ⟨s₁, heq, hs₁⟩ := (hP _).complete hholds (possible_of_step hst)
    cases hst.symm.trans heq
    exact hend hs₁
  | clflush addr =>
    cases hst
    exact hend ((hP _).clflush hholds addr)
  | setBlacklistMaxMshrs | addBlacklist | eraseBlacklist =>
    cases hst
    exact ⟨⟨hwf.sets, hwf.lines, hwf.fills, hwf.room⟩, hblacklist _ _ h⟩

theorem missQueue_of_reachable (hs : (bho3 p).ReachableWhen (SafeCall p) s) :
    MissQueue p s.sent s.llc := by
  refine Stable.of_reachable (fun _ => MissQueue.stable) ?_ ?_
    (fun h hsafe => missQueue_sendMisses h hsafe) (fun _ _ h => h.congr rfl rfl rfl) hs
  · exact ⟨.nil, .nil, forall_mem_nil _, forall_mem_nil _, forall_mem_nil _⟩
  · intro sent s req accepted s' _ h hsent
    cases accepted with
    | false => exact h.send hsent
    | true => exact (h.send hsent).recordStore req.addr req.type

end BHO3

/-! ## Dirty lines -/

namespace BHO3LLC

variable {p : BHO3Params} {s s' : BHO3LLC} {i a addr : ℕ}

/-- The line is held dirty. -/
def Dirty (p : BHO3Params) (s : BHO3LLC) (a : ℕ) : Prop :=
  ∃ i, ∃ l ∈ s.sets i, p.align l.addr = a ∧ l.dirty = true

def StoreEvent.line : StoreEvent → ℕ
  | .wrote a | .writeBackQueued a => a

def LastWrote (stores : List StoreEvent) (a : ℕ) : Prop :=
  stores.find? (fun e => e.line = a) = some (.wrote a)

def DirtyKept (p : BHO3Params) (s : BHO3LLC) : Prop := ∀ a, LastWrote s.stores a → Dirty p s a

theorem Dirty.erase (hd : Dirty p s a) (h : Wf p s) {l : Line} (hl : l ∈ s.sets i) :
    Dirty p (s.erase ⟨i, l.node⟩) a ∨ (p.align l.addr = a ∧ l.dirty = true) := by
  obtain ⟨j, l', hl', ha, hdirty⟩ := hd
  by_cases hset : j = i
  · subst hset
    by_cases hnode : l'.node = l.node
    · rw [(h.sets j).eq_of_node hl' hl hnode] at ha hdirty
      exact .inr ⟨ha, hdirty⟩
    · refine .inl ⟨j, l', ?_, ha, hdirty⟩
      rw [erase_sets_self, mem_filter]
      exact ⟨hl', by simpa using hnode⟩
  · refine .inl ⟨j, l', ?_, ha, hdirty⟩
    simpa only [BHO3LLC.erase, update_of_ne hset] using hl'

theorem Dirty.pushBack (hd : Dirty p s a) (i addr : ℕ) (dirty ready : Bool) :
    Dirty p (s.pushBack p i addr dirty ready) a := by
  obtain ⟨j, l, hl, ha, hdirty⟩ := hd
  refine ⟨j, l, ?_, ha, hdirty⟩
  by_cases hset : j = i
  · subst hset
    simp only [BHO3LLC.pushBack, update_self, mem_append]
    exact .inl hl
  · simpa only [BHO3LLC.pushBack, update_of_ne hset] using hl

theorem dirty_pushBack_self (i addr : ℕ) (ready : Bool) :
    Dirty p (s.pushBack p i addr true ready) (p.align addr) := by
  refine ⟨i, { addr, tag := p.getTag addr, dirty := true, ready, node := s.nodes }, ?_, rfl, rfl⟩
  simp [pushBack]

theorem Dirty.assign (hd : Dirty p s a) (it : Iterator) {f : Line → Line}
    (hf : ∀ l, (f l).addr = l.addr ∧ (l.dirty = true → (f l).dirty = true)) :
    Dirty p (s.assign it f) a := by
  obtain ⟨j, l, hl, ha, hdirty⟩ := hd
  by_cases hset : j = it.set
  · subst hset
    refine ⟨it.set, if l.node = it.node then f l else l, ?_, ?_, ?_⟩
    · simp only [BHO3LLC.assign, update_self]
      exact List.mem_map_of_mem hl
    · split
      · rw [(hf l).1, ha]
      · exact ha
    · split
      · exact (hf l).2 hdirty
      · exact hdirty
  · refine ⟨j, l, ?_, ha, hdirty⟩
    simpa only [BHO3LLC.assign, update_of_ne hset] using hl

theorem lastWrote_cons {e : StoreEvent} {stores : List StoreEvent} :
    LastWrote (e :: stores) a ↔ e = .wrote a ∨ (e.line ≠ a ∧ LastWrote stores a) := by
  unfold LastWrote
  by_cases hline : e.line = a
  · simp [hline]
  · have hne : e ≠ .wrote a := by
      rintro rfl
      exact hline rfl
    simp [hline, hne]

theorem Dirty.congr (hd : Dirty p s a) (hsets : s'.sets = s.sets) : Dirty p s' a := by
  unfold Dirty
  rw [hsets]
  exact hd

namespace DirtyKept

theorem evictLine (hk : DirtyKept p s) (h : Wf p s) {l : Line} (hl : l ∈ s.sets i) :
    DirtyKept p (s.evictLine p i l) := by
  intro a hlast
  have hold : LastWrote s.stores a ∧ ¬(p.align l.addr = a ∧ l.dirty = true) := by
    unfold BHO3LLC.evictLine at hlast
    split at hlast
    · obtain hwrote | ⟨hne, hlast⟩ := lastWrote_cons.mp hlast
      · cases hwrote
      · exact ⟨hlast, fun heq => hne heq.1⟩
    · rename_i hclean
      exact ⟨hlast, fun heq => hclean heq.2⟩
  exact (((hk a hold.1).erase h hl).resolve_right hold.2).congr (evictLine_sets l)

theorem evicted (hk : DirtyKept p s) (h : Wf p s) (hev : Evicted p s i s') : DirtyKept p s' := by
  cases hev with
  | none => exact hk
  | victim hl => exact hk.evictLine h hl

theorem recordStore (hk : DirtyKept p s) {type : AccessType}
    (hdirty : type = .write → Dirty p s (p.align addr)) : DirtyKept p (s.recordStore p addr type) := by
  unfold BHO3LLC.recordStore
  split
  · rename_i hwrite
    intro a hlast
    obtain hwrote | ⟨-, hlast⟩ := lastWrote_cons.mp hlast
    · cases hwrote
      exact hdirty hwrite
    · exact hk a hlast
  · exact hk

end DirtyKept

/-- A dirty line stays so, or its write-back is queued; and a write makes its line dirty. -/
theorem DirtyKept.send (hk : DirtyKept p s) (h : Wf p s) {req : LLCRequest} {ok : Bool}
    (hsent : Sent p s req ok s') :
    DirtyKept p s' ∧ (ok = true → req.type = .write → Dirty p s' (p.align req.addr)) := by
  cases hsent with
  | @hit line hline htag hready =>
    rw [h.hit_eq hline]
    have halign : p.align line.addr = p.align req.addr :=
      ((h.sets _).align_eq_iff hline).mpr ⟨rfl, htag⟩
    constructor
    · intro a hlast
      rcases (hk a hlast).erase h hline with hd | ⟨ha, hdirty⟩
      · exact (hd.pushBack _ _ _ _).congr rfl
      · rw [hdirty, ← ha, halign]
        exact (dirty_pushBack_self _ _ _).congr rfl
    · intro _ hwrite
      rw [decide_eq_true hwrite, Bool.or_true]
      exact (dirty_pushBack_self _ _ _).congr rfl
  | @join m hm hline =>
    constructor
    · intro a hlast
      refine Dirty.congr (Dirty.assign (hk a hlast) m.line ?_) rfl
      intro l
      exact ⟨rfl, fun hd => by simp [hd]⟩
    · intro _ hwrite
      obtain ⟨l, hl, hnode, -, haddr⟩ := (h.fills m).mp hm
      refine ⟨m.line.set, { l with dirty := true }, ?_, ?_, rfl⟩
      · simp only [joined, assign, update_self, List.mem_map]
        exact ⟨l, hl, by simp [hnode, hwrite]⟩
      · rw [haddr, hline]
  | refuse => exact ⟨hk, fun hok => by cases hok⟩
  | @start s₁ hev hnew hm hroom =>
    rw [fetch, addAllocated_eq]
    constructor
    · intro a hlast
      exact ((hk.evicted h hev a hlast).pushBack _ _ _ _).congr rfl
    · intro _ hwrite
      rw [decide_eq_true hwrite]
      exact (dirty_pushBack_self _ _ _).congr rfl

theorem DirtyKept.stable : BHO3.Stable p (DirtyKept p) where
  evictLine h hl _ hk := hk.evictLine h hl
  filled req _ _ hk a hlast := by
    rw [filled, addAllocated_eq] at hlast ⊢
    refine Dirty.congr (Dirty.assign (hk a hlast) _ (f := fun l => { l with ready := true }) ?_) rfl
    exact fun l => ⟨rfl, id⟩
  waiting _ hk := hk
  hits _ hk := hk

end BHO3LLC

namespace BHO3

open BHO3LLC

variable {p : BHO3Params} {s s' : BHO3}

theorem dirtyKept_of_reachable (hs : (bho3 p).Reachable s) : DirtyKept p s.llc := by
  refine Stable.of_reachable (P := fun _ => DirtyKept p) (fun _ => DirtyKept.stable) ?_ ?_
    (fun h _ => h) (fun _ _ h => h) hs
  · intro a hlast
    cases hlast
  · intro _ s req accepted s' hwf hk hsent
    obtain ⟨hk', hdirty⟩ := hk.send hwf hsent
    cases accepted with
    | false => exact hk'
    | true => exact hk'.recordStore (hdirty rfl)

/-! ## Whole runs -/

/-- **A line is not fetched ahead of its own write-back**, if the memory system never accepts a read
while it refuses an earlier write-back of the line.  And a line that was written is held dirty until its
write-back is queued. -/
theorem write_backs_first (p : BHO3Params) (s : BHO3) :
    ((bho3 p).ReachableWhen (SafeCall p) s →
      ∀ w ∈ s.sent ++ s.llc.missList, ∀ r ∈ s.sent,
        w.req.type = .write → r.req.type = .read → p.align w.req.addr = p.align r.req.addr →
        w.seq < r.seq → [w, r].Sublist s.sent) ∧
    ((bho3 p).Reachable s → ∀ a, s.llc.stores.find? (fun e => e.line = a) = some (.wrote a) →
      ∃ i, ∃ l ∈ s.llc.sets i, p.align l.addr = a ∧ l.dirty = true) := by
  constructor
  · intro hs w hw r hr hwrite hread hline hlt
    exact (missQueue_of_reachable hs).first w hw r hr ⟨hwrite, hread, hline⟩ hlt
  · intro hs a hlast
    exact dirtyKept_of_reachable hs a hlast

def writeThenRead (answers : ℕ → Bool) : List BHO3Call :=
  [.send 0 4 .write, .tick answers, .tick answers, .complete 0, .send 0 8 .read, .tick answers,
    .tick answers, .complete 0, .send 0 4 .read, .tick answers, .tick answers]

/-- The memory system accepts everything: the write-back of the line at 4 goes before the read. -/
theorem write_back_accepted_before_read :
    ∃ s, (bho3 oneLine).ReachableWhen (SafeCall oneLine) s ∧
      [(⟨4, { addr := 4, type := .write }, 1⟩ : MissEntry),
        ⟨6, { addr := 4, type := .read, source := some 0, id := 2 }, 3⟩].Sublist s.sent := by
  obtain ⟨s, hs, hsent⟩ := Machine.exists_reachableWhen (m := bho3 oneLine)
    (fun s call => decide (SafeCall oneLine s call)) (fun s call => of_decide_eq_true)
    (P := fun s => ⟨4, { addr := 4, type := .write }, 1⟩ ∈ s.sent ∧
      ⟨6, { addr := 4, type := .read, source := some 0, id := 2 }, 3⟩ ∈ s.sent)
    (writeThenRead fun _ => true) (by decide +kernel) (by decide +kernel)
  exact ⟨s, hs, (write_backs_first oneLine s).1 hs _ (mem_append_left _ hsent.1) _ hsent.2 rfl rfl
    rfl (by decide)⟩

/-- The memory system refuses the write-back and accepts the read. -/
theorem read_passes_write_back :
    ∃ s, (bho3 oneLine).Reachable s ∧ ∃ w ∈ s.llc.missList, ∃ r ∈ s.sent,
      w.req.type = .write ∧ r.req.type = .read ∧
      oneLine.align w.req.addr = oneLine.align r.req.addr ∧ w.seq < r.seq ∧
      ¬[w, r].Sublist s.sent :=
  Machine.exists_reachable (writeThenRead fun seq => seq ≠ 1) (by decide +kernel)

end BHO3

end MultiCoreMemory
