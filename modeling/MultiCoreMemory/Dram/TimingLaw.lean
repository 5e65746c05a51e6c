import MultiCoreMemory.Dram.Node

/-!
# The timing engine is exact

A node keeps a running maximum for each command and a bounded history for each command; the law
of the engine speaks about the whole list of commands issued so far.

Logs are listed newest first.
-/

namespace MultiCoreMemory

open List Node

variable {C S : Type}

/-! ## The law -/

structure TimingEvent (C : Type) where
  command : C
  addrVec : AddrVec
  clk : ℕ
  deriving DecidableEq, Repr

/-- The address names the node at `path` (whose first id is at `level`), a `-1` naming every node
of its level. -/
def addresses (addrVec : AddrVec) : ℕ → List ℕ → Bool
  | _, [] => true
  | level, id :: path => isTarget level id addrVec && addresses addrVec (level + 1) path

/-- The address names the parent of the node at `path`, and then a different child of it. -/
def addressesSibling (addrVec : AddrVec) : ℕ → List ℕ → Bool
  | _, [] => false
  | level, [id] => !isTarget level id addrVec
  | level, id :: id' :: path =>
    isTarget level id addrVec && addressesSibling addrVec (level + 1) (id' :: path)

section

variable [DecidableEq C]

def clocksAt (log : List (TimingEvent C)) (level : ℕ) (path : List ℕ) (p : C) : List ℕ :=
  (log.filter fun e => e.command = p && addresses e.addrVec level path).map TimingEvent.clk

/-- The constraint `t` preceded by `p` holds at a node: for a sibling entry, every `p` to another node
under the parent is `val` cycles old; else the `window`-th most recent `p` to the node is, if there is
one. -/
def Respected (log : List (TimingEvent C)) (level : ℕ) (path : List ℕ) (p : C)
    (t : TimingConsEntry C) (clk : ℕ) : Prop :=
  if t.sibling then
    ∀ e ∈ log, e.command = p → addressesSibling e.addrVec level path → (e.clk : ℤ) + t.val ≤ clk
  else ∀ c, (clocksAt log level path p)[t.window - 1]? = some c → (c : ℤ) + t.val ≤ clk

end

def Chronological (log : List (TimingEvent C)) : Prop :=
  log.Pairwise fun newer older => older.clk ≤ newer.clk
  deriving Decidable

namespace Node

def get? : {n : ℕ} → Node C S n → List ℕ → Option (NodeData C S)
  | _, t, [] => some t.data
  | 0, _, _ :: _ => none
  | _ + 1, t, i :: path => t.children[i]?.bind fun c => get? c path

def issueAll [DecidableEq C] (spec : DramSpec C S) {n : ℕ} (root : Node C S n) :
    List (TimingEvent C) → Node C S n
  | [] => root
  | e :: older => updateTiming spec e.command e.addrVec e.clk 0 (issueAll spec root older)

end Node

/-! ## What one more command changes in the law -/

section

variable [DecidableEq C] {log : List (TimingEvent C)} {e : TimingEvent C} {level id : ℕ}
  {p : C} {t : TimingConsEntry C} {x : ℕ}

theorem addresses_singleton (addrVec : AddrVec) (level id : ℕ) :
    addresses addrVec level [id] = isTarget level id addrVec := by
  simp [addresses]

theorem clocksAt_cons (e : TimingEvent C) (log : List (TimingEvent C)) (level : ℕ)
    (path : List ℕ) (p : C) :
    clocksAt (e :: log) level path p =
      if e.command = p ∧ addresses e.addrVec level path = true then
        e.clk :: clocksAt log level path p
      else clocksAt log level path p := by
  unfold clocksAt
  by_cases h : e.command = p ∧ addresses e.addrVec level path = true
  · rw [if_pos h, filter_cons_of_pos (by simpa using h), map_cons]
  · rw [if_neg h, filter_cons_of_neg (by simpa using h)]

theorem respected_cons_of_ne (hp : e.command ≠ p) :
    Respected (e :: log) level [id] p t x ↔ Respected log level [id] p t x := by
  simp [Respected, clocksAt_cons, hp]

theorem respected_cons_sibling (ht : isTarget level id e.addrVec = false) :
    Respected (e :: log) level [id] e.command t x ↔
      Respected log level [id] e.command t x ∧ (t.sibling = true → (e.clk : ℤ) + t.val ≤ x) := by
  unfold Respected
  cases hs : t.sibling
  · simp [clocksAt_cons, addresses_singleton, ht]
  · simp [addressesSibling, ht, and_comm]

theorem respected_cons_target_sibling (ht : isTarget level id e.addrVec = true)
    (hs : t.sibling = true) :
    Respected (e :: log) level [id] e.command t x ↔ Respected log level [id] e.command t x := by
  simp [Respected, hs, addressesSibling, ht]

theorem Chronological.clocksAt (h : Chronological log) (level : ℕ) (path : List ℕ) (p : C) :
    (clocksAt log level path p).Pairwise fun newer older => older ≤ newer := by
  unfold MultiCoreMemory.clocksAt
  rw [pairwise_map]
  exact List.Pairwise.filter _ h

/-- The `window`-th most recent clock only moves forward. -/
theorem respected_of_cons_target (hlog : Chronological (e :: log))
    (ht : isTarget level id e.addrVec = true)
    (h : Respected (e :: log) level [id] e.command t x) :
    Respected log level [id] e.command t x := by
  cases hs : t.sibling
  · simp only [Respected, hs, Bool.false_eq_true, if_false] at h ⊢
    intro c hc
    have hsorted := hlog.clocksAt level [id] e.command
    rw [clocksAt_cons, if_pos ⟨rfl, by rw [addresses_singleton, ht]⟩] at h hsorted
    -- the old window-th clock is the element after the new one
    obtain ⟨hlt, hget⟩ := List.getElem?_eq_some_iff.mp hc
    have hlt' : t.window - 1 < (e.clk :: clocksAt log level [id] e.command).length := by
      simp only [List.length_cons]; omega
    have hle := pairwise_iff_getElem.mp hsorted (t.window - 1) (t.window - 1 + 1) hlt'
      (by simp only [length_cons]; omega) (by omega)
    have hnew := h _ (getElem?_eq_getElem hlt')
    simp only [getElem_cons_succ, hget] at hle
    omega
  · exact (respected_cons_target_sibling ht hs).mp h

theorem Respected.forall_of_window_one {path : List ℕ} (hlog : Chronological log)
    (hs : t.sibling = false) (hw : t.window = 1) (h : Respected log level path p t x) :
    ∀ e ∈ log, e.command = p → addresses e.addrVec level path = true → (e.clk : ℤ) + t.val ≤ x := by
  intro e he hp haddr
  simp only [Respected, hs, hw, Bool.false_eq_true, if_false, Nat.sub_self] at h
  have hmem : e.clk ∈ clocksAt log level path p := by
    refine List.mem_map.mpr ⟨e, mem_filter.mpr ⟨he, ?_⟩, rfl⟩
    simp [hp, haddr]
  have hsorted := hlog.clocksAt level path p
  cases hc : clocksAt log level path p with
  | nil => simp [hc] at hmem
  | cons newest older =>
    rw [hc] at h hmem hsorted
    have hnewest := h newest rfl
    rcases mem_cons.mp hmem with heq | hold
    · omega
    · have := (pairwise_cons.mp hsorted).1 _ hold
      omega

end

/-! ## The tree tracks the log -/

section

variable [DecidableEq C] {spec : DramSpec C S} {log : List (TimingEvent C)} {e : TimingEvent C}

structure DataTracks (spec : DramSpec C S) (level id : ℕ) (log : List (TimingEvent C))
    (d : NodeData C S) : Prop where
  nodeId : d.nodeId = id
  history : ∀ p, d.cmdHistory p = recent (spec.historyLength level p) (clocksAt log level [id] p)
  ready : ∀ f (x : ℕ), d.cmdReadyClk f ≤ x ↔
    ∀ p, ∀ t ∈ spec.timingCons level p, t.cmd = f → Respected log level [id] p t x

def Tracks (spec : DramSpec C S) :
    {n : ℕ} → (level id : ℕ) → List (TimingEvent C) → Node C S n → Prop
  | 0, level, id, log, d => DataTracks spec level id log d
  | _ + 1, level, id, log, (d, cs) =>
    DataTracks spec level id log d ∧
      ∀ i c, cs[i]? = some c →
        Tracks spec (level + 1) i (log.filter fun e => isTarget level id e.addrVec) c

def DramSpec.WindowsPositive (spec : DramSpec C S) : Prop :=
  ∀ level p, ∀ t ∈ spec.timingCons level p, 1 ≤ t.window

omit [DecidableEq C] in
theorem le_foldl_max_window (ts : List (TimingConsEntry C)) (w : ℕ) :
    w ≤ ts.foldl (fun window t => max window t.window) w ∧
      ∀ t ∈ ts, t.window ≤ ts.foldl (fun window t => max window t.window) w := by
  induction ts generalizing w with
  | nil => simp
  | cons t ts ih =>
    obtain ⟨hw, hts⟩ := ih (max w t.window)
    simp only [foldl_cons, mem_cons, forall_eq_or_imp]
    exact ⟨by omega, by omega, hts⟩

omit [DecidableEq C] in
theorem DramSpec.window_le_historyLength {level : ℕ} {p : C} {t : TimingConsEntry C}
    (ht : t ∈ spec.timingCons level p) : t.window ≤ spec.historyLength level p :=
  (le_foldl_max_window _ 0).2 t ht

theorem createData_tracks (spec : DramSpec C S) (level id : ℕ) :
    DataTracks spec level id [] (spec.createData level id) where
  nodeId := rfl
  history := fun p => by simp [DramSpec.createData, clocksAt, recent_nil]
  ready := fun f x => by
    have hneg : (-1 : ℤ) ≤ x := by omega
    simp [DramSpec.createData, Respected, clocksAt, hneg]

theorem create_tracks (spec : DramSpec C S) (n level id : ℕ) :
    Tracks spec level id [] (spec.create n level id) := by
  induction n generalizing level id with
  | zero => exact createData_tracks spec level id
  | succ n ih =>
    refine ⟨createData_tracks spec level id, ?_⟩
    intro i c hc
    rw [List.getElem?_map] at hc
    obtain ⟨j, hj, rfl⟩ := Option.map_eq_some_iff.mp hc
    obtain ⟨_, rfl⟩ := List.getElem?_eq_some_iff.mp hj
    simpa using ih (level + 1) i

omit [DecidableEq C] in
theorem NodeData.ready_iff {d : NodeData C S} {f : C} {x : ℕ} :
    d.ready f x = true ↔ d.cmdReadyClk f ≤ x := by
  simp only [NodeData.ready, Bool.not_eq_true', Bool.and_eq_false_iff, decide_eq_false_iff_not]
  omega

theorem DataTracks.raiseAll_iff {level id : ℕ} {d : NodeData C S} (h : DataTracks spec level id log d)
    {bound : TimingConsEntry C → Option ℤ} {f : C} {x : ℕ}
    (hbound : ∀ t ∈ spec.timingCons level e.command, Respected (e :: log) level [id] e.command t x ↔
      Respected log level [id] e.command t x ∧ ∀ v, bound t = some v → v ≤ x) :
    raiseAll TimingConsEntry.cmd bound (spec.timingCons level e.command) d.cmdReadyClk f ≤ x ↔
      ∀ p, ∀ t ∈ spec.timingCons level p, t.cmd = f → Respected (e :: log) level [id] p t x := by
  rw [raiseAll_le_iff, h.ready]
  constructor
  · rintro ⟨hold, hnew⟩ p t hmem hcmd
    by_cases hp : e.command = p
    · subst hp
      exact (hbound t hmem).mpr ⟨hold _ t hmem hcmd, hnew t hmem hcmd⟩
    · exact (respected_cons_of_ne hp).mpr (hold p t hmem hcmd)
  · intro hall
    refine ⟨fun p t hmem hcmd => ?_, fun t hmem hcmd => ((hbound t hmem).mp (hall _ t hmem hcmd)).2⟩
    by_cases hp : e.command = p
    · subst hp
      exact ((hbound t hmem).mp (hall _ t hmem hcmd)).1
    · exact (respected_cons_of_ne hp).mp (hall p t hmem hcmd)

theorem DataTracks.sibling {level id : ℕ} {d : NodeData C S} (h : DataTracks spec level id log d)
    (ht : isTarget level id e.addrVec = false) :
    DataTracks spec level id (e :: log)
      (d.updateSibling (spec.timingCons level e.command) e.clk) where
  nodeId := h.nodeId
  history := fun p => by
    rw [clocksAt_cons, if_neg (by simp [addresses_singleton, ht])]
    exact h.history p
  ready := fun f x => h.raiseAll_iff fun t _ => by
    rw [respected_cons_sibling ht]
    cases t.sibling <;> simp

theorem DataTracks.pushHistory {level id : ℕ} {d : NodeData C S}
    (h : DataTracks spec level id log d) (ht : isTarget level id e.addrVec = true) (p : C) :
    d.pushHistory e.command e.clk p =
      recent (spec.historyLength level p) (clocksAt (e :: log) level [id] p) := by
  have haddr : addresses e.addrVec level [id] = true := by rw [addresses_singleton, ht]
  unfold NodeData.pushHistory
  rw [h.history e.command, recent_length]
  by_cases hp : p = e.command
  · have hclocks : clocksAt (e :: log) level [id] p = e.clk :: clocksAt log level [id] p := by
      rw [clocksAt_cons, if_pos ⟨hp.symm, haddr⟩]
    subst hp
    rw [hclocks]
    split
    · rename_i hlen
      rw [Function.update_self, recent_push (Nat.pos_of_ne_zero hlen)]
    · rename_i hlen
      rw [h.history, not_not.mp hlen]
      simp [recent]
  · have hclocks : clocksAt (e :: log) level [id] p = clocksAt log level [id] p := by
      rw [clocksAt_cons, if_neg (fun hc => hp hc.1.symm)]
    rw [hclocks]
    split
    · rw [Function.update_of_ne hp, h.history]
    · exact h.history p

section

variable (hwin : spec.WindowsPositive)

include hwin

/-- The bound `update_timing` computes for a constraint is the one the law asks for. -/
theorem DataTracks.future_le_iff {level id : ℕ} {d : NodeData C S}
    (h : DataTracks spec level id log d) (ht : isTarget level id e.addrVec = true)
    {t : TimingConsEntry C} (hmem : t ∈ spec.timingCons level e.command) (hs : t.sibling = false)
    (x : ℕ) :
    (∀ v, (let past := (d.pushHistory e.command e.clk e.command).getD (t.window - 1) (-1)
        if past < 0 then none else some (past + t.val)) = some v → v ≤ (x : ℤ)) ↔
      Respected (e :: log) level [id] e.command t x := by
  have hpos := hwin level e.command t hmem
  have hle := DramSpec.window_le_historyLength hmem
  rw [h.pushHistory ht, recent_getD (by omega), Respected]
  cases hget : (clocksAt (e :: log) level [id] e.command)[t.window - 1]? with
  | none => simp [hs]
  | some c => simp [hs, show ¬((c : ℤ) < 0) by omega]

theorem DataTracks.target {level id : ℕ} {d : NodeData C S} (h : DataTracks spec level id log d)
    (hlog : Chronological (e :: log)) (ht : isTarget level id e.addrVec = true) :
    DataTracks spec level id (e :: log)
      (d.updateTarget (spec.timingCons level e.command) e.command e.clk) where
  nodeId := h.nodeId
  history := h.pushHistory ht
  ready := fun f x => h.raiseAll_iff fun t hmem => by
    cases hs : t.sibling with
    | false =>
      have hiff := h.future_le_iff hwin ht hmem hs x
      exact ⟨fun hnew => ⟨respected_of_cons_target hlog ht hnew, hiff.mpr hnew⟩, fun hnew => hiff.mp hnew.2⟩
    | true => simp [respected_cons_target_sibling ht hs]

/-- **`update_timing` appends its command to the log a tree tracks.** -/
theorem updateTiming_tracks {n level id : ℕ} {t : Node C S n} (h : Tracks spec level id log t)
    (hlog : Chronological (e :: log)) :
    Tracks spec level id (e :: log) (updateTiming spec e.command e.addrVec e.clk level t) := by
  induction n generalizing level id log with
  | zero =>
    have hid : NodeData.nodeId t = id := DataTracks.nodeId h
    cases ht : isTarget level id e.addrVec
    · simp only [updateTiming, hid, ht, Bool.false_eq_true]
      exact DataTracks.sibling h ht
    · simp only [updateTiming, hid, ht]
      exact DataTracks.target hwin h hlog ht
  | succ n ih =>
    obtain ⟨d, cs⟩ := t
    obtain ⟨hd, hcs⟩ := h
    cases ht : isTarget level id e.addrVec
    · -- an unaddressed node hides the command from its subtree
      simp only [updateTiming, hd.nodeId, ht, Bool.false_eq_true]
      refine ⟨hd.sibling ht, ?_⟩
      intro i c hc
      rw [filter_cons_of_neg (by simp [ht])]
      exact hcs i c hc
    · simp only [updateTiming, hd.nodeId, ht]
      refine ⟨hd.target hwin hlog ht, ?_⟩
      intro i c hc
      rw [getElem?_map] at hc
      obtain ⟨c₀, hc₀, rfl⟩ := Option.map_eq_some_iff.mp hc
      have hchild : Chronological (e :: log.filter fun e => isTarget level id e.addrVec) := by
        have hf := List.Pairwise.filter (fun e : TimingEvent C => isTarget level id e.addrVec) hlog
        rwa [filter_cons_of_pos (by simpa using ht)] at hf
      rw [filter_cons_of_pos (by simpa using ht)]
      exact ih (hcs i c₀ hc₀) hchild

theorem issueAll_tracks {n id : ℕ} {root : Node C S n} (h : Tracks spec 0 id [] root)
    (hlog : Chronological log) : Tracks spec 0 id log (issueAll spec root log) := by
  induction log with
  | nil => exact h
  | cons e older ih => exact updateTiming_tracks hwin (ih hlog.of_cons) hlog

end

/-! ## `check_ready` decides the law -/

/-- Below an addressed node the law of the whole log is the law of the commands that got there. -/
theorem respected_filter {level id i : ℕ} {path : List ℕ} {p : C} {t : TimingConsEntry C}
    {x : ℕ} :
    Respected (log.filter fun e => isTarget level id e.addrVec) (level + 1) (i :: path) p t x ↔
      Respected log level (id :: i :: path) p t x := by
  have hclocks : clocksAt (log.filter fun e => isTarget level id e.addrVec) (level + 1)
      (i :: path) p = clocksAt log level (id :: i :: path) p := by
    unfold clocksAt
    rw [List.filter_filter]
    congr 2
    funext e
    simp only [addresses]
    cases isTarget level id e.addrVec <;> simp
  unfold Respected
  rw [hclocks]
  split
  · simp only [mem_filter, addressesSibling, Bool.and_eq_true, and_imp]
    exact ⟨fun h e he hp ht hsib => h e he ht hp hsib, fun h e he ht hp hsib => h e he hp ht hsib⟩
  · rfl

omit [DecidableEq C] in
theorem children_checked_iff {n : ℕ} {cs : List (Node C S n)} {f : Node C S n → Bool}
    {addrVec : AddrVec} {level : ℕ} :
    (if addrVec.level level = -1 then cs.all f
      else match childAt cs (addrVec.level level) with
        | some c => f c
        | none => true) = true ↔
      ∀ i c, cs[i]? = some c → isTarget level i addrVec = true → f c = true := by
  unfold isTarget
  cases hv : addrVec.level level with
  | ofNat k =>
    rw [if_neg (by simp)]
    simp only [childAt]
    constructor
    · intro h i c hc hi
      obtain rfl : k = i := by simpa using hi
      simpa [hc] using h
    · intro h
      cases hk : cs[k]? with
      | none => rfl
      | some c => exact h k c hk (by simp)
  | negSucc k =>
    by_cases hk : k = 0
    · subst hk
      rw [if_pos (by rfl), List.all_eq_true]
      constructor
      · exact fun h i c hc _ => h c (mem_of_getElem? hc)
      · intro h c hc
        obtain ⟨i, hi⟩ := mem_iff_getElem?.mp hc
        exact h i c hi (by simp)
    · have hne : Int.negSucc k ≠ -1 := by omega
      simp only [if_neg hne, childAt, true_iff]
      intro i c _ hi
      simp [hne] at hi

omit [DecidableEq C] in
theorem checkReady_succ_iff {n level : ℕ} {d : NodeData C S} {cs : List (Node C S n)} {cmd : C}
    {addrVec : AddrVec} {x : ℕ} :
    checkReady (n := n + 1) spec cmd addrVec x level (d, cs) = true ↔
      d.ready cmd x = true ∧ (level ≠ spec.commandScopes cmd → ∀ i c, cs[i]? = some c →
        isTarget (level + 1) i addrVec = true →
          checkReady spec cmd addrVec x (level + 1) c = true) := by
  have heq : checkReady (n := n + 1) spec cmd addrVec x level (d, cs) =
      if !d.ready cmd x then false
      else if level = spec.commandScopes cmd then true
      else if addrVec.level (level + 1) = -1 then
        cs.all (checkReady spec cmd addrVec x (level + 1))
      else match childAt cs (addrVec.level (level + 1)) with
        | some c => checkReady spec cmd addrVec x (level + 1) c
        | none => true := rfl
  rw [heq, ← children_checked_iff]
  cases d.ready cmd x
  · simp
  · by_cases hl : level = spec.commandScopes cmd <;> simp [hl]

theorem checkReady_iff_of_tracks {n level id : ℕ} {t : Node C S n} {cmd : C} (addrVec : AddrVec)
    (x : ℕ) (h : Tracks spec level id log t) (hscope : level ≤ spec.commandScopes cmd) :
    checkReady spec cmd addrVec x level t = true ↔
      ∀ path, (t.get? path).isSome → addresses addrVec (level + 1) path = true →
        level + path.length ≤ spec.commandScopes cmd →
          ∀ p, ∀ c ∈ spec.timingCons (level + path.length) p, c.cmd = cmd →
            Respected log level (id :: path) p c x := by
  induction n generalizing level id log with
  | zero =>
    simp only [checkReady]
    rw [NodeData.ready_iff, DataTracks.ready h]
    constructor
    · intro hlaw path hpath _ _
      cases path with
      | nil => exact hlaw
      | cons i path => simp [get?] at hpath
    · intro hlaw
      exact hlaw [] rfl rfl (by simpa using hscope)
  | succ n ih =>
    obtain ⟨d, cs⟩ := t
    obtain ⟨hd, hcs⟩ := h
    rw [checkReady_succ_iff, NodeData.ready_iff, hd.ready]
    constructor
    · rintro ⟨hself, hbelow⟩ path hpath haddr hlen
      cases path with
      | nil => exact hself
      | cons i path =>
        obtain ⟨hi, haddr⟩ := Bool.and_eq_true_iff.mp haddr
        simp only [length_cons] at hlen
        cases hc : cs[i]? with
        | none => simp [get?, children, hc] at hpath
        | some c =>
          have hpath' : (c.get? path).isSome := by
            simpa [get?, children, hc] using hpath
          have hchild := (ih (hcs i c hc) (by omega)).mp (hbelow (by omega) i c hc hi) path
            hpath' haddr (by omega)
          intro p t hmem hcmd
          rw [length_cons, Nat.add_comm path.length, ← Nat.add_assoc] at hmem
          exact respected_filter.mp (hchild p t hmem hcmd)
    · intro hlaw
      refine ⟨hlaw [] rfl rfl (by simpa using hscope), ?_⟩
      intro hne i c hc hi
      rw [ih (hcs i c hc) (by omega)]
      intro path hpath haddr hlen p t hmem hcmd
      refine respected_filter.mpr (hlaw (i :: path) ?_ ?_ ?_ p t ?_ hcmd)
      · simpa [get?, children, hc] using hpath
      · exact Bool.and_eq_true_iff.mpr ⟨hi, haddr⟩
      · simp only [length_cons]; omega
      · rwa [length_cons, Nat.add_comm path.length, ← Nat.add_assoc]

end

/-- **The timing engine is exact.** After any commands at non-decreasing clocks, `check_ready` says yes
exactly when every constraint on the command holds, at every node the address names to its scope. -/
theorem checkReady_iff_constraints_respected [DecidableEq C] (spec : DramSpec C S)
    (hwin : spec.WindowsPositive) (n id : ℕ) (log : List (TimingEvent C))
    (hlog : Chronological log) (cmd : C) (addrVec : AddrVec) (clk : ℕ) :
    checkReady spec cmd addrVec clk 0 (issueAll spec (spec.create n 0 id) log) = true ↔
      ∀ path, ((issueAll spec (spec.create n 0 id) log).get? path).isSome →
        addresses addrVec 1 path = true → path.length ≤ spec.commandScopes cmd →
          ∀ p, ∀ t ∈ spec.timingCons path.length p, t.cmd = cmd →
            Respected log 0 (id :: path) p t clk := by
  have htracks := issueAll_tracks hwin (create_tracks spec n 0 id) hlog
  simpa using checkReady_iff_of_tracks addrVec clk htracks
    (Nat.zero_le (spec.commandScopes cmd))

/-- A command waits four cycles for the second last on its rank, two for the last on the other. -/
def twoRanks : DramSpec Unit Unit where
  count := fun _ => 2
  commandScopes := fun _ => 1
  timingCons := fun level _ =>
    if level = 1 then [⟨(), 4, 2, false⟩, ⟨(), 2, 1, true⟩] else []
  initStates := fun _ => ()
  actions := fun _ _ => none
  preqs := fun _ _ => none
  rowhits := fun _ _ => none
  rowopens := fun _ _ => none

/-- At clock 7 rank 0 accepts a third command. -/
theorem twoRanks_third_command_respected :
    let log : List (TimingEvent Unit) := [⟨(), [0, 1], 5⟩, ⟨(), [0, 0], 4⟩, ⟨(), [0, 0], 3⟩]
    Respected log 0 [0, 0] () ⟨(), 4, 2, false⟩ 7 ∧ Respected log 0 [0, 0] () ⟨(), 2, 1, true⟩ 7 := by
  intro log
  have hwin : twoRanks.WindowsPositive := by
    intro level p t ht
    simp only [twoRanks] at ht
    split at ht
    · simp only [mem_cons, not_mem_nil, or_false] at ht
      rcases ht with rfl | rfl <;> decide
    · cases ht
  have hlaw := (checkReady_iff_constraints_respected twoRanks hwin 1 0 log (by decide) () [0, 0]
    7).mp (by decide +kernel) [0] rfl (by decide) (by decide) ()
  exact ⟨hlaw _ (by simp [twoRanks]) rfl, hlaw _ (by simp [twoRanks]) rfl⟩

end MultiCoreMemory
