import MultiCoreMemory.Dram.TimingLaw

/-!
# What the two passes over a tree leave alone

`issue_command` runs `update_timing` and then `update_states` over a channel.
-/

namespace MultiCoreMemory

variable {C S : Type}

structure NodeView (S : Type) where
  state : S
  rowState : UnorderedMap ℤ S

def NodeData.view (d : NodeData C S) : NodeView S := ⟨d.state, d.rowState⟩

/-- The clocks and the history are the same. -/
structure NodeData.SameTiming (d d' : NodeData C S) : Prop where
  nodeId : d'.nodeId = d.nodeId
  ready : d'.cmdReadyClk = d.cmdReadyClk
  history : d'.cmdHistory = d.cmdHistory

namespace Node

section

variable {n : ℕ} {cs : List (Node C S n)} {f : Node C S n → Node C S n}

theorem childAt_eq_some_iff {id : ℤ} {c : Node C S n} :
    childAt cs id = some c ↔ ∃ i : ℕ, id = i ∧ cs[i]? = some c := by
  cases id with
  | ofNat k => simp [childAt]
  | negSucc k => simp [childAt]

theorem getElem?_modifyChild (id : ℤ) (i : ℕ) :
    (modifyChild cs f id)[i]? = cs[i]?.map fun c => if id = i then f c else c := by
  cases id with
  | ofNat k =>
    by_cases h : k = i
    · simp [modifyChild, h]
    · simp [modifyChild, h]
  | negSucc k => simp [modifyChild]

theorem getElem?_children_pass (addrVec : AddrVec) (level i : ℕ) :
    (if addrVec.level level = -1 then cs.map f else modifyChild cs f (addrVec.level level))[i]? =
      cs[i]?.map fun c => if isTarget level i addrVec = true then f c else c := by
  by_cases h : addrVec.level level = -1
  · simp [h, isTarget]
  · rw [if_neg h, getElem?_modifyChild]
    simp [isTarget, h]

theorem get?_cons (t : Node C S (n + 1)) (i : ℕ) (path : List ℕ) :
    t.get? (i :: path) = t.children[i]?.bind fun c => c.get? path := rfl

theorem create_get?_cons (spec : DramSpec C S) (n level id i : ℕ) (path : List ℕ) :
    (spec.create (n + 1) level id).get? (i :: path) =
      if i < spec.count (level + 1) then (spec.create n (level + 1) i).get? path else none := by
  simp only [DramSpec.create, get?, children, List.getElem?_map]
  by_cases h : i < spec.count (level + 1)
  · simp [h]
  · simp [h]

theorem getPreqCommand_child (spec : DramSpec C S) (command : C) {addrVec : AddrVec} {level i : ℕ}
    {t : Node C S (n + 1)} {c : Node C S n} (hpreq : spec.preqs level command = none)
    (haddr : addrVec.level (level + 1) = i) (hc : t.children[i]? = some c) :
    getPreqCommand spec command addrVec level t = getPreqCommand spec command addrVec (level + 1) c := by
  have hchild : childAt t.children (addrVec.level (level + 1)) = some c :=
    childAt_eq_some_iff.mpr ⟨i, haddr, hc⟩
  simp only [getPreqCommand, preqAt, hpreq, hchild]

end

/-! ## The timing pass -/

variable {spec : DramSpec C S}

theorem get?_updateTiming [DecidableEq C] (command : C) (addrVec : AddrVec) (clk : ℕ) {n : ℕ}
    (level : ℕ) (t : Node C S n) (path : List ℕ) :
    ((updateTiming spec command addrVec clk level t).get? path).map NodeData.view =
      (t.get? path).map NodeData.view := by
  induction n generalizing level path with
  | zero =>
    cases path with
    | nil => simp only [updateTiming]; split <;> rfl
    | cons i path => rfl
  | succ n ih =>
    obtain ⟨d, cs⟩ := t
    by_cases ht : isTarget level d.nodeId addrVec = true
    · simp only [updateTiming, ht, if_true]
      cases path with
      | nil => rfl
      | cons i path =>
        simp only [get?, children, List.getElem?_map]
        cases cs[i]? with
        | none => rfl
        | some c => exact ih (level + 1) c path
    · simp only [updateTiming, ht]
      cases path <;> rfl

/-! ## The state pass -/

def SameTiming : {n : ℕ} → Node C S n → Node C S n → Prop
  | 0, d, d' => NodeData.SameTiming d d'
  | n + 1, (d, cs), (d', cs') =>
    d.SameTiming d' ∧ ∀ (i : ℕ) (c' : Node C S n), cs'[i]? = some c' →
      ∃ c : Node C S n, cs[i]? = some c ∧ SameTiming c c'

theorem SameTiming.refl {n : ℕ} (t : Node C S n) : SameTiming t t := by
  induction n with
  | zero => exact ⟨rfl, rfl, rfl⟩
  | succ n ih => exact ⟨⟨rfl, rfl, rfl⟩, fun _ c' hc' => ⟨c', hc', ih c'⟩⟩

theorem SameTiming.trans {n : ℕ} {t t' t'' : Node C S n} (h : SameTiming t t')
    (h' : SameTiming t' t'') : SameTiming t t'' := by
  induction n with
  | zero =>
    exact ⟨h'.nodeId.trans h.nodeId, h'.ready.trans h.ready, h'.history.trans h.history⟩
  | succ n ih =>
    obtain ⟨⟨hid, hready, hhist⟩, hcs⟩ := h
    obtain ⟨⟨hid', hready', hhist'⟩, hcs'⟩ := h'
    refine ⟨⟨hid'.trans hid, hready'.trans hready, hhist'.trans hhist⟩, ?_⟩
    intro i c'' hc''
    obtain ⟨c', hc', hsame'⟩ := hcs' i c'' hc''
    obtain ⟨c, hc, hsame⟩ := hcs i c' hc'
    exact ⟨c, hc, ih hsame hsame'⟩

theorem modifyData_sameTiming {f : NodeData C S → NodeData C S} (hf : ∀ d : NodeData C S, d.SameTiming (f d))
    {n : ℕ} (t : Node C S n) : SameTiming t (t.modifyData f) := by
  cases n with
  | zero => exact hf t
  | succ n => exact ⟨hf t.1, fun _ c' hc' => ⟨c', hc', SameTiming.refl c'⟩⟩

theorem sameTiming_of_children {n : ℕ} {d : NodeData C S} {cs cs' : List (Node C S n)}
    {f : ℕ → Node C S n → Node C S n} (hf : ∀ i c, SameTiming c (f i c))
    (hcs : ∀ i, cs'[i]? = cs[i]?.map (f i)) :
    SameTiming (n := n + 1) (d, cs) (d, cs') := by
  refine ⟨⟨rfl, rfl, rfl⟩, fun i c' hc' => ?_⟩
  rw [hcs i] at hc'
  obtain ⟨c, hc, rfl⟩ := Option.map_eq_some_iff.mp hc'
  exact ⟨c, hc, hf i c⟩

theorem act_sameTiming
    (hact : ∀ level cmd action, spec.actions level cmd = some action →
      ∀ n (t : Node C S n) childId, SameTiming t (action n t childId))
    (command : C) (level : ℕ) (childId : ℤ) {n : ℕ} (t : Node C S n) :
    SameTiming t (act spec command level childId t) := by
  unfold act
  split
  · rename_i action h
    exact hact _ _ _ h _ _ _
  · exact SameTiming.refl t

theorem updateStates_sameTiming
    (hact : ∀ level cmd action, spec.actions level cmd = some action →
      ∀ n (t : Node C S n) childId, SameTiming t (action n t childId))
    (command : C) (addrVec : AddrVec) {n : ℕ} (level : ℕ) (t : Node C S n) :
    SameTiming t (updateStates spec command addrVec level t) := by
  induction n generalizing level with
  | zero => exact act_sameTiming hact command level (addrVec.level (level + 1)) t
  | succ n ih =>
    have hhead := act_sameTiming hact command level (addrVec.level (level + 1)) t
    refine hhead.trans ?_
    simp only [updateStates]
    split
    · exact SameTiming.refl _
    · rw [← apply_ite (Prod.mk _)]
      refine sameTiming_of_children
        (f := fun i c => if isTarget (level + 1) i addrVec = true then
          updateStates spec command addrVec (level + 1) c else c) ?_
        fun i => getElem?_children_pass addrVec (level + 1) i
      intro i c
      split
      · exact ih (level + 1) c
      · exact SameTiming.refl c

theorem updateStates_of_scope {command : C} {addrVec : AddrVec} {n level : ℕ}
    (hscope : level = spec.commandScopes command) (t : Node C S (n + 1)) :
    updateStates spec command addrVec level t =
      act spec command level (addrVec.level (level + 1)) t := by
  simp [updateStates, ← hscope]

theorem updateStates_get?_cons {command : C} {addrVec : AddrVec} {n level : ℕ}
    (hact : spec.actions level command = none) (hscope : level ≠ spec.commandScopes command)
    (t : Node C S (n + 1)) (i : ℕ) (path : List ℕ) :
    (updateStates spec command addrVec level t).get? (i :: path) =
      t.children[i]?.bind fun c =>
        (if isTarget (level + 1) i addrVec = true then
          updateStates spec command addrVec (level + 1) c else c).get? path := by
  obtain ⟨d, cs⟩ := t
  simp only [updateStates, act, hact, if_neg hscope, ← apply_ite (Prod.mk d), get?, children]
  rw [getElem?_children_pass]
  cases cs[i]? <;> rfl

end Node

theorem Tracks.of_sameTiming [DecidableEq C] {spec : DramSpec C S} {n level id : ℕ}
    {log : List (TimingEvent C)} {t t' : Node C S n} (h : Tracks spec level id log t)
    (hsame : Node.SameTiming t t') : Tracks spec level id log t' := by
  induction n generalizing level id log with
  | zero =>
    have h : DataTracks spec level id log t := h
    obtain ⟨hid, hready, hhist⟩ : NodeData.SameTiming t t' := hsame
    exact ⟨hid.trans h.nodeId, fun p => hhist ▸ h.history p, fun f x => hready ▸ h.ready f x⟩
  | succ n ih =>
    obtain ⟨hd, hcs⟩ := h
    obtain ⟨⟨hid, hready, hhist⟩, hchildren⟩ := hsame
    refine ⟨⟨hid.trans hd.nodeId, fun p => hhist ▸ hd.history p,
      fun f x => hready ▸ hd.ready f x⟩, ?_⟩
    intro i c' hc'
    obtain ⟨c, hc, hsame⟩ := hchildren i c' hc'
    exact ih (hcs i c hc) hsame

end MultiCoreMemory
