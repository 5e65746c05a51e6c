import MultiCoreMemory.Frontend.SimpleO3Core
import MultiCoreMemory.Lib.RingBuffer

/-!
# The instruction window is a queue

Its slots from the tail on are the instructions in flight, oldest first.
-/

namespace MultiCoreMemory.InstWindow

open RingBuffer List Nat

variable {w : InstWindow}

def slot (w : InstWindow) (i : ℕ) : Bool × ℤ := (w.readyList.getD i false, w.addrList.getD i (-1))

def slots (w : InstWindow) : List (Bool × ℤ) := contents w.slot w.depth w.tailIdx w.load

@[simp] theorem length_slots (w : InstWindow) : w.slots.length = w.load := length_contents

structure WellFormed (w : InstWindow) : Prop where
  readyLength : w.readyList.length = w.depth
  addrLength : w.addrList.length = w.depth
  load_le : w.load ≤ w.depth
  tail : w.tailIdx % w.depth = w.tailIdx
  head : w.headIdx = (w.tailIdx + w.load) % w.depth

theorem wellFormed_create (ipc depth : ℕ) : WellFormed (create ipc depth) where
  readyLength := length_replicate
  addrLength := length_replicate
  load_le := zero_le _
  tail := zero_mod _
  head := (zero_mod _).symm

/-! ## `insert` -/

theorem getD_set_self {α : Type} {l : List α} {i : ℕ} (h : i < l.length) (a d : α) :
    (l.set i a).getD i d = a := by
  rw [getD_eq_getElem?_getD, getElem?_set_self h]
  rfl

theorem getD_set_ne {α : Type} {l : List α} {i j : ℕ} (h : i ≠ j) (a d : α) :
    (l.set i a).getD j d = l.getD j d := by
  rw [getD_eq_getElem?_getD, getElem?_set_ne h, getD_eq_getElem?_getD]

theorem getElem?_eq_some_getD {α : Type} {l : List α} {i : ℕ} (h : i < l.length) (d : α) :
    l[i]? = some (l.getD i d) := by
  rw [getD_eq_getElem?_getD, getElem?_eq_getElem h]
  rfl

theorem WellFormed.head_lt (h : WellFormed w) (hroom : w.load < w.depth) : w.headIdx < w.depth := by
  rw [h.head]
  exact mod_lt _ (zero_lt_of_lt hroom)

theorem WellFormed.insert (h : WellFormed w) (hroom : w.load < w.depth) (ready : Bool) (addr : ℤ) :
    WellFormed (w.insert ready addr) where
  readyLength := by
    show (w.readyList.set _ _).length = w.depth
    rw [length_set, h.readyLength]
  addrLength := by
    show (w.addrList.set _ _).length = w.depth
    rw [length_set, h.addrLength]
  load_le := hroom
  tail := h.tail
  head := by
    show (w.headIdx + 1) % w.depth = (w.tailIdx + (w.load + 1)) % w.depth
    rw [h.head, mod_add_mod, add_assoc]

theorem insert_slots (h : WellFormed w) (hroom : w.load < w.depth) (ready : Bool) (addr : ℤ) :
    (w.insert ready addr).slots = w.slots ++ [(ready, addr)] := by
  have hlt := h.head_lt hroom
  have hnew : (w.insert ready addr).slot w.headIdx = (ready, addr) := by
    refine Prod.ext ?_ ?_
    · exact getD_set_self (by rw [h.readyLength]; exact hlt) _ _
    · exact getD_set_self (by rw [h.addrLength]; exact hlt) _ _
  rw [← hnew, h.head]
  refine contents_push hroom ?_
  intro i hi
  have hne : w.headIdx ≠ i := by
    rw [h.head]
    exact hi.symm
  refine Prod.ext ?_ ?_
  · exact getD_set_ne hne _ _
  · exact getD_set_ne hne _ _

/-! ## `retire` -/

def pop (w : InstWindow) : InstWindow :=
  { w with tailIdx := (w.tailIdx + 1) % w.depth, load := w.load - 1 }

theorem WellFormed.pop (h : WellFormed w) (hload : 0 < w.load) : WellFormed w.pop where
  readyLength := h.readyLength
  addrLength := h.addrLength
  load_le := (sub_le _ _).trans h.load_le
  tail := mod_mod _ _
  head := by
    show w.headIdx = ((w.tailIdx + 1) % w.depth + (w.load - 1)) % w.depth
    rw [h.head, mod_add_mod]
    congr 1
    omega

theorem slots_eq_cons (h : WellFormed w) (hload : 0 < w.load) :
    w.slots = w.slot w.tailIdx :: w.pop.slots := by
  obtain ⟨n, hn⟩ : ∃ n, w.load = n + 1 := ⟨w.load - 1, by omega⟩
  unfold slots
  rw [hn, contents_pop, h.tail]
  show _ = _ :: contents w.slot w.depth ((w.tailIdx + 1) % w.depth) (w.load - 1)
  rw [hn, Nat.add_sub_cancel]

theorem WellFormed.tail_lt (h : WellFormed w) (hload : 0 < w.load) : w.tailIdx < w.depth := by
  rw [← h.tail]
  exact mod_lt _ (lt_of_lt_of_le hload h.load_le)

theorem readyList_tail (h : WellFormed w) (hload : 0 < w.load) :
    w.readyList[w.tailIdx]? = some (w.slot w.tailIdx).1 := by
  refine getElem?_eq_some_getD ?_ false
  rw [h.readyLength]
  exact h.tail_lt hload

variable (n : ℕ)

variable (slots : List (Bool × ℤ)) (addr : ℤ) (s : Bool × ℤ)

def retired : ℕ := ((slots.take n).takeWhile fun s => s.1).length

theorem retired_nil : retired n [] = 0 := by
  simp [retired]

theorem retired_cons (slots : List (Bool × ℤ)) :
    retired (n + 1) (s :: slots) = if s.1 then retired n slots + 1 else 0 := by
  unfold retired
  rw [take_succ_cons, takeWhile_cons]
  split <;> rfl

theorem retired_le_length : retired n slots ≤ slots.length :=
  ((takeWhile_sublist _).trans (take_sublist n slots)).length_le

theorem ready_of_mem_take_retired {n : ℕ} {slots : List (Bool × ℤ)} {s : Bool × ℤ}
    (h : s ∈ slots.take (retired n slots)) : s.1 = true := by
  induction n generalizing slots with
  | zero =>
    rw [show retired 0 slots = 0 by simp [retired]] at h
    cases h
  | succ n ih =>
    cases slots with
    | nil =>
      rw [take_nil] at h
      cases h
    | cons s' slots =>
      rw [retired_cons] at h
      split at h
      · rename_i hready
        rw [take_succ_cons] at h
        rcases mem_cons.mp h with rfl | h
        · exact hready
        · exact ih h
      · cases h

theorem retireLoop_spec (h : WellFormed w) :
    WellFormed (retireLoop n w).2 ∧ (retireLoop n w).1 = retired n w.slots ∧
      (retireLoop n w).2.slots = w.slots.drop (retired n w.slots) ∧
      (retireLoop n w).2.ipc = w.ipc := by
  induction n generalizing w with
  | zero => exact ⟨h, by simp [retired, retireLoop], by simp [retired, retireLoop], rfl⟩
  | succ n ih =>
    by_cases hload : 0 < w.load
    · have hcons := slots_eq_cons h hload
      have htail := readyList_tail h hload
      rw [hcons, retired_cons]
      unfold retireLoop
      rw [htail]
      cases hready : (w.slot w.tailIdx).1 with
      | true =>
        obtain ⟨hwf, hcount, hslots, hipc⟩ := ih (h.pop hload)
        rw [if_pos ⟨hload, rfl⟩, if_pos rfl, drop_succ_cons]
        exact ⟨hwf, congrArg (· + 1) hcount, hslots, hipc⟩
      | false =>
        rw [if_neg (by simp), if_neg (by simp), drop_zero, ← hcons]
        exact ⟨h, rfl, rfl, rfl⟩
    · have hnil : w.slots = [] := by
        rw [← length_eq_zero_iff, length_slots]
        omega
      rw [hnil, retired_nil]
      unfold retireLoop
      rw [if_neg (fun hc => hload hc.1)]
      exact ⟨h, rfl, hnil, rfl⟩

theorem load_retireLoop (w : InstWindow) :
    (retireLoop n w).2.load + (retireLoop n w).1 = w.load := by
  induction n generalizing w with
  | zero => rfl
  | succ n ih =>
    unfold retireLoop
    split
    · rename_i hready
      have hrest := ih { w with tailIdx := (w.tailIdx + 1) % w.depth, load := w.load - 1 }
      dsimp only at hrest ⊢
      omega
    · rfl

theorem WellFormed.retire (h : WellFormed w) : WellFormed w.retire.2 := (retireLoop_spec w.ipc h).1

theorem retire_fst (h : WellFormed w) : w.retire.1 = retired w.ipc w.slots :=
  (retireLoop_spec w.ipc h).2.1

theorem retire_slots (h : WellFormed w) :
    w.retire.2.slots = w.slots.drop (retired w.ipc w.slots) :=
  (retireLoop_spec w.ipc h).2.2.1

/-! ## `set_ready` -/

def markReady : Bool × ℤ := (s.1 || decide (s.2 = addr), s.2)

structure SameButReady (w w' : InstWindow) : Prop where
  ipc : w'.ipc = w.ipc
  depth : w'.depth = w.depth
  load : w'.load = w.load
  headIdx : w'.headIdx = w.headIdx
  tailIdx : w'.tailIdx = w.tailIdx
  addrList : w'.addrList = w.addrList
  readyLength : w'.readyList.length = w.readyList.length

theorem SameButReady.wellFormed {w' : InstWindow} (hsame : SameButReady w w') (h : WellFormed w) :
    WellFormed w' where
  readyLength := by rw [hsame.readyLength, hsame.depth, h.readyLength]
  addrLength := by rw [hsame.addrList, hsame.depth, h.addrLength]
  load_le := by rw [hsame.load, hsame.depth]; exact h.load_le
  tail := by rw [hsame.tailIdx, hsame.depth, h.tail]
  head := by rw [hsame.headIdx, hsame.tailIdx, hsame.load, hsame.depth, h.head]

theorem SameButReady.refl (w : InstWindow) : SameButReady w w := ⟨rfl, rfl, rfl, rfl, rfl, rfl, rfl⟩

theorem setReadyLoop_same (n index : ℕ) (w : InstWindow) :
    SameButReady w (setReadyLoop addr n index w) := by
  induction n generalizing index w with
  | zero => exact .refl w
  | succ n ih =>
    unfold setReadyLoop
    split
    · obtain ⟨hipc, hdepth, hload, hhead, htail, haddr, hlen⟩ := ih
        (if index + 1 = w.depth then 0 else index + 1)
        { w with readyList := w.readyList.set index true }
      exact ⟨hipc, hdepth, hload, hhead, htail, haddr, hlen.trans length_set⟩
    · exact ih _ w

theorem next_index {index depth : ℕ} (h : index < depth) :
    (if index + 1 = depth then 0 else index + 1) = (index + 1) % depth := by
  split
  · rename_i hwrap
    rw [hwrap, mod_self]
  · rw [mod_eq_of_lt (by omega)]

theorem getD_set_true_iff {l : List Bool} {index : ℕ} (h : index < l.length) (i : ℕ) :
    (l.set index true).getD i false = true ↔ l.getD i false = true ∨ index = i := by
  by_cases hi : index = i
  · subst hi
    rw [getD_set_self h]
    simp
  · rw [getD_set_ne hi]
    simp [hi]

theorem setReadyLoop_ready (n : ℕ) {index : ℕ} (hindex : index < w.depth)
    (hready : w.readyList.length = w.depth) (haddr : w.addrList.length = w.depth) (i : ℕ) :
    (setReadyLoop addr n index w).readyList.getD i false = true ↔
      w.readyList.getD i false = true ∨
        (∃ j < n, (index + j) % w.depth = i) ∧ w.addrList.getD i (-1) = addr := by
  induction n generalizing index w with
  | zero =>
    refine ⟨.inl, ?_⟩
    rintro (h | ⟨⟨j, hj, -⟩, -⟩)
    · exact h
    · omega
  | succ n ih =>
    have hlt : (index + 1) % w.depth < w.depth := mod_lt _ (zero_lt_of_lt hindex)
    have hget : w.addrList[index]? = some (w.addrList.getD index (-1)) :=
      getElem?_eq_some_getD (by rw [haddr]; exact hindex) (-1)
    rw [exists_slot_succ, mod_eq_of_lt hindex]
    unfold setReadyLoop
    rw [hget]
    by_cases hmatch : w.addrList.getD index (-1) = addr
    · have hrest := ih (w := { w with readyList := w.readyList.set index true }) hlt
        (length_set.trans hready) haddr
      rw [if_pos (congrArg some hmatch)]
      dsimp only
      rw [next_index hindex, hrest, getD_set_true_iff (hready ▸ hindex)]
      constructor
      · rintro ((h | rfl) | ⟨hlater, ha⟩)
        · exact .inl h
        · exact .inr ⟨.inl rfl, hmatch⟩
        · exact .inr ⟨.inr hlater, ha⟩
      · rintro (h | ⟨rfl | hlater, ha⟩)
        · exact .inl (.inl h)
        · exact .inl (.inr rfl)
        · exact .inr ⟨hlater, ha⟩
    · have hrest := ih hlt hready haddr
      rw [if_neg (fun h => hmatch (Option.some.inj h))]
      dsimp only
      rw [next_index hindex, hrest]
      constructor
      · rintro (h | ⟨hlater, ha⟩)
        · exact .inl h
        · exact .inr ⟨.inr hlater, ha⟩
      · rintro (h | ⟨rfl | hlater, ha⟩)
        · exact .inl h
        · exact absurd ha hmatch
        · exact .inr ⟨hlater, ha⟩

theorem WellFormed.setReady (h : WellFormed w) (addr : ℤ) : WellFormed (w.setReady addr) :=
  (setReadyLoop_same addr w.load w.tailIdx w).wellFormed h

theorem setReady_slots (h : WellFormed w) (addr : ℤ) :
    (w.setReady addr).slots = w.slots.map (markReady addr) := by
  have hsame := setReadyLoop_same addr w.load w.tailIdx w
  unfold slots setReady
  rw [hsame.depth, hsame.tailIdx, hsame.load]
  refine contents_map (markReady addr) ?_
  intro j hj
  have htail := h.tail_lt (zero_lt_of_lt hj)
  have hloop := setReadyLoop_ready addr w.load htail h.readyLength h.addrLength
    ((w.tailIdx + j) % w.depth)
  refine Prod.ext ?_ ?_
  · show (setReadyLoop addr w.load w.tailIdx w).readyList.getD _ false =
      (w.readyList.getD _ false || decide (w.addrList.getD _ (-1) = addr))
    rw [Bool.eq_iff_iff, hloop, Bool.or_eq_true, decide_eq_true_iff]
    exact or_congr_right ⟨fun hvisited => hvisited.2, fun haddr => ⟨⟨j, hj, rfl⟩, haddr⟩⟩
  · show (setReadyLoop addr w.load w.tailIdx w).addrList.getD _ (-1) = w.addrList.getD _ (-1)
    rw [hsame.addrList]

end MultiCoreMemory.InstWindow

/-! ## A cycle of a core -/

namespace MultiCoreMemory.SimpleO3Core

open InstWindow

variable {C τ : Type} {translate : Translate C τ} {accept : Bool} {c c' : SimpleO3Core} {t t' : τ}
  {attempt : Option (Attempt C)} {w : InstWindow}

theorem not_isFull (h : WellFormed w) (hfull : ¬ w.isFull = true) : w.load < w.depth := by
  have hne : w.load ≠ w.depth := by simpa [isFull] using hfull
  have hle := h.load_le
  omega

def bubble : Bool × ℤ := (true, -1)

theorem insertBubbles_slots (n inserted : ℕ) (h : WellFormed w) :
    WellFormed (insertBubbles n inserted w).2.2.2 ∧
      ∃ k, (insertBubbles n inserted w).2.2.2.slots = w.slots ++ List.replicate k bubble := by
  induction n generalizing inserted w with
  | zero => exact ⟨h, 0, (List.append_nil _).symm⟩
  | succ n ih =>
    unfold insertBubbles
    split
    · exact ⟨h, 0, (List.append_nil _).symm⟩
    · split
      · exact ⟨h, 0, (List.append_nil _).symm⟩
      · rename_i hfull
        have hroom := not_isFull h hfull
        obtain ⟨hwf, k, hk⟩ := ih (inserted + 1) (h.insert hroom true (-1))
        refine ⟨hwf, k + 1, ?_⟩
        rw [hk, insert_slots h hroom, List.append_assoc]
        rfl

theorem insertBubbles_load (n inserted : ℕ) (w : InstWindow) :
    (insertBubbles n inserted w).2.1 ≤ n ∧
      (insertBubbles n inserted w).2.2.2.load + (insertBubbles n inserted w).2.1 = w.load + n ∧
      ((insertBubbles n inserted w).1 = true → (insertBubbles n inserted w).2.1 = 0) := by
  induction n generalizing inserted w with
  | zero => exact ⟨le_rfl, rfl, fun _ => rfl⟩
  | succ n ih =>
    unfold insertBubbles
    split
    · exact ⟨le_rfl, rfl, fun h => nomatch h⟩
    split
    · exact ⟨le_rfl, rfl, fun h => nomatch h⟩
    · obtain ⟨hle, hload, hdone⟩ := ih (inserted + 1) (w.insert true (-1))
      have hinsert : (w.insert true (-1)).load = w.load + 1 := rfl
      exact ⟨by omega, by omega, hdone⟩

def issuesLoad (c : SimpleO3Core) (attempt : Option (Attempt C)) : Bool :=
  decide (c.loadAddr ≠ -1) && attempt.any fun a => a.accepted

inductive LoadAdded (translate : Translate C τ) (accept : Bool) (c : SimpleO3Core) (t t' : τ)
    (attempt : Option (Attempt C)) : List (Bool × ℤ) → Prop
  | none : c.issuesLoad attempt = false → LoadAdded translate accept c t t' attempt []
  | load {req : Request C} : c.issuesLoad attempt = true → accept = true → c.loadAddr ≠ -1 →
      translate (c.request c.loadAddr typeRead) t = some (true, req, t') →
      LoadAdded translate accept c t t' attempt [(false, req.addr)]

theorem loadSent_window (c : SimpleO3Core) (req : Request C) :
    (c.loadSent req).window = c.window.insert false req.addr ∧
      (c.loadSent req).instsRetired = c.instsRetired := by
  unfold loadSent
  dsimp only
  split <;> exact ⟨rfl, rfl⟩

theorem sendLoad_slots {inserted : ℕ} (h : WellFormed c.window) (hload : c.loadAddr ≠ -1)
    (hsend : c.sendLoad translate accept inserted t = some (c', t', attempt)) :
    WellFormed c'.window ∧ c'.instsRetired = c.instsRetired ∧
      ∃ loads, c'.window.slots = c.window.slots ++ loads ∧
        LoadAdded translate accept c t t' attempt loads := by
  have hnone : ∀ a : Option (Attempt C), (a.any fun a => a.accepted) = false →
      c.issuesLoad a = false := by
    intro a ha
    simp [issuesLoad, ha]
  cases sendLoad_cases hsend with
  | noRoom => exact ⟨h, rfl, [], (List.append_nil _).symm, .none (hnone _ rfl)⟩
  | untranslated => exact ⟨h, rfl, [], (List.append_nil _).symm, .none (hnone _ rfl)⟩
  | refused => exact ⟨h, rfl, [], (List.append_nil _).symm, .none (hnone _ rfl)⟩
  | @accepted req _ hfull htranslate haccept =>
    obtain ⟨hwindow, hretired⟩ := loadSent_window c req
    have hroom := not_isFull h hfull
    have hissued : c.issuesLoad (some (⟨req, true⟩ : Attempt C)) = true := by
      simp [issuesLoad, hload]
    rw [hwindow, hretired]
    exact ⟨h.insert hroom false req.addr, rfl, _, insert_slots h hroom false req.addr,
      .load hissued haccept hload htranslate⟩

theorem sendWriteback_frame (h : c.sendWriteback translate accept t = some (c', t', attempt)) :
    c'.window = c.window ∧ c'.instsRetired = c.instsRetired := by
  cases sendWriteback_cases h <;> exact ⟨rfl, rfl⟩

/-- **A cycle on the queue of the window**: at most `ipc` ready instructions retire, then bubbles and at
most one load enter. -/
theorem tick_slots (h : WellFormed c.window)
    (htick : c.tick translate accept t = some (c', t', attempt)) :
    WellFormed c'.window ∧
      c'.instsRetired = c.instsRetired + retired c.window.ipc c.window.slots ∧
      ∃ k loads, c'.window.slots = c.window.slots.drop (retired c.window.ipc c.window.slots) ++
          (List.replicate k bubble ++ loads) ∧
        LoadAdded translate accept c t t' attempt loads := by
  have hretired : c.retire.instsRetired =
      c.instsRetired + retired c.window.ipc c.window.slots :=
    congrArg (c.instsRetired + ·) (retire_fst h)
  obtain ⟨hwf, k, hk⟩ := insertBubbles_slots c.retire.numBubbles 0 h.retire
  rw [retire_slots h] at hk
  unfold tick at htick
  dsimp only at htick
  split at htick
  · rename_i bubbles inserted w hbubbles
    rw [show c.retire.window = c.window.retire.2 from rfl] at hbubbles
    rw [hbubbles] at hwf hk
    cases htick
    refine ⟨hwf, hretired, k, [], ?_, .none ?_⟩
    · rw [List.append_nil]
      exact hk
    · simp [issuesLoad]
  · rename_i bubbles inserted w hbubbles
    rw [show c.retire.window = c.window.retire.2 from rfl] at hbubbles
    rw [hbubbles] at hwf hk
    split at htick
    · rename_i hload
      obtain ⟨hwf', hsame, loads, hslots, hadded⟩ := sendLoad_slots
        (c := { c.retire with window := w, numBubbles := bubbles }) hwf hload htick
      refine ⟨hwf', hsame.trans hretired, k, loads, ?_, ?_⟩
      · rw [hslots]
        show w.slots ++ loads = _
        rw [hk, List.append_assoc]
      · cases hadded with
        | none hissues => exact .none hissues
        | load hissues haccept hload htranslate => exact .load hissues haccept hload htranslate
    · rename_i hload
      obtain ⟨hwindow, hsame⟩ := sendWriteback_frame htick
      refine ⟨by rw [hwindow]; exact hwf, hsame.trans hretired, k, [], ?_, .none ?_⟩
      · rw [hwindow, List.append_nil]
        exact hk
      · have hnoload : c.loadAddr = -1 := not_not.mp hload
        simp [issuesLoad, hnoload]

end MultiCoreMemory.SimpleO3Core
