import MultiCoreMemory.Plugin.RRS

/-!
# The rows and the size of the row indirection table (`plugin/rrs.cpp`, `addr_mapper/impl/rit.cpp`)

The random rows are drawn from `0` to the number of rows, both included, and `rit_insert_entry` exits
when the table has grown beyond its size.
-/

namespace MultiCoreMemory

open Exits List Option UnorderedMap DDR5VRR Avoids

variable {C : Type}

/-! ## The rows of the bank -/

def IsRow (numRows : ℕ) (row : ℤ) : Prop := 0 ≤ row ∧ row < numRows

/-- The rows of a table are rows of the bank; kept unless the upper bound is drawn. -/
def Rit.InBank (numRows : ℕ) (t : Rit) : Prop :=
  ∀ row e, t.lookup row = some e → IsRow numRows row ∧ IsRow numRows e.dstRow

namespace Rit

variable {numRows numRitEntries : ℕ} {t t' : Rit} {a b : ℤ}

theorem InBank.empty : InBank numRows ∅ := by simp [InBank]

variable (h : t.InBank numRows)
include h

theorem InBank.unlock : t.ritUnlock.InBank numRows := by
  intro row e he
  rw [ritUnlock, lookup_mapValues] at he
  obtain ⟨e₀, he₀, rfl⟩ := map_eq_some_iff.mp he
  exact h row e₀ he₀

theorem InBank.remove (a b : ℤ) : (t.ritRemoveEntry a b).InBank numRows := by
  intro row e he
  rw [ritRemoveEntry, lookup_erase_pair] at he
  split at he
  · cases he
  · exact h row e he

theorem InBank.insert (ha : IsRow numRows a) (hb : IsRow numRows b)
    (hins : t.ritInsertEntry numRitEntries a b = some t') : t'.InBank numRows := by
  simp only [ritInsertEntry, ite_none_left_eq_some, some.injEq] at hins
  obtain ⟨-, rfl⟩ := hins
  intro row e he
  rcases lookup_insert_iff.mp he with ⟨rfl, rfl⟩ | ⟨-, he⟩
  · exact ⟨hb, ha⟩
  · rcases lookup_insert_iff.mp he with ⟨rfl, rfl⟩ | ⟨-, he⟩
    · exact ⟨ha, hb⟩
    · exact h row e he

theorem InBank.checkRit (ha : t.checkRit a ≠ -1) : IsRow numRows (t.checkRit a) := by
  unfold Rit.checkRit at ha ⊢
  split at ha
  · rename_i e he
    exact (h a e he).2
  · exact absurd rfl ha

end Rit

/-! ## The size of the table -/

structure Rit.Roomy (numRitEntries : ℕ) (t : Rit) : Prop where
  located : ∃ π, t.Located π
  even : Even t.keys.length
  le : t.keys.length ≤ numRitEntries

namespace Rit

variable {numRitEntries : ℕ} {t t' : Rit} {a b : ℤ} {e : RitEntry}

theorem Roomy.empty : Roomy numRitEntries ∅ where
  located := ⟨1, located_empty⟩
  even := ⟨0, rfl⟩
  le := Nat.zero_le _

variable (h : t.Roomy numRitEntries)
include h

theorem Roomy.unlock : t.ritUnlock.Roomy numRitEntries := by
  obtain ⟨⟨π, hπ⟩, heven, hle⟩ := h
  have hlen : t.ritUnlock.keys.length = t.keys.length := length_keys_mapValues _ t
  exact ⟨⟨π, hπ.unlock⟩, hlen ▸ heven, hlen ▸ hle⟩

theorem Roomy.lookup_eq_none (ha : t.checkRit a = -1) : t.lookup a = none := by
  obtain ⟨⟨π, hπ⟩, -⟩ := h
  exact hπ.checkRit_eq_neg_one_iff.mp ha

theorem Roomy.remove (ha : t.lookup a = some e) :
    (t.ritRemoveEntry a e.dstRow).Roomy numRitEntries ∧
      (t.ritRemoveEntry a e.dstRow).keys.length + 2 = t.keys.length := by
  obtain ⟨⟨π, hπ⟩, heven, hle⟩ := h
  obtain ⟨w, hw, -⟩ := hπ.paired.back ha
  have hlen : (t.ritRemoveEntry a e.dstRow).keys.length + 2 = t.keys.length :=
    length_keys_erase_pair (Ne.symm (hπ.paired.apart ha)) ha hw
  refine ⟨⟨⟨_, hπ.remove ha⟩, ?_, by omega⟩, hlen⟩
  rw [← hlen, Nat.even_add] at heven
  exact heven.mpr even_two

/-- **A new pair fits** where there is room for two entries. -/
theorem Roomy.insert (hroom : t.keys.length + 2 ≤ numRitEntries) (hab : a ≠ b)
    (ha : t.lookup a = none) (hb : t.lookup b = none) (hapos : 0 ≤ a) (hbpos : 0 ≤ b) :
    ∃ t', t.ritInsertEntry numRitEntries a b = some t' ∧ t'.Roomy numRitEntries ∧
      t'.keys.length = t.keys.length + 2 ∧
      ∀ row, row ≠ a → row ≠ b → t'.lookup row = t.lookup row := by
  have hlen : ((t.insert a ⟨b, true⟩).insert b ⟨a, true⟩ : Rit).keys.length = t.keys.length + 2 :=
    length_keys_insert_pair hab ha hb
  have hins : t.ritInsertEntry numRitEntries a b =
      some ((t.insert a ⟨b, true⟩).insert b ⟨a, true⟩) := by
    unfold ritInsertEntry
    dsimp only
    rw [hlen, if_neg (Nat.not_lt.mpr hroom)]
  obtain ⟨⟨π, hπ⟩, heven, -⟩ := h
  refine ⟨_, hins, ⟨⟨_, hπ.insert hab ha hb hapos hbpos hins⟩, ?_, hlen ▸ hroom⟩, hlen, ?_⟩
  · rw [hlen]
    exact heven.add even_two
  · intro row hrowa hrowb
    rw [AList.lookup_insert_ne hrowb, AList.lookup_insert_ne hrowa]

end Rit

namespace RRS

/-! ## One update -/

variable {cfg : DeviceConfig C} {p : RRSParams} {s s' : RRS} {found : Option (Request C)}
  {c : RRSChoice} {numRows : ℕ} {hot : UnorderedMap ℤ ℕ} {row : ℤ} {t t' : Rit}
  {swaps : List (ℤ × ℤ)} {sent : List (Request C)}

abbrev EveryTable (P : Rit → Prop) (s : RRS) : Prop := Tables (fun t _ => P t) s

theorem getRandRow_draws {draws rest : List ℤ} {dstRow : ℤ}
    (h : getRandRow numRows hot t row draws = some (dstRow, rest)) :
    ∃ skipped, draws = skipped ++ dstRow :: rest := by
  induction draws with
  | nil => cases h
  | cons randRow draws ih =>
    unfold getRandRow at h
    split at h
    · split at h
      · cases h
        exact ⟨[], rfl⟩
      · obtain ⟨skipped, rfl⟩ := ih h
        exact ⟨randRow :: skipped, rfl⟩
    · cases h

theorem getRandRow_isRow {draws rest : List ℤ} {dstRow : ℤ} (hdraws : ∀ d ∈ draws, d ≠ numRows)
    (h : getRandRow numRows hot t row draws = some (dstRow, rest)) :
    IsRow numRows dstRow ∧ ∀ d ∈ rest, d ≠ numRows := by
  obtain ⟨hnonneg, hle, -⟩ := getRandRow_eq_some h
  obtain ⟨skipped, rfl⟩ := getRandRow_draws h
  have hne := hdraws dstRow (by simp)
  refine ⟨⟨hnonneg, by omega⟩, fun d hd => hdraws d ?_⟩
  simp [hd]

def SwapsInBank (numRows : ℕ) (swaps : List (ℤ × ℤ)) : Prop :=
  ∀ m ∈ swaps, IsRow numRows m.1 ∧ IsRow numRows m.2

theorem makeRoom_inBank (ht : t.InBank numRows) (h : makeRoom p hot c t = some (t', swaps)) :
    t'.InBank numRows ∧ SwapsInBank numRows swaps := by
  unfold makeRoom at h
  split at h
  · split at h
    · cases h
    · rename_i a b hpair
      cases h
      obtain ⟨e, he, rfl⟩ := Rit.getUnswapPair_eq_some hpair
      refine ⟨ht.remove _ _, ?_⟩
      rw [SwapsInBank, forall_mem_singleton]
      exact ht a e he
  · cases h
    exact ⟨ht, by simp [SwapsInBank]⟩

/-- **Every swap stays in the bank** if the upper bound of the distribution is not drawn. -/
theorem swapRow_inBank (ht : t.InBank numRows) (hrow : IsRow numRows row)
    (hdraws : ∀ d ∈ c.draws, d ≠ numRows) (h : swapRow p numRows hot row c t = .ok (t', swaps)) :
    t'.InBank numRows ∧ SwapsInBank numRows swaps := by
  unfold swapRow at h
  dsimp only at h
  split at h
  · rename_i hin
    have hprev := ht.checkRit hin
    split at h
    · simp only [reswapLocked, bind_eq_ok_iff, orExit_eq_ok_iff, Prod.exists] at h
      obtain ⟨t₁, unswaps, hroom, d0, draws, hdraw0, d1, rest, hdraw1, t₂, hins1, t₃, hins0, heq⟩ := h
      cases heq
      obtain ⟨ht₁, hunswaps⟩ := makeRoom_inBank ht hroom
      obtain ⟨hd0, hdraws'⟩ := getRandRow_isRow hdraws hdraw0
      obtain ⟨hd1, -⟩ := getRandRow_isRow hdraws' hdraw1
      refine ⟨((ht₁.remove _ _).insert hrow hd1 hins1).insert hprev hd0 hins0, ?_⟩
      unfold SwapsInBank at hunswaps ⊢
      simp only [forall_mem_append, forall_mem_cons]
      exact ⟨hunswaps, ⟨hrow, hd0⟩, ⟨hprev, hd1⟩, by simp⟩
    · simp only [unswapSwap, bind_eq_ok_iff, orExit_eq_ok_iff, Prod.exists] at h
      obtain ⟨d, rest, hdraw, t₁, hins, heq⟩ := h
      cases heq
      obtain ⟨hd, -⟩ := getRandRow_isRow hdraws hdraw
      refine ⟨(ht.remove _ _).insert hrow hd hins, ?_⟩
      simp only [SwapsInBank, forall_mem_cons]
      exact ⟨⟨hrow, hprev⟩, ⟨hrow, hd⟩, by simp⟩
  · simp only [swapNew, bind_eq_ok_iff, orExit_eq_ok_iff, Prod.exists] at h
    obtain ⟨t₁, unswaps, hroom, d, rest, hdraw, t₂, hins, heq⟩ := h
    cases heq
    obtain ⟨ht₁, hunswaps⟩ := makeRoom_inBank ht hroom
    obtain ⟨hd, -⟩ := getRandRow_isRow hdraws hdraw
    refine ⟨ht₁.insert hrow hd hins, ?_⟩
    unfold SwapsInBank at hunswaps ⊢
    simp only [forall_mem_append, forall_mem_cons]
    exact ⟨hunswaps, ⟨hrow, hd⟩, by simp⟩

theorem makeRoom_roomy (ht : t.Roomy p.numRitEntries) (heven : Even p.numRitEntries)
    (h : makeRoom p hot c t = some (t', swaps)) :
    t'.Roomy p.numRitEntries ∧ t'.keys.length + 2 ≤ p.numRitEntries ∧
      (∀ row, t.lookup row = none → t'.lookup row = none) ∧
      ∀ row, (hot.lookup row).isSome → t'.lookup row = t.lookup row := by
  unfold makeRoom at h
  split at h
  · split at h
    · cases h
    · rename_i a b hpair
      cases h
      obtain ⟨e, he, rfl⟩ := Rit.getUnswapPair_eq_some hpair
      obtain ⟨hcolda, hcoldb⟩ := Rit.getUnswapPair_excluded hpair
      obtain ⟨hroomy, hlen⟩ := ht.remove he
      have hle := ht.le
      refine ⟨hroomy, by omega, fun row hrow => ?_, fun row hrow => ?_⟩
      · rw [Rit.ritRemoveEntry, lookup_erase_pair, hrow, ite_self]
      · have hnot : ¬ (row = a ∨ row = e.dstRow) := by
          rintro (rfl | rfl)
          · rw [hcolda] at hrow
            cases hrow
          · rw [hcoldb] at hrow
            cases hrow
        rw [Rit.ritRemoveEntry, lookup_erase_pair, if_neg hnot]
  · rename_i hfull
    cases h
    have hlt : t.keys.length < p.numRitEntries := by
      simpa [Rit.isRitFull] using hfull
    obtain ⟨k, hk⟩ := ht.even
    obtain ⟨n, hn⟩ := heven
    exact ⟨ht, by omega, fun _ h => h, fun _ _ => rfl⟩

theorem swapNew_roomy (ht : t.Roomy p.numRitEntries) (heven : Even p.numRitEntries) (hpos : 0 ≤ row)
    (hrow : t.lookup row = none) :
    Avoids .ritFull (fun r => r.1.Roomy p.numRitEntries) (swapNew p numRows hot row c t) := by
  unfold swapNew
  refine bind (avoids_orExit nofun fun _ h => h) ?_
  rintro ⟨t₁, unswaps⟩ hroom
  obtain ⟨ht₁, hsize, hkeep, -⟩ := makeRoom_roomy ht heven hroom
  refine bind (avoids_orExit nofun fun _ h => h) ?_
  rintro ⟨dstRow, rest⟩ hdraw
  obtain ⟨hdst, -, -, hfree, hne⟩ := getRandRow_eq_some hdraw
  obtain ⟨t₂, hins, ht₂, -⟩ := ht₁.insert hsize (Ne.symm hne) (hkeep row hrow)
    (ht₁.lookup_eq_none hfree) hpos hdst
  exact bind (avoids_orExit_some hins rfl) fun _ h => h ▸ ht₂

theorem unswapSwap_roomy (ht : t.Roomy p.numRitEntries) (hpos : 0 ≤ row) {e : RitEntry}
    (hrow : t.lookup row = some e) :
    Avoids .ritFull (fun r => r.1.Roomy p.numRitEntries)
      (unswapSwap p numRows hot row c t e.dstRow) := by
  unfold unswapSwap
  refine bind (avoids_orExit nofun fun _ h => h) ?_
  rintro ⟨dstRow, rest⟩ hdraw
  obtain ⟨hdst, -, -, hfree, hne⟩ := getRandRow_eq_some hdraw
  obtain ⟨ht₁, hlen⟩ := ht.remove hrow
  have hle := ht.le
  have hgone : (t.ritRemoveEntry row e.dstRow).lookup row = none := by
    rw [Rit.ritRemoveEntry, lookup_erase_pair, if_pos (.inl rfl)]
  have hfresh : (t.ritRemoveEntry row e.dstRow).lookup dstRow = none := by
    rw [Rit.ritRemoveEntry, lookup_erase_pair, ht.lookup_eq_none hfree, ite_self]
  obtain ⟨t₂, hins, ht₂, -⟩ := ht₁.insert (by omega) (Ne.symm hne) hgone hfresh hpos hdst
  exact bind (avoids_orExit_some hins rfl) fun _ h => h ▸ ht₂

def DrawsTwice (p : RRSParams) (numRows : ℕ) (hot : UnorderedMap ℤ ℕ) (row : ℤ) (c : RRSChoice)
    (t : Rit) : Prop :=
  ∃ t₁ unswaps dstRow draws rest, makeRoom p hot c t = some (t₁, unswaps) ∧
    getRandRow numRows hot t₁ row c.draws = some (dstRow, draws) ∧
    getRandRow numRows hot t₁ row draws = some (dstRow, rest)

theorem reswapLocked_roomy (ht : t.Roomy p.numRitEntries) (heven : Even p.numRitEntries)
    (hpos : 0 ≤ row) (hhot : (hot.lookup row).isSome) {e : RitEntry} (hrow : t.lookup row = some e)
    (hdraws : ¬ DrawsTwice p numRows hot row c t) :
    Avoids .ritFull (fun r => r.1.Roomy p.numRitEntries)
      (reswapLocked p numRows hot row c t e.dstRow) := by
  unfold reswapLocked
  refine bind (avoids_orExit nofun fun _ h => h) ?_
  rintro ⟨t₁, unswaps⟩ hroom
  obtain ⟨ht₁, hsize, -, hkeep⟩ := makeRoom_roomy ht heven hroom
  refine bind (avoids_orExit nofun fun _ h => h) ?_
  rintro ⟨dstRow0, draws⟩ hdraw0
  refine bind (avoids_orExit nofun fun _ h => h) ?_
  rintro ⟨dstRow1, rest⟩ hdraw1
  obtain ⟨hdst0, -, -, hfree0, hne0⟩ := getRandRow_eq_some hdraw0
  obtain ⟨hdst1, -, -, hfree1, hne1⟩ := getRandRow_eq_some hdraw1
  have hapart : dstRow0 ≠ dstRow1 := by
    rintro rfl
    exact hdraws ⟨t₁, unswaps, dstRow0, draws, rest, hroom, hdraw0, hdraw1⟩
  -- the pair of the row is still in the table
  have hrow₁ : t₁.lookup row = some e := (hkeep row hhot).trans hrow
  obtain ⟨⟨π, hπ⟩, -⟩ := id ht₁
  obtain ⟨w, hprev, -⟩ := hπ.paired.back hrow₁
  have hprevne := hπ.paired.apart hrow₁
  have hprev0 : e.dstRow ≠ dstRow0 := by
    rintro heq
    rw [heq, ht₁.lookup_eq_none hfree0] at hprev
    cases hprev
  have hprev1 : e.dstRow ≠ dstRow1 := by
    rintro heq
    rw [heq, ht₁.lookup_eq_none hfree1] at hprev
    cases hprev
  -- it goes, and two pairs come
  obtain ⟨ht₂, hlen₂⟩ := ht₁.remove hrow₁
  have hlookup : ∀ a, (t₁.ritRemoveEntry row e.dstRow).lookup a =
      if a = row ∨ a = e.dstRow then none else t₁.lookup a := fun a =>
    lookup_erase_pair a
  obtain ⟨t₃, hins1, ht₃, hlen₃, hsame₃⟩ := ht₂.insert (by omega) (Ne.symm hne1)
    (by rw [hlookup, if_pos (.inl rfl)]) (by rw [hlookup, ht₁.lookup_eq_none hfree1, ite_self])
    hpos hdst1
  refine bind (avoids_orExit_some hins1 rfl) ?_
  rintro _ rfl
  obtain ⟨t₄, hins0, ht₄, -⟩ := ht₃.insert (by omega) hprev0
    (by rw [hsame₃ _ hprevne hprev1, hlookup, if_pos (.inr rfl)])
    (by rw [hsame₃ _ hne0 hapart, hlookup, ht₁.lookup_eq_none hfree0, ite_self])
    (hπ.nonneg hprev) hdst0
  exact bind (avoids_orExit_some hins0 rfl) fun _ h => h ▸ ht₄

/-- **No swap exits at an insertion, and each leaves a table of pairs within its size.** -/
theorem swapRow_roomy (ht : t.Roomy p.numRitEntries) (heven : Even p.numRitEntries) (hpos : 0 ≤ row)
    (hhot : (hot.lookup row).isSome)
    (hdraws : t.isRitLocked row = true → ¬ DrawsTwice p numRows hot row c t) :
    Avoids .ritFull (fun r => r.1.Roomy p.numRitEntries) (swapRow p numRows hot row c t) := by
  unfold swapRow
  dsimp only
  cases hrow : t.lookup row with
  | none =>
    have hcheck : t.checkRit row = -1 := by rw [Rit.checkRit, hrow]
    rw [if_neg (not_not.mpr hcheck)]
    exact swapNew_roomy ht heven hpos hrow
  | some e =>
    have hcheck : t.checkRit row = e.dstRow := by rw [Rit.checkRit, hrow]
    have hin : t.checkRit row ≠ -1 := fun hneg => by
      rw [ht.lookup_eq_none hneg] at hrow
      cases hrow
    rw [if_pos hin, hcheck]
    split
    · rename_i hlock
      exact reswapLocked_roomy ht heven hpos hhot hrow (hdraws hlock)
    · exact unswapSwap_roomy ht hpos hrow

/-! ## Whole runs -/

/-- An activation names a row of the bank, and the upper bound of the distribution is not drawn. -/
def DrawsRows (cfg : DeviceConfig C) (i : Option (Request C) × RRSChoice) : Prop :=
  (∀ req, cfg.activation i.1 = some req → IsRow cfg.numRowsPerBank (cfg.rowOf req.addrVec)) ∧
    ∀ d ∈ i.2.draws, d ≠ cfg.numRowsPerBank

/-- An activation names a row, and a re-swap of a locked pair draws two different rows. -/
def DrawsDifferent (cfg : DeviceConfig C) (p : RRSParams) (s : RRS) (i : Option (Request C) × RRSChoice) :
    Prop :=
  RowActivation cfg i.1 ∧ ∀ hot row t, swapInput cfg p s i.1 i.2 = some (hot, row, t) →
    t.isRitLocked row = true → ¬ DrawsTwice p cfg.numRowsPerBank hot row i.2 t

def InsertionExits (cfg : DeviceConfig C) (p : RRSParams) (s : RRS) (i : Option (Request C) × RRSChoice) :
    Prop :=
  ∃ hot row t, swapInput cfg p s i.1 i.2 = some (hot, row, t) ∧
    swapRow p cfg.numRowsPerBank hot row i.2 t = .error .ritFull

def RowsInBank (cfg : DeviceConfig C) (s : RRS) : Prop :=
  EveryTable (Rit.InBank cfg.numRowsPerBank) s ∧
    ∀ m ∈ s.log, IsRow cfg.numRowsPerBank m.srcRow ∧ IsRow cfg.numRowsPerBank m.dstRow

theorem RowsInBank.update (hs : RowsInBank cfg s) (hdraws : DrawsRows cfg (found, c))
    (h : s.update cfg p found c = some (s', sent)) : RowsInBank cfg s' := by
  obtain ⟨hactivation, hdraws⟩ := hdraws
  have hrow : ∀ {hot row t}, swapInput cfg p s found c = some (hot, row, t) →
      IsRow cfg.numRowsPerBank row := by
    intro hot row t hinput
    obtain ⟨req, -, -, -, hreq, rfl, -⟩ := swapInput_eq_some_iff.mp hinput
    exact hactivation req hreq
  refine ⟨Tables.update hs.1 (fun _ _ ht => ht.unlock)
    (fun hinput ht hswap => (swapRow_inBank ht (hrow hinput) hdraws hswap).1) h, ?_⟩
  rcases update_cases h with ⟨-, hlog, -⟩ | ⟨bank, hot, row, t, t', swaps, hinput, ht, hswap, -, hlog⟩
  · rw [hlog]
    exact hs.2
  · have hin := Tables.tick hs.1 (fun _ _ ht => ht.unlock) _ t ht
    have hswaps := (swapRow_inBank hin (hrow hinput) hdraws hswap).2
    rw [hlog, forall_mem_append]
    refine ⟨hs.2, ?_⟩
    rw [List.forall_mem_map]
    exact hswaps

/-- What a swap of the update leaves, and how it may end. -/
theorem avoids_ritFull (heven : Even p.numRitEntries) (hdraws : DrawsDifferent cfg p s (found, c))
    (hinput : swapInput cfg p s found c = some (hot, row, t)) (ht : t.Roomy p.numRitEntries) :
    Avoids .ritFull (fun r => r.1.Roomy p.numRitEntries)
      (swapRow p cfg.numRowsPerBank hot row c t) := by
  obtain ⟨req, b, b', count, hreq, rfl, -, -, htrack, rfl, -⟩ := swapInput_eq_some_iff.mp hinput
  refine swapRow_roomy ht heven (hdraws.1 req hreq) ?_ (hdraws.2 _ _ _ hinput)
  rw [SpillTable.track_lookup htrack]
  rfl

theorem EveryTable.roomy_update (hs : EveryTable (Rit.Roomy p.numRitEntries) s)
    (heven : Even p.numRitEntries) (hdraws : DrawsDifferent cfg p s (found, c))
    (h : s.update cfg p found c = some (s', sent)) : EveryTable (Rit.Roomy p.numRitEntries) s' := by
  refine Tables.update hs (fun _ _ ht => ht.unlock) (fun hinput ht hswap => ?_) h
  exact (avoids_ritFull heven hdraws hinput ht).ok hswap

theorem EveryTable.not_insertionExits (hs : EveryTable (Rit.Roomy p.numRitEntries) s)
    (heven : Even p.numRitEntries) (hdraws : DrawsDifferent cfg p s (found, c)) :
    ¬ InsertionExits cfg p s (found, c) := by
  rintro ⟨hot, row, t, hinput, hexit⟩
  obtain ⟨req, -, -, -, -, -, -, ht, -⟩ := swapInput_eq_some_iff.mp hinput
  have hroomy := Tables.tick hs (fun _ _ ht => ht.unlock) _ t ht
  exact (avoids_ritFull heven hdraws hinput hroomy).ne hexit

theorem roomy_of_reachable (heven : Even p.numRitEntries) {r : PluginRun C RRS}
    (h : (plugin cfg p).machine.ReachableWhen (fun r i => DrawsDifferent cfg p r.plugin i) r) :
    EveryTable (Rit.Roomy p.numRitEntries) r.plugin :=
  ControllerPlugin.invariant (P := plugin cfg p)
    (I := fun s _ => EveryTable (Rit.Roomy p.numRitEntries) s) (tables_setup .empty cfg p)
    (fun _ _ _ _ _ hs hok hupdate => hs.roomy_update heven hok hupdate) h

/-- **The rows and the size.** If the upper bound of the distribution is never drawn, tables and swaps
name rows of the bank only. If a re-swap draws two different rows, a table of even size never grows
beyond it, and no insertion exits. -/
theorem rrs_stays_in_bank_and_table (cfg : DeviceConfig C) (p : RRSParams) :
    (∀ r, (plugin cfg p).machine.ReachableWhen (fun _ i => DrawsRows cfg i) r →
      RowsInBank cfg r.plugin) ∧
    (Even p.numRitEntries →
      ∀ r, (plugin cfg p).machine.ReachableWhen (fun r i => DrawsDifferent cfg p r.plugin i) r →
        EveryTable (fun t => t.keys.length ≤ p.numRitEntries) r.plugin ∧
        ∀ i, DrawsDifferent cfg p r.plugin i → ¬ InsertionExits cfg p r.plugin i) := by
  constructor
  · intro r h
    refine ControllerPlugin.invariant (P := plugin cfg p) (I := fun s _ => RowsInBank cfg s) ?_ ?_ h
    · exact ⟨tables_setup .empty cfg p, fun _ hm => by cases hm⟩
    · intro _ _ _ _ _ hs hok hupdate
      exact hs.update hok hupdate
  · intro heven r h
    have hroomy := roomy_of_reachable heven h
    exact ⟨fun bank t ht => (hroomy bank t ht).le, fun i hok => hroomy.not_insertionExits heven hok⟩

def insertionExits (cfg : DeviceConfig C) (p : RRSParams) (s : RRS) (i : Option (Request C) × RRSChoice) :
    Bool :=
  (swapInput cfg p s i.1 i.2).any fun (hot, row, t) =>
    match swapRow p cfg.numRowsPerBank hot row i.2 t with
    | .error e => e = .ritFull
    | .ok _ => false

theorem insertionExits_of_test {i : Option (Request C) × RRSChoice}
    (h : insertionExits cfg p s i = true) : InsertionExits cfg p s i := by
  obtain ⟨⟨hot, row, t⟩, hinput, htest⟩ := (Option.any_eq_true _ _).mp h
  refine ⟨hot, row, t, hinput, ?_⟩
  dsimp only at htest
  split at htest
  · rename_i e hexit
    rw [hexit, of_decide_eq_true htest]
  · cases htest

theorem not_drawsTwice_of_nodup (h : c.draws.Nodup) : ¬ DrawsTwice p numRows hot row c t := by
  rintro ⟨t₁, unswaps, dstRow, draws, rest, -, hdraw, hdraw'⟩
  obtain ⟨skipped, hdraws⟩ := getRandRow_draws hdraw
  obtain ⟨skipped', rfl⟩ := getRandRow_draws hdraw'
  rw [hdraws] at h
  have htail := (nodup_append.mp h).2.1
  exact (nodup_cons.mp htail).1 (by simp)

/-- The activated row is a row of the bank, and the random numbers are different rows. -/
def drawsDifferentRows (cfg : DeviceConfig C) (i : Option (Request C) × RRSChoice) : Bool :=
  ((cfg.activation i.1).all fun req =>
      decide (0 ≤ cfg.rowOf req.addrVec ∧ cfg.rowOf req.addrVec < cfg.numRowsPerBank)) &&
    decide (i.2.draws.Nodup ∧ ∀ d ∈ i.2.draws, d ≠ cfg.numRowsPerBank)

theorem draws_of_drawsDifferentRows (p : RRSParams) (s : RRS) (i : Option (Request C) × RRSChoice)
    (h : drawsDifferentRows cfg i = true) : DrawsRows cfg i ∧ DrawsDifferent cfg p s i := by
  simp only [drawsDifferentRows, Bool.and_eq_true, decide_eq_true_eq] at h
  obtain ⟨hrow, hnodup, hdraws⟩ := h
  have hactivation : ∀ req, cfg.activation i.1 = some req →
      IsRow cfg.numRowsPerBank (cfg.rowOf req.addrVec) := by
    intro req hreq
    rw [hreq, all_some, decide_eq_true_eq] at hrow
    exact hrow
  exact ⟨⟨hactivation, hdraws⟩, fun req hreq => (hactivation req hreq).1,
    fun _ _ _ _ _ => not_drawsTwice_of_nodup hnodup⟩

/-- Row 5 is swapped with row 9, and the locked pair is re-swapped with the rows 1 and 2; the table is
full. -/
theorem reswap_stays_in_bank_and_table :
    ∃ r t, (plugin oneBank (everySecond 1000)).machine.Reachable r ∧
      atBank r.plugin.addrMapper.rowIndirectionTable 0 = some t ∧ t.keys.length = 4 ∧
      RowsInBank oneBank r.plugin ∧
      ¬ InsertionExits oneBank (everySecond 1000) r.plugin (act 6 { draws := [3] }) := by
  obtain ⟨r, hr, heq⟩ := Machine.exists_reachableWhen
    (m := (plugin oneBank (everySecond 1000)).machine)
    (fun _ i => drawsDifferentRows oneBank i)
    (fun r => draws_of_drawsDifferentRows (everySecond 1000) r.plugin)
    (P := fun r => (atBank r.plugin.addrMapper.rowIndirectionTable 0).map (fun t => t.keys.length) = some 4)
    [act 5 {}, act 5 { draws := [9] }, act 5 {}, act 5 { draws := [1, 2] }]
    (by decide +kernel) (by decide +kernel)
  obtain ⟨t, ht, hlen⟩ := map_eq_some_iff.mp heq
  obtain ⟨hrows, hsize⟩ := rrs_stays_in_bank_and_table oneBank (everySecond 1000)
  have hnext : DrawsDifferent oneBank (everySecond 1000) r.plugin (act 6 { draws := [3] }) :=
    (draws_of_drawsDifferentRows _ _ _ (by decide)).2
  exact ⟨r, t, hr.reachable, ht, hlen, hrows r (hr.mono fun _ _ h => h.1),
    (hsize (by decide) r (hr.mono fun _ _ h => h.2)).2 _ hnext⟩

abbrev oddTable : RRSParams := { everySecond 1000 with numRitEntries := 3 }

/-- **Three ways out.** Row 5 of a bank of 16 rows is swapped with row 16.  A table of three entries
with one pair is not full, and the next pair does not fit; nor does it after a re-swap that draws row 1
twice. -/
theorem swap_leaves_bank_or_table :
    (∃ r t, (plugin oneBank (everySecond 1000)).machine.Reachable r ∧
      atBank r.plugin.addrMapper.rowIndirectionTable 0 = some t ∧ t.checkRit 5 = 16 ∧
      ⟨0, 5, 16⟩ ∈ r.plugin.log ∧ oneBank.numRowsPerBank = 16) ∧
    (∃ r, (plugin oneBank oddTable).machine.Reachable r ∧
      InsertionExits oneBank oddTable r.plugin (act 6 { draws := [3] })) ∧
    ∃ r, (plugin oneBank (everySecond 1000)).machine.Reachable r ∧
      InsertionExits oneBank (everySecond 1000) r.plugin (act 6 { draws := [3] }) := by
  refine ⟨?_, ?_, ?_⟩
  · obtain ⟨r, hr, htable, hlog⟩ := Machine.exists_reachable
      (m := (plugin oneBank (everySecond 1000)).machine)
      (P := fun r => (atBank r.plugin.addrMapper.rowIndirectionTable 0).map (fun t => t.checkRit 5) =
        some 16 ∧ ⟨0, 5, 16⟩ ∈ r.plugin.log)
      [act 5 {}, act 5 { draws := [16] }] (by decide +kernel)
    obtain ⟨t, ht, hrow⟩ := map_eq_some_iff.mp htable
    exact ⟨r, t, hr, ht, hrow, hlog, by decide⟩
  · obtain ⟨r, hr, htest⟩ := Machine.exists_reachable (m := (plugin oneBank oddTable).machine)
      (P := fun r => insertionExits oneBank oddTable r.plugin (act 6 { draws := [3] }) = true)
      [act 5 {}, act 5 { draws := [9] }, act 6 {}] (by decide +kernel)
    exact ⟨r, hr, insertionExits_of_test htest⟩
  · obtain ⟨r, hr, htest⟩ := Machine.exists_reachable
      (m := (plugin oneBank (everySecond 1000)).machine)
      (P := fun r => insertionExits oneBank (everySecond 1000) r.plugin
        (act 6 { draws := [3] }) = true)
      [act 5 {}, act 5 { draws := [9] }, act 5 {}, act 5 { draws := [1, 1] }, act 6 {}] (by decide +kernel)
    exact ⟨r, hr, insertionExits_of_test htest⟩

/-! ## Where requests go -/

/-- **The indirection is its own inverse in every run**, so no two requests to different rows meet in one
row, also after the re-swaps that leave a table which no longer says where the data is. -/
theorem indirection_own_inverse (cfg : DeviceConfig C) (p : RRSParams) (heven : Even p.numRitEntries)
    {r : PluginRun C RRS}
    (h : (plugin cfg p).machine.ReachableWhen (fun r i => DrawsDifferent cfg p r.plugin i) r)
    {req req' : Request C} (happly : applyIndirection cfg (some r.plugin.addrMapper) req = some req') :
    applyIndirection cfg (some r.plugin.addrMapper) req' = some req := by
  have hroomy := roomy_of_reachable heven h
  cases ht : atBank r.plugin.addrMapper.rowIndirectionTable (cfg.flatBankId req.addrVec) with
  | none =>
    simp only [applyIndirection, ht] at happly
    cases happly
  | some t =>
    obtain ⟨⟨π, hπ⟩, -⟩ := hroomy _ t ht
    exact applyIndirection_twice ht hπ happly

/-- After the re-swap of the locked pair of row 5, its requests go to row 2 and those of row 2 to row 5. -/
theorem indirection_own_inverse_reswap : ∃ r req',
    (plugin oneBank (everySecond 1000)).machine.Reachable r ∧
      applyIndirection oneBank (some r.plugin.addrMapper) (activateRow 5) = some req' ∧
      oneBank.rowOf req'.addrVec = 2 ∧
      applyIndirection oneBank (some r.plugin.addrMapper) req' = some (activateRow 5) := by
  obtain ⟨r, hr, heq⟩ := Machine.exists_reachableWhen
    (m := (plugin oneBank (everySecond 1000)).machine)
    (fun _ i => drawsDifferentRows oneBank i)
    (fun r => draws_of_drawsDifferentRows (everySecond 1000) r.plugin)
    (P := fun r => (applyIndirection oneBank (some r.plugin.addrMapper) (activateRow 5)).map
      (fun req => oneBank.rowOf req.addrVec) = some 2)
    [act 5 {}, act 5 { draws := [9] }, act 5 {}, act 5 { draws := [1, 2] }]
    (by decide +kernel) (by decide +kernel)
  obtain ⟨req', happly, hrow⟩ := map_eq_some_iff.mp heq
  exact ⟨r, req', hr.reachable, happly, hrow,
    indirection_own_inverse oneBank (everySecond 1000) (by decide) (hr.mono fun _ _ h => h.2) happly⟩

end RRS

end MultiCoreMemory
