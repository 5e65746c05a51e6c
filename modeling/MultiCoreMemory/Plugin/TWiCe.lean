import MultiCoreMemory.Dram.DDR5VRR
import Mathlib.Algebra.Order.Ring.Rat

/-!
# Idealised TWiCe (`plugin/twice.cpp`)

A table a bank with the activations and the life of a row.  A rank-level refresh command ages every
entry, and prunes those whose activations do not keep up with their life.

The table is aged **before** the life is raised, so the `k`-th refresh command that an entry meets
compares its activations with `(k - 1) * p`.
-/

namespace MultiCoreMemory

open List Option DeviceConfig

variable {C : Type}

structure TwiCeEntry where
  actCount : ℕ
  life : ℕ
  deriving DecidableEq, Repr

structure TWiCeParams where
  rhThreshold : ℕ
  pruningIntervalThreshold : ℚ
  vrrReqId : ℕ

structure TWiCe where
  clk : ℕ := 0
  tables : List (UnorderedMap ℤ TwiCeEntry)

namespace TWiCe

variable (cfg : DeviceConfig C) (p : TWiCeParams)

def setup : TWiCe where
  tables := List.replicate (cfg.numRanks * cfg.numBanksPerRank) ∅

def age (p : ℚ) (e : TwiCeEntry) : Option TwiCeEntry :=
  if (e.actCount : ℚ) < e.life * p then none else some { e with life := e.life + 1 }

def prune (p : ℚ) (t : UnorderedMap ℤ TwiCeEntry) : UnorderedMap ℤ TwiCeEntry :=
  t.filterMapValues fun _ => age p

/-- An activation of a row of the bank, and whether it reached the threshold. -/
def activateRow (threshold : ℕ) (row : ℤ) (t : UnorderedMap ℤ TwiCeEntry) :
    UnorderedMap ℤ TwiCeEntry × Bool :=
  match t.lookup row with
  | none => (t.insert row ⟨1, 0⟩, false)
  | some e =>
    if threshold ≤ e.actCount + 1 then (t.erase row, true)
    else (t.insert row { e with actCount := e.actCount + 1 }, false)

def isRankRefresh (req : Request C) : Bool :=
  match req.command with
  | some cmd => (cfg.commandMeta cmd).isRefreshing && cfg.commandScopes cmd == cfg.rankLevel
  | none => false

def update (s : TWiCe) (found : Option (Request C)) : Option (TWiCe × List (Request C)) :=
  let s := { s with clk := s.clk + 1 }
  if found.any (isRankRefresh cfg) then
    -- every bank of every rank, whichever rank is refreshed
    some ({ s with tables := s.tables.map (prune p.pruningIntervalThreshold) }, [])
  else
    match cfg.activation found with
    | none => some (s, [])
    | some req =>
      let bank := cfg.flatBankId req.addrVec
      match atBank s.tables bank with
      | none => none
      | some t =>
        match activateRow p.rhThreshold (cfg.rowOf req.addrVec) t with
        | (t', exceeded) =>
          some ({ s with tables := setBank s.tables bank t' },
            if exceeded then [{ addrVec := req.addrVec, typeId := p.vrrReqId }] else [])

def plugin : ControllerPlugin C TWiCe Unit where
  init := setup cfg
  update := fun s found _ => update cfg p s found

def entry (s : TWiCe) (bank row : ℤ) : Option TwiCeEntry :=
  (atBank s.tables bank).bind fun t => t.lookup row

/-! ## The account of a row -/

variable {cfg : DeviceConfig C} {p : TWiCeParams} {s s' : TWiCe} {bank row : ℤ} {acts refs : ℕ}

/-- After `acts` activations of a row and `refs` refresh commands: a live entry knows its own
activations, and those of earlier lifetimes fit into the refresh commands before it. -/
def RowBound (p : TWiCeParams) (acts refs : ℕ) : Option TwiCeEntry → Prop
  | none => (acts : ℚ) ≤ refs * p.pruningIntervalThreshold
  | some e => e.actCount < p.rhThreshold ∧
      (acts : ℚ) ≤ e.actCount + (refs - e.life) * p.pruningIntervalThreshold

/-- A refresh command: a pruned entry leaves its activations to the refresh commands of its life. -/
theorem RowBound.age (hp : 0 ≤ p.pruningIntervalThreshold) {e : Option TwiCeEntry}
    (h : RowBound p acts refs e) :
    RowBound p acts (refs + 1) (e.bind (TWiCe.age p.pruningIntervalThreshold)) := by
  cases e with
  | none =>
    simp only [RowBound, bind_none] at h ⊢
    push_cast
    linarith
  | some e =>
    obtain ⟨hbelow, hacts⟩ := h
    simp only [bind_some, TWiCe.age]
    split
    · rename_i hpruned
      simp only [RowBound]
      push_cast
      linarith
    · refine ⟨hbelow, ?_⟩
      push_cast
      linarith

variable {t t' : UnorderedMap ℤ TwiCeEntry} {found : Option (Request C)}

theorem RowBound.activate (hT : 2 ≤ p.rhThreshold) (h : RowBound p acts refs (t.lookup row))
    (hact : activateRow p.rhThreshold row t = (t', false)) :
    RowBound p (acts + 1) refs (t'.lookup row) := by
  unfold activateRow at hact
  split at hact
  · rename_i hnone
    cases hact
    rw [hnone] at h
    rw [AList.lookup_insert]
    refine ⟨hT, ?_⟩
    simp only [RowBound] at h
    push_cast
    linarith
  · rename_i e he
    rw [he] at h
    obtain ⟨-, hacts⟩ := h
    split at hact
    · cases hact
    · rename_i hbelow
      cases hact
      rw [AList.lookup_insert]
      refine ⟨Nat.lt_of_not_le hbelow, ?_⟩
      push_cast
      linarith

theorem RowBound.le (hT : 1 ≤ p.rhThreshold) (hp : 0 ≤ p.pruningIntervalThreshold)
    {e : Option TwiCeEntry} (h : RowBound p acts refs e) :
    (acts : ℚ) ≤ (p.rhThreshold - 1) + refs * p.pruningIntervalThreshold := by
  cases e with
  | none =>
    simp only [RowBound] at h
    have hT' : (1 : ℚ) ≤ p.rhThreshold := by exact_mod_cast hT
    linarith
  | some e =>
    obtain ⟨hbelow, hacts⟩ := h
    have hcount : (e.actCount : ℚ) + 1 ≤ p.rhThreshold := by exact_mod_cast hbelow
    have hlife : 0 ≤ (e.life : ℚ) * p.pruningIntervalThreshold := by positivity
    linarith

/-! ## Stretches of a run -/

theorem lookup_activateRow_ne {threshold : ℕ} {row' : ℤ} {exceeded : Bool}
    (hact : activateRow threshold row t = (t', exceeded)) (hne : row' ≠ row) :
    t'.lookup row' = t.lookup row' := by
  unfold activateRow at hact
  split at hact
  · cases hact
    exact AList.lookup_insert_ne hne
  · split at hact
    · cases hact
      exact AList.lookup_erase_ne hne
    · cases hact
      exact AList.lookup_insert_ne hne

def rowActs (cfg : DeviceConfig C) (bank row : ℤ) (h : List (Observed C)) : ℕ :=
  h.countP fun o => o.found.any (cfg.activatesRow bank row)

def refreshes (cfg : DeviceConfig C) (h : List (Observed C)) : ℕ :=
  h.countP fun o => o.found.any (isRankRefresh cfg)

def Unrefreshed (cfg : DeviceConfig C) (p : TWiCeParams) (bank row : ℤ) (h : List (Observed C)) : Prop :=
  ∀ o ∈ h, cfg.refreshesRow p.vrrReqId bank row o = false

theorem any_activatesRow_of_refresh (h : found.any (isRankRefresh cfg) = true) (bank row : ℤ) :
    found.any (cfg.activatesRow bank row) = false := by
  cases found with
  | none => rfl
  | some req =>
    simp only [any_some, isRankRefresh] at h
    split at h
    · rename_i cmd hcmd
      simp only [Bool.and_eq_true, beq_iff_eq] at h
      have hne : cfg.commandScopes cmd ≠ cfg.rowLevel := by
        rw [h.2]
        unfold rowLevel bankLevel
        omega
      simp [activatesRow, activatesBank, isActivation, hcmd, hne]
    · cases h

theorem entry_map_prune {q : ℚ} (htables : s'.tables = s.tables.map (prune q)) (bank row : ℤ) :
    entry s' bank row = (entry s bank row).bind (age q) := by
  unfold entry
  rw [htables, atBank_map]
  cases atBank s.tables bank with
  | none => rfl
  | some t => exact UnorderedMap.lookup_filterMapValues ..

theorem entry_setBank {bank₀ : ℤ} (ht : atBank s.tables bank₀ = some t)
    (htables : s'.tables = setBank s.tables bank₀ t') (bank row : ℤ) :
    entry s' bank row = if bank = bank₀ then t'.lookup row else entry s bank row := by
  unfold entry
  rw [htables, atBank_setBank ht]
  split <;> rfl

theorem update_cases {sent : List (Request C)} (hupdate : s.update cfg p found = some (s', sent)) :
    (found.any (isRankRefresh cfg) = true ∧
      s'.tables = s.tables.map (prune p.pruningIntervalThreshold)) ∨
    (found.any (isRankRefresh cfg) = false ∧ ((cfg.activation found = none ∧ s'.tables = s.tables) ∨
      ∃ req t t' exceeded, cfg.activation found = some req ∧
        atBank s.tables (cfg.flatBankId req.addrVec) = some t ∧
        activateRow p.rhThreshold (cfg.rowOf req.addrVec) t = (t', exceeded) ∧
        s'.tables = setBank s.tables (cfg.flatBankId req.addrVec) t' ∧
        sent = if exceeded then [{ addrVec := req.addrVec, typeId := p.vrrReqId }] else [])) := by
  unfold TWiCe.update at hupdate
  dsimp only at hupdate
  split at hupdate
  · rename_i href
    cases hupdate
    exact .inl ⟨href, rfl⟩
  · rename_i href
    refine .inr ⟨Bool.eq_false_of_not_eq_true href, ?_⟩
    split at hupdate
    · rename_i hnone
      cases hupdate
      exact .inl ⟨hnone, rfl⟩
    · rename_i req hreq
      split at hupdate
      · cases hupdate
      rename_i t ht
      obtain ⟨⟨t', exceeded⟩, hact⟩ :
          ∃ o, activateRow p.rhThreshold (cfg.rowOf req.addrVec) t = o := ⟨_, rfl⟩
      rw [hact] at hupdate
      cases hupdate
      exact .inr ⟨req, t, t', exceeded, hreq, ht, hact, rfl, rfl⟩

/-- Had the row reached the threshold, a request for it would have been sent. -/
theorem RowBound.activateSelf (hT : 2 ≤ p.rhThreshold) {req : Request C} {exceeded : Bool}
    (hs : RowBound p acts refs (t.lookup (cfg.rowOf req.addrVec)))
    (hact : activateRow p.rhThreshold (cfg.rowOf req.addrVec) t = (t', exceeded))
    (hsent : cfg.refreshesRow p.vrrReqId (cfg.flatBankId req.addrVec) (cfg.rowOf req.addrVec)
      { found := found,
        sent := if exceeded then [{ addrVec := req.addrVec, typeId := p.vrrReqId }] else [] } = false) :
    RowBound p (acts + 1) refs (t'.lookup (cfg.rowOf req.addrVec)) := by
  have hbelow : exceeded = false := by
    cases exceeded with
    | false => rfl
    | true => simp [refreshesRow] at hsent
  subst hbelow
  exact hs.activate hT hact

/-- **One update** keeps the account of a row, unless it sends a refresh request for it. -/
theorem RowBound.update (hT : 2 ≤ p.rhThreshold) (hp : 0 ≤ p.pruningIntervalThreshold)
    {h : List (Observed C)} {sent : List (Request C)}
    (hs : RowBound p (rowActs cfg bank row h) (refreshes cfg h) (entry s bank row))
    (hupdate : s.update cfg p found = some (s', sent))
    (hsent : cfg.refreshesRow p.vrrReqId bank row { found := found, sent := sent } = false) :
    RowBound p (rowActs cfg bank row ({ found := found, sent := sent } :: h))
      (refreshes cfg ({ found := found, sent := sent } :: h)) (entry s' bank row) := by
  unfold rowActs refreshes at *
  rw [countP_cons, countP_cons]
  dsimp only
  obtain ⟨href, htables⟩ | ⟨href, ⟨hnone, htables⟩ | ⟨req, t, t', exceeded, hreq, ht, hact, htables, rfl⟩⟩ :=
    update_cases hupdate
  · rw [any_activatesRow_of_refresh href, href, entry_map_prune htables]
    exact hs.age hp
  · rw [href, any_activatesRow_of_none hnone, entry, htables]
    exact hs
  · rw [href, any_activatesRow hreq, entry_setBank ht htables]
    by_cases hbank : bank = cfg.flatBankId req.addrVec
    · subst hbank
      rw [entry, ht, bind_some] at hs
      rw [if_pos rfl, beq_self_eq_true, Bool.true_and]
      by_cases hrow : cfg.rowOf req.addrVec = row
      · subst hrow
        rw [beq_self_eq_true]
        exact hs.activateSelf hT hact hsent
      · rw [beq_eq_false_iff_ne.mpr hrow, lookup_activateRow_ne hact (Ne.symm hrow)]
        exact hs
    · rw [if_neg hbank, beq_eq_false_iff_ne.mpr (Ne.symm hbank)]
      exact hs

/-- **Pruning forgets no more than the refresh commands pay for**: from no entry and without a refresh
request, a row gets at most `T - 1` activations and `p` more for each rank-level refresh command. -/
theorem acts_le_of_no_refresh (cfg : DeviceConfig C) (p : TWiCeParams) (hT : 2 ≤ p.rhThreshold)
    (hp : 0 ≤ p.pruningIntervalThreshold) {r r' : PluginRun C TWiCe}
    {is : List (Option (Request C) × Unit)} {h : List (Observed C)} {bank row : ℤ}
    (hnone : entry r.plugin bank row = none)
    (hrun : (plugin cfg p).machine.run r is = some r') (hhist : r'.history = h ++ r.history)
    (hunrefreshed : Unrefreshed cfg p bank row h) :
    (rowActs cfg bank row h : ℚ) ≤
      (p.rhThreshold - 1) + refreshes cfg h * p.pruningIntervalThreshold := by
  have hbound : Unrefreshed cfg p bank row h →
      RowBound p (rowActs cfg bank row h) (refreshes cfg h) (entry r'.plugin bank row) := by
    refine ControllerPlugin.stretch_invariant (P := plugin cfg p)
      (I := fun s h => Unrefreshed cfg p bank row h →
        RowBound p (rowActs cfg bank row h) (refreshes cfg h) (entry s bank row)) ?_ ?_ hrun hhist
    · intro _
      rw [hnone]
      simp [RowBound, rowActs, refreshes]
    · intro s found choice s' sent h hinv hupdate hun
      exact (hinv fun o ho => hun o (mem_cons_of_mem _ ho)).update hT hp hupdate
        (hun _ (mem_cons_self ..))
  exact (hbound hunrefreshed).le (by omega) hp

/-- Row 5 is activated, aged, pruned and activated again: three activations and two refreshes. -/
theorem acts_le_across_pruning :
    ∃ r, (plugin DDR5VRR.oneBank ⟨3, 2, DDR5VRR.typeVictimRowRefresh⟩).machine.Reachable
        r ∧ entry r.plugin 0 5 = some ⟨2, 0⟩ ∧
      (rowActs DDR5VRR.oneBank 0 5 r.history : ℚ) ≤ 3 - 1 + 2 * 2 := by
  let p : TWiCeParams := ⟨3, 2, DDR5VRR.typeVictimRowRefresh⟩
  let m := (plugin DDR5VRR.oneBank p).machine
  let act := (some (DDR5VRR.activateRow 5), ())
  let ref := (some (DDR5VRR.command .REFab [0, 0, -1, -1, -1, -1]), ())
  have hrun : (m.run m.init [act, ref, ref, act, act]).map
      (fun r => (entry r.plugin 0 5, refreshes DDR5VRR.oneBank r.history,
        r.history.all fun o => !DDR5VRR.oneBank.refreshesRow p.vrrReqId 0 5 o)) =
      some (some ⟨2, 0⟩, 2, true) := by decide +kernel
  obtain ⟨r, hr, heq⟩ := map_eq_some_iff.mp hrun
  obtain ⟨hentry, hrest⟩ := Prod.mk.inj heq
  obtain ⟨hrefs, hall⟩ := Prod.mk.inj hrest
  refine ⟨r, Machine.reachable_of_run hr, hentry, ?_⟩
  have hnone : entry m.init.plugin 0 5 = none := by decide +kernel
  have hunrefreshed : Unrefreshed DDR5VRR.oneBank p 0 5 r.history :=
    fun o ho => by simpa using List.all_eq_true.mp hall o ho
  have hbound := acts_le_of_no_refresh DDR5VRR.oneBank p (by decide) (by decide)
    hnone hr (append_nil _).symm hunrefreshed
  rw [hrefs] at hbound
  simpa [p] using hbound

end TWiCe

end MultiCoreMemory
