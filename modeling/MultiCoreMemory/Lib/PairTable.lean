import MultiCoreMemory.Lib.UnorderedMap
import Mathlib.Logic.Equiv.Basic

/-!
# Tables of exchanged pairs

A hash map sends a key to another key (`dst` of its value), and every entry has its mirror image.
-/

namespace MultiCoreMemory

open AList

namespace UnorderedMap

variable {K V : Type*} [DecidableEq K] {dst : V → K} {m : UnorderedMap K V} {a b k : K} {v va vb : V}

/-- Where a key is sent, the key itself when it has no entry. -/
def redirect (dst : V → K) (m : UnorderedMap K V) (k : K) : K := ((m.lookup k).map dst).getD k

theorem redirect_of_lookup (h : m.lookup k = some v) : redirect dst m k = dst v := by
  rw [redirect, h]
  rfl

theorem redirect_of_lookup_none (h : m.lookup k = none) : redirect dst m k = k := by
  rw [redirect, h]
  rfl

/-- Every entry has its mirror image and moves its key. -/
structure Paired (dst : V → K) (m : UnorderedMap K V) : Prop where
  back : ∀ {k v}, m.lookup k = some v → ∃ w, m.lookup (dst v) = some w ∧ dst w = k
  apart : ∀ {k v}, m.lookup k = some v → dst v ≠ k

theorem paired_empty : Paired dst (∅ : UnorderedMap K V) where
  back := by simp
  apart := by simp

theorem Paired.involutive (hm : Paired dst m) : Function.Involutive (redirect dst m) := by
  intro k
  cases hk : m.lookup k with
  | none => rw [redirect_of_lookup_none hk, redirect_of_lookup_none hk]
  | some v =>
    obtain ⟨w, hw, hback⟩ := hm.back hk
    rw [redirect_of_lookup hk, redirect_of_lookup hw, hback]

theorem Paired.redirect_ne (hm : Paired dst m) (ha : m.lookup a = none) (hne : k ≠ a) :
    redirect dst m k ≠ a := by
  intro heq
  apply hne
  rw [← hm.involutive k, heq, redirect_of_lookup_none ha]

theorem lookup_insert_pair (hab : a ≠ b) (k : K) :
    ((m.insert a va).insert b vb).lookup k =
      if k = a then some va else if k = b then some vb else m.lookup k := by
  by_cases hb : k = b
  · subst hb
    rw [lookup_insert, if_neg (Ne.symm hab), if_pos rfl]
  · rw [lookup_insert_ne hb, if_neg hb]
    by_cases ha : k = a
    · subst ha
      rw [lookup_insert, if_pos rfl]
    · rw [lookup_insert_ne ha, if_neg ha]

theorem lookup_erase_pair (k : K) :
    ((m.erase a).erase b).lookup k = if k = a ∨ k = b then none else m.lookup k := by
  by_cases hb : k = b
  · subst hb
    rw [lookup_erase, if_pos (.inr rfl)]
  · rw [lookup_erase_ne hb]
    by_cases ha : k = a
    · subst ha
      rw [lookup_erase, if_pos (.inl rfl)]
    · rw [lookup_erase_ne ha, if_neg (by simp [ha, hb])]

theorem length_keys_insert_pair (hab : a ≠ b) (ha : m.lookup a = none) (hb : m.lookup b = none) :
    ((m.insert a va).insert b vb).keys.length = m.keys.length + 2 := by
  have hb' : (m.insert a va).lookup b = none := by rw [lookup_insert_ne (Ne.symm hab), hb]
  rw [← length_values, values_insert_of_lookup_none hb', List.length_cons,
    values_insert_of_lookup_none ha, List.length_cons, length_values]

theorem length_keys_erase_pair (hab : a ≠ b) (ha : m.lookup a = some va) (hb : m.lookup b = some vb) :
    ((m.erase a).erase b).keys.length + 2 = m.keys.length := by
  have hb' : (m.erase a).lookup b = some vb := by rw [lookup_erase_ne (Ne.symm hab), hb]
  have hrest := (values_perm_erase hb').length_eq
  have hall := (values_perm_erase ha).length_eq
  rw [List.length_cons, length_values, length_values] at hrest hall
  omega

theorem Paired.insert_pair (hm : Paired dst m) (hab : a ≠ b) (ha : m.lookup a = none)
    (hb : m.lookup b = none) (hva : dst va = b) (hvb : dst vb = a) :
    Paired dst ((m.insert a va).insert b vb) where
  back := by
    intro k v hk
    rw [lookup_insert_pair hab] at hk
    split at hk
    · rename_i hka
      cases hk
      refine ⟨vb, ?_, hvb.trans hka.symm⟩
      rw [lookup_insert_pair hab, hva, if_neg (Ne.symm hab), if_pos rfl]
    · split at hk
      · rename_i hkb
        cases hk
        refine ⟨va, ?_, hva.trans hkb.symm⟩
        rw [lookup_insert_pair hab, hvb, if_pos rfl]
      · rename_i hka hkb
        obtain ⟨w, hw, hback⟩ := hm.back hk
        have hda := hm.redirect_ne ha hka
        have hdb := hm.redirect_ne hb hkb
        rw [redirect_of_lookup hk] at hda hdb
        refine ⟨w, ?_, hback⟩
        rw [lookup_insert_pair hab, if_neg hda, if_neg hdb, hw]
  apart := by
    intro k v hk
    rw [lookup_insert_pair hab] at hk
    split at hk
    · rename_i hka
      cases hk
      rw [hva, hka]
      exact Ne.symm hab
    · split at hk
      · rename_i hkb
        cases hk
        rw [hvb, hkb]
        exact hab
      · exact hm.apart hk

/-- Entering or removing a pair composes `redirect` with the exchange of the two keys. -/
theorem Paired.redirect_insert_pair (hm : Paired dst m) (hab : a ≠ b) (ha : m.lookup a = none)
    (hb : m.lookup b = none) (hva : dst va = b) (hvb : dst vb = a) (k : K) :
    redirect dst ((m.insert a va).insert b vb) k = Equiv.swap a b (redirect dst m k) := by
  rcases eq_or_ne k a with rfl | hka
  · rw [redirect_of_lookup_none ha, Equiv.swap_apply_left, redirect, lookup_insert_pair hab, if_pos rfl]
    exact hva
  rcases eq_or_ne k b with rfl | hkb
  · rw [redirect_of_lookup_none hb, Equiv.swap_apply_right, redirect, lookup_insert_pair hab,
      if_neg hka, if_pos rfl]
    exact hvb
  · rw [Equiv.swap_apply_of_ne_of_ne (hm.redirect_ne ha hka) (hm.redirect_ne hb hkb), redirect,
      lookup_insert_pair hab, if_neg hka, if_neg hkb, redirect]

theorem Paired.erase_pair (hm : Paired dst m) (ha : m.lookup a = some v) :
    Paired dst ((m.erase a).erase (dst v)) where
  back := by
    intro k w hk
    rw [lookup_erase_pair] at hk
    split at hk
    · cases hk
    · rename_i hk'
      obtain ⟨u, hu, hback⟩ := hm.back hk
      refine ⟨u, ?_, hback⟩
      have hne : ¬ (dst w = a ∨ dst w = dst v) := by
        rintro (heq | heq)
        · -- the entry of `k` points at `a`, so `k` is the target of `a`
          rw [heq, ha] at hu
          rw [← Option.some.inj hu] at hback
          exact hk' (.inr hback.symm)
        · obtain ⟨u', hu', hback'⟩ := hm.back ha
          rw [heq, hu'] at hu
          rw [← Option.some.inj hu, hback'] at hback
          exact hk' (.inl hback.symm)
      rw [lookup_erase_pair, if_neg hne, hu]
  apart := by
    intro k w hk
    rw [lookup_erase_pair] at hk
    split at hk
    · cases hk
    · exact hm.apart hk

theorem Paired.redirect_erase_pair (hm : Paired dst m) (ha : m.lookup a = some v) (k : K) :
    redirect dst ((m.erase a).erase (dst v)) k = Equiv.swap a (dst v) (redirect dst m k) := by
  obtain ⟨w, hw, hback⟩ := hm.back ha
  rcases eq_or_ne k a with rfl | hka
  · rw [redirect_of_lookup ha, Equiv.swap_apply_right, redirect, lookup_erase_pair, if_pos (.inl rfl)]
    rfl
  rcases eq_or_ne k (dst v) with rfl | hkb
  · rw [redirect_of_lookup hw, hback, Equiv.swap_apply_left, redirect, lookup_erase_pair,
      if_pos (.inr rfl)]
    rfl
  · have hne : redirect dst m k ≠ a := fun heq => hkb (by
      rw [← hm.involutive k, heq, redirect_of_lookup ha])
    have hne' : redirect dst m k ≠ dst v := fun heq => hka (by
      rw [← hm.involutive k, heq, redirect_of_lookup hw, hback])
    rw [Equiv.swap_apply_of_ne_of_ne hne hne', redirect, lookup_erase_pair,
      if_neg (by simp [hka, hkb]), redirect]

section

variable {f : V → V}

theorem lookup_mapValues (f : V → V) (m : UnorderedMap K V) (k : K) :
    (m.filterMapValues fun _ v => some (f v)).lookup k = (m.lookup k).map f := by
  rw [lookup_filterMapValues]
  cases m.lookup k <;> rfl

omit [DecidableEq K] in
theorem length_keys_mapValues (f : V → V) (m : UnorderedMap K V) :
    (m.filterMapValues fun _ v => some (f v)).keys.length = m.keys.length := by
  unfold filterMapValues
  simp [keys, List.keys]

theorem redirect_mapValues (hf : ∀ v, dst (f v) = dst v) (k : K) :
    redirect dst (m.filterMapValues fun _ v => some (f v)) k = redirect dst m k := by
  rw [redirect, lookup_mapValues, redirect, Option.map_map]
  congr 2
  exact funext hf

theorem Paired.mapValues (hm : Paired dst m) (hf : ∀ v, dst (f v) = dst v) :
    Paired dst (m.filterMapValues fun _ v => some (f v)) where
  back := by
    intro k v hk
    rw [lookup_mapValues] at hk
    obtain ⟨v₀, hv₀, rfl⟩ := Option.map_eq_some_iff.mp hk
    obtain ⟨w, hw, hback⟩ := hm.back hv₀
    refine ⟨f w, ?_, (hf w).trans hback⟩
    rw [lookup_mapValues, hf, hw]
    rfl
  apart := by
    intro k v hk
    rw [lookup_mapValues] at hk
    obtain ⟨v₀, hv₀, rfl⟩ := Option.map_eq_some_iff.mp hk
    rw [hf]
    exact hm.apart hv₀

end

end UnorderedMap

end MultiCoreMemory
