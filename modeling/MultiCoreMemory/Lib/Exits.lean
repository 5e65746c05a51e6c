import Mathlib.Data.Option.Basic

/-!
# Programs with several ways to exit

A program says why it ended; one of the reasons must not occur.  `Avoids.bind`, `avoids_orExit` and
`avoids_orExit_some` go through a program call by call.
-/

namespace MultiCoreMemory.Exits

variable {ε α β : Type} {bad e : ε} {P : α → Prop} {Q : β → Prop}

/-- A partial call whose failure is given a reason. -/
def orExit (e : ε) : Option α → Except ε α
  | some a => .ok a
  | none => .error e

variable {x : Except ε α} {o : Option α}

theorem orExit_eq_ok_iff {a : α} : orExit e o = .ok a ↔ o = some a := by
  cases o <;> simp [orExit]

theorem bind_eq_ok_iff {f : α → Except ε β} {b : β} :
    x >>= f = .ok b ↔ ∃ a, x = .ok a ∧ f a = .ok b := by
  cases x with
  | error e => exact iff_of_false nofun fun ⟨_, h, _⟩ => nomatch h
  | ok a => exact ⟨fun h => ⟨a, rfl, h⟩, fun ⟨_, h, h'⟩ => Except.ok.inj h ▸ h'⟩

theorem toOption_eq_some_iff {a : α} : x.toOption = some a ↔ x = .ok a := by
  cases x <;> simp [Except.toOption]

/-- The program does not end for the bad reason, and what it returns satisfies `P`. -/
def Avoids (bad : ε) (P : α → Prop) : Except ε α → Prop
  | .ok a => P a
  | .error e => e ≠ bad

theorem Avoids.bind {f : α → Except ε β} (hx : Avoids bad P x) (hf : ∀ a, P a → Avoids bad Q (f a)) :
    Avoids bad Q (x >>= f) := by
  cases x with
  | error e => exact hx
  | ok a => exact hf a hx

theorem avoids_orExit (hne : e ≠ bad) (h : ∀ a, o = some a → P a) : Avoids bad P (orExit e o) := by
  cases o with
  | none => exact hne
  | some a => exact h a rfl

theorem avoids_orExit_some {a : α} (ho : o = some a) (ha : P a) : Avoids bad P (orExit e o) := by
  subst ho
  exact ha

theorem Avoids.ne (h : Avoids bad P x) : x ≠ .error bad := by
  rintro rfl
  exact h rfl

theorem Avoids.ok {a : α} (h : Avoids bad P x) (hx : x = .ok a) : P a := by
  subst hx
  exact h

end MultiCoreMemory.Exits
