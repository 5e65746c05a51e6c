import Mathlib.Logic.Function.Basic

/-!
# A store with copies above it

Copies of some values are held above a memory; a copy hides what the memory has.  What a reader
sees is the *view*.
-/

namespace MultiCoreMemory

structure WriteBack (A D : Type*) where
  held : A → Option D
  mem : A → D

namespace WriteBack

variable {A D : Type*} [DecidableEq A] {s : WriteBack A D} {a : A} {d : D}

def view (s : WriteBack A D) (a : A) : D := (s.held a).getD (s.mem a)

/-- A copy is written or brought in. -/
def put (s : WriteBack A D) (a : A) (d : D) : WriteBack A D :=
  { s with held := Function.update s.held a (some d) }

/-- A copy is given up; `back` is what the memory is told. -/
def drop (s : WriteBack A D) (a : A) (back : Option D) : WriteBack A D where
  held := Function.update s.held a none
  mem := match back with
    | some d => Function.update s.mem a d
    | none => s.mem

theorem view_put (s : WriteBack A D) (a : A) (d : D) :
    (s.put a d).view = Function.update s.view a d := by
  funext b
  by_cases h : b = a
  · subst h
    simp [view, put]
  · simp [view, put, h]

theorem view_drop_self (back : Option D) : (s.drop a back).view a = back.getD (s.mem a) := by
  cases back <;> simp [view, drop]

theorem view_drop_of_ne {b : A} (h : b ≠ a) (back : Option D) :
    (s.drop a back).view b = s.view b := by
  cases back <;> simp [view, drop, h]

/-- **A copy may go exactly when the memory is left with its value.** -/
theorem view_drop_iff (h : s.held a = some d) (back : Option D) :
    (s.drop a back).view = s.view ↔ back.getD (s.mem a) = d := by
  have hself : s.view a = d := by simp [view, h]
  constructor
  · intro heq
    rw [← view_drop_self, heq, hself]
  · intro heq
    funext b
    by_cases hb : b = a
    · rw [hb, view_drop_self, heq, hself]
    · exact view_drop_of_ne hb back

end WriteBack

/-! ## What went in and out -/

/-- What goes in and out of a store. -/
inductive Transfer (A D : Type*) where
  | got (a : A) (d : D)
  | put (a : A) (d : D)
  deriving DecidableEq, Repr

structure LoggedStore (σ A D : Type*) where
  store : σ
  log : List (Transfer A D) := []

section

variable {A D : Type*} [DecidableEq A] (start : A → D)

def lastPut : List (Transfer A D) → A → D
  | [], a => start a
  | .put b d :: log, a => if a = b then d else lastPut log a
  | .got _ _ :: log, a => lastPut log a

/-- **Every read returned what was last put at its address.** -/
def Transparent : List (Transfer A D) → Prop
  | [] => True
  | .got a d :: log => d = lastPut start log a ∧ Transparent log
  | .put _ _ :: log => Transparent log

end

end MultiCoreMemory
