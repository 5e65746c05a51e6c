import Mathlib.Data.Prod.Lex
import MultiCoreMemory.Controller.Conservation
import MultiCoreMemory.Lib.FirstLeast

/-!
# What the FRFCFS scheduler chooses (`generic_scheduler.cpp`)

`get_best_request` folds a pairwise comparison over the buffer.  The comparison is the order of a key,
so the fold ends at the first request of least key.
-/

namespace MultiCoreMemory

open FirstLeast

variable {C σ : Type} {D : IDRAM C σ} {d : σ}

namespace FRFCFS

/-- Ready requests first, then the older ones. -/
def key (D : IDRAM C σ) (d : σ) (r : Request C) : Bool ×ₗ ℤ := toLex (!r.ready D d, r.arrive)

theorem prefers_iff (req1 req2 : Request C) :
    prefers D d req1 req2 = true ↔ key D d req1 ≤ key D d req2 := by
  rw [key, key, Prod.Lex.toLex_le_toLex]
  unfold prefers
  cases req1.ready D d <;> cases req2.ready D d <;> simp

/-- Ready before not ready, then smaller `arrive`, then earlier in the buffer. -/
def Precedes (D : IDRAM C σ) (d : σ) (i : ℕ) (r : Request C) (j : ℕ) (r' : Request C) : Prop :=
  r.ready D d = true ∧ r'.ready D d = false ∨
    r.ready D d = r'.ready D d ∧ (r.arrive < r'.arrive ∨ r.arrive = r'.arrive ∧ i ≤ j)

theorem precedes_of_key {i j : ℕ} {r r' : Request C}
    (h : key D d r < key D d r' ∨ key D d r = key D d r' ∧ i ≤ j) : Precedes D d i r j r' := by
  rcases h with hlt | ⟨heq, hij⟩
  · rw [key, key, Prod.Lex.toLex_lt_toLex] at hlt
    rcases hlt with hready | ⟨hready, harrive⟩
    · exact .inl (by simpa [Bool.lt_iff] using hready)
    · exact .inr ⟨by simpa using hready, .inl harrive⟩
  · obtain ⟨hready, harrive⟩ : r.ready D d = r'.ready D d ∧ r.arrive = r'.arrive := by
      simpa [key] using heq
    exact .inr ⟨hready, .inr ⟨harrive, hij⟩⟩

/-- **The first ready, then oldest request**: every command is set to the prerequisite the device
names, and the request returned precedes every other one of the buffer. -/
theorem getBestRequest_precedes (D : IDRAM C σ) (d : σ) (b : ReqBuffer C) (hne : b.buffer ≠ []) :
    (getBestRequest D d b).2.buffer = b.buffer.map (Request.withPreq D d) ∧
      ∃ i r, (getBestRequest D d b).1 = some (i, r) ∧
        (b.buffer.map (Request.withPreq D d))[i]? = some r ∧
        ∀ j r', (b.buffer.map (Request.withPreq D d))[j]? = some r' → Precedes D d i r j r' := by
  obtain ⟨-, hbuffer, -⟩ := getBestRequest_spec (D := D) (d := d) b
  refine ⟨hbuffer, ?_⟩
  unfold getBestRequest
  split
  · rename_i hnil
    exact absurd (List.map_eq_nil_iff.mp hnil) hne
  · rename_i r rs hcons
    have hleast := scan_isFirstLeast prefers_iff (0, r) [r] rs (.singleton (key D d) r)
    rw [hcons]
    exact ⟨_, _, rfl, hleast.at_pos, fun j r' hr' => precedes_of_key (hleast.least hr')⟩

def twoReads : ReqBuffer DDR4.Command where
  buffer := [{ readOfBank 0 with finalCommand := some .RD, arrive := 3 },
    { readOfBank 1 with finalCommand := some .RD, arrive := 8 }]

/-- Where only activations are ready, and bank 0 is open, the younger read goes first. -/
theorem younger_read_of_closed_bank_first :
    twoReads.buffer ≠ [] ∧
      (getBestRequest slowRows [(readOfBank 0).addrVec] twoReads).1.map Prod.fst = some 1 ∧
      ∃ i r, (getBestRequest slowRows [(readOfBank 0).addrVec] twoReads).1 = some (i, r) ∧
        ∀ j r', (twoReads.buffer.map (Request.withPreq slowRows [(readOfBank 0).addrVec]))[j]? = some r' →
          Precedes slowRows [(readOfBank 0).addrVec] i r j r' := by
  have hne : twoReads.buffer ≠ [] := by decide
  obtain ⟨-, i, r, hbest, -, hfirst⟩ :=
    getBestRequest_precedes slowRows [(readOfBank 0).addrVec] twoReads hne
  exact ⟨hne, by decide, i, r, hbest, hfirst⟩

end FRFCFS

end MultiCoreMemory
