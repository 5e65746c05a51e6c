import Mathlib.Data.List.Find
import MultiCoreMemory.Sniper.Cache

/-!
# The SRRIP cache set (`cache/cache_set_srrip.cc`)

The victim is the first way from the replacement pointer whose prediction is the highest one; as long as
there is none, all predictions go up by 1.  Only the assertion after the choice looks at
`isValidReplacement`, and a candidate that query-based selection rejects starts again from 0.
-/

namespace MultiCoreMemory.Sniper

open List Nat

variable {D : Type*}

structure SRRIPParams where
  numbits : ℕ
  numAttempts : ℕ
  deriving DecidableEq

def SRRIPParams.max (p : SRRIPParams) : ℕ := 2 ^ p.numbits - 1

def SRRIPParams.insert (p : SRRIPParams) : ℕ := p.max - 1

inductive SRRIPError where
  | invalidCandidate
  | notFound
  deriving DecidableEq

structure CacheSetSRRIP (D : Type*) where
  lines : List (CacheLine D)
  rripBits : ℕ → ℕ
  replacementPointer : ℕ
  pointer_lt : replacementPointer < lines.length

namespace CacheSetSRRIP

section

variable (p : SRRIPParams) (s : CacheSetSRRIP D)

def associativity : ℕ := s.lines.length

def isValidReplacement (way : ℕ) : Bool :=
  s.lines[way]?.any fun line => line.cstate ≠ .SHARED_UPGRADING

def advance : CacheSetSRRIP D :=
  { s with
    replacementPointer := (s.replacementPointer + 1) % s.associativity
    pointer_lt := mod_lt _ (zero_lt_of_lt s.pointer_lt) }

def setBits (way value : ℕ) : CacheSetSRRIP D :=
  { s with rripBits := Function.update s.rripBits way value }

/-- "Increment all RRIP counters". -/
def age : CacheSetSRRIP D :=
  { s with rripBits := fun way => if s.rripBits way < p.max then s.rripBits way + 1 else s.rripBits way }

/-- The loop over the ways, for so many rounds: the candidate that is not rejected, or the set and the
number of attempts after the loop. -/
def pass (inLower : ℕ → Bool) :
    ℕ → CacheSetSRRIP D → ℕ → (ℕ × CacheSetSRRIP D) ⊕ (CacheSetSRRIP D × ℕ)
  | 0, s, attempt => .inr (s, attempt)
  | n + 1, s, attempt =>
    let index := s.replacementPointer
    if p.max ≤ s.rripBits index then
      if attempt + 1 < p.numAttempts && inLower index then
        pass inLower n (s.setBits index 0) (attempt + 1)
      else .inl (index, s.advance.setBits index p.insert)
    else pass inLower n s.advance attempt

def search (inLower : ℕ → Bool) :
    ℕ → CacheSetSRRIP D → ℕ → Except SRRIPError (ℕ × CacheSetSRRIP D)
  | 0, _, _ => .error .notFound
  | rounds + 1, s, attempt =>
    match pass p inLower s.associativity s attempt with
    | .inl (index, s) => if s.isValidReplacement index then .ok (index, s) else .error .invalidCandidate
    | .inr (s, attempt) => search inLower rounds (s.age p) attempt

/-- The first way without a line. -/
def emptyWay : Option ℕ :=
  (List.range s.associativity).find? fun way => !s.lines[way]?.any CacheLine.isValid

/-- `getReplacementIndex`; the oracle says whether the line of a way is in a lower-level cache. -/
def getReplacementIndex (inLower : ℕ → Bool) : Except SRRIPError (ℕ × CacheSetSRRIP D) :=
  match s.emptyWay with
  | some way => .ok (way, s.setBits way p.insert)
  | none => search p inLower (p.max + 1) s 0

/-- `updateReplacementIndex`, without the statistics. -/
def updateReplacementIndex (accessed : ℕ) : CacheSetSRRIP D :=
  if 0 < s.rripBits accessed then s.setBits accessed (s.rripBits accessed - 1) else s

def modifyLine (way : ℕ) (f : CacheLine D → CacheLine D) : CacheSetSRRIP D :=
  { s with lines := s.lines.modify way f, pointer_lt := by simpa using s.pointer_lt }

def insert (inLower : ℕ → Bool) (line : CacheLine D) : Except SRRIPError (CacheSetSRRIP D) :=
  (s.getReplacementIndex p inLower).map fun (way, s) => s.modifyLine way fun _ => line

def create (associativity : ℕ) (fresh : D) (h : 0 < associativity) : CacheSetSRRIP D where
  lines := List.replicate associativity { data := fresh }
  rripBits := fun _ => p.insert
  replacementPointer := 0
  pointer_lt := by simpa using h

end

/-! ## The order of the candidates -/

section

variable (p : SRRIPParams)

/-- The first candidate that is in no lower-level cache, or else the one of the last attempt. -/
def chosen (inLower : ℕ → Bool) : ℕ → List ℕ → Option ℕ
  | _, [] => none
  | attempts, way :: ways =>
    if 1 < attempts && inLower way then chosen inLower (attempts - 1) ways else some way

end

variable {p : SRRIPParams} {inLower : ℕ → Bool} {s : CacheSetSRRIP D}

def sharedLine (tag : ℕ) : CacheLine Unit := { tag := tag, cstate := .SHARED, data := () }

def filled (p : SRRIPParams) (n : ℕ) (h : 0 < n) : Except SRRIPError (CacheSetSRRIP Unit) :=
  (List.range n).foldlM (fun s tag => s.insert p (fun _ => false) (sharedLine tag)) (create p n () h)

end CacheSetSRRIP

end MultiCoreMemory.Sniper
