import MultiCoreMemory.Controller.Generic
import MultiCoreMemory.Dram.DDR4
import MultiCoreMemory.Lib.Machine

/-!
# The memory system (`generic_DRAM_system.cpp`)

One device shared by the channels, and one controller for each channel.
-/

namespace MultiCoreMemory

open DDR4.Device

variable {C σ : Type}

/-- The device and its clock tick, the address mapper, and the parameters of the controllers. -/
structure SystemConfig (C σ : Type) where
  device : IDRAM C σ
  tick : σ → σ
  mapper : Request C → Request C
  params : ControllerParams

structure MemorySystem (C σ : Type) where
  clk : ℕ := 0
  dram : σ
  controllers : List (Controller C)
  numReadRequests : ℕ := 0
  numWriteRequests : ℕ := 0
  numOtherRequests : ℕ := 0

inductive SystemCall (C : Type) where
  | send (req : Request C)
  | prioritySend (ch : ℕ) (req : Request C)
  | tickDram
  | tickController (ch : ℕ) (refreshReqs policyReqs : List (Request C))

namespace MemorySystem

variable (S : SystemConfig C σ)

variable (s : MemorySystem C σ)

def setController (ch : ℕ) (c : Controller C) : MemorySystem C σ :=
  { s with controllers := s.controllers.set ch c }

def countRequest (typeId : ℕ) : MemorySystem C σ :=
  if typeId = typeRead then { s with numReadRequests := s.numReadRequests + 1 }
  else if typeId = typeWrite then { s with numWriteRequests := s.numWriteRequests + 1 }
  else { s with numOtherRequests := s.numOtherRequests + 1 }

theorem countRequest_frame (typeId : ℕ) :
    (s.countRequest typeId).dram = s.dram ∧
      (s.countRequest typeId).controllers = s.controllers := by
  unfold countRequest
  split
  · exact ⟨rfl, rfl⟩
  · split <;> exact ⟨rfl, rfl⟩

def send (req : Request C) : Except ControllerError (Bool × MemorySystem C σ) :=
  let req := S.mapper req
  let ch := (req.addrVec.level 0).toNat
  match s.controllers[ch]? with
  | none => .error .outOfRange
  | some c =>
    match c.send S.device req with
    | .error e => .error e
    | .ok (isSuccess, _, c') =>
      let s := s.setController ch c'
      .ok (isSuccess, if isSuccess then s.countRequest req.typeId else s)

def prioritySend (ch : ℕ) (req : Request C) : Except ControllerError (Bool × MemorySystem C σ) :=
  match s.controllers[ch]? with
  | none => .error .outOfRange
  | some c =>
    match c.prioritySend S.device req with
    | .error e => .error e
    | .ok (isSuccess, _, c') => .ok (isSuccess, s.setController ch c')

def tickDram : MemorySystem C σ :=
  { s with clk := s.clk + 1, dram := S.tick s.dram }

def tickController [DecidableEq C] (s : MemorySystem C σ) (ch : ℕ)
    (refreshReqs policyReqs : List (Request C)) : Except ControllerError (MemorySystem C σ) :=
  match s.controllers[ch]? with
  | none => .error .outOfRange
  | some c =>
    match c.tick S.device S.params s.dram refreshReqs policyReqs with
    | .error e => .error e
    | .ok (d, _, c') => .ok { s.setController ch c' with dram := d }

def step [DecidableEq C] (s : MemorySystem C σ) : SystemCall C → Option (MemorySystem C σ)
  | .send req => (s.send S req).toOption.map Prod.snd
  | .prioritySend ch req => (s.prioritySend S ch req).toOption.map Prod.snd
  | .tickDram => some (s.tickDram S)
  | .tickController ch refreshReqs policyReqs =>
    (s.tickController S ch refreshReqs policyReqs).toOption

inductive StepCases [DecidableEq C] (s s' : MemorySystem C σ) : SystemCall C → Prop
  | send {req : Request C} {c c' : Controller C} {isSuccess : Bool} {effects : List (Effect C)} :
      s.controllers[((S.mapper req).addrVec.level 0).toNat]? = some c →
      c.send S.device (S.mapper req) = .ok (isSuccess, effects, c') → s'.dram = s.dram →
      s'.controllers = s.controllers.set ((S.mapper req).addrVec.level 0).toNat c' →
      StepCases s s' (.send req)
  | prioritySend {req : Request C} {ch : ℕ} {c c' : Controller C} {isSuccess : Bool}
      {effects : List (Effect C)} : s.controllers[ch]? = some c →
      c.prioritySend S.device req = .ok (isSuccess, effects, c') → s'.dram = s.dram →
      s'.controllers = s.controllers.set ch c' → StepCases s s' (.prioritySend ch req)
  | tickDram : s'.dram = S.tick s.dram → s'.controllers = s.controllers → StepCases s s' .tickDram
  | tickController {refreshReqs policyReqs : List (Request C)} {ch : ℕ} {c c' : Controller C}
      {effects : List (Effect C)} : s.controllers[ch]? = some c →
      c.tick S.device S.params s.dram refreshReqs policyReqs = .ok (s'.dram, effects, c') →
      s'.controllers = s.controllers.set ch c' →
      StepCases s s' (.tickController ch refreshReqs policyReqs)

theorem step_cases [DecidableEq C] {s s' : MemorySystem C σ} {call : SystemCall C}
    (h : s.step S call = some s') : StepCases S s s' call := by
  cases call with
  | send req =>
    simp only [step, send] at h
    split at h
    · cases h
    rename_i c hc
    split at h
    · cases h
    rename_i isSuccess effects c' hsend
    cases h
    -- counting an accepted request changes neither the device nor a controller
    refine .send hc hsend ?_ ?_
    · dsimp only
      split
      · exact (countRequest_frame ..).1
      · rfl
    · dsimp only
      split
      · exact (countRequest_frame ..).2
      · rfl
  | prioritySend ch req =>
    simp only [step, prioritySend] at h
    split at h
    · cases h
    rename_i c hc
    split at h
    · cases h
    rename_i hsend
    cases h
    exact .prioritySend hc hsend rfl rfl
  | tickDram =>
    cases h
    exact .tickDram rfl rfl
  | tickController ch refreshReqs policyReqs =>
    simp only [step, tickController] at h
    split at h
    · cases h
    rename_i c hc
    split at h
    · cases h
    rename_i htick
    cases h
    exact .tickController hc htick rfl

def cycle (reqs : List (List (Request C) × List (Request C))) : List (SystemCall C) :=
  .tickDram :: reqs.zipIdx.map fun r => .tickController r.2 r.1.1 r.1.2

def machine [DecidableEq C] (d : σ) (channels : ℕ) :
    Machine (MemorySystem C σ) (SystemCall C) where
  init := { dram := d, controllers := List.replicate channels {} }
  step := step S

end MemorySystem

def DDR4.idram (cfg : DDR4.Config) : IDRAM DDR4.Command DDR4.Device where
  requestTranslations := DDR4.requestTranslations
  commandMeta := DDR4.commandMeta
  bankLevel := DDR4.bank
  readLatency := cfg.readLatency
  issueCommand := issueCommand cfg
  getPreqCommand := getPreqCommand cfg
  checkReady := checkReady cfg
  checkRowbufferHit := checkRowbufferHit cfg
  checkNodeOpen := checkNodeOpen cfg

def DDR4.system (cfg : DDR4.Config) (mapper : Request DDR4.Command → Request DDR4.Command)
    (params : ControllerParams) : SystemConfig DDR4.Command DDR4.Device where
  device := DDR4.idram cfg
  tick := tick cfg
  mapper := mapper
  params := params

end MultiCoreMemory
