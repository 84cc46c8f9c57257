import Chip8.Layout

namespace Chip8

inductive SetupError where
  | programTooLarge (size : Nat)
  | zeroRate
deriving DecidableEq

def SetupError.message : SetupError → String
  | programTooLarge size =>
    "rom is " ++ toString size ++ " bytes but at most " ++ toString Layout.programCapacity
      ++ " bytes fit in program memory"
  | zeroRate => "cpu rate must be at least 1 Hz"

structure Dialect where
  /-- Register transfers leave the index behind the last transferred cell. -/
  advancesIndex : Bool := true
  /-- Shifts work on their first register; otherwise they shift the second one into it. -/
  shiftsInPlace : Bool := false
  /-- The offset jump takes the register that its address names; otherwise it takes `V0`. -/
  namesOffset : Bool := true
deriving DecidableEq

namespace Dialect

def legacy : Dialect := ⟨false, false, false⟩

def modern : Dialect := ⟨true, true, true⟩

end Dialect

namespace Config

def defaultRate : UInt32 := 700

end Config

structure Config where
  dialect : Dialect := {}
  /-- CPU ticks per second. -/
  rate : UInt32 := Config.defaultRate
  /-- Where the random bytes start; without a seed they differ from machine to machine. -/
  seed : Option UInt64 := none
  tracing : Bool := false
deriving DecidableEq

def Config.validate (c : Config) : Except SetupError Unit :=
  if c.rate = 0 then .error .zeroRate else .ok ()

end Chip8
