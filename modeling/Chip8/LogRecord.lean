import Chip8.Execution
import Chip8.Instruction.Text
import Chip8.Pacer

namespace Chip8

inductive Driver where
  | cpu
  | timer
deriving DecidableEq

def Driver.name : Driver → String
  | cpu => "cpu"
  | timer => "timer"

structure SpawnFailure where
  driver : Driver
  cause : String
deriving DecidableEq

def SpawnFailure.message (e : SpawnFailure) : String :=
  "failed to spawn the " ++ e.driver.name ++ " driver thread"

inductive LogRecord where
  | loaded (size : Nat) (rate : UInt32) (dialect : Dialect)
  | retired (address : UInt16) (instruction : Instruction)
  | fault (report : FaultReport)
  | driversStarted (rate : UInt32)
  | driversStopped
  | driverCrashed (driver : Driver)
deriving DecidableEq

def Dialect.text (d : Dialect) : String :=
  "Quirks \x7b load_store_advances_index: " ++ toString d.advancesIndex
    ++ ", shift_in_place: " ++ toString d.shiftsInPlace
    ++ ", jump_offset_uses_vx: " ++ toString d.namesOffset ++ " \x7d"

namespace LogRecord

def level : LogRecord → String
  | retired _ _ => "TRACE"
  | fault _ => "WARN"
  | driverCrashed _ => "WARN"
  | _ => "INFO"

def body : LogRecord → String
  | loaded size rate dialect =>
    "loaded " ++ toString size ++ " byte rom (cpu " ++ toString rate.toNat ++ " Hz, quirks "
      ++ dialect.text ++ ")"
  | retired address instruction => Numeral.marked 3 address.toNat ++ ": " ++ instruction.text
  | fault report => report.text
  | driversStarted rate =>
    "started drivers (cpu " ++ toString rate.toNat ++ " Hz, timers "
      ++ toString timerRate.toNat ++ " Hz)"
  | driversStopped => "stopped drivers"
  | driverCrashed driver => "chip8-" ++ driver.name ++ " thread panicked"

def text (r : LogRecord) : String := r.level ++ " " ++ r.body

end LogRecord

end Chip8
