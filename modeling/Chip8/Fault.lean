import Chip8.Registers

namespace Chip8

inductive Fault where
  | unknownOpcode
  | stackUnderflow
  | stackOverflow
deriving DecidableEq

namespace Fault

inductive Kind where
  | decode
  | stack
deriving DecidableEq

def kind : Fault → Kind
  | unknownOpcode => .decode
  | stackUnderflow => .stack
  | stackOverflow => .stack

def code : Fault → UInt8
  | unknownOpcode => 1
  | stackUnderflow => 2
  | stackOverflow => 3

def ofCode? (code : UInt8) : Option Fault :=
  [unknownOpcode, stackUnderflow, stackOverflow].find? fun f ↦ f.code = code

def message : Fault → String
  | unknownOpcode => "unknown opcode"
  | stackUnderflow => "return executed with an empty call stack"
  | stackOverflow => "call exceeded the call stack depth"

end Fault

structure FaultReport where
  fault : Fault
  address : UInt16
  word : UInt16
deriving DecidableEq

def FaultReport.text (r : FaultReport) : String :=
  r.fault.message ++ " at " ++ Numeral.marked 3 r.address.toNat
    ++ " (opcode " ++ Numeral.hex 4 r.word.toNat ++ ")"

end Chip8
