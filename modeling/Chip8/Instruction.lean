import Chip8.Arithmetic

namespace Chip8

inductive Condition where
  | equalsByte (x : Register) (value : UInt8)
  | differsFromByte (x : Register) (value : UInt8)
  | equalsRegister (x y : Register)
  | differsFromRegister (x y : Register)
  | keyPressed (x : Register)
  | keyReleased (x : Register)
deriving DecidableEq

inductive Instruction where
  | clearScreen
  | ret
  | jump (target : UInt16)
  | call (target : UInt16)
  | skip (condition : Condition)
  | setByte (x : Register) (value : UInt8)
  | addByte (x : Register) (value : UInt8)
  | compute (op : Operation) (x y : Register)
  | setIndex (address : UInt16)
  | jumpWithOffset (address : UInt16)
  | random (x : Register) (mask : UInt8)
  | draw (x y : Register) (height : UInt8)
  | readDelay (x : Register)
  | waitForKey (x : Register)
  | setDelay (x : Register)
  | setSound (x : Register)
  | addToIndex (x : Register)
  | selectGlyph (x : Register)
  | storeDecimal (x : Register)
  | storeRegisters (x : Register)
  | loadRegisters (x : Register)
  | unknown (word : UInt16)
deriving DecidableEq

namespace Instruction

def isUnknown : Instruction → Bool
  | unknown _ => true
  | _ => false

def offsetRegister (address : UInt16) : Register := .ofNibble (address.toNat / 256)

end Instruction

end Chip8
