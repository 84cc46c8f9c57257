import Chip8.Instruction

namespace Chip8.Instruction

def xField (w : UInt16) : Register := .ofNibble (w.toNat / 256)

def yField (w : UInt16) : Register := .ofNibble (w.toNat / 16)

def nibbleField (w : UInt16) : Nat := w.toNat % 16

def byteField (w : UInt16) : UInt8 := .ofNat (w.toNat % 256)

def addressField (w : UInt16) : UInt16 := .ofNat (w.toNat % 4096)

def operation? : Nat → Option Operation
  | 0x0 => some .copy
  | 0x1 => some .or
  | 0x2 => some .and
  | 0x3 => some .xor
  | 0x4 => some .add
  | 0x5 => some .sub
  | 0x6 => some .shiftRight
  | 0x7 => some .subReverse
  | 0xE => some .shiftLeft
  | _ => none

def transfer? (x : Register) : Nat → Option Instruction
  | 0x07 => some (.readDelay x)
  | 0x0A => some (.waitForKey x)
  | 0x15 => some (.setDelay x)
  | 0x18 => some (.setSound x)
  | 0x1E => some (.addToIndex x)
  | 0x29 => some (.selectGlyph x)
  | 0x33 => some (.storeDecimal x)
  | 0x55 => some (.storeRegisters x)
  | 0x65 => some (.loadRegisters x)
  | _ => none

def keySkip? (x : Register) : Nat → Option Instruction
  | 0x9E => some (.skip (.keyPressed x))
  | 0xA1 => some (.skip (.keyReleased x))
  | _ => none

def plain? : Nat → Option Instruction
  | 0x0E0 => some .clearScreen
  | 0x0EE => some .ret
  | _ => none

/-- The first digit selects a family; register comparisons ignore the last digit, and a word that
matches nothing is kept as it is. -/
def decode (w : UInt16) : Instruction :=
  let x := xField w
  let y := yField w
  match w.toNat / 4096 with
  | 0x0 => (plain? w.toNat).getD (.unknown w)
  | 0x1 => .jump (addressField w)
  | 0x2 => .call (addressField w)
  | 0x3 => .skip (.equalsByte x (byteField w))
  | 0x4 => .skip (.differsFromByte x (byteField w))
  | 0x5 => .skip (.equalsRegister x y)
  | 0x6 => .setByte x (byteField w)
  | 0x7 => .addByte x (byteField w)
  | 0x8 => ((operation? (nibbleField w)).map (.compute · x y)).getD (.unknown w)
  | 0x9 => .skip (.differsFromRegister x y)
  | 0xA => .setIndex (addressField w)
  | 0xB => .jumpWithOffset (addressField w)
  | 0xC => .random x (byteField w)
  | 0xD => .draw x y (.ofNat (nibbleField w))
  | 0xE => (keySkip? x (w.toNat % 256)).getD (.unknown w)
  | _ => (transfer? x (w.toNat % 256)).getD (.unknown w)

end Chip8.Instruction
