import Chip8.Layout

namespace Chip8.Numeral

def hexDigit (d : Nat) : Char :=
  if d < 10 then Char.ofNat (48 + d) else Char.ofNat (55 + d)

def hexDigits (n : Nat) : List Char :=
  if n < 16 then [hexDigit n] else hexDigits (n / 16) ++ [hexDigit (n % 16)]

def hex (width n : Nat) : String :=
  String.ofList ((hexDigits n).leftpad width '0')

def marked (width n : Nat) : String :=
  "0x" ++ hex width n

end Chip8.Numeral

namespace Chip8

abbrev Register := Fin 16

namespace Register

def ofNibble (bits : Nat) : Register := ⟨bits % 16, Nat.mod_lt bits (by decide)⟩

def first : Register := ofNibble 0

def flag : Register := ofNibble 15

def through (x : Register) : List Register :=
  (List.finRange 16).take (x.val + 1)

def name (x : Register) : String :=
  "V" ++ Numeral.hex 1 x.val

end Register

structure Registers where
  v : Vector UInt8 16 := Vector.replicate 16 0
  index : UInt16 := 0
  pc : UInt16 := Layout.programStart
deriving DecidableEq

namespace Registers

variable (r : Registers)

def get (x : Register) : UInt8 := r.v[x]

def set (x : Register) (value : UInt8) : Registers :=
  { r with v := r.v.set x value }

def setFlag (on : Bool) : Registers :=
  r.set .flag (if on then 1 else 0)

/-- The address the next instruction is fetched from: the program counter, or zero once it has run
past the last place for an instruction. -/
def fetchAddress : UInt16 :=
  if r.pc < Layout.fetchWrap then r.pc else 0

def fetched : Registers :=
  { r with pc := r.fetchAddress + 2 }

def skipIf (condition : Bool) : Registers :=
  if condition then { r with pc := r.pc + 2 } else r

/-- Moves the program counter back, so that the same instruction is fetched again. -/
def rewind : Registers :=
  { r with pc := r.pc - 2 }

end Registers

end Chip8
