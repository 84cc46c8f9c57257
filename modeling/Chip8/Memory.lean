import Chip8.Config
import Chip8.Layout

namespace Chip8

structure Program where
  bytes : List UInt8
  length_le : bytes.length ≤ Layout.programCapacity
deriving DecidableEq

namespace Program

def ofBytes (bytes : List UInt8) : Except SetupError Program :=
  if h : bytes.length ≤ Layout.programCapacity then .ok ⟨bytes, h⟩
  else .error (.programTooLarge bytes.length)

def size (p : Program) : Nat := p.bytes.length

def isEmpty (p : Program) : Bool := p.bytes.isEmpty

end Program

structure Memory where
  cells : Vector UInt8 4096
deriving DecidableEq

namespace Memory

def cell (a : UInt16) : Fin 4096 :=
  ⟨a.toNat % 4096, Nat.mod_lt _ (by decide)⟩

def zero : Memory := ⟨Vector.replicate 4096 0⟩

variable (m : Memory)

def read (a : UInt16) : UInt8 := m.cells[cell a]

def write (a : UInt16) (value : UInt8) : Memory :=
  ⟨m.cells.set (cell a) value⟩

def word (a : UInt16) : UInt16 :=
  (m.read a).toUInt16 <<< 8 ||| (m.read (a + 1)).toUInt16

def block (a : UInt16) (n : Nat) : List UInt8 :=
  (List.range n).map fun k ↦ m.read (a + .ofNat k)

def store (m : Memory) (a : UInt16) : List UInt8 → Memory
  | [] => m
  | b :: bs => (m.write a b).store (a + 1) bs

def clear (_ : Memory) : Memory := ⟨Vector.replicate 4096 0⟩

def loadFont : Memory := m.store Layout.fontStart Font.bytes

def loadProgram (p : Program) : Memory := m.store Layout.programStart p.bytes

end Memory

end Chip8
