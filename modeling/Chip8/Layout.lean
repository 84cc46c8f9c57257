namespace Chip8.Layout

def memoryBytes : Nat := 4096

def addressMask : UInt16 := 0xFFF

def glyphBytes : Nat := 5

def glyphCount : Nat := 16

def fontStart : UInt16 := 0x50

def fontEnd : UInt16 := fontStart + .ofNat (glyphBytes * glyphCount)

def programStart : UInt16 := 0x200

def programCapacity : Nat := memoryBytes - programStart.toNat

/-- The first address at which no whole instruction fits below the end of memory. -/
def fetchWrap : UInt16 := addressMask

end Chip8.Layout

namespace Chip8.Font

def bytes : List UInt8 :=
  [0xF0, 0x90, 0x90, 0x90, 0xF0,
   0x20, 0x60, 0x20, 0x20, 0x70,
   0xF0, 0x10, 0xF0, 0x80, 0xF0,
   0xF0, 0x10, 0xF0, 0x10, 0xF0,
   0x90, 0x90, 0xF0, 0x10, 0x10,
   0xF0, 0x80, 0xF0, 0x10, 0xF0,
   0xF0, 0x80, 0xF0, 0x90, 0xF0,
   0xF0, 0x10, 0x20, 0x40, 0x40,
   0xF0, 0x90, 0xF0, 0x90, 0xF0,
   0xF0, 0x90, 0xF0, 0x10, 0xF0,
   0xF0, 0x90, 0xF0, 0x90, 0x90,
   0xE0, 0x90, 0xE0, 0x90, 0xE0,
   0xF0, 0x80, 0x80, 0x80, 0xF0,
   0xE0, 0x90, 0x90, 0x90, 0xE0,
   0xF0, 0x80, 0xF0, 0x80, 0xF0,
   0xF0, 0x80, 0xF0, 0x80, 0x80]

def digit (value : UInt8) : Nat := value.toNat % Layout.glyphCount

def glyph (value : UInt8) : List UInt8 :=
  (bytes.drop (Layout.glyphBytes * digit value)).take Layout.glyphBytes

def address (value : UInt8) : UInt16 :=
  Layout.fontStart + .ofNat (Layout.glyphBytes * digit value)

end Chip8.Font
