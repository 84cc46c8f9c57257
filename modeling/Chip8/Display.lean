import Chip8.Frame

namespace Chip8

namespace Sprite

def width : Nat := 8

/-- The columns of a row's set bits; the highest bit is the leftmost column. -/
def columns (row : UInt8) : List Nat :=
  (List.range width).filter fun c ↦ row.toNat.testBit (7 - c)

def dots (rows : List UInt8) : List (Nat × Nat) :=
  rows.zipIdx.flatMap fun (row, j) ↦ (columns row).map (·, j)

end Sprite

structure Display where
  frame : Frame
  changed : Bool
deriving DecidableEq

namespace Display

def defaultWidth : Nat := 64

def defaultHeight : Nat := 32

def blank (width height : Nat) : Display := ⟨Frame.blank width height, false⟩

def initial : Display := blank defaultWidth defaultHeight

variable (d : Display)

def get (x y : Nat) : Bool := d.frame.get x y

/-- Changes one pixel; outside the display nothing happens at all. -/
def set (x y : Nat) (lit : Bool) : Display :=
  if x < d.frame.width ∧ y < d.frame.height then ⟨d.frame.set x y lit, true⟩ else d

def clear : Display := ⟨d.frame.clear, true⟩

/-- The pixels that a sprite covers with set bits when it is drawn at a byte position: the position
is taken modulo the size of the display, and what then lies beyond the right or lower edge is cut
off. -/
def covered (x y : UInt8) (rows : List UInt8) : List (Nat × Nat) :=
  let left := x.toNat % d.frame.width
  let top := y.toNat % d.frame.height
  ((Sprite.dots rows).map fun (c, j) ↦ (left + c, top + j)).filter fun (px, py) ↦
    px < d.frame.width && py < d.frame.height

def draw (x y : UInt8) (rows : List UInt8) : Display × Bool :=
  let pixels := d.covered x y rows
  let collision := pixels.any fun (px, py) ↦ d.frame.get px py
  (⟨pixels.foldl (fun f (px, py) ↦ f.flip px py) d.frame, d.changed || !pixels.isEmpty⟩, collision)

def take : Option Frame × Display :=
  if d.changed then (some d.frame, { d with changed := false }) else (none, d)

end Display

end Chip8
