namespace Chip8

/-- A picture with at least one pixel. -/
structure Frame where
  width : Nat
  height : Nat
  pixels : Array Bool
  width_pos : 0 < width
  height_pos : 0 < height
  size_eq : pixels.size = width * height
deriving DecidableEq

namespace Frame

structure Mismatch where
  width : Nat
  height : Nat
  pixels : Nat
deriving DecidableEq

def Mismatch.message (e : Mismatch) : String :=
  toString e.width ++ "x" ++ toString e.height ++ " frame cannot hold " ++ toString e.pixels
    ++ " pixels"

def ofParts (width height : Nat) (pixels : Array Bool) : Except Mismatch Frame :=
  if h : 0 < width ∧ 0 < height ∧ pixels.size = width * height then
    .ok ⟨width, height, pixels, h.1, h.2.1, h.2.2⟩
  else .error ⟨width, height, pixels.size⟩

/-- An unlit picture; a side of length zero is raised to one. -/
def blank (width height : Nat) : Frame where
  width := max width 1
  height := max height 1
  pixels := Array.replicate (max width 1 * max height 1) false
  width_pos := by omega
  height_pos := by omega
  size_eq := by simp

variable (f : Frame)

def offset (x y : Nat) : Nat := y * f.width + x

theorem offset_lt {x y : Nat} (hx : x < f.width) (hy : y < f.height) :
    f.offset x y < f.pixels.size := by
  rw [f.size_eq, offset]
  calc
    y * f.width + x < y * f.width + f.width := by omega
    _ = (y + 1) * f.width := (Nat.succ_mul y f.width).symm
    _ ≤ f.height * f.width := Nat.mul_le_mul_right _ hy
    _ = f.width * f.height := Nat.mul_comm ..

def get (x y : Nat) : Bool :=
  if h : x < f.width ∧ y < f.height then
    have := f.offset_lt h.1 h.2
    f.pixels[f.offset x y]
  else false

def set (x y : Nat) (lit : Bool) : Frame :=
  if h : x < f.width ∧ y < f.height then
    { f with
      pixels := f.pixels.set (f.offset x y) lit (f.offset_lt h.1 h.2)
      size_eq := (Array.size_set ..).trans f.size_eq }
  else f

def flip (x y : Nat) : Frame := f.set x y (!f.get x y)

def clear : Frame :=
  { f with pixels := Array.replicate (f.width * f.height) false, size_eq := Array.size_replicate }

def lit : Nat := f.pixels.count true

def row (y : Nat) : List Bool :=
  (List.range f.width).map fun x ↦ f.get x y

def lines : List String :=
  (List.range f.height).map fun y ↦ String.ofList ((f.row y).map fun b ↦ if b then '#' else '.')

def text : String :=
  String.join (f.lines.map (· ++ "\n"))

end Frame

end Chip8
