import Chip8.Execution
import Chip8.Proofs.Drawing
import Chip8.Proofs.Writes

namespace Chip8

theorem Memory.read_add (m : Memory) (a : UInt16) (k : Nat) :
    m.read (a + .ofNat k) = m.cells[(a.toNat + k) % 4096] := by
  simp only [read, Fin.getElem_fin, cell_add]

namespace State

variable (s : State) (x y : Register) (height : UInt8)

def spriteLeft : Nat := (s.registers.get x).toNat % s.display.frame.width

def spriteTop : Nat := (s.registers.get y).toNat % s.display.frame.height

/-- The pixel lies below a set bit of the sprite that the index points at. -/
structure SpriteOver (px py : Nat) : Prop where
  left : s.spriteLeft x ≤ px
  right : px < s.spriteLeft x + 8
  top : s.spriteTop y ≤ py
  bottom : py < s.spriteTop y + height.toNat
  bit : (s.memory.cells[(s.registers.index.toNat + (py - s.spriteTop y)) % 4096]).toNat.testBit
    (7 - (px - s.spriteLeft x)) = true

variable {s x y height} {px py : Nat}

theorem mem_covered_iff :
    (px, py) ∈ s.display.covered (s.registers.get x) (s.registers.get y)
        (s.memory.block s.registers.index height.toNat) ↔
      s.SpriteOver x y height px py ∧ px < s.display.frame.width ∧ py < s.display.frame.height := by
  rw [Display.mem_covered]
  constructor
  · rintro ⟨c, j, hdot, rfl, rfl, hx, hy⟩
    obtain ⟨row, hrow, hcol⟩ := Sprite.mem_dots.mp hdot
    obtain ⟨hc, hbit⟩ := Sprite.mem_columns.mp hcol
    rw [Memory.getElem?_block] at hrow
    split at hrow
    · next hj =>
      rw [Memory.read_add] at hrow
      cases hrow
      refine ⟨⟨?_, ?_, ?_, ?_, ?_⟩, hx, hy⟩
      · exact Nat.le_add_right _ c
      · exact Nat.add_lt_add_left hc _
      · exact Nat.le_add_right _ j
      · exact Nat.add_lt_add_left hj _
      · simp only [spriteLeft, spriteTop, Nat.add_sub_cancel_left]
        exact hbit
    · cases hrow
  · rintro ⟨⟨hl, hr, ht, hb, hbit⟩, hx, hy⟩
    simp only [spriteLeft, spriteTop] at hl hr ht hb hbit
    refine ⟨px - _, py - _, ?_, (Nat.add_sub_of_le hl).symm, (Nat.add_sub_of_le ht).symm, hx, hy⟩
    refine Sprite.mem_dots.mpr ⟨_, ?_, Sprite.mem_columns.mpr ⟨by omega, hbit⟩⟩
    rw [Memory.getElem?_block, if_pos (by omega), Memory.read_add]

/-- From `s` to `t` the sprite was drawn: the pixels below its set bits have changed and no others,
`VF` tells whether a lit one went out, and of the rest only the picture differs. -/
structure Drawn (s : State) (x y : Register) (height : UInt8) (t : State) : Prop where
  pixel (px py : Nat) (hx : px < s.display.frame.width) (hy : py < s.display.frame.height) :
    t.display.get px py ≠ s.display.get px py ↔ s.SpriteOver x y height px py
  hit (px py : Nat) (lit : s.display.get px py = true) (unlit : t.display.get px py = false) :
    t.registers.get .flag = 1
  miss (h : ∀ px py, s.display.get px py = true → t.display.get px py = true) :
    t.registers.get .flag = 0
  size : t.display.frame.SameSize s.display.frame
  registers (r : Register) (hr : r ≠ .flag) : t.registers.get r = s.registers.get r
  index : t.registers.index = s.registers.index
  pc : t.registers.pc = s.registers.pc
  memory : t.memory = s.memory
  stack : t.stack = s.stack
  timers : t.timers = s.timers
  latch : t.latch = s.latch
  random : t.random = s.random

theorem get_draw_ne_iff (hx : px < s.display.frame.width) (hy : py < s.display.frame.height) :
    (s.draw x y height).display.get px py ≠ s.display.get px py ↔ s.SpriteOver x y height px py :=
  Display.get_draw_ne_iff.trans (mem_covered_iff.trans (and_iff_left ⟨hx, hy⟩))

theorem get_flag_of_hit (lit : s.display.get px py = true)
    (unlit : (s.draw x y height).display.get px py = false) :
    (s.draw x y height).registers.get .flag = 1 := by
  have hit := Display.snd_draw_iff.mpr ⟨px, py, lit, unlit⟩
  simp only [draw, hit]
  exact Registers.get_set_self ..

theorem get_flag_of_miss
    (h : ∀ px py, s.display.get px py = true → (s.draw x y height).display.get px py = true) :
    (s.draw x y height).registers.get .flag = 0 := by
  have miss : ¬ (s.display.draw (s.registers.get x) (s.registers.get y)
      (s.memory.block s.registers.index height.toNat)).2 = true := by
    rw [Display.snd_draw_iff]
    rintro ⟨px, py, lit, unlit⟩
    cases (h px py lit).symm.trans unlit
  simp only [draw, miss]
  exact Registers.get_set_self ..

/-- Drawing always succeeds and draws exactly the clipped sprite, on a display of any size, wherever
the index points, and also when `VF` holds a coordinate. -/
theorem draws_clipped_sprite (s : State) (d : Dialect) (keys : Keypad) (x y : Register)
    (height : UInt8) :
    ∃ t, s.execute d keys (.draw x y height) = .retired t ∧ s.Drawn x y height t := by
  refine ⟨s.draw x y height, rfl, ?_⟩
  constructor
  case pixel =>
    intro px py hx hy
    exact get_draw_ne_iff hx hy
  case hit =>
    intro px py lit unlit
    exact get_flag_of_hit lit unlit
  case miss => exact get_flag_of_miss
  case size => exact Display.sameSize_draw ..
  case registers =>
    intro r hr
    exact Registers.get_set_of_ne hr
  all_goals rfl

end State

end Chip8
