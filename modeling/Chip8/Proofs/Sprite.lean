import Chip8.State

namespace Chip8

namespace Sprite

variable {row : UInt8} {rows : List UInt8} {c j : Nat}

theorem mem_columns : c ∈ columns row ↔ c < 8 ∧ row.toNat.testBit (7 - c) = true := by
  rw [columns, List.mem_filter, List.mem_range, width]

theorem mem_dots : (c, j) ∈ dots rows ↔ ∃ row, rows[j]? = some row ∧ c ∈ columns row := by
  simp only [dots, List.mem_flatMap, Prod.exists, List.mem_map, Prod.mk.injEq]
  constructor
  · rintro ⟨row, k, hrow, _, hc, rfl, rfl⟩
    exact ⟨row, List.mk_mem_zipIdx_iff_getElem?.mp hrow, hc⟩
  · rintro ⟨row, hrow, hc⟩
    exact ⟨row, j, List.mk_mem_zipIdx_iff_getElem?.mpr hrow, c, hc, rfl, rfl⟩

end Sprite

theorem Memory.getElem?_block (m : Memory) (a : UInt16) (n j : Nat) :
    (m.block a n)[j]? = if j < n then some (m.read (a + .ofNat j)) else none := by
  rw [block, List.getElem?_map]
  by_cases hj : j < n
  · rw [List.getElem?_range hj, if_pos hj]
    rfl
  · rw [List.getElem?_eq_none (by rw [List.length_range]; omega), if_neg hj]
    rfl

namespace Display

variable {d : Display} {x y : UInt8} {rows : List UInt8} {px py : Nat}

theorem mem_covered : (px, py) ∈ d.covered x y rows ↔
    ∃ c j, (c, j) ∈ Sprite.dots rows ∧ px = x.toNat % d.frame.width + c ∧
      py = y.toNat % d.frame.height + j ∧ px < d.frame.width ∧ py < d.frame.height := by
  simp only [covered, List.mem_filter, List.mem_map, Prod.exists, Prod.mk.injEq, Bool.and_eq_true,
    decide_eq_true_eq]
  constructor
  · rintro ⟨⟨c, j, hdot, rfl, rfl⟩, hx, hy⟩
    exact ⟨c, j, hdot, rfl, rfl, hx, hy⟩
  · rintro ⟨c, j, hdot, rfl, rfl, hx, hy⟩
    exact ⟨⟨c, j, hdot, rfl, rfl⟩, hx, hy⟩

theorem draw_of_covered_eq_nil (h : d.covered x y rows = []) : d.draw x y rows = (d, false) := by
  simp only [draw, h, List.foldl_nil, List.any_nil, List.isEmpty_nil, Bool.not_true, Bool.or_false]

theorem changed_draw (h : d.covered x y rows ≠ []) : (d.draw x y rows).1.changed = true := by
  simp only [draw, Bool.or_eq_true, Bool.not_eq_true', List.isEmpty_eq_false_iff]
  exact .inr h

end Display

namespace State

variable {s : State} {x y : Register} {height : UInt8}

/-- Drawing the sprite that the index points at covers a pixel: one of its set bits lies inside the
display when the first pixel is at the position in `x` and `y`, modulo the size of the display. -/
def SpriteVisible (s : State) (x y : Register) (height : UInt8) : Prop :=
  ∃ c < 8, ∃ j < height.toNat,
    (s.memory.read (s.registers.index + .ofNat j)).toNat.testBit (7 - c) = true ∧
    (s.registers.get x).toNat % s.display.frame.width + c < s.display.frame.width ∧
    (s.registers.get y).toNat % s.display.frame.height + j < s.display.frame.height

theorem spriteVisible_iff : s.SpriteVisible x y height ↔
    s.display.covered (s.registers.get x) (s.registers.get y)
      (s.memory.block s.registers.index height.toNat) ≠ [] := by
  constructor
  · rintro ⟨c, hc, j, hj, hbit, hx, hy⟩
    have hrow := s.memory.getElem?_block s.registers.index height.toNat j
    rw [if_pos hj] at hrow
    have hdot := Sprite.mem_dots.mpr ⟨_, hrow, Sprite.mem_columns.mpr ⟨hc, hbit⟩⟩
    exact List.ne_nil_of_mem (Display.mem_covered.mpr ⟨c, j, hdot, rfl, rfl, hx, hy⟩)
  · intro h
    obtain ⟨⟨px, py⟩, hmem⟩ := List.exists_mem_of_ne_nil _ h
    obtain ⟨c, j, hdot, rfl, rfl, hx, hy⟩ := Display.mem_covered.mp hmem
    obtain ⟨row, hrow, hcol⟩ := Sprite.mem_dots.mp hdot
    obtain ⟨hc, hbit⟩ := Sprite.mem_columns.mp hcol
    rw [Memory.getElem?_block] at hrow
    split at hrow
    · cases hrow
      exact ⟨c, hc, j, ‹_›, hbit, hx, hy⟩
    · cases hrow

end State

end Chip8
