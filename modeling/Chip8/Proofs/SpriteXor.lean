import Chip8.Proofs.Drawing
import Mathlib.Data.Finset.Image
import Mathlib.Data.Finset.Prod

namespace Chip8

namespace Frame

variable {f g : Frame} {x y : Nat}

theorem SameSize.symm (h : f.SameSize g) : g.SameSize f := ⟨h.width.symm, h.height.symm⟩

theorem eq_of_get_eq (h : f.SameSize g) (hget : ∀ x y, f.get x y = g.get x y) : f = g := by
  obtain ⟨width, height, pixels, hw, hh, hs⟩ := f
  obtain ⟨width', height', pixels', hw', hh', hs'⟩ := g
  obtain ⟨rfl, rfl⟩ := h
  congr 1
  apply Array.ext (hs.trans hs'.symm)
  intro i hi _
  have hx : i % width < width := Nat.mod_lt i hw
  have hy : i / width < height := Nat.div_lt_of_lt_mul (hs ▸ hi)
  have hi : i / width * width + i % width = i := Nat.div_add_mod' i width
  have hpixel := hget (i % width) (i / width)
  simpa only [get, hx, hy, and_self, dif_pos, offset, hi] using hpixel

theorem lit_flip (hx : x < f.width) (hy : y < f.height) :
    (f.flip x y).lit + 2 * (f.get x y).toNat = f.lit + 1 := by
  have hlt := f.offset_lt hx hy
  have hpixel : f.pixels[f.offset x y] = f.get x y := by rw [get, dif_pos ⟨hx, hy⟩]
  have hflip : (f.flip x y).lit = (f.pixels.set (f.offset x y) (!f.get x y) hlt).count true := by
    simp only [flip, set, hx, hy, and_self, dif_pos, lit]
  rw [hflip, Array.count_set hlt, hpixel]
  cases hlit : f.get x y with
  | false => rfl
  | true =>
    have hpos : 0 < f.lit := Array.count_pos_iff.mpr (Array.mem_of_getElem (hpixel.trans hlit))
    show f.lit - 1 + 0 + 2 * 1 = f.lit + 1
    omega

theorem lit_foldl_flip {ps : List (Nat × Nat)} (hps : ps.Nodup)
    (hin : ∀ p ∈ ps, p.1 < f.width ∧ p.2 < f.height) :
    (ps.foldl (fun f p ↦ f.flip p.1 p.2) f).lit +
      2 * ps.countP (fun p ↦ f.get p.1 p.2) = f.lit + ps.length := by
  induction ps generalizing f with
  | nil => rfl
  | cons p ps ih =>
    obtain ⟨hp, hps⟩ := List.nodup_cons.mp hps
    obtain ⟨⟨hx, hy⟩, hin⟩ := List.forall_mem_cons.mp hin
    have hrest : ps.countP (fun q ↦ (f.flip p.1 p.2).get q.1 q.2) =
        ps.countP fun q ↦ f.get q.1 q.2 :=
      List.countP_congr fun q hq ↦ Bool.eq_iff_iff.mp (get_flip_of_mem hp hq)
    have hfirst := lit_flip hx hy
    have hlater := ih hps (inside_flip p hin)
    rw [hrest] at hlater
    rw [List.foldl_cons, List.countP_cons, List.length_cons]
    cases hlit : f.get p.1 p.2 with
    | false =>
      rw [hlit, Bool.toNat_false] at hfirst
      rw [if_neg Bool.false_ne_true]
      omega
    | true =>
      rw [hlit, Bool.toNat_true] at hfirst
      rw [if_pos rfl]
      omega

end Frame

namespace Display

variable {d : Display} {x y u v : UInt8} {rows other : List UInt8} {c j : Nat}

/-- The set bits of a sprite that lie inside the display when the sprite is drawn at a position, as
columns and rows of the sprite. -/
def visibleBits (d : Display) (x y : UInt8) (rows : List UInt8) : Finset (Nat × Nat) :=
  (Finset.range 8 ×ˢ Finset.range rows.length).filter fun (c, j) ↦
    (rows.getD j 0).toNat.testBit (7 - c) = true ∧
    x.toNat % d.frame.width + c < d.frame.width ∧ y.toNat % d.frame.height + j < d.frame.height

theorem mem_visibleBits : (c, j) ∈ d.visibleBits x y rows ↔ (c, j) ∈ Sprite.dots rows ∧
    x.toNat % d.frame.width + c < d.frame.width ∧
    y.toNat % d.frame.height + j < d.frame.height := by
  simp only [visibleBits, Finset.mem_filter, Finset.mem_product, Finset.mem_range,
    Sprite.mem_dots, Sprite.mem_columns]
  constructor
  · rintro ⟨⟨hc, hj⟩, hbit, hin⟩
    rw [List.getD_eq_getElem?_getD, List.getElem?_eq_getElem hj] at hbit
    exact ⟨⟨rows[j], List.getElem?_eq_getElem hj, hc, hbit⟩, hin⟩
  · rintro ⟨⟨row, hrow, hc, hbit⟩, hin⟩
    obtain ⟨hj, -⟩ := List.getElem?_eq_some_iff.mp hrow
    rw [List.getD_eq_getElem?_getD, hrow]
    exact ⟨⟨hc, hj⟩, hbit, hin⟩

theorem length_covered (d : Display) (x y : UInt8) (rows : List UInt8) :
    (d.covered x y rows).length = (d.visibleBits x y rows).card := by
  have hshift : Function.Injective fun p : Nat × Nat ↦
      (x.toNat % d.frame.width + p.1, y.toNat % d.frame.height + p.2) := by
    rintro ⟨a, b⟩ ⟨a', b'⟩ h
    obtain ⟨ha, hb⟩ := Prod.mk.inj h
    exact Prod.ext (Nat.add_left_cancel ha) (Nat.add_left_cancel hb)
  rw [← List.toFinset_card_of_nodup (d.nodup_covered x y rows),
    ← Finset.card_image_of_injective (d.visibleBits x y rows) hshift]
  congr 1
  ext ⟨px, py⟩
  rw [List.mem_toFinset, mem_covered, Finset.mem_image]
  constructor
  · rintro ⟨c, j, hdot, rfl, rfl, hin⟩
    exact ⟨(c, j), mem_visibleBits.mpr ⟨hdot, hin⟩, rfl⟩
  · rintro ⟨⟨c, j⟩, hbit, he⟩
    obtain ⟨rfl, rfl⟩ := Prod.mk.inj he
    obtain ⟨hdot, hin⟩ := mem_visibleBits.mp hbit
    exact ⟨c, j, hdot, rfl, rfl, hin⟩

theorem nonempty_visibleBits_iff :
    (d.visibleBits x y rows).Nonempty ↔ ∃ p, p ∈ d.covered x y rows := by
  rw [← Finset.card_pos, ← length_covered, List.length_pos_iff_exists_mem]

theorem covered_draw (d : Display) (x y u v : UInt8) (rows other : List UInt8) :
    (d.draw x y rows).1.covered u v other = d.covered u v other :=
  covered_eq_of_sameSize (d.sameSize_draw x y rows) u v other

theorem snd_draw (d : Display) (x y : UInt8) (rows : List UInt8) :
    (d.draw x y rows).2 = (d.covered x y rows).any fun p ↦ d.get p.1 p.2 := rfl

theorem snd_draw_eq_false_iff : (d.draw x y rows).2 = false ↔
    ∀ p ∈ d.covered x y rows, d.get p.1 p.2 = false := by
  rw [snd_draw, List.any_eq_false]
  exact forall₂_congr fun p _ ↦ Bool.not_eq_true _ ▸ Iff.rfl

theorem changed_draw_eq (d : Display) (x y : UInt8) (rows : List UInt8) :
    (d.draw x y rows).1.changed = (d.changed || !(d.covered x y rows).isEmpty) := rfl

theorem sameSize_draw_draw (d : Display) (x y u v : UInt8) (rows other : List UInt8) :
    ((d.draw x y rows).1.draw u v other).1.frame.SameSize d.frame :=
  (sameSize_draw ..).trans (sameSize_draw ..)

theorem draw_draw_self (d : Display) (x y : UInt8) (rows : List UInt8) :
    ((d.draw x y rows).1.draw x y rows).1.frame = d.frame := by
  apply Frame.eq_of_get_eq (d.sameSize_draw_draw x y x y rows rows)
  intro px py
  show ((d.draw x y rows).1.draw x y rows).1.get px py = d.get px py
  rw [get_draw, covered_draw, get_draw, Bool.xor_assoc, Bool.xor_self, Bool.xor_false]

theorem collides_iff : ((d.draw x y rows).2 || ((d.draw x y rows).1.draw x y rows).2) = true ↔
    (d.visibleBits x y rows).Nonempty := by
  rw [nonempty_visibleBits_iff, ← not_iff_not, Bool.not_eq_true, Bool.or_eq_false_iff,
    snd_draw_eq_false_iff, snd_draw_eq_false_iff, covered_draw, not_exists]
  constructor
  · rintro ⟨hfirst, hsecond⟩ p hp
    have hlit := hsecond p hp
    rw [get_draw, hfirst p hp, decide_eq_true hp] at hlit
    cases hlit
  · intro h
    exact ⟨fun p hp ↦ absurd hp (h p), fun p hp ↦ absurd hp (h p)⟩

theorem draw_comm (d : Display) (x y u v : UInt8) (rows other : List UInt8) :
    ((d.draw x y rows).1.draw u v other).1 = ((d.draw u v other).1.draw x y rows).1 := by
  have hframe : ((d.draw x y rows).1.draw u v other).1.frame =
      ((d.draw u v other).1.draw x y rows).1.frame := by
    have hone := d.sameSize_draw_draw x y u v rows other
    have htwo := d.sameSize_draw_draw u v x y other rows
    apply Frame.eq_of_get_eq (hone.trans htwo.symm)
    intro px py
    show ((d.draw x y rows).1.draw u v other).1.get px py =
      ((d.draw u v other).1.draw x y rows).1.get px py
    rw [get_draw, get_draw (d.draw u v other).1, covered_draw, covered_draw, get_draw, get_draw,
      Bool.xor_right_comm]
  have hchanged : ((d.draw x y rows).1.draw u v other).1.changed =
      ((d.draw u v other).1.draw x y rows).1.changed := by
    rw [changed_draw_eq, changed_draw_eq (d.draw u v other).1, covered_draw, covered_draw,
      changed_draw_eq, changed_draw_eq, Bool.or_right_comm]
  exact congrArg₂ Display.mk hframe hchanged

/-- Two draws turn nothing off if all their pixels are dark and none of them is a pixel of both. -/
theorem miss_both_iff :
    ((d.draw x y rows).2 = false ∧ ((d.draw x y rows).1.draw u v other).2 = false) ↔
      (∀ p ∈ d.covered x y rows, d.get p.1 p.2 = false) ∧
      (∀ p ∈ d.covered u v other, d.get p.1 p.2 = false) ∧
      (d.covered x y rows).Disjoint (d.covered u v other) := by
  rw [snd_draw_eq_false_iff, snd_draw_eq_false_iff, covered_draw]
  apply and_congr_right
  intro hfirst
  simp only [get_draw]
  constructor
  · intro hsecond
    have hdark : ∀ p ∈ d.covered u v other, p ∉ d.covered x y rows := by
      intro p hp hmem
      have hlit := hsecond p hp
      rw [hfirst p hmem, decide_eq_true hmem] at hlit
      cases hlit
    constructor
    · intro p hp
      have hlit := hsecond p hp
      rw [decide_eq_false (hdark p hp), Bool.xor_false] at hlit
      exact hlit
    · intro p hmem hp
      exact hdark p hp hmem
  · rintro ⟨hdark, hdisjoint⟩ p hp
    have hout : p ∉ d.covered x y rows := fun hmem ↦ hdisjoint hmem hp
    rw [hdark p hp, decide_eq_false hout, Bool.xor_false]

theorem lit_draw (d : Display) (x y : UInt8) (rows : List UInt8) :
    (d.draw x y rows).1.frame.lit +
        2 * (d.covered x y rows).countP (fun p ↦ d.get p.1 p.2) =
      d.frame.lit + (d.visibleBits x y rows).card := by
  rw [← length_covered]
  exact Frame.lit_foldl_flip (d.nodup_covered x y rows) covered_inside

theorem miss_iff_lit : (d.draw x y rows).2 = false ↔
    (d.draw x y rows).1.frame.lit = d.frame.lit + (d.visibleBits x y rows).card := by
  have hlit := d.lit_draw x y rows
  have hnone : (d.draw x y rows).2 = false ↔
      (d.covered x y rows).countP (fun p ↦ d.get p.1 p.2) = 0 := by
    rw [snd_draw, List.any_eq_false, List.countP_eq_zero]
  rw [hnone]
  omega

/-- Sprites act on a display of any size by xor: a sprite drawn twice at one position leaves every
pixel as it was, and one of the two draws reports a collision exactly if the sprite has a set bit
inside the display; draws at any two positions commute, in what is on the display and in whether
both of them go without a collision; and a draw goes without one exactly if it lights a pixel for
each set bit inside the display. -/
theorem draws_act_by_xor (d : Display) (x y u v : UInt8) (rows other : List UInt8) :
    ((d.draw x y rows).1.draw x y rows).1.frame = d.frame ∧
    (((d.draw x y rows).2 || ((d.draw x y rows).1.draw x y rows).2) = true ↔
      (d.visibleBits x y rows).Nonempty) ∧
    ((d.draw x y rows).1.draw u v other).1 = ((d.draw u v other).1.draw x y rows).1 ∧
    (((d.draw x y rows).2 = false ∧ ((d.draw x y rows).1.draw u v other).2 = false) ↔
      ((d.draw u v other).2 = false ∧ ((d.draw u v other).1.draw x y rows).2 = false)) ∧
    ((d.draw x y rows).2 = false ↔
      (d.draw x y rows).1.frame.lit = d.frame.lit + (d.visibleBits x y rows).card) := by
  refine ⟨draw_draw_self d x y rows, collides_iff, draw_comm d x y u v rows other, ?_, ?_⟩
  · rw [miss_both_iff, miss_both_iff, List.disjoint_comm, and_left_comm]
  · exact miss_iff_lit

end Display

end Chip8
