import Chip8.Proofs.Rendering
import Chip8.Proofs.SpriteXor
import Mathlib.Data.List.Forall2

namespace Chip8

abbrev Raster (w h : Nat) := Fin w × Fin h → Bool

namespace Raster

variable {w h : Nat}

def lit (r : Raster w h) (x y : Nat) : Bool :=
  if hxy : x < w ∧ y < h then r (⟨x, hxy.1⟩, ⟨y, hxy.2⟩) else false

def count (r : Raster w h) : Nat := (Finset.univ.filter fun q ↦ r q = true).card

/-- The pixels below the set bits of a sprite whose top left corner is at a byte position modulo the
sides. Bits beyond the right or lower edge have no pixel below them. -/
def ofSprite (x y : UInt8) (rows : List UInt8) : Raster w h := fun q ↦
  x.toNat % w ≤ q.1 ∧ q.1 < x.toNat % w + 8 ∧ y.toNat % h ≤ q.2 ∧
    (rows.getD (q.2 - y.toNat % h) 0).toNat.testBit (7 - (q.1 - x.toNat % w)) = true

end Raster

/-- A raster that remembers whether something was written since it was taken. -/
structure Grid (w h : Nat) where
  raster : Raster w h
  changed : Bool

namespace Display

inductive Call where
  | set (x y : Nat) (lit : Bool)
  | draw (x y : UInt8) (rows : List UInt8)
  | clear
  | snapshot
  | take

inductive Answer (α : Type) where
  | none
  | hit (lit : Bool)
  | picture (a : α)

def call (d : Display) : Call → Display × Answer Frame
  | .set x y lit => (d.set x y lit, .none)
  | .draw x y rows => ((d.draw x y rows).1, .hit (d.draw x y rows).2)
  | .clear => (d.clear, .none)
  | .snapshot => (d, .picture d.frame)
  | .take => (d.take.2, d.take.1.elim .none .picture)

def calls (d : Display) : List Call → Display × List (Answer Frame)
  | [] => (d, [])
  | c :: cs => (((d.call c).1.calls cs).1, (d.call c).2 :: ((d.call c).1.calls cs).2)

end Display

namespace Grid

open Display (Call Answer)

variable {w h : Nat}

def blank : Grid w h := ⟨fun _ ↦ false, false⟩

variable (g : Grid w h)

def set (x y : Nat) (lit : Bool) : Grid w h :=
  if hxy : x < w ∧ y < h then
    ⟨Function.update g.raster (⟨x, hxy.1⟩, ⟨y, hxy.2⟩) lit, true⟩
  else g

def flip (r : Raster w h) : Grid w h :=
  ⟨fun q ↦ g.raster q ^^ r q, g.changed || decide (∃ q, r q = true)⟩

def call : Call → Grid w h × Answer (Raster w h)
  | .set x y lit => (g.set x y lit, .none)
  | .draw x y rows =>
    (g.flip (.ofSprite x y rows),
      .hit (decide (∃ q, Raster.ofSprite x y rows q = true ∧ g.raster q = true)))
  | .clear => (⟨fun _ ↦ false, true⟩, .none)
  | .snapshot => (g, .picture g.raster)
  | .take => if g.changed then (⟨g.raster, false⟩, .picture g.raster) else (g, .none)

def calls (g : Grid w h) : List Call → Grid w h × List (Answer (Raster w h))
  | [] => (g, [])
  | c :: cs => (((g.call c).1.calls cs).1, (g.call c).2 :: ((g.call c).1.calls cs).2)

end Grid

/-- However the picture is read, what is read is the raster. -/
structure Frame.Shows {w h : Nat} (f : Frame) (r : Raster w h) : Prop where
  width : f.width = w
  height : f.height = h
  get (x y : Nat) : f.get x y = r.lit x y
  size : f.pixels.size = w * h
  pixel (q : Fin w × Fin h) : f.pixels[q.2.val * w + q.1.val]? = some (r q)
  char (x y : Nat) : charAt? f.text x y =
    if x < w ∧ y < h then some (Frame.glyph (r.lit x y)) else none
  count : f.lit = r.count

/-- The display is marked as changed as the grid is, and it is read as the grid's raster. -/
structure Display.Refines {w h : Nat} (d : Display) (g : Grid w h) : Prop where
  frame : d.frame.Shows g.raster
  get (x y : Nat) : d.get x y = g.raster.lit x y
  changed : d.changed = g.changed

inductive Display.Answer.Shows {w h : Nat} : Answer Frame → Answer (Raster w h) → Prop
  | none : Shows .none .none
  | hit (lit : Bool) : Shows (.hit lit) (.hit lit)
  | picture {f : Frame} {r : Raster w h} (hf : f.Shows r) : Shows (.picture f) (.picture r)

variable {w h : Nat} {f : Frame} {r : Raster w h} {d : Display} {g : Grid w h}

namespace Raster

theorem lit_of_lt {x y : Nat} (hx : x < w) (hy : y < h) : r.lit x y = r (⟨x, hx⟩, ⟨y, hy⟩) :=
  dif_pos ⟨hx, hy⟩

end Raster

theorem Frame.Shows.get_eq (hf : f.Shows r) (q : Fin w × Fin h) : f.get q.1 q.2 = r q :=
  (hf.get q.1 q.2).trans (Raster.lit_of_lt q.1.isLt q.2.isLt)

theorem Frame.shows_of_get (hw : f.width = w) (hh : f.height = h)
    (hget : ∀ q : Fin w × Fin h, f.get q.1 q.2 = r q) : f.Shows r := by
  subst hw hh
  have hlit (x y : Nat) : f.get x y = r.lit x y := by
    by_cases hxy : x < f.width ∧ y < f.height
    · rw [Raster.lit_of_lt hxy.1 hxy.2]
      exact hget (⟨x, hxy.1⟩, ⟨y, hxy.2⟩)
    · rw [Frame.get, dif_neg hxy, Raster.lit, dif_neg hxy]
  constructor
  case width | height => rfl
  case get => exact hlit
  case size => exact f.size_eq
  case pixel =>
    intro q
    rw [f.getElem?_pixels q.1.isLt q.2.isLt, hget]
  case char =>
    intro x y
    rw [f.charAt?_text, hlit]
  case count =>
    rw [f.lit_eq_card, Raster.count]
    simp only [hget]

namespace Display

theorem refines_of_get (hw : d.frame.width = w) (hh : d.frame.height = h)
    (hget : ∀ q : Fin w × Fin h, d.get q.1 q.2 = g.raster q) (hc : d.changed = g.changed) :
    d.Refines g :=
  have hf := Frame.shows_of_get hw hh hget
  ⟨hf, hf.get, hc⟩

theorem mem_covered_iff_ofSprite {x y : UInt8} {rows : List UInt8} (hw : d.frame.width = w)
    (hh : d.frame.height = h) (q : Fin w × Fin h) :
    (q.1.val, q.2.val) ∈ d.covered x y rows ↔ Raster.ofSprite x y rows q = true := by
  subst hw hh
  rw [mem_covered, Raster.ofSprite, decide_eq_true_iff]
  constructor
  · rintro ⟨c, j, hdot, hx, hy, -, -⟩
    obtain ⟨row, hrow, hcol⟩ := Sprite.mem_dots.mp hdot
    obtain ⟨hc, hbit⟩ := Sprite.mem_columns.mp hcol
    have hcolumn : q.1.val - x.toNat % d.frame.width = c := by omega
    have hline : q.2.val - y.toNat % d.frame.height = j := by omega
    refine ⟨by omega, by omega, by omega, ?_⟩
    rw [hcolumn, hline, List.getD_eq_getElem?_getD, hrow]
    exact hbit
  · rintro ⟨hl, hr, ht, hbit⟩
    rw [List.getD_eq_getElem?_getD] at hbit
    cases hrow : rows[q.2.val - y.toNat % d.frame.height]? with
    | none =>
      rw [hrow] at hbit
      cases (Nat.zero_testBit _).symm.trans hbit
    | some row =>
      rw [hrow] at hbit
      have hcol := Sprite.mem_columns.mpr ⟨by omega, hbit⟩
      refine ⟨_, _, Sprite.mem_dots.mpr ⟨row, hrow, hcol⟩, ?_, ?_, q.1.isLt, q.2.isLt⟩
      · exact (Nat.add_sub_of_le hl).symm
      · exact (Nat.add_sub_of_le ht).symm

theorem exists_covered_iff (hw : d.frame.width = w) (hh : d.frame.height = h) (x y : UInt8)
    (rows : List UInt8) (P : Nat → Nat → Prop) :
    (∃ p ∈ d.covered x y rows, P p.1 p.2) ↔
      ∃ q : Fin w × Fin h, Raster.ofSprite x y rows q = true ∧ P q.1 q.2 := by
  constructor
  · rintro ⟨p, hp, hP⟩
    obtain ⟨hx, hy⟩ := covered_inside p hp
    exact ⟨(⟨p.1, hw ▸ hx⟩, ⟨p.2, hh ▸ hy⟩), (mem_covered_iff_ofSprite hw hh _).mp hp, hP⟩
  · rintro ⟨q, hq, hP⟩
    exact ⟨_, (mem_covered_iff_ofSprite hw hh q).mpr hq, hP⟩

namespace Refines

theorem set (hd : d.Refines g) (x y : Nat) (lit : Bool) :
    (d.set x y lit).Refines (g.set x y lit) := by
  have hw := hd.frame.width
  have hh := hd.frame.height
  rw [Display.set, Grid.set, hw, hh]
  by_cases hxy : x < w ∧ y < h
  · rw [if_pos hxy, dif_pos hxy]
    have hsize := d.frame.sameSize_set x y lit
    refine refines_of_get (hsize.width.trans hw) (hsize.height.trans hh) ?_ rfl
    intro q
    show (d.frame.set x y lit).get q.1 q.2 = Function.update g.raster _ lit q
    by_cases hq : q = (⟨x, hxy.1⟩, ⟨y, hxy.2⟩)
    · subst hq
      rw [Function.update_self]
      exact Frame.get_set_self (hw ▸ hxy.1) (hh ▸ hxy.2)
    · have hne : (q.1.val, q.2.val) ≠ (x, y) := by
        intro he
        obtain ⟨hx, hy⟩ := Prod.mk.inj he
        exact hq (Prod.ext (Fin.ext hx) (Fin.ext hy))
      rw [Function.update_of_ne hq, Frame.get_set_of_ne hne]
      exact hd.frame.get_eq q
  · rw [if_neg hxy, dif_neg hxy]
    exact hd

theorem snd_draw_eq (hd : d.Refines g) (x y : UInt8) (rows : List UInt8) :
    (d.draw x y rows).2 =
      decide (∃ q, Raster.ofSprite x y rows q = true ∧ g.raster q = true) := by
  rw [snd_draw, Bool.eq_iff_iff, List.any_eq_true, decide_eq_true_iff]
  have hexists := exists_covered_iff hd.frame.width hd.frame.height x y rows
    fun px py ↦ d.get px py = true
  refine hexists.trans (exists_congr fun q ↦ and_congr_right fun _ ↦ ?_)
  rw [← hd.frame.get_eq q]
  rfl

theorem draw (hd : d.Refines g) (x y : UInt8) (rows : List UInt8) :
    (d.draw x y rows).1.Refines (g.flip (.ofSprite x y rows)) := by
  have hw := hd.frame.width
  have hh := hd.frame.height
  have hsize := d.sameSize_draw x y rows
  refine refines_of_get (hsize.width.trans hw) (hsize.height.trans hh) ?_ ?_
  · intro q
    have hmem : decide ((q.1.val, q.2.val) ∈ d.covered x y rows) = Raster.ofSprite x y rows q := by
      rw [Bool.eq_iff_iff, decide_eq_true_iff]
      exact mem_covered_iff_ofSprite hw hh q
    have hpixel : d.get q.1 q.2 = g.raster q := hd.frame.get_eq q
    rw [get_draw, hmem, hpixel]
    rfl
  · have hcovered : (!(d.covered x y rows).isEmpty) =
        decide (∃ q : Fin w × Fin h, Raster.ofSprite x y rows q = true) := by
      have hexists := exists_covered_iff hw hh x y rows fun _ _ ↦ True
      rw [Bool.eq_iff_iff, decide_eq_true_iff, Bool.not_eq_true',
        List.isEmpty_eq_false_iff_exists_mem]
      simpa only [and_true] using hexists
    rw [changed_draw_eq, hcovered, hd.changed]
    rfl

theorem call (hd : d.Refines g) (c : Call) :
    (d.call c).1.Refines (g.call c).1 ∧ (d.call c).2.Shows (g.call c).2 := by
  cases c with
  | set x y lit => exact ⟨hd.set x y lit, .none⟩
  | draw x y rows =>
    refine ⟨hd.draw x y rows, ?_⟩
    simp only [Display.call, Grid.call, hd.snd_draw_eq]
    exact .hit _
  | clear =>
    refine ⟨refines_of_get hd.frame.width hd.frame.height ?_ rfl, .none⟩
    intro q
    exact d.frame.get_clear q.1 q.2
  | snapshot => exact ⟨hd, .picture hd.frame⟩
  | take =>
    simp only [Display.call, Grid.call, take, ← hd.changed]
    cases d.changed with
    | false => exact ⟨hd, .none⟩
    | true => exact ⟨⟨hd.frame, hd.get, rfl⟩, .picture hd.frame⟩

theorem calls (hd : d.Refines g) (cs : List Call) :
    (d.calls cs).1.Refines (g.calls cs).1 ∧
      List.Forall₂ Answer.Shows (d.calls cs).2 (g.calls cs).2 := by
  induction cs generalizing d g with
  | nil => exact ⟨hd, .nil⟩
  | cons c cs ih =>
    obtain ⟨hstate, hanswer⟩ := hd.call c
    obtain ⟨hend, hrest⟩ := ih hstate
    exact ⟨hend, .cons hanswer hrest⟩

end Refines

/-- Whatever is called on a display of any size, it keeps its sides, and the calls do and answer
what they do and answer on a grid that starts unlit. -/
theorem calls_refine_grid (width height : Nat) (cs : List Call) :
    ((blank width height).calls cs).1.Refines
      ((Grid.blank : Grid (max width 1) (max height 1)).calls cs).1 ∧
    List.Forall₂ Answer.Shows ((blank width height).calls cs).2
      ((Grid.blank : Grid (max width 1) (max height 1)).calls cs).2 := by
  refine Refines.calls (refines_of_get rfl rfl ?_ rfl) cs
  intro q
  exact (Frame.blank width height).get_clear q.1 q.2

/-- Of two set bits that start in the last column, one has a pixel below it. -/
example : (((blank 4 2).calls [.draw 7 1 [0xC0]]).1.frame.lit,
    ((Grid.blank : Grid 4 2).calls [.draw 7 1 [0xC0]]).1.raster.count) = (1, 1) := by
  decide +kernel

end Display

end Chip8
