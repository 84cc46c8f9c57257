import Chip8.Proofs.Drawing

namespace Chip8.Flat

def remainder? (a b : Nat) : Option Nat := if b = 0 then none else some (a % b)

structure Frame where
  width : Nat
  height : Nat
  pixels : Array Bool

namespace Frame

variable (f : Frame)

structure WellFormed : Prop where
  width_pos : 1 ≤ f.width
  height_pos : 1 ≤ f.height
  size_eq : f.pixels.size = f.width * f.height

def offset (x y : Nat) : Nat := y * f.width + x

def pixel? (x y : Nat) : Option Bool := f.pixels[f.offset x y]?

def setPixel? (x y : Nat) (lit : Bool) : Option Frame :=
  if h : f.offset x y < f.pixels.size then
    some { f with pixels := f.pixels.set (f.offset x y) lit h }
  else none

def clear : Frame := { f with pixels := Array.replicate f.pixels.size false }

end Frame

structure Display where
  frame : Frame
  changed : Bool

namespace Display

/-- An unlit display. The number of its pixels has to fit a machine word. -/
def blank? (width height : Nat) : Option Display :=
  let size := max width 1 * max height 1
  if size < UInt64.size then
    some ⟨⟨max width 1, max height 1, Array.replicate size false⟩, false⟩
  else none

variable (d : Display)

def WellFormed : Prop := d.frame.WellFormed

def get? (x y : Nat) : Option Bool :=
  if x < d.frame.width ∧ y < d.frame.height then d.frame.pixel? x y else some false

def set? (x y : Nat) (lit : Bool) : Option Display :=
  if x < d.frame.width ∧ y < d.frame.height then do
    let frame ← d.frame.setPixel? x y lit
    return ⟨frame, true⟩
  else some d

def clear : Display := ⟨d.frame.clear, true⟩

def flip? (x y : Nat) : Option (Display × Bool) := do
  let lit ← d.frame.pixel? x y
  let frame ← d.frame.setPixel? x y !lit
  return (⟨frame, true⟩, lit)

def drawColumns? (row : UInt8) (left y : Nat) (s : Display × Bool) :
    List Nat → Option (Display × Bool)
  | [] => some s
  | c :: cs =>
    if s.1.frame.width ≤ left + c then some s
    else if row.toNat.testBit (7 - c) then do
      let (d, lit) ← s.1.flip? (left + c) y
      drawColumns? row left y (d, s.2 || lit) cs
    else drawColumns? row left y s cs

def drawRows? (left y : Nat) (s : Display × Bool) : List UInt8 → Option (Display × Bool)
  | [] => some s
  | row :: rows =>
    if s.1.frame.height ≤ y then some s
    else do
      let s ← drawColumns? row left y s (List.range Sprite.width)
      drawRows? left (y + 1) s rows

def draw? (x y : UInt8) (rows : List UInt8) : Option (Display × Bool) := do
  let left ← remainder? x.toNat d.frame.width
  let top ← remainder? y.toNat d.frame.height
  drawRows? left top (d, false) rows

def take : Option Frame × Display :=
  if d.changed then (some d.frame, { d with changed := false }) else (none, d)

inductive Built : Display → Prop
  | blank (width height : Nat) {d : Display} (h : blank? width height = some d) : Built d
  | set (x y : Nat) (lit : Bool) {d e : Display} (hd : Built d) (h : d.set? x y lit = some e) :
      Built e
  | draw (x y : UInt8) (rows : List UInt8) {d e : Display} {hit : Bool} (hd : Built d)
      (h : d.draw? x y rows = some (e, hit)) : Built e
  | clear {d : Display} (hd : Built d) : Built d.clear
  | take {d : Display} (hd : Built d) : Built d.take.2

end Display

end Chip8.Flat

namespace Chip8

def Frame.flat (f : Frame) : Flat.Frame := ⟨f.width, f.height, f.pixels⟩

theorem Frame.wellFormed_flat (f : Frame) : f.flat.WellFormed :=
  ⟨f.width_pos, f.height_pos, f.size_eq⟩

def Display.flat (d : Display) : Flat.Display := ⟨d.frame.flat, d.changed⟩

theorem Display.wellFormed_flat (d : Display) : d.flat.WellFormed := d.frame.wellFormed_flat

end Chip8

namespace Chip8.Flat

theorem remainder?_of_pos {a b : Nat} (h : 0 < b) : remainder? a b = some (a % b) :=
  if_neg (Nat.ne_of_gt h)

example : remainder? 7 0 = none := rfl

namespace Frame

variable {f : Flat.Frame} {x y : Nat}

theorem WellFormed.exists_flat (h : f.WellFormed) : ∃ n : Chip8.Frame, n.flat = f :=
  ⟨⟨f.width, f.height, f.pixels, h.width_pos, h.height_pos, h.size_eq⟩, rfl⟩

theorem pixel?_flat (n : Chip8.Frame) (hx : x < n.width) (hy : y < n.height) :
    n.flat.pixel? x y = some (n.get x y) := by
  rw [Chip8.Frame.get, dif_pos ⟨hx, hy⟩]
  exact Array.getElem?_eq_getElem (n.offset_lt hx hy)

theorem setPixel?_flat (n : Chip8.Frame) (hx : x < n.width) (hy : y < n.height) (lit : Bool) :
    n.flat.setPixel? x y lit = some (n.set x y lit).flat := by
  have ho : n.flat.offset x y < n.flat.pixels.size := n.offset_lt hx hy
  rw [Chip8.Frame.set, dif_pos ⟨hx, hy⟩, setPixel?, dif_pos ho]
  rfl

@[simp] theorem clear_flat (n : Chip8.Frame) : n.flat.clear = n.clear.flat := by
  show Frame.mk n.width n.height (Array.replicate n.pixels.size false) = n.clear.flat
  rw [n.size_eq]
  rfl

end Frame

namespace Display

variable {d : Flat.Display} {x y : Nat}

theorem WellFormed.exists_flat (h : d.WellFormed) : ∃ n : Chip8.Display, n.flat = d := by
  obtain ⟨f, hf⟩ := Frame.WellFormed.exists_flat h
  refine ⟨⟨f, d.changed⟩, ?_⟩
  rw [Chip8.Display.flat, hf]

theorem blank?_eq (width height : Nat) (h : max width 1 * max height 1 < UInt64.size) :
    blank? width height = some (Chip8.Display.blank width height).flat := by
  rw [blank?, if_pos h]
  rfl

@[simp] theorem get?_flat (n : Chip8.Display) (x y : Nat) :
    n.flat.get? x y = some (n.get x y) := by
  by_cases h : x < n.frame.width ∧ y < n.frame.height
  · exact (if_pos h).trans (Frame.pixel?_flat n.frame h.1 h.2)
  · refine (if_neg h).trans ?_
    rw [Chip8.Display.get, Chip8.Frame.get, dif_neg h]

@[simp] theorem set?_flat (n : Chip8.Display) (x y : Nat) (lit : Bool) :
    n.flat.set? x y lit = some (n.set x y lit).flat := by
  rw [Chip8.Display.set]
  by_cases h : x < n.frame.width ∧ y < n.frame.height
  · rw [if_pos h]
    refine (if_pos h).trans ?_
    rw [Chip8.Display.flat, Frame.setPixel?_flat n.frame h.1 h.2]
    rfl
  · rw [if_neg h]
    exact if_neg h

@[simp] theorem clear_flat (n : Chip8.Display) : n.flat.clear = n.clear.flat := by
  rw [clear, Chip8.Display.flat, Frame.clear_flat]
  rfl

theorem flip?_flat (s : Chip8.Display × Bool) (hx : x < s.1.frame.width)
    (hy : y < s.1.frame.height) : s.1.flat.flip? x y =
      some ((Chip8.Display.flipAt s (x, y)).1.flat, s.1.frame.get x y) := by
  rw [flip?, Chip8.Display.flat, Frame.pixel?_flat s.1.frame hx hy]
  simp only [Option.bind_eq_bind, Option.bind_some, Frame.setPixel?_flat s.1.frame hx hy]
  rfl

theorem drawColumns?_flat (row : UInt8) (left : Nat) {width height : Nat} (hy : y < height)
    (s : Chip8.Display × Bool) (hw : s.1.frame.width = width) (hh : s.1.frame.height = height)
    {cs : List Nat} (hcs : cs.Pairwise (· < ·)) :
    drawColumns? row left y (s.map Chip8.Display.flat id) cs =
      some (((Sprite.shown width height left y row cs).foldl Chip8.Display.flipAt s).map
        Chip8.Display.flat id) := by
  induction cs generalizing s with
  | nil => rfl
  | cons c cs ih =>
    obtain ⟨hc, hcs⟩ := List.pairwise_cons.mp hcs
    have hwidth : (s.map Chip8.Display.flat id).1.frame.width = width := hw
    rw [drawColumns?, hwidth]
    by_cases hedge : width ≤ left + c
    · -- The columns are in order, so leaving the loop here skips none that would show.
      have hright : ∀ b ∈ c :: cs, width ≤ left + b := by
        refine List.forall_mem_cons.mpr ⟨hedge, fun b hb ↦ ?_⟩
        exact Nat.le_trans hedge (Nat.add_le_add_left (Nat.le_of_lt (hc b hb)) left)
      rw [if_pos hedge, Sprite.shown_eq_nil_of_right hright]
      rfl
    · have hx : left + c < width := Nat.lt_of_not_le hedge
      rw [if_neg hedge]
      by_cases hbit : row.toNat.testBit (7 - c) = true
      · have hsize := Chip8.Display.sameSize_foldl_flipAt [(left + c, y)] s
        have hflip := flip?_flat s (hw.symm ▸ hx) (hh.symm ▸ hy)
        rw [if_pos hbit, Sprite.shown_cons_of_set hbit hx hy, List.foldl_cons, Prod.map_fst, hflip]
        exact ih (Chip8.Display.flipAt s (left + c, y)) (hsize.width.trans hw)
          (hsize.height.trans hh) hcs
      · rw [if_neg hbit, Sprite.shown_cons_of_unset hbit]
        exact ih s hw hh hcs

theorem drawRows?_flat (left top : Nat) (s : Chip8.Display × Bool) {width height : Nat}
    (hw : s.1.frame.width = width) (hh : s.1.frame.height = height) (k : Nat)
    (rows : List UInt8) :
    drawRows? left (top + k) (s.map Chip8.Display.flat id) rows =
      some ((((rows.zipIdx k).flatMap fun (row, j) ↦
        Sprite.shown width height left (top + j) row (List.range Sprite.width)).foldl
          Chip8.Display.flipAt s).map Chip8.Display.flat id) := by
  induction rows generalizing s k with
  | nil => rfl
  | cons row rows ih =>
    have hheight : (s.map Chip8.Display.flat id).1.frame.height = height := hh
    rw [drawRows?, hheight]
    by_cases hedge : height ≤ top + k
    · have hbelow : (((row :: rows).zipIdx k).flatMap fun (row, j) ↦
          Sprite.shown width height left (top + j) row (List.range Sprite.width)) = [] := by
        refine List.flatMap_eq_nil_iff.mpr fun p hp ↦ ?_
        have hk : k ≤ p.2 := List.le_snd_of_mem_zipIdx hp
        exact Sprite.shown_eq_nil_of_below (Nat.le_trans hedge (Nat.add_le_add_left hk top))
      rw [if_pos hedge, hbelow]
      rfl
    · rw [if_neg hedge, drawColumns?_flat row left (Nat.lt_of_not_le hedge) s hw hh
        List.pairwise_lt_range, List.zipIdx_cons, List.flatMap_cons, List.foldl_append]
      have hsize := Chip8.Display.sameSize_foldl_flipAt
        (Sprite.shown width height left (top + k) row (List.range Sprite.width)) s
      exact ih _ (hsize.width.trans hw) (hsize.height.trans hh) (k + 1)

@[simp] theorem draw?_flat (n : Chip8.Display) (x y : UInt8) (rows : List UInt8) :
    n.flat.draw? x y rows = some ((n.draw x y rows).map Chip8.Display.flat id) := by
  have hw : n.flat.frame.width = n.frame.width := rfl
  have hh : n.flat.frame.height = n.frame.height := rfl
  rw [draw?, hw, hh, remainder?_of_pos n.frame.width_pos, remainder?_of_pos n.frame.height_pos,
    Chip8.Display.draw_eq_foldl_flipAt, Chip8.Display.covered_eq_flatMap]
  exact drawRows?_flat _ _ (n, false) rfl rfl 0 rows

@[simp] theorem take_flat (n : Chip8.Display) :
    n.flat.take = (n.take.1.map Chip8.Frame.flat, n.take.2.flat) := by
  obtain ⟨frame, _ | _⟩ := n <;> rfl

theorem Built.wellFormed (h : d.Built) : d.WellFormed := by
  induction h with
  | blank width height h =>
    rw [blank?] at h
    split at h
    · next hfits =>
      rw [← Option.some.inj h]
      exact (Chip8.Display.blank width height).wellFormed_flat
    · cases h
  | set x y lit _ h ih =>
    obtain ⟨n, rfl⟩ := ih.exists_flat
    rw [set?_flat] at h
    rw [← Option.some.inj h]
    exact (n.set x y lit).wellFormed_flat
  | draw x y rows _ h ih =>
    obtain ⟨n, rfl⟩ := ih.exists_flat
    rw [draw?_flat] at h
    rw [← (Prod.mk.inj (Option.some.inj h)).1]
    exact (n.draw x y rows).1.wellFormed_flat
  | clear _ ih =>
    obtain ⟨n, rfl⟩ := ih.exists_flat
    rw [clear_flat]
    exact n.clear.wellFormed_flat
  | take _ ih =>
    obtain ⟨n, rfl⟩ := ih.exists_flat
    rw [take_flat]
    exact n.take.2.wellFormed_flat

end Display

end Chip8.Flat
