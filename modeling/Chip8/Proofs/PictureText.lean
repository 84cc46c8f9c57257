import Chip8.Proofs.Rendering
import Chip8.Proofs.SpriteXor

namespace Chip8

section Chunks

variable {α : Type} {n : Nat}

def chunks (n : Nat) : List α → List (List α)
  | [] => []
  | a :: as => (a :: as.take (n - 1)) :: chunks n (as.drop (n - 1))
termination_by as => as.length
decreasing_by
  rw [List.length_drop, List.length_cons]
  omega

theorem chunks_append {row : List α} (hn : 0 < n) (hrow : row.length = n) (rest : List α) :
    chunks n (row ++ rest) = row :: chunks n rest := by
  cases row with
  | nil => exact absurd hrow (Nat.ne_of_lt hn)
  | cons a row =>
    have hlen : n - 1 = row.length := by
      rw [← hrow, List.length_cons]
      rfl
    rw [List.cons_append, chunks, hlen, List.take_left, List.drop_left]

theorem chunks_flatten {rows : List (List α)} (hn : 0 < n) (h : ∀ row ∈ rows, row.length = n) :
    chunks n rows.flatten = rows := by
  induction rows with
  | nil => exact chunks.eq_1 n
  | cons row rows ih =>
    obtain ⟨hrow, hrows⟩ := List.forall_mem_cons.mp h
    rw [List.flatten_cons, chunks_append hn hrow, ih hrows]

end Chunks

def product? (a b : UInt64) : Option UInt64 :=
  if a.toBitVec.umulOverflow b.toBitVec then none else some (a * b)

theorem product?_eq_some_iff {a b n : UInt64} :
    product? a b = some n ↔ a.toNat * b.toNat = n.toNat := by
  by_cases h : a.toNat * b.toNat < UInt64.size
  · have hoverflow : a.toBitVec.umulOverflow b.toBitVec = false :=
      decide_eq_false (Nat.not_le_of_lt h)
    have hproduct : (a * b).toNat = a.toNat * b.toNat :=
      (UInt64.toNat_mul a b).trans (Nat.mod_eq_of_lt h)
    rw [product?, hoverflow, if_neg Bool.false_ne_true, Option.some_inj, ← UInt64.toNat_inj,
      hproduct]
  · have hoverflow : a.toBitVec.umulOverflow b.toBitVec = true :=
      decide_eq_true (Nat.le_of_not_lt h)
    rw [product?, hoverflow, if_pos rfl]
    exact ⟨nofun, fun hn ↦ absurd (hn ▸ n.toNat_lt_size) h⟩

namespace Frame

def fits (width height count : UInt64) : Bool :=
  decide (0 < width) && decide (0 < height) && product? width height == some count

theorem fits_iff {width height count : UInt64} : fits width height count = true ↔
    0 < width ∧ 0 < height ∧ width.toNat * height.toNat = count.toNat := by
  rw [fits, Bool.and_eq_true, Bool.and_eq_true, decide_eq_true_iff, decide_eq_true_iff, beq_iff_eq,
    product?_eq_some_iff, and_assoc]

section Parts

variable {width height : Nat} {pixels : Array Bool}

theorem ofParts_eq_ok_iff {f : Frame} : ofParts width height pixels = .ok f ↔
    f.width = width ∧ f.height = height ∧ f.pixels = pixels := by
  constructor
  · intro h
    rw [ofParts] at h
    split at h
    · cases h
      exact ⟨rfl, rfl, rfl⟩
    · cases h
  · rintro ⟨rfl, rfl, rfl⟩
    exact dif_pos ⟨f.width_pos, f.height_pos, f.size_eq⟩

theorem exists_ofParts_iff : (∃ f, ofParts width height pixels = .ok f) ↔
    0 < width ∧ 0 < height ∧ width * height = pixels.size := by
  constructor
  · rintro ⟨f, hf⟩
    obtain ⟨rfl, rfl, rfl⟩ := ofParts_eq_ok_iff.mp hf
    exact ⟨f.width_pos, f.height_pos, f.size_eq.symm⟩
  · rintro ⟨hwidth, hheight, hsize⟩
    exact ⟨⟨width, height, pixels, hwidth, hheight, hsize.symm⟩,
      ofParts_eq_ok_iff.mpr ⟨rfl, rfl, rfl⟩⟩

theorem ofParts_of_not (h : ¬ (0 < width ∧ 0 < height ∧ width * height = pixels.size)) :
    ofParts width height pixels = .error ⟨width, height, pixels.size⟩ :=
  dif_neg fun hparts ↦ h ⟨hparts.1, hparts.2.1, hparts.2.2.symm⟩

end Parts

variable (f : Frame)

theorem length_row (y : Nat) : (f.row y).length = f.width := by
  rw [row, List.length_map, List.length_range]

theorem row_eq_take_drop {y : Nat} (hy : y < f.height) :
    f.row y = (f.pixels.toList.drop (y * f.width)).take f.width := by
  apply List.ext_getElem?
  intro x
  by_cases hx : x < f.width
  · rw [row, List.getElem?_map, List.getElem?_range hx, List.getElem?_take_of_lt hx,
      List.getElem?_drop, Array.getElem?_toList, f.getElem?_pixels hx hy]
    rfl
  · have hright : ((f.pixels.toList.drop (y * f.width)).take f.width).length ≤ x :=
      (List.length_take_le ..).trans (Nat.le_of_not_lt hx)
    rw [List.getElem?_eq_none (f.length_row y ▸ Nat.le_of_not_lt hx), List.getElem?_eq_none hright]

theorem flatten_take_rows {n : Nat} (hn : n ≤ f.height) :
    ((List.range n).map f.row).flatten = f.pixels.toList.take (n * f.width) := by
  induction n with
  | zero => rw [Nat.zero_mul]; rfl
  | succ n ih =>
    rw [List.range_succ, List.map_append, List.flatten_append, ih (Nat.le_of_lt hn),
      List.map_singleton, List.flatten_singleton, f.row_eq_take_drop hn, Nat.succ_mul,
      List.take_add]

theorem flatten_rows : ((List.range f.height).map f.row).flatten = f.pixels.toList := by
  have hsize : f.pixels.toList.length = f.height * f.width :=
    f.size_eq.trans (Nat.mul_comm ..)
  rw [f.flatten_take_rows f.height.le_refl, ← hsize, List.take_length]

theorem chunks_pixels : chunks f.width f.pixels.toList = (List.range f.height).map f.row := by
  rw [← flatten_rows]
  refine chunks_flatten f.width_pos fun row hrow ↦ ?_
  obtain ⟨y, -, rfl⟩ := List.mem_map.mp hrow
  exact f.length_row y

theorem text_eq_join_chunks : f.text =
    String.join ((chunks f.width f.pixels.toList).map
      fun row ↦ String.ofList (row.map glyph) ++ "\n") := by
  rw [chunks_pixels, text, lines, List.map_map, List.map_map]
  rfl

theorem glyph_inj {a b : Bool} : glyph a = glyph b ↔ a = b := by
  cases a <;> cases b <;> decide

theorem isSome_charAt?_text (x y : Nat) :
    (charAt? f.text x y).isSome = true ↔ x < f.width ∧ y < f.height := by
  rw [charAt?_text]
  split
  case isTrue h => exact iff_of_true rfl h
  case isFalse h => exact iff_of_false nofun h

/-- Nothing of a picture is lost in its text, the sides included. -/
theorem text_inj {f g : Frame} : f.text = g.text ↔ f = g := by
  refine ⟨fun h ↦ ?_, congrArg text⟩
  -- A text has characters where its picture has places, which tells the sides.
  have hplace (x y : Nat) : (x < f.width ∧ y < f.height) ↔ (x < g.width ∧ y < g.height) := by
    rw [← isSome_charAt?_text, h, isSome_charAt?_text]
  have hwidth : f.width = g.width := by
    refine eq_of_forall_lt_iff fun x ↦ ?_
    have hx := hplace x 0
    simpa only [f.height_pos, g.height_pos, and_true] using hx
  have hheight : f.height = g.height := by
    refine eq_of_forall_lt_iff fun y ↦ ?_
    have hy := hplace 0 y
    simpa only [f.width_pos, g.width_pos, true_and] using hy
  apply eq_of_get_eq ⟨hwidth, hheight⟩
  intro x y
  by_cases hxy : x < f.width ∧ y < f.height
  · have hchar := f.charAt?_text x y
    rw [h, charAt?_text, if_pos ((hplace x y).mp hxy), if_pos hxy, Option.some_inj,
      glyph_inj] at hchar
    exact hchar.symm
  · rw [get, get, dif_neg hxy, dif_neg (fun hg ↦ hxy ((hplace x y).mpr hg))]

/-- The text of a picture: so many lines of so many characters as the sides say, each telling
whether its pixel is lit. -/
structure Pictured (f : Frame) : Prop where
  lines : ∃ ls, textLines f.text = ls ++ [[]] ∧ ls.length = f.height ∧ ∀ l ∈ ls, l.length = f.width
  char (x y : Nat) : x < f.width → y < f.height →
    charAt? f.text x y = some (if f.get x y then '#' else '.')
  pieces : f.text = String.join ((chunks f.width f.pixels.toList).map
    fun row ↦ String.ofList (row.map fun lit ↦ if lit then '#' else '.') ++ "\n")

theorem pictured : f.Pictured where
  lines := by
    refine ⟨(List.range f.height).map f.glyphs, f.textLines_text, ?_, fun l hl ↦ ?_⟩
    · rw [List.length_map, List.length_range]
    · obtain ⟨y, -, rfl⟩ := List.mem_map.mp hl
      rw [glyphs, List.length_map, length_row]
  char x y hx hy := (f.charAt?_text x y).trans (if_pos ⟨hx, hy⟩)
  pieces := f.text_eq_join_chunks

/-- Sides and pixels make a picture exactly if no side is zero and the product of the sides, as a
number and not as a word, is the number of pixels. The picture has these sides and pixels, its text
shows them, and no other picture has the same text. -/
theorem parts_exact_and_text_faithful (width height : UInt64) (pixels : Array Bool) :
    ((∃ f, ofParts width.toNat height.toNat pixels = .ok f) ↔
        0 < width ∧ 0 < height ∧ width.toNat * height.toNat = pixels.size) ∧
      (pixels.size < UInt64.size →
        ((∃ f, ofParts width.toNat height.toNat pixels = .ok f) ↔
            fits width height (.ofNat pixels.size) = true) ∧
          (UInt64.size ≤ width.toNat * height.toNat →
            ofParts width.toNat height.toNat pixels =
              .error ⟨width.toNat, height.toNat, pixels.size⟩)) ∧
      (∀ f, ofParts width.toNat height.toNat pixels = .ok f →
        f.width = width.toNat ∧ f.height = height.toNat ∧ f.pixels = pixels ∧ f.Pictured) ∧
      ∀ f g : Frame,
        f.text = g.text → f.width = g.width ∧ f.height = g.height ∧ f.pixels = g.pixels := by
  have hparts : (∃ f, ofParts width.toNat height.toNat pixels = .ok f) ↔
      0 < width ∧ 0 < height ∧ width.toNat * height.toNat = pixels.size := by
    rw [exists_ofParts_iff, UInt64.lt_iff_toNat_lt, UInt64.lt_iff_toNat_lt]
    rfl
  refine ⟨hparts, fun hcount ↦ ⟨?_, fun hwrap ↦ ?_⟩, fun f hf ↦ ?_, fun f g h ↦ ?_⟩
  · rw [hparts, fits_iff, UInt64.toNat_ofNat_of_lt' hcount]
  · exact ofParts_of_not fun h ↦ absurd (h.2.2 ▸ hcount) (Nat.not_lt_of_le hwrap)
  · obtain ⟨hwidth, hheight, hpixels⟩ := ofParts_eq_ok_iff.mp hf
    exact ⟨hwidth, hheight, hpixels, f.pictured⟩
  · obtain rfl := text_inj.mp h
    exact ⟨rfl, rfl, rfl⟩

/-- A line of two pixels makes a picture. Two sides whose product is zero as a word, but not as a
number, make none. -/
theorem two_pixels_shown_and_wrapped_sides_refused :
    (∃ f, ofParts 2 1 #[true, false] = .ok f ∧ f.Pictured) ∧
      (#[] : Array Bool).size < UInt64.size ∧
      (4294967296 * 4294967296 : UInt64).toNat = (#[] : Array Bool).size ∧
      ofParts 4294967296 4294967296 #[] = .error ⟨4294967296, 4294967296, 0⟩ := by
  obtain ⟨f, hf⟩ := (parts_exact_and_text_faithful 2 1 #[true, false]).1.mpr (by decide)
  have hshown := (parts_exact_and_text_faithful 2 1 #[true, false]).2.2.1 f hf
  have hwrap := (parts_exact_and_text_faithful 4294967296 4294967296 #[]).2.1 (by decide)
  exact ⟨⟨f, hf, hshown.2.2.2⟩, by decide, by decide, hwrap.2 (by decide)⟩

end Frame

end Chip8
