import Chip8.Frame
import Mathlib.Data.Fintype.Fin
import Mathlib.Data.Fintype.Prod
import Mathlib.Logic.Equiv.Fin.Basic

namespace Chip8

/-- The lines of a text, as the newlines part them; the text behind the last newline is the last
line. -/
def textLines (s : String) : List (List Char) := s.toList.splitOn '\n'

def charAt? (s : String) (x y : Nat) : Option Char := (textLines s)[y]?.bind (·[x]?)

theorem splitOn_flatMap_newline {ls : List (List Char)} (h : ∀ l ∈ ls, '\n' ∉ l) :
    (ls.flatMap (· ++ ['\n'])).splitOn '\n' = ls ++ [[]] := by
  induction ls with
  | nil => exact List.splitOn_nil '\n'
  | cons l ls ih =>
    obtain ⟨hl, hls⟩ := List.forall_mem_cons.mp h
    rw [List.flatMap_cons, List.append_assoc, List.singleton_append,
      List.splitOn_append_cons_self_of_not_mem hl, ih hls, List.cons_append]

namespace Frame

def glyph (lit : Bool) : Char := if lit then '#' else '.'

variable (f : Frame)

def glyphs (y : Nat) : List Char := (f.row y).map glyph

theorem newline_not_mem_glyphs (y : Nat) : '\n' ∉ f.glyphs y := by
  intro h
  obtain ⟨lit, -, hlit⟩ := List.mem_map.mp h
  cases lit <;> cases hlit

theorem toList_text :
    f.text.toList = ((List.range f.height).map f.glyphs).flatMap (· ++ ['\n']) := by
  rw [text, String.toList_join, lines, List.map_map, List.flatMap_map, List.flatMap_map]
  congr 1
  funext y
  rw [Function.comp_apply, String.toList_append, String.toList_ofList]
  rfl

theorem textLines_text : textLines f.text = (List.range f.height).map f.glyphs ++ [[]] := by
  rw [textLines, toList_text, splitOn_flatMap_newline]
  intro l hl
  obtain ⟨y, -, rfl⟩ := List.mem_map.mp hl
  exact f.newline_not_mem_glyphs y

theorem charAt?_text (x y : Nat) : charAt? f.text x y =
    if x < f.width ∧ y < f.height then some (glyph (f.get x y)) else none := by
  have hcount : ((List.range f.height).map f.glyphs).length = f.height := by
    rw [List.length_map, List.length_range]
  rw [charAt?, textLines_text]
  by_cases hy : y < f.height
  · have hline : ((List.range f.height).map f.glyphs ++ [[]])[y]? = some (f.glyphs y) := by
      rw [List.getElem?_append_left (hcount.symm ▸ hy), List.getElem?_map, List.getElem?_range hy]
      rfl
    rw [hline, Option.bind_some, glyphs, row, List.getElem?_map, List.getElem?_map]
    by_cases hx : x < f.width
    · rw [List.getElem?_range hx, if_pos ⟨hx, hy⟩]
      rfl
    · rw [List.getElem?_eq_none (List.length_range.symm ▸ Nat.le_of_not_lt hx),
        if_neg (fun h ↦ hx h.1)]
      rfl
  · have hlast : ((List.range f.height).map f.glyphs ++ [[]])[y]? =
        ([[]] : List (List Char))[y - f.height]? := by
      rw [List.getElem?_append_right (hcount.symm ▸ Nat.le_of_not_lt hy), hcount]
    rw [hlast, if_neg (fun h ↦ hy h.2)]
    cases y - f.height <;> rfl

theorem getElem?_pixels {x y : Nat} (hx : x < f.width) (hy : y < f.height) :
    f.pixels[y * f.width + x]? = some (f.get x y) := by
  rw [get, dif_pos ⟨hx, hy⟩]
  exact Array.getElem?_eq_getElem (f.offset_lt hx hy)

theorem lit_eq_card : f.lit =
    (Finset.univ.filter fun q : Fin f.width × Fin f.height ↦ f.get q.1 q.2 = true).card := by
  have hsize : f.pixels.toList.length = f.height * f.width :=
    f.size_eq.trans (Nat.mul_comm ..)
  let v : List.Vector Bool (f.height * f.width) := ⟨f.pixels.toList, hsize⟩
  have hpixel (x : Fin f.width) (y : Fin f.height) :
      v.get (finProdFinEquiv (y, x)) = f.get x y := by
    have hplace : (finProdFinEquiv (y, x)).val = y * f.width + x := by
      rw [finProdFinEquiv_apply_val, Nat.add_comm, Nat.mul_comm]
    have hread := f.getElem?_pixels x.isLt y.isLt
    rw [← Array.getElem?_toList] at hread
    obtain ⟨_, hread⟩ := List.getElem?_eq_some_iff.mp hread
    exact (getElem_congr_idx hplace).trans hread
  have hcount : (Finset.univ.filter fun i ↦ v.get i = true).card = f.pixels.toList.count true :=
    Fin.card_filter_univ_eq_vector_get_eq_count true v
  rw [lit, ← Array.count_toList, ← hcount]
  -- A place among the pixels stands for a line and a column in it.
  refine (Finset.card_equiv ((Equiv.prodComm _ _).trans finProdFinEquiv) ?_).symm
  rintro ⟨x, y⟩
  simp only [Finset.mem_filter, Finset.mem_univ, true_and]
  exact (congrArg (· = true) (hpixel x y)).symm.to_iff

end Frame

end Chip8
