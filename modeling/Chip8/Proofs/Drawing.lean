import Chip8.Proofs.Reset
import Chip8.Proofs.Sprite
import Mathlib.Data.List.Nodup

namespace Chip8

namespace Frame

variable {f : Frame} {x y u v : Nat} {lit : Bool}

theorem eq_of_offset_eq (hx : x < f.width) (hu : u < f.width)
    (h : f.offset x y = f.offset u v) : x = u ∧ y = v := by
  rw [offset, offset] at h
  have hcol : x = u := by
    have hmod := congrArg (· % f.width) h
    simpa only [Nat.mul_add_mod', Nat.mod_eq_of_lt hx, Nat.mod_eq_of_lt hu] using hmod
  refine ⟨hcol, Nat.eq_of_mul_eq_mul_right f.width_pos ?_⟩
  omega

theorem get_set_of_ne (h : (u, v) ≠ (x, y)) : (f.set x y lit).get u v = f.get u v := by
  rw [set]
  split
  · next hxy =>
    rw [get, get]
    split
    · next huv =>
      refine Array.getElem_set_ne (f.offset_lt hxy.1 hxy.2) _ fun he ↦ h ?_
      obtain ⟨rfl, rfl⟩ := eq_of_offset_eq hxy.1 huv.1 he
      rfl
    · rfl
  · rfl

theorem get_set_self (hx : x < f.width) (hy : y < f.height) : (f.set x y lit).get x y = lit := by
  have hin : x < (f.set x y lit).width ∧ y < (f.set x y lit).height := by
    rw [(f.sameSize_set x y lit).width, (f.sameSize_set x y lit).height]
    exact ⟨hx, hy⟩
  rw [get, dif_pos hin]
  simp only [set, hx, hy, and_self, dif_pos]
  exact Array.getElem_set_self _

theorem get_clear (f : Frame) (x y : Nat) : f.clear.get x y = false := by
  rw [get]
  split
  · exact Array.getElem_replicate _
  · rfl

theorem get_flip (hx : x < f.width) (hy : y < f.height) (u v : Nat) :
    (f.flip x y).get u v = (f.get u v ^^ decide ((u, v) = (x, y))) := by
  by_cases h : (u, v) = (x, y)
  · cases h
    rw [flip, get_set_self hx hy, decide_eq_true rfl, Bool.xor_true]
  · rw [flip, get_set_of_ne h, decide_eq_false h, Bool.xor_false]

section

variable {ps : List (Nat × Nat)} {p q : Nat × Nat}

theorem inside_flip (p : Nat × Nat) (h : ∀ q ∈ ps, q.1 < f.width ∧ q.2 < f.height) :
    ∀ q ∈ ps, q.1 < (f.flip p.1 p.2).width ∧ q.2 < (f.flip p.1 p.2).height := by
  intro q hq
  have hsize := f.sameSize_set p.1 p.2 (!f.get p.1 p.2)
  rw [flip, hsize.width, hsize.height]
  exact h q hq

theorem get_flip_of_mem (hp : p ∉ ps) (hq : q ∈ ps) :
    (f.flip p.1 p.2).get q.1 q.2 = f.get q.1 q.2 := by
  have hne : (q.1, q.2) ≠ (p.1, p.2) := fun he : q = p ↦ hp (he ▸ hq)
  exact get_set_of_ne hne

end

/-- Of pixels that are flipped one after another, all different ones, each ends up flipped. -/
theorem get_foldl_flip {ps : List (Nat × Nat)} (hps : ps.Nodup)
    (hin : ∀ p ∈ ps, p.1 < f.width ∧ p.2 < f.height) (u v : Nat) :
    (ps.foldl (fun f (px, py) ↦ f.flip px py) f).get u v =
      (f.get u v ^^ decide ((u, v) ∈ ps)) := by
  induction ps generalizing f with
  | nil => simp only [List.foldl_nil, List.not_mem_nil, decide_false, Bool.xor_false]
  | cons p ps ih =>
    obtain ⟨hp, hps⟩ := List.nodup_cons.mp hps
    obtain ⟨hpin, hin⟩ := List.forall_mem_cons.mp hin
    rw [List.foldl_cons, ih hps (inside_flip p hin), get_flip hpin.1 hpin.2, Bool.xor_assoc]
    congr 1
    by_cases he : (u, v) = (p.1, p.2)
    · have hout : (u, v) ∉ ps := by
        rw [he]
        exact hp
      have hhead : (u, v) ∈ p :: ps := List.mem_cons.mpr (.inl he)
      rw [decide_eq_true he, decide_eq_false hout, decide_eq_true hhead, Bool.xor_false]
    · have hiff : (u, v) ∈ p :: ps ↔ (u, v) ∈ ps := List.mem_cons.trans (or_iff_right he)
      rw [decide_eq_false he, Bool.false_xor]
      exact decide_eq_decide.mpr hiff.symm

end Frame

namespace Sprite

variable {rows : List UInt8}

theorem nodup_columns (row : UInt8) : (columns row).Nodup := List.nodup_range.filter _

theorem nodup_dots (rows : List UInt8) : (dots rows).Nodup := by
  have hrows : (rows.zipIdx).Pairwise (fun a b ↦ a.2 < b.2) := by
    rw [← List.pairwise_map, List.zipIdx_map_snd]
    exact List.pairwise_lt_range'
  refine List.pairwise_flatMap.mpr ⟨fun row _ ↦ ?_, hrows.imp ?_⟩
  · exact List.Nodup.map (fun a b h ↦ (Prod.mk.inj h).1) (nodup_columns row.1)
  · intro a b hab p hp q hq he
    obtain ⟨_, -, rfl⟩ := List.mem_map.mp hp
    obtain ⟨_, -, rfl⟩ := List.mem_map.mp hq
    exact absurd (Prod.mk.inj he).2 (Nat.ne_of_lt hab)

section

variable {width height left y c : Nat} {row : UInt8} {cs : List Nat}

def shown (width height left y : Nat) (row : UInt8) (cs : List Nat) : List (Nat × Nat) :=
  ((cs.filter fun c ↦ row.toNat.testBit (7 - c)).map fun c ↦ (left + c, y)).filter
    fun (px, py) ↦ px < width && py < height

theorem shown_cons_of_set (hbit : row.toNat.testBit (7 - c) = true) (hx : left + c < width)
    (hy : y < height) : shown width height left y row (c :: cs) =
      (left + c, y) :: shown width height left y row cs := by
  have hin : (decide (left + c < width) && decide (y < height)) = true := by
    rw [decide_eq_true hx, decide_eq_true hy, Bool.and_self]
  simp only [shown, List.filter_cons, hbit, if_true, List.map_cons, hin]

theorem shown_cons_of_unset (hbit : ¬ row.toNat.testBit (7 - c) = true) :
    shown width height left y row (c :: cs) = shown width height left y row cs := by
  simp only [shown, List.filter_cons, hbit, Bool.false_eq_true, if_false]

theorem shown_eq_nil_of_right (h : ∀ c ∈ cs, width ≤ left + c) :
    shown width height left y row cs = [] := by
  refine List.filter_eq_nil_iff.mpr fun p hp ↦ ?_
  obtain ⟨c, hc, rfl⟩ := List.mem_map.mp hp
  have hout : ¬ left + c < width := Nat.not_lt_of_le (h c (List.mem_filter.mp hc).1)
  simp only [hout, decide_false, Bool.false_and, Bool.false_eq_true, not_false_eq_true]

theorem shown_eq_nil_of_below (h : height ≤ y) : shown width height left y row cs = [] := by
  refine List.filter_eq_nil_iff.mpr fun p hp ↦ ?_
  obtain ⟨c, -, rfl⟩ := List.mem_map.mp hp
  have hout : ¬ y < height := Nat.not_lt_of_le h
  simp only [hout, decide_false, Bool.and_false, Bool.false_eq_true, not_false_eq_true]

end

end Sprite

namespace Display

variable {d : Display} {x y : UInt8} {rows : List UInt8}

theorem covered_eq_flatMap (d : Display) (x y : UInt8) (rows : List UInt8) :
    d.covered x y rows = rows.zipIdx.flatMap fun (row, j) ↦
      Sprite.shown d.frame.width d.frame.height (x.toNat % d.frame.width)
        (y.toNat % d.frame.height + j) row (List.range Sprite.width) := by
  simp only [covered, Sprite.dots, List.map_flatMap, List.filter_flatMap, List.map_map]
  rfl

theorem nodup_covered (d : Display) (x y : UInt8) (rows : List UInt8) :
    (d.covered x y rows).Nodup := by
  refine List.Nodup.filter _ (List.Nodup.map ?_ (Sprite.nodup_dots rows))
  rintro ⟨a, b⟩ ⟨p, q⟩ h
  obtain ⟨h₁, h₂⟩ := Prod.mk.inj h
  exact Prod.ext (Nat.add_left_cancel h₁) (Nat.add_left_cancel h₂)

theorem covered_eq_of_sameSize {e : Display} (h : d.frame.SameSize e.frame) (x y : UInt8)
    (rows : List UInt8) : d.covered x y rows = e.covered x y rows := by
  simp only [covered, h.width, h.height]

theorem covered_inside : ∀ p ∈ d.covered x y rows, p.1 < d.frame.width ∧ p.2 < d.frame.height := by
  rintro ⟨px, py⟩ hp
  obtain ⟨-, -, -, -, -, hx, hy⟩ := mem_covered.mp hp
  exact ⟨hx, hy⟩

theorem get_draw (d : Display) (x y : UInt8) (rows : List UInt8) (u v : Nat) :
    (d.draw x y rows).1.get u v = (d.get u v ^^ decide ((u, v) ∈ d.covered x y rows)) :=
  Frame.get_foldl_flip (d.nodup_covered x y rows) covered_inside u v

theorem get_draw_ne_iff {u v : Nat} :
    (d.draw x y rows).1.get u v ≠ d.get u v ↔ (u, v) ∈ d.covered x y rows := by
  rw [get_draw]
  by_cases h : (u, v) ∈ d.covered x y rows
  · rw [decide_eq_true h, Bool.xor_true]
    exact iff_of_true (Bool.not_not_eq.mpr rfl) h
  · rw [decide_eq_false h, Bool.xor_false]
    exact iff_of_false (fun hne ↦ hne rfl) h

theorem snd_draw_iff : (d.draw x y rows).2 = true ↔
    ∃ u v, d.get u v = true ∧ (d.draw x y rows).1.get u v = false := by
  have hany : (d.draw x y rows).2 = true ↔
      ∃ u v, (u, v) ∈ d.covered x y rows ∧ d.get u v = true := by
    simp only [draw, List.any_eq_true, Prod.exists]
    rfl
  rw [hany]
  refine exists_congr fun u ↦ exists_congr fun v ↦ ?_
  rw [← get_draw_ne_iff]
  cases d.get u v with
  | false => simp only [Bool.false_eq_true, and_false, false_and]
  | true => simp only [ne_eq, Bool.not_eq_true, and_true, true_and]

def flipAt (s : Display × Bool) (p : Nat × Nat) : Display × Bool :=
  (⟨s.1.frame.flip p.1 p.2, true⟩, s.2 || s.1.frame.get p.1 p.2)

theorem foldl_flipAt {ps : List (Nat × Nat)} (h : ps.Nodup) (d : Display) (hit : Bool) :
    ps.foldl flipAt (d, hit) =
      (⟨ps.foldl (fun f (px, py) ↦ f.flip px py) d.frame, d.changed || !ps.isEmpty⟩,
        hit || ps.any fun (px, py) ↦ d.frame.get px py) := by
  induction ps generalizing d hit with
  | nil => simp only [List.foldl_nil, List.isEmpty_nil, List.any_nil, Bool.not_true, Bool.or_false]
  | cons p ps ih =>
    obtain ⟨hp, hps⟩ := List.nodup_cons.mp h
    have hget : ps.any (fun (px, py) ↦ (d.frame.flip p.1 p.2).get px py) =
        ps.any fun (px, py) ↦ d.frame.get px py := by
      rw [Bool.eq_iff_iff, List.any_eq_true, List.any_eq_true]
      refine exists_congr fun q ↦ and_congr_right fun hq ↦ ?_
      exact Bool.eq_iff_iff.mp (Frame.get_flip_of_mem hp hq)
    rw [List.foldl_cons, flipAt, ih hps]
    simp only [hget, List.foldl_cons, List.any_cons, List.isEmpty_cons, Bool.not_false,
      Bool.or_true, Bool.true_or, Bool.or_assoc]

theorem draw_eq_foldl_flipAt (d : Display) (x y : UInt8) (rows : List UInt8) :
    d.draw x y rows = (d.covered x y rows).foldl flipAt (d, false) := by
  rw [foldl_flipAt (d.nodup_covered x y rows), Bool.false_or]
  rfl

theorem sameSize_foldl_flipAt (ps : List (Nat × Nat)) (s : Display × Bool) :
    (ps.foldl flipAt s).1.frame.SameSize s.1.frame := by
  induction ps generalizing s with
  | nil => exact ⟨rfl, rfl⟩
  | cons p ps ih => exact (ih (flipAt s p)).trans (Frame.sameSize_set ..)

end Display

end Chip8
