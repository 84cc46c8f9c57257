import Chip8.Proofs.Drawing
import Chip8.Proofs.Publication

namespace Chip8

inductive Redraw where
  | clear
  | sprite (x y : UInt8) (rows : List UInt8)

namespace Redraw

def apply (f : Frame) : Redraw → Frame
  | clear => f.clear
  | sprite x y rows => (Display.draw ⟨f, false⟩ x y rows).1.frame

def pixel (f : Frame) (px py : Nat) (lit : Bool) : Redraw → Bool
  | clear => false
  | sprite x y rows => lit ^^ decide ((px, py) ∈ Display.covered ⟨f, false⟩ x y rows)

def Visible (f : Frame) : Redraw → Prop
  | clear => True
  | sprite x y rows => Display.covered ⟨f, false⟩ x y rows ≠ []

/-- Carried out one after another, the redraws bring every pixel back to what it was in `f`. -/
def Cancel (f : Frame) (rs : List Redraw) : Prop :=
  ∀ px py, rs.foldl (pixel f px py) (f.get px py) = f.get px py

variable {f g : Frame} {r : Redraw} {rs : List Redraw}

theorem sameSize_apply (f : Frame) (r : Redraw) : (r.apply f).SameSize f := by
  cases r with
  | clear => exact ⟨rfl, rfl⟩
  | sprite x y rows => exact Display.sameSize_draw ..

theorem pixel_eq_of_sameSize (h : f.SameSize g) (px py : Nat) : pixel f px py = pixel g px py := by
  funext lit r
  cases r with
  | clear => rfl
  | sprite x y rows =>
    simp only [pixel, Display.covered_eq_of_sameSize (d := ⟨f, false⟩) (e := ⟨g, false⟩) h]

theorem Visible.of_sameSize (h : f.SameSize g) (hr : r.Visible f) : r.Visible g := by
  cases r with
  | clear => trivial
  | sprite x y rows =>
    rw [Visible, ← Display.covered_eq_of_sameSize (d := ⟨f, false⟩) (e := ⟨g, false⟩) h]
    exact hr

theorem get_apply (f : Frame) (r : Redraw) (px py : Nat) :
    (r.apply f).get px py = r.pixel f px py (f.get px py) := by
  cases r with
  | clear => exact f.get_clear px py
  | sprite x y rows => exact Display.get_draw ⟨f, false⟩ x y rows px py

theorem get_foldl_apply (f : Frame) (rs : List Redraw) (px py : Nat) :
    (rs.foldl apply f).get px py = rs.foldl (pixel f px py) (f.get px py) := by
  induction rs generalizing f with
  | nil => rfl
  | cons r rs ih =>
    rw [List.foldl_cons, ih, get_apply, pixel_eq_of_sameSize (sameSize_apply f r), List.foldl_cons]

theorem cancel_iff : Cancel f rs ↔ ∀ px py, (rs.foldl apply f).get px py = f.get px py := by
  simp only [get_foldl_apply]
  rfl

theorem not_cancel_sprite {x y : UInt8} {rows : List UInt8} (h : (sprite x y rows).Visible f) :
    ¬ Cancel f [sprite x y rows] := by
  intro hc
  obtain ⟨⟨px, py⟩, hp⟩ := List.exists_mem_of_ne_nil _ h
  have hne := Display.get_draw_ne_iff.mpr hp
  exact hne (cancel_iff.mp hc px py)

theorem cancel_clear_iff : Cancel f [clear] ↔ ∀ px py, f.get px py = false := by
  simp only [Cancel, List.foldl_cons, List.foldl_nil, pixel]
  exact forall_congr' fun px ↦ forall_congr' fun py ↦ eq_comm

end Redraw

namespace State

variable {s : State} {d : Dialect} {keys : Keypad} {x y : Register} {height : UInt8}

def sprite? (s : State) (x y : Register) (height : UInt8) : Option Redraw :=
  let rows := s.memory.block s.registers.index height.toNat
  if s.display.covered (s.registers.get x) (s.registers.get y) rows = [] then none
  else some (.sprite (s.registers.get x) (s.registers.get y) rows)

theorem sprite?_ne_none (h : s.SpriteVisible x y height) : s.sprite? x y height ≠ none := by
  rw [sprite?, if_neg (spriteVisible_iff.mp h)]
  exact Option.some_ne_none _

theorem visible_of_sprite? {r : Redraw} (h : s.sprite? x y height = some r) :
    r.Visible s.display.frame := by
  rw [sprite?] at h
  split at h
  · cases h
  · next hc =>
    cases h
    exact hc

theorem frame_draw (s : State) (x y : Register) (height : UInt8) :
    (s.draw x y height).display.frame =
      (s.sprite? x y height).toList.foldl Redraw.apply s.display.frame := by
  rw [sprite?]
  split
  · next hc =>
    rw [draw, Display.draw_of_covered_eq_nil hc]
    rfl
  · rfl

def redraw? (s : State) : Outcome → Option Redraw
  | .retired _ .clearScreen => some .clear
  | .retired _ (.draw x y height) => s.sprite? x y height
  | _ => none

theorem frame_step (s : State) (d : Dialect) (keys : Keypad) :
    (s.step d keys).1.display.frame =
      (s.redraw? (s.step d keys).2).toList.foldl Redraw.apply s.display.frame := by
  by_cases hp : s.instruction.part? = some .display
  · obtain hi | ⟨x, y, height, hi⟩ := Instruction.eq_of_part?_display hp
    · rw [step_of_retired hi rfl]
      rfl
    · rw [step_of_retired hi rfl]
      exact s.frame_draw x y height
  · have hn : s.redraw? (s.step d keys).2 = none := by
      cases ho : (s.step d keys).2 with
      | retired p i =>
        rw [← (eq_of_step_retired ho).2.1] at hp
        cases i with
        | clearScreen | draw x y height => exact absurd rfl hp
        | _ => rfl
      | _ => rfl
    rw [hn, (s.step_footprint d keys).display hp]
    rfl

end State

namespace Machine

def redraw? (m : Machine) (e : Event) : Option Redraw :=
  match (m.respond e).2 with
  | .cpu outcome => m.state.redraw? outcome
  | .reset => some .clear
  | _ => none

def redraws (m : Machine) : List Event → List Redraw
  | [] => []
  | e :: es => (m.redraw? e).toList ++ (m.respond e).1.redraws es

variable {m : Machine} {e : Event} {es : List Event} {f g : Frame}

theorem frame_of_respond (m : Machine) (e : Event) :
    (m.respond e).1.state.display.frame =
      (m.redraw? e).toList.foldl Redraw.apply m.state.display.frame := by
  cases e with
  | cpu keys => exact m.state.frame_step m.config.dialect keys
  | timer | take => exact m.state.display.frame_snd_take
  | reset => rfl

theorem frame_run (m : Machine) (es : List Event) :
    (m.run es).state.display.frame = (m.redraws es).foldl Redraw.apply m.state.display.frame := by
  induction es generalizing m with
  | nil => rfl
  | cons e es ih => rw [run_cons, ih, frame_of_respond, redraws, List.foldl_append]

theorem visible_of_redraw? {r : Redraw} (h : m.redraw? e = some r) :
    r.Visible m.state.display.frame := by
  rw [redraw?] at h
  split at h
  · next outcome _ =>
    cases outcome with
    | retired p i =>
      cases i with
      | clearScreen =>
        cases h
        trivial
      | draw x y height => exact State.visible_of_sprite? h
      | _ => cases h
    | _ => cases h
  · cases h
    trivial
  · cases h

theorem visible_of_mem_redraws {r : Redraw} (h : r ∈ m.redraws es) :
    r.Visible m.state.display.frame := by
  induction es generalizing m with
  | nil => cases h
  | cons e es ih =>
    obtain hr | hr := List.mem_append.mp h
    · exact visible_of_redraw? (Option.mem_toList.mp hr)
    · exact (ih hr).of_sameSize (m.sameSize_respond e)

theorem redraw?_ne_none (h : m.Redraws e) : m.redraw? e ≠ none := by
  rw [redraw?]
  obtain rfl | ⟨p, h⟩ | ⟨p, x, y, height, h, hv⟩ := h
  · exact Option.some_ne_none _
  · rw [h]
    exact Option.some_ne_none _
  · rw [h]
    exact State.sprite?_ne_none hv

theorem redraws_ne_nil (h : m.Refreshed es) : m.redraws es ≠ [] := by
  induction es generalizing m with
  | nil =>
    obtain ⟨fs, e, gs, h, -⟩ := h
    exact absurd h (by simp)
  | cons e es ih =>
    rw [redraws]
    obtain ⟨hr, -⟩ | hs := refreshed_cons.mp h
    · have hne : (m.redraw? e).toList ≠ [] := mt Option.toList_eq_nil_iff.mp (redraw?_ne_none hr)
      exact List.append_ne_nil_of_left_ne_nil hne _
    · exact List.append_ne_nil_of_right_ne_nil _ (ih hs)

theorem display_of_frame? (h : (m.respond e).2.frame? = some f) :
    f = m.state.display.frame ∧ m.state.display.changed = true ∧
      (m.respond e).1.state.display = ⟨f, false⟩ := by
  have he : e = .timer ∨ e = .take := by
    cases e with
    | timer => exact .inl rfl
    | take => exact .inr rfl
    | cpu keys | reset => cases h
  obtain ⟨hc, rfl⟩ := (frame?_respond he).mp h
  refine ⟨rfl, hc, ?_⟩
  have hd : (m.respond e).1.state.display = m.state.display.take.2 := by
    obtain rfl | rfl := he <;> rfl
  rw [hd, Display.take, if_pos hc]

theorem exists_of_frames_eq {before behind : List Frame}
    (h : m.frames es = before ++ f :: behind) :
    ∃ fs e gs, es = fs ++ e :: gs ∧ m.frames fs = before ∧
      ((m.run fs).respond e).2.frame? = some f ∧ ((m.run fs).respond e).1.frames gs = behind := by
  induction es generalizing m before with
  | nil => exact absurd h.symm (by simp [frames, history])
  | cons e es ih =>
    rw [frames_cons] at h
    cases hf : (m.respond e).2.frame? with
    | none =>
      rw [hf] at h
      obtain ⟨fs, e', gs, rfl, hb, he, hg⟩ := ih h
      refine ⟨e :: fs, e', gs, rfl, ?_, he, hg⟩
      rw [frames_cons, hf, hb]
      rfl
    | some k =>
      rw [hf] at h
      cases before with
      | nil =>
        cases h
        exact ⟨[], e, es, rfl, rfl, hf, rfl⟩
      | cons b before =>
        obtain ⟨rfl, hrest⟩ := List.cons.inj h
        obtain ⟨fs, e', gs, rfl, hb, he, hg⟩ := ih hrest
        refine ⟨e :: fs, e', gs, rfl, ?_, he, hg⟩
        rw [frames_cons, hf, hb]
        rfl

/-- The run hands out `f` and next `g`, and between the two it makes the redraws `rs`. -/
def HandsOut (m : Machine) (es : List Event) (f g : Frame) (rs : List Redraw) : Prop :=
  ∃ fs e gs e' hs, es = fs ++ e :: (gs ++ e' :: hs) ∧
    ((m.run fs).respond e).2.frame? = some f ∧
    ((m.run fs).respond e).1.frames gs = [] ∧
    ((((m.run fs).respond e).1.run gs).respond e').2.frame? = some g ∧
    rs = ((m.run fs).respond e).1.redraws gs

theorem exists_handsOut (h : [f, g] <:+: m.frames es) : ∃ rs, m.HandsOut es f g rs := by
  obtain ⟨before, behind, h⟩ := h
  have hf : m.frames es = before ++ f :: (g :: behind) := by
    rw [← h, List.append_assoc]
    rfl
  obtain ⟨fs, e, rest, rfl, -, he, hrest⟩ := exists_of_frames_eq hf
  rw [← List.nil_append (g :: behind)] at hrest
  obtain ⟨gs, e', hs, rfl, hg, he', -⟩ := exists_of_frames_eq hrest
  exact ⟨_, fs, e, gs, e', hs, rfl, he, hg, he', rfl⟩

variable {rs : List Redraw}

theorem HandsOut.eq_foldl (h : m.HandsOut es f g rs) : g = rs.foldl Redraw.apply f := by
  obtain ⟨fs, e, gs, e', hs, -, he, -, he', rfl⟩ := h
  rw [(display_of_frame? he').1, frame_run, (display_of_frame? he).2.2]

theorem HandsOut.ne_nil (h : m.HandsOut es f g rs) : rs ≠ [] := by
  obtain ⟨fs, e, gs, e', hs, -, he, -, he', rfl⟩ := h
  -- `f` left no mark behind, so something has marked the picture again before `g` went out.
  refine redraws_ne_nil ?_
  obtain ⟨hc, -⟩ | hr := changed_run_iff.mp (display_of_frame? he').2.1
  · rw [(display_of_frame? he).2.2] at hc
    cases hc
  · exact hr

theorem HandsOut.visible (h : m.HandsOut es f g rs) : ∀ r ∈ rs, r.Visible f := by
  obtain ⟨fs, e, gs, e', hs, -, he, -, -, rfl⟩ := h
  intro r hr
  have hv := visible_of_mem_redraws hr
  rwa [(display_of_frame? he).2.2] at hv

/-- Of two pictures that a run hands out one after the other, the second is the first with the
redraws between them carried out on it, of which there is at least one. So the two differ in a pixel
unless the redraws cancel out. A single sprite never does, and a single clear only if the first
picture is unlit. -/
theorem consecutive_pictures_by_redraws (h : [f, g] <:+: m.frames es) :
    ∃ rs, m.HandsOut es f g rs ∧ rs ≠ [] ∧ g = rs.foldl Redraw.apply f ∧
      ((∃ px py, g.get px py ≠ f.get px py) ↔ ¬ Redraw.Cancel f rs) ∧
      (∀ x y rows, rs = [.sprite x y rows] → ¬ Redraw.Cancel f rs) ∧
      (rs = [.clear] → (Redraw.Cancel f rs ↔ ∀ px py, f.get px py = false)) := by
  obtain ⟨rs, hrs⟩ := exists_handsOut h
  refine ⟨rs, hrs, hrs.ne_nil, hrs.eq_foldl, ?_, ?_, ?_⟩
  · rw [Redraw.cancel_iff, ← hrs.eq_foldl]
    simp only [not_forall, ne_eq]
  · rintro x y rows rfl
    exact Redraw.not_cancel_sprite (hrs.visible _ List.mem_cons_self)
  · rintro rfl
    exact Redraw.cancel_clear_iff

theorem frames_around_tick {keys : Keypad} (hbefore : m.state.display.changed = true)
    (hafter : (m.run [.timer, .cpu keys]).state.display.changed = true) :
    m.frames [.timer, .cpu keys, .timer] =
      [m.state.display.frame, (m.run [.timer, .cpu keys]).state.display.frame] := by
  have hlast : ((m.run [.timer, .cpu keys]).respond .timer).2.frame? = some _ :=
    (frame?_respond (.inl rfl)).mpr ⟨hafter, rfl⟩
  rw [run_cons, run_cons, run_nil] at hlast
  rw [frames_cons, frames_cons, frames_cons, (frame?_respond (.inl rfl)).mpr ⟨hbefore, rfl⟩, hlast]
  rfl

theorem sprite_shown_after_blank :
    ∃ m, load [0xA2, 0x00, 0xD0, 0x01] {} (.cycle #[]) = .ok m ∧
      ∃ f g, [f, g] <:+: m.frames [.cpu .released, .timer, .cpu .released, .timer] ∧
        ∃ rs, m.HandsOut [.cpu .released, .timer, .cpu .released, .timer] f g rs ∧ rs ≠ [] ∧
          g = rs.foldl Redraw.apply f := by
  have hl : load [0xA2, 0x00, 0xD0, 0x01] {} (.cycle #[]) = .ok _ := rfl
  refine ⟨_, hl, ?_⟩
  generalize hm : Machine.mk _ _ _ _ _ = m
  have hbefore : (m.respond (.cpu .released)).1.state.display.changed = true := by
    rw [← hm]
    decide +kernel
  have hafter : (m.run [.cpu .released, .timer, .cpu .released]).state.display.changed = true := by
    rw [← hm]
    decide +kernel
  have hframes : m.frames [.cpu .released, .timer, .cpu .released, .timer] = [_, _] :=
    (frames_cons ..).trans (frames_around_tick hbefore hafter)
  have hpair : [_, _] <:+: m.frames [.cpu .released, .timer, .cpu .released, .timer] :=
    ⟨[], [], hframes.symm⟩
  obtain ⟨rs, hrs, hne, hg, -⟩ := consecutive_pictures_by_redraws hpair
  exact ⟨_, _, hpair, rs, hrs, hne, hg⟩

/-- Clearing the blank picture of power-on hands it out once more. -/
theorem unlit_picture_handed_out_twice :
    ∃ m, load [0x00, 0xE0] {} (.cycle #[]) = .ok m ∧
      ∃ f g, m.frames [.timer, .cpu .released, .timer] = [f, g] ∧
        ∀ px py, g.get px py = f.get px py := by
  have hl : load [0x00, 0xE0] {} (.cycle #[]) = .ok _ := rfl
  refine ⟨_, hl, ?_⟩
  generalize hm : Machine.mk _ _ _ _ _ = m
  have hbefore : m.state.display = Display.initial.clear := by
    rw [← hm]
    rfl
  have hi : (m.respond .timer).1.state.instruction = .clearScreen := by
    rw [← hm]
    decide +kernel
  have hafter : (m.run [.timer, .cpu .released]).state.display =
      (m.respond .timer).1.state.display.clear :=
    congrArg (·.1.display) (State.step_of_retired hi rfl)
  have hframes := frames_around_tick (congrArg (·.changed) hbefore) (congrArg (·.changed) hafter)
  refine ⟨_, _, hframes, ?_⟩
  intro px py
  have hg := (congrArg (·.get px py) hafter).trans (Frame.get_clear ..)
  have hf := (congrArg (·.get px py) hbefore).trans (Frame.get_clear ..)
  exact hg.trans hf.symm

end Machine

end Chip8
