import Chip8.Proofs.Footprint
import Chip8.Proofs.Run
import Chip8.Proofs.Sprite

namespace Chip8

namespace Display

variable {d : Display} {f : Frame}

theorem fst_take_eq_some_iff : d.take.1 = some f ↔ d.changed = true ∧ f = d.frame := by
  rw [take]
  split
  · simp only [Option.some.injEq, true_and, *]
    exact eq_comm
  · simp only [reduceCtorEq, false_and, *]

theorem changed_snd_take (d : Display) : d.take.2.changed = false := by
  rw [take]
  split
  · rfl
  · exact Bool.eq_false_iff.mpr ‹_›

theorem frame_snd_take (d : Display) : d.take.2.frame = d.frame := by
  rw [take]
  split <;> rfl

end Display

namespace State

/-- The fetched instruction clears the screen or draws a visible sprite. -/
def Redraws (s : State) : Prop :=
  s.instruction = .clearScreen ∨
    ∃ x y height, s.instruction = .draw x y height ∧ s.SpriteVisible x y height

variable (s : State) (d : Dialect) (keys : Keypad)

theorem step_display :
    s.Redraws ∧ (s.step d keys).1.display.changed = true ∨
      ¬ s.Redraws ∧ (s.step d keys).1.display = s.display := by
  by_cases hp : s.instruction.part? = some .display
  · obtain hi | ⟨x, y, height, hi⟩ := Instruction.eq_of_part?_display hp
    · left
      rw [step_of_retired hi rfl]
      exact ⟨.inl hi, rfl⟩
    · have hs : (s.step d keys).1.display =
          (s.display.draw (s.registers.get x) (s.registers.get y)
            (s.memory.block s.registers.index height.toNat)).1 := by
        rw [step_of_retired hi rfl]
        rfl
      by_cases hv : s.SpriteVisible x y height
      · left
        rw [hs]
        exact ⟨.inr ⟨x, y, height, hi, hv⟩, Display.changed_draw (spriteVisible_iff.mp hv)⟩
      · right
        have hc := Decidable.not_not.mp fun h ↦ hv (spriteVisible_iff.mpr h)
        rw [hs, Display.draw_of_covered_eq_nil hc]
        refine ⟨?_, rfl⟩
        -- The instruction is this draw, and its sprite is not visible.
        rintro (hi' | ⟨x', y', height', hi', hv'⟩)
        · cases hi.symm.trans hi'
        · cases hi.symm.trans hi'
          exact hv hv'
  · right
    refine ⟨?_, (s.step_footprint d keys).display hp⟩
    rintro (hc | ⟨x, y, height, hi, -⟩)
    · exact hp (congrArg Instruction.part? hc)
    · exact hp (congrArg Instruction.part? hi)

end State

def Response.frame? : Response → Option Frame
  | timer tick => tick.frame
  | take frame => frame
  | _ => none

namespace Machine

variable {m : Machine} {e : Event} {es : List Event} {f : Frame}

/-- The event changes the picture: a reset, or a CPU tick that clears the screen or draws a visible
sprite. -/
def Redraws (m : Machine) (e : Event) : Prop :=
  e = .reset ∨
  (∃ p, (m.respond e).2 = .cpu (.retired p .clearScreen)) ∨
  ∃ p x y height, (m.respond e).2 = .cpu (.retired p (.draw x y height)) ∧
    m.state.SpriteVisible x y height

theorem redraws_cpu {keys : Keypad} : m.Redraws (.cpu keys) ↔ m.state.Redraws := by
  have hr : ∀ {p i}, (m.respond (.cpu keys)).2 = .cpu (.retired p i) → m.state.instruction = i := by
    intro p i h
    exact (State.eq_of_step_retired (Response.cpu.inj h)).2.1.symm
  constructor
  · rintro (h | ⟨p, h⟩ | ⟨p, x, y, height, h, hv⟩)
    · cases h
    · exact .inl (hr h)
    · exact .inr ⟨x, y, height, hr h, hv⟩
  · rintro (hi | ⟨x, y, height, hi, hv⟩)
    · have hs : m.state.step m.config.dialect keys = _ := State.step_of_retired hi rfl
      exact .inr (.inl ⟨_, congrArg Response.cpu (congrArg Prod.snd hs)⟩)
    · have hs : m.state.step m.config.dialect keys = _ := State.step_of_retired hi rfl
      exact .inr (.inr ⟨_, x, y, height, congrArg Response.cpu (congrArg Prod.snd hs), hv⟩)

theorem frame?_respond (he : e = .timer ∨ e = .take) : (m.respond e).2.frame? = some f ↔
    m.state.display.changed = true ∧ f = m.state.display.frame := by
  obtain rfl | rfl := he <;> exact Display.fst_take_eq_some_iff

theorem not_redraws (he : e = .timer ∨ e = .take) : ¬ m.Redraws e := by
  rintro (h | ⟨p, h⟩ | ⟨p, x, y, height, h, -⟩) <;> obtain rfl | rfl := he <;> cases h

/-- An event leaves the picture marked as changed if it changes it, or if the mark was there before
and the event does not hand the picture out. -/
theorem changed_respond_iff : (m.respond e).1.state.display.changed = true ↔
    m.Redraws e ∨ m.state.display.changed = true ∧ (m.respond e).2.frame? = none := by
  cases e with
  | cpu keys =>
    rw [redraws_cpu]
    obtain ⟨hr, hc⟩ | ⟨hr, hs⟩ := m.state.step_display m.config.dialect keys
    · exact iff_of_true hc (.inl hr)
    · have hd : (m.respond (.cpu keys)).1.state.display = m.state.display := hs
      rw [hd]
      simp only [hr, false_or]
      exact (and_iff_left rfl).symm
  | timer | take =>
    apply iff_of_false
    · exact Bool.eq_false_iff.mp m.state.display.changed_snd_take
    · rintro (hr | ⟨hc, hn⟩)
      · exact not_redraws (by simp) hr
      · have hf := Display.fst_take_eq_some_iff.mpr ⟨hc, rfl⟩
        cases hf.symm.trans hn
  | reset =>
    have hr : m.Redraws .reset := .inl rfl
    exact iff_of_true rfl (.inl hr)

def frames (m : Machine) (es : List Event) : List Frame :=
  (m.history es).filterMap (·.1.frame?)

theorem frames_cons (m : Machine) (e : Event) (es : List Event) :
    m.frames (e :: es) = (m.respond e).2.frame?.toList ++ (m.respond e).1.frames es := by
  simp only [frames, history, List.filterMap_cons]
  cases (m.respond e).2.frame? <;> rfl

theorem frames_cons_eq_nil_iff : m.frames (e :: es) = [] ↔
    (m.respond e).2.frame? = none ∧ (m.respond e).1.frames es = [] := by
  rw [frames_cons, List.append_eq_nil_iff, Option.toList_eq_nil_iff]

/-- Some event of the run changes the picture, and none behind it hands the picture out. -/
def Refreshed (m : Machine) (es : List Event) : Prop :=
  ∃ fs e gs, es = fs ++ e :: gs ∧ (m.run fs).Redraws e ∧ ((m.run fs).respond e).1.frames gs = []

theorem refreshed_cons : m.Refreshed (e :: es) ↔
    m.Redraws e ∧ (m.respond e).1.frames es = [] ∨ (m.respond e).1.Refreshed es := by
  constructor
  · rintro ⟨fs, e', gs, h, hr, hg⟩
    obtain ⟨rfl, h⟩ | ⟨fs, rfl, rfl⟩ := List.cons_eq_append_iff.mp h
    · cases h
      exact .inl ⟨hr, hg⟩
    · exact .inr ⟨fs, e', gs, rfl, hr, hg⟩
  · rintro (⟨hr, hg⟩ | ⟨fs, e', gs, rfl, hr, hg⟩)
    · exact ⟨[], e, es, rfl, hr, hg⟩
    · exact ⟨e :: fs, e', gs, rfl, hr, hg⟩

/-- A run leaves the picture marked as changed if it was and nothing handed it out, or if an event
changed it and nothing behind that event handed it out. -/
theorem changed_run_iff : (m.run es).state.display.changed = true ↔
    m.state.display.changed = true ∧ m.frames es = [] ∨ m.Refreshed es := by
  induction es generalizing m with
  | nil =>
    constructor
    · intro hc
      exact .inl ⟨hc, rfl⟩
    · rintro (⟨hc, -⟩ | ⟨fs, e, gs, h, -⟩)
      · exact hc
      · exact absurd h (by simp)
  | cons e es ih =>
    -- What the first event leaves marked is what the rest of the run starts with.
    rw [run_cons, ih, changed_respond_iff, refreshed_cons, frames_cons_eq_nil_iff]
    constructor
    · rintro (⟨hr | ⟨hc, hn⟩, hf⟩ | hs)
      · exact .inr (.inl ⟨hr, hf⟩)
      · exact .inl ⟨hc, hn, hf⟩
      · exact .inr (.inr hs)
    · rintro (⟨hc, hn, hf⟩ | ⟨hr, hf⟩ | hs)
      · exact .inl ⟨.inr ⟨hc, hn⟩, hf⟩
      · exact .inl ⟨.inl hr, hf⟩
      · exact .inr hs

theorem frame_respond (h : (m.respond e).1.state.display.changed = false) :
    (m.respond e).2.frame? = some (m.respond e).1.state.display.frame ∨
    (m.respond e).2.frame? = none ∧ m.state.display.changed = false ∧
      (m.respond e).1.state.display.frame = m.state.display.frame := by
  cases e with
  | cpu keys =>
    obtain ⟨-, hc⟩ | ⟨-, hs⟩ := m.state.step_display m.config.dialect keys
    · cases hc.symm.trans h
    · have hd : (m.respond (.cpu keys)).1.state.display = m.state.display := hs
      rw [hd] at h ⊢
      exact .inr ⟨rfl, h, rfl⟩
  | timer | take =>
    have hf := m.state.display.frame_snd_take
    cases hc : m.state.display.changed with
    | true => exact .inl (Display.fst_take_eq_some_iff.mpr ⟨hc, hf⟩)
    | false =>
      refine .inr ⟨Option.eq_none_iff_forall_ne_some.mpr fun f hs ↦ ?_, rfl, hf⟩
      cases hc.symm.trans (Display.fst_take_eq_some_iff.mp hs).1
  | reset => cases h

/-- A run that leaves the picture unmarked handed it out last as it now is, or handed nothing out
and left it as it was. -/
theorem getLast?_frames (h : (m.run es).state.display.changed = false) :
    (m.frames es).getLast? = some (m.run es).state.display.frame ∨
    m.frames es = [] ∧ m.state.display.changed = false ∧
      (m.run es).state.display.frame = m.state.display.frame := by
  induction es generalizing m with
  | nil => exact .inr ⟨rfl, h, rfl⟩
  | cons e es ih =>
    rw [run_cons] at h ⊢
    rw [frames_cons, List.getLast?_append]
    obtain hl | ⟨hn, hc, hf⟩ := ih h
    · left
      rw [hl, Option.some_or]
    · rw [hn, hf]
      obtain hs | ⟨hs, hc, hd⟩ := frame_respond hc
      · left
        rw [hs]
        rfl
      · right
        rw [hs]
        exact ⟨rfl, hc, hd⟩

/-- Behind the last picture that the run hands out, the picture changes; the start of the machine
counts as a change. -/
def Pending (m : Machine) (es : List Event) : Prop :=
  m.frames es = [] ∨ m.Refreshed es

variable {rom : List UInt8} {config : Config} {entropy : RandomSource}

/-- However a loaded machine was run, a timer tick or a look at the picture hands it out exactly if
it changed since it was handed out last, and hands it out as it is. As long as the picture is not
marked as changed, it is the one that was handed out last. -/
theorem no_picture_lost_or_invented (h : load rom config entropy = .ok m) (es : List Event) :
    (∀ e, e = .timer ∨ e = .take → ∀ f, ((m.run es).respond e).2.frame? = some f ↔
      m.Pending es ∧ f = (m.run es).state.display.frame) ∧
    ((m.run es).state.display.changed = false →
      (m.frames es).getLast? = some (m.run es).state.display.frame) := by
  have hstart : m.state.display.changed = true := by
    obtain ⟨p, -, rfl⟩ := of_load h
    rfl
  constructor
  · intro e he f
    rw [frame?_respond he, changed_run_iff, Pending]
    simp only [hstart, true_and]
  · intro hc
    obtain hl | ⟨-, hu, -⟩ := getLast?_frames hc
    · exact hl
    · cases hstart.symm.trans hu

/-- The first timer tick hands the cleared picture out. A glyph that is drawn behind it is there to
be taken. -/
theorem drawn_glyph_pending :
    ∃ m, load [0xF0, 0x29, 0xD0, 0x05] {} (.cycle #[]) = .ok m ∧
      (∃ w, w = m.run [.timer, .cpu .released, .cpu .released] ∧
        (w.respond .take).2.frame? = some w.state.display.frame) ∧
      (m.frames [.timer]).getLast? = some (m.run [.timer]).state.display.frame := by
  have hl : load [0xF0, 0x29, 0xD0, 0x05] {} (.cycle #[]) = .ok _ := rfl
  have h := no_picture_lost_or_invented hl
  refine ⟨_, hl, ⟨_, rfl, ?_⟩, (h [.timer]).2 rfl⟩
  refine ((h [.timer, .cpu .released, .cpu .released]).1 .take (.inr rfl) _).mpr ⟨.inr ?_, rfl⟩
  refine ⟨[.timer, .cpu .released], .cpu .released, [], rfl, redraws_cpu.mpr (.inr ?_), rfl⟩
  exact ⟨0, 0, 5, by decide +kernel, 0, by decide, 0, by decide, by decide +kernel⟩

end Machine

end Chip8
