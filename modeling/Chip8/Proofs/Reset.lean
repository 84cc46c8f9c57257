import Chip8.Proofs.Footprint
import Chip8.Proofs.Run

namespace Chip8

namespace Frame

variable {f g : Frame}

structure SameSize (f g : Frame) : Prop where
  width : f.width = g.width
  height : f.height = g.height

theorem SameSize.trans {h : Frame} (hf : f.SameSize g) (hg : g.SameSize h) : f.SameSize h :=
  ⟨hf.width.trans hg.width, hf.height.trans hg.height⟩

theorem sameSize_set (f : Frame) (x y : Nat) (lit : Bool) : (f.set x y lit).SameSize f := by
  rw [set]
  split
  · exact ⟨rfl, rfl⟩
  · exact ⟨rfl, rfl⟩

theorem sameSize_foldl_flip (f : Frame) (ps : List (Nat × Nat)) :
    (ps.foldl (fun f (px, py) ↦ f.flip px py) f).SameSize f := by
  refine List.foldlRecOn (motive := fun g : Frame ↦ g.SameSize f) _ _ ⟨rfl, rfl⟩ ?_
  intro g hg p _
  exact (g.sameSize_set ..).trans hg

theorem clear_eq_clear (h : f.SameSize g) : f.clear = g.clear := by
  obtain ⟨width, height, pixels, hw, hh, hs⟩ := f
  obtain ⟨width', height', pixels', hw', hh', hs'⟩ := g
  obtain ⟨rfl, rfl⟩ := h
  rfl

end Frame

theorem Display.sameSize_draw (d : Display) (x y : UInt8) (rows : List UInt8) :
    (d.draw x y rows).1.frame.SameSize d.frame := by
  rw [draw]
  exact Frame.sameSize_foldl_flip d.frame _

theorem Display.sameSize_take (d : Display) : d.take.2.frame.SameSize d.frame := by
  rw [take]
  split
  · exact ⟨rfl, rfl⟩
  · exact ⟨rfl, rfl⟩

theorem State.sameSize_step (s : State) (d : Dialect) (keys : Keypad) :
    (s.step d keys).1.display.frame.SameSize s.display.frame := by
  by_cases hp : s.instruction.part? = some .display
  · obtain hi | ⟨x, y, height, hi⟩ := Instruction.eq_of_part?_display hp
    · rw [step_of_retired hi rfl]
      exact ⟨rfl, rfl⟩
    · rw [step_of_retired hi rfl]
      exact Display.sameSize_draw ..
  · rw [(s.step_footprint d keys).display hp]
    exact ⟨rfl, rfl⟩

namespace Machine

variable {m n : Machine} {rom : List UInt8} {config : Config} {entropy : RandomSource}
  {streams : UInt64 → Nat → UInt32} {seed : UInt64}

theorem sameSize_respond (m : Machine) (e : Event) :
    (m.respond e).1.state.display.frame.SameSize m.state.display.frame := by
  cases e with
  | cpu keys => exact m.state.sameSize_step m.config.dialect keys
  | timer | take => exact m.state.display.sameSize_take
  | reset => exact ⟨rfl, rfl⟩

/-- The machines that a host gets to from `m`. It lets events happen, and it writes whatever it
likes to the state, other than to the random source; the display keeps its size. -/
inductive Reaches (m : Machine) : Machine → Prop
  | start : Reaches m m
  | event {n : Machine} (h : Reaches m n) (e : Event) : Reaches m (n.respond e).1
  | write {n : Machine} (h : Reaches m n) (s : State) (random : s.random = n.state.random)
      (size : s.display.frame.SameSize n.state.display.frame) : Reaches m { n with state := s }

structure Akin (n m : Machine) : Prop where
  config : n.config = m.config
  program : n.program = m.program
  streams : n.streams = m.streams
  size : n.state.display.frame.SameSize m.state.display.frame

theorem Akin.respond (h : n.Akin m) (e : Event) : (n.respond e).1.Akin m := by
  have hs := (n.sameSize_respond e).trans h.size
  cases e with
  | cpu keys | timer | take | reset => exact ⟨h.config, h.program, h.streams, hs⟩

theorem Reaches.akin (h : m.Reaches n) : n.Akin m := by
  induction h with
  | start => exact ⟨rfl, rfl, rfl, ⟨rfl, rfl⟩⟩
  | event _ e ih => exact ih.respond e
  | write _ s _ size ih => exact ⟨ih.config, ih.program, ih.streams, size.trans ih.size⟩

theorem source_of_seed {seed? : Option UInt64} (hs : seed? = some seed) (a : RandomSource) :
    source streams seed? a = ⟨streams seed, 0⟩ := by
  rw [hs]
  rfl

theorem Akin.reset_eq (h : n.Akin m) (hs : m.config.seed = some seed) : n.reset = m.reset := by
  obtain ⟨c, p, s, t, _⟩ := n
  obtain ⟨c', p', s', t', _⟩ := m
  obtain ⟨rfl, rfl, rfl, size⟩ := h
  simp only [reset, State.reset, Memory.clear, Display.clear, Frame.clear_eq_clear size,
    source_of_seed hs]

/-- A loaded machine is as a reset leaves it, however its random source would start without a
seed. -/
theorem load_reset (h : load rom config entropy streams = .ok m) (hs : config.seed = some seed)
    (entropy' : RandomSource) : load rom config entropy' streams = .ok m.reset := by
  obtain ⟨hr, p, hp, rfl⟩ := load_eq_ok_iff.mp h
  refine load_eq_ok_iff.mpr ⟨hr, p, hp, ?_⟩
  simp only [reset, State.boot, State.reset, Memory.clear, Display.clear, Frame.clear,
    source_of_seed hs]

/-- Whatever a host did to a loaded machine with a seed, a reset makes it the machine that loading
gives, and so it runs on as that one does. -/
theorem reset_eq_load (h : load rom config entropy streams = .ok m) (hs : config.seed = some seed)
    (hn : m.Reaches n) (entropy' : RandomSource) :
    ∃ fresh, load rom config entropy' streams = .ok fresh ∧ n.reset = fresh ∧
      ∀ es, n.reset.history es = fresh.history es := by
  have hm : m.config.seed = some seed := by
    obtain ⟨p, -, rfl⟩ := of_load h
    exact hs
  have he : n.reset = m.reset := hn.akin.reset_eq hm
  exact ⟨m.reset, load_reset h hs entropy', he, fun es ↦ congrArg (·.history es) he⟩

def spoiled (m : Machine) : Machine :=
  { m with
    state :=
      { registers := { index := 0xFFFF, pc := 0xFFFF }
        memory := m.state.memory.write 0x200 0xFF
        stack := ⟨List.replicate 20 0xFFFF⟩
        display := ⟨m.state.display.frame.set 3 4 true, false⟩
        timers := ⟨9, 9⟩
        latch := .awaitingRelease Register.flag 7
        random := m.state.random } }

theorem Reaches.spoiled (h : m.Reaches n) : m.Reaches n.spoiled :=
  h.write n.spoiled.state rfl (Frame.sameSize_set ..)

theorem spoiled_machine_resets :
    ∃ m, load [0xC0, 0xFF, 0xC1, 0xFF] { seed := some 7 } (.cycle #[]) = .ok m ∧
      ∃ fresh, load [0xC0, 0xFF, 0xC1, 0xFF] { seed := some 7 } (.cycle #[1, 2]) = .ok fresh ∧
        (m.respond (.cpu .released)).1.spoiled.reset = fresh ∧
        ∀ es, (m.respond (.cpu .released)).1.spoiled.reset.history es = fresh.history es := by
  have hl : load [0xC0, 0xFF, 0xC1, 0xFF] { seed := some 7 } (.cycle #[]) = .ok _ := rfl
  exact ⟨_, hl, reset_eq_load hl rfl (Reaches.start.event (.cpu .released)).spoiled _⟩

end Machine

end Chip8
