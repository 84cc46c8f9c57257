import Chip8.Machine.Run
import Chip8.Proofs.FlatExecution

namespace Chip8

namespace Flat

structure Machine where
  config : Config
  program : Program
  state : State
  tally : Tally
  streams : UInt64 → Nat → UInt32

namespace Machine

variable (m : Machine)

def line? : Outcome → Option (Option String)
  | .retired address instruction =>
    if m.config.tracing then do
      let text ← instruction.text?
      return some (Numeral.marked 3 address.toNat ++ ": " ++ text)
    else some none
  | .awaitingKey _ => some none
  | .fault report => some (some report.text)

def cpuTick? (keys : Keypad) : Option (Machine × Outcome × Option String) := do
  let (state, outcome) ← m.state.step? m.config.dialect keys
  let line ← m.line? outcome
  return ({ m with state, tally := m.tally.record outcome }, outcome, line)

def timerTick : Machine × Bool × Option Frame :=
  let timers := m.state.timers.tick
  let (frame, display) := m.state.display.take
  let tally := m.tally.recordTimerTick frame.isSome
  ({ m with state := { m.state with timers, display }, tally }, timers.isSounding, frame)

def takeFrame : Machine × Option Frame :=
  let (frame, display) := m.state.display.take
  ({ m with state.display := display }, frame)

def reset? : Option Machine := do
  let state ← m.state.reset? m.program
  return { m with
    state :=
      { state with random := Chip8.Machine.source m.streams m.config.seed m.state.random }
    tally := {} }

def respond? : Event → Option Machine
  | .cpu keys => do return (← m.cpuTick? keys).1
  | .timer => some m.timerTick.1
  | .take => some m.takeFrame.1
  | .reset => m.reset?

def run? (events : List Event) : Option Machine := events.foldlM respond? m

/-- Every call answers, whatever it is given, and leaves memory and display with their sizes. -/
structure InRange : Prop where
  cpuTick (keys : Keypad) : ∃ r, m.cpuTick? keys = some r ∧ r.1.state.WellFormed
  timerTick : m.timerTick.1.state.WellFormed
  takeFrame : m.takeFrame.1.state.WellFormed
  reset : ∃ n, m.reset? = some n ∧ n.state.WellFormed
  get (x y : Nat) : ∃ lit, m.state.display.get? x y = some lit
  set (x y : Nat) (lit : Bool) : ∃ d, m.state.display.set? x y lit = some d ∧ d.WellFormed

end Machine

end Flat

namespace Machine

variable (m : Machine)

def flat : Flat.Machine := { m with state := m.state.flat }

@[simp] theorem config_flat : m.flat.config = m.config := rfl

@[simp] theorem program_flat : m.flat.program = m.program := rfl

@[simp] theorem state_flat : m.flat.state = m.state.flat := rfl

end Machine

namespace Flat.Machine

open Chip8.Machine (config_flat program_flat state_flat)
open Chip8.State (display_flat)

/-- Every call answers what it answers on the machine `n`, of which the sizes are fixed. -/
structure Mirrors (m : Flat.Machine) (n : Chip8.Machine) : Prop where
  cpuTick (keys : Keypad) : m.cpuTick? keys =
    some ((n.cpuTick keys).1.flat, (n.cpuTick keys).2,
      (n.tickRecord (n.cpuTick keys).2).map LogRecord.body)
  timerTick : m.timerTick =
    (n.timerTick.1.flat, n.timerTick.2.tone, n.timerTick.2.frame.map Frame.flat)
  takeFrame : m.takeFrame = (n.takeFrame.1.flat, n.takeFrame.2.map Frame.flat)
  reset : m.reset? = some n.reset.flat
  get (x y : Nat) : m.state.display.get? x y = some (n.state.display.get x y)
  set (x y : Nat) (lit : Bool) :
    m.state.display.set? x y lit = some (n.state.display.set x y lit).flat

variable (n : Chip8.Machine)

theorem exists_flat {m : Flat.Machine} (h : m.state.WellFormed) :
    ∃ n : Chip8.Machine, n.flat = m := by
  obtain ⟨s, hs⟩ := h.exists_flat
  refine ⟨{ m with state := s }, ?_⟩
  rw [Chip8.Machine.flat, hs]

theorem line?_flat (o : Outcome) : n.flat.line? o = some ((n.tickRecord o).map LogRecord.body) := by
  cases o with
  | retired address instruction =>
    rw [line?, Chip8.Machine.tickRecord, config_flat, Instruction.text?_eq]
    split <;> rfl
  | awaitingKey address => rfl
  | fault report => rfl

theorem mirrors_flat : n.flat.Mirrors n where
  cpuTick keys := by
    simp only [cpuTick?, state_flat, config_flat, State.step?_flat, Option.bind_eq_bind,
      Option.bind_some, Prod.map_snd, id, line?_flat]
    rfl
  timerTick := by
    simp only [Flat.Machine.timerTick, state_flat, display_flat, Display.take_flat,
      Option.isSome_map]
    rfl
  takeFrame := by
    simp only [Flat.Machine.takeFrame, state_flat, display_flat, Display.take_flat]
    rfl
  reset := by
    rw [reset?, state_flat, program_flat, State.reset?_flat]
    rfl
  get := Display.get?_flat n.state.display
  set := Display.set?_flat n.state.display

theorem Mirrors.inRange {m : Flat.Machine} {n : Chip8.Machine} (h : m.Mirrors n) : m.InRange where
  cpuTick keys := ⟨_, h.cpuTick keys, (n.cpuTick keys).1.state.wellFormed_flat⟩
  timerTick := h.timerTick ▸ n.timerTick.1.state.wellFormed_flat
  takeFrame := h.takeFrame ▸ n.takeFrame.1.state.wellFormed_flat
  reset := ⟨_, h.reset, n.reset.state.wellFormed_flat⟩
  get x y := ⟨_, h.get x y⟩
  set x y lit := ⟨_, h.set x y lit, (n.state.display.set x y lit).wellFormed_flat⟩

/-- Whatever a host puts together and whatever a program starts from has memory and display of the
right sizes. On a machine with these, every call answers, as on the machine whose sizes are fixed,
and keeps the sizes. -/
theorem accesses_in_range :
    (∀ s : State, s.Built → s.WellFormed) ∧
    (∀ p : Program, ∃ s, State.boot? p = some s ∧ s.WellFormed) ∧
    ∀ m : Machine, m.state.WellFormed →
      m.InRange ∧ ∃ n : Chip8.Machine, n.flat = m ∧ m.Mirrors n := by
  refine ⟨fun s h ↦ h.wellFormed, fun p ↦ ?_, fun m h ↦ ?_⟩
  · exact ⟨_, State.boot?_eq p, (Chip8.State.boot p).wellFormed_flat⟩
  · obtain ⟨n, rfl⟩ := exists_flat h
    exact ⟨(mirrors_flat n).inRange, n, rfl, mirrors_flat n⟩

/-- A machine beyond every limit: a program counter behind the last instruction, an index behind the
last cell, a key that there is not, more calls than there is room for, and a sprite to draw on a
display smaller than it. -/
def adrift : Flat.Machine where
  config := {}
  program := ⟨[], Nat.zero_le _⟩
  state :=
    { registers := { v := Vector.replicate 16 0xFF, index := 0xFFFF, pc := 0xFFFF }
      memory := ((Chip8.Memory.zero.write 0 0xD0).write 0x1001 0x1F).flat
      stack := ⟨List.replicate 20 0xFFFF⟩
      display := ((Chip8.Display.blank 3 0).set 2 0 true).flat
      timers := {}
      latch := .awaitingRelease .flag 0xFF
      random := .cycle #[] }
  tally := {}
  streams := RandomSource.words

theorem adrift_built : adrift.state.Built := by
  have hzero : Chip8.Memory.zero.flat.Built := Memory.zero_flat ▸ .zero
  have hfirst := hzero.write 0 0xD0 (Memory.write?_flat Chip8.Memory.zero 0 0xD0)
  have hblank := Display.Built.blank 3 0 (Display.blank?_eq 3 0 (by decide))
  exact ⟨hfirst.write 0x1001 0x1F (Memory.write?_flat _ 0x1001 0x1F),
    hblank.set 2 0 true (Display.set?_flat _ 2 0 true)⟩

theorem adrift_in_range : adrift.state.Built ∧ adrift.state.WellFormed ∧ adrift.InRange := by
  have hsizes : adrift.state.WellFormed := accesses_in_range.1 adrift.state adrift_built
  exact ⟨adrift_built, hsizes, (accesses_in_range.2.2 adrift hsizes).1⟩

theorem respond?_flat (e : Event) : n.flat.respond? e = some (n.respond e).1.flat := by
  have h := mirrors_flat n
  cases e with
  | cpu keys =>
    rw [respond?, h.cpuTick]
    rfl
  | timer =>
    rw [respond?, h.timerTick]
    rfl
  | take =>
    rw [respond?, h.takeFrame]
    rfl
  | reset => exact h.reset

theorem run?_flat (events : List Event) : n.flat.run? events = some (n.run events).flat := by
  induction events generalizing n with
  | nil => rfl
  | cons e es ih =>
    rw [run?, List.foldlM_cons, respond?_flat]
    exact ih (n.respond e).1

theorem exists_run? {m : Flat.Machine} (h : m.state.WellFormed) (events : List Event) :
    ∃ n, m.run? events = some n ∧ n.state.WellFormed := by
  obtain ⟨n, rfl⟩ := exists_flat h
  exact ⟨_, run?_flat n events, (n.run events).state.wellFormed_flat⟩

end Flat.Machine

end Chip8
