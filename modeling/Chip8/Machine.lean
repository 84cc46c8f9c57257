import Chip8.LogRecord
import Chip8.Tally

namespace Chip8

structure Machine where
  config : Config
  program : Program
  state : State
  tally : Tally
  /-- The words that a seed stands for. -/
  streams : UInt64 → Nat → UInt32 := RandomSource.words

structure TimerTick where
  tone : Bool
  frame : Option Frame
deriving DecidableEq

namespace Machine

def source (streams : UInt64 → Nat → UInt32) (seed : Option UInt64) (unseeded : RandomSource) :
    RandomSource :=
  (seed.map fun seed ↦ ⟨streams seed, 0⟩).getD unseeded

/-- Sets a machine up. The rate is looked at before the size of the program; `entropy` feeds a
machine without a seed. -/
def load (rom : List UInt8) (config : Config) (entropy : RandomSource)
    (streams : UInt64 → Nat → UInt32 := RandomSource.words) : Except SetupError Machine := do
  config.validate
  let program ← Program.ofBytes rom
  let random := source streams config.seed entropy
  return ⟨config, program, { State.boot program with random }, {}, streams⟩

variable (m : Machine)

/-- Starts the program over. Random bytes are replayed if there is a seed and go on otherwise. -/
def reset : Machine :=
  { m with
    state := { m.state.reset m.program with
      random := source m.streams m.config.seed m.state.random }
    tally := {} }

def cpuTick (keys : Keypad) : Machine × Outcome :=
  let (state, outcome) := m.state.step m.config.dialect keys
  ({ m with state, tally := m.tally.record outcome }, outcome)

def timerTick : Machine × TimerTick :=
  let timers := m.state.timers.tick
  let (frame, display) := m.state.display.take
  let tally := m.tally.recordTimerTick frame.isSome
  ({ m with state := { m.state with timers, display }, tally }, ⟨timers.isSounding, frame⟩)

/-- Takes the picture without counting it as published. -/
def takeFrame : Machine × Option Frame :=
  let (frame, display) := m.state.display.take
  ({ m with state.display := display }, frame)

def loadRecord : LogRecord := .loaded m.program.size m.config.rate m.config.dialect

def tickRecord : Outcome → Option LogRecord
  | .retired address instruction =>
    if m.config.tracing then some (.retired address instruction) else none
  | .awaitingKey _ => none
  | .fault report => some (.fault report)

end Machine

end Chip8
