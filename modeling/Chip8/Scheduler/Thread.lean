import Chip8.Machine

namespace Chip8.Scheduler

inductive Stage where
  | check
  | recheck
  | readKeys
  | cpuTick (keys : Keypad)
  | timerTick
  | sound (tick : TimerTick)
  | present (frame : Frame)
  | ended
  | crashed
deriving DecidableEq

structure Thread where
  driver : Driver
  /-- The number of the start that spawned the thread. -/
  era : Nat
  stage : Stage := .check
deriving DecidableEq

inductive Signal where
  | log (record : LogRecord)
  | tone (on : Bool)
  | present (frame : Frame)
  | reset
  | cpuTick (era : Nat) (outcome : Outcome)
  | timerTick (era : Nat) (tick : TimerTick)
  | crash (driver : Driver)
deriving DecidableEq

/-- What a thread works with. Without a keyboard or with a broken display, the thread that uses it
crashes. -/
structure Devices where
  keyboard : Option Keypad
  displayWorks : Bool
deriving DecidableEq

namespace Thread

def work : Driver → Stage
  | .cpu => .readKeys
  | .timer => .timerTick

def step (running : Bool) (devices : Devices) (m : Machine) (t : Thread) :
    Thread × Machine × Option Signal :=
  match t.stage with
  | .check => ({ t with stage := if running then .recheck else .ended }, m, none)
  | .recheck => ({ t with stage := if running then work t.driver else .ended }, m, none)
  | .readKeys =>
    match devices.keyboard with
    | some keys => ({ t with stage := .cpuTick keys }, m, none)
    | none => ({ t with stage := .crashed }, m, some (.crash t.driver))
  | .cpuTick keys =>
    let (m, outcome) := m.cpuTick keys
    ({ t with stage := .check }, m, some (.cpuTick t.era outcome))
  | .timerTick =>
    let (m, tick) := m.timerTick
    ({ t with stage := .sound tick }, m, some (.timerTick t.era tick))
  | .sound tick =>
    ({ t with stage := (tick.frame.map .present).getD .check }, m, some (.tone tick.tone))
  | .present frame =>
    if devices.displayWorks then ({ t with stage := .check }, m, some (.present frame))
    else ({ t with stage := .crashed }, m, some (.crash t.driver))
  | .ended => (t, m, none)
  | .crashed => (t, m, none)

end Thread

end Chip8.Scheduler
