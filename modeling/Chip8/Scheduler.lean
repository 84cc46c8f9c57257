import Chip8.Scheduler.Thread

namespace Chip8

namespace Scheduler

inductive Command where
  | start
  | stop
deriving DecidableEq

/-- The next step of the thread that starts and stops. A start stops first; `wasUp` is the running
flag as the stop found it. -/
inductive Control where
  | idle
  | lowerFlag (command : Command)
  | join (command : Command) (wasUp : Bool)
  | silence (command : Command) (wasUp : Bool)
  | announceStop (command : Command)
  | reset
  | raiseFlag
  | spawn (driver : Driver)
  | announceStart
deriving DecidableEq

inductive Move where
  | call (command : Command)
  | control
  | thread (n : Nat) (devices : Devices)
deriving DecidableEq

end Scheduler

structure Scheduler where
  machine : Machine
  running : Bool := false
  control : Scheduler.Control := .idle
  /-- The threads that were spawned and not joined yet, in the order of spawning. -/
  threads : List Scheduler.Thread := []
  starts : Nat := 0

namespace Scheduler

def Command.afterStop : Command → Control
  | start => .reset
  | stop => .idle

def Control.afterSpawn : Driver → Control
  | .cpu => .spawn .timer
  | .timer => .announceStart

variable (s : Scheduler)

/-- Joins the oldest thread if it has ended or crashed, and waits for it otherwise. -/
def join (command : Command) (wasUp : Bool) : Scheduler × Option Signal :=
  match s.threads with
  | [] => ({ s with control := .silence command wasUp }, none)
  | t :: rest =>
    match t.stage with
    | .ended => ({ s with threads := rest }, none)
    | .crashed => ({ s with threads := rest }, some (.log (.driverCrashed t.driver)))
    | _ => (s, none)

def controlStep : Scheduler × Option Signal :=
  match s.control with
  | .idle => (s, none)
  | .lowerFlag command => ({ s with running := false, control := .join command s.running }, none)
  | .join command wasUp => s.join command wasUp
  | .silence command wasUp =>
    let next := if wasUp then .announceStop command else command.afterStop
    ({ s with control := next }, some (.tone false))
  | .announceStop command =>
    ({ s with control := command.afterStop }, some (.log .driversStopped))
  | .reset =>
    let machine := s.machine.reset
    ({ s with machine, starts := s.starts + 1, control := .raiseFlag }, some .reset)
  | .raiseFlag => ({ s with running := true, control := .spawn .cpu }, none)
  | .spawn driver =>
    let threads := s.threads ++ [{ driver, era := s.starts }]
    ({ s with threads, control := .afterSpawn driver }, none)
  | .announceStart =>
    ({ s with control := .idle }, some (.log (.driversStarted s.machine.config.rate)))

/-- One step of a schedule. Calls are taken one at a time; a step that is not possible changes
nothing. -/
def move : Move → Scheduler × Option Signal
  | .call command =>
    match s.control with
    | .idle => ({ s with control := .lowerFlag command }, none)
    | _ => (s, none)
  | .control => s.controlStep
  | .thread n devices =>
    match s.threads[n]? with
    | some t =>
      let (t, machine, signal) := t.step s.running devices s.machine
      ({ s with machine, threads := s.threads.set n t }, signal)
    | none => (s, none)

def play (s : Scheduler) : List Move → Scheduler × List Signal
  | [] => (s, [])
  | a :: as =>
    let (s, signal) := s.move a
    let (s, signals) := s.play as
    (s, signal.toList ++ signals)

end Scheduler

end Chip8
