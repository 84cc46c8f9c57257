import Chip8.Scheduler

namespace Chip8

structure Host where
  scheduler : Scheduler
  keys : Keypad := .released
  keyboardWorks : Bool := true
  displayWorks : Bool := true
  watched : Bool := true
  tone : Bool := true
  shown : Option Frame := none
  /-- Whether the keyboard or the display failed since that was asked last. -/
  failed : Bool := false
  /-- Log records of the thread that starts and stops, the newest first. -/
  log : List LogRecord := []

namespace Host

open Scheduler

variable (h : Host)

def absorb : Signal → Host
  | .log record => { h with log := record :: h.log }
  | .tone on => { h with tone := on }
  | .present frame => if h.watched then { h with shown := some frame } else h
  | .crash _ => { h with failed := true }
  | _ => h

def move (a : Move) : Host :=
  let (scheduler, signal) := h.scheduler.move a
  (signal.map { h with scheduler }.absorb).getD { h with scheduler }

def devices : Devices := ⟨if h.keyboardWorks then some h.keys else none, h.displayWorks⟩

def advance (n : Nat) : Host := h.move (.thread n h.devices)

def settle (h : Host) : (fuel : Nat) → Host
  | 0 => h
  | fuel + 1 =>
    match h.scheduler.control with
    | .idle => h
    | _ => (((h.move .control).advance 0).advance 1).settle fuel

/-- More rounds than a call needs: each thread ends within four steps of its own once the flag is
down, and no call takes twenty steps besides. -/
def callFuel : Nat := 64

def call (command : Command) : Host := (h.move (.call command)).settle callFuel

def finishLoop (h : Host) (n : Nat) : (fuel : Nat) → Host
  | 0 => h
  | fuel + 1 =>
    match (h.scheduler.threads[n]?).map Thread.stage with
    | some .check => h
    | _ => (h.advance n).finishLoop n fuel

def loop (driver : Driver) : Host :=
  match h.scheduler.threads.findIdx? (·.driver = driver) with
  | some n => (h.advance n).finishLoop n 4
  | none => h

inductive Goal where
  | pc (address : UInt16)
  | delay (value : UInt8)
  | latched (key : UInt8)
  | waiting (yes : Bool)
  | tone (on : Bool)
  | lit (count : Nat)
  /-- The keyboard or the display failed since the last wait for that. -/
  | failure
deriving DecidableEq

def reached (h : Host) : Goal → Bool
  | .pc address => h.scheduler.machine.state.registers.pc == address
  | .delay value => h.scheduler.machine.state.timers.delay == value
  | .latched key =>
    match h.scheduler.machine.state.latch with
    | .awaitingRelease _ k => k == key
    | _ => false
  | .waiting yes => h.scheduler.machine.state.latch.isWaiting == yes
  | .tone on => h.tone == on
  | .lit count => h.shown.map Frame.lit == some count
  | .failure => h.failed

/-- CPU loops for each timer loop: the ratio of the rates, within bounds that let both threads get
on. -/
def loopsPerTimerLoop : Nat :=
  min 512 (max 1 (h.scheduler.machine.config.rate.toNat / timerRate.toNat))

def patience : Nat := 8 * max h.scheduler.machine.config.rate.toNat timerRate.toNat

def waitFor (goal : Goal) (every : Nat) (h : Host) : (rounds : Nat) → Host × Bool
  | 0 => (h, h.reached goal)
  | rounds + 1 =>
    if h.reached goal then (h, true)
    else
      let h := h.loop .cpu
      if h.reached goal then (h, true)
      else (if rounds % every = 0 then h.loop .timer else h).waitFor goal every rounds

/-- Waits for a goal; the answer is whether it was reached. Asking for a failure forgets the
failures seen before. -/
def wait (goal : Goal) : Host × Bool :=
  let (h, reached) := h.waitFor goal h.loopsPerTimerLoop h.patience
  match goal with
  | .failure => ({ h with failed := false }, reached)
  | _ => (h, reached)

def readLog : List LogRecord × Host := (h.log.reverse, { h with log := [] })

def withMachine (f : Machine → Machine) : Host :=
  { h with scheduler := { h.scheduler with machine := f h.scheduler.machine } }

end Host

end Chip8
