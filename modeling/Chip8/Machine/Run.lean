import Chip8.Machine

namespace Chip8

inductive Event where
  | cpu (keys : Keypad)
  | timer
  | take
  | reset
deriving DecidableEq

inductive Response where
  | cpu (outcome : Outcome)
  | timer (tick : TimerTick)
  | take (frame : Option Frame)
  | reset
deriving DecidableEq

namespace Machine

def respond (m : Machine) : Event → Machine × Response
  | .cpu keys => let (m, outcome) := m.cpuTick keys; (m, .cpu outcome)
  | .timer => let (m, tick) := m.timerTick; (m, .timer tick)
  | .take => let (m, frame) := m.takeFrame; (m, .take frame)
  | .reset => (m.reset, .reset)

def run (m : Machine) (events : List Event) : Machine :=
  events.foldl (fun m e ↦ (m.respond e).1) m

def play (m : Machine) : List Event → Machine × List Response
  | [] => (m, [])
  | e :: es =>
    let (m, r) := m.respond e
    let (m, rs) := m.play es
    (m, r :: rs)

def follow {α : Type} (m : Machine) (events : List Event) (f : α → Response → α) (a : α) :
    Machine × α :=
  events.foldl (fun (m, a) e ↦ let (m, r) := m.respond e; (m, f a r)) (m, a)

theorem follow_fst {α : Type} (m : Machine) (events : List Event) (f : α → Response → α)
    (a : α) : (m.follow events f a).1 = m.run events := by
  induction events generalizing m a with
  | nil => rfl
  | cons e es ih => exact ih ..

def responseRecord (m : Machine) : Response → Option LogRecord
  | .cpu outcome => m.tickRecord outcome
  | _ => none

def records (m : Machine) (responses : List Response) : List LogRecord :=
  responses.filterMap m.responseRecord

end Machine

namespace Event

/-- A CPU tick, with a timer tick behind it if `every` divides the number of CPU ticks up to and
with this one, which comes after `i` others. Zero divides none. -/
def round (keys : Keypad) (every i : Nat) : List Event :=
  if 0 < every ∧ (i + 1) % every = 0 then [.cpu keys, .timer] else [.cpu keys]

def interleaved (keys : Keypad) (every ticks : Nat) : List Event :=
  (List.range ticks).flatMap (round keys every)

end Event

namespace Machine

/-- Follows interleaved ticks round by round, so that a long run needs no list of its events. -/
def followTicks {α : Type} (m : Machine) (keys : Keypad) (every ticks : Nat)
    (f : α → Response → α) (a : α) : Machine × α :=
  ticks.fold (fun i _ (m, a) ↦ m.follow (Event.round keys every i) f a) (m, a)

theorem followTicks_eq_follow {α : Type} (m : Machine) (keys : Keypad) (every ticks : Nat)
    (f : α → Response → α) (a : α) :
    m.followTicks keys every ticks f a = m.follow (Event.interleaved keys every ticks) f a := by
  induction ticks with
  | zero => rfl
  | succ n ih =>
    simp only [followTicks, follow, Event.interleaved, List.range_succ, List.flatMap_append,
      List.foldl_append, Nat.fold_succ, List.flatMap_cons, List.flatMap_nil, List.append_nil] at *
    rw [ih]

end Machine

structure Summary where
  retired : Nat := 0
  awaiting : Nat := 0
  faults : Nat := 0
  frames : Nat := 0
  tones : Nat := 0
deriving DecidableEq

namespace Summary

def record (s : Summary) : Response → Summary
  | .cpu (.retired _ _) => { s with retired := s.retired + 1 }
  | .cpu (.awaitingKey _) => { s with awaiting := s.awaiting + 1 }
  | .cpu (.fault _) => { s with faults := s.faults + 1 }
  | .timer tick =>
    { s with
      frames := s.frames + tick.frame.isSome.toNat
      tones := s.tones + tick.tone.toNat }
  | _ => s

end Summary

end Chip8
