import Chip8.Display
import Chip8.Fault
import Chip8.Keypad
import Chip8.Memory
import Chip8.RandomSource
import Chip8.Registers

namespace Chip8

structure CallStack where
  returns : List UInt16 := []
deriving DecidableEq

namespace CallStack

def depth : Nat := 16

variable (s : CallStack)

def size : Nat := s.returns.length

def isEmpty : Bool := s.returns.isEmpty

def frames : List UInt16 := s.returns.reverse

def ofFrames (frames : List UInt16) : CallStack := ⟨frames.reverse⟩

def push (a : UInt16) : Except Fault CallStack :=
  if s.size < depth then .ok ⟨a :: s.returns⟩ else .error .stackOverflow

def pop : Except Fault (UInt16 × CallStack) :=
  match s.returns with
  | a :: rest => .ok (a, ⟨rest⟩)
  | [] => .error .stackUnderflow

end CallStack

structure Timers where
  delay : UInt8 := 0
  sound : UInt8 := 0
deriving DecidableEq

namespace Timers

def countDown (value : UInt8) : UInt8 :=
  if value = 0 then 0 else value - 1

variable (t : Timers)

def isSounding : Bool := 0 < t.sound

def tick : Timers := ⟨countDown t.delay, countDown t.sound⟩

end Timers

structure State where
  registers : Registers := {}
  memory : Memory := .zero
  stack : CallStack := {}
  display : Display := .initial
  timers : Timers := {}
  latch : KeyLatch := .idle
  random : RandomSource := .cycle #[]

namespace State

/-- Back to the first instruction of a program. The display is cleared and keeps its size; random
bytes go on where they were. -/
def reset (s : State) (p : Program) : State where
  memory := (s.memory.clear.loadFont).loadProgram p
  display := s.display.clear
  random := s.random

def boot (p : Program) : State := ({} : State).reset p

end State

end Chip8
