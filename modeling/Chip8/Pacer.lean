namespace Chip8

def timerRate : UInt32 := 60

def tickInterval (rate : UInt32) : Nat := 1000000000 / max rate.toNat 1

structure Pacer where
  interval : Nat
  due : Int
deriving DecidableEq

namespace Pacer

def start (rate : UInt32) (now : Int) : Pacer := ⟨tickInterval rate, now⟩

variable (p : Pacer)

def remaining (now : Int) : Nat := (p.due - now).toNat

/-- Takes the tick that is due. The next one is due an interval later, or at once if even the one
after it would be overdue. -/
def advance (now : Int) : Pacer :=
  let next := p.due + p.interval
  { p with due := if next + p.interval < now then now else next }

end Pacer

end Chip8
