import Chip8.Registers

namespace Chip8

inductive FlagChange where
  | keep
  | clear
  | set (on : Bool)
deriving DecidableEq

def FlagChange.apply : FlagChange → Registers → Registers
  | keep, r => r
  | clear, r => r.setFlag false
  | set on, r => r.setFlag on

inductive Operation where
  | copy
  | or
  | and
  | xor
  | add
  | sub
  | shiftRight
  | subReverse
  | shiftLeft
deriving DecidableEq

namespace Operation

def isShift : Operation → Bool
  | shiftRight => true
  | shiftLeft => true
  | _ => false

/-- The result for the operands `a` and `b`, and the flag: the carry of a sum, the absence of a
borrow of a difference, the bit that a shift drops. Shifts look at `a` alone. -/
def apply : Operation → UInt8 → UInt8 → UInt8 × FlagChange
  | copy, _, b => (b, .keep)
  | or, a, b => (a ||| b, .clear)
  | and, a, b => (a &&& b, .clear)
  | xor, a, b => (a ^^^ b, .clear)
  | add, a, b => (a + b, .set (256 ≤ a.toNat + b.toNat))
  | sub, a, b => (a - b, .set (b ≤ a))
  | shiftRight, a, _ => (a >>> 1, .set (a &&& 1 = 1))
  | subReverse, a, b => (b - a, .set (a ≤ b))
  | shiftLeft, a, _ => (a <<< 1, .set (a >>> 7 = 1))

end Operation

def decimalDigits (value : UInt8) : List UInt8 :=
  [value / 100, value / 10 % 10, value % 10]

end Chip8
