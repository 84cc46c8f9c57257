import Chip8.Config
import Chip8.Instruction.Decode
import Chip8.State

namespace Chip8

/-- What became of an instruction. A fault leaves no new state: nothing is changed before it is
found. -/
inductive Effect where
  | retired (s : State)
  | blocked (s : State)
  | fault (f : Fault)

def Condition.holds (r : Registers) (keys : Keypad) : Condition → Bool
  | equalsByte x value => r.get x == value
  | differsFromByte x value => r.get x != value
  | equalsRegister x y => r.get x == r.get y
  | differsFromRegister x y => r.get x != r.get y
  | keyPressed x => keys.pressed (r.get x)
  | keyReleased x => !keys.pressed (r.get x)

namespace Registers

variable (r : Registers) (d : Dialect)

/-- Writes the result to `x` first, so that the flag wins when `x` is `VF`. The first operand is
`x`, but a shift that is not in place takes `y`. -/
def compute (op : Operation) (x y : Register) : Registers :=
  let source := if op.isShift && !d.shiftsInPlace then y else x
  let (result, flag) := op.apply (r.get source) (r.get y)
  flag.apply (r.set x result)

def jumpRegister (address : UInt16) : Register :=
  if d.namesOffset then Instruction.offsetRegister address else .first

def jumpTarget (address : UInt16) : UInt16 :=
  (address + (r.get (jumpRegister d address)).toUInt16) &&& Layout.addressMask

def indexAfterTransfer (x : Register) : UInt16 :=
  if d.advancesIndex then r.index + .ofNat (x.val + 1) else r.index

end Registers

namespace State

variable (s : State)

def withRegisters (f : Registers → Registers) : State :=
  { s with registers := f s.registers }

def draw (x y : Register) (height : UInt8) : State :=
  let rows := s.memory.block s.registers.index height.toNat
  let (display, collision) := s.display.draw (s.registers.get x) (s.registers.get y) rows
  { s with display, registers := s.registers.setFlag collision }

def storeAtIndex (bytes : List UInt8) : State :=
  { s with memory := s.memory.store s.registers.index bytes }

def loadFromIndex (x : Register) : Registers :=
  (Register.through x).foldl
    (fun r y ↦ r.set y (s.memory.read (s.registers.index + .ofNat y.val))) s.registers

/-- Asks the latch for a key. While there is none, the program counter goes back to the
instruction. -/
def waitForKey (x : Register) (keys : Keypad) : Effect :=
  match s.latch.poll x keys with
  | (latch, none) => .blocked { s with latch, registers := s.registers.rewind }
  | (latch, some (register, key)) =>
    .retired { s with latch, registers := s.registers.set register key }

/-- Executes one instruction; the program counter is already behind it. -/
def execute (d : Dialect) (keys : Keypad) : Instruction → Effect
  | .clearScreen => .retired { s with display := s.display.clear }
  | .ret =>
    match s.stack.pop with
    | .ok (a, stack) => .retired { s with stack, registers.pc := a }
    | .error f => .fault f
  | .jump target => .retired { s with registers.pc := target }
  | .call target =>
    match s.stack.push s.registers.pc with
    | .ok stack => .retired { s with stack, registers.pc := target }
    | .error f => .fault f
  | .skip condition => .retired (s.withRegisters fun r ↦ r.skipIf (condition.holds r keys))
  | .setByte x value => .retired (s.withRegisters (·.set x value))
  | .addByte x value => .retired (s.withRegisters fun r ↦ r.set x (r.get x + value))
  | .compute op x y => .retired (s.withRegisters (·.compute d op x y))
  | .setIndex address => .retired { s with registers.index := address }
  | .jumpWithOffset address =>
    .retired { s with registers.pc := s.registers.jumpTarget d address }
  | .random x mask =>
    let (byte, random) := s.random.next
    .retired { s with random, registers := s.registers.set x (byte &&& mask) }
  | .draw x y height => .retired (s.draw x y height)
  | .readDelay x => .retired (s.withRegisters (·.set x s.timers.delay))
  | .waitForKey x => s.waitForKey x keys
  | .setDelay x => .retired { s with timers.delay := s.registers.get x }
  | .setSound x => .retired { s with timers.sound := s.registers.get x }
  | .addToIndex x =>
    .retired { s with registers.index := s.registers.index + (s.registers.get x).toUInt16 }
  | .selectGlyph x =>
    .retired { s with registers.index := Font.address (s.registers.get x) }
  | .storeDecimal x => .retired (s.storeAtIndex (decimalDigits (s.registers.get x)))
  | .storeRegisters x =>
    .retired { s.storeAtIndex ((Register.through x).map s.registers.get) with
      registers.index := s.registers.indexAfterTransfer d x }
  | .loadRegisters x =>
    .retired { s with
      registers := { s.loadFromIndex x with index := s.registers.indexAfterTransfer d x } }
  | .unknown _ => .fault .unknownOpcode

end State

inductive Outcome where
  | retired (address : UInt16) (instruction : Instruction)
  | awaitingKey (address : UInt16)
  | fault (report : FaultReport)
deriving DecidableEq

namespace State

variable (s : State)

def fetchedWord : UInt16 := s.memory.word s.registers.fetchAddress

def instruction : Instruction := .decode s.fetchedWord

/-- Fetches and executes one instruction. After a fault only the program counter has moved. -/
def step (d : Dialect) (keys : Keypad) : State × Outcome :=
  let address := s.registers.fetchAddress
  let ready := s.withRegisters (·.fetched)
  match ready.execute d keys s.instruction with
  | .retired t => (t, .retired address s.instruction)
  | .blocked t => (t, .awaitingKey address)
  | .fault f => (ready, .fault ⟨f, address, s.fetchedWord⟩)

end State

end Chip8
