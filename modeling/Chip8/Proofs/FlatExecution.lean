import Chip8.Instruction.Text
import Chip8.Proofs.FlatDisplay
import Chip8.Proofs.FlatMemory
import Chip8.Proofs.IndexWindow

namespace Chip8

def Register.ofNibble? (bits : Nat) : Option Register := (List.finRange 16)[bits % 16]?

namespace Registers

variable (r : Registers)

def get? (x : Register) : Option UInt8 := r.v[x.val]?

def set? (x : Register) (value : UInt8) : Option Registers :=
  if h : x.val < 16 then some { r with v := r.v.set x.val value h } else none

def setFlag? (on : Bool) : Option Registers :=
  r.set? .flag (if on then 1 else 0)

end Registers

def FlagChange.apply? : FlagChange → Registers → Option Registers
  | keep, r => some r
  | clear, r => r.setFlag? false
  | set on, r => r.setFlag? on

namespace Registers

variable (r : Registers) (d : Dialect)

def compute? (op : Operation) (x y : Register) : Option Registers := do
  let a ← r.get? (if op.isShift && !d.shiftsInPlace then y else x)
  let b ← r.get? y
  let (result, flag) := op.apply a b
  let r ← r.set? x result
  flag.apply? r

def jumpRegister? (address : UInt16) : Option Register :=
  if d.namesOffset then Register.ofNibble? (address.toNat / 256) else some .first

def jumpTarget? (address : UInt16) : Option UInt16 := do
  let x ← jumpRegister? d address
  let offset ← r.get? x
  return (address + offset.toUInt16) &&& Layout.addressMask

end Registers

def Condition.holds? (r : Registers) (keys : Keypad) : Condition → Option Bool
  | equalsByte x value => do return (← r.get? x) == value
  | differsFromByte x value => do return (← r.get? x) != value
  | equalsRegister x y => do return (← r.get? x) == (← r.get? y)
  | differsFromRegister x y => do return (← r.get? x) != (← r.get? y)
  | keyPressed x => do return keys.pressed (← r.get? x)
  | keyReleased x => do return !keys.pressed (← r.get? x)

namespace Instruction

/-- Both register fields of a word are looked up before it is known what the word says. -/
def decode? (w : UInt16) : Option Instruction := do
  let _ ← Register.ofNibble? (w.toNat / 256)
  let _ ← Register.ofNibble? (w.toNat / 16)
  return decode w

def text? : Instruction → Option String
  | jumpWithOffset address => do
    let x ← Register.ofNibble? (address.toNat / 256)
    return "JP V0/" ++ x.name ++ ", " ++ Numeral.marked 3 address.toNat
  | i => some i.text

end Instruction

namespace Flat

structure State where
  registers : Registers
  memory : Memory
  stack : CallStack
  display : Display
  timers : Timers
  latch : KeyLatch
  random : RandomSource

inductive Effect where
  | retired (s : State)
  | blocked (s : State)
  | fault (f : Fault)

namespace State

variable (s : State)

structure WellFormed : Prop where
  memory : s.memory.WellFormed
  display : s.display.WellFormed

/-- The states that hosts can put together: memory and display come from what there is to make and
change them, everything else is as it likes. -/
structure Built : Prop where
  memory : s.memory.Built
  display : s.display.Built

def draw? (x y : Register) (height : UInt8) : Option State := do
  let rows ← s.memory.block? (s.registers.index &&& Layout.addressMask) height.toNat
  let left ← s.registers.get? x
  let top ← s.registers.get? y
  let (display, collision) ← s.display.draw? left top rows
  let registers ← s.registers.setFlag? collision
  return { s with display, registers }

def loadFromIndex? (x : Register) : Option Registers :=
  (Register.through x).foldlM (fun r y ↦ do
    let value ← s.memory.read? (s.registers.index + .ofNat y.val)
    r.set? y value) s.registers

def waitForKey? (x : Register) (keys : Keypad) : Option Effect :=
  match s.latch.poll x keys with
  | (latch, none) => some (.blocked { s with latch, registers := s.registers.rewind })
  | (latch, some (register, key)) => do
    let registers ← s.registers.set? register key
    return .retired { s with latch, registers }

def execute? (d : Dialect) (keys : Keypad) : Instruction → Option Effect
  | .clearScreen => some (.retired { s with display := s.display.clear })
  | .ret =>
    match s.stack.pop with
    | .ok (a, stack) => some (.retired { s with stack, registers.pc := a })
    | .error f => some (.fault f)
  | .jump target => some (.retired { s with registers.pc := target })
  | .call target =>
    match s.stack.push s.registers.pc with
    | .ok stack => some (.retired { s with stack, registers.pc := target })
    | .error f => some (.fault f)
  | .skip condition => do
    let holds ← condition.holds? s.registers keys
    return .retired { s with registers := s.registers.skipIf holds }
  | .setByte x value => do
    let registers ← s.registers.set? x value
    return .retired { s with registers }
  | .addByte x value => do
    let a ← s.registers.get? x
    let registers ← s.registers.set? x (a + value)
    return .retired { s with registers }
  | .compute op x y => do
    let registers ← s.registers.compute? d op x y
    return .retired { s with registers }
  | .setIndex address => some (.retired { s with registers.index := address })
  | .jumpWithOffset address => do
    let target ← s.registers.jumpTarget? d address
    return .retired { s with registers.pc := target }
  | .random x mask => do
    let (byte, random) := s.random.next
    let registers ← s.registers.set? x (byte &&& mask)
    return .retired { s with random, registers }
  | .draw x y height => (s.draw? x y height).map .retired
  | .readDelay x => do
    let registers ← s.registers.set? x s.timers.delay
    return .retired { s with registers }
  | .waitForKey x => s.waitForKey? x keys
  | .setDelay x => do
    let a ← s.registers.get? x
    return .retired { s with timers.delay := a }
  | .setSound x => do
    let a ← s.registers.get? x
    return .retired { s with timers.sound := a }
  | .addToIndex x => do
    let a ← s.registers.get? x
    return .retired { s with registers.index := s.registers.index + a.toUInt16 }
  | .selectGlyph x => do
    let a ← s.registers.get? x
    return .retired { s with registers.index := Font.address a }
  | .storeDecimal x => do
    let a ← s.registers.get? x
    let memory ← s.memory.store? s.registers.index (decimalDigits a)
    return .retired { s with memory }
  | .storeRegisters x => do
    let bytes ← (Register.through x).mapM s.registers.get?
    let memory ← s.memory.store? s.registers.index bytes
    return .retired { s with memory, registers.index := s.registers.indexAfterTransfer d x }
  | .loadRegisters x => do
    let registers ← s.loadFromIndex? x
    return .retired { s with
      registers := { registers with index := s.registers.indexAfterTransfer d x } }
  | .unknown _ => some (.fault .unknownOpcode)

def fetched : State := { s with registers := s.registers.fetched }

def step? (d : Dialect) (keys : Keypad) : Option (State × Outcome) := do
  let address := s.registers.fetchAddress
  let word ← s.memory.word? address
  let instruction ← Instruction.decode? word
  match ← s.fetched.execute? d keys instruction with
  | .retired t => return (t, .retired address instruction)
  | .blocked t => return (t, .awaitingKey address)
  | .fault f => return (s.fetched, .fault ⟨f, address, word⟩)

def reset? (p : Program) : Option State := do
  let memory ← s.memory.clear.loadFont?
  let memory ← memory.loadProgram? p
  return {
    registers := {}, memory, stack := {}, display := s.display.clear, timers := {}, latch := .idle,
    random := s.random }

def new (display : Display) : State :=
  { registers := {}, memory := .zero, stack := {}, display, timers := {}, latch := .idle,
    random := .cycle #[] }

def boot? (p : Program) : Option State := do
  let display ← Display.blank? Chip8.Display.defaultWidth Chip8.Display.defaultHeight
  (new display).reset? p

end State

end Flat

def State.flat (s : State) : Flat.State :=
  { s with memory := s.memory.flat, display := s.display.flat }

namespace State

variable (s : State)

theorem wellFormed_flat : s.flat.WellFormed :=
  ⟨s.memory.wellFormed_flat, s.display.wellFormed_flat⟩

@[simp] theorem registers_flat : s.flat.registers = s.registers := rfl

@[simp] theorem memory_flat : s.flat.memory = s.memory.flat := rfl

@[simp] theorem stack_flat : s.flat.stack = s.stack := rfl

@[simp] theorem display_flat : s.flat.display = s.display.flat := rfl

@[simp] theorem latch_flat : s.flat.latch = s.latch := rfl

end State

def Effect.flat : Effect → Flat.Effect
  | .retired s => .retired s.flat
  | .blocked s => .blocked s.flat
  | .fault f => .fault f

@[simp] theorem Register.ofNibble?_eq (bits : Nat) : ofNibble? bits = some (ofNibble bits) := by
  have hb : bits % 16 < (List.finRange 16).length := Nat.mod_lt bits (by decide)
  rw [ofNibble?, List.getElem?_eq_getElem hb, List.getElem_finRange]
  rfl

namespace Registers

variable (r : Registers) (d : Dialect)

@[simp] theorem get?_eq (x : Register) : r.get? x = some (r.get x) :=
  Vector.getElem?_eq_getElem x.isLt

@[simp] theorem set?_eq (x : Register) (value : UInt8) : r.set? x value = some (r.set x value) :=
  dif_pos x.isLt

@[simp] theorem setFlag?_eq (on : Bool) : r.setFlag? on = some (r.setFlag on) := r.set?_eq ..

@[simp] theorem apply?_eq (change : FlagChange) : change.apply? r = some (change.apply r) := by
  cases change with
  | keep => rfl
  | clear => exact r.setFlag?_eq false
  | set on => exact r.setFlag?_eq on

@[simp] theorem compute?_eq (op : Operation) (x y : Register) :
    r.compute? d op x y = some (r.compute d op x y) := by
  simp only [compute?, get?_eq, set?_eq, apply?_eq, Option.bind_eq_bind, Option.bind_some]
  rfl

@[simp] theorem jumpRegister?_eq (address : UInt16) :
    jumpRegister? d address = some (jumpRegister d address) := by
  rw [jumpRegister?, jumpRegister, Instruction.offsetRegister, Register.ofNibble?_eq]
  split <;> rfl

@[simp] theorem jumpTarget?_eq (address : UInt16) :
    r.jumpTarget? d address = some (r.jumpTarget d address) := by
  simp only [jumpTarget?, jumpRegister?_eq, get?_eq]
  rfl

@[simp] theorem holds?_eq (condition : Condition) (keys : Keypad) :
    condition.holds? r keys = some (condition.holds r keys) := by
  cases condition <;>
    simp only [Condition.holds?, get?_eq, Option.bind_eq_bind, Option.bind_some] <;> rfl

end Registers

namespace Instruction

@[simp] theorem decode?_eq (w : UInt16) : decode? w = some (decode w) := by
  simp only [decode?, Register.ofNibble?_eq]
  rfl

@[simp] theorem text?_eq (i : Instruction) : i.text? = some i.text := by
  cases i with
  | jumpWithOffset address =>
    simp only [text?, Register.ofNibble?_eq]
    rfl
  | _ => rfl

end Instruction

namespace Flat.State

open Chip8.State (registers_flat memory_flat stack_flat display_flat latch_flat)

variable {s : Flat.State}

theorem WellFormed.exists_flat (h : s.WellFormed) : ∃ t : Chip8.State, t.flat = s := by
  obtain ⟨m, hm⟩ := h.memory.exists_flat
  obtain ⟨d, hd⟩ := h.display.exists_flat
  refine ⟨{ s with memory := m, display := d }, ?_⟩
  simp only [Chip8.State.flat, hm, hd]

theorem Built.wellFormed (h : s.Built) : s.WellFormed :=
  ⟨h.memory.wellFormed, h.display.wellFormed⟩

variable (n : Chip8.State) (d : Dialect) (keys : Keypad)

theorem sameCell_mask (a : UInt16) : SameCell (a &&& Layout.addressMask) a := by
  have hp : (a &&& Layout.addressMask).toNat = a.toNat % 4096 := Memory.place_eq a
  rw [SameCell, hp, Nat.mod_mod]

@[simp] theorem draw?_flat (x y : Register) (height : UInt8) :
    n.flat.draw? x y height = some (n.draw x y height).flat := by
  simp only [draw?, registers_flat, memory_flat, display_flat, Memory.block?_flat,
    (sameCell_mask n.registers.index).block_eq, Registers.get?_eq, Display.draw?_flat,
    Registers.setFlag?_eq, Option.bind_eq_bind, Option.bind_some]
  rfl

@[simp] theorem loadFromIndex?_flat (x : Register) :
    n.flat.loadFromIndex? x = some (n.loadFromIndex x) := by
  simp only [loadFromIndex?, memory_flat, registers_flat, Memory.read?_flat, Registers.set?_eq,
    Option.bind_eq_bind, Option.bind_some]
  exact List.foldlM_pure

@[simp] theorem waitForKey?_flat (x : Register) :
    n.flat.waitForKey? x keys = some (n.waitForKey x keys).flat := by
  rw [waitForKey?, Chip8.State.waitForKey, latch_flat]
  obtain ⟨latch, _ | ⟨register, key⟩⟩ := n.latch.poll x keys
  · rfl
  · simp only [registers_flat, Registers.set?_eq]
    rfl

@[simp] theorem execute?_flat (i : Instruction) :
    n.flat.execute? d keys i = some (n.execute d keys i).flat := by
  cases i with
  | ret =>
    rw [execute?, Chip8.State.execute, stack_flat]
    cases n.stack.pop with
    | ok r => rfl
    | error f => rfl
  | call target =>
    rw [execute?, Chip8.State.execute, stack_flat, registers_flat]
    cases n.stack.push n.registers.pc with
    | ok stack => rfl
    | error f => rfl
  | storeRegisters x =>
    have hget : n.registers.get? = fun y ↦ pure (n.registers.get y) :=
      funext n.registers.get?_eq
    have hbytes : (Register.through x).mapM n.registers.get? =
        some ((Register.through x).map n.registers.get) := by
      rw [hget]
      exact List.mapM_pure
    simp only [execute?, registers_flat, memory_flat, hbytes, Memory.store?_flat,
      Option.bind_eq_bind, Option.bind_some]
    rfl
  | _ =>
    simp only [execute?, registers_flat, memory_flat, display_flat, Display.clear_flat,
      Registers.get?_eq, Registers.set?_eq, Registers.holds?_eq, Registers.compute?_eq,
      Registers.jumpTarget?_eq, draw?_flat, waitForKey?_flat, Memory.store?_flat,
      loadFromIndex?_flat, Option.bind_eq_bind, Option.bind_some, Option.map_some]
    rfl

theorem step?_flat : n.flat.step? d keys = some ((n.step d keys).map Chip8.State.flat id) := by
  have hf : n.flat.fetched = n.fetched.flat := rfl
  have hi : Instruction.decode (n.memory.word n.registers.fetchAddress) = n.instruction := rfl
  simp only [step?, registers_flat, memory_flat, Memory.word?_flat, Instruction.decode?_eq, hf, hi,
    execute?_flat, Option.bind_eq_bind, Option.bind_some]
  cases he : n.fetched.execute d keys n.instruction with
  | retired t =>
    rw [Chip8.State.step_of_retired rfl he]
    rfl
  | blocked t =>
    rw [Chip8.State.step_of_blocked rfl he]
    rfl
  | fault f =>
    rw [Chip8.State.step_of_fault rfl he]
    rfl

theorem reset?_flat (p : Program) : n.flat.reset? p = some (n.reset p).flat := by
  simp only [reset?, memory_flat, display_flat, Memory.clear_flat, Display.clear_flat,
    Memory.loadFont?_flat, Memory.loadProgram?_flat, Option.bind_eq_bind, Option.bind_some]
  rfl

theorem new_flat : new Chip8.Display.initial.flat = ({} : Chip8.State).flat := rfl

theorem boot?_eq (p : Program) : boot? p = some (Chip8.State.boot p).flat := by
  have hblank : Display.blank? Chip8.Display.defaultWidth Chip8.Display.defaultHeight =
      some Chip8.Display.initial.flat := Display.blank?_eq _ _ (by decide)
  rw [boot?, hblank, Option.bind_eq_bind, Option.bind_some, new_flat]
  exact reset?_flat {} p

end Flat.State

end Chip8
