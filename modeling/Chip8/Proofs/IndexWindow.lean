import Chip8.Proofs.Fetch
import Chip8.Proofs.Run
import Mathlib.Data.List.Forall2

namespace Chip8

def SameCell (a b : UInt16) : Prop := a.toNat % 4096 = b.toNat % 4096

namespace SameCell

variable {a b : UInt16} {m : Memory}

theorem add (h : SameCell a b) (k : UInt16) : SameCell (a + k) (b + k) := by
  have h : a.toNat % 4096 = b.toNat % 4096 := h
  rw [SameCell, UInt16.toNat_add, UInt16.toNat_add]
  omega

theorem cell_eq (h : SameCell a b) : Memory.cell a = Memory.cell b := Fin.ext h

theorem read_eq (h : SameCell a b) (m : Memory) : m.read a = m.read b :=
  congrArg (m.cells[·]) h.cell_eq

theorem write_eq (h : SameCell a b) (m : Memory) (value : UInt8) :
    m.write a value = m.write b value := by
  simp only [Memory.write, h.cell_eq]

theorem store_eq (h : SameCell a b) (m : Memory) (bytes : List UInt8) :
    m.store a bytes = m.store b bytes := by
  induction bytes generalizing a b m with
  | nil => rfl
  | cons byte bytes ih =>
    rw [Memory.store, Memory.store, h.write_eq]
    exact ih (h.add 1) _

theorem block_eq (h : SameCell a b) (m : Memory) (n : Nat) : m.block a n = m.block b n := by
  rw [Memory.block, Memory.block]
  exact List.map_congr_left fun k _ ↦ (h.add (.ofNat k)).read_eq m

end SameCell

structure Registers.SameUpToIndex (r q : Registers) : Prop where
  v : r.v = q.v
  pc : r.pc = q.pc
  index : SameCell r.index q.index

namespace Registers.SameUpToIndex

variable {r q : Registers}

theorem get_eq (h : r.SameUpToIndex q) (x : Register) : r.get x = q.get x :=
  congrArg (·[x]) h.v

theorem set (h : r.SameUpToIndex q) (x : Register) (value : UInt8) :
    (r.set x value).SameUpToIndex (q.set x value) :=
  ⟨congrArg (·.set x value) h.v, h.pc, h.index⟩

theorem withPc (h : r.SameUpToIndex q) (pc : UInt16) :
    SameUpToIndex { r with pc } { q with pc } := ⟨h.v, rfl, h.index⟩

theorem withIndex (h : r.SameUpToIndex q) {a b : UInt16} (hi : SameCell a b) :
    SameUpToIndex { r with index := a } { q with index := b } := ⟨h.v, h.pc, hi⟩

theorem fetchAddress_eq (h : r.SameUpToIndex q) : r.fetchAddress = q.fetchAddress := by
  rw [fetchAddress, fetchAddress, h.pc]

theorem fetched (h : r.SameUpToIndex q) : r.fetched.SameUpToIndex q.fetched := by
  rw [Registers.fetched, Registers.fetched, h.fetchAddress_eq]
  exact h.withPc _

theorem rewind (h : r.SameUpToIndex q) : r.rewind.SameUpToIndex q.rewind :=
  ⟨h.v, congrArg (· - 2) h.pc, h.index⟩

theorem skipIf (h : r.SameUpToIndex q) (c : Bool) : (r.skipIf c).SameUpToIndex (q.skipIf c) := by
  cases c with
  | false => exact h
  | true => exact ⟨h.v, congrArg (· + 2) h.pc, h.index⟩

theorem holds_eq (h : r.SameUpToIndex q) (c : Condition) (keys : Keypad) :
    c.holds r keys = c.holds q keys := by
  cases c <;> simp only [Condition.holds, h.get_eq]

theorem compute (h : r.SameUpToIndex q) (d : Dialect) (op : Operation) (x y : Register) :
    (r.compute d op x y).SameUpToIndex (q.compute d op x y) := by
  simp only [Registers.compute, h.get_eq]
  generalize op.apply _ _ = result
  obtain ⟨value, keep | clear | on⟩ := result
  · exact h.set x value
  · exact (h.set x value).set .flag _
  · exact (h.set x value).set .flag _

theorem jumpTarget_eq (h : r.SameUpToIndex q) (d : Dialect) (address : UInt16) :
    r.jumpTarget d address = q.jumpTarget d address := by
  rw [jumpTarget, jumpTarget, h.get_eq]

theorem indexAfterTransfer (h : r.SameUpToIndex q) (d : Dialect) (x : Register) :
    SameCell (r.indexAfterTransfer d x) (q.indexAfterTransfer d x) := by
  rw [Registers.indexAfterTransfer, Registers.indexAfterTransfer]
  split
  · exact h.index.add _
  · exact h.index

end Registers.SameUpToIndex

namespace State

structure SameUpToIndex (s t : State) : Prop where
  registers : s.registers.SameUpToIndex t.registers
  memory : s.memory = t.memory
  stack : s.stack = t.stack
  display : s.display = t.display
  timers : s.timers = t.timers
  latch : s.latch = t.latch
  random : s.random = t.random

namespace SameUpToIndex

variable {s t : State} {d : Dialect} {keys : Keypad} {i : Instruction}

theorem withRegisters (h : s.SameUpToIndex t) {f g : Registers → Registers}
    (hf : (f s.registers).SameUpToIndex (g t.registers)) :
    (s.withRegisters f).SameUpToIndex (t.withRegisters g) :=
  { h with registers := hf }

theorem fetched (h : s.SameUpToIndex t) : s.fetched.SameUpToIndex t.fetched :=
  h.withRegisters h.registers.fetched

theorem fetchedWord_eq (h : s.SameUpToIndex t) : s.fetchedWord = t.fetchedWord := by
  rw [fetchedWord, fetchedWord, h.memory, h.registers.fetchAddress_eq]

theorem draw (h : s.SameUpToIndex t) (x y : Register) (height : UInt8) :
    (s.draw x y height).SameUpToIndex (t.draw x y height) := by
  have hrows : s.memory.block s.registers.index height.toNat =
      t.memory.block t.registers.index height.toNat := by
    rw [h.memory]
    exact h.registers.index.block_eq t.memory _
  simp only [State.draw, hrows, h.display, h.registers.get_eq]
  exact { h with registers := h.registers.set .flag _, display := rfl }

theorem storeAtIndex (h : s.SameUpToIndex t) (bytes : List UInt8) :
    (s.storeAtIndex bytes).SameUpToIndex (t.storeAtIndex bytes) := by
  have hstore : s.memory.store s.registers.index bytes =
      t.memory.store t.registers.index bytes := by
    rw [h.memory]
    exact h.registers.index.store_eq t.memory bytes
  exact { h with memory := hstore }

theorem loadFromIndex (h : s.SameUpToIndex t) (x : Register) :
    (s.loadFromIndex x).SameUpToIndex (t.loadFromIndex x) := by
  have hread (y : Register) : s.memory.read (s.registers.index + .ofNat y.val) =
      t.memory.read (t.registers.index + .ofNat y.val) := by
    rw [h.memory]
    exact (h.registers.index.add _).read_eq t.memory
  simp only [State.loadFromIndex, hread]
  refine List.foldl_rel (r := Registers.SameUpToIndex) h.registers fun y _ r q hr ↦ ?_
  exact hr.set y _

theorem waitForKey (h : s.SameUpToIndex t) (x : Register) (keys : Keypad) :
    Effect.Matches SameUpToIndex (s.waitForKey x keys) (t.waitForKey x keys) := by
  simp only [State.waitForKey, h.latch]
  obtain ⟨latch, _ | ⟨r, k⟩⟩ := t.latch.poll x keys
  · exact .blocked { h with registers := h.registers.rewind, latch := rfl }
  · exact .retired { h with registers := h.registers.set r k, latch := rfl }

theorem execute (h : s.SameUpToIndex t) :
    Effect.Matches SameUpToIndex (s.execute d keys i) (t.execute d keys i) := by
  have hr := h.registers
  cases i with
  | clearScreen => exact .retired { h with display := congrArg Display.clear h.display }
  | ret =>
    simp only [State.execute, h.stack]
    cases t.stack.pop with
    | ok r => exact .retired { h with registers := hr.withPc _, stack := rfl }
    | error f => exact .fault f
  | jump target => exact .retired { h with registers := hr.withPc target }
  | call target =>
    simp only [State.execute, h.stack, hr.pc]
    cases t.stack.push t.registers.pc with
    | ok stack => exact .retired { h with registers := hr.withPc target, stack := rfl }
    | error f => exact .fault f
  | skip condition =>
    simp only [State.execute, State.withRegisters, hr.holds_eq]
    exact .retired { h with registers := hr.skipIf _ }
  | setByte x value => exact .retired (h.withRegisters (hr.set x value))
  | addByte x value =>
    simp only [State.execute, State.withRegisters, hr.get_eq]
    exact .retired { h with registers := hr.set x _ }
  | compute op x y => exact .retired (h.withRegisters (hr.compute d op x y))
  | setIndex address => exact .retired { h with registers := hr.withIndex rfl }
  | jumpWithOffset address =>
    simp only [State.execute, hr.jumpTarget_eq]
    exact .retired { h with registers := hr.withPc _ }
  | random x mask =>
    simp only [State.execute, h.random]
    exact .retired { h with registers := hr.set x _, random := rfl }
  | draw x y height => exact .retired (h.draw x y height)
  | readDelay x =>
    simp only [State.execute, State.withRegisters, h.timers]
    exact .retired { h with registers := hr.set x _, timers := rfl }
  | waitForKey x => exact h.waitForKey x keys
  | setDelay x | setSound x =>
    simp only [State.execute, h.timers, hr.get_eq]
    exact .retired { h with timers := rfl }
  | addToIndex x =>
    simp only [State.execute, hr.get_eq]
    exact .retired { h with registers := hr.withIndex (hr.index.add _) }
  | selectGlyph x =>
    simp only [State.execute, hr.get_eq]
    exact .retired { h with registers := hr.withIndex rfl }
  | storeDecimal x =>
    simp only [State.execute, hr.get_eq]
    exact .retired (h.storeAtIndex _)
  | storeRegisters x =>
    have hv : s.registers.get = t.registers.get := funext hr.get_eq
    simp only [State.execute, hv]
    have hs := h.storeAtIndex ((Register.through x).map t.registers.get)
    exact .retired { hs with registers := hs.registers.withIndex (hr.indexAfterTransfer d x) }
  | loadRegisters x =>
    have hl := h.loadFromIndex x
    exact .retired { h with registers := hl.withIndex (hr.indexAfterTransfer d x) }
  | unknown w => exact .fault _

theorem step (h : s.SameUpToIndex t) (d : Dialect) (keys : Keypad) :
    (s.step d keys).2 = (t.step d keys).2 ∧
      (s.step d keys).1.SameUpToIndex (t.step d keys).1 := by
  have hi : s.instruction = t.instruction := congrArg Instruction.decode h.fetchedWord_eq
  refine step_matches h.registers.fetchAddress_eq h.fetchedWord_eq h.fetched ?_
  rw [hi]
  exact h.fetched.execute

end SameUpToIndex

end State

namespace Machine

/-- Two machines that differ in the index at most, and there not in the cell it selects. -/
structure SameUpToIndex (m n : Machine) : Prop where
  config : m.config = n.config
  program : m.program = n.program
  state : m.state.SameUpToIndex n.state
  tally : m.tally = n.tally
  streams : m.streams = n.streams

namespace SameUpToIndex

variable {m n : Machine}

theorem respond (h : m.SameUpToIndex n) (e : Event) :
    (m.respond e).2 = (n.respond e).2 ∧ (m.respond e).1.SameUpToIndex (n.respond e).1 := by
  obtain ⟨c, p, s, u, streams⟩ := m
  obtain ⟨c', p', t, u', streams'⟩ := n
  obtain ⟨rfl, rfl, h, rfl, rfl⟩ := h
  cases e with
  | cpu keys =>
    obtain ⟨ho, hs⟩ := h.step c.dialect keys
    refine ⟨congrArg Response.cpu ho, rfl, rfl, hs, ?_, rfl⟩
    exact congrArg u.record ho
  | timer =>
    refine ⟨?_, rfl, rfl, { h with display := ?_, timers := ?_ }, ?_, rfl⟩
    · exact congrArg₂ (fun (ts : Timers) (d : Display) ↦
        Response.timer ⟨ts.tick.isSounding, d.take.1⟩) h.timers h.display
    · exact congrArg (·.take.2) h.display
    · exact congrArg Timers.tick h.timers
    · exact congrArg (fun d : Display ↦ u.recordTimerTick d.take.1.isSome) h.display
  | take =>
    refine ⟨?_, rfl, rfl, { h with display := ?_ }, rfl, rfl⟩
    · exact congrArg (fun d : Display ↦ Response.take d.take.1) h.display
    · exact congrArg (·.take.2) h.display
  | reset =>
    refine ⟨rfl, rfl, rfl, ⟨⟨rfl, rfl, rfl⟩, ?_, rfl, ?_, rfl, rfl, ?_⟩, rfl, rfl⟩
    · exact congrArg (·.clear.loadFont.loadProgram p) h.memory
    · exact congrArg Display.clear h.display
    · exact congrArg (source streams c.seed) h.random

end SameUpToIndex

variable {m n : Machine}

/-- Machines that are equal up to an index that is congruent modulo the size of memory answer the
same events alike, with the same outcomes, tones and pictures, and stay equal up to that. -/
theorem index_unobservable_beyond_memory (h : m.SameUpToIndex n) (es : List Event) :
    List.Forall₂ (fun a b ↦ a.1 = b.1 ∧ a.2.SameUpToIndex b.2) (m.history es) (n.history es) := by
  induction es generalizing m n with
  | nil => exact .nil
  | cons e es ih =>
    obtain ⟨hr, hs⟩ := h.respond e
    exact .cons ⟨hr, hs⟩ (ih hs)

def indexed (index : UInt16) : Machine :=
  { poised [0xF0, 0x1E, 0xF0, 0x33, 0xF1, 0x55, 0xF2, 0x65, 0xD1, 0x25] with
    state.registers.v := Vector.replicate 16 5
    state.registers.index := index }

theorem indexed_alike_across_wrap :
    (indexed 0xFFE).SameUpToIndex (indexed 0xFFFE) ∧
    ((indexed 0xFFE).respond (.cpu .released)).1.state.registers.index = 0x1003 ∧
    ((indexed 0xFFFE).respond (.cpu .released)).1.state.registers.index = 3 ∧
    List.Forall₂ (fun a b ↦ a.1 = b.1 ∧ a.2.SameUpToIndex b.2)
      ((indexed 0xFFE).history (List.replicate 5 (.cpu .released) ++ [.timer, .take]))
      ((indexed 0xFFFE).history (List.replicate 5 (.cpu .released) ++ [.timer, .take])) := by
  have h : (indexed 0xFFE).SameUpToIndex (indexed 0xFFFE) :=
    ⟨rfl, rfl, ⟨⟨rfl, rfl, rfl⟩, rfl, rfl, rfl, rfl, rfl, rfl⟩, rfl, rfl⟩
  exact ⟨h, by decide +kernel, by decide +kernel, index_unobservable_beyond_memory h _⟩

end Machine

end Chip8
