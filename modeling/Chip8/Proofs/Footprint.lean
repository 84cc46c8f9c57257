import Chip8.Proofs.Fetch

namespace Chip8

inductive Part where
  | memory
  | stack
  | display
  | timers
  | latch
  | random
deriving DecidableEq

namespace Instruction

variable {i : Instruction}

def part? : Instruction → Option Part
  | storeDecimal _ | storeRegisters _ => some .memory
  | ret | call _ => some .stack
  | clearScreen | draw _ _ _ => some .display
  | setDelay _ | setSound _ => some .timers
  | waitForKey _ => some .latch
  | random _ _ => some .random
  | _ => none

theorem eq_of_part?_stack (h : i.part? = some .stack) : i = .ret ∨ ∃ a, i = .call a := by
  cases i with
  | ret => exact .inl rfl
  | call a => exact .inr ⟨a, rfl⟩
  | _ => cases h

theorem eq_of_part?_display (h : i.part? = some .display) :
    i = .clearScreen ∨ ∃ x y height, i = .draw x y height := by
  cases i with
  | clearScreen => exact .inl rfl
  | draw x y height => exact .inr ⟨x, y, height, rfl⟩
  | _ => cases h

theorem eq_of_part?_latch (h : i.part? = some .latch) : ∃ x, i = .waitForKey x := by
  cases i with
  | waitForKey x => exact ⟨x, rfl⟩
  | _ => cases h

end Instruction

def Effect.Leaves (P : State → Prop) : Effect → Prop
  | .retired t => P t
  | .blocked t => P t
  | .fault _ => True

namespace State

variable {s t : State} {d : Dialect} {keys : Keypad} {i : Instruction}

structure SameOutside (p : Option Part) (s t : State) : Prop where
  memory : p ≠ some .memory → t.memory = s.memory
  stack : p ≠ some .stack → t.stack = s.stack
  display : p ≠ some .display → t.display = s.display
  timers : p ≠ some .timers → t.timers = s.timers
  latch : p ≠ some .latch → t.latch = s.latch
  random : p ≠ some .random → t.random = s.random

theorem sameOutside_self (p : Option Part) (s : State) : SameOutside p s s :=
  ⟨fun _ ↦ rfl, fun _ ↦ rfl, fun _ ↦ rfl, fun _ ↦ rfl, fun _ ↦ rfl, fun _ ↦ rfl⟩

theorem execute_footprint : (s.execute d keys i).Leaves (SameOutside i.part? s) := by
  have same := sameOutside_self i.part? s
  cases i with
  | storeDecimal x | storeRegisters x => exact { same with memory := fun h ↦ absurd rfl h }
  | ret =>
    simp only [execute]
    cases s.stack.pop with
    | ok r => exact { same with stack := fun h ↦ absurd rfl h }
    | error f => trivial
  | call target =>
    simp only [execute]
    cases s.stack.push s.registers.pc with
    | ok stack => exact { same with stack := fun h ↦ absurd rfl h }
    | error f => trivial
  | clearScreen | draw x y height => exact { same with display := fun h ↦ absurd rfl h }
  | setDelay x | setSound x => exact { same with timers := fun h ↦ absurd rfl h }
  | waitForKey x =>
    simp only [execute, waitForKey]
    obtain ⟨latch, _ | ⟨r, k⟩⟩ := s.latch.poll x keys
    · exact { same with latch := fun h ↦ absurd rfl h }
    · exact { same with latch := fun h ↦ absurd rfl h }
  | random x mask => exact { same with random := fun h ↦ absurd rfl h }
  | unknown w => trivial
  | _ => exact { same with }

theorem step_of_leaves {P : State → Prop} (hf : P s.fetched)
    (h : (s.fetched.execute d keys s.instruction).Leaves P) : P (s.step d keys).1 := by
  generalize he : s.fetched.execute d keys s.instruction = a at h
  cases a with
  | retired t =>
    rw [step_of_retired rfl he]
    exact h
  | blocked t =>
    rw [step_of_blocked rfl he]
    exact h
  | fault f =>
    rw [step_of_fault rfl he]
    exact hf

/-- A step changes the part of its instruction and the registers at most. -/
theorem step_footprint (s : State) (d : Dialect) (keys : Keypad) :
    SameOutside s.instruction.part? s (s.step d keys).1 := by
  have h : SameOutside s.instruction.part? s.fetched (s.step d keys).1 :=
    step_of_leaves (sameOutside_self _ _) execute_footprint
  exact { h with }

end State

end Chip8
