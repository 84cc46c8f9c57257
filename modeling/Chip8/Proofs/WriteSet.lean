import Chip8.Proofs.ControlFlow
import Chip8.Proofs.KeyWait
import Chip8.Proofs.RandomDraws
import Chip8.Proofs.Reset
import Chip8.Proofs.Writes

namespace Chip8

inductive Timer where
  | delay
  | sound

namespace Timer

def value (t : Timers) : Timer → UInt8
  | delay => t.delay
  | sound => t.sound

def setter (x : Register) : Timer → Instruction
  | delay => .setDelay x
  | sound => .setSound x

end Timer

namespace Instruction

/-- The instruction stores to the cell `c` when the index is `a`: digits go to three cells from the
index on, registers to one each. -/
inductive StoresAt (a : UInt16) : Instruction → Fin 4096 → Prop
  | digit (x : Register) {k : Nat} (hk : k ≤ 2) {c : Fin 4096}
      (hc : c.val = (a.toNat + k) % 4096) : StoresAt a (.storeDecimal x) c
  | register (x : Register) {k : Nat} (hk : k ≤ x.val) {c : Fin 4096}
      (hc : c.val = (a.toNat + k) % 4096) : StoresAt a (.storeRegisters x) c

/-- The instruction writes the register `r`: as its own result, as the register of the latch, among
the registers that it loads, or as the flag. -/
inductive WritesTo (latch : KeyLatch) : Instruction → Register → Prop
  | setByte (x : Register) (value : UInt8) : WritesTo latch (.setByte x value) x
  | addByte (x : Register) (value : UInt8) : WritesTo latch (.addByte x value) x
  | compute (op : Operation) (x y : Register) : WritesTo latch (.compute op x y) x
  | random (x : Register) (mask : UInt8) : WritesTo latch (.random x mask) x
  | readDelay (x : Register) : WritesTo latch (.readDelay x) x
  | waitForKey (x : Register) {r : Register} {k : UInt8} (h : latch = .awaitingRelease r k) :
      WritesTo latch (.waitForKey x) r
  | loadRegisters {x y : Register} (h : y ≤ x) : WritesTo latch (.loadRegisters x) y
  | flag {op : Operation} (h : op ≠ .copy) (x y : Register) :
      WritesTo latch (.compute op x y) .flag
  | collision (x y : Register) (height : UInt8) : WritesTo latch (.draw x y height) .flag

inductive MovesIndex (d : Dialect) : Instruction → Prop
  | setIndex (address : UInt16) : MovesIndex d (.setIndex address)
  | addToIndex (x : Register) : MovesIndex d (.addToIndex x)
  | selectGlyph (x : Register) : MovesIndex d (.selectGlyph x)
  | storeRegisters (h : d.advancesIndex = true) (x : Register) : MovesIndex d (.storeRegisters x)
  | loadRegisters (h : d.advancesIndex = true) (x : Register) : MovesIndex d (.loadRegisters x)

variable {i : Instruction}

theorem eq_of_part?_memory (h : i.part? = some .memory) :
    (∃ x, i = .storeDecimal x) ∨ ∃ x, i = .storeRegisters x := by
  cases i with
  | storeDecimal x => exact .inl ⟨x, rfl⟩
  | storeRegisters x => exact .inr ⟨x, rfl⟩
  | _ => cases h

theorem eq_of_part?_timers (h : i.part? = some .timers) :
    ∃ (T : Timer) (x : Register), i = T.setter x := by
  cases i with
  | setDelay x => exact ⟨.delay, x, rfl⟩
  | setSound x => exact ⟨.sound, x, rfl⟩
  | _ => cases h

end Instruction

namespace Registers

variable {r q : Registers} {x y z : Register} {value : UInt8}

theorem get_skipIf (c : Bool) (z : Register) : (r.skipIf c).get z = r.get z := by
  cases c <;> rfl

theorem eq_flag_of_apply_ne {change : FlagChange} (h : (change.apply r).get z ≠ r.get z) :
    change ≠ .keep ∧ z = .flag := by
  cases change with
  | keep => exact absurd rfl h
  | clear | set on => exact ⟨nofun, eq_of_get_set_ne h⟩

theorem skipIf_index (c : Bool) : (r.skipIf c).index = r.index := by
  cases c <;> rfl

theorem compute_index (d : Dialect) (op : Operation) (x y : Register) :
    (r.compute d op x y).index = r.index := by
  simp only [compute]
  generalize op.apply _ _ = result
  obtain ⟨value, keep | clear | on⟩ := result <;> rfl

theorem advancesIndex_of_ne {d : Dialect} (h : r.indexAfterTransfer d x ≠ r.index) :
    d.advancesIndex = true := by
  refine Decidable.byContradiction fun hd ↦ h ?_
  rw [indexAfterTransfer, if_neg hd]

theorem writesTo_of_compute {d : Dialect} {op : Operation} {latch : KeyLatch}
    (h : (r.compute d op x y).get z ≠ r.get z) : (Instruction.compute op x y).WritesTo latch z := by
  by_cases hz : z = x
  · rw [hz]
    exact .compute op x y
  · simp only [compute] at h
    rw [← get_set_of_ne (r := r) hz] at h
    obtain ⟨hk, rfl⟩ := eq_flag_of_apply_ne h
    refine .flag ?_ x y
    rintro rfl
    exact hk rfl

theorem mem_of_foldl_set_ne {ys : List Register} {f : Register → UInt8}
    (h : (ys.foldl (fun q y ↦ q.set y (f y)) r).get z ≠ r.get z) : z ∈ ys := by
  induction ys generalizing r with
  | nil => exact absurd rfl h
  | cons y ys ih =>
    by_cases hz : z = y
    · rw [hz]
      exact List.mem_cons_self
    · have hset : (r.set y (f y)).get z = r.get z := get_set_of_ne hz
      rw [List.foldl_cons, ← hset] at h
      exact List.mem_cons_of_mem y (ih h)

end Registers

theorem Register.mem_through {x y : Register} : y ∈ through x ↔ y ≤ x := by
  decide +revert

theorem Register.length_through (x : Register) : (through x).length = x.val + 1 := by
  rw [through, List.length_take, List.length_finRange]
  omega

namespace State

variable {s t : State} {d : Dialect} {keys : Keypad} {i : Instruction} {r : Register}

theorem writesTo_of_execute (h : s.execute d keys i = .retired t)
    (hr : t.registers.get r ≠ s.registers.get r) : i.WritesTo s.latch r := by
  cases i with
  | setByte x value =>
    cases h
    rw [Registers.eq_of_get_set_ne hr]
    exact .setByte x value
  | addByte x value =>
    cases h
    rw [Registers.eq_of_get_set_ne hr]
    exact .addByte x value
  | compute op x y =>
    cases h
    exact Registers.writesTo_of_compute hr
  | random x mask =>
    cases h
    rw [Registers.eq_of_get_set_ne hr]
    exact .random x mask
  | draw x y height =>
    cases h
    rw [Registers.eq_of_get_set_ne hr]
    exact .collision x y height
  | readDelay x =>
    cases h
    rw [Registers.eq_of_get_set_ne hr]
    exact .readDelay x
  | waitForKey x =>
    simp only [execute, waitForKey] at h
    obtain ⟨q, k, -, -, hp⟩ | ⟨q, k, hl, -, hp⟩ | ⟨-, -, hp⟩ | ⟨k, -, -, hp⟩ :=
      s.latch.poll_cases x keys
    · rw [hp] at h
      cases h
    · rw [hp] at h
      cases h
      rw [Registers.eq_of_get_set_ne hr]
      exact .waitForKey x hl
    · rw [hp] at h
      cases h
    · rw [hp] at h
      cases h
  | loadRegisters x =>
    cases h
    exact .loadRegisters (Register.mem_through.mp (Registers.mem_of_foldl_set_ne hr))
  | ret =>
    obtain ⟨a, base, -, rfl⟩ := eq_of_execute_ret h
    exact absurd rfl hr
  | call target =>
    obtain ⟨-, rfl⟩ := eq_of_execute_call h
    exact absurd rfl hr
  | skip condition =>
    cases h
    exact absurd (Registers.get_skipIf _ _) hr
  | unknown w => cases h
  | _ =>
    cases h
    exact absurd rfl hr

theorem movesIndex_of_execute (h : s.execute d keys i = .retired t)
    (hi : t.registers.index ≠ s.registers.index) : i.MovesIndex d := by
  cases i with
  | setIndex address => exact .setIndex address
  | addToIndex x => exact .addToIndex x
  | selectGlyph x => exact .selectGlyph x
  | storeRegisters x =>
    cases h
    exact .storeRegisters (Registers.advancesIndex_of_ne hi) x
  | loadRegisters x =>
    cases h
    exact .loadRegisters (Registers.advancesIndex_of_ne hi) x
  | compute op x y =>
    cases h
    exact absurd (Registers.compute_index ..) hi
  | waitForKey x =>
    simp only [execute, waitForKey] at h
    split at h
    · cases h
    · cases h
      exact absurd rfl hi
  | ret =>
    obtain ⟨a, base, -, rfl⟩ := eq_of_execute_ret h
    exact absurd rfl hi
  | call target =>
    obtain ⟨-, rfl⟩ := eq_of_execute_call h
    exact absurd rfl hi
  | skip condition =>
    cases h
    exact absurd (Registers.skipIf_index _) hi
  | unknown w => cases h
  | _ =>
    cases h
    exact absurd rfl hi

theorem storesAt_of_execute {c : Fin 4096} (h : s.execute d keys i = .retired t)
    (hc : t.memory.cells[c] ≠ s.memory.cells[c]) : i.StoresAt s.registers.index c := by
  have hfoot : SameOutside i.part? s t := by
    have hl : (s.execute d keys i).Leaves (SameOutside i.part? s) := execute_footprint
    rwa [h] at hl
  have hne : t.memory ≠ s.memory := fun he ↦ hc (congrArg (·.cells[c]) he)
  obtain ⟨x, rfl⟩ | ⟨x, rfl⟩ :=
    Instruction.eq_of_part?_memory (Decidable.not_imp_symm hfoot.memory hne)
  · cases h
    obtain ⟨k, hk, he⟩ := Memory.cell_of_store_ne hc
    exact .digit x (Nat.le_of_lt_succ hk) he
  · cases h
    obtain ⟨k, hk, he⟩ := Memory.cell_of_store_ne hc
    rw [List.length_map, Register.length_through] at hk
    exact .register x (Nat.le_of_lt_succ hk) he

/-- What belongs neither to the latch nor to the program counter changes only when the fetched
instruction retires. -/
theorem retired_of_ne {α : Type} (f : State → α)
    (hf : ∀ s latch pc, f { s with latch, registers.pc := pc } = f s)
    (h : f (s.step d keys).1 ≠ f s) :
    s.fetched.execute d keys s.instruction = .retired (s.step d keys).1 ∧
      (s.step d keys).2 = .retired s.registers.fetchAddress s.instruction := by
  obtain ⟨t, he, hs⟩ | ⟨latch, hs⟩ | ⟨fault, -, hs⟩ := s.step_cases d keys
  · rw [hs]
    exact ⟨he, rfl⟩
  · rw [hs] at h
    exact absurd (hf s latch _) h
  · rw [hs] at h
    exact absurd (hf s s.latch _) h

theorem frames_of_stack_ne (h : (s.step d keys).1.stack ≠ s.stack) :
    (∃ p target, (s.step d keys).2 = .retired p (.call target) ∧
      (s.step d keys).1.stack.frames = s.stack.frames ++ [p + 2]) ∨
    ∃ p a, (s.step d keys).2 = .retired p .ret ∧
      s.stack.frames = (s.step d keys).1.stack.frames ++ [a] ∧
      (s.step d keys).1.registers.pc = a := by
  obtain ⟨he, ho⟩ := retired_of_ne (·.stack) (fun _ _ _ ↦ rfl) h
  have hp := Decidable.not_imp_symm (s.step_footprint d keys).stack h
  obtain hi | ⟨target, hi⟩ := Instruction.eq_of_part?_stack hp
  · rw [hi] at he ho
    obtain ⟨a, base, hr, ht⟩ := eq_of_execute_ret he
    have hr : s.stack.returns = a :: base := hr
    refine .inr ⟨_, a, ho, ?_, congrArg (·.registers.pc) ht⟩
    rw [ht, CallStack.frames, hr, List.reverse_cons]
    rfl
  · rw [hi] at he ho
    obtain ⟨-, ht⟩ := eq_of_execute_call he
    refine .inl ⟨_, target, ho, ?_⟩
    rw [ht]
    exact List.reverse_cons

theorem redraw_of_display_ne (h : (s.step d keys).1.display ≠ s.display) :
    (∃ p, (s.step d keys).2 = .retired p .clearScreen) ∨
    ∃ p x y height, (s.step d keys).2 = .retired p (.draw x y height) := by
  obtain ⟨-, ho⟩ := retired_of_ne (·.display) (fun _ _ _ ↦ rfl) h
  have hp := Decidable.not_imp_symm (s.step_footprint d keys).display h
  obtain hi | ⟨x, y, height, hi⟩ := Instruction.eq_of_part?_display hp
  · rw [hi] at ho
    exact .inl ⟨_, ho⟩
  · rw [hi] at ho
    exact .inr ⟨_, x, y, height, ho⟩

theorem eq_of_execute_setter {T U : Timer} {x : Register}
    (h : s.execute d keys (U.setter x) = .retired t)
    (hT : T.value t.timers ≠ T.value s.timers) : T = U := by
  cases T with
  | delay | sound =>
    cases U with
    | delay | sound =>
      cases h
      first | rfl | exact absurd rfl hT

theorem set_of_value_ne {T : Timer} (h : T.value (s.step d keys).1.timers ≠ T.value s.timers) :
    ∃ p x, (s.step d keys).2 = .retired p (T.setter x) := by
  obtain ⟨he, ho⟩ := retired_of_ne (T.value ·.timers) (fun _ _ _ ↦ rfl) h
  have ht : (s.step d keys).1.timers ≠ s.timers := fun ht ↦ h (congrArg T.value ht)
  have hp := Decidable.not_imp_symm (s.step_footprint d keys).timers ht
  obtain ⟨U, x, hi⟩ := Instruction.eq_of_part?_timers hp
  rw [hi] at he ho
  obtain rfl := eq_of_execute_setter (s := s.fetched) he h
  exact ⟨_, x, ho⟩

theorem draw_of_random_ne (h : (s.step d keys).1.random ≠ s.random) :
    ∃ p x mask, (s.step d keys).2 = .retired p (.random x mask) := by
  obtain ⟨-, ho⟩ := retired_of_ne (·.random) (fun _ _ _ ↦ rfl) h
  have hp := Decidable.not_imp_symm (s.step_footprint d keys).random h
  obtain ⟨x, mask, hi⟩ := Instruction.eq_of_part?_random hp
  rw [hi] at ho
  exact ⟨_, x, mask, ho⟩

theorem step_eq_retired_iff {p : UInt16} : (s.step d keys).2 = .retired p i ↔
    (∀ f, ¬ s.instruction.Raises s.stack f) ∧ ¬ s.instruction.Waits s.latch keys ∧
      p = s.registers.fetchAddress ∧ i = s.instruction := by
  constructor
  · intro h
    obtain ⟨hp, hi, -⟩ := eq_of_step_retired h
    refine ⟨fun f hf ↦ ?_, fun hw ↦ ?_, hp, hi⟩
    · have hfault : (s.step d keys).2 = .fault ⟨f, s.registers.fetchAddress, s.fetchedWord⟩ :=
        step_eq_fault_iff.mpr ⟨hf, rfl, rfl⟩
      cases h.symm.trans hfault
    · cases h.symm.trans (step_eq_awaitingKey_iff.mpr ⟨hw, rfl⟩)
  · rintro ⟨hf, hw, rfl, rfl⟩
    cases ho : (s.step d keys).2 with
    | retired p i =>
      obtain ⟨rfl, rfl, -⟩ := eq_of_step_retired ho
      rfl
    | awaitingKey p => exact absurd (step_eq_awaitingKey_iff.mp ho).1 hw
    | fault r => exact absurd (step_eq_fault_iff.mp ho).1 (hf r.fault)

/-- From `s` to `t`, with the outcome `o`. The fetched instruction and the state before decide on
the outcome, each component has changed only as its instructions change it, and the program counter
is where the outcome puts it. -/
structure StepsWithin (s : State) (d : Dialect) (keys : Keypad) (o : Outcome) (t : State) :
    Prop where
  retires (p : UInt16) (i : Instruction) : o = .retired p i ↔
    (∀ f, ¬ s.instruction.Raises s.stack f) ∧ ¬ s.instruction.Waits s.latch keys ∧
      p = s.registers.fetchAddress ∧ i = s.instruction
  awaits (p : UInt16) : o = .awaitingKey p ↔
    s.instruction.Waits s.latch keys ∧ p = s.registers.fetchAddress
  faults (r : FaultReport) : o = .fault r ↔
    s.instruction.Raises s.stack r.fault ∧ r.address = s.registers.fetchAddress ∧
      r.word = s.fetchedWord
  memory : ∀ c : Fin 4096, t.memory.cells[c] ≠ s.memory.cells[c] →
    ∃ p i, o = .retired p i ∧ i.StoresAt s.registers.index c
  stack : t.stack ≠ s.stack →
    (∃ p target, o = .retired p (.call target) ∧ t.stack.frames = s.stack.frames ++ [p + 2]) ∨
    ∃ p a, o = .retired p .ret ∧ s.stack.frames = t.stack.frames ++ [a] ∧ t.registers.pc = a
  display : t.display ≠ s.display →
    (∃ p, o = .retired p .clearScreen) ∨ ∃ p x y height, o = .retired p (.draw x y height)
  size : t.display.frame.SameSize s.display.frame
  delay : t.timers.delay ≠ s.timers.delay → ∃ p x, o = .retired p (.setDelay x)
  sound : t.timers.sound ≠ s.timers.sound → ∃ p x, o = .retired p (.setSound x)
  latch : t.latch ≠ s.latch → ∃ x, s.instruction = .waitForKey x
  random : t.random ≠ s.random → ∃ p x mask, o = .retired p (.random x mask)
  index : t.registers.index ≠ s.registers.index → ∃ p i, o = .retired p i ∧ i.MovesIndex d
  registers : ∀ r, t.registers.get r ≠ s.registers.get r →
    ∃ p i, o = .retired p i ∧ i.WritesTo s.latch r
  pc : t.registers.pc.toNat = s.landing d keys o

/-- A CPU tick of any state, whatever keys are down and whatever becomes of it, changes nothing
beside what the fetched instruction is there to change. -/
theorem step_stepsWithin (s : State) (d : Dialect) (keys : Keypad) :
    s.StepsWithin d keys (s.step d keys).2 (s.step d keys).1 where
  retires _ _ := step_eq_retired_iff
  awaits _ := step_eq_awaitingKey_iff
  faults _ := step_eq_fault_iff
  memory c hc := by
    obtain ⟨he, ho⟩ := retired_of_ne (·.memory.cells[c]) (fun _ _ _ ↦ rfl) hc
    exact ⟨_, _, ho, storesAt_of_execute (s := s.fetched) he hc⟩
  stack := frames_of_stack_ne
  display := redraw_of_display_ne
  size := s.sameSize_step d keys
  delay := set_of_value_ne (T := .delay)
  sound := set_of_value_ne (T := .sound)
  latch hl :=
    Instruction.eq_of_part?_latch (Decidable.not_imp_symm (s.step_footprint d keys).latch hl)
  random := draw_of_random_ne
  index hi := by
    obtain ⟨he, ho⟩ := retired_of_ne (·.registers.index) (fun _ _ _ ↦ rfl) hi
    exact ⟨_, _, ho, movesIndex_of_execute (s := s.fetched) he hi⟩
  registers r hr := by
    obtain ⟨he, ho⟩ := retired_of_ne (·.registers.get r) (fun _ _ _ ↦ rfl) hr
    exact ⟨_, _, ho, writesTo_of_execute (s := s.fetched) he hr⟩
  pc := s.toNat_pc_step d keys

end State

end Chip8
