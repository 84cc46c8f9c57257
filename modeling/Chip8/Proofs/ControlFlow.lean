import Chip8.Proofs.Faults
import Chip8.Proofs.Footprint
import Chip8.Proofs.Subroutine

namespace Chip8

namespace Registers

variable (r : Registers) (d : Dialect)

@[simp] theorem compute_pc (op : Operation) (x y : Register) : (r.compute d op x y).pc = r.pc := by
  simp only [compute]
  generalize op.apply _ _ = result
  obtain ⟨value, keep | clear | on⟩ := result <;> rfl

theorem toNat_jumpTarget (address : UInt16) : (r.jumpTarget d address).toNat =
    (address.toNat + (r.get (jumpRegister d address)).toNat) % 4096 := by
  have hm : Layout.addressMask.toNat = 2 ^ 12 - 1 := rfl
  rw [jumpTarget, UInt16.toNat_and, hm, Nat.and_two_pow_sub_one_eq_mod, UInt16.toNat_add,
    UInt8.toNat_toUInt16]
  omega

/-- No way in which a tick adds to the program counter or subtracts from it wraps around: not the
fetch, not a skip behind it, and not the way back. -/
structure Unwrapped : Prop where
  fetch : r.fetched.pc.toNat = r.fetchAddress.toNat + 2
  skip : (r.fetched.skipIf true).pc.toNat = r.fetched.pc.toNat + 2
  rewind : r.fetched.rewind.pc.toNat + 2 = r.fetched.pc.toNat

theorem toNat_fetchAddress_le : r.fetchAddress.toNat ≤ 0xFFE :=
  UInt16.le_iff_toNat_le.mp r.fetchAddress_le

theorem toNat_fetched_pc : r.fetched.pc.toNat = r.fetchAddress.toNat + 2 := by
  have hp := r.toNat_fetchAddress_le
  have hadd : (r.fetchAddress + 2).toNat = (r.fetchAddress.toNat + 2) % 2 ^ 16 :=
    UInt16.toNat_add ..
  rw [fetched, hadd]
  omega

theorem fetched_pc_mem : 2 ≤ r.fetched.pc ∧ r.fetched.pc ≤ 0x1000 := by
  have hp := r.toNat_fetchAddress_le
  rw [UInt16.le_iff_toNat_le, UInt16.le_iff_toNat_le, r.toNat_fetched_pc]
  simp only [UInt16.reduceToNat]
  omega

theorem toNat_skipIf_pc (c : Bool) :
    (r.fetched.skipIf c).pc.toNat = r.fetchAddress.toNat + if c then 4 else 2 := by
  have hp := r.toNat_fetchAddress_le
  have hf := r.toNat_fetched_pc
  cases c with
  | false => exact hf
  | true =>
    have hadd : (r.fetched.pc + 2).toNat = (r.fetched.pc.toNat + 2) % 2 ^ 16 := UInt16.toNat_add ..
    simp only [skipIf, if_true, hadd]
    omega

theorem unwrapped : r.Unwrapped := by
  have hf := r.toNat_fetched_pc
  refine ⟨hf, ?_, ?_⟩
  · rw [r.toNat_skipIf_pc, hf]
    rfl
  · rw [rewind_fetched, hf]

end Registers

namespace Instruction

def target? : Instruction → Option UInt16
  | jump target => some target
  | call target => some target
  | _ => none

variable {w a : UInt16}

theorem toNat_addressField (w : UInt16) : (addressField w).toNat = w.toNat % 4096 := by
  rw [addressField, UInt16.toNat_ofNat']
  omega

theorem decode_cases {P : Instruction → Prop} (w : UInt16)
    (plain : w.toNat / 4096 = 0x0 → P ((plain? w.toNat).getD (.unknown w)))
    (jump : w.toNat / 4096 = 0x1 → P (.jump (addressField w)))
    (call : w.toNat / 4096 = 0x2 → P (.call (addressField w)))
    (equalsByte : w.toNat / 4096 = 0x3 → P (.skip (.equalsByte (xField w) (byteField w))))
    (differsFromByte : w.toNat / 4096 = 0x4 →
      P (.skip (.differsFromByte (xField w) (byteField w))))
    (equalsRegister : w.toNat / 4096 = 0x5 → P (.skip (.equalsRegister (xField w) (yField w))))
    (setByte : w.toNat / 4096 = 0x6 → P (.setByte (xField w) (byteField w)))
    (addByte : w.toNat / 4096 = 0x7 → P (.addByte (xField w) (byteField w)))
    (compute : w.toNat / 4096 = 0x8 →
      P (((operation? (nibbleField w)).map (.compute · (xField w) (yField w))).getD (.unknown w)))
    (differsFromRegister : w.toNat / 4096 = 0x9 →
      P (.skip (.differsFromRegister (xField w) (yField w))))
    (setIndex : w.toNat / 4096 = 0xA → P (.setIndex (addressField w)))
    (jumpWithOffset : w.toNat / 4096 = 0xB → P (.jumpWithOffset (addressField w)))
    (random : w.toNat / 4096 = 0xC → P (.random (xField w) (byteField w)))
    (draw : w.toNat / 4096 = 0xD → P (.draw (xField w) (yField w) (.ofNat (nibbleField w))))
    (keySkip : w.toNat / 4096 = 0xE →
      P ((keySkip? (xField w) (w.toNat % 256)).getD (.unknown w)))
    (transfer : w.toNat / 4096 = 0xF →
      P ((transfer? (xField w) (w.toNat % 256)).getD (.unknown w))) : P (decode w) := by
  have hw := w.toNat_lt
  rw [decode]
  split
  all_goals
    first
      | exact plain ‹_› | exact jump ‹_› | exact call ‹_› | exact equalsByte ‹_›
      | exact differsFromByte ‹_› | exact equalsRegister ‹_› | exact setByte ‹_›
      | exact addByte ‹_› | exact compute ‹_› | exact differsFromRegister ‹_›
      | exact setIndex ‹_› | exact jumpWithOffset ‹_› | exact random ‹_› | exact draw ‹_›
      | exact keySkip ‹_›
      | -- No first digit is left but the last one.
        refine transfer ?_
        simp only [imp_false] at *
        omega

theorem eq_addressField_of_target? (h : (decode w).target? = some a) : a = addressField w := by
  revert h
  refine decode_cases (P := fun i ↦ i.target? = some a → a = addressField w) w
    ?plain ?jump ?call ?_ ?_ ?_ ?_ ?_ ?compute ?_ ?_ ?_ ?_ ?_ ?keySkip ?transfer
  case plain =>
    intro _ h
    simp only [plain?] at h
    split at h <;> cases h
  case jump | call => exact fun _ h ↦ (Option.some.inj h).symm
  case compute =>
    intro _ h
    cases ho : operation? (nibbleField w) <;> rw [ho] at h <;> cases h
  case keySkip =>
    intro _ h
    simp only [keySkip?] at h
    split at h <;> cases h
  case transfer =>
    intro _ h
    simp only [transfer?] at h
    split at h <;> cases h
  all_goals exact fun _ h ↦ nomatch h

theorem toNat_target_lt (h : (decode w).target? = some a) : a.toNat < 4096 := by
  rw [eq_addressField_of_target? h, toNat_addressField]
  omega

end Instruction

def Outcome.address : Outcome → UInt16
  | retired p _ => p
  | awaitingKey p => p
  | fault report => report.address

namespace State

/-- Where a step with the given outcome leaves the program counter, as a number: at the target of a
jump, at the last return address, at the wait, or behind the instruction and the one it skips. -/
def landing (s : State) (d : Dialect) (keys : Keypad) : Outcome → Nat
  | .retired _ (.jump target) => target.toNat
  | .retired _ (.call target) => target.toNat
  | .retired _ .ret => (s.stack.returns.headD 0).toNat
  | .retired _ (.jumpWithOffset address) =>
    (address.toNat + (s.registers.get (Registers.jumpRegister d address)).toNat) % 4096
  | .retired p (.skip condition) => p.toNat + if condition.holds s.registers keys then 4 else 2
  | .retired p _ => p.toNat + 2
  | .awaitingKey p => p.toNat
  | .fault report => report.address.toNat + 2

def returnsAfter (s : State) : Outcome → List UInt16
  | .retired p (.call _) => (p + 2) :: s.stack.returns
  | .retired _ .ret => s.stack.returns.tail
  | _ => s.stack.returns

variable (s : State) (d : Dialect) (keys : Keypad)

theorem address_step : (s.step d keys).2.address = s.registers.fetchAddress := by
  obtain ⟨t, -, hs⟩ | ⟨latch, hs⟩ | ⟨f, -, hs⟩ := s.step_cases d keys <;> rw [hs] <;> rfl

theorem holds_fetched (condition : Condition) :
    condition.holds s.fetched.registers keys = condition.holds s.registers keys := by
  cases condition <;> rfl

theorem loadFromIndex_pc (x : Register) : (s.loadFromIndex x).pc = s.registers.pc := by
  rw [loadFromIndex]
  refine List.foldlRecOn (motive := fun r : Registers ↦ r.pc = s.registers.pc) _ _ rfl ?_
  intro r hr y _
  exact hr

theorem toNat_pc_step :
    (s.step d keys).1.registers.pc.toNat = s.landing d keys (s.step d keys).2 := by
  have hf : s.fetched.registers.pc.toNat = s.registers.fetchAddress.toNat + 2 :=
    s.registers.toNat_fetched_pc
  obtain ⟨t, he, hs⟩ | ⟨latch, hs⟩ | ⟨f, -, hs⟩ := s.step_cases d keys
  · rw [hs]
    generalize s.instruction = i at he
    cases i with
    | ret =>
      obtain ⟨a, base, hr, rfl⟩ := eq_of_execute_ret he
      have hr : s.stack.returns = a :: base := hr
      show a.toNat = (s.stack.returns.headD 0).toNat
      rw [hr]
      rfl
    | call target =>
      obtain ⟨-, rfl⟩ := eq_of_execute_call he
      rfl
    | jumpWithOffset address =>
      cases he
      exact Registers.toNat_jumpTarget ..
    | skip condition =>
      cases he
      have hskip := s.registers.toNat_skipIf_pc (condition.holds s.fetched.registers keys)
      refine hskip.trans ?_
      rw [holds_fetched]
      rfl
    | compute op x y =>
      cases he
      simp only [withRegisters, Registers.compute_pc]
      exact hf
    | loadRegisters x =>
      cases he
      simp only [loadFromIndex_pc]
      exact hf
    | waitForKey x =>
      simp only [execute, waitForKey] at he
      split at he
      · cases he
      · cases he
        exact hf
    | unknown w => cases he
    | jump target =>
      cases he
      rfl
    | _ =>
      cases he
      exact hf
  · rw [hs]
    rfl
  · rw [hs]
    exact hf

theorem returns_step :
    (s.step d keys).1.stack.returns = s.returnsAfter (s.step d keys).2 := by
  obtain ⟨t, he, hs⟩ | ⟨latch, hs⟩ | ⟨f, -, hs⟩ := s.step_cases d keys
  · have hfoot : SameOutside s.instruction.part? s (s.step d keys).1 := s.step_footprint d keys
    rw [hs] at hfoot ⊢
    generalize s.instruction = i at he hfoot
    cases i with
    | ret =>
      obtain ⟨a, base, hr, rfl⟩ := eq_of_execute_ret he
      have hr : s.stack.returns = a :: base := hr
      rw [returnsAfter, hr]
      rfl
    | call target =>
      obtain ⟨-, rfl⟩ := eq_of_execute_call he
      rfl
    | _ => exact congrArg CallStack.returns (hfoot.stack nofun)
  · rw [hs]
    rfl
  · rw [hs]
    rfl

variable {s d keys}

theorem size_lt_of_call {p target : UInt16} (h : (s.step d keys).2 = .retired p (.call target)) :
    s.stack.size < 16 := by
  obtain ⟨-, -, he⟩ := eq_of_step_retired h
  exact (eq_of_execute_call he).1

end State

end Chip8
