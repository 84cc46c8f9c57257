import Chip8.Proofs.ControlFlow

namespace Chip8

namespace State

variable {s : State} {d : Dialect} {keys : Keypad}

/-- The program counter is at most one skipped instruction behind the end of memory, and the at most
sixteen return addresses lie behind instructions. -/
structure Bounded (s : State) : Prop where
  pc_le : s.registers.pc ≤ 0x1002
  size_le : s.stack.size ≤ 16
  return_mem : ∀ a ∈ s.stack.returns, 2 ≤ a ∧ a ≤ 0x1000

namespace Bounded

theorem landing_le (h : s.Bounded) : s.landing d keys (s.step d keys).2 ≤ 0x1002 := by
  have hp := s.registers.toNat_fetchAddress_le
  have hnext : s.registers.fetchAddress.toNat + 2 ≤ 0x1002 := by omega
  obtain ⟨t, -, hs⟩ | ⟨latch, hs⟩ | ⟨f, -, hs⟩ := s.step_cases d keys
  · rw [hs]
    cases hi : s.instruction with
    | jump target | call target =>
      have hlt : target.toNat < 4096 :=
        Instruction.toNat_target_lt (congrArg Instruction.target? hi)
      show target.toNat ≤ 0x1002
      omega
    | ret =>
      -- The one landing that needs the bound on the return addresses.
      show (s.stack.returns.headD 0).toNat ≤ 0x1002
      cases hr : s.stack.returns with
      | nil => decide
      | cons a base =>
        have ha : a ≤ 0x1000 := (h.return_mem a (hr ▸ List.mem_cons_self)).2
        exact Nat.le_trans (UInt16.le_iff_toNat_le.mp ha) (by decide)
    | jumpWithOffset address =>
      exact Nat.le_trans (Nat.le_of_lt (Nat.mod_lt _ (by decide))) (by decide)
    | skip condition =>
      show s.registers.fetchAddress.toNat + (if _ then 4 else 2) ≤ 0x1002
      split <;> omega
    | _ => exact hnext
  · rw [hs]
    show s.registers.fetchAddress.toNat ≤ 0x1002
    omega
  · rw [hs]
    exact hnext

theorem returnsAfter_mem (h : s.Bounded) :
    ∀ a ∈ s.returnsAfter (s.step d keys).2, 2 ≤ a ∧ a ≤ 0x1000 := by
  cases ho : (s.step d keys).2 with
  | retired p i =>
    obtain ⟨rfl, -, -⟩ := eq_of_step_retired ho
    cases i with
    | call target =>
      -- The address behind a fetched instruction is in bounds wherever the program counter was.
      rw [returnsAfter, List.forall_mem_cons]
      exact ⟨s.registers.fetched_pc_mem, h.return_mem⟩
    | ret =>
      intro a ha
      exact h.return_mem a (List.mem_of_mem_tail ha)
    | _ => exact h.return_mem
  | _ => exact h.return_mem

theorem length_returnsAfter_le (h : s.Bounded) :
    (s.returnsAfter (s.step d keys).2).length ≤ 16 := by
  have hs : s.stack.returns.length ≤ 16 := h.size_le
  cases ho : (s.step d keys).2 with
  | retired p i =>
    cases i with
    | call target => exact size_lt_of_call ho
    | ret =>
      rw [returnsAfter, List.length_tail]
      omega
    | _ => exact hs
  | _ => exact hs

theorem step (h : s.Bounded) (d : Dialect) (keys : Keypad) : (s.step d keys).1.Bounded := by
  constructor
  · rw [UInt16.le_iff_toNat_le, toNat_pc_step]
    exact h.landing_le
  · rw [CallStack.size, returns_step]
    exact h.length_returnsAfter_le
  · rw [returns_step]
    exact h.returnsAfter_mem

end Bounded

theorem bounded_reset (s : State) (p : Program) (random : RandomSource) :
    ({ s.reset p with random } : State).Bounded := by
  refine ⟨?_, Nat.zero_le 16, nofun⟩
  show (0x200 : UInt16) ≤ 0x1002
  decide

/-- The fetched word consists of the cell at the fetch address and the one behind it; neither
address had to be brought back into memory. -/
def FetchesInPlace (s : State) : Prop :=
  ∃ _ : s.registers.fetchAddress.toNat ≤ 0xFFE,
    s.fetchedWord.toNat = 256 * (s.memory.cells[s.registers.fetchAddress.toNat]).toNat +
      (s.memory.cells[s.registers.fetchAddress.toNat + 1]).toNat

theorem fetchesInPlace (s : State) : s.FetchesInPlace := by
  have hp := s.registers.toNat_fetchAddress_le
  have hnext : (s.registers.fetchAddress + 1).toNat = s.registers.fetchAddress.toNat + 1 := by
    rw [UInt16.toNat_add, UInt16.toNat_one]
    omega
  have hcell := Memory.cell_of_lt (a := s.registers.fetchAddress) (by omega)
  have hcell' := Memory.cell_of_lt (a := s.registers.fetchAddress + 1) (by omega)
  refine ⟨hp, ?_⟩
  rw [fetchedWord, Memory.toNat_word, Memory.read, Memory.read]
  simp only [Fin.getElem_fin, hcell, hcell', hnext]

end State

namespace Machine

variable {m : Machine} {rom : List UInt8} {config : Config} {entropy : RandomSource}

theorem bounded_respond (h : m.state.Bounded) (e : Event) : (m.respond e).1.state.Bounded := by
  cases e with
  | cpu keys => exact h.step m.config.dialect keys
  | timer | take => exact ⟨h.pc_le, h.size_le, h.return_mem⟩
  | reset => exact State.bounded_reset m.state m.program _

/-- However a loaded machine was run, its control state is within its bounds. A CPU tick then
fetches both bytes from memory as they lie there, no sum or difference on the way to the next
instruction wraps around, and the program counter ends where numbers say. -/
theorem control_state_bounded (h : load rom config entropy = .ok m) (es : List Event)
    (keys : Keypad) :
    (m.run es).state.Bounded ∧
    ((m.run es).cpuTick keys).2.address = (m.run es).state.registers.fetchAddress ∧
    (m.run es).state.FetchesInPlace ∧
    (m.run es).state.registers.Unwrapped ∧
    ((m.run es).cpuTick keys).1.state.registers.pc.toNat =
      (m.run es).state.landing (m.run es).config.dialect keys ((m.run es).cpuTick keys).2 := by
  refine ⟨?_, State.address_step .., State.fetchesInPlace _, Registers.unwrapped _,
    State.toNat_pc_step ..⟩
  obtain ⟨p, -, rfl⟩ := of_load h
  apply run_induction (P := (·.state.Bounded))
  · exact State.bounded_reset {} p _
  · intro m e _ hm
    exact bounded_respond hm e

/-- A program that writes a skip to the last two cells and jumps there, so that the program counter
gets as far behind the end of memory as it can. -/
theorem control_state_at_bound :
    ∃ m, load [0xAF, 0xFE, 0x60, 0x30, 0x61, 0x30, 0xF1, 0x55, 0x1F, 0xFE] {} (.cycle #[]) = .ok m ∧
      ∃ w, w = m.run (List.replicate 6 (.cpu .released)) ∧
        w.state.registers.pc = 0x1002 ∧ w.state.Bounded ∧ (w.cpuTick .released).2.address = 0 := by
  have hl : load [0xAF, 0xFE, 0x60, 0x30, 0x61, 0x30, 0xF1, 0x55, 0x1F, 0xFE] {} (.cycle #[]) =
    .ok _ := rfl
  obtain ⟨hb, ha, -⟩ := control_state_bounded hl (List.replicate 6 (.cpu .released)) .released
  refine ⟨_, hl, _, rfl, ?_⟩
  generalize hw : run _ _ = w at hb ha ⊢
  have hp : w.state.registers.pc = 0x1002 := by
    rw [← hw]
    decide +kernel
  refine ⟨hp, hb, ?_⟩
  rw [ha, Registers.fetchAddress, hp]
  rfl

end Machine

end Chip8
