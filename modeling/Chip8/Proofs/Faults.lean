import Chip8.Proofs.Fetch
import Chip8.Proofs.Run

namespace Chip8

namespace CallStack

variable {s : CallStack} {f : Fault}

theorem pop_eq_error_iff : s.pop = .error f ↔ s.returns = [] ∧ f = .stackUnderflow := by
  rw [pop]
  cases s.returns with
  | nil => simp [eq_comm]
  | cons a rest => simp

theorem push_eq_error_iff {a : UInt16} :
    s.push a = .error f ↔ 16 ≤ s.size ∧ f = .stackOverflow := by
  rw [push, depth]
  split
  · simp only [reduceCtorEq, false_iff]
    omega
  · simp only [Except.error.injEq]
    constructor
    · rintro rfl
      exact ⟨by omega, rfl⟩
    · rintro ⟨-, rfl⟩
      rfl

theorem length_frames (s : CallStack) : s.frames.length = s.size := List.length_reverse

theorem frames_eq_nil_iff : s.frames = [] ↔ s.returns = [] := List.reverse_eq_nil_iff

end CallStack

/-- The instruction raises the fault when it finds this stack: it is unknown, it returns although no
call is open, or it calls although sixteen are. -/
inductive Instruction.Raises (stack : CallStack) : Instruction → Fault → Prop
  | unknown (w : UInt16) : Raises stack (.unknown w) .unknownOpcode
  | underflow : stack.frames = [] → Raises stack .ret .stackUnderflow
  | overflow (target : UInt16) : 16 ≤ stack.frames.length →
      Raises stack (.call target) .stackOverflow

namespace State

variable {s t : State} {d : Dialect} {keys : Keypad} {i : Instruction} {f : Fault} {r : FaultReport}

theorem raises_of_execute (h : s.execute d keys i = .fault f) : i.Raises s.stack f := by
  cases i with
  | ret =>
    simp only [execute] at h
    cases hp : s.stack.pop with
    | ok t => simp [hp] at h
    | error g =>
      obtain ⟨hs, rfl⟩ := CallStack.pop_eq_error_iff.mp hp
      simp only [hp] at h
      cases h
      exact .underflow (CallStack.frames_eq_nil_iff.mpr hs)
  | call target =>
    simp only [execute] at h
    cases hp : s.stack.push s.registers.pc with
    | ok t => simp [hp] at h
    | error g =>
      obtain ⟨hs, rfl⟩ := CallStack.push_eq_error_iff.mp hp
      simp only [hp] at h
      cases h
      rw [← CallStack.length_frames] at hs
      exact .overflow target hs
  | waitForKey x =>
    simp only [execute, waitForKey] at h
    split at h <;> cases h
  | unknown w =>
    cases h
    exact .unknown w
  | _ => cases h

theorem execute_of_raises (d : Dialect) (keys : Keypad) (h : i.Raises s.stack f) :
    s.execute d keys i = .fault f := by
  cases h with
  | unknown w => rfl
  | underflow hs =>
    have hp := CallStack.pop_eq_error_iff.mpr ⟨CallStack.frames_eq_nil_iff.mp hs, rfl⟩
    simp only [execute, hp]
  | overflow target hs =>
    rw [CallStack.length_frames] at hs
    have hp : s.stack.push s.registers.pc = .error .stackOverflow :=
      CallStack.push_eq_error_iff.mpr ⟨hs, rfl⟩
    simp only [execute, hp]

theorem eq_of_execute_blocked (h : s.execute d keys i = .blocked t) :
    ∃ latch, t = { s with latch, registers := s.registers.rewind } := by
  cases i with
  | waitForKey x =>
    simp only [execute, waitForKey] at h
    split at h
    · cases h
      exact ⟨_, rfl⟩
    · cases h
  | ret | call target =>
    simp only [execute] at h
    split at h <;> cases h
  | _ => cases h

/-- What a step can do: it retires the fetched instruction, it waits at it, or the instruction
raises a fault. -/
theorem step_cases (s : State) (d : Dialect) (keys : Keypad) :
    (∃ t, s.fetched.execute d keys s.instruction = .retired t ∧
      s.step d keys = (t, .retired s.registers.fetchAddress s.instruction)) ∨
    (∃ latch, s.step d keys = ({ s with latch, registers.pc := s.registers.fetchAddress },
      .awaitingKey s.registers.fetchAddress)) ∨
    ∃ f, s.instruction.Raises s.stack f ∧
      s.step d keys = (s.fetched, .fault ⟨f, s.registers.fetchAddress, s.fetchedWord⟩) := by
  cases he : s.fetched.execute d keys s.instruction with
  | retired t => exact .inl ⟨t, rfl, step_of_retired rfl he⟩
  | blocked t =>
    obtain ⟨latch, rfl⟩ := eq_of_execute_blocked he
    refine .inr (.inl ⟨latch, ?_⟩)
    rw [step_of_blocked rfl he, fetched, withRegisters, Registers.rewind_fetched]
  | fault f => exact .inr (.inr ⟨f, raises_of_execute (s := s.fetched) he, step_of_fault rfl he⟩)

theorem step_eq_fault_iff : (s.step d keys).2 = .fault r ↔
    s.instruction.Raises s.stack r.fault ∧ r.address = s.registers.fetchAddress ∧
      r.word = s.fetchedWord := by
  constructor
  · intro h
    obtain ⟨t, -, hs⟩ | ⟨latch, hs⟩ | ⟨f, hf, hs⟩ := s.step_cases d keys
    · rw [hs] at h
      cases h
    · rw [hs] at h
      cases h
    · rw [hs] at h
      cases h
      exact ⟨hf, rfl, rfl⟩
  · rintro ⟨hr, ha, hw⟩
    have he : s.fetched.execute d keys s.instruction = .fault r.fault := execute_of_raises d keys hr
    rw [step_of_fault rfl he, ← ha, ← hw]

theorem step_state_of_fault (h : (s.step d keys).2 = .fault r) : (s.step d keys).1 = s.fetched := by
  obtain ⟨t, -, hs⟩ | ⟨latch, hs⟩ | ⟨f, -, hs⟩ := s.step_cases d keys
  · rw [hs] at h
    cases h
  · rw [hs] at h
    cases h
  · rw [hs]

end State

namespace Tally

theorem toNat_bump32 (n : UInt32) : (bump32 n).toNat = min (n.toNat + 1) 0xFFFFFFFF := by
  have hlt := n.toNat_lt
  rw [bump32]
  split
  · subst n
    rfl
  · have hn : n.toNat ≠ (0xFFFFFFFF : UInt32).toNat := fun he ↦ ‹¬ n = _› (UInt32.toNat_inj.mp he)
    simp only [UInt32.reduceToNat] at hn
    rw [UInt32.toNat_add, UInt32.toNat_one]
    omega

/-- The second tally is the first one with the fault reported: the report is the last one, and the
counter of its kind is one higher unless it was full. -/
structure Reports (t : Tally) (r : FaultReport) (u : Tally) : Prop where
  lastFault : u.lastFault = some r
  decodeFaults : u.decodeFaults.toNat =
    if r.fault = .unknownOpcode then min (t.decodeFaults.toNat + 1) 0xFFFFFFFF
    else t.decodeFaults.toNat
  stackFaults : u.stackFaults.toNat =
    if r.fault = .unknownOpcode then t.stackFaults.toNat
    else min (t.stackFaults.toNat + 1) 0xFFFFFFFF
  instructions : u.instructions = t.instructions
  keyWaits : u.keyWaits = t.keyWaits
  timerTicks : u.timerTicks = t.timerTicks
  frames : u.frames = t.frames

theorem reports_recordFault (t : Tally) (r : FaultReport) : t.Reports r (t.recordFault r) := by
  obtain ⟨f, p, w⟩ := r
  cases f with
  | unknownOpcode => exact ⟨rfl, toNat_bump32 _, rfl, rfl, rfl, rfl, rfl⟩
  | stackUnderflow | stackOverflow => exact ⟨rfl, rfl, toNat_bump32 _, rfl, rfl, rfl, rfl⟩

end Tally

namespace Machine

/-- A CPU tick reports a fault exactly if the fetched word raises it, and the report names the
fault, the address and the word. Of the state, a fault moves the program counter alone, behind the
word; of the tally it changes the last report and the counter of its kind. -/
theorem fault_exact_and_atomic (m : Machine) (keys : Keypad) (r : FaultReport) :
    ((m.cpuTick keys).2 = .fault r ↔
      (Instruction.decode m.state.fetchedWord).Raises m.state.stack r.fault ∧
        r.address = m.state.registers.fetchAddress ∧ r.word = m.state.fetchedWord) ∧
    ((m.cpuTick keys).2 = .fault r →
      (m.cpuTick keys).1.state = { m.state with registers.pc := r.address + 2 } ∧
        m.tally.Reports r (m.cpuTick keys).1.tally ∧
        (m.cpuTick keys).1.config = m.config ∧ (m.cpuTick keys).1.program = m.program ∧
        (m.cpuTick keys).1.streams = m.streams) := by
  refine ⟨State.step_eq_fault_iff, fun h ↦ ?_⟩
  have ha : r.address = m.state.registers.fetchAddress := (State.step_eq_fault_iff.mp h).2.1
  have hs : (m.cpuTick keys).1.state = m.state.fetched := State.step_state_of_fault h
  have ht : (m.cpuTick keys).1.tally = m.tally.recordFault r := congrArg m.tally.record h
  refine ⟨?_, ?_, rfl, rfl, rfl⟩
  · rw [hs, ha]
    rfl
  · rw [ht]
    exact Tally.reports_recordFault m.tally r

def overfullCall : Machine :=
  { poised [0x24, 0x56] with
    state.registers.pc := 0x1000
    state.stack := ⟨List.replicate 17 0x300⟩ }

theorem overfull_call_faults :
    (overfullCall.cpuTick .released).2 = .fault ⟨.stackOverflow, 0, 0x2456⟩ ∧
    (overfullCall.cpuTick .released).1.state = { overfullCall.state with registers.pc := 2 } ∧
    overfullCall.tally.Reports ⟨.stackOverflow, 0, 0x2456⟩
      (overfullCall.cpuTick .released).1.tally := by
  have h := fault_exact_and_atomic overfullCall .released ⟨.stackOverflow, 0, 0x2456⟩
  have hw : overfullCall.state.fetchedWord = 0x2456 := by decide +kernel
  have hf : (overfullCall.cpuTick .released).2 = .fault ⟨.stackOverflow, 0, 0x2456⟩ := by
    rw [h.1, hw]
    exact ⟨.overflow 0x456 (by decide), rfl, rfl⟩
  obtain ⟨hs, ht, -⟩ := h.2 hf
  exact ⟨hf, hs, ht⟩

end Machine

end Chip8
