import Chip8.Proofs.Footprint
import Chip8.Proofs.Run

namespace Chip8

namespace State

variable {s t : State} {d : Dialect} {keys : Keypad} {a target : UInt16} {base : List UInt16}

theorem execute_ret (d : Dialect) (keys : Keypad) (h : s.stack.returns = a :: base) :
    s.execute d keys .ret = .retired { s with stack := ⟨base⟩, registers.pc := a } := by
  simp only [execute, CallStack.pop, h]

theorem execute_call (d : Dialect) (keys : Keypad) (target : UInt16)
    (h : s.stack.size < CallStack.depth) :
    s.execute d keys (.call target) =
      .retired { s with stack := ⟨s.registers.pc :: s.stack.returns⟩, registers.pc := target } := by
  simp only [execute, CallStack.push, if_pos h]

theorem execute_call_full (d : Dialect) (keys : Keypad) (target : UInt16)
    (h : ¬ s.stack.size < CallStack.depth) :
    s.execute d keys (.call target) = .fault .stackOverflow := by
  simp only [execute, CallStack.push, if_neg h]

theorem eq_of_execute_ret (h : s.execute d keys .ret = .retired t) :
    ∃ a base, s.stack.returns = a :: base ∧
      t = { s with stack := ⟨base⟩, registers.pc := a } := by
  cases hs : s.stack.returns with
  | nil =>
    simp only [execute, CallStack.pop, hs] at h
    cases h
  | cons a base =>
    rw [execute_ret d keys hs] at h
    cases h
    exact ⟨a, base, rfl, rfl⟩

theorem eq_of_execute_call (h : s.execute d keys (.call target) = .retired t) :
    s.stack.size < CallStack.depth ∧
      t = { s with stack := ⟨s.registers.pc :: s.stack.returns⟩, registers.pc := target } := by
  by_cases hs : s.stack.size < CallStack.depth
  · rw [execute_call d keys target hs] at h
    cases h
    exact ⟨hs, rfl⟩
  · rw [execute_call_full d keys target hs] at h
    cases h

theorem step_call {p : UInt16} (h : (s.step d keys).2 = .retired p (.call target)) :
    (s.step d keys).1.stack.returns = (p + 2) :: s.stack.returns := by
  obtain ⟨rfl, -, he⟩ := eq_of_step_retired h
  rw [(eq_of_execute_call he).2]
  rfl

/-- A step keeps the frames from `a` down, or it returns to `a` and keeps those below. -/
theorem step_returns_suffix (d : Dialect) (keys : Keypad) (h : a :: base <:+ s.stack.returns) :
    a :: base <:+ (s.step d keys).1.stack.returns ∨
      (s.step d keys).2 = .retired s.registers.fetchAddress .ret ∧
        (s.step d keys).1.registers.pc = a ∧ (s.step d keys).1.stack.returns = base := by
  by_cases hp : s.instruction.part? = some .stack
  · obtain hr | ⟨target, hc⟩ := Instruction.eq_of_part?_stack hp
    · obtain ⟨above, hs⟩ := h
      cases above with
      | nil =>
        rw [step_of_retired hr (execute_ret d keys hs.symm)]
        exact .inr ⟨rfl, rfl, rfl⟩
      | cons b above =>
        rw [step_of_retired hr (execute_ret d keys hs.symm)]
        exact .inl ⟨above, rfl⟩
    · left
      by_cases hs : s.fetched.stack.size < CallStack.depth
      · rw [step_of_retired hc (execute_call d keys target hs)]
        exact h.trans (List.suffix_cons _ _)
      · rw [step_of_fault hc (execute_call_full d keys target hs)]
        exact h
  · left
    rwa [(step_footprint s d keys).stack hp]

end State

namespace Machine

variable {m : Machine} {a : UInt16} {base : List UInt16}

theorem respond_returns_suffix {e : Event} (he : e ≠ .reset)
    (h : a :: base <:+ m.state.stack.returns) :
    a :: base <:+ (m.respond e).1.state.stack.returns ∨
      (∃ q, (m.respond e).2 = .cpu (.retired q .ret)) ∧
        (m.respond e).1.state.registers.pc = a ∧ (m.respond e).1.state.stack.returns = base := by
  cases e with
  | cpu keys =>
    obtain hk | ⟨ho, hp, hs⟩ := State.step_returns_suffix m.config.dialect keys h
    · exact .inl hk
    · exact .inr ⟨⟨_, congrArg Response.cpu ho⟩, hp, hs⟩
  | timer => exact .inl h
  | take => exact .inl h
  | reset => exact absurd rfl he

/-- The frames from `a` down stay as long as the depth never is that of the frames below `a`. -/
theorem run_returns_suffix {es : List Event} (h : a :: base <:+ m.state.stack.returns)
    (hes : .reset ∉ es)
    (hd : ∀ fs, fs <+: es → (m.run fs).state.stack.size ≠ base.length) :
    a :: base <:+ (m.run es).state.stack.returns := by
  induction es generalizing m with
  | nil => exact h
  | cons e es ih =>
    obtain ⟨he, hes⟩ := List.ne_and_not_mem_of_not_mem_cons hes
    refine ih ?_ hes fun fs hfs ↦ hd (e :: fs) ((List.prefix_cons_inj e).mpr hfs)
    obtain hk | ⟨-, -, hs⟩ := respond_returns_suffix (Ne.symm he) h
    · exact hk
    · have hne := hd [e] ((List.prefix_cons_inj e).mpr (List.nil_prefix))
      exact absurd (congrArg List.length hs) hne

/-- After a call that was fetched from `p`, and until the depth is again what it was before the
call, the frames from below the call and `p + 2` lie lowest on the stack. The event that brings
the depth back is a return to `p + 2`, and it restores the stack. -/
theorem call_matched_by_return {keys : Keypad} {p target : UInt16}
    (hc : (m.cpuTick keys).2 = .retired p (.call target)) {es : List Event} (hes : .reset ∉ es)
    (hd : ∀ fs, fs <+: es →
      ((m.cpuTick keys).1.run fs).state.stack.size ≠ m.state.stack.size) :
    m.state.stack.frames ++ [p + 2] <+: ((m.cpuTick keys).1.run es).state.stack.frames ∧
    ∀ e, e ≠ .reset →
      ((m.cpuTick keys).1.run (es ++ [e])).state.stack.size = m.state.stack.size →
      (∃ q, (((m.cpuTick keys).1.run es).respond e).2 = .cpu (.retired q .ret)) ∧
        ((m.cpuTick keys).1.run (es ++ [e])).state.registers.pc = p + 2 ∧
        ((m.cpuTick keys).1.run (es ++ [e])).state.stack = m.state.stack := by
  have h₀ : (m.cpuTick keys).1.state.stack.returns = (p + 2) :: m.state.stack.returns :=
    State.step_call hc
  have h := run_returns_suffix ⟨[], h₀.symm⟩ hes hd
  refine ⟨?_, fun e he hsize ↦ ?_⟩
  · have hr := List.reverse_prefix.mpr h
    rwa [List.reverse_cons] at hr
  · rw [run_append] at hsize ⊢
    obtain hk | ⟨ho, hp, hs⟩ := respond_returns_suffix he h
    · have hle := hk.length_le
      simp only [run_cons, run_nil, CallStack.size] at hsize
      rw [hsize, List.length_cons] at hle
      omega
    · exact ⟨ho, hp, congrArg CallStack.mk hs⟩

def nestedCalls : Machine := poised [0x20, 0x04, 0x00, 0x00, 0x20, 0x06, 0x00, 0xEE]

theorem nested_call_matched :
    (nestedCalls.cpuTick .released).2 = .retired 0 (.call 4) ∧
    ((nestedCalls.cpuTick .released).1.run
      ([.cpu .released, .cpu .released, .timer] ++ [.cpu .released])).state.registers.pc = 2 := by
  have hc : (nestedCalls.cpuTick .released).2 = .retired 0 (.call 4) := by decide +kernel
  refine ⟨hc, ((call_matched_by_return hc (by decide) fun fs hfs ↦ ?_).2 _ (by decide)
    (by decide +kernel)).2.1⟩
  simp only [List.prefix_cons_iff, List.prefix_nil] at hfs
  obtain rfl | ⟨_, rfl, rfl | ⟨_, rfl, rfl | ⟨_, rfl, rfl⟩⟩⟩ := hfs <;> decide +kernel

end Machine

end Chip8
