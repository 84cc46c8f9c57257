import Chip8.Execution

namespace Chip8

namespace Memory

theorem cell_of_lt {a : UInt16} (h : a.toNat < 4096) : (cell a).val = a.toNat :=
  Nat.mod_eq_of_lt h

theorem toNat_word (m : Memory) (a : UInt16) :
    (m.word a).toNat = 256 * (m.read a).toNat + (m.read (a + 1)).toNat := by
  have hhigh := (m.read a).toNat_lt
  have hlow := (m.read (a + 1)).toNat_lt
  have hs : ((m.read a).toUInt16 <<< 8).toNat = (m.read a).toNat <<< 8 := by
    rw [UInt16.toNat_shiftLeft, UInt8.toNat_toUInt16]
    simp only [Nat.shiftLeft_eq, UInt16.reduceToNat, Nat.reduceMod, Nat.reducePow]
    omega
  rw [word, UInt16.toNat_or, hs, UInt8.toNat_toUInt16, ← Nat.shiftLeft_add_eq_or_of_lt hlow,
    Nat.shiftLeft_eq]
  omega

end Memory

namespace Registers

variable {r : Registers}

theorem lt_fetchWrap_iff {a : UInt16} : a < Layout.fetchWrap ↔ a ≤ 0xFFE := by
  rw [UInt16.lt_iff_toNat_lt, UInt16.le_iff_toNat_le]
  exact Nat.lt_succ_iff

theorem fetchAddress_of_le (h : r.pc ≤ 0xFFE) : r.fetchAddress = r.pc :=
  if_pos (lt_fetchWrap_iff.mpr h)

theorem fetchAddress_le (r : Registers) : r.fetchAddress ≤ 0xFFE := by
  rw [fetchAddress]
  split
  · exact lt_fetchWrap_iff.mp ‹_›
  · decide

/-- Going back after a fetch ends at the fetched instruction, also when the fetch wrapped. -/
theorem rewind_fetched (r : Registers) : r.fetched.rewind = { r with pc := r.fetchAddress } := by
  simp only [rewind, fetched, UInt16.add_sub_cancel]

end Registers

namespace State

variable {s t : State} {d : Dialect} {keys : Keypad} {i : Instruction}

def fetched (s : State) : State := s.withRegisters (·.fetched)

theorem step_of_retired (hi : s.instruction = i) (h : s.fetched.execute d keys i = .retired t) :
    s.step d keys = (t, .retired s.registers.fetchAddress i) := by
  subst i
  rw [fetched] at h
  simp only [step, h]

theorem step_of_blocked (hi : s.instruction = i) (h : s.fetched.execute d keys i = .blocked t) :
    s.step d keys = (t, .awaitingKey s.registers.fetchAddress) := by
  subst i
  rw [fetched] at h
  simp only [step, h]

theorem step_of_fault {f : Fault} (hi : s.instruction = i)
    (h : s.fetched.execute d keys i = .fault f) :
    s.step d keys = (s.fetched, .fault ⟨f, s.registers.fetchAddress, s.fetchedWord⟩) := by
  subst i
  rw [fetched] at h
  simp only [step, h, fetched]

theorem eq_of_step_retired {p : UInt16} (h : (s.step d keys).2 = .retired p i) :
    p = s.registers.fetchAddress ∧ i = s.instruction ∧
      s.fetched.execute d keys i = .retired (s.step d keys).1 := by
  cases he : s.fetched.execute d keys s.instruction with
  | retired t =>
    rw [step_of_retired rfl he] at h ⊢
    cases h
    exact ⟨rfl, rfl, he⟩
  | blocked t =>
    rw [step_of_blocked rfl he] at h
    cases h
  | fault f =>
    rw [step_of_fault rfl he] at h
    cases h

end State

/-- Two effects of one kind; the states that they leave are related. -/
inductive Effect.Matches (R : State → State → Prop) : Effect → Effect → Prop
  | retired {s t : State} : R s t → Matches R (.retired s) (.retired t)
  | blocked {s t : State} : R s t → Matches R (.blocked s) (.blocked t)
  | fault (f : Fault) : Matches R (.fault f) (.fault f)

namespace State

variable {R : State → State → Prop} {s t : State} {d d' : Dialect} {keys keys' : Keypad}

/-- States that fetch the same word from the same place and execute it alike report the same. -/
theorem step_matches (ha : s.registers.fetchAddress = t.registers.fetchAddress)
    (hw : s.fetchedWord = t.fetchedWord) (hf : R s.fetched t.fetched)
    (h : Effect.Matches R (s.fetched.execute d keys s.instruction)
      (t.fetched.execute d' keys' t.instruction)) :
    (s.step d keys).2 = (t.step d' keys').2 ∧ R (s.step d keys).1 (t.step d' keys').1 := by
  have hi : s.instruction = t.instruction := congrArg Instruction.decode hw
  generalize he : s.fetched.execute d keys s.instruction = a at h
  generalize he' : t.fetched.execute d' keys' t.instruction = b at h
  cases h with
  | retired hr =>
    rw [step_of_retired rfl he, step_of_retired rfl he', ha, hi]
    exact ⟨rfl, hr⟩
  | blocked hr =>
    rw [step_of_blocked rfl he, step_of_blocked rfl he', ha]
    exact ⟨rfl, hr⟩
  | fault f =>
    rw [step_of_fault rfl he, step_of_fault rfl he', ha, hw]
    exact ⟨rfl, hf⟩

end State

end Chip8
