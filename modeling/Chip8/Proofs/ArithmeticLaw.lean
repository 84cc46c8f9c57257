import Chip8.Proofs.WriteSet

namespace Chip8

def FlagChange.value : FlagChange → Bool
  | keep => false
  | clear => false
  | set on => on

theorem FlagChange.apply_of_ne_keep {change : FlagChange} (h : change ≠ .keep) (r : Registers) :
    change.apply r = r.setFlag change.value := by
  cases change with
  | keep => exact absurd rfl h
  | clear | set on => rfl

namespace Operation

/-- How the result `r` and the flag `f` of an operation belong to its operands: a carry is worth
256, a borrow clears the flag, and a shift moves one bit into it. -/
def Law (op : Operation) (a b r : UInt8) (f : Bool) : Prop :=
  match op with
  | copy => r = b
  | or => (∀ i, r.toNat.testBit i = (a.toNat.testBit i || b.toNat.testBit i)) ∧ f = false
  | and => (∀ i, r.toNat.testBit i = (a.toNat.testBit i && b.toNat.testBit i)) ∧ f = false
  | xor => (∀ i, r.toNat.testBit i = (a.toNat.testBit i ^^ b.toNat.testBit i)) ∧ f = false
  | add => r.toNat + 256 * f.toNat = a.toNat + b.toNat
  | sub => r.toNat + b.toNat = a.toNat + 256 * (1 - f.toNat) ∧ (f = true ↔ b.toNat ≤ a.toNat)
  | subReverse => r.toNat + a.toNat = b.toNat + 256 * (1 - f.toNat) ∧ (f = true ↔ a.toNat ≤ b.toNat)
  | shiftRight => a.toNat = 2 * r.toNat + f.toNat
  | shiftLeft => 2 * a.toNat = r.toNat + 256 * f.toNat

variable {op : Operation}

theorem toNat_decide {p q : Prop} [Decidable p] [Decidable q] (h : p ↔ q) :
    (decide p).toNat = if q then 1 else 0 := by
  by_cases hq : q
  · rw [decide_eq_true (h.mpr hq), if_pos hq, Bool.toNat_true]
  · rw [decide_eq_false (mt h.mp hq), if_neg hq, Bool.toNat_false]

theorem add_law (a b : UInt8) :
    (a + b).toNat + 256 * (decide (256 ≤ a.toNat + b.toNat)).toNat = a.toNat + b.toNat := by
  have ha := a.toNat_lt
  have hb := b.toNat_lt
  rw [UInt8.toNat_add, toNat_decide Iff.rfl]
  split <;> omega

theorem sub_law (a b : UInt8) :
    (a - b).toNat + b.toNat = a.toNat + 256 * (1 - (decide (b ≤ a)).toNat) := by
  have ha := a.toNat_lt
  have hb := b.toNat_lt
  rw [UInt8.toNat_sub, toNat_decide UInt8.le_iff_toNat_le]
  split <;> omega

theorem shiftRight_law (a : UInt8) :
    a.toNat = 2 * (a >>> 1).toNat + (decide (a &&& 1 = 1)).toNat := by
  have hresult : (a >>> 1).toNat = a.toNat / 2 := by
    rw [UInt8.toNat_shiftRight]
    exact Nat.shiftRight_eq_div_pow a.toNat 1
  have hbit : a &&& 1 = 1 ↔ a.toNat % 2 = 1 := by
    rw [← UInt8.toNat_inj, UInt8.toNat_and, ← Nat.and_one_is_mod]
    rfl
  rw [hresult, toNat_decide hbit]
  split <;> omega

theorem shiftLeft_law (a : UInt8) :
    2 * a.toNat = (a <<< 1).toNat + 256 * (decide (a >>> 7 = 1)).toNat := by
  have ha := a.toNat_lt
  have hresult : (a <<< 1).toNat = a.toNat * 2 % 256 := by
    rw [UInt8.toNat_shiftLeft]
    exact congrArg (· % 256) (Nat.shiftLeft_eq a.toNat 1)
  have hbit : a >>> 7 = 1 ↔ a.toNat / 128 = 1 := by
    rw [← UInt8.toNat_inj, UInt8.toNat_shiftRight]
    exact iff_of_eq (congrArg (· = 1) (Nat.shiftRight_eq_div_pow a.toNat 7))
  rw [hresult, toNat_decide hbit]
  split <;> omega

theorem law_apply (op : Operation) (a b : UInt8) :
    op.Law a b (op.apply a b).1 (op.apply a b).2.value := by
  cases op with
  | copy => rfl
  | or =>
    refine ⟨?_, rfl⟩
    intro i
    rw [apply, UInt8.toNat_or, Nat.testBit_or]
  | and =>
    refine ⟨?_, rfl⟩
    intro i
    rw [apply, UInt8.toNat_and, Nat.testBit_and]
  | xor =>
    refine ⟨?_, rfl⟩
    intro i
    rw [apply, UInt8.toNat_xor, Nat.testBit_xor]
  | add => exact add_law a b
  | sub => exact ⟨sub_law a b, decide_eq_true_iff.trans UInt8.le_iff_toNat_le⟩
  | subReverse => exact ⟨sub_law b a, decide_eq_true_iff.trans UInt8.le_iff_toNat_le⟩
  | shiftRight => exact shiftRight_law a
  | shiftLeft => exact shiftLeft_law a

theorem apply_ne_keep (h : op ≠ .copy) (a b : UInt8) : (op.apply a b).2 ≠ .keep := by
  cases op with
  | copy => exact absurd rfl h
  | _ => nofun

end Operation

namespace Registers

def operand (d : Dialect) (op : Operation) (x y : Register) : Register :=
  if (op = .shiftRight ∨ op = .shiftLeft) ∧ d.shiftsInPlace = false then y else x

/-- From the bank `r` to the bank `q` an operation was carried out on `x` and `y`: its flag is in
`VF` and its result in `x`, where they do not coincide, and nothing else has changed. -/
structure Computed (r : Registers) (d : Dialect) (op : Operation) (x y : Register) (q : Registers) :
    Prop where
  law : ∃ result flag, op.Law (r.get (operand d op x y)) (r.get y) result flag ∧
    (op ≠ .copy → (q.get .flag).toNat = flag.toNat) ∧
    (x ≠ .flag ∨ op = .copy → q.get x = result)
  others (z : Register) (hx : z ≠ x) (hflag : z ≠ .flag ∨ op = .copy) : q.get z = r.get z
  index : q.index = r.index
  pc : q.pc = r.pc

variable {r : Registers} {x y : Register}

theorem get_setFlag (r : Registers) (on : Bool) : ((r.setFlag on).get .flag).toNat = on.toNat := by
  rw [setFlag, get_set_self]
  cases on <;> rfl

theorem compute_eq (r : Registers) (d : Dialect) (op : Operation) (x y : Register) :
    r.compute d op x y = (op.apply (r.get (operand d op x y)) (r.get y)).2.apply
      (r.set x (op.apply (r.get (operand d op x y)) (r.get y)).1) := by
  have hsource : (if op.isShift && !d.shiftsInPlace then y else x) = operand d op x y := by
    rw [operand]
    cases op <;> cases d.shiftsInPlace <;> rfl
  simp only [compute, hsource]

theorem get_flag_compute {op : Operation} (h : op ≠ .copy) (d : Dialect) :
    ((r.compute d op x y).get .flag).toNat =
      (op.apply (r.get (operand d op x y)) (r.get y)).2.value.toNat := by
  rw [compute_eq, FlagChange.apply_of_ne_keep (Operation.apply_ne_keep h _ _), get_setFlag]

theorem get_compute {op : Operation} (h : x ≠ .flag ∨ op = .copy) (d : Dialect) :
    (r.compute d op x y).get x = (op.apply (r.get (operand d op x y)) (r.get y)).1 := by
  rw [compute_eq]
  by_cases hop : op = .copy
  · subst op
    exact get_set_self ..
  · have hx : x ≠ .flag := h.resolve_right hop
    rw [FlagChange.apply_of_ne_keep (Operation.apply_ne_keep hop _ _), setFlag, get_set_of_ne hx,
      get_set_self]

theorem get_compute_of_ne {op : Operation} {z : Register} (hx : z ≠ x)
    (hflag : z ≠ .flag ∨ op = .copy) (d : Dialect) : (r.compute d op x y).get z = r.get z := by
  apply Decidable.byContradiction
  intro hne
  -- The latch does not matter here: only instructions that wait for a key write its register.
  have hwrites : (Instruction.compute op x y).WritesTo .idle z := writesTo_of_compute hne
  cases hwrites with
  | compute => exact hx rfl
  | flag hop =>
    obtain hz | hcopy := hflag
    · exact hz rfl
    · exact hop hcopy

theorem computed_compute (r : Registers) (d : Dialect) (op : Operation) (x y : Register) :
    r.Computed d op x y (r.compute d op x y) where
  law := ⟨_, _, op.law_apply _ _, fun h ↦ get_flag_compute h d, fun h ↦ get_compute h d⟩
  others _ hx hflag := get_compute_of_ne hx hflag d
  index := compute_index ..
  pc := compute_pc ..

end Registers

namespace State

/-- An operation on two registers always succeeds and obeys its law, whichever of them coincide. A
tick that fetches one does the same, with the program counter behind the instruction. -/
theorem computes_by_law (s : State) (d : Dialect) (keys : Keypad) (op : Operation)
    (x y : Register) :
    (∃ q, s.execute d keys (.compute op x y) = .retired { s with registers := q } ∧
      s.registers.Computed d op x y q) ∧
    (s.instruction = .compute op x y → ∃ q, s.step d keys =
        ({ s with registers := q }, .retired s.registers.fetchAddress (.compute op x y)) ∧
      s.registers.fetched.Computed d op x y q) := by
  constructor
  · exact ⟨_, rfl, s.registers.computed_compute d op x y⟩
  · intro hi
    exact ⟨_, step_of_retired hi rfl, s.registers.fetched.computed_compute d op x y⟩

def atFlagSum : State where
  registers := { v := Vector.replicate 16 0x90, pc := 0 }
  memory := Memory.zero.store 0 [0x8F, 0xF4]

/-- A sum whose operands and result are all in `VF` leaves the carry there. -/
theorem flag_wins_in_flag_register :
    atFlagSum.instruction = .compute .add .flag .flag ∧
    ∃ q, atFlagSum.step {} .released =
        ({ atFlagSum with registers := q }, .retired 0 (.compute .add .flag .flag)) ∧
      (q.get .flag).toNat = 1 ∧ q.pc = 2 := by
  have hi : atFlagSum.instruction = .compute .add .flag .flag := by decide +kernel
  obtain ⟨q, hs, hq⟩ := (computes_by_law atFlagSum {} .released .add .flag .flag).2 hi
  obtain ⟨result, flag, hlaw, hflag, -⟩ := hq.law
  have hsum : result.toNat + 256 * flag.toNat = 0x90 + 0x90 := hlaw
  have hresult := result.toNat_lt
  have hvalue := hflag nofun
  exact ⟨hi, q, hs, by omega, hq.pc⟩

end State

end Chip8
