import Chip8.Proofs.WriteSet

namespace Chip8

theorem Register.getElem?_through {x y : Register} (h : y ≤ x) : (through x)[y.val]? = some y := by
  decide +revert

theorem Registers.get_foldl_set {r : Registers} {ys : List Register} {z : Register}
    (f : Register → UInt8) (h : z ∈ ys) :
    (ys.foldl (fun q y ↦ q.set y (f y)) r).get z = f z := by
  induction ys generalizing r with
  | nil => exact absurd h List.not_mem_nil
  | cons y ys ih =>
    by_cases hlater : z ∈ ys
    · exact ih hlater
    · obtain rfl : z = y := (List.mem_cons.mp h).resolve_right hlater
      have hkept : (ys.foldl (fun q y ↦ q.set y (f y)) (r.set z (f z))).get z =
          (r.set z (f z)).get z :=
        Decidable.byContradiction fun hne ↦ hlater (mem_of_foldl_set_ne hne)
      rw [List.foldl_cons, hkept, get_set_self]

theorem Registers.toNat_indexAfterTransfer (r : Registers) (d : Dialect) (x : Register) :
    (r.indexAfterTransfer d x).toNat =
      if d.advancesIndex then (r.index.toNat + x.val + 1) % 65536 else r.index.toNat := by
  rw [indexAfterTransfer]
  split
  · rw [UInt16.toNat_add, UInt16.toNat_ofNat']
    omega
  · rfl

theorem exists_decimalDigits (value : UInt8) :
    ∃ hundreds tens ones : UInt8, decimalDigits value = [hundreds, tens, ones] ∧
      hundreds.toNat ≤ 9 ∧ tens.toNat ≤ 9 ∧ ones.toNat ≤ 9 ∧
      100 * hundreds.toNat + 10 * tens.toNat + ones.toNat = value.toNat := by
  have hlt := value.toNat_lt
  refine ⟨_, _, _, rfl, ?_⟩
  rw [UInt8.toNat_div, UInt8.toNat_mod, UInt8.toNat_div, UInt8.toNat_mod]
  show value.toNat / 100 ≤ 9 ∧ value.toNat / 10 % 10 ≤ 9 ∧ value.toNat % 10 ≤ 9 ∧
    100 * (value.toNat / 100) + 10 * (value.toNat / 10 % 10) + value.toNat % 10 = value.toNat
  omega

namespace State

/-- From `s` to `t` the registers `V0` to `x` were stored: one to each cell from the index on, and
nothing to any other cell. -/
structure Stored (s : State) (d : Dialect) (x : Register) (t : State) : Prop where
  cell (y : Register) (hy : y ≤ x) (c : Fin 4096)
    (hc : c.val = (s.registers.index.toNat + y.val) % 4096) :
    t.memory.cells.get c = s.registers.get y
  others (c : Fin 4096) (hc : ∀ y ≤ x, c.val ≠ (s.registers.index.toNat + y.val) % 4096) :
    t.memory.cells.get c = s.memory.cells.get c
  index : t.registers.index.toNat =
    if d.advancesIndex then (s.registers.index.toNat + x.val + 1) % 65536
    else s.registers.index.toNat
  rest : t = { s with memory := t.memory, registers.index := t.registers.index }

structure Loaded (s : State) (d : Dialect) (x : Register) (t : State) : Prop where
  register (y : Register) (hy : y ≤ x) (c : Fin 4096)
    (hc : c.val = (s.registers.index.toNat + y.val) % 4096) :
    t.registers.get y = s.memory.cells.get c
  others (y : Register) (hy : x < y) : t.registers.get y = s.registers.get y
  index : t.registers.index.toNat =
    if d.advancesIndex then (s.registers.index.toNat + x.val + 1) % 65536
    else s.registers.index.toNat
  pc : t.registers.pc = s.registers.pc
  rest : t = { s with registers := t.registers }

structure StoredDecimal (s : State) (x : Register) (t : State) : Prop where
  digits : ∃ hundreds tens ones : UInt8,
    hundreds.toNat ≤ 9 ∧ tens.toNat ≤ 9 ∧ ones.toNat ≤ 9 ∧
    100 * hundreds.toNat + 10 * tens.toNat + ones.toNat = (s.registers.get x).toNat ∧
    ∀ c : Fin 4096,
      (c.val = s.registers.index.toNat % 4096 → t.memory.cells.get c = hundreds) ∧
      (c.val = (s.registers.index.toNat + 1) % 4096 → t.memory.cells.get c = tens) ∧
      (c.val = (s.registers.index.toNat + 2) % 4096 → t.memory.cells.get c = ones)
  others (c : Fin 4096) (hc : ∀ k ≤ 2, c.val ≠ (s.registers.index.toNat + k) % 4096) :
    t.memory.cells.get c = s.memory.cells.get c
  rest : t = { s with memory := t.memory }

variable {s t between u : State} {d d' : Dialect} {x : Register}

theorem stored_execute (s : State) (d : Dialect) (keys : Keypad) (x : Register) :
    ∃ t, s.execute d keys (.storeRegisters x) = .retired t ∧ s.Stored d x t := by
  have hlen : ((Register.through x).map s.registers.get).length = x.val + 1 := by
    rw [List.length_map, Register.length_through]
  refine ⟨_, rfl, ?_⟩
  constructor
  case cell =>
    intro y hy c hc
    have hk : y.val < ((Register.through x).map s.registers.get).length :=
      hlen ▸ Nat.lt_succ_of_le hy
    have hstored := Memory.get_of_store (m := s.memory) (by omega) hk hc
    rw [List.getElem?_map, Register.getElem?_through hy] at hstored
    exact (Option.some.inj hstored).symm
  case others =>
    intro c hc
    apply Memory.get_store_of_ne
    intro k hk
    have hy : k < x.val + 1 := hlen ▸ hk
    exact hc ⟨k, by omega⟩ (Nat.le_of_lt_succ hy)
  case index => exact s.registers.toNat_indexAfterTransfer d x
  case rest => rfl

theorem loaded_execute (s : State) (d : Dialect) (keys : Keypad) (x : Register) :
    ∃ t, s.execute d keys (.loadRegisters x) = .retired t ∧ s.Loaded d x t := by
  refine ⟨_, rfl, ?_⟩
  constructor
  case register =>
    intro y hy c hc
    have hcell : Memory.cell (s.registers.index + .ofNat y.val) = c :=
      Fin.ext ((Memory.cell_add ..).trans hc.symm)
    have hget := Registers.get_foldl_set (r := s.registers)
      (fun y ↦ s.memory.read (s.registers.index + .ofNat y.val)) (Register.mem_through.mpr hy)
    exact hget.trans (congrArg s.memory.cells.get hcell)
  case others =>
    intro y hy
    apply Decidable.byContradiction
    intro hne
    have hle := Register.mem_through.mp (Registers.mem_of_foldl_set_ne hne)
    exact absurd hle (Fin.not_le.mpr hy)
  case index => exact s.registers.toNat_indexAfterTransfer d x
  case pc => exact s.loadFromIndex_pc x
  case rest => rfl

theorem storedDecimal_execute (s : State) (d : Dialect) (keys : Keypad) (x : Register) :
    ∃ t, s.execute d keys (.storeDecimal x) = .retired t ∧ s.StoredDecimal x t := by
  obtain ⟨hundreds, tens, ones, hdigits, hh, ht, ho, hvalue⟩ :=
    exists_decimalDigits (s.registers.get x)
  have hlen : [hundreds, tens, ones].length ≤ 4096 := show 3 ≤ 4096 by decide
  refine ⟨s.storeAtIndex [hundreds, tens, ones], ?_, ?_⟩
  · rw [execute, hdigits]
  · constructor
    case digits =>
      refine ⟨hundreds, tens, ones, hh, ht, ho, hvalue, ?_⟩
      intro c
      have hstored {k : Nat} (hk : k < 3) (hc : c.val = (s.registers.index.toNat + k) % 4096) :
          [hundreds, tens, ones][k]? =
            some ((s.storeAtIndex [hundreds, tens, ones]).memory.cells.get c) :=
        Memory.get_of_store hlen hk hc
      refine ⟨?_, ?_, ?_⟩
      · intro hc
        exact (Option.some.inj (hstored (k := 0) (by decide) hc)).symm
      · intro hc
        exact (Option.some.inj (hstored (k := 1) (by decide) hc)).symm
      · intro hc
        exact (Option.some.inj (hstored (k := 2) (by decide) hc)).symm
    case others =>
      intro c hc
      apply Memory.get_store_of_ne
      intro k hk
      exact hc k (Nat.le_of_lt_succ hk)
    case rest => rfl

/-- Loading finds what was stored if memory has not changed since and the index selects the same
cells again. -/
theorem get_of_stored_of_loaded (hs : s.Stored d x t) (hl : between.Loaded d' x u)
    (hm : between.memory = t.memory)
    (hi : between.registers.index.toNat % 4096 = s.registers.index.toNat % 4096)
    {y : Register} (hy : y ≤ x) : u.registers.get y = s.registers.get y := by
  have hlt : (s.registers.index.toNat + y.val) % 4096 < 4096 := Nat.mod_lt _ (by decide)
  have hcell := hs.cell y hy ⟨_, hlt⟩ rfl
  have hregister := hl.register y hy ⟨_, hlt⟩ (by simp only; omega)
  rw [hregister, hm, hcell]

/-- Transfers are exact for every index and in every dialect, and loading reverses storing: whatever
became of the registers meanwhile, and wherever in its upper bits the index points, the stored
registers are back and the others stay. -/
theorem transfers_exact_and_reversible (s : State) (d : Dialect) (keys : Keypad) (x : Register) :
    (∃ t, s.execute d keys (.storeRegisters x) = .retired t ∧ s.Stored d x t ∧
      ∀ (between : State) (d' : Dialect) (keys' : Keypad), between.memory = t.memory →
        between.registers.index.toNat % 4096 = s.registers.index.toNat % 4096 →
        ∃ u, between.execute d' keys' (.loadRegisters x) = .retired u ∧
          (∀ y ≤ x, u.registers.get y = s.registers.get y) ∧
          ∀ y, x < y → u.registers.get y = between.registers.get y) ∧
    (∃ t, s.execute d keys (.loadRegisters x) = .retired t ∧ s.Loaded d x t) ∧
    ∃ t, s.execute d keys (.storeDecimal x) = .retired t ∧ s.StoredDecimal x t := by
  refine ⟨?_, loaded_execute s d keys x, storedDecimal_execute s d keys x⟩
  obtain ⟨t, ht, hs⟩ := stored_execute s d keys x
  refine ⟨t, ht, hs, ?_⟩
  intro between d' keys' hm hi
  obtain ⟨u, hu, hl⟩ := loaded_execute between d' keys' x
  refine ⟨u, hu, ?_, hl.others⟩
  intro y hy
  exact get_of_stored_of_loaded hs hl hm hi hy

def atLastCells : State where
  registers := { v := Vector.ofFn fun i ↦ .ofNat (i.val + 1), index := 0xFFFD }

/-- Registers that were stored across the end of memory are loaded again from the same cells, with
all of them changed meanwhile and the upper bits of the index cleared. -/
theorem stored_across_end_loaded :
    ∃ t u, atLastCells.execute .modern .released (.storeRegisters (.ofNibble 9)) = .retired t ∧
      State.execute { t with registers := { index := 0xFFD } } .legacy .released
        (.loadRegisters (.ofNibble 9)) = .retired u ∧
      (∀ y ≤ .ofNibble 9, u.registers.get y = .ofNat (y.val + 1)) ∧
      ∀ y, .ofNibble 9 < y → u.registers.get y = 0 := by
  have hfilled : ∀ y, atLastCells.registers.get y = .ofNat (y.val + 1) := by decide
  have hcleared : ∀ y, Registers.get { index := 0xFFD } y = 0 := by decide
  have hcells : (0xFFD : UInt16).toNat % 4096 = atLastCells.registers.index.toNat % 4096 := by
    decide
  obtain ⟨⟨t, ht, -, hreverse⟩, -⟩ :=
    transfers_exact_and_reversible atLastCells .modern .released (.ofNibble 9)
  obtain ⟨u, hu, hback, hkept⟩ :=
    hreverse { t with registers := { index := 0xFFD } } .legacy .released rfl hcells
  refine ⟨t, u, ht, hu, ?_, ?_⟩
  · intro y hy
    exact (hback y hy).trans (hfilled y)
  · intro y hy
    exact (hkept y hy).trans (hcleared y)

end State

end Chip8
