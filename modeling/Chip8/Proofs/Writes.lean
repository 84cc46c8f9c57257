import Chip8.Memory
import Chip8.Registers

namespace Chip8

namespace Memory

variable {m : Memory} {a : UInt16} {c : Fin 4096} {bytes : List UInt8}

theorem get_write_self (m : Memory) (a : UInt16) (value : UInt8) :
    (m.write a value).cells.get (cell a) = value := Vector.getElem_set_self (cell a).isLt

theorem get_write_of_ne {value : UInt8} (h : c ≠ cell a) :
    (m.write a value).cells.get c = m.cells.get c :=
  Vector.getElem_set_ne (cell a).isLt c.isLt fun he ↦ h (Fin.ext he.symm)

theorem cell_add (a : UInt16) (k : Nat) : (cell (a + .ofNat k)).val = (a.toNat + k) % 4096 := by
  show (a + .ofNat k).toNat % 4096 = (a.toNat + k) % 4096
  rw [UInt16.toNat_add, UInt16.toNat_ofNat']
  omega

theorem cell_add_one (a : UInt16) (k : Nat) :
    ((a + 1).toNat + k) % 4096 = (a.toNat + (k + 1)) % 4096 := by
  rw [UInt16.toNat_add, UInt16.toNat_one]
  omega

theorem cell_of_store_ne (h : (m.store a bytes).cells.get c ≠ m.cells.get c) :
    ∃ k < bytes.length, c.val = (a.toNat + k) % 4096 := by
  induction bytes generalizing m a with
  | nil => exact absurd rfl h
  | cons b bytes ih =>
    by_cases hc : c = cell a
    · rw [hc]
      exact ⟨0, Nat.zero_lt_succ _, rfl⟩
    · have hwrite : (m.write a b).cells.get c = m.cells.get c := get_write_of_ne hc
      rw [← hwrite] at h
      obtain ⟨k, hk, he⟩ := ih h
      exact ⟨k + 1, Nat.succ_lt_succ hk, he.trans (cell_add_one a k)⟩

theorem get_store_of_ne (h : ∀ k < bytes.length, c.val ≠ (a.toNat + k) % 4096) :
    (m.store a bytes).cells.get c = m.cells.get c := by
  refine Decidable.byContradiction fun hne ↦ ?_
  obtain ⟨k, hk, hc⟩ := cell_of_store_ne hne
  exact h k hk hc

theorem get_of_store (hlen : bytes.length ≤ 4096) {k : Nat} (hk : k < bytes.length)
    (hc : c.val = (a.toNat + k) % 4096) : bytes[k]? = some ((m.store a bytes).cells.get c) := by
  induction bytes generalizing m a k with
  | nil => exact absurd hk (Nat.not_lt_zero k)
  | cons b bytes ih =>
    rw [List.length_cons] at hlen hk
    cases k with
    | zero =>
      -- The rest of the block would have to go all the way around to get back to its first cell.
      have hrest : ∀ j < bytes.length, c.val ≠ ((a + 1).toNat + j) % 4096 := by
        intro j hj
        rw [cell_add_one]
        omega
      obtain rfl : c = cell a := Fin.ext hc
      rw [List.getElem?_cons_zero, store, get_store_of_ne hrest, get_write_self]
    | succ k =>
      rw [← cell_add_one] at hc
      exact ih (by omega) (by omega) hc

end Memory

namespace Registers

variable {r : Registers} {x z : Register} {value : UInt8}

theorem get_set_self (r : Registers) (x : Register) (value : UInt8) :
    (r.set x value).get x = value := Vector.getElem_set_self x.isLt

theorem get_set_of_ne (h : z ≠ x) : (r.set x value).get z = r.get z :=
  Vector.getElem_set_ne x.isLt z.isLt fun he ↦ h (Fin.ext he.symm)

theorem eq_of_get_set_ne (h : (r.set x value).get z ≠ r.get z) : z = x :=
  Decidable.byContradiction fun hz ↦ h (get_set_of_ne hz)

end Registers

end Chip8
