import Chip8.Proofs.Fetch
import Chip8.Proofs.Writes

namespace Chip8.Flat

structure Memory where
  cells : Array UInt8

namespace Memory

def place (a : UInt16) : Nat := (a &&& Layout.addressMask).toNat

def overwrite (cells : Array UInt8) (start : Nat) : List UInt8 → Array UInt8
  | [] => cells
  | b :: bs => overwrite (cells.setIfInBounds start b) (start + 1) bs

def zero : Memory := ⟨Array.replicate Layout.memoryBytes 0⟩

variable (m : Memory)

def WellFormed : Prop := m.cells.size = Layout.memoryBytes

def read? (a : UInt16) : Option UInt8 := m.cells[place a]?

def write? (a : UInt16) (value : UInt8) : Option Memory :=
  if h : place a < m.cells.size then some ⟨m.cells.set (place a) value h⟩ else none

def word? (a : UInt16) : Option UInt16 := do
  let high ← m.read? a
  let low ← m.read? (a + 1)
  return high.toUInt16 <<< 8 ||| low.toUInt16

def block? (a : UInt16) (n : Nat) : Option (List UInt8) :=
  (List.range n).mapM fun k ↦ m.read? (a + .ofNat k)

def store? (m : Memory) (a : UInt16) : List UInt8 → Option Memory
  | [] => some m
  | b :: bs => do
    let m ← m.write? a b
    m.store? (a + 1) bs

def copy? (start : Nat) (bytes : List UInt8) : Option Memory :=
  if start + bytes.length ≤ m.cells.size then some ⟨overwrite m.cells start bytes⟩ else none

def clear : Memory := ⟨Array.replicate m.cells.size 0⟩

def loadFont? : Option Memory := m.copy? Layout.fontStart.toNat Font.bytes

def loadProgram? (p : Program) : Option Memory := m.copy? Layout.programStart.toNat p.bytes

/-- The memories that come from a new one by the operations there are, in any order. -/
inductive Built : Memory → Prop
  | zero : Built zero
  | write (a : UInt16) (value : UInt8) {m n : Memory} (hm : Built m)
      (h : m.write? a value = some n) : Built n
  | clear {m : Memory} (hm : Built m) : Built m.clear
  | loadFont {m n : Memory} (hm : Built m) (h : m.loadFont? = some n) : Built n
  | loadProgram (p : Program) {m n : Memory} (hm : Built m) (h : m.loadProgram? p = some n) :
      Built n

end Memory

end Chip8.Flat

namespace Chip8.Memory

def flat (m : Memory) : Flat.Memory := ⟨m.cells.toArray⟩

theorem wellFormed_flat (m : Memory) : m.flat.WellFormed := m.cells.size_toArray

end Chip8.Memory

namespace Chip8.Flat.Memory

variable {m : Flat.Memory} {n : Chip8.Memory} {a : UInt16}

theorem WellFormed.exists_flat (h : m.WellFormed) : ∃ n : Chip8.Memory, n.flat = m :=
  ⟨⟨⟨m.cells, h⟩⟩, rfl⟩

theorem place_eq (a : UInt16) : place a = (Chip8.Memory.cell a).val := by
  have hm : Layout.addressMask.toNat = 2 ^ 12 - 1 := rfl
  rw [place, UInt16.toNat_and, hm, Nat.and_two_pow_sub_one_eq_mod]
  rfl

@[simp] theorem read?_flat (n : Chip8.Memory) (a : UInt16) :
    n.flat.read? a = some (n.read a) := by
  rw [read?, place_eq]
  exact Array.getElem?_eq_getElem (n.wellFormed_flat ▸ (Chip8.Memory.cell a).isLt)

example : (⟨#[0x12, 0x34]⟩ : Flat.Memory).read? 2 = none := by decide

@[simp] theorem write?_flat (n : Chip8.Memory) (a : UInt16) (value : UInt8) :
    n.flat.write? a value = some (n.write a value).flat := by
  have hp : place a < n.flat.cells.size := by
    rw [place_eq, n.wellFormed_flat]
    exact (Chip8.Memory.cell a).isLt
  rw [write?, dif_pos hp]
  simp only [place_eq]
  rfl

@[simp] theorem word?_flat (n : Chip8.Memory) (a : UInt16) :
    n.flat.word? a = some (n.word a) := by
  simp only [word?, read?_flat]
  rfl

@[simp] theorem block?_flat (n : Chip8.Memory) (a : UInt16) (k : Nat) :
    n.flat.block? a k = some (n.block a k) := by
  simp only [block?, read?_flat]
  exact List.mapM_pure

@[simp] theorem store?_flat (n : Chip8.Memory) (a : UInt16) (bytes : List UInt8) :
    n.flat.store? a bytes = some (n.store a bytes).flat := by
  induction bytes generalizing n a with
  | nil => rfl
  | cons b bs ih =>
    rw [store?, write?_flat]
    exact ih (n.write a b) (a + 1)

theorem setIfInBounds_flat (n : Chip8.Memory) (a : UInt16) (value : UInt8) (h : a.toNat < 4096) :
    n.flat.cells.setIfInBounds a.toNat value = (n.write a value).flat.cells := by
  have hs : a.toNat < n.flat.cells.size := n.wellFormed_flat ▸ h
  rw [Array.setIfInBounds, dif_pos hs]
  simp only [← Chip8.Memory.cell_of_lt h]
  rfl

theorem overwrite_flat (n : Chip8.Memory) (a : UInt16) (bytes : List UInt8)
    (h : a.toNat + bytes.length ≤ 4096) :
    overwrite n.flat.cells a.toNat bytes = (n.store a bytes).flat.cells := by
  induction bytes generalizing n a with
  | nil => rfl
  | cons b bs ih =>
    rw [List.length_cons] at h
    have hnext : (a + 1).toNat = a.toNat + 1 := by
      rw [UInt16.toNat_add, UInt16.toNat_one]
      omega
    rw [overwrite, setIfInBounds_flat n a b (by omega), ← hnext]
    exact ih (n.write a b) (a + 1) (by omega)

theorem copy?_flat (n : Chip8.Memory) (a : UInt16) (bytes : List UInt8)
    (h : a.toNat + bytes.length ≤ 4096) :
    n.flat.copy? a.toNat bytes = some (n.store a bytes).flat := by
  have hs : a.toNat + bytes.length ≤ n.flat.cells.size := n.wellFormed_flat ▸ h
  rw [copy?, if_pos hs, overwrite_flat n a bytes h]

@[simp] theorem loadFont?_flat (n : Chip8.Memory) : n.flat.loadFont? = some n.loadFont.flat :=
  copy?_flat n Layout.fontStart Font.bytes (by decide)

@[simp] theorem loadProgram?_flat (n : Chip8.Memory) (p : Program) :
    n.flat.loadProgram? p = some (n.loadProgram p).flat := by
  have hp : p.bytes.length ≤ Layout.programCapacity := p.length_le
  refine copy?_flat n Layout.programStart p.bytes ?_
  have hc : Layout.programStart.toNat + Layout.programCapacity = 4096 := rfl
  omega

@[simp] theorem zero_flat : Chip8.Memory.zero.flat = zero := rfl

@[simp] theorem clear_flat (n : Chip8.Memory) : n.flat.clear = n.clear.flat := by
  rw [clear, n.wellFormed_flat]
  rfl

theorem Built.wellFormed (h : m.Built) : m.WellFormed := by
  induction h with
  | zero => exact Array.size_replicate
  | write a value _ h ih =>
    obtain ⟨n, rfl⟩ := ih.exists_flat
    rw [write?_flat] at h
    rw [← Option.some.inj h]
    exact (n.write a value).wellFormed_flat
  | clear _ ih => exact Array.size_replicate.trans ih
  | loadFont _ h ih =>
    obtain ⟨n, rfl⟩ := ih.exists_flat
    rw [loadFont?_flat] at h
    rw [← Option.some.inj h]
    exact n.loadFont.wellFormed_flat
  | loadProgram p _ h ih =>
    obtain ⟨n, rfl⟩ := ih.exists_flat
    rw [loadProgram?_flat] at h
    rw [← Option.some.inj h]
    exact (n.loadProgram p).wellFormed_flat

end Chip8.Flat.Memory
