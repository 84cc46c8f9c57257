import Chip8.Proofs.FlatMemory
import Chip8.Proofs.Sprite
import Chip8.Proofs.Writes

namespace Chip8

namespace Memory

inductive Call where
  | write (a : UInt16) (value : UInt8)
  | clear
  | loadFont
  | loadProgram (p : Program)

def call (m : Memory) : Call → Memory
  | .write a value => m.write a value
  | .clear => m.clear
  | .loadFont => m.loadFont
  | .loadProgram p => m.loadProgram p

def calls (m : Memory) (cs : List Call) : Memory := cs.foldl call m

def blockByte? (start : Nat) (bytes : List UInt8) (c : Nat) : Option UInt8 :=
  if start ≤ c then bytes[c - start]? else none

/-- The byte that a call puts into a cell; nothing for a cell that it leaves alone. -/
def Call.put? (c : Nat) : Call → Option UInt8
  | .write a value => if a.toNat % 4096 = c then some value else none
  | .clear => some 0
  | .loadFont => blockByte? 0x50 Font.bytes c
  | .loadProgram p => blockByte? 0x200 p.bytes c

def lastPut? (cs : List Call) (c : Nat) : Option UInt8 := cs.reverse.findSome? (·.put? c)

/-- However memory is read, what is read are the bytes of the cells: all of them, the one that an
address selects, two as a word, or any number of them in a row. Behind the last cell comes the
first, as often as needed. -/
structure Shows (m : Memory) (bytes : Nat → UInt8) : Prop where
  image : m.cells.toList = List.ofFn fun c : Fin 4096 ↦ bytes c
  read (a : UInt16) : m.read a = bytes (a.toNat % 4096)
  word (a : UInt16) : (m.word a).toNat =
    256 * (bytes (a.toNat % 4096)).toNat + (bytes ((a.toNat + 1) % 4096)).toNat
  block (a : UInt16) (n : Nat) :
    m.block a n = List.ofFn fun i : Fin n ↦ bytes ((a.toNat + i) % 4096)

end Memory

namespace Flat.Memory

open Chip8.Memory (Call)

def call? (m : Flat.Memory) : Call → Option Flat.Memory
  | .write a value => m.write? a value
  | .clear => some m.clear
  | .loadFont => m.loadFont?
  | .loadProgram p => m.loadProgram? p

def calls? (m : Flat.Memory) (cs : List Call) : Option Flat.Memory := cs.foldlM call? m

end Flat.Memory

namespace Memory

variable {m : Memory} {bytes : Nat → UInt8}

theorem get_store (m : Memory) {a : UInt16} {block : List UInt8}
    (h : a.toNat + block.length ≤ 4096) (c : Fin 4096) :
    (m.store a block).cells.get c = (blockByte? a.toNat block c).getD (m.cells.get c) := by
  rw [blockByte?]
  by_cases hc : a.toNat ≤ c.val ∧ c.val < a.toNat + block.length
  · have hk : c.val - a.toNat < block.length := by omega
    have hcell : c.val = (a.toNat + (c.val - a.toNat)) % 4096 := by omega
    rw [if_pos hc.1, get_of_store (m := m) (by omega) hk hcell, Option.getD_some]
  · have hput : (if a.toNat ≤ c.val then block[c.val - a.toNat]? else none) = none := by
      split
      · exact List.getElem?_eq_none (by omega)
      · rfl
    rw [hput, Option.getD_none, get_store_of_ne]
    omega

theorem get_call (m : Memory) (call : Call) (c : Fin 4096) :
    (m.call call).cells.get c = (call.put? c).getD (m.cells.get c) := by
  cases call with
  | write a value =>
    rw [Memory.call, Call.put?]
    by_cases hc : a.toNat % 4096 = c.val
    · obtain rfl : cell a = c := Fin.ext hc
      rw [get_write_self, if_pos hc, Option.getD_some]
    · have hne : c ≠ cell a := fun he ↦ hc (congrArg Fin.val he).symm
      rw [get_write_of_ne hne, if_neg hc, Option.getD_none]
  | clear => exact Vector.getElem_replicate c.isLt
  | loadFont => exact m.get_store (by decide) c
  | loadProgram p =>
    have hp : p.bytes.length ≤ 3584 := p.length_le
    have hstart : Layout.programStart.toNat = 0x200 := rfl
    exact m.get_store (by omega) c

/-- After any calls a cell holds what was put there last, or else what it held before. -/
theorem get_calls (m : Memory) (cs : List Call) (c : Fin 4096) :
    (m.calls cs).cells.get c = (lastPut? cs c).getD (m.cells.get c) := by
  induction cs generalizing m with
  | nil => rfl
  | cons call cs ih =>
    -- What the first call puts counts only where no later call puts anything.
    have hlast : lastPut? (call :: cs) c = (lastPut? cs c).or (call.put? c) := by
      simp only [lastPut?, List.reverse_cons, List.findSome?_append, List.findSome?_singleton]
    rw [hlast, Option.getD_or, ← get_call]
    exact ih (m.call call)

theorem shows_of_get (h : ∀ c : Fin 4096, m.cells.get c = bytes c) : m.Shows bytes := by
  have hread (a : UInt16) : m.read a = bytes (a.toNat % 4096) := h (cell a)
  have hadd (a : UInt16) (k : Nat) : m.read (a + .ofNat k) = bytes ((a.toNat + k) % 4096) :=
    (h _).trans (congrArg bytes (cell_add a k))
  constructor
  case image =>
    refine List.ext_getElem ?_ fun i hi _ ↦ ?_
    · rw [Vector.length_toList, List.length_ofFn]
    · rw [Vector.length_toList] at hi
      rw [Vector.getElem_toList, List.getElem_ofFn]
      exact h ⟨i, hi⟩
  case read => exact hread
  case word =>
    intro a
    rw [toNat_word, hread, ← hadd a 1]
    rfl
  case block =>
    intro a n
    refine List.ext_getElem? fun i ↦ ?_
    rw [getElem?_block, List.getElem?_ofFn, hadd]
    rfl

end Memory

namespace Flat.Memory

open Chip8.Memory (Call)

theorem call?_flat (n : Chip8.Memory) (c : Call) : n.flat.call? c = some (n.call c).flat := by
  cases c with
  | write a value => exact write?_flat n a value
  | clear => exact congrArg some (clear_flat n)
  | loadFont => exact loadFont?_flat n
  | loadProgram p => exact loadProgram?_flat n p

theorem calls?_flat (n : Chip8.Memory) (cs : List Call) :
    n.flat.calls? cs = some (n.calls cs).flat := by
  induction cs generalizing n with
  | nil => rfl
  | cons c cs ih =>
    rw [calls?, List.foldlM_cons, call?_flat]
    exact ih (n.call c)

end Flat.Memory

namespace Memory

/-- After any calls on a new memory, each cell holds the byte that was put there last, zero if none
was, and whatever is read is read from these cells, at any address and in any length. An array of
cells that starts with 4096 of them never fails a call, keeps that size, and gives the same. -/
theorem last_put_wins (cs : List Call) :
    (zero.calls cs).Shows (fun c ↦ (lastPut? cs c).getD 0) ∧
    ∃ m, Flat.Memory.zero.calls? cs = some m ∧ m.cells.size = 4096 ∧
      ∀ a n, m.read? a = some ((zero.calls cs).read a) ∧
        m.word? a = some ((zero.calls cs).word a) ∧
        m.block? a n = some ((zero.calls cs).block a n) := by
  constructor
  · refine shows_of_get fun c ↦ ?_
    rw [get_calls]
    exact congrArg _ (Vector.getElem_replicate c.isLt)
  · have hcalls := Flat.Memory.calls?_flat zero cs
    refine ⟨_, hcalls, wellFormed_flat _, fun a n ↦ ⟨?_, ?_, ?_⟩⟩
    · exact Flat.Memory.read?_flat _ a
    · exact Flat.Memory.word?_flat _ a
    · exact Flat.Memory.block?_flat _ a n

/-- A word that starts in the last cell ends in the first. -/
example : (zero.calls [.write 0x1000 0x34, .write 0xFFFF 0x12]).word 0xFFF = 0x1234 := by
  decide +kernel

end Memory

end Chip8
