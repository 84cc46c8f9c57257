import Chip8.Proofs.ControlFlow

namespace Chip8

namespace Registers

def following (p : UInt16) : UInt16 := ({ pc := p + 2 } : Registers).fetchAddress

variable {p : UInt16}

theorem toNat_fetchAddress (r : Registers) :
    r.fetchAddress.toNat = if r.pc.toNat ≤ 0xFFE then r.pc.toNat else 0 := by
  have hle : r.pc ≤ 0xFFE ↔ r.pc.toNat ≤ 0xFFE := UInt16.le_iff_toNat_le
  by_cases h : r.pc ≤ 0xFFE
  · rw [fetchAddress_of_le h, if_pos (hle.mp h)]
  · rw [fetchAddress, if_neg (mt lt_fetchWrap_iff.mp h), if_neg (mt hle.mpr h)]
    rfl

theorem toNat_following (hp : p.toNat ≤ 0xFFE) :
    (following p).toNat = if p.toNat + 2 ≤ 0xFFE then p.toNat + 2 else 0 := by
  have hadd : (p + 2).toNat = (p.toNat + 2) % 2 ^ 16 := UInt16.toNat_add ..
  have hnext : (p + 2).toNat = p.toNat + 2 := by omega
  rw [following, toNat_fetchAddress, hnext]

theorem following_le (p : UInt16) : (following p).toNat ≤ 0xFFE := toNat_fetchAddress_le _

end Registers

namespace Machine

open Registers (following toNat_fetchAddress toNat_following following_le)

variable {m : Machine} {keys : Keypad} {p : UInt16} {c : Condition}

theorem toNat_address_behind_skip (h : (m.cpuTick keys).2 = .retired p (.skip c))
    (keys' : Keypad) (n : Nat) (hn : n = if c.holds m.state.registers keys then 4 else 2) :
    ((m.cpuTick keys).1.cpuTick keys').2.address.toNat =
      if p.toNat + n ≤ 0xFFE then p.toNat + n else 0 := by
  have hland : (m.cpuTick keys).1.state.registers.pc.toNat = p.toNat + n := by
    have hpc := m.state.toNat_pc_step m.config.dialect keys
    have ho : (m.state.step m.config.dialect keys).2 = .retired p (.skip c) := h
    rw [ho] at hpc
    rw [hn]
    exact hpc
  have haddress : ((m.cpuTick keys).1.cpuTick keys').2.address =
      (m.cpuTick keys).1.state.registers.fetchAddress := State.address_step ..
  rw [haddress, toNat_fetchAddress, hland]

/-- The tick behind a skip fetches what follows the skip if the condition did not hold. If it held,
the tick fetches what follows that, unless the skip was in one of the last two places for an
instruction: there it fetches the same as if the condition had not held. -/
theorem skip_passes_over_iff (h : (m.cpuTick keys).2 = .retired p (.skip c)) (keys' : Keypad) :
    (c.holds m.state.registers keys = false →
      ((m.cpuTick keys).1.cpuTick keys').2.address = following p) ∧
    (c.holds m.state.registers keys = true →
      (((m.cpuTick keys).1.cpuTick keys').2.address = following (following p) ↔ p ≤ 0xFFC) ∧
      (0xFFC < p → ((m.cpuTick keys).1.cpuTick keys').2.address = following p)) := by
  have hp : p.toNat ≤ 0xFFE := by
    obtain ⟨hp, -, -⟩ := State.eq_of_step_retired h
    rw [hp]
    exact m.state.registers.toNat_fetchAddress_le
  have hnext := toNat_following hp
  have hover := toNat_following (following_le p)
  have hlast : p ≤ 0xFFC ↔ p.toNat ≤ 0xFFC := UInt16.le_iff_toNat_le
  have hlast' : 0xFFC < p ↔ 0xFFC < p.toNat := UInt16.lt_iff_toNat_lt
  constructor
  · intro hc
    have ha := toNat_address_behind_skip h keys' 2 (by rw [hc]; rfl)
    exact UInt16.toNat_inj.mp (ha.trans hnext.symm)
  · intro hc
    have ha := toNat_address_behind_skip h keys' 4 (by rw [hc]; rfl)
    rw [← UInt16.toNat_inj, ← UInt16.toNat_inj, hlast, hlast']
    -- Memory may end at the skipped instruction, at the one behind it, or after both of them.
    by_cases hskipped : p.toNat + 2 ≤ 0xFFE
    · rw [if_pos hskipped] at hnext
      rw [hnext, Nat.add_assoc] at hover
      have hsame := ha.trans hover.symm
      exact ⟨iff_of_true hsame (by omega), by omega⟩
    · rw [if_neg hskipped] at hnext
      rw [hnext, if_pos (by decide)] at hover
      rw [if_neg (by omega)] at ha
      constructor
      · exact iff_of_false (by omega) (by omega)
      · intro _
        exact ha.trans hnext.symm

def atSkip (p : UInt16) : Machine :=
  { poised [] with
    state.registers.pc := p
    state.memory := Memory.zero.store p [0x30, 0x00] }

theorem last_word_passed_over :
    ((atSkip 0xFFC).cpuTick .released).2 = .retired 0xFFC (.skip (.equalsByte .first 0)) ∧
    following 0xFFC = 0xFFE ∧ following 0xFFE = 0 ∧
    (((atSkip 0xFFC).cpuTick .released).1.cpuTick .released).2.address =
      following (following 0xFFC) := by
  have hs : ((atSkip 0xFFC).cpuTick .released).2 =
      .retired 0xFFC (.skip (.equalsByte .first 0)) := by
    decide +kernel
  have h := (skip_passes_over_iff hs .released).2 rfl
  exact ⟨hs, by decide, by decide, h.1.mpr (by decide)⟩

/-- At the end of memory a taken skip passes over nothing: the word at address zero is next. -/
theorem skip_lost_at_end_of_memory :
    ((atSkip 0xFFE).cpuTick .released).2 = .retired 0xFFE (.skip (.equalsByte .first 0)) ∧
    (Condition.equalsByte .first 0).holds (atSkip 0xFFE).state.registers .released = true ∧
    following 0xFFE = 0 ∧ following (following 0xFFE) = 2 ∧
    (((atSkip 0xFFE).cpuTick .released).1.cpuTick .released).2.address = 0 := by
  have hs : ((atSkip 0xFFE).cpuTick .released).2 =
      .retired 0xFFE (.skip (.equalsByte .first 0)) := by
    decide +kernel
  have ha := toNat_address_behind_skip hs .released 4 rfl
  exact ⟨hs, rfl, by decide, by decide, UInt16.toNat_inj.mp ha⟩

end Machine

end Chip8
