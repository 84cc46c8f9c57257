import Chip8.Proofs.FlatExecution
import Chip8.Proofs.Run
import Chip8.Proofs.Writes

namespace Chip8

namespace Memory

/-- The glyphs lie at `0x50` and the program at `0x200`; every other cell is zero. -/
structure Booted (m : Memory) (rom : List UInt8) : Prop where
  font (c : Fin 4096) (low : 0x50 ≤ c.val) (high : c.val < 0xA0) :
    Font.bytes[c.val - 0x50]? = some (m.cells.get c)
  program (c : Fin 4096) (low : 0x200 ≤ c.val) (high : c.val < 0x200 + rom.length) :
    rom[c.val - 0x200]? = some (m.cells.get c)
  elsewhere (c : Fin 4096) (font : ¬ (0x50 ≤ c.val ∧ c.val < 0xA0))
    (program : ¬ (0x200 ≤ c.val ∧ c.val < 0x200 + rom.length)) : m.cells.get c = 0

theorem get_loadFont_of_outside {m : Memory} {c : Fin 4096}
    (h : ¬ (0x50 ≤ c.val ∧ c.val < 0xA0)) : m.loadFont.cells.get c = m.cells.get c := by
  have hstart : Layout.fontStart.toNat = 0x50 := rfl
  have hlen : Font.bytes.length = 80 := rfl
  refine get_store_of_ne fun k hk ↦ ?_
  omega

theorem get_loadProgram_of_outside {m : Memory} {p : Program} {c : Fin 4096}
    (h : ¬ (0x200 ≤ c.val ∧ c.val < 0x200 + p.bytes.length)) :
    (m.loadProgram p).cells.get c = m.cells.get c := by
  have hstart : Layout.programStart.toNat = 0x200 := rfl
  have hlen : p.bytes.length ≤ 3584 := p.length_le
  refine get_store_of_ne fun k hk ↦ ?_
  omega

theorem booted_of_clear (m : Memory) (p : Program) :
    (m.clear.loadFont.loadProgram p).Booted p.bytes where
  font c low high := by
    have hprogram : ¬ (0x200 ≤ c.val ∧ c.val < 0x200 + p.bytes.length) := by omega
    have hlen : Font.bytes.length = 80 := rfl
    have hcell : c.val = (Layout.fontStart.toNat + (c.val - 0x50)) % 4096 := by
      have hstart : Layout.fontStart.toNat = 0x50 := rfl
      omega
    rw [get_loadProgram_of_outside hprogram]
    exact get_of_store (by omega) (by omega) hcell
  program c low high := by
    have hlen : p.bytes.length ≤ 3584 := p.length_le
    have hcell : c.val = (Layout.programStart.toNat + (c.val - 0x200)) % 4096 := by
      have hstart : Layout.programStart.toNat = 0x200 := rfl
      omega
    exact get_of_store (by omega) (by omega) hcell
  elsewhere c font program := by
    rw [get_loadProgram_of_outside program, get_loadFont_of_outside font]
    exact Vector.getElem_replicate c.isLt

end Memory

namespace State

/-- Power-on: the program in memory and about to run, everything else zeroed. -/
structure PoweredOn (s : State) (rom : List UInt8) : Prop where
  memory : s.memory.Booted rom
  pc : s.registers.pc = 0x200
  index : s.registers.index = 0
  registers (x : Register) : s.registers.get x = 0
  stack : s.stack.frames = []
  delay : s.timers.delay = 0
  sound : s.timers.sound = 0
  latch : s.latch = .idle
  display (x y : Nat) : s.display.get x y = false

theorem poweredOn_reset (s : State) (p : Program) : (s.reset p).PoweredOn p.bytes where
  memory := s.memory.booted_of_clear p
  pc := rfl
  index := rfl
  registers x := Vector.getElem_replicate x.isLt
  stack := rfl
  delay := rfl
  sound := rfl
  latch := rfl
  display := s.display.frame.get_clear

end State

/-- On arrays a reset clears memory and copies glyphs and program into it. Whatever was there
before, the copies fit and leave what the machine powers on with. -/
theorem Flat.State.poweredOn_of_reset? {s : Flat.State} (hs : s.WellFormed) (p : Program) :
    ∃ t : Chip8.State, s.reset? p = some t.flat ∧ t.PoweredOn p.bytes := by
  obtain ⟨n, rfl⟩ := hs.exists_flat
  exact ⟨n.reset p, Flat.State.reset?_flat n p, n.poweredOn_reset p⟩

namespace Program

variable {rom : List UInt8} {p : Program}

theorem ofBytes_eq_ok_iff : ofBytes rom = .ok p ↔ p.bytes = rom := by
  rw [ofBytes]
  constructor
  · intro h
    split at h
    · cases h
      rfl
    · cases h
  · rintro rfl
    rw [dif_pos p.length_le]

theorem ofBytes_eq_error_iff {e : SetupError} :
    ofBytes rom = .error e ↔ 3584 < rom.length ∧ e = .programTooLarge rom.length := by
  rw [ofBytes]
  split
  · next h =>
    have h : rom.length ≤ 3584 := h
    simp only [reduceCtorEq, false_iff]
    omega
  · next h =>
    have h : 3584 < rom.length := Nat.lt_of_not_le h
    simp only [h, true_and, Except.error.injEq]
    exact eq_comm

end Program

namespace Machine

variable {rom : List UInt8} {config : Config} {entropy : RandomSource}

theorem load_eq_error_iff {e : SetupError} : load rom config entropy = .error e ↔
    config.rate = 0 ∧ e = .zeroRate ∨
      config.rate ≠ 0 ∧ 3584 < rom.length ∧ e = .programTooLarge rom.length := by
  rw [← Program.ofBytes_eq_error_iff]
  simp only [load, Config.validate, bind, Except.bind]
  by_cases hr : config.rate = 0
  · simp only [hr, if_true, Except.error.injEq, true_and, ne_eq, not_true, false_and, or_false]
    exact eq_comm
  · simp only [hr, if_false, false_and, false_or, ne_eq, not_false_eq_true, true_and]
    cases Program.ofBytes rom with
    | error f => simp only [Except.error.injEq]
    | ok p => simp only [pure, Except.pure, reduceCtorEq]

theorem exists_load_iff :
    (∃ m, load rom config entropy = .ok m) ↔ config.rate ≠ 0 ∧ rom.length ≤ 3584 := by
  simp only [load_eq_ok_iff, Program.ofBytes_eq_ok_iff]
  constructor
  · rintro ⟨m, hr, p, rfl, -⟩
    exact ⟨hr, p.length_le⟩
  · rintro ⟨hr, hlen⟩
    exact ⟨_, hr, ⟨rom, hlen⟩, rfl, rfl⟩

/-- Loading succeeds for the programs that fit and the rates that are not zero, and reports the
first of the two that is wrong. What it gives is powered on with the program; so is what any reset
to that program gives, of whatever state, and also where memory is an array that is cleared and
copied to. -/
theorem power_on_image (rom : List UInt8) (config : Config) (entropy : RandomSource) :
    ((∃ m, load rom config entropy = .ok m) ↔ config.rate ≠ 0 ∧ rom.length ≤ 3584) ∧
    (∀ e, load rom config entropy = .error e ↔
      config.rate = 0 ∧ e = .zeroRate ∨
        config.rate ≠ 0 ∧ 3584 < rom.length ∧ e = .programTooLarge rom.length) ∧
    (∀ m, load rom config entropy = .ok m → m.program.bytes = rom ∧ m.state.PoweredOn rom) ∧
    ∀ p : Program, p.bytes = rom →
      (State.boot p).PoweredOn rom ∧ (∀ s : State, (s.reset p).PoweredOn rom) ∧
      ∀ s : Flat.State, s.WellFormed → ∃ t : State, s.reset? p = some t.flat ∧ t.PoweredOn rom := by
  refine ⟨exists_load_iff, fun e ↦ load_eq_error_iff, ?_, ?_⟩
  · intro m hm
    obtain ⟨p, hp, rfl⟩ := of_load hm
    obtain rfl := Program.ofBytes_eq_ok_iff.mp hp
    have hboot := State.poweredOn_reset {} p
    exact ⟨rfl, { hboot with }⟩
  · rintro p rfl
    exact ⟨State.poweredOn_reset {} p, (State.poweredOn_reset · p),
      fun s hs ↦ Flat.State.poweredOn_of_reset? hs p⟩

end Machine

end Chip8
