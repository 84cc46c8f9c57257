import Chip8.Proofs.Footprint
import Chip8.Proofs.KeyWait

namespace Chip8

namespace KeyLatch

variable {latch : KeyLatch} {x : Register}

/-- The latch waits for a key in `x`, and a latched key is one of the sixteen. -/
def WaitsFor (x : Register) : KeyLatch → Prop
  | idle => False
  | awaitingPress r => r = x
  | awaitingRelease r k => r = x ∧ k ≤ 0xF

theorem poll_waitsFor (h : latch = .idle ∨ latch.WaitsFor x) (keys : Keypad) :
    (∃ latch', latch.poll x keys = (latch', none) ∧ latch'.WaitsFor x) ∨
      ∃ k ≤ 0xF, latch.poll x keys = (.idle, some (x, k)) := by
  obtain ⟨r, k, rfl, -, hp⟩ | ⟨r, k, rfl, -, hp⟩ | ⟨-, -, hp⟩ | ⟨k, -, hk, hp⟩ :=
    poll_cases latch x keys
  · exact .inl ⟨_, hp, h.resolve_left nofun⟩
  · obtain ⟨rfl, hk⟩ : r = x ∧ k ≤ 0xF := h.resolve_left nofun
    exact .inr ⟨k, hk, hp⟩
  · exact .inl ⟨_, hp, rfl⟩
  · exact .inl ⟨_, hp, rfl, (Keypad.firstPressed_eq_some hk).1⟩

end KeyLatch

namespace State

variable {s : State} {r x : Register}

def AtWaitIn (s : State) (r : Register) : Prop :=
  s.registers.pc ≤ 0xFFE ∧ Instruction.decode (s.memory.word s.registers.pc) = .waitForKey r

/-- A latch in use belongs to the next instruction and holds the number of a key. -/
structure LatchGuarded (s : State) : Prop where
  press : ∀ r, s.latch = .awaitingPress r → s.AtWaitIn r
  release : ∀ r k, s.latch = .awaitingRelease r k → s.AtWaitIn r ∧ k ≤ 0xF

theorem AtWaitIn.fetchAddress (h : s.AtWaitIn r) : s.registers.fetchAddress = s.registers.pc :=
  Registers.fetchAddress_of_le h.1

theorem AtWaitIn.instruction (h : s.AtWaitIn r) : s.instruction = .waitForKey r := by
  rw [State.instruction, fetchedWord, h.fetchAddress]
  exact h.2

theorem LatchGuarded.of_idle (h : s.latch = .idle) : s.LatchGuarded :=
  ⟨fun r hr ↦ by simp [h] at hr, fun r k hr ↦ by simp [h] at hr⟩

theorem LatchGuarded.of_waitsFor (ha : s.AtWaitIn x) (hl : s.latch.WaitsFor x) :
    s.LatchGuarded := by
  constructor
  · intro r hr
    rw [hr] at hl
    obtain rfl : r = x := hl
    exact ha
  · intro r k hr
    rw [hr] at hl
    obtain ⟨rfl, hk⟩ : r = x ∧ k ≤ 0xF := hl
    exact ⟨ha, hk⟩

theorem LatchGuarded.cases (h : s.LatchGuarded) :
    s.latch = .idle ∨ ∃ r, s.AtWaitIn r ∧ s.latch.WaitsFor r := by
  cases hl : s.latch with
  | idle => exact .inl rfl
  | awaitingPress r => exact .inr ⟨r, h.press r hl, rfl⟩
  | awaitingRelease r k => exact .inr ⟨r, (h.release r k hl).1, rfl, (h.release r k hl).2⟩

/-- At a wait for `x` a step goes on waiting there, or it puts the number of a key into `x`. -/
theorem step_of_wait (hi : s.instruction = .waitForKey x)
    (hl : s.latch = .idle ∨ s.latch.WaitsFor x) (d : Dialect) (keys : Keypad) :
    (∃ latch, latch.WaitsFor x ∧ s.step d keys =
      ({ s with latch, registers.pc := s.registers.fetchAddress },
        .awaitingKey s.registers.fetchAddress)) ∨
    ∃ k ≤ 0xF, s.step d keys = ({ s with
        latch := .idle,
        registers := { s.registers.set x k with pc := s.registers.fetchAddress + 2 } },
      .retired s.registers.fetchAddress (.waitForKey x)) := by
  obtain ⟨latch, hp, hw⟩ | ⟨k, hk, hp⟩ := KeyLatch.poll_waitsFor hl keys
  · exact .inl ⟨latch, hw, step_of_poll_none d hi hp⟩
  · exact .inr ⟨k, hk, step_of_poll_some d hi hp⟩

theorem LatchGuarded.step (h : s.LatchGuarded) (d : Dialect) (keys : Keypad) :
    (s.step d keys).1.LatchGuarded := by
  by_cases hp : s.instruction.part? = some .latch
  · obtain ⟨x, hi⟩ := Instruction.eq_of_part?_latch hp
    have hl : s.latch = .idle ∨ s.latch.WaitsFor x := by
      obtain hl | ⟨r, hr, hl⟩ := h.cases
      · exact .inl hl
      · obtain rfl : x = r := Instruction.waitForKey.inj (hi.symm.trans hr.instruction)
        exact .inr hl
    obtain ⟨latch, hw, hs⟩ | ⟨k, -, hs⟩ := step_of_wait hi hl d keys
    · rw [hs]
      exact .of_waitsFor ⟨Registers.fetchAddress_le _, hi⟩ hw
    · rw [hs]
      exact .of_idle rfl
  · have hl : (s.step d keys).1.latch = s.latch := (step_footprint s d keys).latch hp
    obtain hs | ⟨r, hr, -⟩ := h.cases
    · exact .of_idle (hl.trans hs)
    · exact absurd (congrArg Instruction.part? hr.instruction) hp

end State

namespace Machine

variable {m : Machine} {rom : List UInt8} {config : Config} {entropy : RandomSource}

theorem latchGuarded_respond (h : m.state.LatchGuarded) (e : Event) :
    (m.respond e).1.state.LatchGuarded := by
  cases e with
  | cpu keys => exact h.step m.config.dialect keys
  | timer => exact ⟨h.press, h.release⟩
  | take => exact ⟨h.press, h.release⟩
  | reset => exact .of_idle rfl

/-- However a loaded machine was run, a latch in use belongs to the instruction at the program
counter. The next CPU tick therefore executes that wait: it goes on, or it completes with the number
of a key in the register of the latch. -/
theorem latch_guarded (h : load rom config entropy = .ok m) (es : List Event) :
    (m.run es).state.LatchGuarded ∧
    ∀ r, (m.run es).state.latch = .awaitingPress r ∨
        (∃ k, (m.run es).state.latch = .awaitingRelease r k) → ∀ keys,
      (m.run es).KeepsWaiting keys (m.run es).state.registers.pc ∨
        ∃ k ≤ 0xF, (m.run es).EndsWait keys (m.run es).state.registers.pc r k := by
  have hg : (m.run es).state.LatchGuarded := by
    obtain ⟨p, -, rfl⟩ := of_load h
    exact run_induction (P := (·.state.LatchGuarded)) (.of_idle rfl)
      fun m e _ hm ↦ latchGuarded_respond hm e
  refine ⟨hg, fun r hr keys ↦ ?_⟩
  have ha : (m.run es).state.AtWaitIn r ∧ (m.run es).state.latch.WaitsFor r := by
    obtain hl | ⟨k, hl⟩ := hr
    · rw [hl]
      exact ⟨hg.press r hl, rfl⟩
    · rw [hl]
      exact ⟨(hg.release r k hl).1, rfl, (hg.release r k hl).2⟩
  have hp := ha.1.fetchAddress
  obtain ⟨latch, -, hs⟩ | ⟨k, hk, hs⟩ :=
    State.step_of_wait ha.1.instruction (.inr ha.2) (m.run es).config.dialect keys
  · rw [hp] at hs
    exact .inl ⟨congrArg Prod.snd hs, latch, congrArg Prod.fst hs⟩
  · rw [hp] at hs
    exact .inr ⟨k, hk, congrArg Prod.snd hs, congrArg Prod.fst hs⟩

theorem latch_guarded_while_held :
    ∃ m, load [0xF5, 0x0A] {} (.cycle #[]) = .ok m ∧
      ∃ w, w = m.run [.cpu .released, .timer, .cpu (.ofPressed [7, 9])] ∧
        w.state.latch = .awaitingRelease 5 7 ∧ w.state.LatchGuarded ∧
        ∀ keys, w.KeepsWaiting keys w.state.registers.pc ∨
          ∃ k ≤ 0xF, w.EndsWait keys w.state.registers.pc 5 k := by
  have h := latch_guarded (show load [0xF5, 0x0A] {} (.cycle #[]) = .ok _ from rfl)
    [.cpu .released, .timer, .cpu (.ofPressed [7, 9])]
  refine ⟨_, rfl, _, rfl, by decide +kernel, h.1, ?_⟩
  exact h.2 5 (.inr ⟨7, by decide +kernel⟩)

end Machine

end Chip8
