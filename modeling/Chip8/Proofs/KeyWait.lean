import Chip8.Proofs.Fetch
import Chip8.Proofs.Run

namespace Chip8

namespace Keypad

variable {keys : Keypad} {k : UInt8}

theorem pressed_of_le (h : 16 ≤ k.toNat) : keys.pressed k = false :=
  dif_neg (Nat.not_lt.mpr h)

theorem firstPressed_eq_none (h : keys.firstPressed = none) (k : UInt8) :
    keys.pressed k = false := by
  by_cases hk : k.toNat < 16
  · have hm : k ∈ Keypad.keys :=
      List.mem_map.mpr ⟨k.toNat, List.mem_range.mpr hk, UInt8.ofNat_toNat⟩
    simpa using List.find?_eq_none.mp h k hm
  · exact pressed_of_le (Nat.not_lt.mp hk)

theorem firstPressed_eq_some (h : keys.firstPressed = some k) :
    k ≤ 0xF ∧ keys.pressed k = true ∧ ∀ j < k, keys.pressed j = false := by
  rw [firstPressed, Keypad.keys, List.find?_map, Option.map_eq_some_iff] at h
  obtain ⟨n, hn, rfl⟩ := h
  obtain ⟨hp, hlt, hmin⟩ := List.find?_range_eq_some.mp hn
  have hlt : n < 16 := List.mem_range.mp hlt
  have ht : (UInt8.ofNat n).toNat = n := UInt8.toNat_ofNat_of_lt' (by simp only [UInt8.size]; omega)
  refine ⟨?_, hp, fun j hj ↦ ?_⟩
  · rw [UInt8.le_iff_toNat_le, ht]
    exact Nat.le_of_lt_succ hlt
  · rw [UInt8.lt_iff_toNat_lt, ht] at hj
    have hj := hmin j.toNat hj
    rw [Function.comp_apply, UInt8.ofNat_toNat] at hj
    simpa using hj

/-- Snapshot `i` is the first with a pressed key, and `k` is the lowest key pressed there. -/
structure FirstPress (K : Nat → Keypad) (i : Nat) (k : UInt8) : Prop where
  none_before : ∀ j < i, ∀ key, (K j).pressed key = false
  pressed : (K i).pressed k = true
  lowest : ∀ key < k, (K i).pressed key = false

/-- Snapshot `n` is the first behind the first press in which the key of that press is up. -/
def Keystroke (K : Nat → Keypad) (n : Nat) (k : UInt8) : Prop :=
  ∃ i < n, FirstPress K i k ∧ (∀ j, i < j → j < n → (K j).pressed k = true) ∧
    (K n).pressed k = false

variable {K : Nat → Keypad} {i j n : Nat} {l : UInt8}

end Keypad

namespace KeyLatch

variable {K : Nat → Keypad} {n : Nat} {x : Register} {k : UInt8} {latch : KeyLatch}

/-- The four ways of a poll: a latched key is held or let go, and without one no key is pressed or
the lowest pressed one is latched. -/
theorem poll_cases (latch : KeyLatch) (x : Register) (keys : Keypad) :
    (∃ r k, latch = .awaitingRelease r k ∧ keys.pressed k = true ∧
      latch.poll x keys = (latch, none)) ∨
    (∃ r k, latch = .awaitingRelease r k ∧ keys.pressed k = false ∧
      latch.poll x keys = (.idle, some (r, k))) ∨
    ((∀ r k, latch ≠ .awaitingRelease r k) ∧ keys.firstPressed = none ∧
      latch.poll x keys = (.awaitingPress x, none)) ∨
    ∃ k, (∀ r k, latch ≠ .awaitingRelease r k) ∧ keys.firstPressed = some k ∧
      latch.poll x keys = (.awaitingRelease x k, none) := by
  cases latch with
  | awaitingRelease r k =>
    cases hk : keys.pressed k with
    | true => exact .inl ⟨r, k, rfl, hk, by simp only [poll, hk, if_true]⟩
    | false =>
      exact .inr (.inl ⟨r, k, rfl, hk, by simp only [poll, hk, Bool.false_eq_true, if_false]⟩)
  | _ =>
    cases hk : keys.firstPressed with
    | none => exact .inr (.inr (.inl ⟨nofun, rfl, by simp only [poll, hk]⟩))
    | some k => exact .inr (.inr (.inr ⟨k, nofun, rfl, by simp only [poll, hk]⟩))

/-- What a latch that waits for `x` says about the snapshots before number `n`. -/
def Tracks (K : Nat → Keypad) (x : Register) (n : Nat) : KeyLatch → Prop
  | awaitingRelease r k =>
    r = x ∧ ∃ i < n, Keypad.FirstPress K i k ∧ ∀ j, i < j → j < n → (K j).pressed k = true
  | _ => ∀ j < n, ∀ key, (K j).pressed key = false

theorem Tracks.none_before (h : Tracks K x n latch) (hl : ∀ r k, latch ≠ .awaitingRelease r k) :
    ∀ j < n, ∀ key, (K j).pressed key = false := by
  cases latch with
  | awaitingRelease r k => exact absurd rfl (hl r k)
  | _ => exact h

theorem Tracks.poll (h : Tracks K x n latch) :
    (∃ k, Keypad.Keystroke K n k ∧ latch.poll x (K n) = (.idle, some (x, k))) ∨
      ∃ latch', latch.poll x (K n) = (latch', none) ∧ Tracks K x (n + 1) latch' := by
  obtain ⟨r, k, rfl, hk, hp⟩ | ⟨r, k, rfl, hk, hp⟩ | ⟨hl, hk, hp⟩ | ⟨k, hl, hk, hp⟩ :=
    poll_cases latch x (K n)
  · obtain ⟨rfl, i, hi, hf, hd⟩ := h
    refine .inr ⟨_, hp, rfl, i, Nat.lt_succ_of_lt hi, hf, fun j hij hj ↦ ?_⟩
    rcases Nat.lt_succ_iff_lt_or_eq.mp hj with hlt | rfl
    · exact hd j hij hlt
    · exact hk
  · obtain ⟨rfl, i, hi, hf, hd⟩ := h
    exact .inl ⟨k, ⟨i, hi, hf, hd, hk⟩, hp⟩
  · refine .inr ⟨_, hp, fun j hj ↦ ?_⟩
    rcases Nat.lt_succ_iff_lt_or_eq.mp hj with hlt | rfl
    · exact h.none_before hl j hlt
    · exact Keypad.firstPressed_eq_none hk
  · -- The first press is this very snapshot, so there is none yet in which the key was held on.
    obtain ⟨-, hpressed, hmin⟩ := Keypad.firstPressed_eq_some hk
    refine .inr ⟨_, hp, rfl, n, Nat.lt_succ_self n, ⟨h.none_before hl, hpressed, hmin⟩, ?_⟩
    intro j hij hj
    omega

end KeyLatch

/-- The instruction asks for a key and gets none: no key is latched, or the latched one is still
down. -/
inductive Instruction.Waits (latch : KeyLatch) (keys : Keypad) : Instruction → Prop
  | waitForKey (x : Register) :
      (∀ r k, latch = .awaitingRelease r k → keys.pressed k = true) →
        Waits latch keys (.waitForKey x)

namespace State

variable {s t : State} {keys : Keypad} {x r : Register} {k : UInt8} {latch : KeyLatch}

theorem step_of_poll_none (d : Dialect) (hi : s.instruction = .waitForKey x)
    (h : s.latch.poll x keys = (latch, none)) :
    s.step d keys = ({ s with latch, registers.pc := s.registers.fetchAddress },
      .awaitingKey s.registers.fetchAddress) := by
  have he : s.fetched.execute d keys (.waitForKey x) =
      .blocked { s with latch, registers := s.registers.fetched.rewind } := by
    simp only [execute, waitForKey, fetched, withRegisters, h]
  rw [step_of_blocked hi he, Registers.rewind_fetched]

theorem step_of_poll_some (d : Dialect) (hi : s.instruction = .waitForKey x)
    (h : s.latch.poll x keys = (latch, some (r, k))) :
    s.step d keys = ({ s with
        latch, registers := { s.registers.set r k with pc := s.registers.fetchAddress + 2 } },
      .retired s.registers.fetchAddress (.waitForKey x)) := by
  have he : s.fetched.execute d keys (.waitForKey x) =
      .retired { s with latch, registers := s.registers.fetched.set r k } := by
    simp only [execute, waitForKey, fetched, withRegisters, h]
  rw [step_of_retired hi he]
  rfl

theorem waits_of_execute {d : Dialect} {i : Instruction} (h : s.execute d keys i = .blocked t) :
    i.Waits s.latch keys := by
  cases i with
  | waitForKey x =>
    simp only [execute, waitForKey] at h
    obtain ⟨r, k, hl, hk, -⟩ | ⟨r, k, -, -, hp⟩ | ⟨hl, -, -⟩ | ⟨k, hl, -, -⟩ :=
      s.latch.poll_cases x keys
    · refine .waitForKey x fun r' k' he ↦ ?_
      cases hl.symm.trans he
      exact hk
    · rw [hp] at h
      cases h
    · exact .waitForKey x fun r k he ↦ absurd he (hl r k)
    · exact .waitForKey x fun r k he ↦ absurd he (hl r k)
  | ret | call target =>
    simp only [execute] at h
    split at h <;> cases h
  | _ => cases h

theorem step_eq_awaitingKey_iff {d : Dialect} {p : UInt16} : (s.step d keys).2 = .awaitingKey p ↔
    s.instruction.Waits s.latch keys ∧ p = s.registers.fetchAddress := by
  constructor
  · intro h
    cases he : s.fetched.execute d keys s.instruction with
    | retired t =>
      rw [step_of_retired rfl he] at h
      cases h
    | blocked t =>
      rw [step_of_blocked rfl he] at h
      cases h
      exact ⟨waits_of_execute (s := s.fetched) he, rfl⟩
    | fault f =>
      rw [step_of_fault rfl he] at h
      cases h
  · rintro ⟨hw, rfl⟩
    generalize hi : s.instruction = i at hw
    obtain ⟨x, hkeys⟩ := hw
    obtain ⟨r, k, -, -, hp⟩ | ⟨r, k, hl, hk, -⟩ | ⟨-, -, hp⟩ | ⟨k, -, -, hp⟩ :=
      s.latch.poll_cases x keys
    · exact congrArg Prod.snd (step_of_poll_none d hi hp)
    · cases hk.symm.trans (hkeys r k hl)
    · exact congrArg Prod.snd (step_of_poll_none d hi hp)
    · exact congrArg Prod.snd (step_of_poll_none d hi hp)

end State

/-- CPU ticks with the snapshots `K`, the first `n` of them, and timer ticks in the gaps. -/
def Event.paced (K : Nat → Keypad) (gap : Nat → Nat) : Nat → List Event
  | 0 => List.replicate (gap 0) .timer
  | n + 1 => paced K gap n ++ .cpu (K n) :: List.replicate (gap (n + 1)) .timer

namespace Machine

variable {m : Machine} {p : UInt16} {x : Register} {K : Nat → Keypad} {n : Nat}

/-- A CPU tick goes on waiting at `p`: it moves the latch and the program counter alone. -/
def KeepsWaiting (m : Machine) (keys : Keypad) (p : UInt16) : Prop :=
  (m.cpuTick keys).2 = .awaitingKey p ∧
    ∃ latch, (m.cpuTick keys).1.state = { m.state with latch, registers.pc := p }

/-- A CPU tick ends the wait at `p`: it puts `k` into `x` and moves on to the next instruction. -/
def EndsWait (m : Machine) (keys : Keypad) (p : UInt16) (x : Register) (k : UInt8) : Prop :=
  (m.cpuTick keys).2 = .retired p (.waitForKey x) ∧
    (m.cpuTick keys).1.state = { m.state with
      latch := .idle, registers := { m.state.registers.set x k with pc := p + 2 } }

/-- The machine is about to wait at `p` for a key in `x`, having seen the first `n` snapshots. -/
structure AtWait (p : UInt16) (x : Register) (K : Nat → Keypad) (n : Nat) (m : Machine) : Prop where
  address : m.state.registers.fetchAddress = p
  instruction : m.state.instruction = .waitForKey x
  latch : m.state.latch.Tracks K x n

theorem AtWait.timers (h : AtWait p x K n m) (g : Nat) :
    AtWait p x K n (m.run (List.replicate g .timer)) := by
  refine run_induction h (fun m e he hm ↦ ?_)
  rw [List.eq_of_mem_replicate he]
  exact ⟨hm.address, hm.instruction, hm.latch⟩

theorem AtWait.tick (h : AtWait p x K n m) :
    (∃ k, Keypad.Keystroke K n k ∧ m.EndsWait (K n) p x k) ∨
      m.KeepsWaiting (K n) p ∧ AtWait p x K (n + 1) (m.cpuTick (K n)).1 := by
  obtain ⟨rfl, hi, hl⟩ := h
  obtain ⟨k, hk, hp⟩ | ⟨latch, hp, hl'⟩ := hl.poll
  · have hs := State.step_of_poll_some m.config.dialect hi hp
    exact .inl ⟨k, hk, congrArg Prod.snd hs, congrArg Prod.fst hs⟩
  · have hs := State.step_of_poll_none m.config.dialect hi hp
    have hf : (m.cpuTick (K n)).1.state =
        { m.state with latch, registers.pc := m.state.registers.fetchAddress } :=
      congrArg Prod.fst hs
    have ha : (m.cpuTick (K n)).1.state.registers.fetchAddress =
        m.state.registers.fetchAddress := by
      rw [hf]
      exact Registers.fetchAddress_of_le (Registers.fetchAddress_le _)
    refine .inr ⟨⟨congrArg Prod.snd hs, latch, hf⟩, ha, ?_, ?_⟩
    · rw [State.instruction, State.fetchedWord, ha, hf]
      exact hi
    · rw [hf]
      exact hl'

theorem AtWait.run (h : AtWait p x K 0 m) (gap : Nat → Nat)
    (hn : ∀ j < n, ∀ k, ¬ Keypad.Keystroke K j k) :
    AtWait p x K n (m.run (Event.paced K gap n)) := by
  induction n with
  | zero => exact h.timers _
  | succ n ih =>
    have hm := ih fun j hj ↦ hn j (by omega)
    rw [Event.paced, run_append]
    obtain ⟨k, hk, -⟩ | ⟨-, hw⟩ := hm.tick
    · exact absurd hk (hn n (by omega) k)
    · exact hw.timers _

end Machine

end Chip8
