import Chip8.Proofs.Fetch
import Chip8.Proofs.Run
import Mathlib.Data.List.Forall2

namespace Chip8

inductive Glimpse where
  | nothing
  | key (pressed : Bool)
  | first (key : Option UInt8)
deriving DecidableEq

/-- A skip on a key sees the key that its register names. A wait sees the latched key until that one
is released, and before a key is latched it sees the first pressed one. -/
def State.glimpse (s : State) (keys : Keypad) : Instruction → Glimpse
  | .skip (.keyPressed x) => .key (keys.pressed (s.registers.get x))
  | .skip (.keyReleased x) => .key (keys.pressed (s.registers.get x))
  | .waitForKey _ =>
    match s.latch with
    | .awaitingRelease _ key => .key (keys.pressed key)
    | _ => .first keys.firstPressed
  | _ => .nothing

namespace State

variable {s : State} {d : Dialect} {keys keys' : Keypad} {i : Instruction} {x : Register}

theorem poll_eq_of_glimpse (h : s.glimpse keys (.waitForKey x) = s.glimpse keys' (.waitForKey x)) :
    s.latch.poll x keys = s.latch.poll x keys' := by
  simp only [glimpse] at h
  cases hl : s.latch with
  | awaitingRelease r k =>
    rw [hl] at h
    simp only [KeyLatch.poll, Glimpse.key.inj h]
  | _ =>
    rw [hl] at h
    simp only [KeyLatch.poll, Glimpse.first.inj h]

theorem execute_eq_of_glimpse (h : s.glimpse keys i = s.glimpse keys' i) :
    s.execute d keys i = s.execute d keys' i := by
  cases i with
  | skip condition =>
    cases condition with
    | keyPressed x | keyReleased x =>
      have hk : keys.pressed (s.registers.get x) = keys'.pressed (s.registers.get x) :=
        Glimpse.key.inj h
      simp only [execute, withRegisters, Condition.holds, hk]
    | _ => rfl
  | waitForKey x => simp only [execute, waitForKey, poll_eq_of_glimpse h]
  | _ => rfl

theorem step_eq_of_glimpse (h : s.glimpse keys s.instruction = s.glimpse keys' s.instruction) :
    s.step d keys = s.step d keys' := by
  -- Fetching moves the program counter, which no glimpse depends on.
  have hf : s.fetched.glimpse keys s.instruction = s.fetched.glimpse keys' s.instruction := h
  have he := execute_eq_of_glimpse (d := d) hf
  rw [fetched] at he
  simp only [step, he]

end State

inductive Event.SameButKeys : Event → Event → Prop
  | cpu (keys keys' : Keypad) : SameButKeys (.cpu keys) (.cpu keys')
  | same (e : Event) : SameButKeys e e

namespace Machine

variable {m : Machine} {e f : Event} {es fs : List Event}

/-- At each CPU tick of the first run, the instruction that is fetched there sees the same of the
two keypads. -/
def SeesAlike (m : Machine) (es fs : List Event) : Prop :=
  ∀ n keys, es[n]? = some (.cpu keys) → ∀ keys', fs[n]? = some (.cpu keys') →
    (m.run (es.take n)).state.glimpse keys (m.run (es.take n)).state.instruction =
      (m.run (es.take n)).state.glimpse keys' (m.run (es.take n)).state.instruction

theorem seesAlike_cons : m.SeesAlike (e :: es) (f :: fs) ↔
    (∀ keys, e = .cpu keys → ∀ keys', f = .cpu keys' →
      m.state.glimpse keys m.state.instruction = m.state.glimpse keys' m.state.instruction) ∧
    (m.respond e).1.SeesAlike es fs := by
  constructor
  · intro h
    refine ⟨fun keys he keys' hf ↦ ?_, fun n keys he keys' hf ↦ h (n + 1) keys he keys' hf⟩
    exact h 0 keys (congrArg some he) keys' (congrArg some hf)
  · rintro ⟨h₀, h⟩ n keys he keys' hf
    cases n with
    | zero => exact h₀ keys (Option.some.inj he) keys' (Option.some.inj hf)
    | succ n => exact h n keys he keys' hf

theorem respond_eq_of_glimpse (h : Event.SameButKeys e f)
    (hs : ∀ keys, e = .cpu keys → ∀ keys', f = .cpu keys' →
      m.state.glimpse keys m.state.instruction = m.state.glimpse keys' m.state.instruction) :
    m.respond e = m.respond f := by
  cases h with
  | cpu keys keys' =>
    have hk := State.step_eq_of_glimpse (d := m.config.dialect) (hs keys rfl keys' rfl)
    simp only [respond, cpuTick, hk]
  | same => rfl

/-- Two runs whose CPU ticks come with different keypads are the same run, answers and machines, if
at each tick the fetched instruction sees the same of both. Whatever it does not look at may differ
from tick to tick. -/
theorem history_eq_of_seesAlike (h : List.Forall₂ Event.SameButKeys es fs)
    (hs : m.SeesAlike es fs) : m.history es = m.history fs := by
  induction h generalizing m with
  | nil => rfl
  | cons he _ ih =>
    obtain ⟨h₀, h⟩ := seesAlike_cons.mp hs
    have hr := respond_eq_of_glimpse he h₀
    rw [history, history, ← hr, ih h]

/-- A skip on the key in `V0`, which is `31` and so no key at all, and a wait behind it. -/
def asksForKeys : Machine :=
  { poised [0xE0, 0x9E, 0xF2, 0x0A] with state.registers.v := Vector.replicate 16 31 }

def chordHeld : List Event :=
  [.cpu (.ofPressed [15, 3]), .cpu (.ofPressed [4, 9]), .timer, .cpu (.ofPressed [4]),
    .cpu .released]

def keyHeld : List Event :=
  [.cpu .released, .cpu (.ofPressed [4]), .timer, .cpu (.ofPressed [0, 4]), .cpu (.ofPressed [7])]

/-- The skip asks for none of the keys, and the wait for the lowest one and then for its release. -/
theorem asksForKeys_alike :
    List.Forall₂ Event.SameButKeys chordHeld keyHeld ∧ asksForKeys.SeesAlike chordHeld keyHeld ∧
    asksForKeys.history chordHeld = asksForKeys.history keyHeld := by
  have hk : List.Forall₂ Event.SameButKeys chordHeld keyHeld :=
    .cons (.cpu _ _) (.cons (.cpu _ _) (.cons (.same _) (.cons (.cpu _ _) (.cons (.cpu _ _) .nil))))
  have hs : asksForKeys.SeesAlike chordHeld keyHeld := by
    simp only [chordHeld, keyHeld, seesAlike_cons, Event.cpu.injEq, forall_eq', reduceCtorEq,
      false_implies, implies_true, true_and]
    refine ⟨by decide +kernel, by decide +kernel, by decide +kernel, by decide +kernel, ?_⟩
    exact fun n keys he ↦ nomatch he
  exact ⟨hk, hs, history_eq_of_seesAlike hk hs⟩

end Machine

end Chip8
