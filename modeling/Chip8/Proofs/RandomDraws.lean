import Chip8.Proofs.Footprint
import Chip8.Proofs.Run
import Chip8.Proofs.Writes

namespace Chip8

def Response.draws (n : Nat) : Response → Nat
  | .cpu (.retired _ (.random _ _)) => n + 1
  | .reset => 0
  | _ => n

theorem Response.draws_eq_self {r : Response} (hr : r ≠ .reset)
    (hd : ∀ p x mask, r ≠ .cpu (.retired p (.random x mask))) (n : Nat) : r.draws n = n := by
  cases r with
  | cpu outcome =>
    cases outcome with
    | retired p i =>
      cases i with
      | random x mask => exact absurd rfl (hd p x mask)
      | _ => rfl
    | _ => rfl
  | reset => exact absurd rfl hr
  | _ => rfl

/-- How many random bytes a run has drawn since its last reset, or since its start without one. -/
def Machine.draws (m : Machine) (es : List Event) : Nat := (m.follow es Response.draws 0).2

def RandomSource.byte (words : Nat → UInt32) (n : Nat) : UInt8 := (words n).toUInt8

theorem RandomSource.next_mk (words : Nat → UInt32) (n : Nat) :
    next ⟨words, n⟩ = (byte words n, ⟨words, n + 1⟩) := rfl

theorem Instruction.eq_of_part?_random {i : Instruction} (h : i.part? = some .random) :
    ∃ x mask, i = .random x mask := by
  cases i with
  | random x mask => exact ⟨x, mask, rfl⟩
  | _ => cases h

namespace State

variable {s : State} {d : Dialect} {keys : Keypad} {words : Nat → UInt32} {n : Nat}

/-- A step takes a word from the random source exactly if it retires a draw from it. -/
theorem step_random (hr : s.random = ⟨words, n⟩) : (s.step d keys).1.random =
    ⟨words, (Response.cpu (s.step d keys).2).draws n⟩ := by
  by_cases hp : s.instruction.part? = some .random
  · obtain ⟨x, mask, hi⟩ := Instruction.eq_of_part?_random hp
    rw [step_of_retired hi rfl]
    have hnext := congrArg (·.next.2) hr
    rwa [RandomSource.next_mk] at hnext
  · rw [(s.step_footprint d keys).random hp, hr]
    cases ho : (s.step d keys).2 with
    | retired p i =>
      obtain ⟨-, rfl, -⟩ := eq_of_step_retired ho
      cases hi : s.instruction with
      | random x mask => exact absurd (congrArg Instruction.part? hi) hp
      | _ => rfl
    | _ => rfl

theorem get_of_random {p : UInt16} {x : Register} {mask : UInt8} (hr : s.random = ⟨words, n⟩)
    (h : (s.step d keys).2 = .retired p (.random x mask)) :
    (s.step d keys).1.registers.get x = RandomSource.byte words n &&& mask := by
  obtain ⟨-, hi, -⟩ := eq_of_step_retired h
  rw [step_of_retired hi.symm rfl]
  have hnext := congrArg (·.next.1 &&& mask) hr
  rw [RandomSource.next_mk] at hnext
  exact (Registers.get_set_self ..).trans hnext

end State

namespace Machine

variable {m : Machine} {es : List Event} {seed : UInt64} {n : Nat}

theorem random_respond (hs : m.config.seed = some seed)
    (hr : m.state.random = ⟨m.streams seed, n⟩) (e : Event) :
    (m.respond e).1.state.random = ⟨m.streams seed, (m.respond e).2.draws n⟩ := by
  cases e with
  | cpu keys => exact State.step_random hr
  | timer | take => exact hr
  | reset =>
    simp only [respond, reset, source, hs]
    rfl

theorem eq_reset_of_respond {e : Event} (h : (m.respond e).2 = .reset) : e = .reset := by
  cases e with
  | reset => rfl
  | _ => cases h

theorem random_run (hs : m.config.seed = some seed)
    (hr : m.state.random = ⟨m.streams seed, n⟩) :
    (m.run es).state.random = ⟨m.streams seed, (m.follow es Response.draws n).2⟩ := by
  induction es generalizing m n with
  | nil => exact hr
  | cons e es ih =>
    have hc : (m.respond e).1.config.seed = some seed := by rwa [config_respond]
    have hstreams := streams_respond m e
    have hrest := ih hc (by rw [hstreams, random_respond hs hr e])
    rwa [hstreams] at hrest

variable {rom : List UInt8} {config : Config} {entropy : RandomSource}
  {streams : UInt64 → Nat → UInt32}

/-- However a machine with a seed was run, its random source has given exactly as many words as
draws have retired since the last reset. The next draw therefore puts the byte of that number under
its mask into its register, and no other event but a reset moves the source. -/
theorem random_byte_by_draws (h : load rom config entropy streams = .ok m)
    (hs : config.seed = some seed) (es : List Event) :
    (m.run es).state.random = ⟨streams seed, m.draws es⟩ ∧
    (∀ keys p x mask, ((m.run es).cpuTick keys).2 = .retired p (.random x mask) →
      ((m.run es).cpuTick keys).1.state.registers.get x =
        RandomSource.byte (streams seed) (m.draws es) &&& mask) ∧
    ∀ e, e ≠ .reset → (∀ p x mask, ((m.run es).respond e).2 ≠ .cpu (.retired p (.random x mask))) →
      ((m.run es).respond e).1.state.random = (m.run es).state.random := by
  have hm : m.config.seed = some seed ∧ m.streams = streams ∧
      m.state.random = ⟨streams seed, 0⟩ := by
    obtain ⟨p, -, rfl⟩ := of_load h
    refine ⟨hs, rfl, ?_⟩
    simp only [source, hs]
    rfl
  obtain ⟨hm, rfl, hstart⟩ := hm
  have hr : (m.run es).state.random = ⟨m.streams seed, m.draws es⟩ := random_run hm hstart
  refine ⟨hr, fun keys p x mask ho ↦ State.get_of_random hr ho, fun e he hd ↦ ?_⟩
  rw [← streams_run m es] at hr
  rw [random_respond ((congrArg Config.seed (m.config_run es)).trans hm) hr e,
    Response.draws_eq_self (fun h ↦ he (eq_reset_of_respond h)) hd, hr]

/-- A draw into `VF` behind a draw under an empty mask, which was drawn once before a reset, too. -/
theorem flag_draw_takes_second_byte :
    ∃ m, load [0xC0, 0x00, 0xCF, 0x0F] { seed := some 7 } (.cycle #[]) = .ok m ∧
      ∃ w, w = m.run [.cpu .released, .timer, .reset, .cpu .released, .take] ∧
        (w.cpuTick .released).2 = .retired 0x202 (.random .flag 0x0F) ∧
        (w.cpuTick .released).1.state.registers.get .flag =
          RandomSource.byte (RandomSource.words 7) 1 &&& 0x0F := by
  have hl : load [0xC0, 0x00, 0xCF, 0x0F] { seed := some 7 } (.cycle #[]) = .ok _ := rfl
  obtain ⟨-, hb, -⟩ := random_byte_by_draws hl rfl
    [.cpu .released, .timer, .reset, .cpu .released, .take]
  refine ⟨_, hl, _, rfl, ?_⟩
  generalize hw : run _ _ = w at hb ⊢
  generalize hn : draws _ _ = n at hb
  obtain rfl : n = 1 := by
    rw [← hn]
    decide +kernel
  have ho : (w.cpuTick .released).2 = .retired 0x202 (.random .flag 0x0F) := by
    rw [← hw]
    decide +kernel
  exact ⟨ho, hb _ _ _ _ ho⟩

end Machine

end Chip8
