import Chip8.Proofs.Fetch
import Chip8.Proofs.Run

namespace Chip8

/-- Two dialects disagree on an instruction: they differ in the choice that it depends on, and it is
not among the cases in which both alternatives of that choice come to the same. -/
inductive Dialect.DisagreeOn (d d' : Dialect) : Instruction → Prop
  | store (h : d.advancesIndex ≠ d'.advancesIndex) (x : Register) :
      DisagreeOn d d' (.storeRegisters x)
  | load (h : d.advancesIndex ≠ d'.advancesIndex) (x : Register) :
      DisagreeOn d d' (.loadRegisters x)
  | shift (h : d.shiftsInPlace ≠ d'.shiftsInPlace) {op : Operation} (hop : op.isShift = true)
      {x y : Register} (hxy : x ≠ y) : DisagreeOn d d' (.compute op x y)
  | jump (h : d.namesOffset ≠ d'.namesOffset) {address : UInt16}
      (ha : address.toNat / 256 % 16 ≠ 0) : DisagreeOn d d' (.jumpWithOffset address)

variable {d d' : Dialect} {i : Instruction}

namespace Registers

variable (r : Registers)

theorem compute_eq_of_agree {op : Operation} {x y : Register}
    (h : op.isShift = true → d.shiftsInPlace = d'.shiftsInPlace ∨ x = y) :
    r.compute d op x y = r.compute d' op x y := by
  cases hop : op.isShift with
  | false => simp only [compute, hop, Bool.false_and]
  | true =>
    obtain hs | rfl := h hop
    · simp only [compute, hs]
    · simp only [compute, ite_self]

theorem jumpRegister_of_nibble_eq_zero {address : UInt16} (h : address.toNat / 256 % 16 = 0)
    (d : Dialect) : jumpRegister d address = .first := by
  have hr : Instruction.offsetRegister address = .first := Fin.ext h
  rw [jumpRegister, hr, ite_self]

theorem jumpTarget_eq_of_agree {address : UInt16}
    (h : d.namesOffset = d'.namesOffset ∨ address.toNat / 256 % 16 = 0) :
    r.jumpTarget d address = r.jumpTarget d' address := by
  have hr : jumpRegister d address = jumpRegister d' address := by
    obtain hn | ha := h
    · rw [jumpRegister, jumpRegister, hn]
    · rw [jumpRegister_of_nibble_eq_zero ha, jumpRegister_of_nibble_eq_zero ha]
  rw [jumpTarget, jumpTarget, hr]

theorem indexAfterTransfer_eq_of_agree (h : d.advancesIndex = d'.advancesIndex) (x : Register) :
    r.indexAfterTransfer d x = r.indexAfterTransfer d' x := by
  rw [indexAfterTransfer, indexAfterTransfer, h]

end Registers

namespace State

variable {s : State} {keys : Keypad}

theorem execute_eq_of_agree (h : ¬ d.DisagreeOn d' i) :
    s.execute d keys i = s.execute d' keys i := by
  cases i with
  | compute op x y =>
    have hc : op.isShift = true → d.shiftsInPlace = d'.shiftsInPlace ∨ x = y := by
      intro hop
      refine Decidable.or_iff_not_imp_left.mpr fun hs ↦ Decidable.not_not.mp fun hxy ↦ ?_
      exact h (.shift hs hop hxy)
    simp only [execute, withRegisters, s.registers.compute_eq_of_agree hc]
  | jumpWithOffset address =>
    have hj : d.namesOffset = d'.namesOffset ∨ address.toNat / 256 % 16 = 0 := by
      refine Decidable.or_iff_not_imp_left.mpr fun hn ↦ Decidable.not_not.mp fun ha ↦ ?_
      exact h (.jump hn ha)
    simp only [execute, s.registers.jumpTarget_eq_of_agree hj]
  | storeRegisters x =>
    have hs : d.advancesIndex = d'.advancesIndex := Decidable.not_not.mp fun hn ↦ h (.store hn x)
    simp only [execute, s.registers.indexAfterTransfer_eq_of_agree hs]
  | loadRegisters x =>
    have hl : d.advancesIndex = d'.advancesIndex := Decidable.not_not.mp fun hn ↦ h (.load hn x)
    simp only [execute, s.registers.indexAfterTransfer_eq_of_agree hl]
  | _ => rfl

theorem step_eq_of_agree (h : ¬ d.DisagreeOn d' s.instruction) :
    s.step d keys = s.step d' keys := by
  have he : s.fetched.execute d keys s.instruction = s.fetched.execute d' keys s.instruction :=
    execute_eq_of_agree h
  rw [fetched] at he
  simp only [step, he]

theorem execute_of_disagree (h : d.DisagreeOn d' i) (s : State) (keys : Keypad) :
    ∃ t, s.execute d keys i = .retired t := by
  cases h <;> exact ⟨_, rfl⟩

end State

namespace Machine

variable {m n : Machine} {e : Event} {es : List Event}

def inDialect (m : Machine) (d : Dialect) : Machine := { m with config.dialect := d }

theorem respond_inDialect
    (h : ∀ p i, (m.respond e).2 = .cpu (.retired p i) → ¬ m.config.dialect.DisagreeOn d i) :
    (m.inDialect d).respond e = ((m.respond e).1.inDialect d, (m.respond e).2) := by
  cases e with
  | cpu keys =>
    have ha : ¬ m.config.dialect.DisagreeOn d m.state.instruction := by
      intro hd
      obtain ⟨t, he⟩ := State.execute_of_disagree hd m.state.fetched keys
      have ho : m.state.step m.config.dialect keys = _ := State.step_of_retired rfl he
      exact h _ _ (congrArg Response.cpu (congrArg Prod.snd ho)) hd
    have hs : m.state.step d keys = m.state.step m.config.dialect keys :=
      (State.step_eq_of_agree ha).symm
    simp only [respond, cpuTick, inDialect, hs]
  | timer | take | reset => rfl

theorem history_inDialect
    (h : ∀ r ∈ m.history es, ∀ p i, r.1 = .cpu (.retired p i) →
      ¬ m.config.dialect.DisagreeOn d i) :
    (m.inDialect d).history es = (m.history es).map fun r ↦ (r.1, r.2.inDialect d) := by
  induction es generalizing m with
  | nil => rfl
  | cons e es ih =>
    have hr := respond_inDialect (h _ List.mem_cons_self)
    simp only [history, List.map_cons, hr]
    rw [ih]
    intro r hm
    rw [config_respond]
    exact h r (List.mem_cons_of_mem _ hm)

variable {rom : List UInt8} {config : Config} {entropy : RandomSource} {seed : UInt64}

theorem load_inDialect (h : load rom config entropy = .ok m) (hs : config.seed = some seed)
    (d : Dialect) (entropy' : RandomSource) :
    load rom { config with dialect := d } entropy' = .ok (m.inDialect d) := by
  obtain ⟨hr, p, hp, rfl⟩ := load_eq_ok_iff.mp h
  refine load_eq_ok_iff.mpr ⟨hr, p, hp, ?_⟩
  simp only [inDialect, source, hs, Option.map_some, Option.getD_some]

/-- A program that is loaded with the same seed in another dialect runs there as it does in the
first, as long as no instruction retires on which the two dialects disagree: the answers are the
same, and the machines behind each of them are equal but for the dialect. -/
theorem dialects_run_alike (h : load rom config entropy = .ok m) (hs : config.seed = some seed)
    (d : Dialect) (entropy' : RandomSource)
    (hd : ∀ r ∈ m.history es, ∀ p i, r.1 = .cpu (.retired p i) →
      ¬ config.dialect.DisagreeOn d i) :
    ∃ n, load rom { config with dialect := d } entropy' = .ok n ∧
      n.history es = (m.history es).map fun r ↦ (r.1, r.2.inDialect d) := by
  refine ⟨m.inDialect d, load_inDialect h hs d entropy', history_inDialect ?_⟩
  obtain ⟨p, -, rfl⟩ := of_load h
  exact hd

/-- A shift of a register into itself and an offset jump below `0x100`, in the two dialects that
differ in everything. -/
theorem shift_and_low_jump_alike :
    ∃ m, load [0x80, 0x06, 0xB0, 0xA0] { dialect := .legacy, seed := some 7 } (.cycle #[]) = .ok m ∧
      ∃ n, load [0x80, 0x06, 0xB0, 0xA0] { dialect := .modern, seed := some 7 } (.cycle #[1]) =
          .ok n ∧
        n.history (List.replicate 3 (.cpu .released)) =
          (m.history (List.replicate 3 (.cpu .released))).map
            fun r ↦ (r.1, r.2.inDialect .modern) := by
  have hl : load [0x80, 0x06, 0xB0, 0xA0] { dialect := .legacy, seed := some 7 } (.cycle #[]) =
    .ok _ := rfl
  refine ⟨_, hl, dialects_run_alike hl rfl .modern _ fun r hr p i hi hd ↦ ?_⟩
  generalize hm : Machine.mk _ _ _ _ _ = m at hr
  have ho : (m.history (List.replicate 3 (.cpu .released))).map Prod.fst =
      [.cpu (.retired 0x200 (.compute .shiftRight .first .first)),
        .cpu (.retired 0x202 (.jumpWithOffset 0xA0)), .cpu (.fault ⟨.unknownOpcode, 0xA0, 0⟩)] := by
    rw [← hm]
    decide +kernel
  have hmem := ho ▸ List.mem_map_of_mem hr
  simp only [hi, List.mem_cons, Response.cpu.injEq, Outcome.retired.injEq, reduceCtorEq,
    List.not_mem_nil, or_false] at hmem
  obtain ⟨-, rfl⟩ | ⟨-, rfl⟩ := hmem
  · cases hd with
    | shift _ _ hxy => exact hxy rfl
  · cases hd with
    | jump _ ha => exact ha rfl

end Machine

end Chip8
