import Chip8.Proofs.Fetch
import Chip8.Proofs.Run
import Mathlib.Data.List.Forall2

namespace Chip8

namespace State

/-- Two states that differ in their timers and in the mark of a changed display at most. -/
structure SameButTimers (s t : State) : Prop where
  registers : s.registers = t.registers
  memory : s.memory = t.memory
  stack : s.stack = t.stack
  frame : s.display.frame = t.display.frame
  latch : s.latch = t.latch
  random : s.random = t.random

namespace SameButTimers

variable {s t : State} {d : Dialect} {keys : Keypad} {i : Instruction}

theorem fetched (h : SameButTimers s t) : SameButTimers s.fetched t.fetched :=
  ⟨congrArg Registers.fetched h.registers, h.memory, h.stack, h.frame, h.latch, h.random⟩

theorem execute (h : SameButTimers s t) (hi : ∀ x, i ≠ .readDelay x) :
    Effect.Matches SameButTimers (s.execute d keys i) (t.execute d keys i) := by
  obtain ⟨registers, memory, stack, ⟨frame, changed⟩, timers, latch, random⟩ := s
  obtain ⟨registers', memory', stack', ⟨frame', changed'⟩, timers', latch', random'⟩ := t
  obtain ⟨rfl, rfl, rfl, rfl, rfl, rfl⟩ := h
  cases i with
  | readDelay x => exact absurd rfl (hi x)
  | ret =>
    simp only [State.execute]
    cases stack.pop with
    | ok r => exact .retired ⟨rfl, rfl, rfl, rfl, rfl, rfl⟩
    | error f => exact .fault f
  | call target =>
    simp only [State.execute]
    cases stack.push registers.pc with
    | ok r => exact .retired ⟨rfl, rfl, rfl, rfl, rfl, rfl⟩
    | error f => exact .fault f
  | waitForKey x =>
    simp only [State.execute, State.waitForKey]
    obtain ⟨latch', _ | ⟨r, k⟩⟩ := latch.poll x keys
    · exact .blocked ⟨rfl, rfl, rfl, rfl, rfl, rfl⟩
    · exact .retired ⟨rfl, rfl, rfl, rfl, rfl, rfl⟩
  | unknown w => exact .fault _
  | _ => exact .retired ⟨rfl, rfl, rfl, rfl, rfl, rfl⟩

theorem step (h : SameButTimers s t) (d : Dialect) (keys : Keypad)
    (hi : ∀ x, s.instruction ≠ .readDelay x) :
    (s.step d keys).2 = (t.step d keys).2 ∧
      SameButTimers (s.step d keys).1 (t.step d keys).1 := by
  have hw : s.fetchedWord = t.fetchedWord := by
    rw [fetchedWord, fetchedWord, h.memory, h.registers]
  have hs : s.instruction = t.instruction := congrArg Instruction.decode hw
  refine step_matches (congrArg Registers.fetchAddress h.registers) hw h.fetched ?_
  rw [← hs]
  exact h.fetched.execute hi

end SameButTimers

end State

structure Tally.SameButTimers (t u : Tally) : Prop where
  instructions : t.instructions = u.instructions
  keyWaits : t.keyWaits = u.keyWaits
  decodeFaults : t.decodeFaults = u.decodeFaults
  stackFaults : t.stackFaults = u.stackFaults
  lastFault : t.lastFault = u.lastFault

theorem Tally.SameButTimers.record {t u : Tally} (h : t.SameButTimers u) (o : Outcome) :
    (t.record o).SameButTimers (u.record o) := by
  obtain ⟨hi, hk, hd, hs, hl⟩ := h
  cases o with
  | retired p i => exact ⟨congrArg bump64 hi, hk, hd, hs, hl⟩
  | awaitingKey p => exact ⟨hi, congrArg bump64 hk, hd, hs, hl⟩
  | fault r =>
    simp only [Tally.record, Tally.recordFault]
    cases r.fault.kind with
    | decode => exact ⟨hi, hk, congrArg bump32 hd, hs, rfl⟩
    | stack => exact ⟨hi, hk, hd, congrArg bump32 hs, rfl⟩

namespace Machine

variable {m n : Machine} {e : Event} {es fs : List Event} {keys : Keypad}

structure SameButTimers (m n : Machine) : Prop where
  config : m.config = n.config
  program : m.program = n.program
  streams : m.streams = n.streams
  state : m.state.SameButTimers n.state
  tally : m.tally.SameButTimers n.tally

namespace SameButTimers

theorem refl (m : Machine) : SameButTimers m m :=
  ⟨rfl, rfl, rfl, ⟨rfl, rfl, rfl, rfl, rfl, rfl⟩, ⟨rfl, rfl, rfl, rfl, rfl⟩⟩

theorem symm (h : SameButTimers m n) : SameButTimers n m := by
  obtain ⟨hc, hp, hw, ⟨h₁, h₂, h₃, h₄, h₅, h₆⟩, ⟨t₁, t₂, t₃, t₄, t₅⟩⟩ := h
  exact ⟨hc.symm, hp.symm, hw.symm, ⟨h₁.symm, h₂.symm, h₃.symm, h₄.symm, h₅.symm, h₆.symm⟩,
    ⟨t₁.symm, t₂.symm, t₃.symm, t₄.symm, t₅.symm⟩⟩

theorem quiet (h : SameButTimers m n) (he : e.keypad? = none) (hr : e ≠ .reset) :
    SameButTimers (m.respond e).1 n := by
  have hf : m.state.display.take.2.frame = m.state.display.frame := by
    rw [Display.take]
    split <;> rfl
  obtain ⟨hc, hp, hw, ⟨h₁, h₂, h₃, h₄, h₅, h₆⟩, ⟨t₁, t₂, t₃, t₄, t₅⟩⟩ := h
  cases e with
  | cpu keys => cases he
  | timer =>
    exact ⟨hc, hp, hw, ⟨h₁, h₂, h₃, hf.trans h₄, h₅, h₆⟩, ⟨t₁, t₂, t₃, t₄, t₅⟩⟩
  | take =>
    exact ⟨hc, hp, hw, ⟨h₁, h₂, h₃, hf.trans h₄, h₅, h₆⟩, ⟨t₁, t₂, t₃, t₄, t₅⟩⟩
  | reset => exact absurd rfl hr

theorem cpuTick (h : SameButTimers m n)
    (hd : ∀ p x, (m.cpuTick keys).2 ≠ .retired p (.readDelay x)) :
    (m.cpuTick keys).2 = (n.cpuTick keys).2 ∧
      SameButTimers (m.cpuTick keys).1 (n.cpuTick keys).1 := by
  obtain ⟨c, p, s, t, streams⟩ := m
  obtain ⟨c', p', s', t', streams'⟩ := n
  obtain ⟨rfl, rfl, rfl, hs, ht⟩ := h
  have hi : ∀ x, s.instruction ≠ .readDelay x := by
    intro x hi
    have he : s.step c.dialect keys = _ := State.step_of_retired hi rfl
    exact hd _ x (congrArg Prod.snd he)
  obtain ⟨ho, hs⟩ := hs.step c.dialect keys hi
  refine ⟨ho, rfl, rfl, rfl, hs, ?_⟩
  have hr := ht.record (s.step c.dialect keys).2
  rw [ho] at hr
  simpa only [Machine.cpuTick, ho] using hr

theorem run_quiet (h : SameButTimers m n) (he : ∀ e ∈ es, e.keypad? = none) (hr : .reset ∉ es) :
    SameButTimers (m.run es) n ∧ ∀ fs, m.cpuHistory (es ++ fs) = (m.run es).cpuHistory fs := by
  induction es generalizing m with
  | nil => exact ⟨h, fun _ ↦ rfl⟩
  | cons e es ih =>
    obtain ⟨hne, hr⟩ := List.ne_and_not_mem_of_not_mem_cons hr
    have hq := he e List.mem_cons_self
    have hes : ∀ a ∈ es, a.keypad? = none := fun a ha ↦ he a (List.mem_cons_of_mem e ha)
    obtain ⟨hs, hh⟩ := ih (h.quiet hq (Ne.symm hne)) hes hr
    exact ⟨hs, fun fs ↦ (cpuHistory_quiet hq m (es ++ fs)).trans (hh fs)⟩

end SameButTimers

theorem cpuHistory_matches (h : SameButTimers m n) (hes : .reset ∉ es) (hfs : .reset ∉ fs)
    (hk : Event.keypads es = Event.keypads fs)
    (hd : ∀ r ∈ m.cpuHistory es, ∀ p x, r.1 ≠ .retired p (.readDelay x)) :
    List.Forall₂ (fun a b ↦ a.1 = b.1 ∧ SameButTimers a.2 b.2)
      (m.cpuHistory es) (n.cpuHistory fs) := by
  induction es generalizing m n fs with
  | nil =>
    have hq := List.filterMap_eq_nil_iff.mp hk.symm
    have hh := ((SameButTimers.refl n).run_quiet hq hfs).2 []
    rw [List.append_nil] at hh
    rw [hh]
    exact .nil
  | cons e es ih =>
    obtain ⟨he, hes'⟩ := List.ne_and_not_mem_of_not_mem_cons hes
    cases hq : e.keypad? with
    | none =>
      rw [Event.keypads, List.filterMap_cons_none hq] at hk
      rw [cpuHistory_quiet hq] at hd ⊢
      exact ih (h.quiet hq (Ne.symm he)) hes' hfs hk hd
    | some keys =>
      rw [Event.keypads, List.filterMap_cons_some hq] at hk
      obtain rfl := Event.eq_cpu_of_keypad? hq
      -- The second schedule gets to the same tick behind events that no CPU tick notices.
      obtain ⟨before, f, after, rfl, hb, hf, ha⟩ := List.filterMap_eq_cons_iff.mp hk.symm
      obtain rfl := Event.eq_cpu_of_keypad? hf
      simp only [List.mem_append, List.mem_cons, not_or] at hfs
      obtain ⟨hn, hh⟩ := h.symm.run_quiet hb hfs.1
      rw [cpuHistory_cpu] at hd
      rw [hh, cpuHistory_cpu, cpuHistory_cpu]
      obtain ⟨ho, hs⟩ := hn.symm.cpuTick (hd _ List.mem_cons_self)
      refine .cons ⟨ho, hs⟩ (ih hs hes' hfs.2.2 ha.symm fun r hr ↦ ?_)
      exact hd r (List.mem_cons_of_mem _ hr)

/-- Two schedules with the same CPU ticks, and with timer ticks and taken pictures wherever they
like. If no tick of the first reads the delay timer, every CPU tick has the same outcome in both and
leaves machines that are equal up to their timers. -/
theorem timers_reach_cpu_by_readDelay (m : Machine) (hes : .reset ∉ es) (hfs : .reset ∉ fs)
    (hk : Event.keypads es = Event.keypads fs)
    (hd : ∀ r ∈ m.cpuHistory es, ∀ p x, r.1 ≠ .retired p (.readDelay x)) :
    List.Forall₂ (fun a b ↦ a.1 = b.1 ∧ SameButTimers a.2 b.2)
      (m.cpuHistory es) (m.cpuHistory fs) :=
  cpuHistory_matches (.refl m) hes hfs hk hd

def setsTimers : Machine := poised [0x60, 0x05, 0xF0, 0x15, 0xF0, 0x18, 0xD0, 0x01]

theorem setsTimers_beside_timer_ticks :
    List.Forall₂ (fun a b ↦ a.1 = b.1 ∧ SameButTimers a.2 b.2)
      (setsTimers.cpuHistory
        [.cpu .released, .cpu .released, .timer, .cpu .released, .cpu .released])
      (setsTimers.cpuHistory
        [.timer, .cpu .released, .take, .cpu .released, .cpu .released, .timer, .timer,
          .cpu .released, .take]) := by
  refine timers_reach_cpu_by_readDelay setsTimers (by decide) (by decide) (by decide) ?_
  intro r hr p x he
  have ho : (setsTimers.cpuHistory
      [.cpu .released, .cpu .released, .timer, .cpu .released, .cpu .released]).map Prod.fst =
      [.retired 0 (.setByte 0 5), .retired 2 (.setDelay 0), .retired 4 (.setSound 0),
        .retired 6 (.draw 0 0 1)] := by
    decide +kernel
  have hm := ho ▸ List.mem_map_of_mem hr
  simp [he] at hm

end Machine

end Chip8
