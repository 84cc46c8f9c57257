import Chip8.Machine.Run

namespace Chip8

namespace Event

def keypad? : Event → Option Keypad
  | cpu keys => some keys
  | _ => none

def keypads (es : List Event) : List Keypad := es.filterMap keypad?

theorem eq_cpu_of_keypad? {e : Event} {keys : Keypad} (h : e.keypad? = some keys) :
    e = .cpu keys := by
  cases e with
  | cpu k => exact congrArg cpu (Option.some.inj h)
  | _ => cases h

end Event

namespace Machine

variable {m : Machine} {es : List Event}

def poised (bytes : List UInt8) : Machine where
  config := {}
  program := ⟨[], by decide⟩
  state := { registers := { pc := 0 }, memory := Memory.zero.store 0 bytes }
  tally := {}

variable {rom : List UInt8} {config : Config} {entropy : RandomSource}
  {streams : UInt64 → Nat → UInt32}

theorem load_eq_ok_iff : load rom config entropy streams = .ok m ↔
    config.rate ≠ 0 ∧ ∃ p, Program.ofBytes rom = .ok p ∧
      m = ⟨config, p, { State.boot p with random := source streams config.seed entropy }, {},
        streams⟩ := by
  simp only [load, Config.validate, bind, Except.bind]
  by_cases hr : config.rate = 0
  · simp only [hr, if_true, ne_eq, not_true, false_and, reduceCtorEq]
  · simp only [hr, if_false, ne_eq, not_false_eq_true, true_and]
    cases Program.ofBytes rom with
    | error e => simp only [reduceCtorEq, false_and, exists_false]
    | ok p =>
      simp only [pure, Except.pure, Except.ok.injEq, exists_eq_left']
      exact eq_comm

theorem of_load (h : load rom config entropy streams = .ok m) :
    ∃ p, Program.ofBytes rom = .ok p ∧
      m = ⟨config, p, { State.boot p with random := source streams config.seed entropy }, {},
        streams⟩ :=
  (load_eq_ok_iff.mp h).2

@[simp] theorem run_nil (m : Machine) : m.run [] = m := rfl

@[simp] theorem run_cons (m : Machine) (e : Event) (es : List Event) :
    m.run (e :: es) = (m.respond e).1.run es := rfl

theorem run_append (m : Machine) (es fs : List Event) :
    m.run (es ++ fs) = (m.run es).run fs := List.foldl_append

/-- What every event of a run keeps, the run keeps. -/
theorem run_induction {P : Machine → Prop} (hm : P m)
    (h : ∀ m, ∀ e ∈ es, P m → P (m.respond e).1) : P (m.run es) := by
  induction es generalizing m with
  | nil => exact hm
  | cons e es ih =>
    refine ih (h m e List.mem_cons_self hm) (fun m e' he ↦ ?_)
    exact h m e' (List.mem_cons_of_mem e he)

theorem config_respond (m : Machine) (e : Event) : (m.respond e).1.config = m.config := by
  cases e <;> rfl

theorem config_run (m : Machine) (es : List Event) : (m.run es).config = m.config :=
  run_induction (P := (·.config = m.config)) rfl fun n e _ h ↦ (config_respond n e).trans h

theorem streams_respond (m : Machine) (e : Event) : (m.respond e).1.streams = m.streams := by
  cases e <;> rfl

theorem streams_run (m : Machine) (es : List Event) : (m.run es).streams = m.streams :=
  run_induction (P := (·.streams = m.streams)) rfl fun n e _ h ↦ (streams_respond n e).trans h

def history (m : Machine) : List Event → List (Response × Machine)
  | [] => []
  | e :: es => ((m.respond e).2, (m.respond e).1) :: (m.respond e).1.history es

/-- The outcomes of the CPU ticks of a run, each with the machine that the tick left. -/
def cpuHistory (m : Machine) (es : List Event) : List (Outcome × Machine) :=
  (m.history es).filterMap fun
    | (.cpu outcome, m) => some (outcome, m)
    | _ => none

theorem cpuHistory_cpu (m : Machine) (keys : Keypad) (es : List Event) :
    m.cpuHistory (.cpu keys :: es) =
      ((m.cpuTick keys).2, (m.cpuTick keys).1) :: (m.cpuTick keys).1.cpuHistory es := rfl

theorem cpuHistory_quiet {e : Event} (he : e.keypad? = none) (m : Machine) (es : List Event) :
    m.cpuHistory (e :: es) = (m.respond e).1.cpuHistory es := by
  cases e with
  | cpu keys => cases he
  | _ => rfl

end Machine

end Chip8
