import Chip8.Scheduler

namespace Chip8.Scheduler

namespace Signal

def era? : Signal → Option Nat
  | cpuTick era _ => some era
  | timerTick era _ => some era
  | _ => none

def returned? : Signal → Option Frame
  | timerTick _ tick => tick.frame
  | _ => none

def presented? : Signal → Option Frame
  | present frame => some frame
  | _ => none

def tone? : Signal → Option Bool
  | tone on => some on
  | _ => none

/-- A signal that tells of no driver at work: a log record, or the tone being off. -/
inductive IsQuiet : Signal → Prop
  | log (record : LogRecord) : IsQuiet (.log record)
  | silence : IsQuiet (.tone false)

namespace IsQuiet

variable {x : Signal}

theorem era?_eq_none (h : x.IsQuiet) : x.era? = none := by cases h <;> rfl

theorem ne_reset (h : x.IsQuiet) : x ≠ .reset := by cases h <;> nofun

theorem pictures (h : x.IsQuiet) : x.returned? = none ∧ x.presented? = none := by
  cases h <;> exact ⟨rfl, rfl⟩

end IsQuiet

end Signal

def Stage.driver? : Stage → Option Driver
  | readKeys | cpuTick _ => some .cpu
  | timerTick | sound _ | present _ => some .timer
  | _ => none

namespace Thread

variable {t : Thread} {running : Bool} {devices : Devices} {m : Machine}

def InLoop (t : Thread) : Prop := ∀ d, t.stage.driver? = some d → t.driver = d

def pending (t : Thread) : List Frame :=
  match t.stage with
  | .sound tick => tick.frame.toList
  | .present frame => [frame]
  | _ => []

theorem inLoop_of_driver?_eq_none (h : t.stage.driver? = none) : t.InLoop :=
  fun _ hd ↦ absurd (h.symm.trans hd) nofun

theorem pending_eq_nil (h : t.InLoop) (hd : t.driver = .cpu) : t.pending = [] := by
  obtain ⟨driver, era, stage⟩ := t
  obtain rfl : driver = .cpu := hd
  cases stage with
  | sound tick => cases h .timer rfl
  | present frame => cases h .timer rfl
  | _ => rfl

/-- What a step of a thread keeps, and what it may signal. -/
structure Steps (t u : Thread) (signal : Option Signal) : Prop where
  driver : u.driver = t.driver
  era : u.era = t.era
  inLoop : u.InLoop
  signal : ∀ x ∈ signal, x ≠ .reset ∧ ∀ e ∈ x.era?, e = t.era

theorem steps_step (h : t.InLoop) (running : Bool) (devices : Devices) (m : Machine) :
    t.Steps (t.step running devices m).1 (t.step running devices m).2.2 := by
  obtain ⟨driver, era, stage⟩ := t
  cases stage with
  | check =>
    cases running <;> exact ⟨rfl, rfl, inLoop_of_driver?_eq_none rfl, fun _ hx ↦ nomatch hx⟩
  | recheck =>
    cases running with
    | false => exact ⟨rfl, rfl, inLoop_of_driver?_eq_none rfl, fun _ hx ↦ nomatch hx⟩
    | true =>
      refine ⟨rfl, rfl, fun d hd ↦ ?_, fun _ hx ↦ nomatch hx⟩
      cases driver <;> exact Option.some.inj hd
  | readKeys =>
    obtain ⟨_ | keys, displayWorks⟩ := devices
    · refine ⟨rfl, rfl, inLoop_of_driver?_eq_none rfl, ?_⟩
      rintro _ ⟨⟩
      exact ⟨nofun, nofun⟩
    · exact ⟨rfl, rfl, h, fun _ hx ↦ nomatch hx⟩
  | cpuTick keys =>
    refine ⟨rfl, rfl, inLoop_of_driver?_eq_none rfl, ?_⟩
    rintro _ ⟨⟩
    exact ⟨nofun, fun _ he ↦ (Option.some.inj he).symm⟩
  | timerTick =>
    refine ⟨rfl, rfl, h, ?_⟩
    rintro _ ⟨⟩
    exact ⟨nofun, fun _ he ↦ (Option.some.inj he).symm⟩
  | sound tick =>
    refine ⟨rfl, rfl, ?_, ?_⟩
    · obtain ⟨tone, _ | frame⟩ := tick
      · exact inLoop_of_driver?_eq_none rfl
      · exact h
    · rintro _ ⟨⟩
      exact ⟨nofun, nofun⟩
  | present frame =>
    obtain ⟨keyboard, _ | _⟩ := devices <;>
    · refine ⟨rfl, rfl, inLoop_of_driver?_eq_none rfl, ?_⟩
      rintro _ ⟨⟩
      exact ⟨nofun, nofun⟩
  | ended | crashed => exact ⟨rfl, rfl, h, fun _ hx ↦ nomatch hx⟩

/-- A step of a thread has nothing to do with pictures, or the thread is the timer thread. What that
was still to present, and what the step hands to it, it presents in this step or later. -/
theorem step_pictures (h : t.InLoop) (running : Bool) (hd : devices.displayWorks = true)
    (m : Machine) :
    ((t.step running devices m).1.pending = t.pending ∧
      ∀ x ∈ (t.step running devices m).2.2, x.returned? = none ∧ x.presented? = none) ∨
    t.driver = .timer ∧
      t.pending ++ ((t.step running devices m).2.2.bind Signal.returned?).toList =
        ((t.step running devices m).2.2.bind Signal.presented?).toList ++
          (t.step running devices m).1.pending := by
  obtain ⟨driver, era, stage⟩ := t
  cases stage with
  | check =>
    cases running <;> exact .inl ⟨rfl, fun _ hx ↦ nomatch hx⟩
  | recheck =>
    cases running with
    | false => exact .inl ⟨rfl, fun _ hx ↦ nomatch hx⟩
    | true => cases driver <;> exact .inl ⟨rfl, fun _ hx ↦ nomatch hx⟩
  | readKeys =>
    obtain ⟨_ | keys, displayWorks⟩ := devices
    · refine .inl ⟨rfl, ?_⟩
      rintro _ ⟨⟩
      exact ⟨rfl, rfl⟩
    · exact .inl ⟨rfl, fun _ hx ↦ nomatch hx⟩
  | cpuTick keys =>
    refine .inl ⟨rfl, ?_⟩
    rintro _ ⟨⟩
    exact ⟨rfl, rfl⟩
  | timerTick => exact .inr ⟨h _ rfl, rfl⟩
  | sound tick =>
    obtain ⟨tone, _ | frame⟩ := tick <;> exact .inr ⟨h _ rfl, rfl⟩
  | present frame =>
    refine .inr ⟨h _ rfl, ?_⟩
    simp only [step, hd, if_true]
    rfl
  | ended | crashed => exact .inl ⟨rfl, fun _ hx ↦ nomatch hx⟩

end Thread

end Chip8.Scheduler
