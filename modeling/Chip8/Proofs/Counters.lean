import Chip8.Proofs.Faults

namespace Chip8

namespace Response

def report? : Response → Option FaultReport
  | cpu (.fault report) => some report
  | _ => none

def reports (rs : List Response) : List FaultReport := rs.filterMap report?

theorem reports_cons (r : Response) (rs : List Response) :
    reports (r :: rs) = r.report?.toList ++ reports rs := by
  rw [reports, List.filterMap_cons]
  cases r.report? <;> rfl

end Response

inductive Counter where
  | instructions
  | keyWaits
  | timerTicks
  | frames
  | decodeFaults
  | stackFaults

namespace Counter

def value (t : Tally) : Counter → Nat
  | instructions => t.instructions.toNat
  | keyWaits => t.keyWaits.toNat
  | timerTicks => t.timerTicks.toNat
  | frames => t.frames.toNat
  | decodeFaults => t.decodeFaults.toNat
  | stackFaults => t.stackFaults.toNat

/-- The value of a full counter: the counters of faults have 32 bits, the others 64. -/
def limit : Counter → Nat
  | decodeFaults => 0xFFFFFFFF
  | stackFaults => 0xFFFFFFFF
  | _ => 0xFFFFFFFFFFFFFFFF

def counts : Counter → Response → Bool
  | instructions, .cpu (.retired _ _) => true
  | keyWaits, .cpu (.awaitingKey _) => true
  | timerTicks, .timer _ => true
  | frames, .timer tick => tick.frame.isSome
  | decodeFaults, .cpu (.fault report) => report.fault = .unknownOpcode
  | stackFaults, .cpu (.fault report) =>
    report.fault = .stackUnderflow ∨ report.fault = .stackOverflow
  | _, _ => false

end Counter

theorem Response.countP_faults (rs : List Response) :
    rs.countP Counter.decodeFaults.counts + rs.countP Counter.stackFaults.counts =
      (reports rs).length := by
  induction rs with
  | nil => rfl
  | cons r rs ih =>
    have hr : (if Counter.decodeFaults.counts r then 1 else 0) +
        (if Counter.stackFaults.counts r then 1 else 0) = r.report?.toList.length := by
      cases r with
      | cpu o =>
        cases o with
        | fault report =>
          obtain ⟨f, p, w⟩ := report
          cases f <;> rfl
        | _ => rfl
      | _ => rfl
    rw [List.countP_cons, List.countP_cons, reports_cons, List.length_append]
    omega

namespace Tally

theorem toNat_bump64 (n : UInt64) :
    (bump64 n).toNat = min (n.toNat + 1) 0xFFFFFFFFFFFFFFFF := by
  have hlt := n.toNat_lt
  rw [bump64]
  split
  · subst n
    rfl
  · have hn : n.toNat ≠ (0xFFFFFFFFFFFFFFFF : UInt64).toNat :=
      fun he ↦ ‹¬ n = _› (UInt64.toNat_inj.mp he)
    simp only [UInt64.reduceToNat] at hn
    rw [UInt64.toNat_add, UInt64.toNat_one]
    omega

theorem toNat_faults (t : Tally) :
    t.faults.toNat = min (t.decodeFaults.toNat + t.stackFaults.toNat) 0xFFFFFFFF := by
  have hsize : UInt32.size = 0x100000000 := rfl
  rw [faults]
  split
  · show 0xFFFFFFFF = _
    omega
  · rw [UInt32.toNat_add]
    omega

variable (t : Tally) (c : Counter)

/-- An outcome moves the counter that counts it up by one and no other one. -/
theorem value_record (o : Outcome) : c.value (t.record o) =
    if c.counts (.cpu o) then min (c.value t + 1) c.limit else c.value t := by
  cases o with
  | retired p i =>
    cases c with
    | instructions => exact toNat_bump64 _
    | _ => rfl
  | awaitingKey p =>
    cases c with
    | keyWaits => exact toNat_bump64 _
    | _ => rfl
  | fault r =>
    obtain ⟨f, p, w⟩ := r
    cases f with
    | unknownOpcode =>
      cases c with
      | decodeFaults => exact toNat_bump32 _
      | _ => rfl
    | stackUnderflow | stackOverflow =>
      cases c with
      | stackFaults => exact toNat_bump32 _
      | _ => rfl

theorem value_recordTimerTick (tick : TimerTick) :
    c.value (t.recordTimerTick tick.frame.isSome) =
      if c.counts (.timer tick) then min (c.value t + 1) c.limit else c.value t := by
  cases c with
  | timerTicks => exact toNat_bump64 _
  | frames =>
    show (if tick.frame.isSome then bump64 t.frames else t.frames).toNat =
      if tick.frame.isSome then _ else _
    split
    · exact toNat_bump64 _
    · rfl
  | _ => rfl

end Tally

namespace Machine

variable {m : Machine} {e : Event} {es : List Event}

theorem value_respond (he : e ≠ .reset) (c : Counter) : c.value (m.respond e).1.tally =
    if c.counts (m.respond e).2 then min (c.value m.tally + 1) c.limit else c.value m.tally := by
  cases e with
  | cpu keys => exact m.tally.value_record c (m.cpuTick keys).2
  | timer => exact m.tally.value_recordTimerTick c m.timerTick.2
  | take => cases c <;> rfl
  | reset => exact absurd rfl he

theorem snd_play_cons (m : Machine) (e : Event) (es : List Event) :
    (m.play (e :: es)).2 = (m.respond e).2 :: ((m.respond e).1.play es).2 := rfl

/-- A counter that stands at `n`, as far as it reaches, stands at `n` and what it counted behind a
run. -/
theorem value_run {c : Counter} {n : Nat} (h : c.value m.tally = min n c.limit)
    (hes : .reset ∉ es) :
    c.value (m.run es).tally = min (n + (m.play es).2.countP c.counts) c.limit := by
  induction es generalizing m n with
  | nil => exact h
  | cons e es ih =>
    obtain ⟨he, hes⟩ := List.ne_and_not_mem_of_not_mem_cons hes
    have hv := value_respond (Ne.symm he) c (m := m)
    rw [run_cons, snd_play_cons, List.countP_cons]
    split at hv
    · have hn : c.value (m.respond e).1.tally = min (n + 1) c.limit := by omega
      rw [ih hn hes, if_pos ‹_›]
      omega
    · rw [ih (hv.trans h) hes, if_neg ‹_›]
      rfl

theorem lastFault_respond (he : e ≠ .reset) :
    (m.respond e).1.tally.lastFault = (m.respond e).2.report?.or m.tally.lastFault := by
  cases e with
  | cpu keys =>
    show (m.tally.record (m.cpuTick keys).2).lastFault =
      (Response.cpu (m.cpuTick keys).2).report?.or _
    cases (m.cpuTick keys).2 with
    | fault r => exact (m.tally.reports_recordFault r).lastFault
    | _ => rfl
  | timer | take => rfl
  | reset => exact absurd rfl he

theorem lastFault_run (hes : .reset ∉ es) : (m.run es).tally.lastFault =
    (Response.reports (m.play es).2).getLast?.or m.tally.lastFault := by
  induction es generalizing m with
  | nil => rfl
  | cons e es ih =>
    obtain ⟨he, hes⟩ := List.ne_and_not_mem_of_not_mem_cons hes
    rw [run_cons, ih hes, lastFault_respond (Ne.symm he), snd_play_cons, Response.reports_cons,
      List.getLast?_append, Option.or_assoc]
    cases (m.respond e).2.report? <;> rfl

inductive Fresh : Machine → Prop
  | load {m : Machine} {rom : List UInt8} {config : Config} {entropy : RandomSource}
      (h : load rom config entropy = .ok m) : Fresh m
  | reset (m : Machine) : Fresh m.reset

theorem Fresh.tally_eq (h : m.Fresh) : m.tally = {} := by
  cases h with
  | load h =>
    obtain ⟨p, -, rfl⟩ := of_load h
    rfl
  | reset m => rfl

/-- Since a machine was set up or reset, every counter has counted its responses, the count of all
faults has counted the reports, each as far as it reaches, and the last fault is the last report. -/
theorem counters_account_for_run (h : m.Fresh) (hes : .reset ∉ es) :
    (∀ c : Counter, c.value (m.run es).tally = min ((m.play es).2.countP c.counts) c.limit) ∧
    (m.run es).tally.faults.toNat = min (Response.reports (m.play es).2).length 0xFFFFFFFF ∧
    (m.run es).tally.lastFault = (Response.reports (m.play es).2).getLast? := by
  have hv (c : Counter) :
      c.value (m.run es).tally = min ((m.play es).2.countP c.counts) c.limit := by
    have h₀ : c.value m.tally = min 0 c.limit := by
      rw [h.tally_eq, Nat.zero_min]
      cases c <;> rfl
    rw [value_run h₀ hes, Nat.zero_add]
  refine ⟨hv, ?_, ?_⟩
  · have hd : (m.run es).tally.decodeFaults.toNat = _ := hv .decodeFaults
    have hs : (m.run es).tally.stackFaults.toNat = _ := hv .stackFaults
    have hsum := Response.countP_faults (m.play es).2
    rw [Tally.toNat_faults, hd, hs]
    simp only [Counter.limit]
    omega
  · rw [lastFault_run hes, h.tally_eq, Option.or_none]

def faultyEvents : List Event :=
  [.cpu .released, .timer, .cpu .released, .take, .cpu .released, .timer]

theorem faulty_events_accounted :
    .reset ∉ faultyEvents ∧
    ∃ m, load [0x00, 0xEE, 0xFF, 0xFF, 0xF0, 0x0A] {} (.cycle #[]) = .ok m ∧
      Counter.stackFaults.value (m.run faultyEvents).tally = 1 ∧
      Counter.frames.value (m.run faultyEvents).tally = 1 ∧
      (m.run faultyEvents).tally.faults.toNat = 2 ∧
      (m.run faultyEvents).tally.lastFault = some ⟨.unknownOpcode, 0x202, 0xFFFF⟩ := by
  have hes : .reset ∉ faultyEvents := by decide
  have hl : load [0x00, 0xEE, 0xFF, 0xFF, 0xF0, 0x0A] {} (.cycle #[]) = .ok _ := rfl
  obtain ⟨hv, hf, hlast⟩ := counters_account_for_run (.load hl) hes
  refine ⟨hes, _, hl, ?_⟩
  rw [hv, hv, hf, hlast]
  decide +kernel

end Machine

end Chip8
