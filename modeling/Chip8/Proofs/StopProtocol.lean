import Chip8.Proofs.Crew
import Chip8.Proofs.Run
import Mathlib.Data.List.DropRight
import Mathlib.Data.List.Induction

namespace Chip8.Scheduler

variable {s : Scheduler} {a : Move}

/-- Each tick in the trace was issued by a driver of the last start before it. -/
def Punctual (trace : List Signal) : Prop :=
  ∀ before x e, before ++ [x] <+: trace → x.era? = some e → e = before.count .reset

/-- What a run of the scheduler keeps true of where it is and of what could be seen until then. -/
structure Account (s : Scheduler) (trace : List Signal) : Prop where
  staffed : Staffed s
  starts : s.starts = trace.count .reset
  punctual : Punctual trace
  silent : ∀ command, s.control = .announceStop command →
    (trace.filterMap Signal.tone?).getLast? = some false

theorem Punctual.append {trace : List Signal} {signal : Option Signal} (h : Punctual trace)
    (hs : ∀ x ∈ signal, ∀ e ∈ x.era?, e = trace.count .reset) :
    Punctual (trace ++ signal.toList) := by
  cases signal with
  | none => rwa [Option.toList_none, List.append_nil]
  | some y =>
    intro before x e hp he
    obtain hp | hp := List.prefix_concat_iff.mp hp
    · obtain ⟨rfl, hx⟩ := List.append_inj' hp rfl
      obtain rfl := List.singleton_inj.mp hx
      exact hs x rfl e he
    · exact h before x e hp he

theorem filterMap_append_toList {β : Type} (f : Signal → Option β) (trace : List Signal)
    (signal : Option Signal) :
    (trace ++ signal.toList).filterMap f = trace.filterMap f ++ (signal.bind f).toList := by
  rw [List.filterMap_append]
  cases signal with
  | none => rfl
  | some x => cases hx : f x <;> simp [hx]

/-- Nothing is heard between the silence at the end of a stop and the record of it. -/
theorem silent_move (h : Staffed s) {tones : List Bool}
    (ht : ∀ command, s.control = .announceStop command → tones.getLast? = some false)
    {command : Command} (hc : (s.move a).1.control = .announceStop command) :
    (tones ++ ((s.move a).2.bind Signal.tone?).toList).getLast? = some false := by
  obtain hm | ⟨_, -, hm⟩ | hm | ⟨n, devices, t, rfl, hn, hm⟩ := s.move_cases a
  · rw [hm] at hc ⊢
    exact (congrArg List.getLast? (List.append_nil tones)).trans (ht command hc)
  · rw [hm] at hc
    cases hc
  · rw [hm] at hc ⊢
    obtain ⟨machine, running, control, threads, starts⟩ := s
    cases control with
    | silence c wasUp => exact List.getLast?_concat
    | join c wasUp =>
      obtain ⟨-, hj⟩ | ⟨_, _, _, -, -, -, hj⟩ | hj :=
        join_cases ⟨machine, running, .join c wasUp, threads, starts⟩ c wasUp <;>
      · cases (congrArg (·.1.control) hj).symm.trans hc
    | announceStop c => cases c <;> cases hc
    | spawn driver => cases driver <;> cases hc
    | _ => cases hc
  · -- A thread does not move the controlling one, and before that record there are no threads.
    rw [hm] at hc
    rw [h.threads_eq_nil (congrArg Control.crews hc)] at hn
    cases hn

theorem Account.move {trace : List Signal} (h : Account s trace) (a : Move) :
    Account (s.move a).1 (trace ++ (s.move a).2.toList) where
  staffed := h.staffed.move a
  starts := by rw [h.staffed.starts_move, h.starts, List.count_append]
  punctual := by
    refine h.punctual.append fun x hx e he ↦ ?_
    rw [← h.starts]
    obtain ⟨rfl, -⟩ | hq | ⟨-, hera⟩ := h.staffed.signal_move hx
    · cases he
    · cases hq.era?_eq_none.symm.trans he
    · exact hera e he
  silent command hc := by
    rw [filterMap_append_toList]
    exact silent_move h.staffed h.silent hc

def sinceReset (trace : List Signal) : List Signal := trace.rtakeWhile (· ≠ .reset)

/-- Since the last reset, the pictures handed to threads are those presented, in the same order, and
those still to be presented. -/
def Delivered (s : Scheduler) (trace : List Signal) : Prop :=
  (sinceReset trace).filterMap Signal.returned? =
    (sinceReset trace).filterMap Signal.presented? ++ s.pending

theorem sinceReset_reset (trace : List Signal) : sinceReset (trace ++ [.reset]) = [] :=
  List.rtakeWhile_concat_neg _ _ _ (by simp)

theorem sinceReset_append {signal : Option Signal} (h : .reset ∉ signal) (trace : List Signal) :
    sinceReset (trace ++ signal.toList) = sinceReset trace ++ signal.toList := by
  cases signal with
  | none => simp only [Option.toList_none, List.append_nil]
  | some x =>
    refine List.rtakeWhile_concat_pos _ _ _ (decide_eq_true fun he ↦ h ?_)
    rw [he]
    rfl

theorem Delivered.move {trace : List Signal} (h : Delivered s trace) (hs : Staffed s)
    (hw : ∀ n devices, a = .thread n devices → devices.displayWorks = true) :
    Delivered (s.move a).1 (trace ++ (s.move a).2.toList) := by
  have hp := hs.pending_move hw
  by_cases hr : .reset ∈ (s.move a).2
  · -- A reset comes when every thread has been joined, so that no picture is pending.
    obtain ⟨-, hc⟩ | hq | ⟨hn, -⟩ := hs.signal_move hr
    · have hnil : s.pending = [] := by
        rw [pending, hs.threads_eq_nil (hc ▸ rfl), List.flatMap_nil]
      rw [Option.mem_def] at hr
      rw [hr, hnil] at hp
      rw [hr, Delivered, Option.toList_some, sinceReset_reset]
      exact hp
    · exact absurd rfl hq.ne_reset
    · exact absurd rfl hn
  · rw [Delivered, sinceReset_append hr, filterMap_append_toList, filterMap_append_toList, h,
      List.append_assoc, hp, List.append_assoc]

theorem play_concat (s : Scheduler) (as : List Move) (a : Move) :
    s.play (as ++ [a]) =
      (((s.play as).1.move a).1, (s.play as).2 ++ ((s.play as).1.move a).2.toList) := by
  induction as generalizing s with
  | nil => simp only [List.nil_append, play, List.append_nil]
  | cons b as ih => simp only [List.cons_append, play, ih, List.append_assoc]

def unstarted (machine : Machine) : Scheduler := { machine }

theorem account_play (m : Machine) (as : List Move) :
    Account ((unstarted m).play as).1 ((unstarted m).play as).2 := by
  induction as using List.reverseRecOn with
  | nil =>
    refine ⟨.of_nil rfl List.mem_cons_self, rfl, fun before x e hp ↦ ?_, nofun⟩
    exact absurd (List.prefix_nil.mp hp) (List.append_ne_nil_of_right_ne_nil _ nofun)
  | append_singleton as a ih =>
    rw [play_concat]
    exact ih.move a

theorem delivered_play (m : Machine) {as : List Move}
    (hw : ∀ n devices, .thread n devices ∈ as → devices.displayWorks = true) :
    Delivered ((unstarted m).play as).1 ((unstarted m).play as).2 := by
  induction as using List.reverseRecOn with
  | nil => rfl
  | append_singleton as a ih =>
    rw [play_concat]
    refine (ih fun n devices hm ↦ ?_).move (account_play m as).staffed fun n devices ha ↦ ?_
    · exact hw n devices (List.mem_append_left _ hm)
    · exact hw n devices (List.mem_append_right _ (List.mem_singleton.mpr ha.symm))

def Control.starting : Control → Bool
  | raiseFlag | spawn _ | announceStart => true
  | _ => false

/-- There are no threads, and no start is under way that would bring any before it resets the
machine. -/
structure AtRest (s : Scheduler) : Prop where
  threads : s.threads = []
  control : s.control.starting = false

theorem AtRest.controlStep (h : AtRest s) (hr : s.control ≠ .reset) : AtRest s.controlStep.1 := by
  obtain ⟨machine, running, control, threads, starts⟩ := s
  obtain ⟨rfl, hs⟩ := h
  cases control with
  | idle | lowerFlag _ | join _ _ => exact ⟨rfl, rfl⟩
  | silence command wasUp =>
    refine ⟨rfl, ?_⟩
    cases wasUp <;> cases command <;> rfl
  | announceStop command =>
    refine ⟨rfl, ?_⟩
    cases command <;> rfl
  | reset => exact absurd rfl hr
  | raiseFlag | spawn _ | announceStart => cases hs

/-- Without threads a move is quiet and leaves none, unless it is the reset of a start. -/
theorem AtRest.move (h : AtRest s) (a : Move) :
    (s.move a).2 = some .reset ∨ (∀ x ∈ (s.move a).2, x.IsQuiet) ∧ AtRest (s.move a).1 := by
  obtain hm | ⟨command, -, hm⟩ | hm | ⟨n, devices, t, rfl, hn, hm⟩ := s.move_cases a
  · rw [hm]
    exact .inr ⟨(fun _ hx ↦ nomatch hx), h⟩
  · rw [hm]
    exact .inr ⟨(fun _ hx ↦ nomatch hx), h.threads, rfl⟩
  · rw [hm]
    by_cases hc : s.control = .reset
    · left
      rw [Scheduler.controlStep, hc]
    · exact .inr ⟨fun x hx ↦ (signal_controlStep hx).resolve_left (hc ·.2), h.controlStep hc⟩
  · rw [h.threads] at hn
    cases hn

theorem AtRest.play (h : AtRest s) (as : List Move) :
    ∀ x ∈ (s.play as).2.takeWhile (· ≠ .reset), x.IsQuiet := by
  induction as generalizing s with
  | nil => exact fun _ hx ↦ nomatch hx
  | cons a as ih =>
    intro x hx
    simp only [Scheduler.play] at hx
    obtain hr | ⟨hq, hrest⟩ := h.move a
    · simp [hr] at hx
    · cases hy : (s.move a).2 with
      | none =>
        rw [hy] at hx
        exact ih hrest x hx
      | some y =>
        have hne : y ≠ .reset := (hq y hy).ne_reset
        simp only [hy, Option.toList_some, List.singleton_append, List.takeWhile_cons, hne,
          ne_eq, not_false_eq_true, decide_true, if_true] at hx
        obtain rfl | hx := List.mem_cons.mp hx
        · exact hq x hy
        · exact ih hrest x hx

inductive Control.EndsStop : Control → Prop
  | silence (command : Command) : EndsStop (.silence command false)
  | announceStop (command : Command) : EndsStop (.announceStop command)

theorem Control.EndsStop.atRest (he : s.control.EndsStop) (h : Staffed s) :
    AtRest (s.move .control).1 := by
  obtain ⟨machine, running, control, threads, starts⟩ := s
  cases he with
  | silence command | announceStop command =>
    refine ⟨h.threads_eq_nil rfl, ?_⟩
    cases command <;> rfl

theorem Control.EndsStop.silent {trace : List Signal} (he : s.control.EndsStop)
    (h : Account s trace) :
    ((trace ++ (s.move .control).2.toList).filterMap Signal.tone?).getLast? = some false := by
  rw [filterMap_append_toList]
  obtain ⟨machine, running, control, threads, starts⟩ := s
  cases he with
  | silence command => exact List.getLast?_concat
  | announceStop command =>
    exact (congrArg List.getLast? (List.append_nil _)).trans (h.silent command rfl)

/-- Whatever calls are made and however the threads take turns, the eras number the resets, and each
tick was issued by a driver of the last start before it. When a stop is done, no thread is left; no
driver is heard or seen until the reset of the next start; the tone was turned off last; and the
pictures presented since the last reset are those that timer ticks returned since then, in the same
order. -/
theorem stop_leaves_no_driver (m : Machine) (as : List Move) :
    ((unstarted m).play as).1.starts = ((unstarted m).play as).2.count .reset ∧
    Punctual ((unstarted m).play as).2 ∧
    ∀ s trace, ((unstarted m).play as).1.control.EndsStop →
      (unstarted m).play (as ++ [.control]) = (s, trace) →
        s.threads = [] ∧ (∀ bs, ∀ x ∈ (s.play bs).2.takeWhile (· ≠ .reset), x.IsQuiet) ∧
        (trace.filterMap Signal.tone?).getLast? = some false ∧
        ((∀ n devices, .thread n devices ∈ as → devices.displayWorks = true) →
          (sinceReset trace).filterMap Signal.presented? =
            (sinceReset trace).filterMap Signal.returned?) := by
  have h := account_play m as
  refine ⟨h.starts, h.punctual, ?_⟩
  intro s trace he hp
  rw [play_concat, Prod.mk.injEq] at hp
  obtain ⟨rfl, rfl⟩ := hp
  have hrest := he.atRest h.staffed
  refine ⟨hrest.threads, hrest.play, he.silent h, fun hw ↦ ?_⟩
  have hd := (delivered_play m hw).move (a := .control) h.staffed fun _ _ ha ↦ nomatch ha
  rw [Delivered, pending, hrest.threads, List.flatMap_nil, List.append_nil] at hd
  exact hd.symm

def beeping : Machine :=
  { Machine.poised [] with program := ⟨[0x60, 0xFF, 0xF0, 0x18], by decide⟩ }

def attached : Devices := ⟨some .released, true⟩

/-- A start, two CPU ticks and a timer tick, and a stop that finds the timer thread behind its
tick. -/
def halted : List Move := List.flatten
  [[.call .start], List.replicate 8 .control, List.replicate 8 (.thread 0 attached),
    List.replicate 3 (.thread 1 attached), [.call .stop], List.replicate 2 .control,
    [.thread 0 attached, .control], List.replicate 3 (.thread 0 attached),
    List.replicate 3 .control]

/-- The tone goes on and the picture is presented before the stop is done, which turns the tone
off. -/
theorem stop_waits_for_picture :
    ∃ s trace, (unstarted beeping).play (halted ++ [.control]) = (s, trace) ∧ s.threads = [] ∧
      trace.filterMap Signal.tone? = [false, true, false] ∧
      (trace.filterMap Signal.tone?).getLast? = some false ∧
      ((sinceReset trace).filterMap Signal.presented?).length = 1 := by
  obtain ⟨-, -, h⟩ := stop_leaves_no_driver beeping halted
  have he : ((unstarted beeping).play halted).1.control = .announceStop .stop := by decide +kernel
  cases hp : (unstarted beeping).play (halted ++ [.control]) with
  | mk s trace =>
    obtain ⟨ht, -, hs, hw⟩ := h s trace (he ▸ .announceStop .stop) hp
    have hall : halted.all (fun | .thread _ d => d.displayWorks | _ => true) = true := rfl
    have hseen : trace.filterMap Signal.tone? = [false, true, false] ∧
        ((sinceReset trace).filterMap Signal.returned?).length = 1 := by
      obtain rfl : _ = trace := congrArg Prod.snd hp
      decide +kernel
    rw [← hw fun _ _ hm ↦ List.all_eq_true.mp hall _ hm] at hseen
    exact ⟨s, trace, rfl, ht, hseen.1, hs, hseen.2⟩

end Chip8.Scheduler
