import Chip8.Proofs.Threads

namespace Chip8.Scheduler

variable {s : Scheduler} {a : Move} {x : Signal}

theorem move_cases (s : Scheduler) (a : Move) :
    s.move a = (s, none) ∨
    (∃ command, s.control = .idle ∧
      s.move a = ({ s with control := .lowerFlag command }, none)) ∨
    s.move a = s.controlStep ∨
    ∃ n devices t, a = .thread n devices ∧ s.threads[n]? = some t ∧
      s.move a =
        ({ s with
            machine := (t.step s.running devices s.machine).2.1
            threads := s.threads.set n (t.step s.running devices s.machine).1 },
          (t.step s.running devices s.machine).2.2) := by
  cases a with
  | call command =>
    obtain ⟨machine, running, control, threads, starts⟩ := s
    cases control with
    | idle => exact .inr (.inl ⟨command, rfl, rfl⟩)
    | _ => exact .inl rfl
  | control => exact .inr (.inr (.inl rfl))
  | thread n devices =>
    cases ht : s.threads[n]? with
    | none => exact .inl (by simp only [move, ht])
    | some t => exact .inr (.inr (.inr ⟨n, devices, t, rfl, ht, by simp only [move, ht]⟩))

theorem join_cases (s : Scheduler) (command : Command) (wasUp : Bool) :
    (s.threads = [] ∧ s.join command wasUp = ({ s with control := .silence command wasUp }, none)) ∨
    (∃ t rest signal, s.threads = t :: rest ∧ t.pending = [] ∧
      (∀ x ∈ signal, x.IsQuiet) ∧
      s.join command wasUp = ({ s with threads := rest }, signal)) ∨
    s.join command wasUp = (s, none) := by
  obtain ⟨machine, running, control, _ | ⟨⟨driver, era, stage⟩, rest⟩, starts⟩ := s
  · exact .inl ⟨rfl, rfl⟩
  · cases stage with
    | ended => exact .inr (.inl ⟨_, rest, none, rfl, rfl, (fun _ hx ↦ nomatch hx), rfl⟩)
    | crashed =>
      refine .inr (.inl ⟨_, rest, some (.log (.driverCrashed driver)), rfl, rfl, ?_, rfl⟩)
      rintro _ ⟨⟩
      exact .log _
    | _ => exact .inr (.inr rfl)

theorem map_set_of_eq {α β : Type} {f : α → β} {l : List α} {n : Nat} {a b : α}
    (h : l[n]? = some a) (hf : f b = f a) : (l.set n b).map f = l.map f := by
  obtain ⟨hn, rfl⟩ := List.getElem?_eq_some_iff.mp h
  rw [List.map_set, hf, ← List.getElem_map f (h := by rwa [List.length_map]), List.set_getElem_self]

/-- The drivers whose threads there may be when the controlling thread has the step before it. -/
def Control.crews : Control → List (List Driver)
  | idle | lowerFlag _ => [[], [.cpu, .timer]]
  | join _ _ => [[], [.timer], [.cpu, .timer]]
  | spawn .timer => [[.cpu]]
  | announceStart => [[.cpu, .timer]]
  | _ => [[]]

/-- The threads there are belong to the last start, each at a stage of its own loop, and no others
are there than should be. -/
structure Staffed (s : Scheduler) : Prop where
  crew : s.threads.map Thread.driver ∈ s.control.crews
  era : ∀ t ∈ s.threads, t.era = s.starts
  inLoop : ∀ t ∈ s.threads, t.InLoop

namespace Staffed

theorem of_nil (hs : s.threads = []) (hc : [] ∈ s.control.crews) : Staffed s where
  crew := by rwa [hs]
  era := by rw [hs]; nofun
  inLoop := by rw [hs]; nofun

theorem threads_eq_nil (h : Staffed s) (hc : s.control.crews = [[]]) : s.threads = [] := by
  have hm := h.crew
  rw [hc, List.mem_singleton] at hm
  exact List.map_eq_nil_iff.mp hm

theorem join (h : Staffed s) {command : Command} {wasUp : Bool}
    (hc : s.control = .join command wasUp) : Staffed (s.join command wasUp).1 := by
  obtain ⟨hs, hj⟩ | ⟨t, rest, signal, hs, -, -, hj⟩ | hj := s.join_cases command wasUp
  · rw [hj]
    exact of_nil hs (by simp only [Control.crews, List.mem_singleton])
  · rw [hj]
    have hm := h.crew
    refine ⟨?_, fun u hu ↦ h.era u (hs ▸ .tail _ hu), fun u hu ↦ h.inLoop u (hs ▸ .tail _ hu)⟩
    -- What is behind the oldest thread is again one of the crews.
    simp only [hs, hc, Control.crews, List.map_cons, List.mem_cons, List.cons.injEq, reduceCtorEq,
      List.not_mem_nil, or_false, false_or] at hm ⊢
    exact hm.imp (·.2) (.inl ·.2)
  · rwa [hj]

theorem controlStep (h : Staffed s) : Staffed s.controlStep.1 := by
  obtain ⟨machine, running, control, threads, starts⟩ := s
  cases control with
  | idle => exact h
  | lowerFlag command =>
    refine ⟨?_, h.era, h.inLoop⟩
    exact List.cons_subset_cons _ (List.subset_cons_self _ _) h.crew
  | join command wasUp => exact h.join rfl
  | silence command wasUp =>
    refine of_nil (h.threads_eq_nil rfl) ?_
    cases wasUp <;> cases command <;> exact List.mem_cons_self
  | announceStop command =>
    refine of_nil (h.threads_eq_nil rfl) ?_
    cases command <;> exact List.mem_cons_self
  | reset | raiseFlag => exact of_nil (h.threads_eq_nil rfl) List.mem_cons_self
  | spawn driver =>
    refine ⟨?_, fun t ht ↦ ?_, fun t ht ↦ ?_⟩
    · have hm := h.crew
      rw [Scheduler.controlStep, List.map_append]
      cases driver <;> rw [List.mem_singleton.mp hm] <;> exact List.mem_cons_self
    · obtain ht | rfl := List.mem_append.mp ht |>.imp_right List.mem_singleton.mp
      · exact h.era t ht
      · rfl
    · obtain ht | rfl := List.mem_append.mp ht |>.imp_right List.mem_singleton.mp
      · exact h.inLoop t ht
      · exact Thread.inLoop_of_driver?_eq_none rfl
  | announceStart =>
    refine ⟨?_, h.era, h.inLoop⟩
    exact List.mem_cons_of_mem _ h.crew

/-- Starting and stopping keeps the crew in order, however the threads take turns. -/
theorem move (h : Staffed s) (a : Move) : Staffed (s.move a).1 := by
  obtain hm | ⟨command, hc, hm⟩ | hm | ⟨n, devices, t, -, ht, hm⟩ := s.move_cases a
  · rwa [hm]
  · rw [hm]
    refine ⟨?_, h.era, h.inLoop⟩
    have hcrew := h.crew
    rwa [hc] at hcrew
  · rw [hm]
    exact h.controlStep
  · rw [hm]
    have hsteps := t.steps_step (h.inLoop t (List.mem_of_getElem? ht)) s.running devices s.machine
    refine ⟨?_, fun u hu ↦ ?_, fun u hu ↦ ?_⟩
    · rw [map_set_of_eq ht hsteps.driver]
      exact h.crew
    · obtain hu | rfl := List.mem_or_eq_of_mem_set hu
      · exact h.era u hu
      · exact hsteps.era.trans (h.era t (List.mem_of_getElem? ht))
    · obtain hu | rfl := List.mem_or_eq_of_mem_set hu
      · exact h.inLoop u hu
      · exact hsteps.inLoop

end Staffed

theorem pictures_of_none {signal : Option Signal}
    (h : ∀ x ∈ signal, x.returned? = none ∧ x.presented? = none) (frames : List Frame) :
    frames ++ (signal.bind Signal.returned?).toList =
      (signal.bind Signal.presented?).toList ++ frames := by
  rw [Option.bind_eq_none_iff.mpr fun x hx ↦ (h x hx).1,
    Option.bind_eq_none_iff.mpr fun x hx ↦ (h x hx).2]
  exact List.append_nil frames

def pending (s : Scheduler) : List Frame := s.threads.flatMap Thread.pending

theorem join_keeps (s : Scheduler) (command : Command) (wasUp : Bool) :
    (s.join command wasUp).1.starts = s.starts ∧ (s.join command wasUp).1.pending = s.pending ∧
      ∀ x ∈ (s.join command wasUp).2, x.IsQuiet := by
  obtain ⟨-, hj⟩ | ⟨t, rest, signal, hs, hp, hq, hj⟩ | hj := s.join_cases command wasUp
  · rw [hj]
    exact ⟨rfl, rfl, fun _ hx ↦ nomatch hx⟩
  · rw [hj]
    refine ⟨rfl, ?_, hq⟩
    rw [pending, pending, hs, List.flatMap_cons, hp, List.nil_append]
  · rw [hj]
    exact ⟨rfl, rfl, fun _ hx ↦ nomatch hx⟩

theorem signal_controlStep (hx : x ∈ s.controlStep.2) :
    x = .reset ∧ s.control = .reset ∨ x.IsQuiet := by
  obtain ⟨machine, running, control, threads, starts⟩ := s
  cases control with
  | join command wasUp => exact .inr ((join_keeps _ command wasUp).2.2 x hx)
  | silence command wasUp =>
    obtain rfl := Option.some.inj hx
    exact .inr .silence
  | announceStop _ | announceStart =>
    obtain rfl := Option.some.inj hx
    exact .inr (.log _)
  | reset => exact .inl ⟨(Option.some.inj hx).symm, rfl⟩
  | _ => cases hx

theorem count_reset_eq_zero {signal : Option Signal} (h : ∀ x ∈ signal, x ≠ .reset) :
    signal.toList.count .reset = 0 :=
  List.count_eq_zero.mpr fun hx ↦ h _ (Option.mem_toList.mp hx) rfl

theorem starts_controlStep (s : Scheduler) :
    s.controlStep.1.starts = s.starts + s.controlStep.2.toList.count .reset := by
  obtain ⟨machine, running, control, threads, starts⟩ := s
  cases control with
  | join command wasUp =>
    have hk := join_keeps ⟨machine, running, .join command wasUp, threads, starts⟩ command wasUp
    have hz := count_reset_eq_zero fun x hx ↦ (hk.2.2 x hx).ne_reset
    exact hk.1.trans (congrArg (starts + ·) hz).symm
  | _ => rfl

theorem pending_controlStep (s : Scheduler) : s.controlStep.1.pending = s.pending := by
  obtain ⟨machine, running, control, threads, starts⟩ := s
  cases control with
  | join command wasUp => exact (join_keeps _ command wasUp).2.1
  | spawn driver =>
    simp only [controlStep, pending, List.flatMap_append]
    exact List.append_nil _
  | _ => rfl

namespace Staffed

/-- What a move signals is a reset, or quiet, or comes from a driver of the last start. -/
theorem signal_move (h : Staffed s) (hx : x ∈ (s.move a).2) :
    x = .reset ∧ s.control = .reset ∨ x.IsQuiet ∨
      x ≠ .reset ∧ ∀ e ∈ x.era?, e = s.starts := by
  obtain hm | ⟨command, -, hm⟩ | hm | ⟨n, devices, t, -, ht, hm⟩ := s.move_cases a
  · rw [hm] at hx
    cases hx
  · rw [hm] at hx
    cases hx
  · rw [hm] at hx
    exact (signal_controlStep hx).imp_right .inl
  · rw [hm] at hx
    have hmem := List.mem_of_getElem? ht
    obtain ⟨hr, he⟩ := (t.steps_step (h.inLoop t hmem) s.running devices s.machine).signal x hx
    exact .inr (.inr ⟨hr, fun e hx ↦ (he e hx).trans (h.era t hmem)⟩)

theorem starts_move (h : Staffed s) (a : Move) :
    (s.move a).1.starts = s.starts + (s.move a).2.toList.count .reset := by
  obtain hm | ⟨command, -, hm⟩ | hm | ⟨n, devices, t, -, ht, hm⟩ := s.move_cases a
  · rw [hm]
    rfl
  · rw [hm]
    rfl
  · rw [hm]
    exact s.starts_controlStep
  · have hl := h.inLoop t (List.mem_of_getElem? ht)
    have hr := fun x hx ↦ ((t.steps_step hl s.running devices s.machine).signal x hx).1
    rw [hm, count_reset_eq_zero hr]
    rfl

theorem crews_subset (control : Control) :
    control.crews ⊆ [[], [.cpu], [.timer], [.cpu, .timer]] := by
  cases control with
  | spawn driver => cases driver <;> simp [Control.crews]
  | _ => simp [Control.crews]

theorem pending_set (h : Staffed s) {n : Nat} {t : Thread} (ht : s.threads[n]? = some t)
    (hd : t.driver = .timer) (u : Thread) :
    (s.threads.set n u).flatMap Thread.pending = u.pending := by
  obtain ⟨machine, running, control, _ | ⟨c, _ | ⟨d, rest⟩⟩, starts⟩ := s
  · cases ht
  · cases n with
    | zero => exact List.append_nil u.pending
    | succ n => cases ht
  · -- With two threads, the first one is the CPU thread.
    have hc := crews_subset _ h.crew
    simp only [List.map_cons, List.mem_cons, List.cons.injEq, reduceCtorEq, and_false, false_or,
      List.map_eq_nil_iff, List.not_mem_nil, or_false] at hc
    obtain ⟨hc, -, rfl⟩ := hc
    cases n with
    | zero =>
      obtain rfl := Option.some.inj ht
      cases hc.symm.trans hd
    | succ n =>
      cases n with
      | zero =>
        have hp := Thread.pending_eq_nil (h.inLoop c List.mem_cons_self) hc
        simp only [List.set_cons_succ, List.set_cons_zero, List.flatMap_cons, hp,
          List.flatMap_nil, List.append_nil, List.nil_append]
      | succ n => cases ht

/-- A move presents pictures in the order in which they were handed out, or leaves them pending. -/
theorem pending_move (h : Staffed s)
    (hw : ∀ n devices, a = .thread n devices → devices.displayWorks = true) :
    s.pending ++ ((s.move a).2.bind Signal.returned?).toList =
      ((s.move a).2.bind Signal.presented?).toList ++ (s.move a).1.pending := by
  obtain hm | ⟨command, -, hm⟩ | hm | ⟨n, devices, t, rfl, ht, hm⟩ := s.move_cases a
  · rw [hm]
    exact List.append_nil s.pending
  · rw [hm]
    exact List.append_nil s.pending
  · rw [hm, pending_controlStep]
    refine pictures_of_none (fun x hx ↦ ?_) s.pending
    obtain ⟨rfl, -⟩ | hq := signal_controlStep hx
    · exact ⟨rfl, rfl⟩
    · exact hq.pictures
  · have hl := h.inLoop t (List.mem_of_getElem? ht)
    rw [hm]
    obtain ⟨hp, hx⟩ | ⟨hd, hp⟩ := t.step_pictures hl s.running (hw n devices rfl) s.machine
    · rw [pending, pending, List.flatMap_def, List.flatMap_def, map_set_of_eq ht hp]
      exact pictures_of_none hx _
    · have hset := h.pending_set ht hd
      have hself : s.pending = t.pending := by
        obtain ⟨hn, rfl⟩ := List.getElem?_eq_some_iff.mp ht
        have hs := hset s.threads[n]
        rwa [List.set_getElem_self] at hs
      rw [hself, hp, pending, hset]

end Staffed

end Chip8.Scheduler
