import Chip8.Proofs.WriteSet

namespace Chip8

namespace Timer

variable {T U : Timer} {x y : Register}

theorem eq_of_setter_eq (h : T.setter x = U.setter y) : T = U := by
  cases T with
  | delay | sound => cases U <;> first | rfl | cases h

end Timer

theorem Timers.toNat_countDown (v : UInt8) : (countDown v).toNat = v.toNat - 1 := by
  rw [countDown]
  split
  · subst v
    rfl
  · have hv : (1 : UInt8) ≤ v := UInt8.pos_iff_ne_zero.mpr ‹_›
    exact UInt8.toNat_sub_of_le _ _ hv

theorem Timer.toNat_value_tick (T : Timer) (t : Timers) :
    (T.value t.tick).toNat = (T.value t).toNat - 1 := by
  cases T with
  | delay | sound => exact Timers.toNat_countDown _

namespace State

variable {s : State} {d : Dialect} {keys : Keypad}

theorem get_of_readDelay {p : UInt16} {x : Register}
    (h : (s.step d keys).2 = .retired p (.readDelay x)) :
    (s.step d keys).1.registers.get x = s.timers.delay := by
  obtain ⟨-, hi, -⟩ := eq_of_step_retired h
  rw [step_of_retired hi.symm rfl]
  exact Registers.get_set_self ..

end State

namespace Machine

variable {m : Machine} {e : Event} {es : List Event} {keys : Keypad} {T : Timer}

/-- No CPU tick of the run retires the instruction that writes the timer. -/
def LeavesAlone (m : Machine) (T : Timer) (es : List Event) : Prop :=
  ∀ r ∈ m.cpuHistory es, ∀ p x, r.1 ≠ .retired p (T.setter x)

theorem value_cpuTick (h : ∀ p x, (m.cpuTick keys).2 ≠ .retired p (T.setter x)) :
    T.value (m.cpuTick keys).1.state.timers = T.value m.state.timers := by
  refine Decidable.byContradiction fun hne ↦ ?_
  obtain ⟨p, x, ho⟩ := State.set_of_value_ne hne
  exact h p x ho

theorem leavesAlone_cons : m.LeavesAlone T (e :: es) ↔
    (∀ p x, (m.respond e).2 ≠ .cpu (.retired p (T.setter x))) ∧
      (m.respond e).1.LeavesAlone T es := by
  cases e with
  | cpu keys =>
    rw [LeavesAlone, cpuHistory_cpu, List.forall_mem_cons]
    simp only [respond, ne_eq, Response.cpu.injEq]
    exact Iff.rfl
  | timer | take | reset =>
    refine (and_iff_right ?_).symm
    intro p x h
    cases h

theorem toNat_value_respond (he : e ≠ .reset)
    (h : ∀ p x, (m.respond e).2 ≠ .cpu (.retired p (T.setter x))) :
    (T.value (m.respond e).1.state.timers).toNat =
      (T.value m.state.timers).toNat - [e].count .timer := by
  cases e with
  | cpu keys =>
    have hkept := value_cpuTick fun p x ho ↦ h p x (congrArg Response.cpu ho)
    exact congrArg UInt8.toNat hkept
  | timer => exact T.toNat_value_tick m.state.timers
  | take => rfl
  | reset => exact absurd rfl he

theorem toNat_value_run (hes : .reset ∉ es) (h : m.LeavesAlone T es) :
    (T.value (m.run es).state.timers).toNat =
      (T.value m.state.timers).toNat - es.count .timer := by
  induction es generalizing m with
  | nil => rfl
  | cons e es ih =>
    obtain ⟨he, hes⟩ := List.ne_and_not_mem_of_not_mem_cons hes
    obtain ⟨hfirst, hrest⟩ := leavesAlone_cons.mp h
    have hcount : (e :: es).count .timer = [e].count .timer + es.count .timer := by
      rw [← List.singleton_append, List.count_append]
    rw [run_cons, ih hes hrest, toNat_value_respond he.symm hfirst, hcount, Nat.sub_sub]

theorem tone_timerTick_iff (m : Machine) :
    m.timerTick.2.tone = true ↔ 1 < m.state.timers.sound.toNat := by
  have hticked := Timer.sound.toNat_value_tick m.state.timers
  have htone : m.timerTick.2.tone = true ↔ 0 < m.state.timers.tick.sound := decide_eq_true_iff
  have hpos : 0 < m.state.timers.tick.sound ↔ 0 < m.state.timers.tick.sound.toNat :=
    UInt8.lt_iff_toNat_lt
  simp only [Timer.value] at hticked
  rw [htone, hpos, hticked]
  omega

/-- Whatever the program does, the timers count the timer ticks. As long as no tick retires an
instruction that writes a timer, it has gone down by one for each timer tick, no further than to
zero: that is what reading the delay timer gives, and the tone sounds at a timer tick exactly if
the sound timer is not yet at zero behind it. Writing one timer does nothing to the other. -/
theorem timers_count_timer_ticks (m : Machine) (hes : .reset ∉ es) :
    (m.LeavesAlone .delay es →
      (m.run es).state.timers.delay.toNat = m.state.timers.delay.toNat - es.count .timer ∧
      ∀ keys p x, ((m.run es).cpuTick keys).2 = .retired p (.readDelay x) →
        (((m.run es).cpuTick keys).1.state.registers.get x).toNat =
          m.state.timers.delay.toNat - es.count .timer) ∧
    (m.LeavesAlone .sound es →
      (m.run es).state.timers.sound.toNat = m.state.timers.sound.toNat - es.count .timer ∧
      ((m.run es).timerTick.2.tone = true ↔
        es.count .timer + 1 < m.state.timers.sound.toNat)) ∧
    (∀ T : Timer, (T.value (m.run es).timerTick.1.state.timers).toNat =
      (T.value (m.run es).state.timers).toNat - 1) ∧
    ∀ T U : Timer, T ≠ U → ∀ keys p x,
      ((m.run es).cpuTick keys).2 = .retired p (U.setter x) →
        T.value ((m.run es).cpuTick keys).1.state.timers = T.value (m.run es).state.timers := by
  refine ⟨fun h ↦ ?_, fun h ↦ ?_, ?_, ?_⟩
  · have hdelay : (m.run es).state.timers.delay.toNat =
        m.state.timers.delay.toNat - es.count .timer := toNat_value_run hes h
    refine ⟨hdelay, fun keys p x ho ↦ ?_⟩
    rw [← hdelay]
    exact congrArg UInt8.toNat (State.get_of_readDelay ho)
  · have hsound : (m.run es).state.timers.sound.toNat =
        m.state.timers.sound.toNat - es.count .timer := toNat_value_run hes h
    refine ⟨hsound, ?_⟩
    rw [tone_timerTick_iff, hsound]
    omega
  · intro T
    exact T.toNat_value_tick _
  · intro T U hne keys p x ho
    refine value_cpuTick fun q y ho' ↦ hne ?_
    obtain ⟨-, hi⟩ := Outcome.retired.inj (ho'.symm.trans ho)
    exact Timer.eq_of_setter_eq hi

def counting : Machine :=
  { poised [0xF0, 0x18, 0xF1, 0x07] with state.timers := ⟨3, 3⟩ }

theorem delay_counted_past_silence :
    .reset ∉ [Event.timer, .cpu .released, .take, .timer] ∧
    counting.LeavesAlone .delay [.timer, .cpu .released, .take, .timer] ∧
    counting.LeavesAlone .sound [.timer] ∧
    (counting.run [.timer]).timerTick.2.tone = true ∧
    ∃ w, w = counting.run [.timer, .cpu .released, .take, .timer] ∧
      (w.cpuTick .released).2 = .retired 2 (.readDelay 1) ∧
      ((w.cpuTick .released).1.state.registers.get 1).toNat = 1 := by
  have hes : .reset ∉ [Event.timer, .cpu .released, .take, .timer] := by decide
  have hd : counting.LeavesAlone .delay [.timer, .cpu .released, .take, .timer] := by
    have ho : (counting.cpuHistory [.timer, .cpu .released, .take, .timer]).map Prod.fst =
        [.retired 0 (.setSound 0)] := by
      decide +kernel
    intro r hr p x he
    have hm := ho ▸ List.mem_map_of_mem hr
    simp [he, Timer.setter] at hm
  have hs : counting.LeavesAlone .sound [.timer] := fun r hr ↦ absurd hr List.not_mem_nil
  obtain ⟨hdelay, -⟩ := timers_count_timer_ticks counting hes
  obtain ⟨-, hread⟩ := hdelay hd
  obtain ⟨-, hsound, -⟩ := timers_count_timer_ticks counting (by decide : .reset ∉ [Event.timer])
  obtain ⟨-, htone⟩ := hsound hs
  refine ⟨hes, hd, hs, htone.mpr (by decide), _, rfl, ?_⟩
  generalize hw : run _ _ = w at hread ⊢
  have ho : (w.cpuTick .released).2 = .retired 2 (.readDelay 1) := by
    rw [← hw]
    decide +kernel
  refine ⟨ho, (hread _ _ _ ho).trans ?_⟩
  decide

end Machine

end Chip8
