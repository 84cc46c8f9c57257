import Chip8.Config
import Chip8.Proofs.Pacing

namespace Chip8

theorem tickInterval_pos_iff (rate : UInt32) : 0 < tickInterval rate ↔ rate ≤ 1000000000 := by
  have hrate : rate ≤ 1000000000 ↔ rate.toNat ≤ 1000000000 := UInt32.le_iff_toNat_le
  rw [tickInterval, Nat.div_pos_iff, hrate]
  omega

theorem Config.validate_eq_ok_iff (c : Config) : c.validate = .ok () ↔ 0 < c.rate := by
  rw [validate, UInt32.pos_iff_ne_zero]
  split
  · exact iff_of_false nofun (fun h ↦ h ‹_›)
  · exact iff_of_true rfl ‹_›

namespace Pacer

variable {p : Pacer} {t : Nat → Int} {now a : Int} {k m n : Nat}

theorem due_advance_lt_iff : (p.advance now).due < now ↔
    p.due + p.interval < now ∧ now ≤ p.due + 2 * p.interval := by
  rw [due_advance]
  split <;> omega

theorem due_advance_eq_iff (hlate : p.due + p.interval < now) :
    (p.advance now).due = now ↔ p.due + 2 * p.interval < now := by
  rw [due_advance]
  split <;> omega

theorem le_due_advance_advance (p : Pacer) (now later : Int) :
    now ≤ ((p.advance now).advance later).due := by
  have hmoved := due_add_interval_le (p.advance now) later
  have hinterval : (p.advance now).interval = p.interval := rfl
  by_cases h : p.due + 2 * p.interval < now
  · have hdue : (p.advance now).due = now := (due_advance_eq_iff (by omega)).mpr h
    omega
  · have hdue := due_advance_of_le (p := p) (by omega : now ≤ p.due + 2 * p.interval)
    omega

theorem add_mul_le_of_le_due (h : p.Waits t n) (ha : a ≤ (p.after t m).due) {j : Nat}
    (hj : m + j < n) : a + j * p.interval ≤ t (m + j) := by
  have hmoved := due_after_add_le p t m j
  have hlast := h (m + j) hj
  omega

/-- A tick that is taken more than an interval late makes the pacer start over exactly if it is more
than two intervals late, and then nothing is made up for. Otherwise the next tick is overdue already
and is made up for, but the one after it never is. -/
theorem stall_made_up_iff (h : p.Waits t n) (hlate : (p.after t k).due + p.interval < t k) :
    ((p.after t (k + 1)).due = t k ↔ (p.after t k).due + 2 * p.interval < t k) ∧
    ((p.after t (k + 1)).due < t k ↔ t k ≤ (p.after t k).due + 2 * p.interval) ∧
    ((p.after t k).due + 2 * p.interval < t k →
      ∀ j, k + 1 + j < n → t k + j * p.interval ≤ t (k + 1 + j)) ∧
    ∀ j, k + 2 + j < n → t k + j * p.interval ≤ t (k + 2 + j) := by
  have hover : (p.after t (k + 1)).due = t k ↔ (p.after t k).due + 2 * p.interval < t k := by
    rw [← interval_after p t k] at hlate ⊢
    exact due_advance_eq_iff hlate
  refine ⟨hover, ?_, ?_, ?_⟩
  · rw [← interval_after p t k] at hlate ⊢
    exact due_advance_lt_iff.trans (and_iff_right hlate)
  · intro hlong j hj
    exact add_mul_le_of_le_due h (hover.mpr hlong).ge hj
  · intro j hj
    exact add_mul_le_of_le_due h (le_due_advance_advance ..) hj

theorem long_stall_not_made_up :
    Waits ⟨10, 0⟩ (fun k ↦ [0, 35, 35, 45].getD k 0) 4 ∧
    (after ⟨10, 0⟩ (fun k ↦ [0, 35, 35, 45].getD k 0) 1).due + (10 : Nat) < 35 ∧
    (after ⟨10, 0⟩ (fun k ↦ [0, 35, 35, 45].getD k 0) 2).due = 35 ∧
    (35 : Int) + (1 : Nat) * (10 : Nat) ≤ 45 := by
  have hw : Waits ⟨10, 0⟩ (fun k ↦ [0, 35, 35, 45].getD k 0) 4 := by decide
  have hlate : (after ⟨10, 0⟩ (fun k ↦ [0, 35, 35, 45].getD k 0) 1).due + (10 : Nat) < 35 := by
    decide
  obtain ⟨hover, -, hlong, -⟩ := stall_made_up_iff (k := 1) hw hlate
  exact ⟨hw, hlate, hover.mpr (by decide), hlong (by decide) 1 (by decide)⟩

/-- A stall of one and a half intervals at ten ticks a second: the next tick is overdue, and it is
taken at once to make up for the stall. -/
theorem short_stall_made_up :
    0 < (start 10 0).interval ∧ (start 10 0).Waits (fun _ ↦ 150000000) 2 ∧
    (start 10 0).due + (start 10 0).interval < 150000000 ∧
    ¬ 150000000 ≤ ((start 10 0).after (fun _ ↦ 150000000) 1).due ∧
    ((start 10 0).after (fun _ ↦ 150000000) 2).due = 200000000 := by
  decide

/-- However late ticks are, a driver that waits for them never takes more than `most` at one time.
-/
def AtMostAtOnce (p : Pacer) (most : Nat) : Prop :=
  ∀ t n, p.Waits t n → ∀ a, (ticksWithin t n a a).card ≤ most

theorem atMostAtOnce_of_pos (hp : 0 < p.interval) : p.AtMostAtOnce 3 := by
  intro t n h a
  have hrate := ticksWithin_near_rate h (le_refl a)
  by_contra hmany
  have hextra : 0 < ((ticksWithin t n a a).card : Int) - 2 - 1 := by omega
  have hlong := mul_pos hextra (Int.natCast_pos.mpr hp)
  omega

theorem due_after_of_interval_eq_zero (hp : p.interval = 0) (n : Nat) :
    (p.after (fun _ ↦ p.due) n).due = p.due := by
  induction n with
  | zero => rfl
  | succ n ih =>
    have hprompt : p.due ≤ (p.after (fun _ ↦ p.due) n).due +
        2 * (p.after (fun _ ↦ p.due) n).interval := by omega
    have hdue := due_advance_of_le hprompt
    rw [after, hdue, ih, interval_after, hp, Nat.cast_zero, add_zero]

theorem exists_all_at_once (hp : p.interval = 0) (n : Nat) :
    ∃ t, p.Waits t n ∧ (ticksWithin t n p.due p.due).card = n := by
  refine ⟨fun _ ↦ p.due, ?_, ?_⟩
  · intro k _
    rw [due_after_of_interval_eq_zero hp]
  · simp only [ticksWithin, le_refl, and_self, Finset.filter_true, Finset.card_range]

/-- Of the accepted rates, those up to a tick for each nanosecond are paced: no more than three
ticks are taken at one time. At all higher rates the ticks are not paced at all. -/
theorem accepted_rate_paced_iff (c : Config) (now : Int) :
    (c.validate = .ok () ∧ (start c.rate now).AtMostAtOnce 3 ↔
      0 < c.rate ∧ c.rate ≤ 1000000000) ∧
    (c.validate = .ok () ∧
      (∀ n, ∃ t, (start c.rate now).Waits t n ∧ (ticksWithin t n now now).card = n) ↔
      1000000000 < c.rate) := by
  have hok := c.validate_eq_ok_iff
  have hpos : 0 < (start c.rate now).interval ↔ c.rate ≤ 1000000000 := tickInterval_pos_iff c.rate
  have hspins (h : 1000000000 < c.rate) (n : Nat) :
      ∃ t, (start c.rate now).Waits t n ∧ (ticksWithin t n now now).card = n := by
    have hzero := Nat.eq_zero_of_not_pos fun hi ↦ UInt32.not_le.mpr h (hpos.mp hi)
    exact exists_all_at_once hzero n
  constructor
  · constructor
    · rintro ⟨hv, hpaced⟩
      refine ⟨hok.mp hv, UInt32.not_lt.mp fun h ↦ ?_⟩
      obtain ⟨t, hw, hcard⟩ := hspins h 4
      have hfew := hpaced t 4 hw now
      omega
    · rintro ⟨hv, hle⟩
      exact ⟨hok.mpr hv, atMostAtOnce_of_pos (hpos.mpr hle)⟩
  · constructor
    · rintro ⟨-, hall⟩
      refine UInt32.not_le.mp fun hle ↦ ?_
      obtain ⟨t, hw, hcard⟩ := hall 4
      have hfew := atMostAtOnce_of_pos (hpos.mpr hle) t 4 hw now
      omega
    · intro h
      exact ⟨hok.mpr (UInt32.lt_trans (by decide) h), hspins h⟩

theorem four_ticks_at_accepted_rate :
    Config.validate { rate := 2000000000 } = .ok () ∧
    (start 2000000000 0).Waits (fun _ ↦ 0) 4 ∧
    ¬ (ticksWithin (fun _ ↦ 0) 4 0 0).card ≤ 3 := by
  decide

end Pacer

end Chip8
