import Chip8.Pacer
import Mathlib.Algebra.Order.Ring.Int
import Mathlib.Data.Finset.Max
import Mathlib.Order.Interval.Finset.Nat

namespace Chip8.Pacer

/-- The pacer after its first `n` ticks, when tick `k` is taken at the time `t k`. -/
def after (p : Pacer) (t : Nat → Int) : Nat → Pacer
  | 0 => p
  | n + 1 => (p.after t n).advance (t n)

/-- None of the first `n` ticks is taken before it is due: the driver waits for each of them. -/
def Waits (p : Pacer) (t : Nat → Int) (n : Nat) : Prop :=
  ∀ k < n, (p.after t k).due ≤ t k

instance (p : Pacer) (t : Nat → Int) (n : Nat) : Decidable (p.Waits t n) :=
  inferInstanceAs (Decidable (∀ k < n, (p.after t k).due ≤ t k))

def ticksWithin (t : Nat → Int) (n : Nat) (a b : Int) : Finset Nat :=
  (Finset.range n).filter fun k ↦ a ≤ t k ∧ t k ≤ b

variable {p : Pacer} {t : Nat → Int} {now a b : Int} {k m n : Nat}

theorem due_advance (p : Pacer) (now : Int) : (p.advance now).due =
    if p.due + p.interval + p.interval < now then now else p.due + p.interval := rfl

theorem due_advance_of_le (h : now ≤ p.due + 2 * p.interval) :
    (p.advance now).due = p.due + p.interval := by
  rw [due_advance, if_neg (by omega)]

theorem due_add_interval_le (p : Pacer) (now : Int) :
    p.due + p.interval ≤ (p.advance now).due := by
  rw [due_advance]
  split <;> omega

theorem due_advance_near (h : p.due ≤ now) :
    now - p.interval ≤ (p.advance now).due ∧ (p.advance now).due ≤ now + p.interval := by
  rw [due_advance]
  split <;> omega

theorem interval_after (p : Pacer) (t : Nat → Int) (n : Nat) :
    (p.after t n).interval = p.interval := by
  induction n with
  | zero => rfl
  | succ n ih => exact ih

theorem due_after_near (h : p.Waits t n) (hk : k < n) :
    t k - p.interval ≤ (p.after t (k + 1)).due ∧
      (p.after t (k + 1)).due ≤ t k + p.interval := by
  have hnear := due_advance_near (h k hk)
  rw [interval_after] at hnear
  exact hnear

/-- However late the ticks are taken, the deadline moves by an interval at least for each. -/
theorem due_after_add_le (p : Pacer) (t : Nat → Int) (m j : Nat) :
    (p.after t m).due + j * p.interval ≤ (p.after t (m + j)).due := by
  induction j with
  | zero => simp only [Nat.cast_zero, zero_mul, add_zero, le_refl]
  | succ j ih =>
    have hstep := due_add_interval_le (p.after t (m + j)) (t (m + j))
    rw [interval_after] at hstep
    calc
      (p.after t m).due + (j + 1 : Nat) * p.interval
          = (p.after t m).due + j * p.interval + p.interval := by
        rw [Nat.cast_succ, add_mul, one_mul, add_assoc]
      _ ≤ (p.after t (m + j)).due + p.interval := by omega
      _ ≤ (p.after t (m + (j + 1))).due := hstep

theorem interval_mul_le_gap (h : p.Waits t n) (hm : m < k) (hk : k < n) :
    ((k : Int) - m - 2) * p.interval ≤ t k - t m := by
  obtain ⟨j, rfl⟩ := Nat.exists_eq_add_of_le hm
  have hfirst := (due_after_near h (hm.trans hk)).1
  have hmoved := due_after_add_le p t (m + 1) j
  have hlast := h (m + 1 + j) hk
  have hcount : ((m + 1 + j : Nat) : Int) - m - 2 = j - 1 := by omega
  rw [hcount, sub_mul, one_mul]
  show j * (p.interval : Int) - p.interval ≤ t (m + 1 + j) - t m
  omega

theorem card_ticksWithin_le (h : (ticksWithin t n a b).Nonempty) :
    (ticksWithin t n a b).card ≤
      (ticksWithin t n a b).max' h + 1 - (ticksWithin t n a b).min' h := by
  have hsub : ticksWithin t n a b ⊆
      Finset.Icc ((ticksWithin t n a b).min' h) ((ticksWithin t n a b).max' h) := by
    intro k hk
    exact Finset.mem_Icc.mpr ⟨Finset.min'_le _ k hk, Finset.le_max' _ k hk⟩
  rw [← Nat.card_Icc]
  exact Finset.card_le_card hsub

/-- A window of time holds at most two ticks more than fit into it at the nominal rate. -/
theorem ticksWithin_near_rate (h : p.Waits t n) (hab : a ≤ b) :
    (((ticksWithin t n a b).card : Int) - 2 - 1) * p.interval ≤ b - a := by
  by_cases hfew : (ticksWithin t n a b).card ≤ 3
  · have hneg : ((ticksWithin t n a b).card : Int) - 2 - 1 ≤ 0 := by omega
    have hmul := mul_nonpos_of_nonpos_of_nonneg hneg (Int.natCast_nonneg p.interval)
    omega
  · have hne : (ticksWithin t n a b).Nonempty := Finset.card_pos.mp (by omega)
    have hcard := card_ticksWithin_le hne
    obtain ⟨-, hfirst, -⟩ := Finset.mem_filter.mp (Finset.min'_mem _ hne)
    obtain ⟨hlast, -, hend⟩ := Finset.mem_filter.mp (Finset.max'_mem _ hne)
    generalize (ticksWithin t n a b).min' hne = m at *
    generalize (ticksWithin t n a b).max' hne = k at *
    have hgap := interval_mul_le_gap h (by omega : m < k) (Finset.mem_range.mp hlast)
    have hcount : ((ticksWithin t n a b).card : Int) - 2 - 1 ≤ (k : Int) - m - 2 := by omega
    have hmul := Int.mul_le_mul_of_nonneg_right hcount (Int.natCast_nonneg p.interval)
    omega

theorem due_after_of_prompt (h : ∀ k < n, t k ≤ (p.after t k).due + 2 * p.interval) :
    (p.after t n).due = p.due + n * p.interval := by
  induction n with
  | zero => simp only [after, Nat.cast_zero, zero_mul, add_zero]
  | succ n ih =>
    have hlast : t n ≤ (p.after t n).due + 2 * (p.after t n).interval := by
      rw [interval_after]
      exact h n (Nat.lt_succ_self n)
    have hdue := due_advance_of_le hlast
    rw [interval_after, ih fun k hk ↦ h k (hk.trans (Nat.lt_succ_self n))] at hdue
    rw [after, hdue, Nat.cast_succ, add_mul, one_mul, add_assoc]

/-- A driver that waits for its ticks keeps to the rate whatever stalls it meets: a deadline is set
within an interval of the tick before it, a catch-up puts at most two ticks more than the nominal
ones into any window of time, and without a tick that is more than two intervals late the deadlines
do not drift. -/
theorem bursts_bounded_without_drift (h : p.Waits t n) :
    (∀ k < n, t k - p.interval ≤ (p.after t (k + 1)).due ∧
      (p.after t (k + 1)).due ≤ t k + p.interval) ∧
    (∀ m k, m < k → k < n → ((k : Int) - m - 2) * p.interval ≤ t k - t m) ∧
    (∀ a b, a ≤ b → (((ticksWithin t n a b).card : Int) - 2 - 1) * p.interval ≤ b - a) ∧
    ((∀ k < n, t k ≤ (p.after t k).due + 2 * p.interval) →
      (p.after t n).due = p.due + n * p.interval) := by
  refine ⟨?_, ?_, ?_, ?_⟩
  · intro k hk
    exact due_after_near h hk
  · intro m k hm hk
    exact interval_mul_le_gap h hm hk
  · intro a b hab
    exact ticksWithin_near_rate h hab
  · intro hprompt
    exact due_after_of_prompt hprompt

/-- After a stall of two intervals three ticks are taken at one time, and the deadlines are where
they would be without the stall. -/
theorem three_ticks_after_stall :
    Waits ⟨10, 0⟩ (fun _ ↦ 20) 3 ∧ ticksWithin (fun _ ↦ 20) 3 20 20 = {0, 1, 2} ∧
    (((ticksWithin (fun _ ↦ 20) 3 20 20).card : Int) - 2 - 1) * 10 ≤ 20 - 20 ∧
    (after ⟨10, 0⟩ (fun _ ↦ 20) 3).due = 0 + 3 * 10 := by
  have hw : Waits ⟨10, 0⟩ (fun _ ↦ 20) 3 := by decide
  obtain ⟨-, -, hwindow, hdrift⟩ := bursts_bounded_without_drift hw
  exact ⟨hw, by decide, hwindow 20 20 (le_refl 20), hdrift (by decide)⟩

end Chip8.Pacer
