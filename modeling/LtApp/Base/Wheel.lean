import Mathlib.Algebra.Order.Floor.Div
import Mathlib.Data.Nat.Count

/-!
# Every `k`-th tick of a wheel

A wheel of `w` places is turned one place at a time, and every `k`-th place is marked, beginning with the first. Where
the wheel starts over, the last gap may be too short. `marks_eq` counts the marks passed in `n` turns, and every `k`-th
turn passes one exactly if `k` divides `w` (`marks_exact_iff`).
-/

namespace LtApp

/-- The marks passed in `n` turns. -/
def marks (w k n : ℕ) : ℕ := n.count fun j => k ∣ j % w

variable {w k n : ℕ}

theorem count_dvd (hk : 0 < k) (n : ℕ) : n.count (k ∣ ·) = n ⌈/⌉ k := by
  induction n with
  | zero => simp
  | succ n ih =>
    have hshift : n + k = n + k - 1 + 1 := by omega
    have hdvd : k ∣ n + k - 1 + 1 ↔ k ∣ n := by rw [← hshift, Nat.dvd_add_left (dvd_refl k)]
    have hsucc : n + 1 + k - 1 = n + k - 1 + 1 := by omega
    rw [Nat.count_succ, ih, Nat.ceilDiv_eq_add_pred_div, Nat.ceilDiv_eq_add_pred_div, hsucc, Nat.succ_div]
    simp only [hdvd]

/-- One time round. -/
theorem marks_of_le (hk : 0 < k) (hn : n ≤ w) : marks w k n = n ⌈/⌉ k := by
  rw [← count_dvd hk, marks, Nat.count_eq_card_filter_range, Nat.count_eq_card_filter_range]
  congr 1
  apply Finset.filter_congr
  intro j hj
  have hlt : j < n := Finset.mem_range.1 hj
  rw [Nat.mod_eq_of_lt (by omega)]

/-- After a full round the wheel is where it was. -/
theorem marks_add (hk : 0 < k) (n : ℕ) : marks w k (w + n) = w ⌈/⌉ k + marks w k n := by
  have hround : w.count (fun j => k ∣ j % w) = w ⌈/⌉ k := marks_of_le hk (Nat.le_refl w)
  rw [marks, Nat.count_add, hround]
  simp only [Nat.add_mod_left, marks]

theorem marks_succ (w k n : ℕ) : marks w k (n + 1) = marks w k n + if k ∣ n % w then 1 else 0 := by
  unfold marks
  rw [Nat.count_succ]

/-- **The marks passed**: those of the full rounds, and those of the last. -/
theorem marks_eq (hk : 0 < k) (hw : 0 < w) (n : ℕ) : marks w k n = n / w * (w ⌈/⌉ k) + n % w ⌈/⌉ k := by
  have hrounds : ∀ q r, r < w → marks w k (w * q + r) = q * (w ⌈/⌉ k) + r ⌈/⌉ k := by
    intro q r hr
    induction q with
    | zero => simpa using marks_of_le hk (Nat.le_of_lt hr)
    | succ q ih =>
      have hsplit : w * (q + 1) + r = w + (w * q + r) := by
        rw [Nat.mul_succ]
        omega
      rw [hsplit, marks_add hk, ih, Nat.succ_mul]
      omega
  have hn := hrounds (n / w) (n % w) (Nat.mod_lt n hw)
  rwa [Nat.div_add_mod] at hn

/-- Every `k`-th turn passes a mark. -/
theorem marks_of_dvd (hk : 0 < k) (h : k ∣ w) (n : ℕ) : marks w k n = n ⌈/⌉ k := by
  rw [← count_dvd hk, marks]
  simp only [Nat.dvd_mod_iff h]

/-- **The marks are evenly spaced** exactly if they are on the wheel. -/
theorem marks_exact_iff (hk : 0 < k) : (∀ n, marks w k n = n ⌈/⌉ k) ↔ k ∣ w := by
  refine ⟨fun h => ?_, marks_of_dvd hk⟩
  -- the first turn of the second round passes a mark
  have hlast : marks w k (w + 1) = w ⌈/⌉ k + 1 := by
    have hone : marks w k 1 = 1 := by simp [marks, Nat.count_succ]
    rw [marks_add hk, hone]
  have hceil : (w + 1) ⌈/⌉ k = w / k + 1 := by
    have hsum : w + 1 + k - 1 = w + k := by omega
    rw [Nat.ceilDiv_eq_add_pred_div, hsum, Nat.add_div_right w hk]
  have heq : w ⌈/⌉ k = w / k := by
    have hn := h (w + 1)
    omega
  have hle : w ≤ k * (w ⌈/⌉ k) := by
    have hsmul := le_smul_ceilDiv (a := k) (b := w) hk
    simpa using hsmul
  rw [heq, Nat.mul_comm] at hle
  exact (Nat.dvd_iff_div_mul_eq w k).2 (Nat.le_antisymm (Nat.div_mul_le_self w k) hle)

end LtApp
